import X00TDCellular.IpaRmGrants

/-! The invariant of the resource manager through changes of the resources, their dependencies
and their bandwidth. -/

namespace X00TDCellular
open Function Tally

/-- The state and the wait of a producer whose dependency on `k` is cut. -/
def RmProdRes.cut (q : RmProdRes) (k : RmConsRes) : RmState × ℤ :=
  match q.state with
  | .requestInProgress =>
    let pending := if q.pendingRequest > 0 then q.pendingRequest-1 else q.pendingRequest
    (if k.state = .requestInProgress ∧ pending = 0 then .granted else .requestInProgress, pending)
  | state => (state, q.pendingRequest)

theorem RmProdRes.cut_active (q : RmProdRes) (k : RmConsRes) :
    ((q.cut k).1 = .granted ∨ (q.cut k).1 = .requestInProgress) ↔
      (q.state = .granted ∨ q.state = .requestInProgress) := by
  unfold cut
  cases hstate : q.state <;> dsimp only <;> (try split_ifs) <;> simp

theorem RmProdRes.cut_settled {q : RmProdRes} (h : q.state ≠ .releaseInProgress)
    (k : RmConsRes) : (q.cut k).1 ≠ .releaseInProgress := by
  unfold cut
  cases hstate : q.state
  case releaseInProgress => exact absurd hstate h
  all_goals dsimp only
  all_goals first | decide | (split_ifs <;> decide)

namespace RmDepGraph

variable {g : RmDepGraph} {U : RmProd → RmCons → Bool} {p : RmProd} {c : RmCons}
  {q : RmProdRes} {k : RmConsRes}

/-- Both ends of a dependency are rewritten, and the producer's bandwidth with them. -/
theorem Books.link (h : g.Books U) (hq : g.prods p = some q) (hk : g.conss c = some k)
    (dep : Option Bool) (q' : RmProdRes) (hpeers : q'.peers = update q.peers c dep)
    (hmax : q'.maxBw = q.maxBw)
    (hneeded : q'.neededBw = tally g.consBw fun c' => (q'.peers c').isSome) :
    ((g.setProd p q').setCons c { k with peers := update k.peers p dep }).Books U := by
  generalize hg : (g.setProd p q').setCons c { k with peers := update k.peers p dep } = g'
  have hprods : ∀ p', p' ≠ p → g'.prods p' = g.prods p' := by
    intro p' hp
    subst hg
    simp [hp]
  have hprod : g'.prods p = some q' := by
    subst hg
    simp
  have hconss : ∀ c', c' ≠ c → g'.conss c' = g.conss c' := by
    intro c' hc
    subst hg
    simp [hc]
  have hcons : g'.conss c = some { k with peers := update k.peers p dep } := by
    subst hg
    simp
  have hprodBw : g'.prodBw = g.prodBw := by
    funext p'
    by_cases hp : p' = p
    · subst hp
      simp [prodBw, hprod, hq, hmax]
    · simp [prodBw, hprods p' hp]
  have hconsBw : g'.consBw = g.consBw := by
    funext c'
    by_cases hc : c' = c
    · subst hc
      simp [consBw, hcons, hk]
    · simp [consBw, hconss c' hc]
  have hlookup : ∀ c' k', g'.conss c' = some k' → ∃ k'', g.conss c' = some k'' ∧
      k'.usageCount = k''.usageCount ∧ k'.neededBw = k''.neededBw ∧ k'.state = k''.state := by
    intro c' k' hk'
    by_cases hc : c' = c
    · subst hc
      obtain rfl := Option.some.inj (hcons.symm.trans hk')
      exact ⟨k, hk, rfl, rfl, rfl⟩
    · exact ⟨k', hconss c' hc ▸ hk', rfl, rfl, rfl⟩
  constructor
  case peers =>
    intro p' c'
    have hold := h.peers p' c'
    by_cases hp : p' = p <;> by_cases hc : c' = c
    · subst hp hc
      simp [hprod, hcons, hpeers]
    · subst hp
      simpa [hprod, hpeers, hc, hconss c' hc, hq] using hold
    · subst hc
      simpa [hcons, hp, hprods p' hp, hk] using hold
    · rw [hprods p' hp, hconss c' hc, hold]
  case usage =>
    intro c' k' hk'
    obtain ⟨k'', hk'', husage, -, -⟩ := hlookup c' k' hk'
    rw [husage, h.usage c' k'' hk'']
  case needed =>
    intro c' k' hk'
    obtain ⟨k'', hk'', -, hneed, -⟩ := hlookup c' k' hk'
    rw [hneed, h.needed c' k'' hk'', hprodBw]
  case idle =>
    intro c' k' hk'
    obtain ⟨k'', hk'', husage, -, hstate⟩ := hlookup c' k' hk'
    rw [husage, hstate]
    exact h.idle c' k'' hk''
  case supply =>
    intro p' q'' hq''
    rw [hconsBw]
    by_cases hp : p' = p
    · subst hp
      obtain rfl := Option.some.inj (hprod.symm.trans hq'')
      exact hneeded
    · exact h.supply p' q'' (hprods p' hp ▸ hq'')

/-- What a dependency adds to the bandwidth that the producer needs. -/
theorem Books.supply_add (h : g.Books U) (hq : g.prods p = some q) (hk : g.conss c = some k)
    (hnone : q.peers c = none) (user : Bool) :
    q.neededBw + k.maxBw =
      tally g.consBw fun c' => (update q.peers c (some user) c').isSome := by
  have hrow : (fun c' => (update q.peers c (some user) c').isSome) =
      update (fun c' => (q.peers c').isSome) c true := by
    funext c'
    by_cases hc : c' = c
    · subst hc
      simp
    · simp [hc]
  have hbw : g.consBw c = k.maxBw := by simp [consBw, hk]
  rw [hrow, tally_join (U := fun c' => (q.peers c').isSome) _ (by simp [hnone]),
    ← h.supply p q hq, hbw]

theorem Books.supply_sub (h : g.Books U) (hq : g.prods p = some q) (hk : g.conss c = some k)
    (hpeer : (q.peers c).isSome = true) :
    q.neededBw - k.maxBw = tally g.consBw fun c' => (update q.peers c none c').isSome := by
  have hrow : (fun c' => (update q.peers c none c').isSome) =
      update (fun c' => (q.peers c').isSome) c false := by
    funext c'
    by_cases hc : c' = c
    · subst hc
      simp
    · simp [hc]
  have hbw : g.consBw c = k.maxBw := by simp [consBw, hk]
  rw [hrow, tally_leave (U := fun c' => (q.peers c').isSome) _ hpeer, ← h.supply p q hq, hbw]

theorem setPeers_graph {s : Rm} (hq : s.prods p = some q) (hk : s.conss c = some k)
    (dep : Option Bool) :
    (s.setPeers p c dep).toRmDepGraph =
      (s.toRmDepGraph.setProd p { q with peers := update q.peers c dep }).setCons c
        { k with peers := update k.peers p dep } := by
  have hq' : s.toRmDepGraph.modifyProd p (fun q => { q with peers := update q.peers c dep }) =
      s.toRmDepGraph.setProd p { q with peers := update q.peers c dep } :=
    modifyProd_eq _ p hq _
  rw [Rm.setPeers, Rm.modifyCons_graph, Rm.modifyProd_graph, hq',
    modifyCons_eq (k := k) _ c (by simpa using hk)]

/-- What the lists say of a dependency is the same on both sides. -/
theorem Books.checkDependency (h : g.Books U) (hq : g.prods p = some q)
    (hk : g.conss c = some k) : ipaRmPeersListCheckDependency q p k c = q.peers c := by
  have hpeers : q.peers c = k.peers p := by simpa [hq, hk] using h.peers p c
  unfold ipaRmPeersListCheckDependency
  rw [← hpeers]
  cases q.peers c <;> rfl

end RmDepGraph

namespace Rm

variable {s s' : Rm} {p : RmProd} {c : RmCons} {q : RmProdRes} {k : RmConsRes}

/-- The rows of the other producers stay. -/
theorem Spares.of_link {U : RmProd → RmCons → Bool} {q' : RmProdRes} {k' : RmConsRes}
    (hk : s.conss c = some k)
    (h : s'.toRmDepGraph = (s.toRmDepGraph.setProd p q').setCons c k')
    (hstate : k'.state = k.state) : Spares s s' U U p where
  prods p' hp := by rw [h]; simp [hp]
  uses _ _ := rfl
  asking c' _ := by
    rw [h, RmDepGraph.asking_setCons, RmDepGraph.asking_setProd]
    split_ifs with hc
    · rw [hc, RmDepGraph.asking_eq hk, hstate]
    · rfl

/-- The dependency is in the lists, and the consumer not requested yet. -/
def addedDependency (s : Rm) (p : RmProd) (c : RmCons) (user : Bool) (bw : BitVec 32) : Rm :=
  (s.setPeers p c (some user)).modifyProd p fun q => { q with neededBw := q.neededBw + bw }

theorem addedDependency_graph (hq : s.prods p = some q) (hk : s.conss c = some k) (user : Bool) :
    (s.addedDependency p c user k.maxBw).toRmDepGraph =
      (s.toRmDepGraph.setProd p { q with
        peers := update q.peers c (some user), neededBw := q.neededBw + k.maxBw }).setCons c
        { k with peers := update k.peers p (some user) } := by
  have hset := RmDepGraph.setPeers_graph hq hk (some user)
  rw [addedDependency, modifyProd_graph, hset]
  simp [RmDepGraph.modifyProd, RmDepGraph.setProd, RmDepGraph.setCons]

/-- The lists after the dependency has been added, with the counters as they were. -/
theorem addedDependency_spec (h : s.Inv) (hq : s.prods p = some q) (hk : s.conss c = some k)
    (hnone : q.peers c = none) (user : Bool) :
    let q₁ := { q with peers := update q.peers c (some user), neededBw := q.neededBw + k.maxBw }
    let s₁ := s.addedDependency p c user k.maxBw
    s₁.prods p = some q₁ ∧ s₁.Books s.uses ∧ s₁.asking = s.asking ∧
      Spares s s₁ s.uses s.uses p := by
  intro q₁ s₁
  have hgraph := addedDependency_graph hq hk user
  refine ⟨by simp [s₁, hgraph, q₁], ?_, ?_, Spares.of_link hk hgraph rfl⟩
  · rw [hgraph]
    exact h.books.link hq hk (some user) q₁ rfl rfl (h.books.supply_add hq hk hnone user)
  · funext c'
    rw [hgraph, RmDepGraph.asking_setCons, RmDepGraph.asking_setProd]
    split_ifs with hc
    · rw [hc, RmDepGraph.asking_eq hk]
    · rfl

/-- A dependency is added to an active producer, whose consumer is requested at once. -/
theorem inv_addToActive (h : s.Inv) (hq : s.prods p = some q) (hk : s.conss c = some k)
    (hnone : q.peers c = none) (hactive : q.active = true) (user : Bool) {reply : RmReply}
    (hreply : reply.Answered) :
    let s₁ := (s.addedDependency p c user k.maxBw).setProdState p .requestInProgress
    let out := ipaRmResourceConsumerRequest (s₁.addPendingRequest p 1) c q.maxBw true false reply
    (out.2 = eInProgress ∧ out.1.Inv) ∨
      (out.2 = 0 ∧ ((out.1.setProdState p q.state).addPendingRequest p (-1)).Inv) := by
  intro s₁ out
  obtain ⟨hq₁, hbooks₁, hasking₁, hspares₁⟩ := addedDependency_spec h hq hk hnone user
  let q₁ := { q with peers := update q.peers c (some user), neededBw := q.neededBw + k.maxBw }
  have hgraph₁ : s₁.toRmDepGraph = (s.addedDependency p c user k.maxBw).toRmDepGraph.setProd p
      { q₁ with state := .requestInProgress } := setProdState_graph hq₁ .requestInProgress
  have hok := h.prods p q hq
  have hrow : ∀ c', s.uses p c' = (q.peers c').isSome := fun c' => by
    rw [RmDepGraph.uses_eq hq, hactive, Bool.true_and]
  have hU : s.uses p c = false := by simp [hrow, hnone]
  have hrow₁ : ∀ c', setPair s.uses p c true p c' = (q₁.peers c').isSome := fun c' => by
    by_cases hc : c' = c
    · subst hc
      simp [q₁]
    · rw [setPair_of_ne _ _ _ _ (fun h => hc h.2), hrow]
      simp [q₁, hc]
  have hreq : Requesting s₁ s.uses p q₁ q.pendingRequest := by
    refine ⟨?_, by simp [hgraph₁, q₁], ?_⟩
    · rw [hgraph₁]
      exact hbooks₁.setProd hq₁ _ rfl rfl rfl
    · rw [hgraph₁, RmDepGraph.asking_setProd, hasking₁, hok.pending hactive]
      simp only [hrow]
  have hspares₁' : Spares s s₁ s.uses s.uses p := hspares₁.trans (.of_setProd _ hgraph₁)
  have hnonneg : 0 ≤ q.pendingRequest := by
    rw [hok.pending hactive]
    exact count_nonneg _
  obtain ⟨hres, h₂, hspares⟩ | ⟨hres, h₂, hspares⟩ :=
    hreq.request hU (by simp [q₁]) hreply
  · refine .inl ⟨hres, inv_of_spares (h.but p) h₂.books ?_ (hspares₁'.trans hspares) ?_⟩
    · intro c'
      rw [hrow₁, RmDepGraph.uses_eq h₂.prod]
      rfl
    · intro q' hq'
      obtain rfl := Option.some.inj (h₂.prod.symm.trans hq')
      refine prodOk_of_pending _ ?_ (.inr ⟨rfl, by omega⟩)
      rw [h₂.pending]
      simp only [hrow₁]
      rfl
  · -- the producer goes back to the state it was in
    have hout : out.1.prods p = some
        { q₁ with state := .requestInProgress, pendingRequest := q.pendingRequest+1 } := by
      rw [consumerRequest_prods, addPendingRequest_graph hreq.prod]
      simp
    have hback := addPendingRequest_graph hout (-1)
    have hstate := setProdState_graph hout q.state
    have hgraph : ((out.1.setProdState p q.state).addPendingRequest p (-1)).toRmDepGraph =
        (out.1.addPendingRequest p (-1)).toRmDepGraph.setProd p
          { q₁ with state := q.state, pendingRequest := q.pendingRequest } := by
      rw [addPendingRequest_graph (by rw [hstate]; exact update_self _ _ _), hstate, hback]
      simp
    have hprod : ((out.1.setProdState p q.state).addPendingRequest p (-1)).prods p =
        some { q₁ with state := q.state, pendingRequest := q.pendingRequest } := by
      simp [hgraph]
    refine .inr ⟨hres, inv_of_spares (h.but p) ?_ ?_
      ((hspares₁'.trans hspares).trans (.of_setProd _ hgraph)) ?_⟩
    · rw [hgraph]
      exact h₂.books.setProd h₂.prod _ rfl rfl rfl
    · intro c'
      rw [hrow₁, RmDepGraph.uses_eq hprod]
      exact (Bool.true_and _).symm.trans (congrArg (· && _) hactive.symm)
    · intro q' hq'
      obtain rfl := Option.some.inj (hprod.symm.trans hq')
      refine prodOk_of_pending _ ?_ ?_
      · rw [hgraph, RmDepGraph.asking_setProd, h₂.pending]
        simp only [hrow₁]
        rfl
      · cases hstate : q.state <;> simp [RmProdRes.active, hstate] at hactive
        · exact .inr ⟨rfl, (hok.waiting hstate).ne'⟩
        · exact .inl ⟨rfl, hok.granted hstate⟩

theorem inv_addToInactive (h : s.Inv) (hq : s.prods p = some q) (hk : s.conss c = some k)
    (hnone : q.peers c = none) (hstate : q.state = .released ∨ q.state = .releaseInProgress)
    (user : Bool) : (s.addedDependency p c user k.maxBw).Inv := by
  obtain ⟨hq₁, hbooks₁, -, hspares₁⟩ := addedDependency_spec h hq hk hnone user
  have hinactive : q.active = false := by
    obtain hstate | hstate := hstate <;> simp [RmProdRes.active, hstate]
  have hreleased : q.state = .released :=
    hstate.resolve_right fun h' => (h.prods p q hq).settled h'
  refine inv_of_spares (h.but p) hbooks₁ ?_ hspares₁ ?_
  · intro c'
    rw [RmDepGraph.uses_eq hq, RmDepGraph.uses_eq hq₁]
    simp [RmProdRes.active, hreleased]
  · intro q' hq'
    obtain rfl := Option.some.inj (hq₁.symm.trans hq')
    exact prodOk_of_released hreleased

/-- The request that `ipa_rm_resource_add_dependency` makes for an active producer. -/
theorem addDependency_active (hq : s.prods p = some q) (hk : s.conss c = some k)
    (hcheck : ipaRmPeersListCheckDependency q p k c = none) (hactive : q.active = true)
    (user : Bool) (reply : RmReply) :
    let s₁ := (s.addedDependency p c user k.maxBw).setProdState p .requestInProgress
    let out := ipaRmResourceConsumerRequest (s₁.addPendingRequest p 1) c q.maxBw true false reply
    ipaRmResourceAddDependency s p c user reply =
      if out.2 ≠ eInProgress then
        (ipaRmPerfProfileChange ((out.1.setProdState p q.state).addPendingRequest p (-1))
          (.inl p), out.2)
      else out := by
  unfold ipaRmResourceAddDependency
  simp only [hq, hk, hcheck, Option.isSome_none, Bool.false_eq_true, if_false]
  cases hstate : q.state <;> simp [RmProdRes.active, hstate] at hactive <;> rfl

theorem inv_addDependency (h : s.Inv) (p : RmProd) (c : RmCons) (user : Bool)
    {reply : RmReply} (hreply : reply.Answered) :
    (ipaRmResourceAddDependency s p c user reply).1.Inv := by
  cases hq : s.prods p with
  | none => simpa only [ipaRmResourceAddDependency, hq] using h
  | some q =>
    cases hk : s.conss c with
    | none => simpa only [ipaRmResourceAddDependency, hq, hk] using h
    | some k =>
      have hcheck := h.books.checkDependency hq hk
      cases hnone : q.peers c with
      | some user' =>
        unfold ipaRmResourceAddDependency
        simpa only [hq, hk, hcheck, hnone, Option.isSome_some, if_true] using h
      | none =>
        rw [hnone] at hcheck
        cases hactive : q.active
        · have hstate : q.state = .released ∨ q.state = .releaseInProgress := by
            cases hstate : q.state <;> simp [RmProdRes.active, hstate] at hactive ⊢
          have hinv := inv_addToInactive h hq hk hnone hstate user
          unfold ipaRmResourceAddDependency
          simp only [hq, hk, hcheck, Option.isSome_none, Bool.false_eq_true, if_false]
          obtain hstate | hstate := hstate <;> simp only [hstate] <;> exact hinv
        · rw [addDependency_active hq hk hcheck hactive]
          obtain ⟨hres, hinv⟩ | ⟨hres, hinv⟩ :=
            inv_addToActive h hq hk hnone hactive user hreply
          · rw [if_neg (not_not.mpr hres)]
            exact hinv
          · rw [if_pos (by rw [hres]; exact eInProgress_ne_zero.symm)]
            exact (perfProfileChange_graph _ _).symm ▸ hinv

theorem deleteDependencyState_graph (bw : BitVec 32)
    (hq : s.prods p = some { q with neededBw := bw }) (hsettled : q.state ≠ .releaseInProgress)
    (k : RmConsRes) :
    (deleteDependencyState s p q k).1.toRmDepGraph = s.toRmDepGraph.setProd p
        { q with neededBw := bw, state := (q.cut k).1, pendingRequest := (q.cut k).2 } ∧
      (deleteDependencyState s p q k).2 = q.active := by
  have hself := RmDepGraph.setProd_eq_self _ p hq
  have hmodify := fun f => RmDepGraph.modifyProd_eq s.toRmDepGraph p hq f
  unfold deleteDependencyState RmProdRes.cut
  cases hstate : q.state
  case released =>
    rw [hstate] at hself
    exact ⟨hself.symm, by simp [RmProdRes.active, hstate]⟩
  case granted =>
    rw [hstate] at hself
    exact ⟨by simpa using hself.symm, by simp [RmProdRes.active, hstate]⟩
  case releaseInProgress => exact absurd hstate hsettled
  case requestInProgress =>
    simp only [RmProdRes.active, hstate, decide_true, Bool.or_true]
    generalize (if q.pendingRequest > 0 then q.pendingRequest-1 else q.pendingRequest) = n
    have hset := setProdState_graph (s := s.modifyProd p fun q => { q with pendingRequest := n })
      (p := p) (q := { q with neededBw := bw, pendingRequest := n }) (by simp [hmodify]) .granted
    split_ifs
    · refine ⟨?_, rfl⟩
      simpa [hmodify] using hset
    · refine ⟨?_, rfl⟩
      simp [hmodify, hstate]

/-- A dependency is cut in the lists, and the consumer not yet released. -/
def cutDependency (s : Rm) (p : RmProd) (c : RmCons) (q : RmProdRes) (k : RmConsRes) : Rm :=
  let s₁ := s.modifyProd p fun q => { q with neededBw := q.neededBw - k.maxBw }
  (deleteDependencyState s₁ p q k).1.setPeers p c none

theorem deleteDependency_eq (hq : s.prods p = some q) (hk : s.conss c = some k) {user : Bool}
    (hcheck : ipaRmPeersListCheckDependency q p k c = some user)
    (hsettled : q.state ≠ .releaseInProgress) (reply : RmReply) :
    (ipaRmResourceDeleteDependency s p c user reply).1 =
      if q.active then
        (ipaRmResourceConsumerRelease (s.cutDependency p c q k) c q.maxBw true reply).1
      else s.cutDependency p c q k := by
  have hgraph := RmDepGraph.modifyProd_eq s.toRmDepGraph p hq
    fun q => { q with neededBw := q.neededBw - k.maxBw }
  have hstate := (deleteDependencyState_graph (p := p) (q := q)
    (s := s.modifyProd p fun q => { q with neededBw := q.neededBw - k.maxBw })
    (q.neededBw - k.maxBw) (by simp [hgraph]) hsettled k).2
  unfold ipaRmResourceDeleteDependency
  simp only [hq, hk, hcheck, hstate, ne_eq, not_true_eq_false, if_false]
  split_ifs <;> rfl

theorem cutDependency_graph (hq : s.prods p = some q) (hk : s.conss c = some k)
    (hsettled : q.state ≠ .releaseInProgress) :
    (s.cutDependency p c q k).toRmDepGraph = (s.toRmDepGraph.setProd p { q with
        neededBw := q.neededBw - k.maxBw
        state := (q.cut k).1
        pendingRequest := (q.cut k).2
        peers := update q.peers c none }).setCons c
      { k with peers := update k.peers p none } := by
  have hgraph := RmDepGraph.modifyProd_eq s.toRmDepGraph p hq
    fun q => { q with neededBw := q.neededBw - k.maxBw }
  have hstate := (deleteDependencyState_graph (p := p) (q := q)
    (s := s.modifyProd p fun q => { q with neededBw := q.neededBw - k.maxBw })
    (q.neededBw - k.maxBw) (by simp [hgraph]) hsettled k).1
  rw [modifyProd_graph, hgraph, RmDepGraph.setProd_setProd] at hstate
  rw [cutDependency, RmDepGraph.setPeers_graph (by rw [hstate]; exact update_self _ _ _)
    (by rw [hstate]; exact hk), hstate, RmDepGraph.setProd_setProd]

/-- The wait of an active producer once a dependency is cut. -/
theorem prodOk_of_cut {g g' : RmDepGraph} (hok : g.ProdOk q) (hactive : q.active = true)
    (hk : g.conss c = some k) (hpeer : (q.peers c).isSome = true)
    (hbusy : k.state = .granted ∨ k.state = .requestInProgress)
    (hguard : ¬(q.state = .requestInProgress ∧ k.state = .granted))
    (hasking : ∀ c', c' ≠ c → g'.asking c' = g.asking c') (bw : BitVec 32) :
    g'.ProdOk { q with
      neededBw := bw
      state := (q.cut k).1
      pendingRequest := (q.cut k).2
      peers := update q.peers c none } := by
  have hcount : (count fun c' => (update q.peers c none c').isSome && g'.asking c') =
      q.pendingRequest - if g.asking c then 1 else 0 := by
    have hchange := tally_change (fun _ => (1 : ℤ)) (fun _ => (1 : ℤ))
      (fun c' => (q.peers c').isSome && g.asking c')
      (fun c' => (update q.peers c none c').isSome && g'.asking c') c
      (fun c' hc => by rw [update_of_ne hc, hasking c' hc]) (fun _ _ _ => rfl)
    rw [count, hchange, ← count, ← hok.pending hactive, hpeer]
    simp
  rw [RmDepGraph.asking_eq hk] at hcount
  have hstate : q.state = .granted ∨ q.state = .requestInProgress := by
    simpa [RmProdRes.active] using hactive
  have hend := prodOk_of_pending (g := g')
    (q := { q with neededBw := bw, peers := update q.peers c none }) (n := (q.cut k).2) (q.cut k).1
  obtain hstate | hstate := hstate
  · have hcut : q.cut k = (.granted, q.pendingRequest) := by simp [RmProdRes.cut, hstate]
    have h0 := hok.granted hstate
    -- nothing was asked, the consumer that goes included
    have hnonneg := count_nonneg fun c' => (update q.peers c none c').isSome && g'.asking c'
    rw [hcut] at hend ⊢
    refine hend ?_ (.inl ⟨rfl, h0⟩)
    rw [hcount] at hnonneg ⊢
    split_ifs at hnonneg ⊢ <;> omega
  · have hasked : k.state = .requestInProgress := hbusy.resolve_left fun h => hguard ⟨hstate, h⟩
    have hpos := hok.waiting hstate
    have hcut : q.cut k =
        (if q.pendingRequest-1 = 0 then .granted else .requestInProgress, q.pendingRequest-1) := by
      simp [RmProdRes.cut, hstate, hpos, hasked]
    rw [hcut] at hend ⊢
    refine hend ?_ ?_
    · simpa [hasked] using hcount.symm
    · by_cases h0 : q.pendingRequest-1 = 0
      · exact .inl ⟨if_pos h0, h0⟩
      · exact .inr ⟨if_neg h0, h0⟩

/-- A producer loses a dependency. Its own wait stays in step unless it waits while the
consumer it loses is granted. -/
theorem deleteDependency_spec (h : s.InvBut p) (hq : s.prods p = some q)
    (hk : s.conss c = some k) {user : Bool} (hpeer : q.peers c = some user) (reply : RmReply) :
    let out := (ipaRmResourceDeleteDependency s p c user reply).1
    out.InvBut p ∧ (∀ p', p' ≠ p → out.prods p' = s.prods p') ∧
      ∃ q', out.prods p = some q' ∧ q'.peers = update q.peers c none ∧
        (s.ProdOk q → ¬(q.state = .requestInProgress ∧ k.state = .granted) → out.ProdOk q') := by
  intro out
  have hsettled := h.settled q hq
  have hcheck := h.books.checkDependency hq hk
  rw [hpeer] at hcheck
  let q₁ : RmProdRes := { q with
    neededBw := q.neededBw - k.maxBw
    state := (q.cut k).1
    pendingRequest := (q.cut k).2
    peers := update q.peers c none }
  have hgraph₁ := cutDependency_graph hq hk hsettled
  generalize hs₁ : s.cutDependency p c q k = s₁ at hgraph₁
  have hout : out = if q.active then
      (ipaRmResourceConsumerRelease s₁ c q.maxBw true reply).1 else s₁ := by
    rw [← hs₁]
    exact deleteDependency_eq hq hk hcheck hsettled reply
  have hq₁ : s₁.prods p = some q₁ := by
    rw [hgraph₁]
    exact update_self _ _ _
  have hbooks₁ : s₁.Books s.uses := by
    rw [hgraph₁]
    exact h.books.link hq hk none q₁ rfl rfl (h.books.supply_sub hq hk (by simp [hpeer]))
  have hspares₁ : Spares s s₁ s.uses s.uses p := .of_link hk hgraph₁ rfl
  have hactive₁ : q₁.active = q.active := by
    have := q.cut_active k
    simp only [RmProdRes.active, q₁]
    grind
  have hsettled₁ : q₁.state ≠ .releaseInProgress := RmProdRes.cut_settled hsettled k
  cases hactive : q.active
  · rw [hactive] at hout
    obtain rfl : out = s₁ := hout
    have hreleased : q.state = .released := by
      cases hstate : q.state <;> simp [RmProdRes.active, hstate] at hactive hsettled ⊢
    refine ⟨invBut_of_spares h hbooks₁ ?_ hspares₁ ?_, hspares₁.prods, q₁, hq₁, rfl, fun _ _ => ?_⟩
    · intro c'
      rw [RmDepGraph.uses_eq hq, RmDepGraph.uses_eq hq₁, hactive₁, hactive]
      rfl
    · intro q' hq'
      rwa [← Option.some.inj (hq₁.symm.trans hq')]
    · exact prodOk_of_released (by simp [q₁, RmProdRes.cut, hreleased])
  · rw [hactive] at hout
    have hU : s.uses p c = true := by
      rw [RmDepGraph.uses_eq hq, hactive, hpeer]
      rfl
    obtain ⟨hbooks, hprods, hspares, hkeep⟩ := spares_consumerRelease hbooks₁ hU hq₁
      ⟨_, by rw [hgraph₁]; exact update_self _ _ _⟩ reply
    rw [if_pos rfl] at hout
    rw [← hout] at hbooks hprods hspares hkeep
    have hprod : out.prods p = some q₁ := by rw [hprods, hq₁]
    have hspares' := hspares₁.trans hspares
    refine ⟨invBut_of_spares h hbooks ?_ hspares' ?_, hspares'.prods, q₁, hprod, rfl,
      fun hok hguard => ?_⟩
    · intro c'
      rw [RmDepGraph.uses_eq hprod, hactive₁, hactive, Bool.true_and]
      by_cases hc : c' = c
      · subst hc
        simp [q₁]
      · rw [setPair_of_ne _ _ _ _ (fun h => hc h.2), RmDepGraph.uses_eq hq, hactive]
        simp [q₁, hc]
    · intro q' hq'
      rwa [← Option.some.inj (hprod.symm.trans hq')]
    · have hasking : ∀ c', c' ≠ c → out.asking c' = s.asking c' := fun c' hc => by
        rw [hkeep c' hc, hgraph₁, RmDepGraph.asking_setCons, if_neg hc,
          RmDepGraph.asking_setProd]
      exact prodOk_of_cut hok hactive hk (by simp [hpeer]) (h.books.busy hk hU).2 hguard hasking _

/-- The consumer that loses a producer; it does not become granted by it. -/
theorem deleteDependency_cons (h : s.InvBut p) (hq : s.prods p = some q)
    (hk : s.conss c = some k) {user : Bool} (hpeer : q.peers c = some user) (reply : RmReply) :
    ∃ k', (ipaRmResourceDeleteDependency s p c user reply).1.conss c = some k' ∧
      k'.peers = update k.peers p none ∧ (k'.state = .granted → k.state = .granted) := by
  have hsettled := h.settled q hq
  have hcheck := h.books.checkDependency hq hk
  rw [hpeer] at hcheck
  have hgraph := cutDependency_graph hq hk hsettled
  have hcons : (s.cutDependency p c q k).conss c =
      some { k with peers := update k.peers p none } := by
    rw [hgraph]
    exact update_self _ _ _
  rw [deleteDependency_eq hq hk hcheck hsettled reply]
  split_ifs with hactive
  · obtain ⟨state, hrel, hstate⟩ := consumerRelease_graph hcons q.maxBw true reply
    refine ⟨_, by rw [hrel]; exact update_self _ _ _, rfl, fun hgranted => ?_⟩
    obtain rfl | ⟨-, -, rfl | rfl⟩ := hstate
    · exact hgranted
    all_goals exact absurd hgranted (by simp [RmConsRes.closed])
  · exact ⟨_, hcons, rfl, id⟩

theorem inv_deleteDependency (h : s.Inv) (p : RmProd) (c : RmCons) (user : Bool)
    (reply : RmReply)
    (hguard : ∀ q k, s.prods p = some q → s.conss c = some k → (q.peers c).isSome = true →
      ¬(q.state = .requestInProgress ∧ k.state = .granted)) :
    (ipaRmResourceDeleteDependency s p c user reply).1.Inv := by
  cases hq : s.prods p with
  | none => simpa only [ipaRmResourceDeleteDependency, hq] using h
  | some q =>
    cases hk : s.conss c with
    | none => simpa only [ipaRmResourceDeleteDependency, hq, hk] using h
    | some k =>
      have hcheck := h.books.checkDependency hq hk
      cases hpeer : q.peers c with
      | none =>
        rw [hpeer] at hcheck
        simpa only [ipaRmResourceDeleteDependency, hq, hk, hcheck] using h
      | some added =>
        rw [hpeer] at hcheck
        by_cases huser : added = user
        · subst huser
          obtain ⟨hbut, -, q', hq', -, hok⟩ :=
            deleteDependency_spec (h.but p) hq hk hpeer reply
          refine hbut.inv fun q'' hq'' => ?_
          rw [← Option.some.inj (hq'.symm.trans hq'')]
          exact hok (h.prods p q hq) (hguard q k hq hk (by simp [hpeer]))
        · unfold ipaRmResourceDeleteDependency
          simpa only [hq, hk, hcheck, ne_eq, huser, not_false_iff, if_true] using h

/-- A producer that nobody depends on comes into the table or goes from it. -/
theorem inv_setIdleProd (h : s.Inv) (hold : ∀ q, s.prods p = some q → ∀ c, q.peers c = none)
    (new : Option RmProdRes) (hnew : ∀ q, new = some q → q.state = .released ∧
      q.neededBw = 0 ∧ ∀ c, q.peers c = none) :
    RmDepGraph.Inv { s.toRmDepGraph with prods := update s.prods p new } := by
  generalize hg : ({ s.toRmDepGraph with prods := update s.prods p new } : RmDepGraph) = g
  have hprods : ∀ p', p' ≠ p → g.prods p' = s.prods p' := by
    intro p' hp
    subst hg
    exact update_of_ne hp _ _
  have hprod : g.prods p = new := by
    subst hg
    exact update_self _ _ _
  have hconss : g.conss = s.conss := by
    subst hg
    rfl
  have hrow : ∀ c, s.uses p c = false := by
    intro c
    cases hq : s.prods p with
    | none => exact RmDepGraph.uses_eq_false hq c
    | some q => rw [RmDepGraph.uses_eq hq, hold q hq c, Option.isSome_none, Bool.and_false]
  have huses : g.uses = s.uses := by
    funext p' c
    by_cases hp : p' = p
    · subst hp
      rw [hrow]
      cases hq : new with
      | none => exact RmDepGraph.uses_eq_false (hprod.trans hq) c
      | some q => rw [RmDepGraph.uses_eq (hprod.trans hq), (hnew q hq).2.2 c, Option.isSome_none,
          Bool.and_false]
    · rw [RmDepGraph.uses, RmDepGraph.uses, hprods p' hp]
  have hasking : g.asking = s.asking := by
    funext c
    rw [RmDepGraph.asking, RmDepGraph.asking, hconss]
  have hconsBw : g.consBw = s.consBw := by
    funext c
    rw [RmDepGraph.consBw, RmDepGraph.consBw, hconss]
  have hbooks : g.Books s.uses := by
    constructor
    case peers =>
      intro p' c
      by_cases hp : p' = p
      · subst hp
        have hnone : (s.prods p').bind (·.peers c) = none := by
          cases hq : s.prods p' with
          | none => rfl
          | some q => simp [hold q hq c]
        rw [hconss, ← h.books.peers, hnone, hprod]
        cases hq : new with
        | none => rfl
        | some q => exact (hnew q hq).2.2 c
      · rw [hprods p' hp, hconss]
        exact h.books.peers p' c
    case usage => exact fun c k hk => h.books.usage c k (hconss ▸ hk)
    case needed =>
      intro c k hk
      rw [h.books.needed c k (hconss ▸ hk)]
      refine tally_congr (fun _ => rfl) fun p' hU => ?_
      have hp : p' ≠ p := fun hp => by simp [hp, hrow] at hU
      rw [RmDepGraph.prodBw, RmDepGraph.prodBw, hprods p' hp]
    case idle => exact fun c k hk => h.books.idle c k (hconss ▸ hk)
    case supply =>
      intro p' q hq
      rw [hconsBw]
      by_cases hp : p' = p
      · subst hp
        obtain ⟨-, hneeded, hnone⟩ := hnew q (hprod.symm.trans hq)
        rw [hneeded, tally_eq_zero fun c => by rw [hnone c]; rfl]
      · exact h.books.supply p' q (hprods p' hp ▸ hq)
  refine ⟨huses ▸ hbooks, fun p' q hq => ?_⟩
  by_cases hp : p' = p
  · subst hp
    exact prodOk_of_released (hnew q (hprod.symm.trans hq)).1
  · exact (h.prods p' q (hprods p' hp ▸ hq)).frame fun _ c _ => by rw [hasking]

/-- A consumer that nobody depends on comes into the table or goes from it. -/
theorem inv_setIdleCons (h : s.Inv) (hold : ∀ k, s.conss c = some k → ∀ p, k.peers p = none)
    (new : Option RmConsRes) (hnew : ∀ k, new = some k → k.usageCount = 0 ∧ k.neededBw = 0 ∧
      ∀ p, k.peers p = none) :
    RmDepGraph.Inv { s.toRmDepGraph with conss := update s.conss c new } := by
  generalize hg : ({ s.toRmDepGraph with conss := update s.conss c new } : RmDepGraph) = g
  have hconss : ∀ c', c' ≠ c → g.conss c' = s.conss c' := by
    intro c' hc
    subst hg
    exact update_of_ne hc _ _
  have hcons : g.conss c = new := by
    subst hg
    exact update_self _ _ _
  have hprods : g.prods = s.prods := by
    subst hg
    rfl
  have hpeers : ∀ p q, s.prods p = some q → q.peers c = none := by
    intro p q hq
    have hbind : q.peers c = (s.conss c).bind (·.peers p) := by
      rw [← h.books.peers p c, hq, Option.bind_some]
    cases hk : s.conss c with
    | none => rw [hbind, hk, Option.bind_none]
    | some k => rw [hbind, hk, Option.bind_some, hold k hk p]
  have huses : g.uses = s.uses := by
    funext p c'
    rw [RmDepGraph.uses, RmDepGraph.uses, hprods]
  have hcol : ∀ p, s.uses p c = false := by
    intro p
    cases hq : s.prods p with
    | none => exact RmDepGraph.uses_eq_false hq c
    | some q => rw [RmDepGraph.uses_eq hq, hpeers p q hq, Option.isSome_none, Bool.and_false]
  have hprodBw : g.prodBw = s.prodBw := by
    funext p
    rw [RmDepGraph.prodBw, RmDepGraph.prodBw, hprods]
  have hbooks : g.Books s.uses := by
    constructor
    case peers =>
      intro p c'
      rw [hprods]
      by_cases hc : c' = c
      · subst hc
        have hnone : (s.prods p).bind (·.peers c') = none := by
          cases hq : s.prods p with
          | none => rfl
          | some q => exact hpeers p q hq
        rw [hnone, hcons]
        cases hk : new with
        | none => rfl
        | some k => exact ((hnew k hk).2.2 p).symm
      · rw [hconss c' hc]
        exact h.books.peers p c'
    case usage =>
      intro c' k hk
      by_cases hc : c' = c
      · subst hc
        rw [(hnew k (hcons.symm.trans hk)).1, count_eq_zero_iff.mpr hcol]
      · exact h.books.usage c' k (hconss c' hc ▸ hk)
    case needed =>
      intro c' k hk
      rw [hprodBw]
      by_cases hc : c' = c
      · subst hc
        rw [(hnew k (hcons.symm.trans hk)).2.1, tally_eq_zero hcol]
      · exact h.books.needed c' k (hconss c' hc ▸ hk)
    case idle =>
      intro c' k hk hstate
      by_cases hc : c' = c
      · subst hc
        exact (hnew k (hcons.symm.trans hk)).1
      · exact h.books.idle c' k (hconss c' hc ▸ hk) hstate
    case supply =>
      intro p q hq
      rw [hprods] at hq
      rw [h.books.supply p q hq]
      refine tally_congr (fun _ => rfl) fun c' hpeer => ?_
      have hc : c' ≠ c := fun hc => by simp [hc, hpeers p q hq] at hpeer
      rw [RmDepGraph.consBw, RmDepGraph.consBw, hconss c' hc]
  refine ⟨huses ▸ hbooks, fun p q hq => ?_⟩
  rw [hprods] at hq
  refine (h.prods p q hq).frame fun _ c' hpeer => ?_
  have hc : c' ≠ c := fun hc => by simp [hc, hpeers p q hq] at hpeer
  rw [RmDepGraph.asking, RmDepGraph.asking, hconss c' hc]

/-- Each dependency of a producer is cut in turn, whatever its own wait. -/
theorem cutAll_of_prod (h : s.InvBut p) (hq : s.prods p = some q) (env : RmEnv) :
    let s' := RmCons.all.foldl (deletePeerOfProd p env) s
    s'.InvBut p ∧ ∃ q', s'.prods p = some q' ∧ ∀ c, q'.peers c = none := by
  intro s'
  have hall := PointwiseFold.foldl_inv (deletePeerOfProd p env)
    (fun (s : Rm) cs => s.InvBut p ∧ ∃ q', s.prods p = some q' ∧
      ∀ c, c ∉ cs → q'.peers c = none)
    (fun s c cs ⟨hbut, q, hq, hdone⟩ => by
      simp only [deletePeerOfProd, hq, Option.bind_some]
      cases hpeer : q.peers c with
      | none =>
        refine ⟨hbut, q, hq, fun c' hc' => ?_⟩
        by_cases hc : c' = c
        · rw [hc, hpeer]
        · exact hdone c' (by simp [hc, hc'])
      | some user =>
        obtain ⟨k, hk, -⟩ := hbut.books.exists_cons (c := c) hq (by simp [hpeer])
        obtain ⟨hbut', -, q', hq', hpeers', -⟩ :=
          deleteDependency_spec hbut hq hk hpeer (env p c)
        refine ⟨hbut', q', hq', fun c' hc' => ?_⟩
        rw [hpeers']
        by_cases hc : c' = c
        · rw [hc, update_self]
        · rw [update_of_ne hc]
          exact hdone c' (by simp [hc, hc'])) s RmCons.all
    ⟨h, q, hq, fun c hc => absurd (RmCons.mem_all c) hc⟩
  obtain ⟨hbut, q', hq', hnone⟩ := hall
  exact ⟨hbut, q', hq', fun c => hnone c List.not_mem_nil⟩

theorem inv_deleteProducer (h : s.Inv) (hq : s.prods p = some q) (env : RmEnv) :
    (deleteProducer s p env).Inv := by
  obtain ⟨hbut, q₁, hq₁, hnone⟩ := cutAll_of_prod (h.but p) hq env
  obtain ⟨hinv, q₂, hq₂, -, hpeers⟩ := inv_producerRelease hbut hq₁ (env p)
  refine inv_setIdleProd hinv (fun q hq => ?_) none (fun _ h => nomatch h)
  rw [← Option.some.inj (hq₂.symm.trans hq), hpeers]
  exact hnone

/-- Each producer is cut off from a consumer in turn; those that wait are waiting for it. -/
theorem cutAll_of_cons (h : s.Inv) (hk : s.conss c = some k)
    (hguard : ∀ p q, s.prods p = some q → (q.peers c).isSome = true →
      ¬(q.state = .requestInProgress ∧ k.state = .granted)) (env : RmEnv) :
    let s' := RmProd.all.foldl (deletePeerOfCons c env) s
    s'.Inv ∧ ∃ k', s'.conss c = some k' ∧ ∀ p, k'.peers p = none := by
  intro s'
  have hall := PointwiseFold.foldl_inv (deletePeerOfCons c env)
    (fun (s : Rm) ps => s.Inv ∧ ∃ k', s.conss c = some k' ∧ (∀ p, p ∉ ps → k'.peers p = none) ∧
      ∀ p q, s.prods p = some q → (q.peers c).isSome = true →
        ¬(q.state = .requestInProgress ∧ k'.state = .granted))
    (fun s p ps ⟨hinv, k, hk, hdone, hguard⟩ => by
      simp only [deletePeerOfCons, hk, Option.bind_some]
      cases hpeer : k.peers p with
      | none =>
        refine ⟨hinv, k, hk, fun p' hp' => ?_, hguard⟩
        by_cases hp : p' = p
        · rw [hp, hpeer]
        · exact hdone p' (by simp [hp, hp'])
      | some user =>
        obtain ⟨q, hq, hpeers⟩ := hinv.books.exists_prod (p := p) hk (by simp [hpeer])
        rw [hpeer] at hpeers
        obtain ⟨hbut, hother, q', hq', hpeers', -⟩ :=
          deleteDependency_spec (hinv.but p) hq hk hpeers (env p c)
        obtain ⟨k', hk', hcut, hstate⟩ :=
          deleteDependency_cons (hinv.but p) hq hk hpeers (env p c)
        have hinv' := inv_deleteDependency hinv p c user (env p c) fun q₁ k₁ hq₁ hk₁ hpeer₁ => by
          rw [← Option.some.inj (hk.symm.trans hk₁)]
          exact hguard p q₁ hq₁ hpeer₁
        refine ⟨hinv', k', hk', fun p' hp' => ?_, fun p' q₁ hq₁ hpeer₁ => ?_⟩
        · rw [hcut]
          by_cases hp : p' = p
          · rw [hp, update_self]
          · rw [update_of_ne hp]
            exact hdone p' (by simp [hp, hp'])
        · have hp : p' ≠ p := by
            rintro rfl
            rw [← Option.some.inj (hq'.symm.trans hq₁), hpeers', update_self] at hpeer₁
            exact absurd hpeer₁ (by decide)
          rw [hother p' hp] at hq₁
          exact fun h' => hguard p' q₁ hq₁ hpeer₁ ⟨h'.1, hstate h'.2⟩) s RmProd.all
    ⟨h, k, hk, fun p hp => absurd (RmProd.mem_all p) hp, hguard⟩
  obtain ⟨hinv, k', hk', hnone, -⟩ := hall
  exact ⟨hinv, k', hk', fun p => hnone p List.not_mem_nil⟩

theorem inv_deleteConsumer (h : s.Inv) (hk : s.conss c = some k)
    (hguard : ∀ p q, s.prods p = some q → (q.peers c).isSome = true →
      ¬(q.state = .requestInProgress ∧ k.state = .granted)) (env : RmEnv) :
    (deleteConsumer s c env).Inv := by
  obtain ⟨hinv, k₁, hk₁, hnone⟩ := cutAll_of_cons h hk hguard env
  refine inv_setIdleCons hinv (fun k hk => ?_) none (fun _ h => nomatch h)
  rw [← Option.some.inj (hk₁.symm.trans hk)]
  exact hnone

end Rm

end X00TDCellular
