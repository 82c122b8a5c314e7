import X00TDCellular.IpaRmBooks

/-! The invariant of the resource manager: a granted producer has every consumer it depends
on, and one that waits is waiting for somebody. -/

namespace X00TDCellular
open Function Tally

namespace Rm

variable {s s' : Rm} {U : RmProd → RmCons → Bool} {p : RmProd} {c : RmCons} {q : RmProdRes}
  {n : ℤ}

theorem addPendingRequest_graph (h : s.prods p = some q) (m : ℤ) :
    (s.addPendingRequest p m).toRmDepGraph =
      s.toRmDepGraph.setProd p { q with pendingRequest := q.pendingRequest+m } :=
  RmDepGraph.modifyProd_eq _ p h _

theorem addPendingRelease_graph (h : s.prods p = some q) (m : ℤ) :
    (s.addPendingRelease p m).toRmDepGraph =
      s.toRmDepGraph.setProd p { q with pendingRelease := q.pendingRelease+m } :=
  RmDepGraph.modifyProd_eq _ p h _

theorem setProdState_graph (h : s.prods p = some q) (state : RmState) :
    (s.setProdState p state).toRmDepGraph =
      s.toRmDepGraph.setProd p { q with state := state } :=
  RmDepGraph.modifyProd_eq _ p h _

/-- The producer is in the loop of its request, and waits for `n` of those it has asked. -/
structure Requesting (s : Rm) (U : RmProd → RmCons → Bool) (p : RmProd) (q : RmProdRes)
    (n : ℤ) : Prop where
  books : s.Books U
  prod : s.prods p = some { q with state := .requestInProgress, pendingRequest := n }
  pending : n = count fun c => U p c && s.asking c

/-- What a step of producer `p` leaves to the others: their records, and the state of the
consumers they count on. -/
structure Spares (s s' : Rm) (U U' : RmProd → RmCons → Bool) (p : RmProd) : Prop where
  prods : ∀ p', p' ≠ p → s'.prods p' = s.prods p'
  uses : ∀ p', p' ≠ p → U' p' = U p'
  asking : ∀ c, (∃ p', p' ≠ p ∧ U p' c = true) → s'.asking c = s.asking c

theorem Spares.refl (s : Rm) (U : RmProd → RmCons → Bool) (p : RmProd) :
    Spares s s U U p := ⟨fun _ _ => rfl, fun _ _ => rfl, fun _ _ => rfl⟩

theorem Spares.trans {s₁ s₂ s₃ : Rm} {U₁ U₂ U₃ : RmProd → RmCons → Bool}
    (h : Spares s₁ s₂ U₁ U₂ p) (h' : Spares s₂ s₃ U₂ U₃ p) : Spares s₁ s₃ U₁ U₃ p where
  prods p' hp := (h'.prods p' hp).trans (h.prods p' hp)
  uses p' hp := (h'.uses p' hp).trans (h.uses p' hp)
  asking c := by
    rintro ⟨p', hp, hU⟩
    rw [h'.asking c ⟨p', hp, by rwa [h.uses p' hp]⟩, h.asking c ⟨p', hp, hU⟩]

theorem Spares.of_setProd {q' : RmProdRes} (U : RmProd → RmCons → Bool)
    (h : s'.toRmDepGraph = s.toRmDepGraph.setProd p q') : Spares s s' U U p where
  prods p' hp := by rw [h, RmDepGraph.setProd_prods, update_of_ne hp]
  uses _ _ := rfl
  asking c _ := by rw [h, RmDepGraph.asking_setProd]

/-- One consumer in the loop of the request. -/
theorem Requesting.request {reply : RmReply} (h : Requesting s U p q n) (hU : U p c = false)
    (hpeer : (q.peers c).isSome = true) (hreply : reply.Answered) :
    let s₁ := s.addPendingRequest p 1
    let out := ipaRmResourceConsumerRequest s₁ c q.maxBw true false reply
    let U' := Tally.setPair U p c true
    let s₂ := out.1.addPendingRequest p (-1)
    out.2 = eInProgress ∧ Requesting out.1 U' p q (n+1) ∧ Spares s out.1 U U' p ∨
      out.2 = 0 ∧ Requesting s₂ U' p q n ∧ Spares s s₂ U U' p := by
  intro s₁ out U' s₂
  let q₁ : RmProdRes := { q with state := .requestInProgress, pendingRequest := n+1 }
  have hgraph : s₁.toRmDepGraph = s.toRmDepGraph.setProd p q₁ := addPendingRequest_graph h.prod 1
  have hq₁ : s₁.prods p = some q₁ := by simp [hgraph]
  have hbooks₁ : s₁.Books U := by
    rw [hgraph]
    exact h.books.setProd h.prod q₁ rfl rfl rfl
  obtain ⟨k, hk, -⟩ := hbooks₁.exists_cons hq₁ hpeer
  obtain ⟨hbooks, hprods, hend, hkeep⟩ := books_consumerRequest hbooks₁ hU hq₁ hk hreply
  have hasking₁ : s₁.asking = s.asking := by rw [hgraph, RmDepGraph.asking_setProd]
  have hkeep' : ∀ c', (c' = c → ∃ p', p' ≠ p ∧ U p' c = true) →
      out.1.asking c' = s.asking c' := by
    intro c' hc'
    rw [← hasking₁]
    exact hkeep c' fun hc => (hc' hc).imp fun _ h => h.2
  have hprod : out.1.prods p = some q₁ := by rw [hprods, hq₁]
  -- the row of the producer changes at this consumer only
  have hcount : (count fun c' => Tally.setPair U p c true p c' && out.1.asking c') =
      n + if out.1.asking c then 1 else 0 := by
    have hchange := tally_change (fun _ => (1 : ℤ)) (fun _ => (1 : ℤ))
      (fun c' => U p c' && s.asking c')
      (fun c' => Tally.setPair U p c true p c' && out.1.asking c') c
      (fun c' hc => by
        rw [setPair_of_ne U p c true (fun h => hc h.2), hkeep' c' (fun h => absurd h hc)])
      (fun _ _ _ => rfl)
    rw [count, hchange, setPair_self, hU, ← count, ← h.pending]
    simp
  have hspares : Spares s out.1 U U' p := by
    refine ⟨?_, ?_, fun c' h' => hkeep' c' fun hc => hc ▸ h'⟩
    · intro p' hp'
      rw [hprods, hgraph]
      exact update_of_ne hp' _ _
    · intro p' hp'
      exact funext fun _ => setPair_of_ne U p c true fun h => hp' h.1
  obtain ⟨hres, hasks⟩ | ⟨hres, hasks⟩ := hend
  · refine .inl ⟨hres, ⟨hbooks, hprod, ?_⟩, hspares⟩
    rw [hcount, hasks]
    rfl
  · have hgraph₂ : s₂.toRmDepGraph = out.1.toRmDepGraph.setProd p
        { q with state := .requestInProgress, pendingRequest := n+1+(-1) } :=
      addPendingRequest_graph hprod (-1)
    have hasking₂ : s₂.asking = out.1.asking := by rw [hgraph₂, RmDepGraph.asking_setProd]
    refine .inr ⟨hres, ⟨?_, ?_, ?_⟩, hspares.trans (.of_setProd U' hgraph₂)⟩
    · rw [hgraph₂]
      exact hbooks.setProd hprod _ rfl rfl rfl
    · rw [hgraph₂, RmDepGraph.setProd_prods, update_self, add_neg_cancel_right]
    · rw [hasking₂, hcount, hasks]
      simp

/-- The loop of the request asks every consumer of the list that the producer depends on. -/
theorem requesting_peers {env : RmCons → RmReply} (henv : ∀ c, (env c).Answered)
    {cs : List RmCons} (hcs : cs.Nodup) (h : Requesting s U p q n)
    (hfree : ∀ c ∈ cs, U p c = false) (res : ℤ) :
    ∃ s' U' n' res', producerRequestPeers p q env cs s res = (s', res', false) ∧
      Requesting s' U' p q n' ∧ Spares s s' U U' p ∧
      (∀ c, U' p c = (U p c || (decide (c ∈ cs) && (q.peers c).isSome))) ∧
      (n' = n ∧ res' = res ∨ res' = eInProgress) := by
  induction cs generalizing s U n res with
  | nil => exact ⟨s, U, n, res, rfl, h, .refl s U p, by simp, .inl ⟨rfl, rfl⟩⟩
  | cons c cs ih =>
    obtain ⟨hc, hcs⟩ := List.nodup_cons.mp hcs
    by_cases hpeer : (q.peers c).isSome = true
    · have hfree' : ∀ c' ∈ cs, Tally.setPair U p c true p c' = false := by
        intro c' hc'
        rw [setPair_of_ne U p c true (fun h => hc (h.2 ▸ hc'))]
        exact hfree c' (List.mem_cons_of_mem c hc')
      have hrow : ∀ c', (Tally.setPair U p c true p c' || decide (c' ∈ cs) && (q.peers c').isSome) =
          (U p c' || decide (c' ∈ c :: cs) && (q.peers c').isSome) := by
        intro c'
        by_cases hc' : c' = c
        · subst hc'
          simp [hpeer]
        · rw [setPair_of_ne U p c true (fun h => hc' h.2)]
          simp [hc']
      obtain ⟨hout, hnext, hspares⟩ | ⟨hout, hnext, hspares⟩ :=
        h.request (hfree c List.mem_cons_self) hpeer (henv c)
      · obtain ⟨s', U', n', res', hrun, h', hspares', hU', hres⟩ :=
          ih hcs hnext hfree' eInProgress
        refine ⟨s', U', n', res', ?_, h', hspares.trans hspares', fun c' => ?_, .inr ?_⟩
        · rw [producerRequestPeers, if_pos hpeer]
          simp only [hout, if_true]
          exact hrun
        · rw [hU', hrow]
        · exact hres.elim And.right id
      · obtain ⟨s', U', n', res', hrun, h', hspares', hU', hres⟩ := ih hcs hnext hfree' res
        refine ⟨s', U', n', res', ?_, h', hspares.trans hspares', fun c' => ?_, hres⟩
        · rw [producerRequestPeers, if_pos hpeer]
          simp only [hout, eInProgress_ne_zero.symm, if_false, ne_eq, not_true_eq_false]
          exact hrun
        · rw [hU', hrow]
    · obtain ⟨s', U', n', res', hrun, h', hspares, hU', hres⟩ :=
        ih hcs h (fun c' hc' => hfree c' (List.mem_cons_of_mem c hc')) res
      refine ⟨s', U', n', res', ?_, h', hspares, fun c' => ?_, hres⟩
      · rw [producerRequestPeers, if_neg hpeer, hrun]
      · rw [hU']
        by_cases hc' : c' = c
        · subst hc'
          simp [hpeer]
        · simp [hc']

theorem Spares.uses_eq {U' : RmProd → RmCons → Bool} (hspares : Spares s s' s.uses U' p)
    (hU : ∀ c, U' p c = s'.uses p c) : U' = s'.uses := by
  funext p' c
  by_cases hp' : p' = p
  · rw [hp', hU]
  · rw [hspares.uses p' hp', RmDepGraph.uses, RmDepGraph.uses, hspares.prods p' hp']

/-- The invariant after an operation on one producer, that producer apart. -/
theorem invBut_of_spares {U' : RmProd → RmCons → Bool} (h : s.InvBut p) (hbooks : s'.Books U')
    (hU : ∀ c, U' p c = s'.uses p c) (hspares : Spares s s' s.uses U' p)
    (hp : ∀ q, s'.prods p = some q → q.state ≠ .releaseInProgress) : s'.InvBut p := by
  refine ⟨hspares.uses_eq hU ▸ hbooks, fun p' q' hp' hq' => ?_, hp⟩
  have hq := hspares.prods p' hp' ▸ hq'
  refine (h.prods p' q' hp' hq).frame fun hactive c hpeer => hspares.asking c ⟨p', hp', ?_⟩
  rw [RmDepGraph.uses_eq hq, hactive, hpeer]
  rfl

/-- The invariant after an operation on one producer. -/
theorem inv_of_spares {U' : RmProd → RmCons → Bool} (h : s.InvBut p) (hbooks : s'.Books U')
    (hU : ∀ c, U' p c = s'.uses p c) (hspares : Spares s s' s.uses U' p)
    (hp : ∀ q, s'.prods p = some q → s'.ProdOk q) : s'.Inv :=
  (invBut_of_spares h hbooks hU hspares fun q hq => (hp q hq).settled).inv hp

/-- A producer whose wait is `n` long, all of it for consumers it depends on. -/
theorem prodOk_of_pending {g : RmDepGraph} {q : RmProdRes} (state : RmState)
    (hn : n = count fun c => (q.peers c).isSome && g.asking c)
    (hstate : state = .granted ∧ n = 0 ∨ state = .requestInProgress ∧ n ≠ 0) :
    g.ProdOk { q with state := state, pendingRequest := n } := by
  have hnonneg : 0 ≤ n := hn ▸ count_nonneg _
  obtain ⟨rfl, h0⟩ | ⟨rfl, h0⟩ := hstate
  · exact ⟨by simp, fun _ => h0, by simp, fun _ => hn⟩
  · exact ⟨by simp, by simp, fun _ => by dsimp only; omega, fun _ => hn⟩

/-- The request of a producer that is not active. -/
theorem inv_requestInactive (h : s.Inv) (hq : s.prods p = some q) (hinactive : q.active = false)
    {env : RmCons → RmReply} (henv : ∀ c, (env c).Answered) :
    let out := ipaRmResourceProducerRequest s p env
    out.1.Inv ∧ ∃ q', out.1.prods p = some q' ∧
      (q'.state = .granted ∧ out.2 = 0 ∨ q'.state = .requestInProgress ∧ out.2 = eInProgress) := by
  intro out
  let s₁ := s.setProd p { q with state := .requestInProgress, pendingRequest := 0 }
  have hrow : ∀ c, s.uses p c = false := fun c => by
    rw [RmDepGraph.uses_eq hq, hinactive, Bool.false_and]
  have h₁ : Requesting s₁ s.uses p q 0 := by
    refine ⟨h.books.setProd hq _ rfl rfl rfl, by simp [s₁], ?_⟩
    symm
    exact count_eq_zero_iff.mpr fun c => by rw [hrow c, Bool.false_and]
  obtain ⟨s₂, U₂, n, res, hrun, h₂, hspares, hU₂, hres⟩ :=
    requesting_peers henv RmCons.nodup_all h₁ (fun c _ => hrow c) 0
  have hspares₂ : Spares s s₂ s.uses U₂ p := (Spares.of_setProd s.uses rfl).trans hspares
  have hU₂' : ∀ c, U₂ p c = (q.peers c).isSome := fun c => by
    rw [hU₂, hrow c]
    simp [RmCons.mem_all]
  have hn : n = count fun c => (q.peers c).isSome && s₂.asking c := by
    rw [h₂.pending]
    simp only [hU₂']
  have hstart : out = if n = 0 then
      ((ipaRmPerfProfileChange (s₂.setProdState p .granted) (.inl p)).push
        (.notifyProd p .granted true), 0) else (s₂, res) := by
    have hswitch : q.state = .released ∨ q.state = .releaseInProgress := by
      cases hstate : q.state <;> simp [RmProdRes.active, hstate] at hinactive ⊢
    obtain hstate | hstate := hswitch <;>
      simp only [out, ipaRmResourceProducerRequest, hq, hstate] <;>
      simp only [s₁] at hrun <;>
      simp only [hrun, h₂.prod, Option.any_some, decide_eq_true_eq]
  by_cases hzero : n = 0
  · rw [if_pos hzero] at hstart
    have hgraph : out.1.toRmDepGraph =
        s₂.toRmDepGraph.setProd p { q with state := .granted, pendingRequest := n } := by
      rw [hstart]
      simpa using setProdState_graph h₂.prod .granted
    have hprod : out.1.prods p = some { q with state := .granted, pendingRequest := n } := by
      simp [hgraph]
    refine ⟨inv_of_spares (h.but p) ?_ ?_ (hspares₂.trans (.of_setProd U₂ hgraph)) ?_, _, hprod,
      .inl ⟨rfl, by rw [hstart]⟩⟩
    · rw [hgraph]
      exact h₂.books.setProd h₂.prod _ rfl rfl rfl
    · intro c
      rw [hU₂', RmDepGraph.uses_eq hprod]
      rfl
    · intro q' hq'
      obtain rfl := Option.some.inj (hprod.symm.trans hq')
      refine prodOk_of_pending _ ?_ (.inl ⟨rfl, hzero⟩)
      rw [hgraph, RmDepGraph.asking_setProd, hn]
  · rw [if_neg hzero] at hstart
    have hres' : res = eInProgress := hres.resolve_left fun h' => hzero h'.1
    rw [hstart]
    refine ⟨inv_of_spares (h.but p) h₂.books ?_ hspares₂ ?_, _, h₂.prod, .inr ⟨rfl, hres'⟩⟩
    · intro c
      rw [hU₂', RmDepGraph.uses_eq h₂.prod]
      rfl
    · intro q' hq'
      obtain rfl := Option.some.inj (h₂.prod.symm.trans hq')
      exact prodOk_of_pending _ hn (.inr ⟨rfl, hzero⟩)

/-- A request ends with the producer granted, or it is in progress and the caller is told. -/
theorem inv_producerRequest (h : s.Inv) (hq : s.prods p = some q) {env : RmCons → RmReply}
    (henv : ∀ c, (env c).Answered) :
    let out := ipaRmResourceProducerRequest s p env
    out.1.Inv ∧ ∃ q', out.1.prods p = some q' ∧
      (q'.state = .granted ∧ out.2 = 0 ∨ q'.state = .requestInProgress ∧ out.2 = eInProgress) := by
  intro out
  cases hstate : q.state
  case granted =>
    have hout : out = (s, 0) := by simp only [out, ipaRmResourceProducerRequest, hq, hstate]
    rw [hout]
    exact ⟨h, q, hq, .inl ⟨hstate, rfl⟩⟩
  case requestInProgress =>
    have hout : out = (s, eInProgress) := by
      simp only [out, ipaRmResourceProducerRequest, hq, hstate]
    rw [hout]
    exact ⟨h, q, hq, .inr ⟨hstate, rfl⟩⟩
  all_goals exact inv_requestInactive h hq (by simp [RmProdRes.active, hstate]) henv

/-- The producer is in the loop of its release. -/
structure Releasing (s : Rm) (U : RmProd → RmCons → Bool) (p : RmProd) (q : RmProdRes) :
    Prop where
  books : s.Books U
  prod : s.prods p = some { q with state := .releaseInProgress, pendingRelease := 0 }

/-- Releasing a consumer that `p` counts on. -/
theorem spares_consumerRelease (h : s.Books U) (hU : U p c = true) (hq : s.prods p = some q)
    (hk : ∃ k, s.conss c = some k) (reply : RmReply) :
    let out := (ipaRmResourceConsumerRelease s c q.maxBw true reply).1
    out.Books (Tally.setPair U p c false) ∧ out.prods = s.prods ∧
      Spares s out U (Tally.setPair U p c false) p ∧
      ∀ c', c' ≠ c → out.asking c' = s.asking c' := by
  intro out
  obtain ⟨k, hk⟩ := hk
  obtain ⟨hbooks, hprods, hkeep⟩ := books_consumerRelease h hU hq hk reply
  refine ⟨hbooks, hprods, ⟨fun _ _ => congrFun hprods _, ?_, ?_⟩,
    fun c' hc => hkeep c' fun h => absurd h hc⟩
  · intro p' hp'
    exact funext fun _ => setPair_of_ne U p c false fun h => hp' h.1
  · rintro c' ⟨p', hp', hU'⟩
    refine hkeep c' fun hc => ⟨p', ?_⟩
    rwa [← hc, setPair_of_ne U p c' false fun h => hp' h.1]

/-- One consumer in the loop of the release. -/
theorem Releasing.release (h : Releasing s U p q) (hU : U p c = true)
    (hpeer : (q.peers c).isSome = true) (reply : RmReply) :
    let s₁ := s.addPendingRelease p 1
    let s₂ := (ipaRmResourceConsumerRelease s₁ c q.maxBw true reply).1.addPendingRelease p (-1)
    Releasing s₂ (Tally.setPair U p c false) p q ∧
      Spares s s₂ U (Tally.setPair U p c false) p := by
  intro s₁ s₂
  let q₁ : RmProdRes := { q with state := .releaseInProgress, pendingRelease := 1 }
  have hgraph₁ : s₁.toRmDepGraph = s.toRmDepGraph.setProd p q₁ := addPendingRelease_graph h.prod 1
  have hq₁ : s₁.prods p = some q₁ := by simp [hgraph₁]
  have hbooks₁ : s₁.Books U := by
    rw [hgraph₁]
    exact h.books.setProd h.prod q₁ rfl rfl rfl
  obtain ⟨k, hk, -⟩ := hbooks₁.exists_cons hq₁ hpeer
  obtain ⟨hbooks, hprods, hspares, -⟩ :=
    spares_consumerRelease hbooks₁ hU hq₁ ⟨k, hk⟩ reply
  have hprod : (ipaRmResourceConsumerRelease s₁ c q.maxBw true reply).1.prods p = some q₁ := by
    rw [← hq₁, ← hprods]
  have hgraph₂ := addPendingRelease_graph hprod (-1)
  refine ⟨⟨?_, ?_⟩, ((Spares.of_setProd U hgraph₁).trans hspares).trans (.of_setProd _ hgraph₂)⟩
  · rw [hgraph₂]
    exact hbooks.setProd hprod _ rfl rfl rfl
  · rw [hgraph₂, RmDepGraph.setProd_prods, update_self]
    rfl

/-- The loop of the release lets every consumer of the list go. -/
theorem releasing_peers (env : RmCons → RmReply) {cs : List RmCons} (hcs : cs.Nodup)
    (h : Releasing s U p q) (hheld : ∀ c ∈ cs, (q.peers c).isSome = true → U p c = true) :
    ∃ U', Releasing (cs.foldl (producerReleasePeer p q env) s) U' p q ∧
      Spares s (cs.foldl (producerReleasePeer p q env) s) U U' p ∧
      ∀ c, U' p c = (U p c && !(decide (c ∈ cs) && (q.peers c).isSome)) := by
  induction cs generalizing s U with
  | nil => exact ⟨U, h, .refl s U p, by simp⟩
  | cons c cs ih =>
    obtain ⟨hc, hcs⟩ := List.nodup_cons.mp hcs
    rw [List.foldl_cons]
    by_cases hpeer : (q.peers c).isSome = true
    · rw [producerReleasePeer, if_pos hpeer]
      obtain ⟨hnext, hspares⟩ :=
        h.release (hheld c List.mem_cons_self hpeer) hpeer (env c)
      obtain ⟨U', h', hspares', hU'⟩ := ih hcs hnext fun c' hc' hpeer' => by
        rw [setPair_of_ne U p c false (fun h => hc (h.2 ▸ hc'))]
        exact hheld c' (List.mem_cons_of_mem c hc') hpeer'
      refine ⟨U', h', hspares.trans hspares', fun c' => ?_⟩
      rw [hU']
      by_cases hc' : c' = c
      · subst hc'
        simp [hpeer]
      · rw [setPair_of_ne U p c false (fun h => hc' h.2)]
        simp [hc']
    · rw [producerReleasePeer, if_neg hpeer]
      obtain ⟨U', h', hspares, hU'⟩ :=
        ih hcs h fun c' hc' => hheld c' (List.mem_cons_of_mem c hc')
      refine ⟨U', h', hspares, fun c' => ?_⟩
      rw [hU']
      by_cases hc' : c' = c
      · subst hc'
        simp [hpeer]
      · simp [hc']

/-- A producer that does not count on anybody any more. -/
theorem prodOk_of_released {g : RmDepGraph} (hq : q.state = .released) : g.ProdOk q :=
  ⟨by simp [hq], by simp [hq], by simp [hq], by simp [RmProdRes.active, hq]⟩

/-- The release of a producer that is active. -/
theorem inv_releaseActive (h : s.InvBut p) (hq : s.prods p = some q)
    (hstate : q.state = .granted ∨ q.state = .requestInProgress) (env : RmCons → RmReply) :
    let out := ipaRmResourceProducerRelease s p env
    out.1.Inv ∧ ∃ q', out.1.prods p = some q' ∧ q'.state = .released ∧ q'.peers = q.peers := by
  intro out
  let s₁ := s.setProd p { q with state := .releaseInProgress, pendingRelease := 0 }
  have h₁ : Releasing s₁ s.uses p q := ⟨h.books.setProd hq _ rfl rfl rfl, by simp [s₁]⟩
  have hrow : ∀ c, s.uses p c = (q.peers c).isSome := fun c => by
    rw [RmDepGraph.uses_eq hq]
    obtain hstate | hstate := hstate <;> simp [RmProdRes.active, hstate]
  obtain ⟨U₂, h₂, hspares, hU₂⟩ :=
    releasing_peers env RmCons.nodup_all h₁ fun c _ hpeer => by rwa [hrow c]
  generalize hs₂ : RmCons.all.foldl (producerReleasePeer p q env) s₁ = s₂ at h₂ hspares
  have hstart : out = ((ipaRmPerfProfileChange (s₂.setProdState p .released) (.inl p)).push
      (.notifyProd p .released true), 0) := by
    obtain hstate | hstate := hstate <;>
      simp only [out, ipaRmResourceProducerRelease, hq, hstate] <;>
      simp only [s₁] at hs₂ <;>
      simp only [hs₂, h₂.prod, Option.any_some, decide_true, if_true]
  have hgraph : out.1.toRmDepGraph =
      s₂.toRmDepGraph.setProd p { q with state := .released, pendingRelease := 0 } := by
    rw [hstart]
    simpa using setProdState_graph h₂.prod .released
  have hprod : out.1.prods p = some { q with state := .released, pendingRelease := 0 } := by
    simp [hgraph]
  have hspares₂ : Spares s out.1 s.uses U₂ p :=
    ((Spares.of_setProd s.uses rfl).trans hspares).trans (.of_setProd U₂ hgraph)
  refine ⟨inv_of_spares h ?_ ?_ hspares₂ ?_, _, hprod, rfl, rfl⟩
  · rw [hgraph]
    exact h₂.books.setProd h₂.prod _ rfl rfl rfl
  · intro c
    rw [hU₂, hrow, RmDepGraph.uses_eq hprod]
    simp [RmCons.mem_all, RmProdRes.active]
  · intro q' hq'
    obtain rfl := Option.some.inj (hprod.symm.trans hq')
    exact prodOk_of_released rfl

theorem inv_producerRelease (h : s.InvBut p) (hq : s.prods p = some q)
    (env : RmCons → RmReply) :
    let out := ipaRmResourceProducerRelease s p env
    out.1.Inv ∧ ∃ q', out.1.prods p = some q' ∧ q'.state = .released ∧ q'.peers = q.peers := by
  intro out
  cases hstate : q.state
  case released =>
    have hout : out = (s, 0) := by simp only [out, ipaRmResourceProducerRelease, hq, hstate]
    rw [hout]
    refine ⟨h.inv fun q' hq' => ?_, q, hq, hstate, rfl⟩
    obtain rfl := Option.some.inj (hq.symm.trans hq')
    exact prodOk_of_released hstate
  case releaseInProgress => exact absurd hstate (h.settled q hq)
  case granted => exact inv_releaseActive h hq (.inl hstate) env
  case requestInProgress => exact inv_releaseActive h hq (.inr hstate) env

end Rm

end X00TDCellular
