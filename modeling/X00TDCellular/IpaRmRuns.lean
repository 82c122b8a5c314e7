import X00TDCellular.IpaRmEdits

/-! The invariant of the resource manager over whole runs: interface calls, delayed works and
the work queue in any order. -/

namespace X00TDCellular
open Function Tally

namespace Rm

variable {s s' : Rm} {p : RmProd} {c : RmCons} {q : RmProdRes} {k : RmConsRes}

/-- The resources as they were, the consumers nobody counts on apart. -/
theorem inv_of_keep (h : s.Inv) (hprods : s'.prods = s.prods) (hbooks : s'.Books s.uses)
    (hkeep : ∀ c, (∃ p, s.uses p c = true) → s'.asking c = s.asking c) : s'.Inv := by
  have huses : s'.uses = s.uses := by
    funext p c
    rw [RmDepGraph.uses, RmDepGraph.uses, hprods]
  refine ⟨huses ▸ hbooks, fun p q hq => ?_⟩
  rw [hprods] at hq
  refine (h.prods p q hq).frame fun hactive c hpeer => hkeep c ⟨p, ?_⟩
  rw [RmDepGraph.uses_eq hq, hactive, hpeer]
  rfl

/-- A record of a consumer whose counters stay, and whose state may if nobody counts on it. -/
theorem inv_setConsState (h : s.Inv) (hk : s.conss c = some k) (k' : RmConsRes)
    (hsame : k'.peers = k.peers ∧ k'.maxBw = k.maxBw ∧ k'.neededBw = k.neededBw ∧
      k'.usageCount = k.usageCount)
    (hstate : k'.state = k.state ∨ k.usageCount = 0)
    (hgraph : s'.toRmDepGraph = s.toRmDepGraph.setCons c k') : s'.Inv := by
  obtain ⟨hpeers, hmax, hneeded, husage⟩ := hsame
  refine inv_of_keep h (by rw [hgraph]; rfl) ?_ ?_
  · rw [hgraph]
    refine h.books.setCons hk k' hpeers hmax (fun _ _ _ => rfl) ?_ ?_ ?_
    · rw [husage, h.books.usage c k hk]
    · rw [hneeded, h.books.needed c k hk]
    · intro hidle
      rw [husage]
      obtain hstate | hzero := hstate
      · exact h.books.idle c k hk (hstate ▸ hidle)
      · exact hzero
  · rintro c' ⟨p, hU⟩
    rw [hgraph, RmDepGraph.asking_setCons]
    split_ifs with hc
    · subst hc
      obtain ⟨hpos, -⟩ := h.books.busy hk hU
      rw [RmDepGraph.asking_eq hk, hstate.resolve_right (by omega)]
    · rfl

theorem inv_requestWithTimer (h : s.Inv) (c : RmCons) (reply : RmReply) :
    (ipaRmResourceConsumerRequest s c 0 false true reply).1.Inv := by
  cases hk : s.conss c with
  | none => simpa only [ipaRmResourceConsumerRequest, hk] using h
  | some k =>
    obtain ⟨hgraph, -⟩ := consumerRequest_graph hk 0 false true reply
    have hrequested := k.requested 0 false true reply
    generalize hout : k.request 0 false true reply = out at hgraph hrequested
    obtain ⟨k', res⟩ := out
    have hidle := h.books.idle c k hk
    have hopened : ∀ state, (k.opened 0 false state).peers = k.peers ∧
        (k.opened 0 false state).maxBw = k.maxBw ∧
        (k.opened 0 false state).neededBw = k.neededBw ∧
        (k.opened 0 false state).usageCount = k.usageCount :=
      fun state => ⟨rfl, rfl, add_zero _, rfl⟩
    cases hrequested
    case failed _ _ hsame =>
      obtain rfl : k' = k := hsame
      exact inv_setConsState h hk k' ⟨rfl, rfl, rfl, rfl⟩ (.inl rfl) hgraph
    case asked hstate => exact inv_setConsState h hk _ (hopened _) (.inr (hidle hstate)) hgraph
    case opened hstate =>
      exact inv_setConsState h hk _ (hopened _) (.inr (hidle (.inl hstate))) hgraph
    case joined hstate => exact inv_setConsState h hk _ (hopened _) (.inl hstate.symm) hgraph
    case woken hstate _ => exact inv_setConsState h hk _ (hopened _) (.inl hstate.symm) hgraph
    case waiting hstate => exact inv_setConsState h hk _ (hopened _) (.inl hstate.symm) hgraph

theorem inv_delayedRelease (h : s.Inv) (c : RmCons) (reply : RmReply) :
    (delayedReleaseWorkFunc s c reply).Inv := by
  unfold delayedReleaseWorkFunc
  generalize hs : ({ s with delayed := s.delayed.erase c } : Rm) = s₁
  have hgraph₁ : s₁.toRmDepGraph = s.toRmDepGraph := by rw [← hs]
  have h₁ : s₁.Inv := hgraph₁ ▸ h
  cases hk : s₁.conss c with
  | none => simpa only [ipaRmResourceConsumerRelease, hk] using h₁
  | some k =>
    obtain ⟨state, hgraph, hstate⟩ := consumerRelease_graph hk 0 false reply
    refine inv_setConsState h₁ hk (k.closed 0 false state) ⟨rfl, rfl, sub_zero _, ?_⟩ ?_ hgraph
    · simp [RmConsRes.closed, RmConsRes.lessUsage]
    · exact hstate.imp_right fun h' => by simpa [RmConsRes.lessUsage] using h'.1

/-- The counters of a producer are not its listeners'. -/
theorem inv_setListeners (h : s.Inv) (hq : s.prods p = some q) (ls : List RmListener) :
    (s.setProd p { q with eventListeners := ls }).Inv := by
  have hok := h.prods p q hq
  have hgraph : (s.setProd p { q with eventListeners := ls }).toRmDepGraph =
    s.toRmDepGraph.setProd p { q with eventListeners := ls } := rfl
  refine inv_of_spares (h.but p) (h.books.setProd hq _ rfl rfl rfl) ?_ (.of_setProd _ hgraph) ?_
  · intro c
    rw [RmDepGraph.uses_eq hq, RmDepGraph.uses_eq (update_self _ _ _)]
    rfl
  · intro q' hq'
    have hself : (s.setProd p { q with eventListeners := ls }).prods p =
        some { q with eventListeners := ls } := update_self _ _ _
    obtain rfl := Option.some.inj (hself.symm.trans hq')
    exact ⟨hok.settled, hok.granted, hok.waiting, hok.pending⟩

/-- What a consumer's completion makes of a producer that depends on it. -/
theorem prodOk_afterCb {g g' : RmDepGraph} (hok : g.ProdOk q) (hpeer : (q.peers c).isSome = true)
    (hask : g.asking c = true) (hasked : g'.asking c = false)
    (hasking : ∀ c', c' ≠ c → g'.asking c' = g.asking c') : g'.ProdOk (q.afterCb .granted) := by
  have hcount : (count fun c' => (q.peers c').isSome && g'.asking c') =
      (count fun c' => (q.peers c').isSome && g.asking c') - 1 := by
    have hchange := tally_change (fun _ => (1 : ℤ)) (fun _ => (1 : ℤ))
      (fun c' => (q.peers c').isSome && g.asking c')
      (fun c' => (q.peers c').isSome && g'.asking c') c
      (fun c' hc => by rw [hasking c' hc]) (fun _ _ _ => rfl)
    rw [count, hchange, hpeer, hask, hasked]
    simp
  have hpos : 0 < count fun c' => (q.peers c').isSome && g.asking c' :=
    count_pos_iff.mpr ⟨c, by rw [hpeer, hask]; rfl⟩
  cases hstate : q.state
  case released =>
    have hsame : q.afterCb .granted = q := by simp [RmProdRes.afterCb, hstate]
    rw [hsame]
    exact prodOk_of_released hstate
  case releaseInProgress => exact absurd hstate hok.settled
  case granted =>
    -- a granted producer has nobody left to wait for
    have hpending := hok.pending (by simp [RmProdRes.active, hstate])
    have hzero := hok.granted hstate
    omega
  case requestInProgress =>
    have hpending := hok.pending (by simp [RmProdRes.active, hstate])
    have hwait := hok.waiting hstate
    rw [← hpending] at hcount
    have hafter : q.afterCb .granted = { q with
        state := if q.pendingRequest-1 = 0 then .granted else .requestInProgress
        pendingRequest := q.pendingRequest-1 } := by
      simp only [RmProdRes.afterCb, hstate, gt_iff_lt, hwait, if_true]
      by_cases h0 : q.pendingRequest-1 = 0
      · rw [if_pos h0, if_pos h0]
      · rw [if_neg h0, if_neg h0, ← hstate]
    rw [hafter]
    refine prodOk_of_pending _ hcount.symm ?_
    by_cases h0 : q.pendingRequest-1 = 0
    · exact .inl ⟨if_pos h0, h0⟩
    · exact .inr ⟨if_neg h0, h0⟩

theorem afterCb_active (q : RmProdRes) : (q.afterCb .granted).active = q.active := by
  unfold RmProdRes.afterCb RmProdRes.active
  cases hstate : q.state <;> dsimp only <;> split_ifs <;> simp [hstate]

theorem afterCb_same (q : RmProdRes) (event : RmEvent) :
    (q.afterCb event).peers = q.peers ∧ (q.afterCb event).maxBw = q.maxBw ∧
      (q.afterCb event).neededBw = q.neededBw := by
  unfold RmProdRes.afterCb
  cases q.state <;> cases event <;> dsimp only <;> (try split_ifs) <;> exact ⟨rfl, rfl, rfl⟩

/-- A consumer's completion, told to everyone who depends on it. -/
theorem inv_granted (h : s.Inv) (hk : s.conss c = some k) (hstate : k.state = .requestInProgress)
    (hgraph : s'.toRmDepGraph =
      { prods := fun p => if (k.peers p).isSome then (s.prods p).map (·.afterCb .granted)
          else s.prods p
        conss := update s.conss c (some { k with state := .granted }) }) : s'.Inv := by
  have hprods : ∀ p, s'.prods p = if (k.peers p).isSome then (s.prods p).map (·.afterCb .granted)
      else s.prods p := fun p => by rw [hgraph]
  have hcons : s'.toRmDepGraph.conss =
      (s.toRmDepGraph.setCons c { k with state := .granted }).conss := by
    rw [hgraph]
    rfl
  have hasking : ∀ c', s'.asking c' = if c' = c then false else s.asking c' := fun c' => by
    rw [RmDepGraph.asking, hcons]
    exact (RmDepGraph.asking_setCons _ c').trans (by simp)
  have hbooks₁ : (s.toRmDepGraph.setCons c { k with state := .granted }).Books s.uses :=
    h.books.setCons hk { k with state := .granted } rfl rfl (fun _ _ _ => rfl)
      (h.books.usage c k hk) (h.books.needed c k hk) (by simp)
  have hbooks : s'.Books s.uses := by
    rw [hgraph]
    refine hbooks₁.setProds _ fun p => ?_
    split_ifs
    · rw [Option.map_map]
      refine Option.map_congr fun q _ => ?_
      obtain ⟨hpeers, hmax, hneeded⟩ := afterCb_same q .granted
      simp only [Function.comp, hpeers, hmax, hneeded]
    · rfl
  have huses : s'.uses = s.uses := by
    funext p c'
    rw [RmDepGraph.uses, RmDepGraph.uses, hprods p]
    split_ifs
    · cases s.prods p with
      | none => rfl
      | some q =>
        rw [Option.map_some, Option.any_some, Option.any_some, afterCb_active,
          (afterCb_same q .granted).1]
    · rfl
  refine ⟨huses ▸ hbooks, fun p q hq => ?_⟩
  rw [hprods p] at hq
  split_ifs at hq with hpeer
  · obtain ⟨q₀, hq₀, rfl⟩ := Option.map_eq_some_iff.mp hq
    obtain ⟨q₁, hq₁, hpeers⟩ := h.books.exists_prod hk hpeer
    obtain rfl := Option.some.inj (hq₀.symm.trans hq₁)
    refine prodOk_afterCb (h.prods p q₀ hq₀) (by rw [hpeers, hpeer]) ?_
      (by rw [hasking, if_pos rfl]) fun c' hc => by rw [hasking, if_neg hc]
    rw [RmDepGraph.asking_eq hk, hstate]
    rfl
  · refine (h.prods p q hq).frame fun _ c' hpeer' => ?_
    have hc : c' ≠ c := by
      rintro rfl
      obtain ⟨k₁, hk₁, hpeers⟩ := h.books.exists_cons hq hpeer'
      rw [← hpeers, ← Option.some.inj (hk.symm.trans hk₁)] at hpeer'
      exact hpeer hpeer'
    rw [hasking, if_neg hc]

/-- A completed release is told to producers that all have gone on. -/
theorem inv_released (h : s.Inv) (hk : s.conss c = some k) (hstate : k.state = .releaseInProgress)
    (hgraph : s'.toRmDepGraph =
      { prods := fun p => if (k.peers p).isSome then (s.prods p).map (·.afterCb .released)
          else s.prods p
        conss := update s.conss c (some { k with state := .released }) }) : s'.Inv := by
  have hprods : ∀ p, s'.prods p = s.prods p := fun p => by
    rw [hgraph]
    dsimp only
    split_ifs
    · cases hq : s.prods p with
      | none => rfl
      | some q =>
        have hsettled := (h.prods p q hq).settled
        cases hqstate : q.state
        case releaseInProgress => exact absurd hqstate hsettled
        all_goals simp [RmProdRes.afterCb, hqstate]
    · rfl
  have hgraph' : s'.toRmDepGraph = s.toRmDepGraph.setCons c { k with state := .released } := by
    have hprods' : s'.prods = s.prods := funext hprods
    have hconss' : s'.conss = update s.conss c (some { k with state := .released }) := by
      rw [hgraph]
    show RmDepGraph.mk _ _ = _
    rw [hprods', hconss']
    rfl
  exact inv_setConsState h hk { k with state := .released } ⟨rfl, rfl, rfl, rfl⟩
    (.inr (h.books.idle c k hk (.inr hstate))) hgraph'

theorem inv_consumerHandleCb (h : s.Inv) (c : RmCons) (event : RmEvent) :
    (ipaRmResourceConsumerHandleCb s c event).Inv := by
  have hgraph := consumerHandleCb_graph s c event
  generalize ipaRmResourceConsumerHandleCb s c event = s' at hgraph
  unfold RmDepGraph.afterCb at hgraph
  cases hk : s.conss c with
  | none =>
    simp only [hk] at hgraph
    rwa [hgraph]
  | some k =>
    simp only [hk] at hgraph
    cases hstate : k.state <;> cases event <;> simp only [hstate] at hgraph
    case requestInProgress.granted => exact inv_granted h hk hstate hgraph
    case releaseInProgress.released => exact inv_released h hk hstate hgraph
    all_goals rwa [hgraph]

theorem inv_handleWork (h : s.Inv) {reply : RmReply} (hreply : reply.Answered) (w : RmWork) :
    (handleWork s reply w).Inv := by
  cases w with
  | notifyProd p event reg => exact (notifyClients_graph s p event reg).symm ▸ h
  | resourceCb name event =>
    simp only [handleWork]
    split
    · exact inv_consumerHandleCb h _ event
    · exact h
  | resume c prev bw inc =>
    simp only [handleWork]
    split_ifs
    · have hcalled : (s.call (.requestResource c reply.driver)).Inv := h
      obtain h0 | hprog := hreply
      · have hinv := inv_consumerHandleCb hcalled c .granted
        simpa [ipaRmResourceConsumerRequestWork, h0] using hinv
      · simpa [ipaRmResourceConsumerRequestWork, hprog, eInProgress_ne_zero] using h
    · exact h
  | suspend c prev bw =>
    simp only [handleWork]
    split_ifs
    · have hcalled : (s.call (.releaseResource c reply.driver)).Inv := h
      have hinv := inv_consumerHandleCb hcalled c .released
      obtain h0 | hprog := hreply
      · simpa [ipaRmResourceConsumerReleaseWork, h0] using hinv
      · simpa [ipaRmResourceConsumerReleaseWork, hprog] using hinv
    · exact h
  | notifyIpa volt bw => exact h

theorem profilePeerOfProd_graph (q : RmProdRes) (bw : BitVec 32) (s : Rm) (c : RmCons) :
    (profilePeerOfProd q bw s c).toRmDepGraph = if (q.peers c).isSome then
        s.toRmDepGraph.modifyCons c fun k => { k with neededBw := k.neededBw - q.maxBw + bw }
      else s.toRmDepGraph := by
  unfold profilePeerOfProd
  dsimp only
  split_ifs <;> simp

theorem profilePeersOfProd_graph (q : RmProdRes) (bw : BitVec 32) (s : Rm) :
    (RmCons.all.foldl (profilePeerOfProd q bw) s).toRmDepGraph = { s.toRmDepGraph with
      conss := fun c => if (q.peers c).isSome then
          (s.conss c).map fun k => { k with neededBw := k.neededBw - q.maxBw + bw }
        else s.conss c } := by
  have hprods : (RmCons.all.foldl (profilePeerOfProd q bw) s).prods = s.prods := by
    refine PointwiseFold.proj_foldl (fun s : Rm => s.prods) (fun s c => ?_) s _
    rw [profilePeerOfProd_graph]
    split_ifs <;> rfl
  have hconss : ∀ c, (RmCons.all.foldl (profilePeerOfProd q bw) s).conss c =
      if (q.peers c).isSome then
        (s.conss c).map fun k => { k with neededBw := k.neededBw - q.maxBw + bw }
      else s.conss c := by
    intro c
    have h := PointwiseFold.get_foldl (fun (s : Rm) c => s.conss c) (profilePeerOfProd q bw)
      (fun c k => if (q.peers c).isSome then
        k.map fun k => { k with neededBw := k.neededBw - q.maxBw + bw } else k)
      (fun s c => by
        rw [profilePeerOfProd_graph]
        split_ifs <;> simp [RmDepGraph.modifyCons])
      (fun s c c' hc => by
        rw [profilePeerOfProd_graph]
        split_ifs <;> simp [RmDepGraph.modifyCons, hc]) s RmCons.nodup_all c
    rwa [if_pos (RmCons.mem_all c)] at h
  show RmDepGraph.mk _ _ = _
  rw [hprods, funext hconss]

theorem profilePeerOfCons_graph (k : RmConsRes) (bw : BitVec 32) (s : Rm) (p : RmProd) :
    (profilePeerOfCons k bw s p).toRmDepGraph = if (k.peers p).isSome then
        s.toRmDepGraph.modifyProd p fun q => { q with neededBw := q.neededBw - k.maxBw + bw }
      else s.toRmDepGraph := by
  unfold profilePeerOfCons
  dsimp only
  split_ifs <;> simp

theorem profilePeersOfCons_graph (k : RmConsRes) (bw : BitVec 32) (s : Rm) :
    (RmProd.all.foldl (profilePeerOfCons k bw) s).toRmDepGraph = { s.toRmDepGraph with
      prods := fun p => if (k.peers p).isSome then
          (s.prods p).map fun q => { q with neededBw := q.neededBw - k.maxBw + bw }
        else s.prods p } := by
  have hconss : (RmProd.all.foldl (profilePeerOfCons k bw) s).conss = s.conss := by
    refine PointwiseFold.proj_foldl (fun s : Rm => s.conss) (fun s p => ?_) s _
    rw [profilePeerOfCons_graph]
    split_ifs <;> rfl
  have hprods : ∀ p, (RmProd.all.foldl (profilePeerOfCons k bw) s).prods p =
      if (k.peers p).isSome then
        (s.prods p).map fun q => { q with neededBw := q.neededBw - k.maxBw + bw }
      else s.prods p := by
    intro p
    have h := PointwiseFold.get_foldl (fun (s : Rm) p => s.prods p) (profilePeerOfCons k bw)
      (fun p q => if (k.peers p).isSome then
        q.map fun q => { q with neededBw := q.neededBw - k.maxBw + bw } else q)
      (fun s p => by
        rw [profilePeerOfCons_graph]
        split_ifs <;> simp [RmDepGraph.modifyProd])
      (fun s p p' hp => by
        rw [profilePeerOfCons_graph]
        split_ifs <;> simp [RmDepGraph.modifyProd, hp]) s RmProd.nodup_all p
    rwa [if_pos (RmProd.mem_all p)] at h
  show RmDepGraph.mk _ _ = _
  rw [hconss, funext hprods]

/-- A producer's new bandwidth, and that of the consumers that count it. -/
theorem inv_prodBw (h : s.Inv) (hq : s.prods p = some q) (bw : BitVec 32)
    (hprods : s'.prods = update s.prods p (some { q with maxBw := bw }))
    (hconss : ∀ c, s'.conss c = (s.conss c).map fun k =>
      { k with neededBw := if s.uses p c then k.neededBw - q.maxBw + bw else k.neededBw }) :
    s'.Inv := by
  have hother : ∀ p', p' ≠ p → s'.prods p' = s.prods p' := fun p' hp => by
    rw [hprods, update_of_ne hp]
  have hself : s'.prods p = some { q with maxBw := bw } := by rw [hprods, update_self]
  have hlookup : ∀ c k', s'.conss c = some k' → ∃ k, s.conss c = some k ∧ k' = { k with
      neededBw := if s.uses p c then k.neededBw - q.maxBw + bw else k.neededBw } := by
    intro c k' hk'
    rw [hconss] at hk'
    obtain ⟨k, hk, rfl⟩ := Option.map_eq_some_iff.mp hk'
    exact ⟨k, hk, rfl⟩
  have hprodBw : s'.prodBw = update s.prodBw p bw := by
    funext p'
    by_cases hp : p' = p
    · subst hp
      simp [RmDepGraph.prodBw, hself]
    · simp [RmDepGraph.prodBw, hother p' hp, hp]
  have hold : s.prodBw p = q.maxBw := by simp [RmDepGraph.prodBw, hq]
  have hconsBw : s'.consBw = s.consBw := by
    funext c
    rw [RmDepGraph.consBw, hconss, RmDepGraph.consBw]
    cases s.conss c <;> rfl
  have hasking : ∀ c, s'.asking c = s.asking c := fun c => by
    rw [RmDepGraph.asking, hconss, RmDepGraph.asking]
    cases s.conss c <;> rfl
  have hbooks : s'.Books s.uses := by
    constructor
    case peers =>
      intro p' c
      have hcons : (s'.conss c).bind (·.peers p') = (s.conss c).bind (·.peers p') := by
        rw [hconss]
        cases s.conss c <;> rfl
      rw [hcons, ← h.books.peers p' c]
      by_cases hp : p' = p
      · rw [hp, hself, hq]
        rfl
      · rw [hother p' hp]
    case usage =>
      intro c k' hk'
      obtain ⟨k, hk, rfl⟩ := hlookup c k' hk'
      exact h.books.usage c k hk
    case needed =>
      intro c k' hk'
      obtain ⟨k, hk, rfl⟩ := hlookup c k' hk'
      dsimp only
      rw [hprodBw, h.books.needed c k hk]
      split_ifs with hU
      · rw [tally_reweigh (U := fun p' => s.uses p' c) s.prodBw hU, hold]
      · refine tally_congr (fun _ => rfl) fun p' hU' => ?_
        rw [update_of_ne]
        rintro rfl
        exact hU hU'
    case idle =>
      intro c k' hk'
      obtain ⟨k, hk, rfl⟩ := hlookup c k' hk'
      exact h.books.idle c k hk
    case supply =>
      intro p' q' hq'
      rw [hconsBw]
      by_cases hp : p' = p
      · rw [hp, hself] at hq'
        rw [← Option.some.inj hq']
        exact h.books.supply p q hq
      · exact h.books.supply p' q' (hother p' hp ▸ hq')
  refine inv_of_spares (h.but p) hbooks ?_ ⟨hother, fun _ _ => rfl, fun c _ => hasking c⟩ ?_
  · intro c
    rw [RmDepGraph.uses_eq hself, RmDepGraph.uses_eq hq]
    rfl
  · intro q' hq'
    obtain rfl := Option.some.inj (hself.symm.trans hq')
    have hok := h.prods p q hq
    refine ⟨hok.settled, hok.granted, hok.waiting, fun hactive => ?_⟩
    simp only [hasking]
    exact hok.pending hactive

/-- A consumer's new bandwidth, and that of the producers that depend on it. -/
theorem inv_consBw (h : s.Inv) (hk : s.conss c = some k) (bw : BitVec 32)
    (hconss : s'.conss = update s.conss c (some { k with maxBw := bw }))
    (hprods : ∀ p, s'.prods p = (s.prods p).map fun q =>
      { q with neededBw :=
          if (q.peers c).isSome then q.neededBw - k.maxBw + bw else q.neededBw }) :
    s'.Inv := by
  have hother : ∀ c', c' ≠ c → s'.conss c' = s.conss c' := fun c' hc => by
    rw [hconss, update_of_ne hc]
  have hself : s'.conss c = some { k with maxBw := bw } := by rw [hconss, update_self]
  have hlookup : ∀ p q', s'.prods p = some q' → ∃ q, s.prods p = some q ∧ q' = { q with
      neededBw := if (q.peers c).isSome then q.neededBw - k.maxBw + bw else q.neededBw } := by
    intro p q' hq'
    rw [hprods] at hq'
    obtain ⟨q, hq, rfl⟩ := Option.map_eq_some_iff.mp hq'
    exact ⟨q, hq, rfl⟩
  have hconsBw : s'.consBw = update s.consBw c bw := by
    funext c'
    by_cases hc : c' = c
    · subst hc
      simp [RmDepGraph.consBw, hself]
    · simp [RmDepGraph.consBw, hother c' hc, hc]
  have hold : s.consBw c = k.maxBw := by simp [RmDepGraph.consBw, hk]
  have hprodBw : s'.prodBw = s.prodBw := by
    funext p
    rw [RmDepGraph.prodBw, hprods, RmDepGraph.prodBw]
    cases s.prods p <;> rfl
  have huses : s'.uses = s.uses := by
    funext p c'
    rw [RmDepGraph.uses, hprods, RmDepGraph.uses]
    cases s.prods p <;> rfl
  have hasking : ∀ c', s'.asking c' = s.asking c' := fun c' => by
    by_cases hc : c' = c
    · rw [hc, RmDepGraph.asking_eq hself, RmDepGraph.asking_eq hk]
    · rw [RmDepGraph.asking, hother c' hc, RmDepGraph.asking]
  have hkept : ∀ c' k', s'.conss c' = some k' → ∃ k'', s.conss c' = some k'' ∧
      k'.usageCount = k''.usageCount ∧ k'.neededBw = k''.neededBw ∧ k'.state = k''.state ∧
      k'.peers = k''.peers := by
    intro c' k' hk'
    by_cases hc : c' = c
    · rw [hc, hself] at hk'
      rw [hc, ← Option.some.inj hk']
      exact ⟨k, hk, rfl, rfl, rfl, rfl⟩
    · exact ⟨k', hother c' hc ▸ hk', rfl, rfl, rfl, rfl⟩
  have hbooks : s'.Books s.uses := by
    constructor
    case peers =>
      intro p c'
      have hprod : (s'.prods p).bind (·.peers c') = (s.prods p).bind (·.peers c') := by
        rw [hprods]
        cases s.prods p <;> rfl
      rw [hprod, h.books.peers p c']
      by_cases hc : c' = c
      · rw [hc, hself, hk]
        rfl
      · rw [hother c' hc]
    case usage =>
      intro c' k' hk'
      obtain ⟨k'', hk'', husage, -⟩ := hkept c' k' hk'
      rw [husage, h.books.usage c' k'' hk'']
    case needed =>
      intro c' k' hk'
      obtain ⟨k'', hk'', -, hneeded, -⟩ := hkept c' k' hk'
      rw [hneeded, hprodBw, h.books.needed c' k'' hk'']
    case idle =>
      intro c' k' hk'
      obtain ⟨k'', hk'', husage, -, hstate, -⟩ := hkept c' k' hk'
      rw [husage, hstate]
      exact h.books.idle c' k'' hk''
    case supply =>
      intro p q' hq'
      obtain ⟨q, hq, rfl⟩ := hlookup p q' hq'
      dsimp only
      rw [hconsBw, h.books.supply p q hq]
      split_ifs with hpeer
      · rw [tally_reweigh (U := fun c' => (q.peers c').isSome) s.consBw hpeer, hold]
      · refine tally_congr (fun _ => rfl) fun c' hpeer' => ?_
        rw [update_of_ne]
        rintro rfl
        exact hpeer hpeer'
  refine ⟨huses ▸ hbooks, fun p q' hq' => ?_⟩
  obtain ⟨q, hq, rfl⟩ := hlookup p q' hq'
  have hok := h.prods p q hq
  refine ⟨hok.settled, hok.granted, hok.waiting, fun hactive => ?_⟩
  simp only [hasking]
  exact hok.pending hactive

theorem inv_setProdProfile (h : s.Inv) (p : RmProd) (bw : BitVec 32) :
    (ipaRmResourceSetPerfProfile s (.inl p) bw).Inv := by
  cases hq : s.prods p with
  | none => simpa only [ipaRmResourceSetPerfProfile, hq] using h
  | some q =>
    simp only [ipaRmResourceSetPerfProfile, hq]
    by_cases hbw : bw = q.maxBw
    · rwa [if_pos hbw]
    · rw [if_neg hbw]
      generalize hs₁ : (if q.state = .granted ∨ q.state = .requestInProgress then
        RmCons.all.foldl (profilePeerOfProd q bw) s else s) = s₁
      have hgraph₁ : s₁.toRmDepGraph = { s.toRmDepGraph with
          conss := fun c => (s.conss c).map fun k => { k with
            neededBw := if s.uses p c then k.neededBw - q.maxBw + bw else k.neededBw } } := by
        rw [← hs₁]
        split_ifs with hactive
        · rw [profilePeersOfProd_graph]
          refine congrArg (RmDepGraph.mk s.prods) (funext fun c => ?_)
          have hrow : s.uses p c = (q.peers c).isSome := by
            rw [RmDepGraph.uses_eq hq, RmProdRes.active]
            simpa using fun _ => hactive
          rw [hrow]
          cases (q.peers c).isSome
          · simp
          · rfl
        · have hrow : ∀ c, s.uses p c = false := fun c => by
            rw [RmDepGraph.uses_eq hq, RmProdRes.active]
            simp only [not_or] at hactive
            simp [hactive]
          simp [hrow]
      have hinv : (s₁.modifyProd p fun q => { q with maxBw := bw }).Inv := by
        have hq₁ : s₁.prods p = some q := by rw [hgraph₁, hq]
        have hmodify := RmDepGraph.modifyProd_eq s₁.toRmDepGraph p hq₁
          fun q => { q with maxBw := bw }
        refine inv_prodBw h hq bw ?_ fun c => ?_
        · rw [modifyProd_graph, hmodify, RmDepGraph.setProd_prods, hgraph₁]
        · rw [modifyProd_graph, RmDepGraph.modifyProd_conss, hgraph₁]
      split_ifs
      · rwa [perfProfileChange_graph]
      · exact hinv

theorem inv_setConsProfile (h : s.Inv) (c : RmCons) (bw : BitVec 32) :
    (ipaRmResourceSetPerfProfile s (.inr c) bw).Inv := by
  cases hk : s.conss c with
  | none => simpa only [ipaRmResourceSetPerfProfile, hk] using h
  | some k =>
    simp only [ipaRmResourceSetPerfProfile, hk]
    by_cases hbw : bw = k.maxBw
    · rwa [if_pos hbw]
    · rw [if_neg hbw]
      have hgraph₁ := profilePeersOfCons_graph k bw s
      generalize RmProd.all.foldl (profilePeerOfCons k bw) s = s₁ at hgraph₁
      have hinv : (s₁.modifyCons c fun k => { k with maxBw := bw }).Inv := by
        have hk₁ : s₁.conss c = some k := by rw [hgraph₁, hk]
        have hmodify := RmDepGraph.modifyCons_eq s₁.toRmDepGraph c hk₁
          fun k => { k with maxBw := bw }
        refine inv_consBw h hk bw ?_ fun p => ?_
        · rw [modifyCons_graph, hmodify, RmDepGraph.setCons_conss, hgraph₁]
        · rw [modifyCons_graph, RmDepGraph.modifyCons_prods, hgraph₁]
          dsimp only
          cases hq : s.prods p with
          | none => simp
          | some q =>
            have hpeers : q.peers c = k.peers p := by simpa [hq, hk] using h.books.peers p c
            rw [Option.map_some, Option.map_some, hpeers]
            split_ifs <;> rfl
      split_ifs
      · rwa [perfProfileChange_graph]
      · exact hinv

theorem inv_createResource (h : s.Inv) (name : ℕ) (volt : ℤ) (cb userData : ℕ) :
    (ipaRmCreateResource s name volt cb userData).1.Inv := by
  unfold ipaRmCreateResource
  by_cases hvolt : volt < 0 ∨ volt ≥ ipaVoltageMax
  · rwa [if_pos hvolt]
  · rw [if_neg hvolt]
    cases ipaRmDepGetIndex name with
    | none => dsimp only; split_ifs <;> exact h
    | some r =>
      cases r with
      | inl p =>
        dsimp only
        split_ifs with hsome
        · exact h
        · have hnone : s.prods p = none := by simpa using hsome
          refine inv_setIdleProd h (fun q hq => ?_) (some _) fun q hq => ?_
          · exact absurd (hnone.symm.trans hq) (by simp)
          · rw [← Option.some.inj hq]
            exact ⟨rfl, rfl, fun _ => rfl⟩
      | inr c =>
        dsimp only
        split_ifs with hsome
        · exact h
        · have hnone : s.conss c = none := by simpa using hsome
          refine inv_setIdleCons h (fun k hk => ?_) (some _) fun k hk => ?_
          · exact absurd (hnone.symm.trans hk) (by simp)
          · rw [← Option.some.inj hk]
            exact ⟨rfl, rfl, fun _ => rfl⟩

/-- The producer waits, and the consumer it would lose is granted. -/
def cutsGranted (s : Rm) (p : RmProd) (c : RmCons) : Bool :=
  (s.prods p).any fun q => (q.peers c).isSome && q.state = .requestInProgress &&
    (s.conss c).any (·.state = .granted)

/-- What the invariant asks of the environment: drivers that fail no request, and no release that
is worked off the queue, and callers who take no granted consumer from a producer that waits. -/
def orderly (s : Rm) : RmAction → Bool
  | .deleteResource name _ =>
    match ipaRmDepGetIndex name with
    | some (.inr c) => RmProd.all.all fun p => !s.cutsGranted p c
    | _ => true
  | .deleteDependency name dependsOn _ _ =>
    match ipaRmDepGetIndex name, ipaRmDepGetIndex dependsOn with
    | some (.inl p), some (.inr c) => !s.cutsGranted p c
    | _, _ => true
  | .addDependency _ _ _ env | .requestResource _ env =>
    RmProd.all.all fun p => RmCons.all.all fun c => decide (env p c).Answered
  | .work reply => decide reply.Answered
  | _ => true

theorem not_cutsGranted (h : s.cutsGranted p c = false) (hq : s.prods p = some q)
    (hk : s.conss c = some k) (hpeer : (q.peers c).isSome = true) :
    ¬(q.state = .requestInProgress ∧ k.state = .granted) := by
  simpa [cutsGranted, hq, hk, hpeer] using h

theorem answered_of_all {env : RmEnv}
    (h : (RmProd.all.all fun p => RmCons.all.all fun c => decide (env p c).Answered) = true)
    (p : RmProd) (c : RmCons) : (env p c).Answered := by
  simp only [List.all_eq_true, decide_eq_true_eq] at h
  exact h p (RmProd.mem_all p) c (RmCons.mem_all c)

/-- Every action keeps the invariant. -/
theorem inv_step (h : s.Inv) {a : RmAction} (ha : s.orderly a = true)
    (hstep : s.step a = some s') : s'.Inv := by
  cases a with
  | createResource name volt cb userData =>
    cases hstep
    exact inv_createResource h name volt cb userData
  | deleteResource name env =>
    cases hstep
    unfold ipaRmDeleteResource
    simp only [orderly] at ha
    cases hname : ipaRmDepGetIndex name with
    | none => exact h
    | some r =>
      rw [hname] at ha
      cases r with
      | inl p =>
        dsimp only
        split_ifs with hsome
        · obtain ⟨q, hq⟩ := Option.isSome_iff_exists.mp hsome
          exact inv_deleteProducer h hq env
        · exact h
      | inr c =>
        dsimp only
        split_ifs with hsome
        · obtain ⟨k, hk⟩ := Option.isSome_iff_exists.mp hsome
          refine inv_deleteConsumer h hk (fun p q hq hpeer => ?_) env
          have hcut : s.cutsGranted p c = false := by
            simpa using List.all_eq_true.mp ha p (RmProd.mem_all p)
          exact not_cutsGranted hcut hq hk hpeer
        · exact h
  | addDependency name dependsOn user env =>
    cases hstep
    unfold ipaRmAddDependency
    split
    · exact inv_addDependency h _ _ user (answered_of_all ha _ _)
    · exact h
  | deleteDependency name dependsOn user env =>
    cases hstep
    unfold ipaRmDeleteDependency
    simp only [orderly] at ha
    split
    · rename_i p c hp hc
      simp only [hp, hc, Bool.not_eq_true'] at ha
      exact inv_deleteDependency h p c user _ fun q k hq hk => not_cutsGranted ha hq hk
    · exact h
  | requestResource name env =>
    cases hstep
    unfold ipaRmRequestResource
    split
    · split_ifs with hsome
      · obtain ⟨q, hq⟩ := Option.isSome_iff_exists.mp hsome
        exact (inv_producerRequest h hq fun c => answered_of_all ha _ c).1
      · exact h
    · exact h
  | releaseResource name env =>
    cases hstep
    unfold ipaRmReleaseResource
    split
    · split_ifs with hsome
      · obtain ⟨q, hq⟩ := Option.isSome_iff_exists.mp hsome
        exact (inv_producerRelease (h.but _) hq _).1
      · exact h
    · exact h
  | requestResourceWithTimer name reply workAlloc =>
    cases hstep
    unfold ipaRmRequestResourceWithTimer
    by_cases hcons : ipaRmResorceIsCons name = true
    · rw [if_pos hcons]
      split
      · rename_i c hname
        by_cases hsome : (s.conss c).isSome = true
        · rw [if_pos hsome]
          dsimp only
          split_ifs <;> exact inv_requestWithTimer h c reply
        · rwa [if_neg hsome]
      · exact h
    · rwa [if_neg hcons]
  | delayedRelease c reply =>
    simp only [step] at hstep
    split_ifs at hstep
    cases hstep
    exact inv_delayedRelease h c reply
  | register name cb userData =>
    cases hstep
    unfold ipaRmRegister
    split
    · split
      · exact h
      · rename_i q hq
        unfold ipaRmResourceProducerRegister
        split_ifs
        · exact h
        · exact inv_setListeners h hq _
    · exact h
  | deregister name cb =>
    cases hstep
    unfold ipaRmDeregister
    split
    · split
      · exact h
      · rename_i q hq
        unfold ipaRmResourceProducerDeregister
        split_ifs
        · exact inv_setListeners h hq _
        · exact h
    · exact h
  | setPerfProfile name bw =>
    cases hstep
    unfold ipaRmSetPerfProfile
    split
    · exact h
    · rename_i r hr
      split_ifs
      · cases r with
        | inl p => exact inv_setProdProfile h p bw
        | inr c => exact inv_setConsProfile h c bw
      · exact h
  | notifyCompletion event name =>
    cases hstep
    unfold ipaRmNotifyCompletion
    split_ifs <;> exact h
  | work reply =>
    simp only [step] at hstep
    cases hwq : s.wq with
    | nil => simp [hwq] at hstep
    | cons w wq =>
      rw [hwq] at hstep
      cases hstep
      have h' : ({ s with wq := wq } : Rm).Inv := h
      exact inv_handleWork h' (by simpa [orderly] using ha) w

theorem inv_init : (({} : Rm)).Inv where
  books :=
    { peers := fun _ _ => rfl
      usage := fun _ _ h => nomatch h
      needed := fun _ _ h => nomatch h
      idle := fun _ _ h => nomatch h
      supply := fun _ _ h => nomatch h }
  prods := fun _ _ h => nomatch h

/-- The invariant holds after every orderly run. -/
theorem inv_run {as : List RmAction} {t : Rm}
    (hg : Transition.Guarded step (fun s a => s.orderly a = true) {} as)
    (hrun : Transition.run step {} as = some t) : t.Inv :=
  hg.inv (fun _ _ _ h ha hstep => inv_step h ha hstep) hrun inv_init

end Rm

end X00TDCellular
