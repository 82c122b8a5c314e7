import X00TDCellular.IpaRmRuns

/-! What the resource manager guarantees to those who use it. -/

namespace X00TDCellular
open Function Tally

namespace Rm

variable {s s' : Rm} {p : RmProd} {c : RmCons} {q : RmProdRes} {k : RmConsRes}

/-- The bring-up of WWAN_0_PROD on Q6_CONS, whose driver answers later. -/
def bringUp : List RmAction :=
  [.createResource 12 1 7 0, .createResource 1 2 0 0, .setPerfProfile 12 100,
    .addDependency 12 1 false fun _ _ => {},
    .requestResource 12 fun _ _ => { driver := eInProgress }, .notifyCompletion .granted 1]

/-- The producer is granted only where all it depends on is there, granted and in use. -/
theorem granted_needs_consumers {as : List RmAction} {t : Rm}
    (hg : Transition.Guarded step (fun s a => s.orderly a = true) {} as)
    (hrun : Transition.run step {} as = some t) {q : RmProdRes} (hq : t.prods p = some q)
    (hgranted : q.state = .granted) {c : RmCons} (hpeer : (q.peers c).isSome = true) :
    ∃ k, t.conss c = some k ∧ k.state = .granted ∧ 0 < k.usageCount := by
  have h := inv_run hg hrun
  have hactive : q.active = true := by simp [RmProdRes.active, hgranted]
  obtain ⟨k, hk, -⟩ := h.books.exists_cons hq hpeer
  have hU : t.uses p c = true := by
    rw [RmDepGraph.uses_eq hq, hactive, hpeer]
    rfl
  obtain ⟨hpos, hbusy⟩ := h.books.busy hk hU
  -- nobody it depends on is still being asked, since it waits for nobody
  have hnone : (count fun c => (q.peers c).isSome && t.asking c) = 0 := by
    rw [← (h.prods p q hq).pending hactive, (h.prods p q hq).granted hgranted]
  have hasking := count_eq_zero_iff.mp hnone c
  rw [hpeer, Bool.true_and, RmDepGraph.asking_eq hk, decide_eq_false_iff_not] at hasking
  exact ⟨k, hk, hbusy.resolve_right hasking, hpos⟩

/-- After the completion of the bring-up. -/
theorem granted_needs_consumers_bringUp :
    ∃ t q k, Transition.run step {} (bringUp ++ [.work {}]) = some t ∧
      t.prods .wwan0Prod = some q ∧ q.state = .granted ∧
      t.conss .q6Cons = some k ∧ k.state = .granted ∧ 0 < k.usageCount := by
  obtain ⟨t, hrun, hgranted⟩ := (Option.any_eq_true _ _).mp (show (Transition.run step {}
    (bringUp ++ [.work {}])).any (fun t => (t.prods .wwan0Prod).any fun q =>
      q.state = .granted && (q.peers .q6Cons).isSome) = true by decide)
  obtain ⟨q, hq, hstate⟩ := (Option.any_eq_true _ _).mp hgranted
  simp only [Bool.and_eq_true, decide_eq_true_eq] at hstate
  obtain ⟨k, hk⟩ := granted_needs_consumers (by decide) hrun hq hstate.1 hstate.2
  exact ⟨t, q, k, hrun, hq, hstate.1, hk⟩

/-- What the counters count, in every state of every orderly run. -/
theorem counters_of_run {as : List RmAction} {t : Rm}
    (hg : Transition.Guarded step (fun s a => s.orderly a = true) {} as)
    (hrun : Transition.run step {} as = some t) :
    (∀ c k, t.conss c = some k →
      k.usageCount = count (fun p => t.uses p c) ∧
        k.neededBw = tally t.prodBw fun p => t.uses p c) ∧
      ∀ p q, t.prods p = some q →
        q.neededBw = tally t.consBw (fun c => (q.peers c).isSome) ∧
          (q.active = true →
            q.pendingRequest = count fun c => (q.peers c).isSome && t.asking c) ∧
          (q.state = .requestInProgress ↔ q.active = true ∧ 0 < q.pendingRequest) := by
  have h := inv_run hg hrun
  refine ⟨fun c k hk => ⟨h.books.usage c k hk, h.books.needed c k hk⟩, fun p q hq => ?_⟩
  have hok := h.prods p q hq
  refine ⟨h.books.supply p q hq, hok.pending, fun hstate => ?_, fun ⟨hactive, hpos⟩ => ?_⟩
  · exact ⟨by simp [RmProdRes.active, hstate], hok.waiting hstate⟩
  · by_contra hne
    have hgranted : q.state = .granted := by
      simpa [RmProdRes.active, hne] using hactive
    have := hok.granted hgranted
    omega

theorem counters_of_run_bringUp :
    ∃ t k, Transition.run step {} bringUp = some t ∧ t.conss .q6Cons = some k ∧
      k.usageCount = 1 ∧ k.neededBw = tally t.prodBw fun p => t.uses p .q6Cons := by
  obtain ⟨t, hrun, hsome⟩ := (Option.any_eq_true _ _).mp (show (Transition.run step {} bringUp).any
    (fun t => (t.conss .q6Cons).any (·.usageCount = 1)) = true by decide)
  obtain ⟨k, hk, husage⟩ := (Option.any_eq_true _ _).mp hsome
  have hcounters := counters_of_run (by decide) hrun
  exact ⟨t, k, hrun, hk, by simpa using husage, (hcounters.1 _ k hk).2⟩

/-- Nothing that is on the queue is lost, and what is added comes last. -/
def Queues (s s' : Rm) : Prop := ∃ ws, s'.wq = s.wq ++ ws

theorem Queues.refl (s : Rm) : Queues s s := ⟨[], by simp⟩

theorem Queues.trans {s₁ s₂ s₃ : Rm} (h : Queues s₁ s₂) (h' : Queues s₂ s₃) : Queues s₁ s₃ := by
  obtain ⟨ws, hws⟩ := h
  obtain ⟨ws', hws'⟩ := h'
  exact ⟨ws ++ ws', by rw [hws', hws, List.append_assoc]⟩

theorem queues_foldl {κ : Type} {f : Rm → κ → Rm} (h : ∀ s k, Queues s (f s k)) (s : Rm)
    (ks : List κ) : Queues s (ks.foldl f s) := by
  induction ks generalizing s with
  | nil => exact .refl s
  | cons k ks ih => exact (h s k).trans (ih (f s k))

theorem queues_perf (s : Rm) (name : RmName) : Queues s (ipaRmPerfProfileChange s name) := by
  unfold ipaRmPerfProfileChange
  split
  · exact .refl s
  · dsimp only
    split_ifs
    · exact .refl s
    · exact ⟨_, rfl⟩

theorem queues_notifyClients (s : Rm) (p : RmProd) (event : RmEvent) (reg : Bool) :
    Queues s (ipaRmResourceProducerNotifyClients s p event reg) := by
  unfold ipaRmResourceProducerNotifyClients
  split
  · exact .refl s
  · apply queues_foldl
    intro s l
    split_ifs <;> exact .refl s

theorem queues_producerHandleCb (s : Rm) (p : RmProd) (event : RmEvent) :
    Queues s (ipaRmResourceProducerHandleCb s p event) := by
  have htold (s₁ : Rm) (event : RmEvent) : Queues s₁
      (ipaRmResourceProducerNotifyClients (ipaRmPerfProfileChange s₁ (.inl p)) p event false) :=
    (queues_perf s₁ _).trans (queues_notifyClients _ p event false)
  unfold ipaRmResourceProducerHandleCb
  cases s.prods p with
  | none => exact .refl s
  | some q =>
    cases hstate : q.state <;> cases event <;> simp only [hstate]
    case requestInProgress.granted =>
      split_ifs
      · exact htold ((s.setProd p _).modifyProd p _) .granted
      all_goals exact .refl s
    case releaseInProgress.released =>
      split_ifs
      · exact htold ((s.setProd p _).modifyProd p _) .released
      all_goals exact .refl s
    all_goals exact .refl s

theorem queues_consumerHandleCb (s : Rm) (c : RmCons) (event : RmEvent) :
    Queues s (ipaRmResourceConsumerHandleCb s c event) := by
  have hpeers (peers : RmProd → Option Bool) (event : RmEvent) (s₁ : Rm) :
      Queues s₁ (handleCbPeers peers event s₁) := by
    apply queues_foldl
    intro s p
    split_ifs
    · exact queues_producerHandleCb s p event
    · exact .refl s
  unfold ipaRmResourceConsumerHandleCb
  cases hk : s.conss c with
  | none => exact .refl s
  | some k =>
    cases hstate : k.state <;> cases event <;> simp only [hstate]
    case requestInProgress.granted =>
      exact (queues_perf (s.setCons c { k with state := .granted }) _).trans (hpeers _ _ _)
    case releaseInProgress.released => exact hpeers _ _ (s.setCons c { k with state := .released })
    all_goals exact .refl s

/-- What a work item does to the resources: nothing, or what a completion does. -/
theorem handleWork_graph (s : Rm) {reply : RmReply} (hreply : reply.Answered) (w : RmWork) :
    Queues s (handleWork s reply w) ∧
      ((handleWork s reply w).toRmDepGraph = s.toRmDepGraph ∨
        ∃ c event, (handleWork s reply w).toRmDepGraph = s.toRmDepGraph.afterCb c event) := by
  cases w with
  | notifyProd p event reg =>
    exact ⟨queues_notifyClients s p event reg, .inl (notifyClients_graph s p event reg)⟩
  | resourceCb name event =>
    simp only [handleWork]
    split
    · exact ⟨queues_consumerHandleCb s _ event, .inr ⟨_, event, consumerHandleCb_graph s _ event⟩⟩
    · exact ⟨.refl s, .inl rfl⟩
  | resume c prev bw inc =>
    simp only [handleWork]
    split_ifs
    · have hqueues := queues_consumerHandleCb (s.call (.requestResource c reply.driver)) c .granted
      have hgraph := consumerHandleCb_graph (s.call (.requestResource c reply.driver)) c .granted
      unfold ipaRmResourceConsumerRequestWork
      obtain h0 | hprog := hreply
      · simp only [h0, if_true] at hqueues hgraph ⊢
        exact ⟨hqueues, .inr ⟨c, .granted, hgraph⟩⟩
      · simp only [hprog, eInProgress_ne_zero, if_false, ne_eq, not_true_eq_false]
        exact ⟨.refl s, .inl rfl⟩
    · exact ⟨.refl s, .inl rfl⟩
  | suspend c prev bw =>
    simp only [handleWork]
    split_ifs
    · have hqueues := queues_consumerHandleCb (s.call (.releaseResource c reply.driver)) c .released
      have hgraph := consumerHandleCb_graph (s.call (.releaseResource c reply.driver)) c .released
      have hzero : (if reply.driver = eInProgress then 0 else reply.driver) = 0 := by
        obtain h0 | hprog := hreply
        · rw [h0, ite_self]
        · rw [if_pos hprog]
      unfold ipaRmResourceConsumerReleaseWork
      simp only [hzero, ne_eq, not_true_eq_false, if_false, if_true]
      refine ⟨hqueues.trans (queues_perf _ _), .inr ⟨c, .released, ?_⟩⟩
      rw [perfProfileChange_graph, hgraph]
      rfl
    · exact ⟨.refl s, .inl rfl⟩
  | notifyIpa volt bw => exact ⟨.refl s, .inl rfl⟩

end Rm

/-- A completion asks nobody, and answers the consumer it is for. -/
theorem RmDepGraph.asking_afterCb (g : RmDepGraph) (c : RmCons) (event : RmEvent) :
    (∀ c', (g.afterCb c event).asking c' = true → g.asking c' = true) ∧
      (event = .granted → (g.afterCb c event).asking c = false) := by
  unfold RmDepGraph.afterCb
  cases hk : g.conss c with
  | none => exact ⟨fun _ h => h, fun _ => by simp [asking, hk]⟩
  | some k =>
    have htold (prods : RmProd → Option RmProdRes) (state : RmState)
        (hstate : state ≠ .requestInProgress) (c' : RmCons) :
        RmDepGraph.asking ⟨prods, update g.conss c (some { k with state := state })⟩ c' =
          if c' = c then false else g.asking c' := by
      by_cases hc : c' = c
      · subst hc
        simp [asking, hstate]
      · simp [asking, hc]
    cases hstate : k.state <;> cases event <;> simp only [hstate]
    case requestInProgress.granted =>
      refine ⟨fun c' h => ?_, fun _ => ?_⟩
      · rw [htold _ .granted (by decide)] at h
        split_ifs at h
        exact h
      · rw [htold _ .granted (by decide), if_pos rfl]
    case releaseInProgress.released =>
      refine ⟨fun c' h => ?_, fun h => absurd h (by decide)⟩
      rw [htold _ .released (by decide)] at h
      split_ifs at h
      exact h
    all_goals exact ⟨fun _ h => h, fun h => by simp [asking, hk, hstate] at h ⊢⟩

/-- A completion lets the active producers be active. -/
theorem RmDepGraph.active_afterCb {g : RmDepGraph} (h : g.Inv) (c : RmCons) (event : RmEvent)
    (p : RmProd) : ((g.afterCb c event).prods p).map RmProdRes.active =
      (g.prods p).map RmProdRes.active := by
  have hprod : ((g.prods p).map (·.afterCb event)).map RmProdRes.active =
      (g.prods p).map RmProdRes.active := by
    cases hq : g.prods p with
    | none => rfl
    | some q =>
      have hsettled := (h.prods p q hq).settled
      cases event
      · exact congrArg some (Rm.afterCb_active q)
      · cases hstate : q.state
        case releaseInProgress => exact absurd hstate hsettled
        all_goals simp [RmProdRes.afterCb, hstate]
  unfold RmDepGraph.afterCb
  cases hk : g.conss c with
  | none => rfl
  | some k =>
    cases hstate : k.state <;> cases event <;> simp only [hstate]
    case requestInProgress.granted | releaseInProgress.released =>
      split_ifs
      · exact hprod
      · rfl

namespace Rm

/-- Working off `ws`, with the completions in it for everyone who is asked. -/
theorem granted_after_works {s : Rm} (h : s.Inv) (ws rest : List RmWork)
    (hwq : s.wq = ws ++ rest)
    (hposted : ∀ c, s.asking c = true → .resourceCb c.resourceName .granted ∈ ws)
    {replies : List RmReply} (hlen : replies.length = ws.length)
    (hreplies : ∀ r ∈ replies, r.Answered) :
    ∃ t, Transition.run step s (replies.map .work) = some t ∧ t.Inv ∧
      (∀ c, t.asking c = false) ∧
      ∀ p, (t.prods p).map RmProdRes.active = (s.prods p).map RmProdRes.active := by
  induction ws generalizing s rest replies with
  | nil =>
    obtain rfl : replies = [] := List.length_eq_zero_iff.mp hlen
    exact ⟨s, rfl, h, fun c => by simpa using fun hc => List.not_mem_nil (hposted c hc),
      fun _ => rfl⟩
  | cons w ws ih =>
    obtain ⟨r, replies, rfl⟩ : ∃ r rs, replies = r :: rs :=
      List.exists_cons_of_length_pos (by simp [hlen])
    obtain ⟨hr, hreplies⟩ := List.forall_mem_cons.mp hreplies
    have h₀ : ({ s with wq := ws ++ rest } : Rm).Inv := h
    obtain ⟨⟨extra, hextra⟩, hgraph⟩ := handleWork_graph { s with wq := ws ++ rest } hr w
    have h₁ := inv_handleWork h₀ hr w
    have hstep : step s (.work r) = some (handleWork { s with wq := ws ++ rest } r w) := by
      simp only [step, hwq, List.cons_append]
    generalize hs₁ : handleWork { s with wq := ws ++ rest } r w = s₁ at hextra hgraph h₁ hstep
    have hasking : ∀ c, s₁.asking c = true → s.asking c = true := by
      intro c hc
      obtain hgraph | ⟨c', event, hgraph⟩ := hgraph
      · rwa [hgraph] at hc
      · rw [hgraph] at hc
        exact (s.toRmDepGraph.asking_afterCb c' event).1 c hc
    have hactive : ∀ p, (s₁.prods p).map RmProdRes.active = (s.prods p).map RmProdRes.active := by
      intro p
      obtain hgraph | ⟨c', event, hgraph⟩ := hgraph
      · rw [hgraph]
      · rw [hgraph]
        exact RmDepGraph.active_afterCb h₀ c' event p
    have hposted₁ : ∀ c, s₁.asking c = true → .resourceCb c.resourceName .granted ∈ ws := by
      intro c hc
      refine (List.mem_cons.mp (hposted c (hasking c hc))).resolve_left ?_
      rintro rfl
      simp only [handleWork, ipaRmDepGetIndex_resourceName] at hs₁
      rw [← hs₁, consumerHandleCb_graph, (RmDepGraph.asking_afterCb _ c _).2 rfl] at hc
      exact absurd hc (by decide)
    obtain ⟨t, hrun, ht, hnone, hkept⟩ := ih h₁ (rest ++ extra)
      (by rw [hextra, List.append_assoc]) hposted₁ (by simpa using hlen) hreplies
    refine ⟨t, ?_, ht, hnone, fun p => (hkept p).trans (hactive p)⟩
    exact Transition.run_cons_eq_some.mpr ⟨s₁, hstep, hrun⟩

/-- Once every consumer that is being requested has its completion on the queue, working off the
queue grants every producer that waits, whatever else is on it. -/
theorem waiting_granted {as : List RmAction} {s : Rm}
    (hg : Transition.Guarded step (fun s a => s.orderly a = true) {} as)
    (hrun : Transition.run step {} as = some s)
    (hposted : ∀ c, s.asking c = true → .resourceCb c.resourceName .granted ∈ s.wq)
    {replies : List RmReply} (hlen : replies.length = s.wq.length)
    (hreplies : ∀ r ∈ replies, r.Answered) :
    ∃ t, Transition.run step s (replies.map .work) = some t ∧
      ∀ p q, s.prods p = some q → q.active = true →
        ∃ q', t.prods p = some q' ∧ q'.state = .granted := by
  obtain ⟨t, hrun', ht, hnone, hkept⟩ :=
    granted_after_works (inv_run hg hrun) s.wq [] (by simp) hposted hlen hreplies
  refine ⟨t, hrun', fun p q hq hactive => ?_⟩
  have hp := hkept p
  rw [hq, Option.map_some, hactive] at hp
  obtain ⟨q', hq', hactive'⟩ := Option.map_eq_some_iff.mp hp
  refine ⟨q', hq', ?_⟩
  have hok := ht.prods p q' hq'
  cases hstate : q'.state
  case granted => rfl
  case requestInProgress =>
    -- it would be waiting for somebody
    have hpos := hok.waiting hstate
    rw [hok.pending hactive'] at hpos
    obtain ⟨c, hc⟩ := count_pos_iff.mp hpos
    rw [hnone c, Bool.and_false] at hc
    exact absurd hc (by decide)
  all_goals simp [RmProdRes.active, hstate] at hactive'

theorem waiting_granted_bringUp :
    ∃ s t q, Transition.run step {} bringUp = some s ∧
      Transition.run step s [.work {}] = some t ∧
      t.prods .wwan0Prod = some q ∧ q.state = .granted := by
  obtain ⟨s, hrun, hs⟩ := (Option.any_eq_true _ _).mp (show (Transition.run step {} bringUp).any
    (fun s => s.wq = [.resourceCb 1 .granted] &&
      RmCons.all.all (fun c => c = .q6Cons || !s.asking c) &&
      (s.prods .wwan0Prod).any (·.active)) = true by decide)
  simp only [Bool.and_eq_true, decide_eq_true_eq, List.all_eq_true] at hs
  obtain ⟨⟨hwq, hothers⟩, hactive⟩ := hs
  obtain ⟨q, hq, hactive⟩ := (Option.any_eq_true _ _).mp hactive
  have hposted : ∀ c, s.asking c = true → .resourceCb c.resourceName .granted ∈ s.wq := by
    intro c hc
    have h := hothers c (RmCons.mem_all c)
    rw [hc, Bool.not_true, Bool.or_false, decide_eq_true_eq] at h
    rw [hwq, h]
    exact List.mem_singleton_self _
  have hlen : [({} : RmReply)].length = s.wq.length := by rw [hwq]; rfl
  obtain ⟨t, hwork, hall⟩ := waiting_granted (by decide) hrun hposted
    hlen (by decide)
  obtain ⟨q', hq', hgranted⟩ := hall .wwan0Prod q hq hactive
  exact ⟨s, t, q', hrun, hwork, hq', hgranted⟩

end Rm

end X00TDCellular
