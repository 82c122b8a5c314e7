import X00TDCellular.IpaRm
import X00TDCellular.PointwiseFold
import X00TDCellular.Transition

/-! What each operation of the resource manager does to the resources, its votes and messages
apart. -/

namespace X00TDCellular
open Function

namespace RmDepGraph

variable (g : RmDepGraph) (p : RmProd) (c : RmCons)

@[simp] theorem setProd_prods (q : RmProdRes) :
    (g.setProd p q).prods = update g.prods p (some q) := rfl
@[simp] theorem setProd_conss (q : RmProdRes) : (g.setProd p q).conss = g.conss := rfl
@[simp] theorem setCons_prods (k : RmConsRes) : (g.setCons c k).prods = g.prods := rfl
@[simp] theorem setCons_conss (k : RmConsRes) :
    (g.setCons c k).conss = update g.conss c (some k) := rfl
@[simp] theorem modifyProd_conss (f : RmProdRes → RmProdRes) :
    (g.modifyProd p f).conss = g.conss := rfl
@[simp] theorem modifyCons_prods (f : RmConsRes → RmConsRes) :
    (g.modifyCons c f).prods = g.prods := rfl

theorem modifyProd_eq {q : RmProdRes} (h : g.prods p = some q) (f : RmProdRes → RmProdRes) :
    g.modifyProd p f = g.setProd p (f q) := by
  simp [modifyProd, setProd, h]

theorem modifyCons_eq {k : RmConsRes} (h : g.conss c = some k) (f : RmConsRes → RmConsRes) :
    g.modifyCons c f = g.setCons c (f k) := by
  simp [modifyCons, setCons, h]

@[simp] theorem setProd_modifyProd (q : RmProdRes) (f : RmProdRes → RmProdRes) :
    (g.setProd p q).modifyProd p f = g.setProd p (f q) := by
  simp [modifyProd, setProd]

@[simp] theorem setCons_modifyCons (k : RmConsRes) (f : RmConsRes → RmConsRes) :
    (g.setCons c k).modifyCons c f = g.setCons c (f k) := by
  simp [modifyCons, setCons]

@[simp] theorem setProd_setProd (q q' : RmProdRes) :
    (g.setProd p q).setProd p q' = g.setProd p q' := by
  simp [setProd]

@[simp] theorem setCons_setCons (k k' : RmConsRes) :
    (g.setCons c k).setCons c k' = g.setCons c k' := by
  simp [setCons]

theorem setCons_eq_self {k : RmConsRes} (h : g.conss c = some k) : g.setCons c k = g := by
  simp [setCons, ← h]

theorem setProd_eq_self {q : RmProdRes} (h : g.prods p = some q) : g.setProd p q = g := by
  simp [setProd, ← h]

end RmDepGraph

namespace Rm

variable (s : Rm) (p : RmProd) (c : RmCons)

-- `simp` goes from an operation to the resources by these, in each case of the proofs below
@[simp] theorem setProd_graph (q : RmProdRes) :
    (s.setProd p q).toRmDepGraph = s.toRmDepGraph.setProd p q := rfl
@[simp] theorem setCons_graph (k : RmConsRes) :
    (s.setCons c k).toRmDepGraph = s.toRmDepGraph.setCons c k := rfl
@[simp] theorem modifyProd_graph (f : RmProdRes → RmProdRes) :
    (s.modifyProd p f).toRmDepGraph = s.toRmDepGraph.modifyProd p f := rfl
@[simp] theorem modifyCons_graph (f : RmConsRes → RmConsRes) :
    (s.modifyCons c f).toRmDepGraph = s.toRmDepGraph.modifyCons c f := rfl
@[simp] theorem push_graph (w : RmWork) : (s.push w).toRmDepGraph = s.toRmDepGraph := rfl
@[simp] theorem call_graph (x : RmCall) : (s.call x).toRmDepGraph = s.toRmDepGraph := rfl

end Rm

@[simp] theorem perfProfileChange_graph (s : Rm) (name : RmName) :
    (ipaRmPerfProfileChange s name).toRmDepGraph = s.toRmDepGraph := by
  unfold ipaRmPerfProfileChange
  split
  · rfl
  · dsimp only
    split_ifs <;> rfl

@[simp] theorem notifyClients_graph (s : Rm) (p : RmProd) (event : RmEvent) (reg : Bool) :
    (ipaRmResourceProducerNotifyClients s p event reg).toRmDepGraph = s.toRmDepGraph := by
  unfold ipaRmResourceProducerNotifyClients
  split
  · rfl
  · apply PointwiseFold.proj_foldl Rm.toRmDepGraph
    intro s l
    split_ifs <;> rfl

/-- A producer after `ipa_rm_resource_producer_handle_cb`. -/
def RmProdRes.afterCb (q : RmProdRes) (event : RmEvent) : RmProdRes :=
  match q.state, event with
  | .requestInProgress, .granted =>
    if q.pendingRequest > 0 then
      if q.pendingRequest-1 = 0 then
        { q with pendingRequest := q.pendingRequest-1, state := .granted }
      else { q with pendingRequest := q.pendingRequest-1 }
    else q
  | .releaseInProgress, .released =>
    if q.pendingRelease > 0 then
      if q.pendingRelease-1 = 0 then
        { q with pendingRelease := q.pendingRelease-1, state := .released }
      else { q with pendingRelease := q.pendingRelease-1 }
    else q
  | _, _ => q

theorem producerHandleCb_graph (s : Rm) (p : RmProd) (event : RmEvent) :
    (ipaRmResourceProducerHandleCb s p event).toRmDepGraph =
      s.toRmDepGraph.modifyProd p (·.afterCb event) := by
  unfold ipaRmResourceProducerHandleCb
  cases hq : s.prods p with
  | none =>
    have hself : s.toRmDepGraph.modifyProd p (·.afterCb event) = s.toRmDepGraph := by
      rw [RmDepGraph.modifyProd, hq, Option.map_none, ← hq, update_eq_self]
    exact hself.symm
  | some q =>
    have hself := RmDepGraph.setProd_eq_self _ p hq
    rw [RmDepGraph.modifyProd_eq _ p hq]
    cases hstate : q.state <;> cases event
    -- only a producer that waits for this event changes
    case requestInProgress.granted | releaseInProgress.released =>
      simp only [RmProdRes.afterCb, hstate]
      split_ifs
      · rw [notifyClients_graph, perfProfileChange_graph, Rm.modifyProd_graph, Rm.setProd_graph,
          RmDepGraph.setProd_modifyProd]
      · rfl
      · exact hself.symm
    all_goals simp only [RmProdRes.afterCb, hstate, hself]

/-- The resources after the loop of `ipa_rm_resource_consumer_handle_cb`. -/
theorem handleCbPeers_graph (peers : RmProd → Option Bool) (event : RmEvent) (s : Rm) :
    (handleCbPeers peers event s).toRmDepGraph =
      { s.toRmDepGraph with
        prods := fun p => if (peers p).isSome then (s.prods p).map (·.afterCb event)
          else s.prods p } := by
  have hconss : (handleCbPeers peers event s).conss = s.conss := by
    apply PointwiseFold.proj_foldl fun s : Rm => s.conss
    intro s p
    split_ifs
    · rw [producerHandleCb_graph]
      rfl
    · rfl
  have hprods : ∀ p, (handleCbPeers peers event s).prods p =
      if (peers p).isSome then (s.prods p).map (·.afterCb event) else s.prods p := by
    intro p
    have h := PointwiseFold.get_foldl (fun (s : Rm) p => s.prods p)
      (fun s p => if (peers p).isSome then ipaRmResourceProducerHandleCb s p event else s)
      (fun p q => if (peers p).isSome then q.map (·.afterCb event) else q)
      (fun s p => by
        split_ifs
        · rw [producerHandleCb_graph]
          simp [RmDepGraph.modifyProd]
        · rfl)
      (fun s p p' hp => by
        split_ifs
        · rw [producerHandleCb_graph]
          simp [RmDepGraph.modifyProd, hp]
        · rfl) s RmProd.nodup_all p
    rwa [if_pos (RmProd.mem_all p)] at h
  show RmDepGraph.mk _ _ = _
  rw [hconss, funext hprods]

/-- The resources after `ipa_rm_resource_consumer_handle_cb`. -/
def RmDepGraph.afterCb (g : RmDepGraph) (c : RmCons) (event : RmEvent) : RmDepGraph :=
  match g.conss c with
  | none => g
  | some k =>
    let told (state : RmState) : RmDepGraph :=
      { prods := fun p => if (k.peers p).isSome then (g.prods p).map (·.afterCb event)
          else g.prods p
        conss := update g.conss c (some { k with state := state }) }
    match k.state, event with
    | .requestInProgress, .granted => told .granted
    | .releaseInProgress, .released => told .released
    | _, _ => g

theorem consumerHandleCb_graph (s : Rm) (c : RmCons) (event : RmEvent) :
    (ipaRmResourceConsumerHandleCb s c event).toRmDepGraph = s.toRmDepGraph.afterCb c event := by
  unfold ipaRmResourceConsumerHandleCb RmDepGraph.afterCb
  cases hk : s.conss c with
  | none => rfl
  | some k =>
    cases hstate : k.state <;> cases event
    case requestInProgress.granted | releaseInProgress.released =>
      simp only [handleCbPeers_graph, perfProfileChange_graph, Rm.setCons_graph,
        RmDepGraph.setCons_prods, RmDepGraph.setCons_conss, hstate]
    all_goals simp only [hstate]

/-- A consumer that one more request counts on. -/
def RmConsRes.opened (k : RmConsRes) (bw : BitVec 32) (inc : Bool) (state : RmState) :
    RmConsRes :=
  { k with
    state := state
    neededBw := k.neededBw + bw
    usageCount := if inc then k.usageCount+1 else k.usageCount }

/-- What a request makes of a consumer, and what it returns. -/
inductive RmConsRes.Requested (k : RmConsRes) (bw : BitVec 32) (inc wake : Bool)
    (reply : RmReply) : RmConsRes → ℤ → Prop
  | failed {k' : RmConsRes} : k' = k → reply.driver ≠ 0 → reply.driver ≠ eInProgress →
      Requested k bw inc wake reply k' reply.driver
  | asked : k.state = .released ∨ k.state = .releaseInProgress →
      Requested k bw inc wake reply (k.opened bw inc .requestInProgress) eInProgress
  | opened : k.state = .released → Requested k bw inc wake reply (k.opened bw inc .granted) 0
  | joined : k.state = .granted → Requested k bw inc wake reply (k.opened bw inc .granted) 0
  | woken : k.state = .granted → wake = true →
      Requested k bw inc wake reply (k.opened bw inc .granted) eInProgress
  | waiting : k.state = .requestInProgress →
      Requested k bw inc wake reply (k.opened bw inc .requestInProgress) eInProgress

theorem eInProgress_ne_zero : eInProgress ≠ 0 := by decide

/-- A consumer after `ipa_rm_resource_consumer_request_work` without notification. -/
def RmConsRes.requestWork (k : RmConsRes) (prev : RmState) (bw : BitVec 32) (dec : Bool)
    (driver : ℤ) : RmConsRes :=
  if driver = 0 then { k with state := .granted }
  else if driver = eInProgress then k
  else { k with
    state := prev
    neededBw := k.neededBw - bw
    usageCount := if dec then k.usageCount-1 else k.usageCount }

theorem consumerRequestWork_graph {s : Rm} {c : RmCons} {k : RmConsRes}
    (hk : s.conss c = some k) (prev : RmState) (bw : BitVec 32) (dec : Bool) (driver : ℤ) :
    (ipaRmResourceConsumerRequestWork s c prev bw false dec driver).1.toRmDepGraph =
      s.toRmDepGraph.setCons c (k.requestWork prev bw dec driver) := by
  have hmodify := fun f => RmDepGraph.modifyCons_eq s.toRmDepGraph c hk f
  unfold ipaRmResourceConsumerRequestWork RmConsRes.requestWork
  split_ifs <;> simp_all [RmDepGraph.setCons_eq_self]

@[simp] theorem consumerRequestWork_result (s : Rm) (c : RmCons) (prev : RmState)
    (bw : BitVec 32) (notify dec : Bool) (driver : ℤ) :
    (ipaRmResourceConsumerRequestWork s c prev bw notify dec driver).2 = driver := by
  unfold ipaRmResourceConsumerRequestWork
  split_ifs <;> simp_all

/-- A consumer after the switch of `ipa_rm_resource_consumer_request`. -/
def RmConsRes.requestState (k : RmConsRes) (bw : BitVec 32) (inc wake : Bool)
    (reply : RmReply) : RmConsRes × ℤ :=
  match k.state with
  | .released =>
    if reply.clksNoBlock then
      (RmConsRes.requestWork { k with state := .requestInProgress } .released bw inc
        reply.driver, reply.driver)
    else ({ k with state := .requestInProgress }, eInProgress)
  | .releaseInProgress => ({ k with state := .requestInProgress }, eInProgress)
  | .granted => if wake then (k.requestWork .granted bw inc reply.driver, reply.driver) else (k, 0)
  | .requestInProgress => (k, eInProgress)

theorem consumerRequestState_graph {s : Rm} {c : RmCons} {k : RmConsRes}
    (hk : s.conss c = some k) (bw : BitVec 32) (inc wake : Bool) (reply : RmReply) :
    (consumerRequestState s c k.state bw inc wake reply).1.toRmDepGraph =
        s.toRmDepGraph.setCons c (k.requestState bw inc wake reply).1 ∧
      (consumerRequestState s c k.state bw inc wake reply).2 =
        (k.requestState bw inc wake reply).2 := by
  have hmodify := fun f => RmDepGraph.modifyCons_eq s.toRmDepGraph c hk f
  have hself := RmDepGraph.setCons_eq_self _ c hk
  unfold consumerRequestState RmConsRes.requestState
  cases hstate : k.state
  case released =>
    have hk' : (s.modifyCons c fun k => { k with state := .requestInProgress }).conss c =
        some { k with state := .requestInProgress } := by
      simp [hmodify]
    have hwork := consumerRequestWork_graph hk' .released bw inc reply.driver
    cases hclks : reply.clksNoBlock
    · cases reply.alloc <;> simp [hmodify, Rm.push_graph]
    · simp [hwork, hmodify]
  case granted =>
    cases wake
    · simp [hself]
    · simp [consumerRequestWork_graph hk]
  case requestInProgress => exact ⟨hself.symm, rfl⟩
  case releaseInProgress => cases reply.alloc <;> simp [hmodify]

/-- A consumer after `ipa_rm_resource_consumer_request`. -/
def RmConsRes.request (k : RmConsRes) (bw : BitVec 32) (inc wake : Bool) (reply : RmReply) :
    RmConsRes × ℤ :=
  let out := RmConsRes.requestState { k with neededBw := k.neededBw + bw } bw inc wake reply
  ({ out.1 with usageCount := if inc then out.1.usageCount+1 else out.1.usageCount }, out.2)

theorem consumerRequest_graph {s : Rm} {c : RmCons} {k : RmConsRes} (hk : s.conss c = some k)
    (bw : BitVec 32) (inc wake : Bool) (reply : RmReply) :
    (ipaRmResourceConsumerRequest s c bw inc wake reply).1.toRmDepGraph =
        s.toRmDepGraph.setCons c (k.request bw inc wake reply).1 ∧
      (ipaRmResourceConsumerRequest s c bw inc wake reply).2 =
        (k.request bw inc wake reply).2 := by
  let raised : RmConsRes := { k with neededBw := k.neededBw + bw }
  have hraised : (s.setCons c raised).conss c = some raised := by simp
  obtain ⟨hgraph, hres⟩ := consumerRequestState_graph hraised bw inc wake reply
  unfold ipaRmResourceConsumerRequest RmConsRes.request
  simp only [hk]
  refine ⟨?_, hres⟩
  cases inc
  · exact hgraph.trans (RmDepGraph.setCons_setCons _ c _ _)
  · simp only [if_true, Rm.modifyCons_graph]
    rw [hgraph, RmDepGraph.setCons_modifyCons, Rm.setCons_graph, RmDepGraph.setCons_setCons]

@[simp] theorem consumerRequest_prods (s : Rm) (c : RmCons) (bw : BitVec 32) (inc wake : Bool)
    (reply : RmReply) : (ipaRmResourceConsumerRequest s c bw inc wake reply).1.prods = s.prods := by
  cases hk : s.conss c with
  | none => rw [ipaRmResourceConsumerRequest, hk]
  | some k => rw [(consumerRequest_graph hk bw inc wake reply).1, RmDepGraph.setCons_prods]

/-- How a request ends, by the state the consumer was in. -/
theorem RmConsRes.requested (k : RmConsRes) (bw : BitVec 32) (inc wake : Bool)
    (reply : RmReply) :
    k.Requested bw inc wake reply (k.request bw inc wake reply).1
      (k.request bw inc wake reply).2 := by
  -- a driver that fails takes all of it back
  have hback (state : RmState) (hstate : k.state = state) : k = { k with
      state := state
      neededBw := k.neededBw + bw - bw
      usageCount := if inc then (if inc then k.usageCount-1 else k.usageCount)+1
        else (if inc then k.usageCount-1 else k.usageCount) } := by
    subst hstate
    rw [add_sub_cancel_right]
    cases inc <;> simp
  unfold request requestState
  cases hstate : k.state
  case released =>
    cases hclks : reply.clksNoBlock
    · exact .asked (.inl hstate)
    · by_cases h0 : reply.driver = 0
      · simp only [requestWork, h0, if_true]
        exact .opened hstate
      · by_cases hprog : reply.driver = eInProgress
        · simp only [requestWork, hprog, eInProgress_ne_zero, if_true, if_false]
          exact .asked (.inl hstate)
        · simp only [requestWork, h0, hprog, if_true, if_false]
          exact .failed (hback _ hstate).symm h0 hprog
  case granted =>
    cases wake
    · exact .joined hstate
    · by_cases h0 : reply.driver = 0
      · simp only [requestWork, h0, if_true]
        exact .joined hstate
      · by_cases hprog : reply.driver = eInProgress
        · simp only [requestWork, hprog, eInProgress_ne_zero, if_true, if_false]
          exact .woken hstate rfl
        · simp only [requestWork, h0, hprog, if_true, if_false]
          exact .failed (hback _ hstate).symm h0 hprog
  case requestInProgress => exact .waiting hstate
  case releaseInProgress => exact .asked (.inr hstate)

/-- The count of a consumer that a producer lets go. -/
def RmConsRes.lessUsage (k : RmConsRes) (dec : Bool) : ℤ :=
  if dec = true ∧ k.usageCount > 0 then k.usageCount-1 else k.usageCount

/-- A consumer that one request less counts on. -/
def RmConsRes.closed (k : RmConsRes) (bw : BitVec 32) (dec : Bool) (state : RmState) :
    RmConsRes :=
  { k with
    state := state
    neededBw := k.neededBw - bw
    usageCount := if k.state = .released then k.usageCount else k.lessUsage dec }

theorem consumerReleaseWork_graph {s : Rm} {c : RmCons} {k : RmConsRes}
    (hk : s.conss c = some k) (prev : RmState) (driver : ℤ) :
    (ipaRmResourceConsumerReleaseWork s c prev false driver).1.toRmDepGraph =
      s.toRmDepGraph.setCons c { k with
        state := if driver = 0 ∨ driver = eInProgress then .released else prev } := by
  have hmodify := fun f => RmDepGraph.modifyCons_eq s.toRmDepGraph c hk f
  unfold ipaRmResourceConsumerReleaseWork
  by_cases h0 : driver = 0
  · simp [h0, hmodify, Rm.call_graph]
  · by_cases hprog : driver = eInProgress
    · simp [hprog, hmodify, Rm.call_graph]
    · simp [h0, hprog, hmodify, Rm.call_graph]

/-- A release keeps the state, unless nobody counts on the consumer any longer. -/
theorem consumerRelease_graph {s : Rm} {c : RmCons} {k : RmConsRes} (hk : s.conss c = some k)
    (bw : BitVec 32) (dec : Bool) (reply : RmReply) :
    ∃ state, (ipaRmResourceConsumerRelease s c bw dec reply).1.toRmDepGraph =
        s.toRmDepGraph.setCons c (k.closed bw dec state) ∧
      (state = k.state ∨ k.lessUsage dec = 0 ∧ (k.state = .granted ∨ k.state = .requestInProgress) ∧
        (state = .released ∨ state = .releaseInProgress)) := by
  unfold ipaRmResourceConsumerRelease RmConsRes.closed RmConsRes.lessUsage
  simp only [hk]
  cases hstate : k.state
  case released => exact ⟨.released, by simp, .inl rfl⟩
  case releaseInProgress => exact ⟨.releaseInProgress, by simp, .inl rfl⟩
  case requestInProgress =>
    by_cases husage : (if dec = true ∧ k.usageCount > 0 then k.usageCount-1 else k.usageCount) = 0
    · refine ⟨.releaseInProgress, ?_, .inr ⟨husage, .inr rfl, .inr rfl⟩⟩
      cases reply.alloc <;> simp [husage]
    · exact ⟨.requestInProgress, by simp [husage], .inl rfl⟩
  case granted =>
    by_cases husage : (if dec = true ∧ k.usageCount > 0 then k.usageCount-1 else k.usageCount) = 0
    · cases hsuspend : reply.suspendNoBlock
      · refine ⟨.releaseInProgress, ?_, .inr ⟨husage, .inl rfl, .inr rfl⟩⟩
        cases reply.alloc <;> simp [husage]
      · let s' := ((s.setCons c { k with
            neededBw := k.neededBw - bw
            state := .granted }).modifyCons c fun k => { k with usageCount := 0 }).modifyCons c
              fun k => { k with state := .releaseInProgress }
        have hk' : s'.conss c = some { k with
            neededBw := k.neededBw - bw, state := .releaseInProgress, usageCount := 0 } := by
          simp [s']
        have hwork := consumerReleaseWork_graph hk' .granted reply.driver
        by_cases hok : reply.driver = 0 ∨ reply.driver = eInProgress
        · refine ⟨.released, ?_, .inr ⟨husage, .inl rfl, .inl rfl⟩⟩
          simpa [husage, hok, s'] using hwork
        · refine ⟨.granted, ?_, .inl rfl⟩
          simpa [husage, hok, s'] using hwork
    · exact ⟨.granted, by simp [husage], .inl rfl⟩

@[simp] theorem consumerRelease_prods (s : Rm) (c : RmCons) (bw : BitVec 32) (dec : Bool)
    (reply : RmReply) : (ipaRmResourceConsumerRelease s c bw dec reply).1.prods = s.prods := by
  cases hk : s.conss c with
  | none => rw [ipaRmResourceConsumerRelease, hk]
  | some k =>
    obtain ⟨state, hgraph, -⟩ := consumerRelease_graph hk bw dec reply
    rw [hgraph, RmDepGraph.setCons_prods]

end X00TDCellular
