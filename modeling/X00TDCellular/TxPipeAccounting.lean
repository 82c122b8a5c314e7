import Mathlib.Data.List.Nodup
import X00TDCellular.TxPipe

namespace X00TDCellular
open Transition

/-- The packet whose completion callback is the worker's next step. -/
def WorkerPc.inFlight : WorkerPc → List ℕ
  | .callback _ _ pkt => [pkt]
  | _ => []

namespace TxState

/-- Accepted packets whose completion callback has not run. -/
def awaiting (s : TxState) : List ℕ :=
  (List.range s.accepted).filter fun pkt => pkt ∉ s.callbacks

/-- When a completion callback runs, more accepted packets await theirs than increments are
still ahead. -/
def CountGuard (s : TxState) : TxAction → Prop
  | .worker => s.worker.inFlight ≠ [] → s.uncounted.length < s.awaiting.length
  | _ => True

instance (s : TxState) : ∀ a, Decidable (s.CountGuard a)
  | .worker => inferInstanceAs (Decidable (_ → _))
  | .handler _ => isTrue trivial
  | .kick | .eotIrq | .startWork | .startSwitchWork | .complete => isTrue trivial
  | .xmit _ | .transfer _ | .inc _ => isTrue trivial

/-- The descriptor FIFO and the software list hold the same packets, which follow
the completed ones in the order of submission; the counter is short of the
outstanding packets by those whose increment is to come. -/
structure QueueInv (s : TxState) : Prop where
  list : s.headDescList = s.fifo
  order : s.callbacks ++ s.worker.inFlight ++ s.fifo = List.range s.accepted
  completed : s.completed ≤ s.fifo.length
  counter : s.dev.outstandingPkts + s.uncounted.length + s.callbacks.length = s.accepted

theorem QueueInv.awaiting_eq {s : TxState} (hs : QueueInv s) :
    s.awaiting = s.worker.inFlight ++ s.fifo := by
  have hrange : List.range s.accepted = s.callbacks ++ (s.worker.inFlight ++ s.fifo) := by
    rw [← List.append_assoc, hs.order]
  have hnodup : (s.callbacks ++ (s.worker.inFlight ++ s.fifo)).Nodup := by
    rw [← hrange]
    exact List.nodup_range
  have hdisj := (List.nodup_append'.mp hnodup).2.2
  have hdone : s.callbacks.filter (fun pkt => pkt ∉ s.callbacks) = [] := by
    apply List.filter_eq_nil_iff.mpr
    intro pkt hpkt
    simpa using hpkt
  have hrest : (s.worker.inFlight ++ s.fifo).filter (fun pkt => pkt ∉ s.callbacks) =
      s.worker.inFlight ++ s.fifo := by
    apply List.filter_eq_self.mpr
    intro pkt hpkt
    have hnot : pkt ∉ s.callbacks := fun h => hdisj h hpkt
    simpa using hnot
  rw [awaiting, hrange, List.filter_append, hdone, hrest, List.nil_append]

/-- The counter and the packets it has yet to count are the outstanding ones. -/
theorem QueueInv.outstanding {s : TxState} (hs : QueueInv s) :
    s.dev.outstandingPkts + s.uncounted.length = s.awaiting.length := by
  have hlen := congrArg List.length hs.order
  have hcounter := hs.counter
  rw [List.append_assoc, ← hs.awaiting_eq, List.length_append, List.length_range] at hlen
  omega

/-- The fields of the accounting, the packet in the worker's hands included. -/
structure SameQueue (s s' : TxState) : Prop where
  list : s'.headDescList = s.headDescList
  fifo : s'.fifo = s.fifo
  completed : s'.completed = s.completed
  inFlight : s'.worker.inFlight = s.worker.inFlight
  uncounted : s'.uncounted = s.uncounted
  accepted : s'.accepted = s.accepted
  callbacks : s'.callbacks = s.callbacks
  counter : s'.dev.outstandingPkts = s.dev.outstandingPkts

/-- Those fields, to compare them at once. -/
def queue (s : TxState) :=
  (s.headDescList, s.fifo, s.completed, s.worker.inFlight, s.uncounted, s.accepted,
    s.callbacks, s.dev.outstandingPkts)

theorem SameQueue.of_eq {s s' : TxState} (h : s'.queue = s.queue) : SameQueue s s' := by
  simp only [queue, Prod.mk.injEq] at h
  obtain ⟨hlist, hfifo, hcompleted, hflight, huncounted, haccepted, hcallbacks, hcounter⟩ := h
  exact ⟨hlist, hfifo, hcompleted, hflight, huncounted, haccepted, hcallbacks, hcounter⟩

theorem QueueInv.of_same {s s' : TxState} (hs : QueueInv s) (h : SameQueue s s') :
    QueueInv s' := by
  constructor
  · rw [h.list, h.fifo, hs.list]
  · rw [h.callbacks, h.inFlight, h.fifo, h.accepted, hs.order]
  · rw [h.completed, h.fifo]
    exact hs.completed
  · rw [h.counter, h.uncounted, h.callbacks, h.accepted]
    exact hs.counter

theorem inFlight_pollNext (inactive cnt : ℕ) : (pollNext inactive cnt).inFlight = [] := by
  rcases pollNext_cases inactive cnt with ⟨cycles, h⟩ | h
  · rw [h]
    rfl
  · rw [h]
    rfl

theorem sameQueue_coreReturn (s : TxState) (call : CoreCall) (cnt : ℕ)
    (hw : s.worker.inFlight = []) : SameQueue s (s.coreReturn call cnt) := by
  cases call with
  | poll inactive =>
    refine ⟨rfl, rfl, rfl, ?_, rfl, rfl, rfl, rfl⟩
    rw [hw]
    exact inFlight_pollNext inactive cnt
  | intr => exact ⟨rfl, rfl, rfl, hw.symm, rfl, rfl, rfl, rfl⟩

theorem sameQueue_setPc (s : TxState) (i : ℕ) (h : Handler) (pc : HandlerPc) :
    SameQueue s (s.setPc i h pc) :=
  .of_eq rfl

theorem sameQueue_finish (s : TxState) (i : ℕ) (h : Handler) (ret : ℤ) :
    SameQueue s (s.finish i h ret) := by
  unfold finish
  cases h.kind <;> exact .of_eq rfl

/-- A handler touches the handshake only. -/
theorem sameQueue_handlerStep (s : TxState) (i : ℕ) (h : Handler) :
    SameQueue s (s.handlerStep i h) := by
  unfold handlerStep
  split
  · split
    · exact sameQueue_finish s i h 0
    · exact sameQueue_setPc s i h .setConfig
  · exact .of_eq rfl
  · exact .of_eq rfl
  · have hfin := sameQueue_finish { s with workPending := true } i h 1
    exact ⟨hfin.list, hfin.fifo, hfin.completed, hfin.inFlight, hfin.uncounted,
      hfin.accepted, hfin.callbacks, hfin.counter⟩

/-- `get_iovec` hands the head of the FIFO to the worker: the list pops the same
packet. -/
theorem QueueInv.getIovec {s : TxState} (hs : QueueInv s) (hw : s.worker.inFlight = [])
    (call : CoreCall) (cnt : ℕ) : QueueInv (s.getIovec call cnt) := by
  unfold TxState.getIovec
  by_cases hc : s.completed = 0
  · rw [if_pos hc]
    exact hs.of_same (sameQueue_coreReturn s call cnt hw)
  · rw [if_neg hc]
    have hcompleted := hs.completed
    have horder := hs.order
    rw [hw, List.append_nil] at horder
    obtain ⟨pkt, rest, hfifo⟩ : ∃ pkt rest, s.fifo = pkt :: rest := by
      apply List.exists_cons_of_ne_nil
      intro hnil
      rw [hnil, List.length_nil] at hcompleted
      omega
    have hlist : s.headDescList = pkt :: rest := by rw [hs.list, hfifo]
    rw [hfifo, List.length_cons] at hcompleted
    simp only [hlist]
    constructor
    · simp only [hfifo, List.tail_cons]
    · simp only [WorkerPc.inFlight, hfifo, List.tail_cons, List.append_assoc,
        List.cons_append, List.nil_append]
      rw [← hfifo, horder]
    · simp only [hfifo, List.tail_cons]
      omega
    · exact hs.counter

/-- The callback of the packet in the worker's hands is the next one in order. -/
theorem QueueInv.callback {s : TxState} (hs : QueueInv s) {call : CoreCall} {cnt pkt : ℕ}
    (hw : s.worker = .callback call cnt pkt) :
    QueueInv { s with
      worker := .readFlag call (cnt+1)
      callbacks := s.callbacks ++ [pkt]
      dev := txCompleteNotify s.dev } := by
  have horder := hs.order
  have hcounter := hs.counter
  rw [hw] at horder
  constructor
  · exact hs.list
  · simp only [WorkerPc.inFlight, List.append_nil]
    exact horder
  · exact hs.completed
  · simp only [txCompleteNotify, List.length_append, List.length_cons, List.length_nil]
    omega

theorem QueueInv.workerStep {s s' : TxState} (hs : QueueInv s)
    (hstep : s.workerStep = some s') : QueueInv s' := by
  unfold TxState.workerStep at hstep
  split at hstep
  case h_1 => cases hstep
  case h_2 call cnt hw =>
    have hnone : s.worker.inFlight = [] := by rw [hw]; rfl
    split at hstep
    · cases hstep
      exact hs.of_same ⟨rfl, rfl, rfl, hnone.symm, rfl, rfl, rfl, rfl⟩
    · cases hstep
      exact hs.of_same (sameQueue_coreReturn s call cnt hnone)
  case h_3 call cnt hw =>
    cases hstep
    exact hs.getIovec (by rw [hw]; rfl) call cnt
  case h_4 call cnt pkt hw =>
    cases hstep
    exact hs.callback hw
  case h_5 hw =>
    have hnone : s.worker.inFlight = [] := by rw [hw]; rfl
    split at hstep
    all_goals
      cases hstep
      exact hs.of_same ⟨rfl, rfl, rfl, hnone.symm, rfl, rfl, rfl, rfl⟩
  -- the steps of the switch to interrupt mode hold no packet
  case h_6 hw | h_7 hw | h_8 hw =>
    have hnone : s.worker.inFlight = [] := by rw [hw]; rfl
    cases hstep
    exact hs.of_same ⟨rfl, rfl, rfl, hnone.symm, rfl, rfl, rfl, rfl⟩

theorem QueueInv.transfer {s : TxState} (hs : QueueInv s) (ok : Bool) :
    QueueInv (s.transfer ok) := by
  cases ok with
  | false => exact hs.of_same (.of_eq rfl)
  | true =>
    have hcompleted := hs.completed
    have hcounter := hs.counter
    unfold TxState.transfer
    rw [if_pos rfl]
    constructor
    · simp only [hs.list]
    · simp only [← List.append_assoc, hs.order, List.range_succ]
    · simp only [List.length_append, List.length_cons, List.length_nil]
      omega
    · simp only [List.length_append, List.length_cons, List.length_nil]
      omega

theorem QueueInv.inc {s : TxState} (hs : QueueInv s) {pkt : ℕ} (hpkt : pkt ∈ s.uncounted) :
    QueueInv (s.inc pkt) := by
  have hpos : 0 < s.uncounted.length := List.length_pos_of_mem hpkt
  have hlen : (s.uncounted.erase pkt).length = s.uncounted.length-1 :=
    List.length_erase_of_mem hpkt
  have hcounter := hs.counter
  constructor
  · exact hs.list
  · exact hs.order
  · exact hs.completed
  · simp only [TxState.inc, hlen]
    omega

theorem sameQueue_xmit (s : TxState) (rm : RmResult) : SameQueue s (s.xmit rm) := by
  have hcounter := wwanXmitCheck_outstandingPkts s.dev false rm
  unfold TxState.xmit
  split
  all_goals
    rename_i hverdict
    rw [hverdict] at hcounter
    exact ⟨rfl, rfl, rfl, rfl, rfl, rfl, rfl, hcounter⟩

theorem QueueInv.step (s : TxState) (a : TxAction) (s' : TxState) (hs : QueueInv s)
    (hstep : s.step a = some s') : QueueInv s' := by
  cases a with
  | kick =>
    cases hstep
    exact hs.of_same (.of_eq rfl)
  | eotIrq =>
    cases hstep
    exact hs.of_same (.of_eq rfl)
  | handler i =>
    obtain ⟨h, _, rfl⟩ := step_handler hstep
    exact hs.of_same (sameQueue_handlerStep s i h)
  -- a worker that starts has no packet in its hands before or after
  | startWork =>
    obtain ⟨hidle, rfl⟩ := step_startWork hstep
    have hnone : s.worker.inFlight = [] := by rw [hidle]; rfl
    exact hs.of_same ⟨rfl, rfl, rfl, hnone.symm, rfl, rfl, rfl, rfl⟩
  | startSwitchWork =>
    obtain ⟨hidle, rfl⟩ := step_startSwitchWork hstep
    have hnone : s.worker.inFlight = [] := by rw [hidle]; rfl
    exact hs.of_same ⟨rfl, rfl, rfl, hnone.symm, rfl, rfl, rfl, rfl⟩
  | worker => exact hs.workerStep hstep
  | complete =>
    obtain ⟨hlt, rfl⟩ := step_complete hstep
    exact ⟨hs.list, hs.order, hlt, hs.counter⟩
  | xmit rm =>
    cases hstep
    exact hs.of_same (sameQueue_xmit s rm)
  | transfer ok =>
    rw [step_transfer hstep]
    exact hs.transfer ok
  | inc pkt =>
    obtain ⟨hpkt, rfl⟩ := step_inc hstep
    exact hs.inc hpkt

theorem dev_coreReturn (s : TxState) (call : CoreCall) (cnt : ℕ) :
    (s.coreReturn call cnt).dev = s.dev := by
  cases call <;> rfl

theorem dev_getIovec (s : TxState) (call : CoreCall) (cnt : ℕ) :
    (s.getIovec call cnt).dev = s.dev := by
  unfold TxState.getIovec
  split
  · exact dev_coreReturn s call cnt
  · dsimp only
    split <;> rfl

/-- The worker changes the counter at a completion callback and nowhere else. -/
theorem counter_workerStep {s s' : TxState} (hstep : s.workerStep = some s') :
    (s.worker.inFlight = [] ∧ s'.dev.outstandingPkts = s.dev.outstandingPkts) ∨
      (s.worker.inFlight ≠ [] ∧ s'.dev.outstandingPkts = s.dev.outstandingPkts-1) := by
  unfold TxState.workerStep at hstep
  split at hstep
  case h_1 => cases hstep
  case h_2 call cnt hw =>
    rw [hw]
    split at hstep
    · cases hstep
      exact Or.inl ⟨rfl, rfl⟩
    · cases hstep
      exact Or.inl ⟨rfl, by rw [dev_coreReturn]⟩
  case h_3 call cnt hw =>
    rw [hw]
    cases hstep
    exact Or.inl ⟨rfl, by rw [dev_getIovec]⟩
  case h_4 call cnt pkt hw =>
    rw [hw]
    cases hstep
    exact Or.inr ⟨List.cons_ne_nil _ _, rfl⟩
  case h_5 hw =>
    rw [hw]
    split at hstep
    all_goals
      cases hstep
      exact Or.inl ⟨rfl, rfl⟩
  case h_6 hw | h_7 hw | h_8 hw =>
    rw [hw]
    cases hstep
    exact Or.inl ⟨rfl, rfl⟩

/-- Steps other than the worker's never lower the counter. -/
theorem counter_le_step {s s' : TxState} {a : TxAction} (ha : a ≠ .worker)
    (hstep : s.step a = some s') : s.dev.outstandingPkts ≤ s'.dev.outstandingPkts := by
  cases a with
  | kick | eotIrq =>
    cases hstep
    exact Int.le_refl _
  | handler i =>
    obtain ⟨h, _, rfl⟩ := step_handler hstep
    exact Int.le_of_eq (sameQueue_handlerStep s i h).counter.symm
  | startWork =>
    obtain ⟨_, rfl⟩ := step_startWork hstep
    exact Int.le_refl _
  | startSwitchWork =>
    obtain ⟨_, rfl⟩ := step_startSwitchWork hstep
    exact Int.le_refl _
  | complete =>
    obtain ⟨_, rfl⟩ := step_complete hstep
    exact Int.le_refl _
  | worker => exact absurd rfl ha
  | xmit rm =>
    cases hstep
    exact Int.le_of_eq (sameQueue_xmit s rm).counter.symm
  | transfer ok =>
    rw [step_transfer hstep]
    cases ok <;> exact Int.le_refl _
  | inc pkt =>
    obtain ⟨_, rfl⟩ := step_inc hstep
    simp only [TxState.inc]
    omega

/-- A step takes the counter below zero exactly when it is a callback that the
guard excludes. -/
theorem QueueInv.countGuard_iff (s : TxState) (a : TxAction) (s' : TxState)
    (hs : QueueInv s) (hpos : 0 ≤ s.dev.outstandingPkts) (hstep : s.step a = some s') :
    s.CountGuard a ↔ 0 ≤ s'.dev.outstandingPkts := by
  by_cases ha : a = .worker
  · subst ha
    have houtstanding := hs.outstanding
    rcases counter_workerStep hstep with ⟨hnone, hkeep⟩ | ⟨hsome, hdec⟩
    · rw [hkeep]
      exact iff_of_true (fun h => absurd hnone h) hpos
    · rw [hdec]
      constructor
      · intro hg
        have hlt : s.uncounted.length < s.awaiting.length := hg hsome
        omega
      · intro hge _
        omega
  · have hle := counter_le_step ha hstep
    refine iff_of_true ?_ (Int.le_trans hpos hle)
    cases a <;> first | exact True.intro | exact absurd rfl ha

/-- Nothing is in flight and nothing is counted. -/
structure QueueInitial (s : TxState) : Prop where
  counter : s.dev.outstandingPkts = 0
  fifo : s.fifo = []
  list : s.headDescList = []
  completed : s.completed = 0
  worker : s.worker = .idle
  uncounted : s.uncounted = []
  accepted : s.accepted = 0
  callbacks : s.callbacks = []

theorem QueueInitial.inv {s : TxState} (h : s.QueueInitial) : QueueInv s := by
  constructor
  · rw [h.list, h.fifo]
  · rw [h.callbacks, h.worker, h.fifo, h.accepted]
    rfl
  · rw [h.completed]
    exact Nat.zero_le _
  · rw [h.counter, h.uncounted, h.callbacks, h.accepted]
    rfl

end TxState

open TxState

/-- In every interleaving the callbacks run once each in the order of submission, and
outside the window between a transfer and its increment the counter is the number
of accepted packets still to be completed. The counter stays nonnegative in exactly
the interleavings whose callbacks are guarded. -/
theorem tx_accounting (s t : TxState) (as : List TxAction) (hs : s.QueueInitial)
    (hrun : run TxState.step s as = some t) :
    t.callbacks <+: List.range t.accepted ∧
      (t.uncounted = [] → t.dev.outstandingPkts = t.awaiting.length) ∧
      (Guarded TxState.step CountGuard s as ↔
        ∀ pre post u, as = pre ++ post → run TxState.step s pre = some u →
          0 ≤ u.dev.outstandingPkts) := by
  have hinv : QueueInv t := run_inv QueueInv.step hrun hs.inv
  refine ⟨?_, ?_, ?_⟩
  · rw [← hinv.order, List.append_assoc]
    exact List.prefix_append _ _
  · intro hnone
    have houtstanding := hinv.outstanding
    rw [hnone, List.length_nil] at houtstanding
    omega
  · have hzero : 0 ≤ s.dev.outstandingPkts := Int.le_of_eq hs.counter.symm
    exact guarded_iff_always QueueInv.step QueueInv.countGuard_iff hrun hs.inv hzero

/-- A packet is transferred and completes; an interrupt arms the worker, whose
callback for the packet runs before the transmitter gets to its increment. -/
def completedBeforeCounted : List TxAction :=
  [.xmit .granted, .transfer true, .complete, .eotIrq, .handler 0, .handler 0, .handler 0,
    .handler 0, .startWork, .worker, .worker, .worker]

theorem tx_accounting_underflow :
    ¬ ∀ (s t : TxState) (as : List TxAction), s.QueueInitial →
      run TxState.step s as = some t →
      t.callbacks <+: List.range t.accepted ∧
        (t.uncounted = [] → t.dev.outstandingPkts = t.awaiting.length) ∧
        0 ≤ t.dev.outstandingPkts := by
  intro h
  have hs : idleTxState.QueueInitial := ⟨rfl, rfl, rfl, rfl, rfl, rfl, rfl, rfl⟩
  have hcount : (run TxState.step idleTxState completedBeforeCounted).map
      (fun t => t.dev.outstandingPkts) = some (-1) := by decide +kernel
  obtain ⟨t, hrun, hneg⟩ := Option.map_eq_some_iff.mp hcount
  have hpos := (h idleTxState t completedBeforeCounted hs hrun).2.2
  rw [hneg] at hpos
  exact absurd hpos (by decide)

/-- Two transmissions at a time: both packets complete, and the second is counted before the
first. The first callback runs in between. -/
def countedOutOfOrder : List TxAction :=
  [.xmit .granted, .xmit .granted, .transfer true, .transfer true, .complete, .complete,
    .inc 1, .eotIrq, .handler 0, .handler 0, .handler 0, .handler 0, .startWork, .worker,
    .worker, .worker, .inc 0, .worker, .worker, .worker]

theorem tx_accounting_outOfOrder :
    ∃ t, run TxState.step idleTxState countedOutOfOrder = some t ∧ t.callbacks = [0, 1] ∧
      t.dev.outstandingPkts = t.awaiting.length ∧
      ∀ pre post u, countedOutOfOrder = pre ++ post → run TxState.step idleTxState pre = some u →
        0 ≤ u.dev.outstandingPkts := by
  have hs : idleTxState.QueueInitial := ⟨rfl, rfl, rfl, rfl, rfl, rfl, rfl, rfl⟩
  have hend : (run TxState.step idleTxState countedOutOfOrder).map
      (fun t => (t.uncounted, t.callbacks)) = some ([], [0, 1]) := by decide +kernel
  obtain ⟨t, hrun, hfields⟩ := Option.map_eq_some_iff.mp hend
  obtain ⟨hnone, hcallbacks⟩ := Prod.mk.inj hfields
  obtain ⟨_, hcounter, hguard⟩ := tx_accounting idleTxState t countedOutOfOrder hs hrun
  have hg : Guarded TxState.step CountGuard idleTxState countedOutOfOrder := by decide +kernel
  exact ⟨t, hrun, hcallbacks, hcounter hnone, hguard.mp hg⟩

end X00TDCellular
