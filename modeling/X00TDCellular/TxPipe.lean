import X00TDCellular.Transition
import X00TDCellular.WwanDevice

/-! The egress pipe of `ipa_dp.c`: end-of-transfer interrupts, stall kicks, the
harvest worker and transmissions, one atomic step at a time. Every SPS call
succeeds. -/

namespace X00TDCellular

/-- `sys->ep->connect.options`, less the bits that every configuration sets. -/
inductive PipeMode
  | eot
  | poll
  deriving DecidableEq, Repr

/-- `ipa2_tx_dp_kick_stalled_pipe`, or the `SPS_EVENT_EOT` branch of
`ipa_sps_irq_tx_notify`. -/
inductive HandlerKind
  | kick
  | eotIrq
  deriving DecidableEq, Repr

/-- The step a handler takes next. -/
inductive HandlerPc
  | readFlag
  | setConfig
  | setFlag
  | queueWork
  deriving DecidableEq, Repr

structure Handler where
  kind : HandlerKind
  pc : HandlerPc
  deriving DecidableEq, Repr

/-- Which call of `ipa_handle_tx_core` runs: the one in the loop of
`ipa_handle_tx`, or the one after the switch to interrupt mode. -/
inductive CoreCall
  | poll (inactiveCycles : ℕ)
  | intr
  deriving DecidableEq, Repr

/-- The step the harvest worker takes next; `cnt` is the local counter of
`ipa_handle_tx_core`. -/
inductive WorkerPc
  | idle
  | readFlag (call : CoreCall) (cnt : ℕ)
  | getIovec (call : CoreCall) (cnt : ℕ)
  | callback (call : CoreCall) (cnt pkt : ℕ)
  | switchRead
  | switchConfig
  | switchClear
  | switchFail
  deriving DecidableEq, Repr

def pollingInactivityTx : ℕ := 40

/-- Packets are named by their place in the order of the transfers. -/
structure TxState where
  currPollingState : Bool
  mode : PipeMode
  /-- descriptors that `sps_get_iovec` has not returned, the first `completed` of
  them done by the hardware -/
  fifo : List ℕ
  completed : ℕ
  headDescList : List ℕ
  workPending : Bool
  switchPending : Bool
  worker : WorkerPc
  handlers : List Handler
  kickResults : List ℤ
  /-- transmissions past their checks, before the transfer -/
  checked : ℕ
  /-- packets transferred whose `atomic_inc` is still to come -/
  uncounted : List ℕ
  accepted : ℕ
  /-- packets whose completion callback has run, in that order -/
  callbacks : List ℕ
  activeClients : ℤ
  dev : Netdev
  deriving DecidableEq, Repr

inductive TxAction
  | kick
  | eotIrq
  | handler (i : ℕ)
  | startWork
  | startSwitchWork
  | worker
  | complete
  | xmit (rm : RmResult)
  | transfer (ok : Bool)
  | inc (pkt : ℕ)
  deriving DecidableEq, Repr

namespace TxState

def setPc (s : TxState) (i : ℕ) (h : Handler) (pc : HandlerPc) : TxState :=
  { s with handlers := s.handlers.set i { h with pc := pc } }

/-- A handler returns; a kick drops its clock vote and reports `ret`. -/
def finish (s : TxState) (i : ℕ) (h : Handler) (ret : ℤ) : TxState :=
  match h.kind with
  | .kick =>
    { s with
      handlers := s.handlers.eraseIdx i
      kickResults := s.kickResults ++ [ret]
      activeClients := s.activeClients-1 }
  | .eotIrq => { s with handlers := s.handlers.eraseIdx i }

def handlerStep (s : TxState) (i : ℕ) (h : Handler) : TxState :=
  match h.pc with
  | .readFlag => if s.currPollingState then s.finish i h 0 else s.setPc i h .setConfig
  -- `sps_set_config` with SPS_O_POLL, then `atomic_set`, then `queue_work`
  | .setConfig => { s with mode := .poll }.setPc i h .setFlag
  | .setFlag => { s with currPollingState := true }.setPc i h .queueWork
  | .queueWork => { s with workPending := true }.finish i h 1

/-- The loop of `ipa_handle_tx` after a call that harvested `cnt` descriptors. -/
def pollNext (inactive cnt : ℕ) : WorkerPc :=
  let inactive := if cnt = 0 then inactive+1 else 0
  if inactive ≤ pollingInactivityTx then .readFlag (.poll inactive) 0 else .switchRead

/-- `ipa_handle_tx_core` returns `cnt` to its caller. -/
def coreReturn (s : TxState) (call : CoreCall) (cnt : ℕ) : TxState :=
  match call with
  | .poll inactive => { s with worker := pollNext inactive cnt }
  | .intr => { s with worker := .idle, activeClients := s.activeClients-1 }

/-- The loop condition of `ipa_handle_tx_core`. -/
def coreContinues (s : TxState) : CoreCall → Bool
  | .poll _ => s.currPollingState
  | .intr => !s.currPollingState

/-- `sps_get_iovec`, and `ipa_wq_write_done_common` up to the callback when it
returned a descriptor. -/
def getIovec (s : TxState) (call : CoreCall) (cnt : ℕ) : TxState :=
  if s.completed = 0 then s.coreReturn call cnt
  else
    let s := { s with fifo := s.fifo.tail, completed := s.completed-1 }
    match s.headDescList with
    | [] => { s with worker := .readFlag call (cnt+1) }
    | pkt :: rest => { s with headDescList := rest, worker := .callback call cnt pkt }

def workerStep (s : TxState) : Option TxState :=
  match s.worker with
  | .idle => none
  | .readFlag call cnt =>
    if s.coreContinues call then some { s with worker := .getIovec call cnt }
    else some (s.coreReturn call cnt)
  | .getIovec call cnt => some (s.getIovec call cnt)
  | .callback call cnt pkt =>
    some { s with
      worker := .readFlag call (cnt+1)
      callbacks := s.callbacks ++ [pkt]
      dev := txCompleteNotify s.dev }
  -- `ipa_tx_switch_to_intr_mode`; it fails when the flag is clear
  | .switchRead =>
    if s.currPollingState then some { s with worker := .switchConfig }
    else some { s with worker := .switchFail }
  | .switchConfig => some { s with mode := .eot, worker := .switchClear }
  | .switchClear => some { s with currPollingState := false, worker := .readFlag .intr 0 }
  | .switchFail =>
    some { s with
      switchPending := true
      worker := .idle
      activeClients := s.activeClients-1 }

/-- `ipa_handle_tx` starts on the pipe's workqueue. -/
def handleTx (s : TxState) : TxState :=
  { s with worker := .readFlag (.poll 0) 0, activeClients := s.activeClients+1 }

/-- `ipa_send_one` for the descriptor of a data packet: list and FIFO grow under
`sys->spinlock`, or neither does. -/
def transfer (s : TxState) (ok : Bool) : TxState :=
  if ok then
    { s with
      checked := s.checked-1
      fifo := s.fifo ++ [s.accepted]
      headDescList := s.headDescList ++ [s.accepted]
      uncounted := s.uncounted ++ [s.accepted]
      accepted := s.accepted+1 }
  else { s with checked := s.checked-1 }

def xmit (s : TxState) (rm : RmResult) : TxState :=
  match wwanXmitCheck s.dev false rm with
  | (dev, .send) => { s with dev := dev, checked := s.checked+1 }
  | (dev, _) => { s with dev := dev }

def inc (s : TxState) (pkt : ℕ) : TxState :=
  { s with
    uncounted := s.uncounted.erase pkt
    dev := { s.dev with outstandingPkts := s.dev.outstandingPkts+1 } }

def step (s : TxState) : TxAction → Option TxState
  | .kick =>
    some { s with
      handlers := s.handlers ++ [⟨.kick, .readFlag⟩]
      activeClients := s.activeClients+1 }
  | .eotIrq => some { s with handlers := s.handlers ++ [⟨.eotIrq, .readFlag⟩] }
  | .handler i => s.handlers[i]?.map (s.handlerStep i)
  | .startWork =>
    if s.worker = .idle ∧ s.workPending then some { s with workPending := false }.handleTx
    else none
  | .startSwitchWork =>
    if s.worker = .idle ∧ s.switchPending then some { s with switchPending := false }.handleTx
    else none
  | .worker => s.workerStep
  | .complete =>
    if s.completed < s.fifo.length then some { s with completed := s.completed+1 } else none
  | .xmit rm => some (s.xmit rm)
  | .transfer ok => if 0 < s.checked then some (s.transfer ok) else none
  | .inc pkt => if pkt ∈ s.uncounted then some (s.inc pkt) else none

/-! The actions that can be refused, each with what it takes and what it does. -/

theorem step_handler {s s' : TxState} {i : ℕ} (h : s.step (.handler i) = some s') :
    ∃ hd, s.handlers[i]? = some hd ∧ s' = s.handlerStep i hd := by
  obtain ⟨hd, hi, heq⟩ := Option.map_eq_some_iff.mp h
  exact ⟨hd, hi, heq.symm⟩

theorem step_startWork {s s' : TxState} (h : s.step .startWork = some s') :
    s.worker = .idle ∧ s' = { s with workPending := false }.handleTx := by
  obtain ⟨hcond, heq⟩ := Option.ite_none_right_eq_some.mp h
  exact ⟨hcond.1, (Option.some.inj heq).symm⟩

theorem step_startSwitchWork {s s' : TxState} (h : s.step .startSwitchWork = some s') :
    s.worker = .idle ∧ s' = { s with switchPending := false }.handleTx := by
  obtain ⟨hcond, heq⟩ := Option.ite_none_right_eq_some.mp h
  exact ⟨hcond.1, (Option.some.inj heq).symm⟩

theorem step_complete {s s' : TxState} (h : s.step .complete = some s') :
    s.completed < s.fifo.length ∧ s' = { s with completed := s.completed+1 } := by
  obtain ⟨hcond, heq⟩ := Option.ite_none_right_eq_some.mp h
  exact ⟨hcond, (Option.some.inj heq).symm⟩

theorem step_transfer {s s' : TxState} {ok : Bool} (h : s.step (.transfer ok) = some s') :
    s' = s.transfer ok := by
  obtain ⟨_, heq⟩ := Option.ite_none_right_eq_some.mp h
  exact (Option.some.inj heq).symm

theorem step_inc {s s' : TxState} {pkt : ℕ} (h : s.step (.inc pkt) = some s') :
    pkt ∈ s.uncounted ∧ s' = s.inc pkt := by
  obtain ⟨hcond, heq⟩ := Option.ite_none_right_eq_some.mp h
  exact ⟨hcond, (Option.some.inj heq).symm⟩

/-- The loop goes on polling, or tries to switch to interrupts. -/
theorem pollNext_cases (inactive cnt : ℕ) :
    (∃ cycles, pollNext inactive cnt = .readFlag (.poll cycles) 0) ∨
      pollNext inactive cnt = .switchRead := by
  unfold pollNext
  dsimp only
  generalize (if cnt = 0 then inactive+1 else 0) = cycles
  by_cases hc : cycles ≤ pollingInactivityTx
  · rw [if_pos hc]
    exact Or.inl ⟨cycles, rfl⟩
  · rw [if_neg hc]
    exact Or.inr rfl

/-- No kick, interrupt handler or worker run is part-way through its steps. -/
def Quiescent (s : TxState) : Prop :=
  s.handlers = [] ∧ s.worker = .idle

instance (s : TxState) : Decidable s.Quiescent :=
  inferInstanceAs (Decidable (_ ∧ _))

end TxState

/-- The pipe as it is set up, with nothing in flight. -/
def idleTxState : TxState where
  currPollingState := false
  mode := .eot
  fifo := []
  completed := 0
  headDescList := []
  workPending := false
  switchPending := false
  worker := .idle
  handlers := []
  kickResults := []
  checked := 0
  uncounted := []
  accepted := 0
  callbacks := []
  activeClients := 0
  dev := ⟨0, false, false, 0, 0⟩

end X00TDCellular
