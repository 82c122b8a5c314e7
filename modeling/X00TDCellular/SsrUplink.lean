import X00TDCellular.Transition
import X00TDCellular.WwanDevice

/-! The uplink queue across modem restarts: the ported `ssr_notifier_cb` with the
sources that stop and wake the queue. -/

namespace X00TDCellular
open Transition

inductive SsrCode
  | beforeShutdown
  | afterShutdown
  | beforePowerup
  | afterPowerup
  deriving DecidableEq, Repr

/-- What `ssr_notifier_cb` does besides the queue. -/
inductive SsrEffect
  | sendSsrNotification
  | q6PreShutdownCleanup
  | q6PostShutdownCleanup
  | registerDriver
  | qmiServiceExit
  | proxyClkVote
  deriving DecidableEq, Repr

/-- The ported callback, with SSR enabled in the device tree. BEFORE_SHUTDOWN stops
the queue and leaves `is_ssr` and the driver alone. -/
def ssrNotifierCb (dev : Netdev) (isInitialized : Bool) : SsrCode → Netdev × List SsrEffect
  | .beforeShutdown =>
    ({ dev with queueStopped := true }, [.sendSsrNotification, .q6PreShutdownCleanup])
  | .afterShutdown => (dev, if dev.isSsr then [.q6PostShutdownCleanup] else [])
  | .afterPowerup => (dev, if !isInitialized && dev.isSsr then [.registerDriver] else [])
  | .beforePowerup =>
    (dev, (if dev.isSsr then [.qmiServiceExit] else []) ++ [.proxyClkVote])

/-- How far the latest modem restart has come. -/
inductive RestartPhase
  | none
  | down
  | poweredUp
  deriving DecidableEq, Repr

structure UplinkState where
  dev : Netdev
  isInitialized : Bool
  phase : RestartPhase
  inFlight : ℕ
  /-- the resource manager owes a GRANTED event -/
  grantPending : Bool
  /-- `ipa_tx_wakequeue_work` is scheduled -/
  wakePending : Bool
  /-- `ipa_tx_stall_work` is scheduled -/
  stallPending : Bool
  effects : List SsrEffect
  deriving DecidableEq, Repr

inductive UplinkEvent
  | notify (code : SsrCode)
  | xmit (qmapCheck : Bool) (rm : RmResult) (transferred : Bool)
  | completion
  | rmGranted
  | wakeWork
  | watchdog
  | stallWork (rc : ℤ)
  deriving DecidableEq, Repr

namespace UplinkState

def nextPhase (phase : RestartPhase) : SsrCode → RestartPhase
  | .beforeShutdown => .down
  | .afterPowerup => if phase = .down then .poweredUp else phase
  | _ => phase

def notify (s : UplinkState) (code : SsrCode) : UplinkState :=
  { s with
    dev := (ssrNotifierCb s.dev s.isInitialized code).1
    phase := nextPhase s.phase code
    effects := s.effects ++ (ssrNotifierCb s.dev s.isInitialized code).2 }

/-- `ipa_wwan_xmit`. A request that is in progress is granted later on. -/
def xmit (s : UplinkState) (qmapCheck : Bool) (rm : RmResult) (transferred : Bool) :
    UplinkState :=
  match wwanXmitCheck s.dev qmapCheck rm with
  | (dev, .send) =>
    if transferred then
      { s with
        dev := { dev with outstandingPkts := dev.outstandingPkts+1 }
        inFlight := s.inFlight+1 }
    else { s with dev := dev }
  | (dev, .waiting) => { s with dev := dev, grantPending := true }
  | (dev, _) => { s with dev := dev }

def step (s : UplinkState) : UplinkEvent → Option UplinkState
  | .notify code => some (s.notify code)
  | .xmit qmapCheck rm transferred => some (s.xmit qmapCheck rm transferred)
  | .completion =>
    if 0 < s.inFlight then
      some { s with dev := txCompleteNotify s.dev, inFlight := s.inFlight-1 }
    else none
  | .rmGranted => some { s with grantPending := false, wakePending := true }
  | .wakeWork =>
    if s.wakePending then
      some { s with wakePending := false, dev := { s.dev with queueStopped := false } }
    else none
  | .watchdog => some { s with stallPending := s.stallPending || wwanTxTimeout s.dev }
  | .stallWork rc =>
    if s.stallPending then
      some { s with
        stallPending := false
        dev := txStallRecover s.dev s.dev.outstandingPkts rc }
    else none

/-- Something other than system resume can still wake the queue. -/
def WakeAhead (s : UplinkState) : Prop :=
  0 < s.inFlight ∨ s.grantPending = true ∨ s.wakePending = true

instance (s : UplinkState) : Decidable s.WakeAhead :=
  inferInstanceAs (Decidable (_ ∨ _))

/-- The restart is over, the queue is stopped below the low water mark, and nothing
will wake it. -/
def Stuck (s : UplinkState) : Prop :=
  s.phase = .poweredUp ∧ s.dev.queueStopped = true ∧
    s.dev.outstandingPkts < outstandingLow ∧ ¬ s.WakeAhead

instance (s : UplinkState) : Decidable s.Stuck :=
  inferInstanceAs (Decidable (_ ∧ _))

/-- A shutdown finds a packet in flight, or a grant or a queue wake pending. -/
def ShutdownGuard (s : UplinkState) : UplinkEvent → Prop
  | .notify .beforeShutdown => s.WakeAhead
  | _ => True

instance (s : UplinkState) : ∀ e, Decidable (s.ShutdownGuard e)
  | .notify .beforeShutdown => inferInstanceAs (Decidable s.WakeAhead)
  | .notify .afterShutdown | .notify .beforePowerup | .notify .afterPowerup => isTrue trivial
  | .xmit _ _ _ | .completion | .rmGranted | .wakeWork => isTrue trivial
  | .watchdog | .stallWork _ => isTrue trivial

structure UplinkInv (s : UplinkState) : Prop where
  counter : s.dev.outstandingPkts = s.inFlight
  notSsr : s.dev.isSsr = false
  wake : s.dev.queueStopped = true → s.WakeAhead

/-- A queue that the checks of a transmission leave stopped was stopped before, or
they stopped it at the high water mark or until a grant. -/
theorem queueStopped_xmitCheck (dev : Netdev) (qmapCheck : Bool) (rm : RmResult)
    (h : (wwanXmitCheck dev qmapCheck rm).1.queueStopped = true) :
    dev.queueStopped = true ∨ outstandingHigh ≤ dev.outstandingPkts ∨
      (wwanXmitCheck dev qmapCheck rm).2 = .waiting := by
  unfold wwanXmitCheck at h ⊢
  by_cases hstopped : dev.queueStopped = true
  · exact Or.inl hstopped
  · by_cases hhigh : outstandingHigh ≤ dev.outstandingPkts
    · exact Or.inr (Or.inl hhigh)
    · cases rm with
      | granted => simp [hstopped, hhigh] at h
      | inProgress => simp [hstopped, hhigh]
      | failed => simp [hstopped, hhigh] at h

theorem isSsr_xmitCheck (dev : Netdev) (qmapCheck : Bool) (rm : RmResult) :
    (wwanXmitCheck dev qmapCheck rm).1.isSsr = dev.isSsr := by
  unfold wwanXmitCheck
  cases rm <;> dsimp only <;> split_ifs <;> rfl

theorem UplinkInv.notify {s : UplinkState} (hs : UplinkInv s) (code : SsrCode)
    (hg : s.ShutdownGuard (.notify code)) : UplinkInv (s.notify code) := by
  cases code with
  -- the only code that touches the queue, and the guarded one
  | beforeShutdown => exact ⟨hs.counter, hs.notSsr, fun _ => hg⟩
  | afterShutdown => exact ⟨hs.counter, hs.notSsr, hs.wake⟩
  | beforePowerup => exact ⟨hs.counter, hs.notSsr, hs.wake⟩
  | afterPowerup => exact ⟨hs.counter, hs.notSsr, hs.wake⟩

theorem UplinkInv.xmit {s : UplinkState} (hs : UplinkInv s) (qmapCheck : Bool)
    (rm : RmResult) (transferred : Bool) : UplinkInv (s.xmit qmapCheck rm transferred) := by
  have hcounter := wwanXmitCheck_outstandingPkts s.dev qmapCheck rm
  have hssr := isSsr_xmitCheck s.dev qmapCheck rm
  have hqueue := queueStopped_xmitCheck s.dev qmapCheck rm
  rw [hs.counter] at hcounter
  rw [hs.notSsr] at hssr
  -- at the high water mark packets are in flight
  have hbusy (hstopped : (wwanXmitCheck s.dev qmapCheck rm).1.queueStopped = true)
      (hverdict : (wwanXmitCheck s.dev qmapCheck rm).2 ≠ .waiting) : s.WakeAhead := by
    rcases hqueue hstopped with hold | hhigh | hwait
    · exact hs.wake hold
    · refine Or.inl ?_
      rw [hs.counter] at hhigh
      unfold outstandingHigh at hhigh
      omega
    · exact absurd hwait hverdict
  unfold UplinkState.xmit
  split
  · rename_i dev heq
    rw [heq] at hcounter hssr hbusy
    cases transferred with
    | false =>
      refine ⟨hcounter, hssr, ?_⟩
      intro hstopped
      apply hbusy hstopped
      intro hverdict
      cases hverdict
    | true =>
      refine ⟨?_, hssr, fun _ => Or.inl (Nat.succ_pos _)⟩
      change dev.outstandingPkts+1 = ((s.inFlight+1 : ℕ) : ℤ)
      change dev.outstandingPkts = s.inFlight at hcounter
      omega
  · rename_i dev heq
    rw [heq] at hcounter hssr
    exact ⟨hcounter, hssr, fun _ => Or.inr (Or.inl rfl)⟩
  · rename_i dev verdict _ hnot heq
    rw [heq] at hcounter hssr hbusy
    exact ⟨hcounter, hssr, fun h => hbusy h (fun hw => hnot hw)⟩

/-- A completion that leaves the queue stopped leaves 32 packets in flight. -/
theorem UplinkInv.completion {s : UplinkState} (hs : UplinkInv s) (hpos : 0 < s.inFlight) :
    UplinkInv { s with dev := txCompleteNotify s.dev, inFlight := s.inFlight-1 } := by
  have hcounter := hs.counter
  have hssr := hs.notSsr
  constructor
  · change s.dev.outstandingPkts-1 = ((s.inFlight-1 : ℕ) : ℤ)
    omega
  · exact hssr
  · intro hstopped
    have hlow : outstandingLow ≤ s.dev.outstandingPkts-1 :=
      le_outstanding_of_stopped hssr hstopped
    refine Or.inl ?_
    unfold outstandingLow at hlow
    change 0 < s.inFlight-1
    omega

theorem UplinkInv.step (s : UplinkState) (e : UplinkEvent) (s' : UplinkState)
    (hs : UplinkInv s) (hg : s.ShutdownGuard e) (hstep : s.step e = some s') :
    UplinkInv s' := by
  cases e with
  | notify code =>
    cases hstep
    exact hs.notify code hg
  | xmit qmapCheck rm transferred =>
    cases hstep
    exact hs.xmit qmapCheck rm transferred
  | completion =>
    simp only [UplinkState.step] at hstep
    split at hstep
    · rename_i hpos
      cases hstep
      exact hs.completion hpos
    · cases hstep
  | rmGranted =>
    cases hstep
    exact ⟨hs.counter, hs.notSsr, fun _ => Or.inr (Or.inr rfl)⟩
  | wakeWork =>
    simp only [UplinkState.step] at hstep
    split at hstep
    · cases hstep
      refine ⟨hs.counter, hs.notSsr, ?_⟩
      intro hstopped
      cases hstopped
    · cases hstep
  | watchdog =>
    cases hstep
    exact ⟨hs.counter, hs.notSsr, hs.wake⟩
  | stallWork rc =>
    -- the kick arms a harvest; the queue waits for its completions
    simp only [UplinkState.step] at hstep
    split at hstep
    · cases hstep
      exact ⟨hs.counter, hs.notSsr, hs.wake⟩
    · cases hstep

/-- The queue runs, and nothing has been transmitted. -/
structure UplinkInitial (s : UplinkState) : Prop where
  counter : s.dev.outstandingPkts = 0
  running : s.dev.queueStopped = false
  notSsr : s.dev.isSsr = false
  inFlight : s.inFlight = 0

theorem UplinkInitial.inv {s : UplinkState} (h : s.UplinkInitial) : UplinkInv s := by
  refine ⟨?_, h.notSsr, ?_⟩
  · rw [h.counter, h.inFlight]
    rfl
  · intro hstopped
    rw [h.running] at hstopped
    cases hstopped

/-- Whatever the state, a shutdown that finds nothing in flight and nothing pending
leaves the queue stopped for good once the modem is back. -/
theorem stuck_of_idle_shutdown (s : UplinkState) (hidle : ¬ s.WakeAhead)
    (hlow : s.dev.outstandingPkts < outstandingLow) :
    ∃ t, run UplinkState.step s [.notify .beforeShutdown, .notify .afterShutdown,
        .notify .beforePowerup, .notify .afterPowerup] = some t ∧ t.Stuck :=
  ⟨_, rfl, rfl, rfl, hlow, hidle⟩

end UplinkState

open UplinkState

/-- Along every sequence of events whose shutdowns find a packet in flight or a wake
pending, the queue is never left stopped for good. -/
theorem uplink_not_stuck (s t : UplinkState) (as : List UplinkEvent)
    (hs : s.UplinkInitial) (hg : Guarded UplinkState.step ShutdownGuard s as)
    (hrun : run UplinkState.step s as = some t) : ¬ t.Stuck := by
  have hinv : UplinkInv t := hg.inv UplinkInv.step hrun hs.inv
  rintro ⟨_, hstopped, _, hnone⟩
  exact hnone (hinv.wake hstopped)

def idleUplink : UplinkState where
  dev := ⟨0, false, false, 0, 0⟩
  isInitialized := true
  phase := .none
  inFlight := 0
  grantPending := false
  wakePending := false
  stallPending := false
  effects := []

theorem uplink_stuck_after_idle_restart :
    ¬ ∀ (s t : UplinkState) (as : List UplinkEvent), s.UplinkInitial →
      run UplinkState.step s as = some t → ¬ t.Stuck := by
  intro h
  have hidle : ¬ idleUplink.WakeAhead := by decide
  obtain ⟨t, hrun, hstuck⟩ := stuck_of_idle_shutdown idleUplink hidle (by decide)
  exact h idleUplink t _ ⟨rfl, rfl, rfl, rfl⟩ hrun hstuck

/-- A restart that finds one packet in flight, which completes afterwards. -/
def busyRestart : List UplinkEvent :=
  [.xmit false .granted true, .notify .beforeShutdown, .notify .afterShutdown,
    .notify .beforePowerup, .notify .afterPowerup, .completion]

theorem uplink_not_stuck_busyRestart :
    ∃ t, run UplinkState.step idleUplink busyRestart = some t ∧ ¬ t.Stuck := by
  have hsome : (run UplinkState.step idleUplink busyRestart).isSome := by decide
  obtain ⟨t, hrun⟩ := Option.isSome_iff_exists.mp hsome
  have hg : Guarded UplinkState.step ShutdownGuard idleUplink busyRestart := by decide
  exact ⟨t, hrun, uplink_not_stuck idleUplink t busyRestart ⟨rfl, rfl, rfl, rfl⟩ hg hrun⟩

end X00TDCellular
