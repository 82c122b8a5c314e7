import Mathlib.Data.Int.Init
import Mathlib.Logic.Function.Iterate
import Mathlib.Tactic.Common

/-! The transmit side of the network device of `rmnet_ipa.c`: the checks of
`ipa_wwan_xmit`, its completion callback and the stall watchdog. -/

namespace X00TDCellular

def outstandingHighCtl : ℤ := 96
def outstandingHigh : ℤ := 64
def outstandingLow : ℤ := 32

def ipaTxStallGiveup : ℕ := 20

/-- What the transmit path reads and writes: `wwan_private`, the queue state of
the `net_device`, and the static variables of the file. -/
structure Netdev where
  outstandingPkts : ℤ
  queueStopped : Bool
  isSsr : Bool
  txStallFails : ℕ
  txStallLastOutstanding : ℤ
  deriving DecidableEq, Repr

/-- Results of `ipa_rm_inactivity_timer_request_resource`: 0, -EINPROGRESS, any
other error. -/
inductive RmResult
  | granted
  | inProgress
  | failed
  deriving DecidableEq, Repr

/-- How the checks end: the packet goes on to the transfer, NETDEV_TX_BUSY at the
queue or its high water mark, NETDEV_TX_BUSY until the resource is granted, or the
packet is dropped. -/
inductive XmitVerdict
  | send
  | busy
  | waiting
  | dropped
  deriving DecidableEq, Repr

/-- `ipa_wwan_xmit` up to the transfer. `qmapCheck` is the command bit of the
QMAP header. -/
def wwanXmitCheck (dev : Netdev) (qmapCheck : Bool) (rm : RmResult) :
    Netdev × XmitVerdict :=
  let request : Netdev × XmitVerdict :=
    match rm with
    | .granted => (dev, .send)
    | .inProgress => ({ dev with queueStopped := true }, .waiting)
    | .failed => (dev, .dropped)
  if dev.queueStopped then
    if qmapCheck && dev.outstandingPkts < outstandingHighCtl then request
    else (dev, .busy)
  else if dev.outstandingPkts ≥ outstandingHigh && !qmapCheck then
    ({ dev with queueStopped := true }, .busy)
  else request

/-- The checks stop the queue at most; the counter is not theirs. -/
theorem wwanXmitCheck_outstandingPkts (dev : Netdev) (qmapCheck : Bool) (rm : RmResult) :
    (wwanXmitCheck dev qmapCheck rm).1.outstandingPkts = dev.outstandingPkts := by
  unfold wwanXmitCheck
  cases rm <;> dsimp only <;> split_ifs <;> rfl

/-- Nor are the variables of the stall watchdog. -/
theorem wwanXmitCheck_stall (dev : Netdev) (qmapCheck : Bool) (rm : RmResult) :
    (wwanXmitCheck dev qmapCheck rm).1.txStallFails = dev.txStallFails ∧
      (wwanXmitCheck dev qmapCheck rm).1.txStallLastOutstanding =
        dev.txStallLastOutstanding := by
  unfold wwanXmitCheck
  cases rm <;> dsimp only <;> split_ifs <;> exact ⟨rfl, rfl⟩

/-- `apps_ipa_tx_complete_notify` for a packet of the registered device. -/
def txCompleteNotify (dev : Netdev) : Netdev :=
  let pkts := dev.outstandingPkts-1
  { dev with
    outstandingPkts := pkts
    txStallFails := 0
    queueStopped := dev.queueStopped && (dev.isSsr || pkts ≥ outstandingLow) }

/-- Outside a restart, a completion wakes the queue below the low water mark. -/
theorem le_outstanding_of_stopped {dev : Netdev} (hssr : dev.isSsr = false)
    (h : (txCompleteNotify dev).queueStopped = true) :
    outstandingLow ≤ dev.outstandingPkts-1 := by
  unfold txCompleteNotify at h
  rw [hssr] at h
  simpa using (Bool.and_eq_true_iff.mp h).2

/-- A number of completions, with none of the transmit path's other steps between. -/
theorem iterate_txCompleteNotify {dev : Netdev} (hssr : dev.isSsr = false) (j : ℕ) :
    txCompleteNotify^[j] dev = { dev with
      outstandingPkts := dev.outstandingPkts-j
      txStallFails := if j = 0 then dev.txStallFails else 0
      queueStopped := dev.queueStopped && (j = 0 || outstandingLow ≤ dev.outstandingPkts-j) } := by
  induction j with
  | zero => simp
  | succ j ih =>
    have hpkts : dev.outstandingPkts-(j : ℤ)-1 = dev.outstandingPkts-(j+1 : ℕ) := by omega
    -- the queue is awake after an earlier packet only where it is after this one
    have hqueue : ((dev.queueStopped && (j = 0 || outstandingLow ≤ dev.outstandingPkts-j)) &&
        (false || outstandingLow ≤ dev.outstandingPkts-(j+1 : ℕ))) =
        (dev.queueStopped && (false || outstandingLow ≤ dev.outstandingPkts-(j+1 : ℕ))) := by
      have hlow : outstandingLow ≤ dev.outstandingPkts-(j+1 : ℕ) →
          outstandingLow ≤ dev.outstandingPkts-j := by omega
      by_cases h : outstandingLow ≤ dev.outstandingPkts-(j+1 : ℕ)
      · simp only [h, hlow h, decide_true, Bool.or_true, Bool.and_true]
      · simp only [h, decide_false, Bool.or_false, Bool.and_false]
    rw [Function.iterate_succ_apply', ih]
    simp only [txCompleteNotify, hssr, hpkts, Nat.add_one_ne_zero, if_false, decide_false, hqueue]

/-- `ipa_wwan_tx_timeout`: whether the stall work is scheduled. -/
def wwanTxTimeout (dev : Netdev) : Bool :=
  !dev.isSsr && dev.txStallFails < ipaTxStallGiveup

/-- `ipa_tx_stall_recover` once the kick has returned `rc`; `before` is the
counter read ahead of the kick. -/
def txStallRecover (dev : Netdev) (before rc : ℤ) : Netdev :=
  { dev with
    txStallFails :=
      if rc = 1 ∧ before = dev.txStallLastOutstanding then dev.txStallFails+1 else 0
    txStallLastOutstanding := before }

end X00TDCellular
