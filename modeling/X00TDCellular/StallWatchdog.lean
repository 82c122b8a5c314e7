import X00TDCellular.Transition
import X00TDCellular.WwanDevice

/-! The watchdog's recovery of a stalled uplink: `ipa_wwan_tx_timeout` schedules
`ipa_tx_stall_recover`, which kicks the pipe and counts the kicks that come to nothing. -/

namespace X00TDCellular
open Transition

/-- The step that `ipa_tx_stall_recover` takes next. -/
inductive RecoverPc
  | idle
  | kick (before : ℤ)
  /-- the kick has returned `rc` -/
  | gauge (before rc : ℤ)
  deriving DecidableEq, Repr

structure StallWatch where
  dev : Netdev
  /-- `ipa_netdevs[0]` is set -/
  registered : Bool
  /-- `ipa_tx_stall_work` is queued; it may be queued again while it runs -/
  workPending : Bool
  pc : RecoverPc
  /-- what each kick so far has returned -/
  kicks : List ℤ
  deriving DecidableEq, Repr

inductive StallAction
  | tick
  | startWork
  | kick (rc : ℤ)
  | gauge
  | xmit (qmapCheck : Bool) (rm : RmResult) (transferred : Bool)
  | completion
  | setSsr (isSsr : Bool)
  | register (registered : Bool)
  deriving DecidableEq, Repr

namespace StallWatch

def xmit (s : StallWatch) (qmapCheck : Bool) (rm : RmResult) (transferred : Bool) :
    StallWatch :=
  match wwanXmitCheck s.dev qmapCheck rm with
  | (dev, .send) =>
    if transferred then
      { s with dev := { dev with outstandingPkts := dev.outstandingPkts+1 } }
    else { s with dev := dev }
  | (dev, _) => { s with dev := dev }

def step (s : StallWatch) : StallAction → Option StallWatch
  | .tick => some { s with workPending := s.workPending || wwanTxTimeout s.dev }
  -- the work begins, and reads the count if there is a device
  | .startWork =>
    if s.pc = .idle ∧ s.workPending then
      some { s with
        workPending := false
        pc := if s.registered then .kick s.dev.outstandingPkts else .idle }
    else none
  | .kick rc =>
    match s.pc with
    | .kick before => some { s with pc := .gauge before rc, kicks := s.kicks ++ [rc] }
    | _ => none
  | .gauge =>
    match s.pc with
    | .gauge before rc => some { s with pc := .idle, dev := txStallRecover s.dev before rc }
    | _ => none
  | .xmit qmapCheck rm transferred => some (s.xmit qmapCheck rm transferred)
  | .completion => some { s with dev := txCompleteNotify s.dev }
  | .setSsr isSsr => some { s with dev := { s.dev with isSsr := isSsr } }
  | .register registered => some { s with registered := registered }

theorem step_kick {s s' : StallWatch} {rc : ℤ} (h : s.step (.kick rc) = some s') :
    ∃ before, s.pc = .kick before ∧
      s' = { s with pc := .gauge before rc, kicks := s.kicks ++ [rc] } := by
  cases hpc : s.pc with
  | idle => simp only [step, hpc, reduceCtorEq] at h
  | kick before =>
    simp only [step, hpc, Option.some.injEq] at h
    exact ⟨before, rfl, h.symm⟩
  | gauge before rc' => simp only [step, hpc, reduceCtorEq] at h

theorem step_gauge {s s' : StallWatch} (h : s.step .gauge = some s') :
    ∃ before rc, s.pc = .gauge before rc ∧
      s' = { s with pc := .idle, dev := txStallRecover s.dev before rc } := by
  cases hpc : s.pc with
  | idle => simp only [step, hpc, reduceCtorEq] at h
  | kick before => simp only [step, hpc, reduceCtorEq] at h
  | gauge before rc =>
    simp only [step, hpc, Option.some.injEq] at h
    exact ⟨before, rc, rfl, h.symm⟩

/-- After the first kick, each of them arms a harvest, and finds the count where the kick
before it found it. -/
def KickGuard (first : ℕ) (s : StallWatch) : StallAction → Prop
  | .kick rc => first < s.kicks.length → rc = 1 ∧ s.pc = .kick s.dev.txStallLastOutstanding
  | _ => True

instance (first : ℕ) (s : StallWatch) : ∀ a, Decidable (s.KickGuard first a)
  | .kick _ => inferInstanceAs (Decidable (_ → _))
  | .tick | .startWork | .gauge | .xmit _ _ _ => isTrue trivial
  | .completion | .setSsr _ | .register _ => isTrue trivial

/-- A kick is about to be made. -/
def kicking (s : StallWatch) : ℕ :=
  match s.pc with
  | .kick _ => 1
  | _ => 0

/-- A kick is made and not yet counted. -/
def gauging (s : StallWatch) : ℕ :=
  match s.pc with
  | .gauge _ _ => 1
  | _ => 0

/-- All kicks but the first are counted in `tx_stall_fails`, and no work is queued when it
has reached the limit. -/
structure KickInv (first : ℕ) (s : StallWatch) : Prop where
  counted : s.kicks.length ≤ first + s.dev.txStallFails + 1 + s.gauging
  uncounted : ∀ before rc, s.pc = .gauge before rc → first + 1 < s.kicks.length →
    rc = 1 ∧ before = s.dev.txStallLastOutstanding
  queued : s.workPending = true → s.kicks.length + s.kicking ≤ first + ipaTxStallGiveup + 1
  bound : s.kicks.length + s.kicking ≤ first + ipaTxStallGiveup + 2

/-- What the steps that are not about kicks leave alone. -/
theorem KickInv.frame {first : ℕ} {s s' : StallWatch} (hs : KickInv first s)
    (hfails : s'.dev.txStallFails = s.dev.txStallFails)
    (hlast : s'.dev.txStallLastOutstanding = s.dev.txStallLastOutstanding)
    (hwork : s'.workPending = s.workPending) (hpc : s'.pc = s.pc) (hkicks : s'.kicks = s.kicks) :
    KickInv first s' := by
  have hkicking : s'.kicking = s.kicking := by rw [kicking, kicking, hpc]
  have hgauging : s'.gauging = s.gauging := by rw [gauging, gauging, hpc]
  refine ⟨?_, ?_, ?_, ?_⟩
  · rw [hkicks, hfails, hgauging]
    exact hs.counted
  · rw [hpc, hkicks, hlast]
    exact hs.uncounted
  · rw [hwork, hkicks, hkicking]
    exact hs.queued
  · rw [hkicks, hkicking]
    exact hs.bound

theorem kicking_add_gauging (s : StallWatch) : s.kicking + s.gauging ≤ 1 := by
  unfold kicking gauging
  cases s.pc with
  | idle => exact Nat.zero_le 1
  | kick before => exact Nat.le_refl 1
  | gauge before rc => exact Nat.le_refl 1

theorem xmit_frame (s : StallWatch) (qmapCheck : Bool) (rm : RmResult) (transferred : Bool) :
    (s.xmit qmapCheck rm transferred).dev.txStallFails = s.dev.txStallFails ∧
      (s.xmit qmapCheck rm transferred).dev.txStallLastOutstanding =
        s.dev.txStallLastOutstanding ∧
      (s.xmit qmapCheck rm transferred).workPending = s.workPending ∧
      (s.xmit qmapCheck rm transferred).pc = s.pc ∧
      (s.xmit qmapCheck rm transferred).kicks = s.kicks := by
  have hcheck := wwanXmitCheck_stall s.dev qmapCheck rm
  unfold xmit
  split
  · rename_i dev heq
    rw [heq] at hcheck
    split
    · exact ⟨hcheck.1, hcheck.2, rfl, rfl, rfl⟩
    · exact ⟨hcheck.1, hcheck.2, rfl, rfl, rfl⟩
  · rename_i heq
    rw [heq] at hcheck
    exact ⟨hcheck.1, hcheck.2, rfl, rfl, rfl⟩

theorem KickInv.tick {first : ℕ} {s : StallWatch} (hs : KickInv first s) :
    KickInv first { s with workPending := s.workPending || wwanTxTimeout s.dev } := by
  refine ⟨hs.counted, hs.uncounted, fun hpend => ?_, hs.bound⟩
  rcases Bool.or_eq_true_iff.mp hpend with hold | hnew
  · exact hs.queued hold
  · -- below the limit, so at most `ipaTxStallGiveup` kicks are counted
    have hbelow : s.dev.txStallFails < ipaTxStallGiveup :=
      of_decide_eq_true (Bool.and_eq_true_iff.mp hnew).2
    have hcounted := hs.counted
    have hone := s.kicking_add_gauging
    show s.kicks.length + s.kicking ≤ first + ipaTxStallGiveup + 1
    omega

theorem KickInv.startWork {first : ℕ} {s : StallWatch} (hs : KickInv first s)
    (hpc : s.pc = .idle) (hwork : s.workPending = true) :
    KickInv first { s with
      workPending := false
      pc := if s.registered then .kick s.dev.outstandingPkts else .idle } := by
  have hqueued := hs.queued hwork
  have hcounted := hs.counted
  simp only [kicking, gauging, hpc] at hqueued hcounted
  -- without a device the work ends at once
  cases s.registered with
  | true =>
    refine ⟨hcounted, fun _ _ h => ?_, fun h => ?_, Nat.succ_le_succ hqueued⟩
    · cases h
    · cases h
  | false =>
    refine ⟨hcounted, fun _ _ h => ?_, fun h => ?_, Nat.le_succ_of_le hqueued⟩
    · cases h
    · cases h

theorem KickInv.kick {first : ℕ} {s : StallWatch} (hs : KickInv first s) {before rc : ℤ}
    (hpc : s.pc = .kick before) (hg : s.KickGuard first (.kick rc)) :
    KickInv first { s with pc := .gauge before rc, kicks := s.kicks ++ [rc] } := by
  have hcounted := hs.counted
  have hqueued := hs.queued
  have hbound := hs.bound
  simp only [kicking, gauging, hpc] at hcounted hqueued hbound
  refine ⟨?_, ?_, ?_, ?_⟩
  · simp only [gauging, List.length_append, List.length_singleton]
    omega
  · intro before' rc' hgauge hlen
    obtain ⟨rfl, rfl⟩ := RecoverPc.gauge.inj hgauge
    rw [List.length_append, List.length_singleton] at hlen
    obtain ⟨hrc, hlast⟩ := hg (by omega)
    exact ⟨hrc, RecoverPc.kick.inj (hpc.symm.trans hlast)⟩
  · simp only [kicking, List.length_append, List.length_singleton]
    exact hqueued
  · simp only [kicking, List.length_append, List.length_singleton]
    exact hbound

theorem KickInv.gauge {first : ℕ} {s : StallWatch} (hs : KickInv first s) {before rc : ℤ}
    (hpc : s.pc = .gauge before rc) :
    KickInv first { s with pc := .idle, dev := txStallRecover s.dev before rc } := by
  have hcounted := hs.counted
  have hqueued := hs.queued
  have hbound := hs.bound
  simp only [kicking, gauging, hpc] at hcounted hqueued hbound
  refine ⟨?_, fun _ _ h => (by cases h), hqueued, hbound⟩
  show s.kicks.length ≤ first + (txStallRecover s.dev before rc).txStallFails + 1 + 0
  by_cases hfirst : first + 1 < s.kicks.length
  · -- a later kick is counted
    have hcount : (txStallRecover s.dev before rc).txStallFails = s.dev.txStallFails+1 :=
      if_pos (hs.uncounted before rc hpc hfirst)
    omega
  · omega

theorem KickInv.step {first : ℕ} (s : StallWatch) (a : StallAction) (s' : StallWatch)
    (hs : KickInv first s) (hg : s.KickGuard first a ∧ a ≠ .completion)
    (hstep : s.step a = some s') : KickInv first s' := by
  cases a with
  | tick =>
    cases hstep
    exact hs.tick
  | startWork =>
    obtain ⟨hcond, heq⟩ := Option.ite_none_right_eq_some.mp hstep
    cases heq
    exact hs.startWork hcond.1 hcond.2
  | kick rc =>
    obtain ⟨before, hpc, rfl⟩ := step_kick hstep
    exact hs.kick hpc hg.1
  | gauge =>
    obtain ⟨before, rc, hpc, rfl⟩ := step_gauge hstep
    exact hs.gauge hpc
  | xmit qmapCheck rm transferred =>
    cases hstep
    obtain ⟨hfails, hlast, hwork, hpc, hkicks⟩ := s.xmit_frame qmapCheck rm transferred
    exact hs.frame hfails hlast hwork hpc hkicks
  | completion => exact absurd rfl hg.2
  | setSsr isSsr =>
    cases hstep
    exact hs.frame rfl rfl rfl rfl rfl
  | register registered =>
    cases hstep
    exact hs.frame rfl rfl rfl rfl rfl

/-- From the moment on where nothing has been counted yet. -/
theorem KickInv.start (s : StallWatch) : KickInv s.kicks.length s := by
  have hone := s.kicking_add_gauging
  refine ⟨?_, ?_, ?_, ?_⟩
  · omega
  · exact fun _ _ _ hlen => absurd hlen (by omega)
  · intro _
    unfold ipaTxStallGiveup
    omega
  · unfold ipaTxStallGiveup
    omega

/-- Where no completion runs and every kick but the first is one that counts, the watchdog
gives up. -/
theorem kicks_bounded {s t : StallWatch} {as : List StallAction} (hno : .completion ∉ as)
    (hg : Guarded step (KickGuard s.kicks.length) s as) (hrun : run step s as = some t) :
    t.kicks.length ≤ s.kicks.length + (ipaTxStallGiveup + 2) := by
  have hquiet := hg.and_mem (D := fun a => a ≠ .completion) fun a ha h => hno (h ▸ ha)
  have hinv : KickInv s.kicks.length t := hquiet.inv KickInv.step hrun (KickInv.start s)
  have hbound := hinv.bound
  omega

def probed : StallWatch where
  dev := ⟨0, false, false, 0, 0⟩
  registered := true
  workPending := false
  pc := .idle
  kicks := []

/-- The device after one data packet too many. -/
def fullQueue : StallWatch := { probed with dev := ⟨64, true, false, 0, 0⟩ }

/-- One tick, the work it queues, and a kick that returns `rc`. -/
def round (rc : ℤ) : List StallAction := [.tick, .startWork, .kick rc, .gauge]

/-- The limit is reached with the kick after the one that counts to it: the work of a tick
was queued while that one ran. -/
def twentyTwoKicks : List StallAction :=
  (List.replicate 20 (round 1)).flatten ++
    [.tick, .startWork, .kick 1, .tick, .gauge, .startWork, .kick 1, .gauge, .tick]

theorem kicks_bounded_twentyTwo :
    ∃ t, run step fullQueue twentyTwoKicks = some t ∧ t.kicks.length = 22 ∧
      t.kicks.length ≤ fullQueue.kicks.length + (ipaTxStallGiveup + 2) := by
  have hg : Guarded step (KickGuard fullQueue.kicks.length) fullQueue twentyTwoKicks := by
    decide +kernel
  obtain ⟨t, ht, hlen⟩ : ∃ t, run step fullQueue twentyTwoKicks = some t ∧
      t.kicks.length = 22 := ⟨_, rfl, by decide +kernel⟩
  exact ⟨t, ht, hlen, kicks_bounded (by decide +kernel) hg ht⟩

/-- A kick that does not arm a harvest takes the count back to 0, so the next tick is free to
kick again. -/
theorem kicks_unbounded {s : StallWatch} (hpc : s.pc = .idle) (hreg : s.registered = true)
    (hssr : s.dev.isSsr = false) (hfails : s.dev.txStallFails < ipaTxStallGiveup) {rc : ℤ}
    (hrc : rc ≠ 1) (n : ℕ) :
    ∃ t, run step s (List.replicate n (round rc)).flatten = some t ∧
      t.kicks = s.kicks ++ List.replicate n rc := by
  induction n generalizing s with
  | zero => exact ⟨s, rfl, (List.append_nil s.kicks).symm⟩
  | succ n ih =>
    have htick : (s.workPending || wwanTxTimeout s.dev) = true := by
      simp [wwanTxTimeout, hssr, hfails]
    have hround : run step s (round rc) = some { s with
        workPending := false
        pc := .idle
        kicks := s.kicks ++ [rc]
        dev := txStallRecover s.dev s.dev.outstandingPkts rc } := by
      simp [run, round, step, hpc, hreg, htick]
    have hzero : (txStallRecover s.dev s.dev.outstandingPkts rc).txStallFails = 0 :=
      if_neg fun h => hrc h.1
    obtain ⟨t, hrun, hkicks⟩ := ih (s := { s with
        workPending := false
        pc := .idle
        kicks := s.kicks ++ [rc]
        dev := txStallRecover s.dev s.dev.outstandingPkts rc }) rfl hreg hssr
      (by rw [hzero]; decide)
    refine ⟨t, ?_, ?_⟩
    · rw [List.replicate_succ, List.flatten_cons, run_append, hround]
      exact hrun
    · rw [hkicks, List.replicate_succ, List.append_assoc, List.singleton_append]

/-- A control packet before each tick: the queue is stopped, and lets it pass. -/
def controlPackets : List StallAction :=
  (List.replicate 23 (.xmit true .granted true :: round 1)).flatten

theorem kicks_not_bounded :
    run step probed (List.replicate 65 (.xmit false .granted true)) = some fullQueue ∧
    (∃ t, run step fullQueue (List.replicate 23 (round (-1))).flatten = some t ∧
      .completion ∉ (List.replicate 23 (round (-1))).flatten ∧
      fullQueue.kicks.length + (ipaTxStallGiveup + 2) < t.kicks.length) ∧
    ∃ t, run step fullQueue controlPackets = some t ∧ .completion ∉ controlPackets ∧
      fullQueue.kicks.length + (ipaTxStallGiveup + 2) < t.kicks.length := by
  refine ⟨by decide +kernel, ?_, ?_⟩
  · obtain ⟨t, hrun, hkicks⟩ := kicks_unbounded (s := fullQueue) rfl rfl rfl (by decide)
      (show (-1 : ℤ) ≠ 1 by decide) 23
    refine ⟨t, hrun, by decide +kernel, ?_⟩
    rw [hkicks]
    decide
  · exact ⟨_, rfl, by decide +kernel, by decide +kernel⟩

end StallWatch
end X00TDCellular
