import X00TDCellular.Transition
import X00TDCellular.VendorInit

/-! The hold loop of `main` against signals. The loop reads `g_stop` and enters `pause()`
in two steps, and a signal can arrive before, between and after them. -/

namespace X00TDCellular
namespace VendorInit
open EnvProgram Prog Transition

/-- Where `main` is: before it reads `g_stop`, between that and `pause()`, in `pause()`, or
behind the loop. -/
inductive HoldPc
  | test | enter | paused | left
  deriving DecidableEq, Repr

structure HoldState where
  gStop : Bool
  pc : HoldPc
  deriving DecidableEq, Repr

inductive HoldAction
  | main | signal
  deriving DecidableEq, Repr

/-- A signal runs `on_signal`, and `pause()` returns if `main` is in it. -/
def holdStep (s : HoldState) : HoldAction → Option HoldState
  | .signal => some { gStop := true, pc := if s.pc = .paused then .test else s.pc }
  | .main =>
    match s.pc with
    | .test => some { s with pc := if s.gStop then .left else .enter }
    | .enter => some { s with pc := .paused }
    | .paused => none
    | .left => none

/-- `main` is blocked although it was told to stop. -/
def HoldState.Lost (s : HoldState) : Prop := s.pc = .paused ∧ s.gStop = true

/-- A signal does not arrive between the read of `g_stop` and `pause()`. -/
def InTime (s : HoldState) (a : HoldAction) : Prop := a = .signal → s.pc ≠ .enter

/-- `main` is not blocked with `g_stop` set, nor does its next step get it there. -/
def HoldState.Safe (s : HoldState) : Prop :=
  ¬ s.Lost ∧ ∀ s', holdStep s .main = some s' → ¬ s'.Lost

/-- A set `g_stop` is seen, unless `main` has already decided to pause. -/
theorem HoldState.safe_iff (s : HoldState) :
    s.Safe ↔ (s.gStop = true → s.pc = .test ∨ s.pc = .left) := by
  obtain ⟨g, pc⟩ := s
  cases pc with
  | test => cases g <;> simp [Safe, Lost, holdStep]
  | enter => cases g <;> simp [Safe, Lost, holdStep]
  | paused => simp [Safe, Lost, holdStep]
  | left => simp [Safe, Lost, holdStep]

/-- A step from a safe state is safe exactly when it is in time. -/
theorem inTime_iff_safe {s s' : HoldState} {a : HoldAction} (hs : s.Safe)
    (h : holdStep s a = some s') : InTime s a ↔ s'.Safe := by
  rw [HoldState.safe_iff] at hs ⊢
  cases a with
  | signal =>
    obtain rfl := Option.some.inj h
    -- only in `enter` does the signal leave `main` on its way into `pause()`
    cases hpc : s.pc <;> simp [InTime, hpc]
  | main =>
    refine iff_of_true (fun h => by cases h) ?_
    cases hpc : s.pc with
    | test =>
      simp only [holdStep, hpc, Option.some.injEq] at h
      intro hstop
      rw [← h] at hstop
      have hset : s.gStop = true := hstop
      rw [← h, hset]
      exact Or.inr rfl
    | enter =>
      simp only [holdStep, hpc, Option.some.injEq] at h
      intro hstop
      rw [← h] at hstop
      have hout := hs hstop
      simp [hpc] at hout
    | paused => simp [holdStep, hpc] at h
    | left => simp [holdStep, hpc] at h

/-- In a run that starts at the loop, every point is safe exactly when each signal of it
is in time. -/
theorem hold_safe_iff {g : Bool} {as : List HoldAction} {t : HoldState}
    (hrun : run holdStep ⟨g, .test⟩ as = some t) :
    Guarded holdStep InTime ⟨g, .test⟩ as ↔
      ∀ pre post u, as = pre ++ post → run holdStep ⟨g, .test⟩ pre = some u → u.Safe := by
  have hkeep : ∀ (s : HoldState) (a : HoldAction) (s' : HoldState), True →
      holdStep s a = some s' → True := fun _ _ _ _ _ => trivial
  have hstart : HoldState.Safe ⟨g, .test⟩ :=
    (HoldState.safe_iff _).mpr fun _ => Or.inl rfl
  exact guarded_iff_always hkeep (fun _ _ _ _ hs h => inTime_iff_safe hs h) hrun trivial hstart

/-- Whatever `g_stop` was before the loop, no signal is lost in a run whose signals are
all in time. -/
theorem hold_no_lost_signal {g : Bool} {as : List HoldAction} {t : HoldState}
    (hg : Guarded holdStep InTime ⟨g, .test⟩ as)
    (hrun : run holdStep ⟨g, .test⟩ as = some t) : ¬ t.Lost := by
  have hsafe : t.Safe :=
    (hold_safe_iff hrun).mp hg as [] t (List.append_nil as).symm hrun
  exact hsafe.1

/-- A signal during `pause()` ends the loop. -/
theorem hold_no_lost_signal_paused :
    Guarded holdStep InTime ⟨false, .test⟩ [.main, .main, .signal, .main] ∧
      ¬ HoldState.Lost ⟨true, .left⟩ := by
  have hg : Guarded holdStep InTime ⟨false, .test⟩ [.main, .main, .signal, .main] := by
    simp [Guarded, InTime, holdStep]
  exact ⟨hg, hold_no_lost_signal hg (by decide)⟩

/-- The signal comes when `g_stop` has been read and `pause()` not entered. -/
theorem hold_signal_lost :
    ¬ ∀ (g : Bool) (as : List HoldAction) (t : HoldState),
      run holdStep ⟨g, .test⟩ as = some t → ¬ t.Lost := by
  intro h
  have hrun : run holdStep ⟨false, .test⟩ [.main, .signal, .main] = some ⟨true, .paused⟩ := by
    decide
  exact h false _ _ hrun ⟨rfl, rfl⟩

/-! The program `hold` has one read and one pause, as if a signal always arrived in time
and set `g_stop` before the next read. -/

/-- What `hold` still has to do, seen from a state of the loop. -/
inductive FollowsHold : HoldState → Vi Unit → Prop
  | start (g : Bool) : FollowsHold ⟨g, .test⟩ hold
  | entering (g : Bool) : FollowsHold ⟨g, .enter⟩ pause
  | blocked (g : Bool) : FollowsHold ⟨g, .paused⟩ pause
  | woken : FollowsHold ⟨true, .test⟩ (ret ())
  | behind (g : Bool) : FollowsHold ⟨g, .left⟩ (ret ())

theorem FollowsHold.step {s s' : HoldState} {a : HoldAction} {p : Vi Unit} (h : FollowsHold s p)
    (hs : holdStep s a = some s') : ∃ tr p', Runs p tr p' ∧ FollowsHold s' p' := by
  cases a with
  | signal =>
    obtain rfl := Option.some.inj hs
    cases h with
    | start => exact ⟨[], _, .stop _, .start true⟩
    | entering => exact ⟨[], _, .stop _, .entering true⟩
    -- the call of `pause` returns
    | blocked => exact ⟨[⟨.pause, ()⟩], ret (), .step (.stop _), .woken⟩
    | woken => exact ⟨[], _, .stop _, .woken⟩
    | behind => exact ⟨[], _, .stop _, .behind true⟩
  | main =>
    cases h with
    | start g =>
      cases g with
      | false =>
        obtain rfl := Option.some.inj hs
        exact ⟨[⟨.gStop, false⟩], pause, .step (.stop _), .entering false⟩
      | true =>
        obtain rfl := Option.some.inj hs
        exact ⟨[⟨.gStop, true⟩], ret (), .step (.stop _), .behind true⟩
    | entering g =>
      obtain rfl := Option.some.inj hs
      exact ⟨[], _, .stop _, .blocked g⟩
    | blocked => cases hs
    -- the second read, which `hold` leaves out, can only see `g_stop` set
    | woken =>
      obtain rfl := Option.some.inj hs
      exact ⟨[], _, .stop _, .behind true⟩
    | behind => cases hs

/-- By induction on the actions: each adds to the trace what `hold` runs meanwhile. -/
theorem FollowsHold.run {s t : HoldState} {q : Vi Unit} {as : List HoldAction}
    (hs : FollowsHold s q) (h : run holdStep s as = some t) :
    ∃ tr p, Runs q tr p ∧ FollowsHold t p := by
  induction as generalizing s q with
  | nil =>
    cases h
    exact ⟨[], q, .stop q, hs⟩
  | cons a as ih =>
    obtain ⟨s', hstep, hrest⟩ := run_cons_eq_some.mp h
    obtain ⟨tr₁, q', hq, hs'⟩ := hs.step hstep
    obtain ⟨tr₂, p, hp, ht⟩ := ih hs' hrest
    exact ⟨tr₁ ++ tr₂, p, hq.append hp, ht⟩

/-- Every run of the loop is a run of `hold`, and one that leaves the loop is a run to
its end. -/
theorem hold_covers {g : Bool} {as : List HoldAction} {t : HoldState}
    (hrun : run holdStep ⟨g, .test⟩ as = some t) :
    ∃ tr p, Runs hold tr p ∧ FollowsHold t p ∧ (t.pc = .left → hold.Ends tr ()) := by
  obtain ⟨tr, p, hp, ht⟩ := FollowsHold.run (.start g) hrun
  refine ⟨tr, p, hp, ht, ?_⟩
  intro hleft
  cases ht with
  -- only behind the loop has the program nothing left to do
  | behind => exact hp
  | start => cases hleft
  | entering => cases hleft
  | blocked => cases hleft
  | woken => cases hleft

end VendorInit
end X00TDCellular
