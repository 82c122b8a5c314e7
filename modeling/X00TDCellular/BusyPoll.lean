import Mathlib.Data.Int.Notation
import Mathlib.Data.Nat.Notation
import X00TDCellular.Transition

/-! Receiving on the WAN consumer pipe with NAPI: `ipa2_rx_poll` with the busy-poll branch,
the work behind it, and the switches between polling and interrupts. -/

namespace X00TDCellular
open Transition

/-- The endpoint as far as polling goes, and what is queued or scheduled for it. -/
structure RxPipe where
  switchToIntr : Bool := false
  inactiveCycles : ℕ := 0
  currPollingState : Bool := false
  /-- the poll of the net device is scheduled -/
  napiScheduled : Bool := false
  /-- `switch_to_intr_work` is queued, with its delay in milliseconds -/
  intrWork : Option ℕ := none
  /-- `sys->work` is queued -/
  rxWork : Bool := false
  deriving DecidableEq, Repr

def ipaWanAggrPktCnt : ℤ := 5

/-- The loop of `ipa2_rx_poll`, where the pipe has so many buffers for it. -/
def rxLoop (weight : ℤ) : ℕ → ℤ → ℤ
  | 0, cnt => cnt
  | avail+1, cnt => if cnt < weight then rxLoop weight avail (cnt + ipaWanAggrPktCnt) else cnt

namespace RxPipe

/-- The number of packets and the endpoint, for a valid handle. -/
def ipa2RxPoll (busypoll : ℤ) (s : RxPipe) (weight : ℤ) (avail sysLen : ℕ) : ℤ × RxPipe :=
  -- in interrupt mode the loop ends before it has polled anything
  let cnt := rxLoop weight (if s.currPollingState then avail else 0) 0
  if cnt = 0 ∨ cnt < weight then
    let s := { s with inactiveCycles := s.inactiveCycles + 1, napiScheduled := false }
    let (s, delay) : RxPipe × ℕ :=
      -- the branch behind `ipa_wan_busypoll`, whose count is of all such polls
      if busypoll ≠ 0 ∧ s.inactiveCycles ≤ 1000 then (s, 1)
      else if 3 < s.inactiveCycles ∨ sysLen = 0 then ({ s with switchToIntr := true }, 0)
      else if cnt < weight then (s, 0)
      else (s, 1)
    -- work that is queued already keeps its place
    (cnt, { s with intrWork := s.intrWork <|> some delay })
  else (cnt, { s with inactiveCycles := 0 })

/-- `ipa_rx_switch_to_intr_mode`, which ends at `fail` if it is not `ok`. -/
def ipaRxSwitchToIntrMode (s : RxPipe) (ok : Bool) : RxPipe :=
  if ok then { s with currPollingState := false } else { s with intrWork := some 1 }

def switchToIntrRxWorkFunc (s : RxPipe) (ok : Bool) : RxPipe :=
  let s := { s with intrWork := none }
  if s.switchToIntr then
    { s.ipaRxSwitchToIntrMode ok with switchToIntr := false, inactiveCycles := 0 }
  else { s with napiScheduled := true }

/-- `ipa_sps_irq_rx_notify` of an end of transfer, which changes to polling if the pipe can
be configured. -/
def ipaSpsIrqRxNotify (s : RxPipe) (ok : Bool) : RxPipe :=
  if s.currPollingState then s
  else if ok then { s with currPollingState := true, rxWork := true }
  else s

def ipaWqHandleRx (s : RxPipe) : RxPipe := { s with rxWork := false, napiScheduled := true }

end RxPipe

/-- What a poll has returned, and whether it has set `switch_to_intr`. -/
structure RxPoll where
  cnt : ℤ
  sets : Bool
  deriving DecidableEq, Repr

/-- The polls so far are listed with the last one first. -/
structure RxSystem where
  pipe : RxPipe := {}
  polls : List RxPoll := []
  deriving DecidableEq, Repr

inductive RxAction
  | poll (weight : ℤ) (avail sysLen : ℕ)
  | intrWork (ok : Bool)
  | eotIrq (ok : Bool)
  | rxWork
  deriving DecidableEq, Repr

namespace RxSystem

def poll (busypoll : ℤ) (s : RxSystem) (weight : ℤ) (avail sysLen : ℕ) : RxSystem :=
  let (cnt, pipe) := s.pipe.ipa2RxPoll busypoll weight avail sysLen
  { pipe, polls := ⟨cnt, !s.pipe.switchToIntr && pipe.switchToIntr⟩ :: s.polls }

def step (busypoll : ℤ) (s : RxSystem) : RxAction → Option RxSystem
  | .poll weight avail sysLen =>
    if s.pipe.napiScheduled then some (s.poll busypoll weight avail sysLen) else none
  | .intrWork ok =>
    if s.pipe.intrWork.isSome then some { s with pipe := s.pipe.switchToIntrRxWorkFunc ok }
    else none
  | .eotIrq ok => some { s with pipe := s.pipe.ipaSpsIrqRxNotify ok }
  | .rxWork => if s.pipe.rxWork then some { s with pipe := s.pipe.ipaWqHandleRx } else none

end RxSystem

section Streak

variable {α : Type*} {p : α → Bool} {a : α} {l : List α}

/-- How many elements from the front on have `p`. -/
def streak (p : α → Bool) (l : List α) : ℕ := (l.takeWhile p).length

theorem streak_cons_pos (ha : p a = true) : streak p (a :: l) = streak p l + 1 := by
  rw [streak, List.takeWhile_cons_of_pos ha, List.length_cons, streak]

theorem streak_cons_neg (ha : ¬ p a = true) : streak p (a :: l) = 0 := by
  rw [streak, List.takeWhile_cons_of_neg ha, List.length_nil]

theorem length_le_streak {front back : List α} (h : ∀ a ∈ front, p a = true) :
    front.length ≤ streak p (front ++ back) := by
  induction front with
  | nil => exact Nat.zero_le _
  | cons a front ih =>
    obtain ⟨ha, hfront⟩ := List.forall_mem_cons.mp h
    rw [List.cons_append, streak_cons_pos ha, List.length_cons]
    exact Nat.succ_le_succ (ih hfront)

end Streak

/-- A poll that returned no packet. -/
def RxPoll.idle (p : RxPoll) : Bool := p.cnt = 0

/-- An idle poll that did not set `switch_to_intr`. -/
def RxPoll.quiet (p : RxPoll) : Bool := p.idle && !p.sets

/-- `switch_to_intr` is set only by the last of more than 1000 idle polls in a row, and
among so many there is always one that sets it. -/
structure CountsIdle (polls : List RxPoll) : Prop where
  earned : ∀ p before, p :: before <:+ polls → p.sets = true →
    1000 < streak RxPoll.idle (p :: before)
  fires : ∀ row before, row ++ before <:+ polls → 1000 < row.length →
    (∀ p ∈ row, p.cnt = 0) → ∃ p ∈ row, p.sets = true

/-- The pipe has no buffer for a poll, or enough to fill its weight. -/
def AllOrNothing (_ : RxSystem) : RxAction → Prop
  | .poll weight avail _ => avail = 0 ∨ weight ≤ ipaWanAggrPktCnt * avail
  | _ => True

instance : ∀ (s : RxSystem) (a : RxAction), Decidable (AllOrNothing s a)
  | _, .poll _ _ _ => inferInstanceAs (Decidable (_ ∨ _))
  | _, .intrWork _ => isTrue trivial
  | _, .eotIrq _ => isTrue trivial
  | _, .rxWork => isTrue trivial

section Loop

/-- The loop ends with its weight filled or the pipe empty. -/
theorem rxLoop_ends (weight : ℤ) (avail : ℕ) (cnt : ℤ) :
    weight ≤ rxLoop weight avail cnt ∨
      rxLoop weight avail cnt = cnt + ipaWanAggrPktCnt * avail := by
  induction avail generalizing cnt with
  | zero =>
    right
    rw [rxLoop]
    simp
  | succ avail ih =>
    rw [rxLoop]
    split
    · apply (ih (cnt + ipaWanAggrPktCnt)).imp_right
      intro hrest
      rw [hrest]
      unfold ipaWanAggrPktCnt
      omega
    · left
      omega

/-- Where the pipe has nothing or enough, a poll that does not fill its weight is idle. -/
theorem rxLoop_idle {weight : ℤ} {avail : ℕ}
    (h : avail = 0 ∨ weight ≤ ipaWanAggrPktCnt * avail)
    (hcnt : rxLoop weight avail 0 = 0 ∨ rxLoop weight avail 0 < weight) :
    rxLoop weight avail 0 = 0 := by
  rcases h with h | h
  · rw [h]
    rfl
  · rcases rxLoop_ends weight avail 0 with hfull | hempty
    · omega
    · omega

end Loop

section Pace

variable {busypoll : ℤ} {s s' : RxSystem} {a : RxAction}

/-- Polling, with the poll scheduled. -/
def RxPipe.scheduledAt (c : ℕ) : RxPipe where
  currPollingState := true
  napiScheduled := true
  inactiveCycles := c

/-- Polling, with the work queued that schedules the next poll. -/
def RxPipe.queuedAt (c delay : ℕ) : RxPipe where
  currPollingState := true
  intrWork := some delay
  inactiveCycles := c

/-- Polling, with the work queued that changes to interrupt mode. -/
def RxPipe.fallingAt (c delay : ℕ) : RxPipe where
  switchToIntr := true
  currPollingState := true
  intrWork := some delay
  inactiveCycles := c

/-- Where the pipe can be: in interrupt mode, or in polling mode with one thing to come,
which is a poll or leads to one. The counter is beyond its limit only while the work has yet
to change to interrupt mode. -/
inductive Paced : RxPipe → Prop
  | intr : Paced {}
  | woken : Paced { currPollingState := true, rxWork := true }
  | scheduled (c : ℕ) (hc : c ≤ 1000) : Paced (.scheduledAt c)
  | queued (c delay : ℕ) (hc : c ≤ 1000) : Paced (.queuedAt c delay)
  | falling (c delay : ℕ) (hc : 1000 < c) : Paced (.fallingAt c delay)

/-- What a poll makes of a scheduled pipe: it starts the counter again, counts, or counts
beyond the limit. -/
theorem ipa2RxPoll_cases (hbusy : busypoll ≠ 0) (c : ℕ) (weight : ℤ) (avail sysLen : ℕ) :
    let cnt := rxLoop weight avail 0
    let r := (RxPipe.scheduledAt c).ipa2RxPoll busypoll weight avail sysLen
    ((cnt ≠ 0 ∧ weight ≤ cnt) ∧ r = (cnt, .scheduledAt 0)) ∨
    ((cnt = 0 ∨ cnt < weight) ∧ c + 1 ≤ 1000 ∧ r = (cnt, .queuedAt (c+1) 1)) ∨
    ((cnt = 0 ∨ cnt < weight) ∧ 1000 < c + 1 ∧ r = (cnt, .fallingAt (c+1) 0)) := by
  intro cnt r
  have hr : r = (RxPipe.scheduledAt c).ipa2RxPoll busypoll weight avail sysLen := rfl
  have hcnt : rxLoop weight (if (RxPipe.scheduledAt c).currPollingState then avail else 0) 0 =
    cnt := rfl
  have hcycles : (RxPipe.scheduledAt c).inactiveCycles = c := rfl
  rw [hr, RxPipe.ipa2RxPoll, hcnt]
  dsimp only
  rw [hcycles]
  by_cases hidle : cnt = 0 ∨ cnt < weight
  · rw [if_pos hidle]
    by_cases hlimit : c + 1 ≤ 1000
    · rw [if_pos ⟨hbusy, hlimit⟩]
      exact Or.inr (Or.inl ⟨hidle, hlimit, rfl⟩)
    · have hmore : 3 < c + 1 := by omega
      rw [if_neg (fun h => hlimit h.2), if_pos (Or.inl hmore)]
      exact Or.inr (Or.inr ⟨hidle, by omega, rfl⟩)
  · rw [if_neg hidle]
    obtain ⟨hcnt, hfull⟩ := not_or.mp hidle
    exact Or.inl ⟨⟨hcnt, Int.not_lt.mp hfull⟩, rfl⟩

/-- What a step does to the counter, to `switch_to_intr` and to the list of polls. -/
inductive Turn (s s' : RxSystem) : RxAction → Prop
  | full {weight : ℤ} {avail sysLen : ℕ} (hcnt : rxLoop weight avail 0 ≠ 0)
      (hcycles : s'.pipe.inactiveCycles = 0) (hswitch : s'.pipe.switchToIntr = false)
      (hpolls : s'.polls = ⟨rxLoop weight avail 0, false⟩ :: s.polls) :
      Turn s s' (.poll weight avail sysLen)
  | counted {weight : ℤ} {avail sysLen : ℕ}
      (hcnt : rxLoop weight avail 0 = 0 ∨ rxLoop weight avail 0 < weight)
      (hcycles : s'.pipe.inactiveCycles = s.pipe.inactiveCycles + 1)
      (hlimit : s'.pipe.inactiveCycles ≤ 1000) (hswitch : s'.pipe.switchToIntr = false)
      (hpolls : s'.polls = ⟨rxLoop weight avail 0, false⟩ :: s.polls) :
      Turn s s' (.poll weight avail sysLen)
  | sets {weight : ℤ} {avail sysLen : ℕ}
      (hcnt : rxLoop weight avail 0 = 0 ∨ rxLoop weight avail 0 < weight)
      (hcycles : s'.pipe.inactiveCycles = s.pipe.inactiveCycles + 1)
      (hlimit : 1000 < s'.pipe.inactiveCycles)
      (hpolls : s'.polls = ⟨rxLoop weight avail 0, true⟩ :: s.polls) :
      Turn s s' (.poll weight avail sysLen)
  | falls {a : RxAction} (hset : s.pipe.switchToIntr = true)
      (hcycles : s'.pipe.inactiveCycles = 0) (hpolls : s'.polls = s.polls) : Turn s s' a
  | moves {a : RxAction} (hcycles : s'.pipe.inactiveCycles = s.pipe.inactiveCycles)
      (hswitch : s'.pipe.switchToIntr = s.pipe.switchToIntr) (hpolls : s'.polls = s.polls) :
      Turn s s' a

theorem Paced.poll (hbusy : busypoll ≠ 0) (c : ℕ) (polls : List RxPoll) (weight : ℤ)
    (avail sysLen : ℕ) :
    let s : RxSystem := ⟨.scheduledAt c, polls⟩
    let s' := s.poll busypoll weight avail sysLen
    Paced s'.pipe ∧ Turn s s' (.poll weight avail sysLen) := by
  intro s s'
  have hs' (cnt : ℤ) (pipe : RxPipe)
      (hr : (RxPipe.scheduledAt c).ipa2RxPoll busypoll weight avail sysLen = (cnt, pipe)) :
      s' = ⟨pipe, ⟨cnt, pipe.switchToIntr⟩ :: polls⟩ := by
    show RxSystem.poll busypoll ⟨.scheduledAt c, polls⟩ weight avail sysLen = _
    rw [RxSystem.poll, hr]
    rfl
  rcases ipa2RxPoll_cases hbusy c weight avail sysLen with
    ⟨⟨hcnt, -⟩, hr⟩ | ⟨hcnt, hlimit, hr⟩ | ⟨hcnt, hlimit, hr⟩
  · rw [hs' _ _ hr]
    exact ⟨.scheduled 0 (Nat.zero_le _), .full hcnt rfl rfl rfl⟩
  · rw [hs' _ _ hr]
    exact ⟨.queued (c+1) 1 hlimit, .counted hcnt rfl hlimit rfl rfl⟩
  · rw [hs' _ _ hr]
    exact ⟨.falling (c+1) 0 hlimit, .sets hcnt rfl hlimit rfl⟩

theorem Paced.step (hbusy : busypoll ≠ 0) (hs : Paced s.pipe)
    (h : s.step busypoll a = some s') : Paced s'.pipe ∧ Turn s s' a := by
  obtain ⟨pipe, polls⟩ := s
  cases a with
  | poll weight avail sysLen =>
    -- the poll is scheduled in one phase only
    cases hs with
    | scheduled c hc =>
      obtain rfl := Option.some.inj h
      exact Paced.poll hbusy c polls weight avail sysLen
    | intr => cases h
    | woken => cases h
    | queued => cases h
    | falling => cases h
  | intrWork ok =>
    cases hs with
    | queued c delay hc =>
      obtain rfl := Option.some.inj h
      exact ⟨.scheduled c hc, .moves rfl rfl rfl⟩
    | falling c delay hc =>
      obtain rfl := Option.some.inj h
      -- where the change fails the work is queued again
      cases ok with
      | true => exact ⟨.intr, .falls rfl rfl rfl⟩
      | false => exact ⟨.queued 0 1 (Nat.zero_le _), .falls rfl rfl rfl⟩
    | intr => cases h
    | woken => cases h
    | scheduled => cases h
  | eotIrq ok =>
    obtain rfl := Option.some.inj h
    cases hs with
    | intr =>
      cases ok with
      | true => exact ⟨.woken, .moves rfl rfl rfl⟩
      | false => exact ⟨.intr, .moves rfl rfl rfl⟩
    | woken => exact ⟨.woken, .moves rfl rfl rfl⟩
    | scheduled c hc => exact ⟨.scheduled c hc, .moves rfl rfl rfl⟩
    | queued c delay hc => exact ⟨.queued c delay hc, .moves rfl rfl rfl⟩
    | falling c delay hc => exact ⟨.falling c delay hc, .moves rfl rfl rfl⟩
  | rxWork =>
    cases hs with
    | woken =>
      obtain rfl := Option.some.inj h
      exact ⟨.scheduled 0 (Nat.zero_le _), .moves rfl rfl rfl⟩
    | intr => cases h
    | scheduled => cases h
    | queued => cases h
    | falling => cases h

/-- The quiet polls in a row are counted, so that there are never more than 1000 of them. -/
structure Quiet (s : RxSystem) : Prop where
  paced : Paced s.pipe
  counted : streak RxPoll.quiet s.polls ≤ s.pipe.inactiveCycles
  whenSet : s.pipe.switchToIntr = true → streak RxPoll.quiet s.polls = 0
  bounded : ∀ l, l <:+ s.polls → streak RxPoll.quiet l ≤ 1000

theorem Quiet.step (hbusy : busypoll ≠ 0) (hs : Quiet s) (h : s.step busypoll a = some s') :
    Quiet s' := by
  obtain ⟨hpaced, hturn⟩ := hs.paced.step hbusy h
  have hbounded {p : RxPoll} (hpolls : s'.polls = p :: s.polls)
      (hlast : streak RxPoll.quiet (p :: s.polls) ≤ 1000) :
      ∀ l, l <:+ s'.polls → streak RxPoll.quiet l ≤ 1000 := by
    intro l hl
    rw [hpolls, List.suffix_cons_iff] at hl
    rcases hl with rfl | hl
    · exact hlast
    · exact hs.bounded l hl
  cases hturn with
  -- a poll that found something ends the row, and the counter starts again
  | full hcnt hcycles hswitch hpolls =>
    have hzero : streak RxPoll.quiet s'.polls = 0 := by
      rw [hpolls]
      exact streak_cons_neg (by simp [RxPoll.quiet, RxPoll.idle, hcnt])
    refine ⟨hpaced, by omega, fun _ => hzero, hbounded hpolls ?_⟩
    rw [← hpolls]
    omega
  -- the counter goes up by one, the row by at most one
  | @counted weight avail sysLen hcnt hcycles hlimit hswitch hpolls =>
    have hmore : streak RxPoll.quiet s'.polls ≤ s'.pipe.inactiveCycles := by
      rw [hpolls, hcycles]
      by_cases hzero : rxLoop weight avail 0 = 0
      · rw [streak_cons_pos (by simp [RxPoll.quiet, RxPoll.idle, hzero])]
        exact Nat.succ_le_succ hs.counted
      · rw [streak_cons_neg (by simp [RxPoll.quiet, RxPoll.idle, hzero])]
        exact Nat.zero_le _
    refine ⟨hpaced, hmore, ?_, hbounded hpolls ?_⟩
    · intro hset
      rw [hswitch] at hset
      cases hset
    · rw [← hpolls]
      omega
  -- the poll that sets `switch_to_intr` is not quiet itself
  | sets hcnt hcycles hlimit hpolls =>
    have hzero : streak RxPoll.quiet s'.polls = 0 := by
      rw [hpolls]
      exact streak_cons_neg (by simp [RxPoll.quiet])
    refine ⟨hpaced, by omega, fun _ => hzero, hbounded hpolls ?_⟩
    rw [← hpolls]
    omega
  -- the counter starts again behind a row that has ended already
  | falls hset hcycles hpolls =>
    have hzero := hs.whenSet hset
    rw [← hpolls] at hzero
    refine ⟨hpaced, by omega, fun _ => hzero, ?_⟩
    rw [hpolls]
    exact hs.bounded
  | moves hcycles hswitch hpolls =>
    refine ⟨hpaced, ?_, ?_, ?_⟩
    · rw [hpolls, hcycles]
      exact hs.counted
    · rw [hpolls, hswitch]
      exact hs.whenSet
    · rw [hpolls]
      exact hs.bounded

theorem Quiet.init : Quiet {} where
  paced := .intr
  counted := Nat.le_refl _
  whenSet := fun h => by cases h
  bounded := by
    intro l hl
    rw [List.suffix_nil.mp hl]
    exact Nat.zero_le _

/-- In every run, a row of more than 1000 idle polls has one that sets `switch_to_intr`. -/
theorem idle_row_sets (hbusy : busypoll ≠ 0) {as : List RxAction} {t : RxSystem}
    (hrun : run (RxSystem.step busypoll) {} as = some t) {row before : List RxPoll}
    (hrow : row ++ before <:+ t.polls) (hlen : 1000 < row.length)
    (hidle : ∀ p ∈ row, p.cnt = 0) : ∃ p ∈ row, p.sets = true := by
  have ht : Quiet t := run_inv (fun _ _ _ hs h => hs.step hbusy h) hrun Quiet.init
  -- a row of which none sets it would be quiet throughout
  by_contra hnone
  push Not at hnone
  have hquiet : ∀ p ∈ row, p.quiet = true := by
    intro p hp
    simp [RxPoll.quiet, RxPoll.idle, hidle p hp, hnone p hp]
  have hle : row.length ≤ streak RxPoll.quiet (row ++ before) := length_le_streak hquiet
  have hbound := ht.bounded _ hrow
  omega

/-- Under the condition the counter counts idle polls only. -/
structure Earned (s : RxSystem) : Prop where
  paced : Paced s.pipe
  counted : s.pipe.inactiveCycles ≤ streak RxPoll.idle s.polls
  earned : ∀ p before, p :: before <:+ s.polls → p.sets = true →
    1000 < streak RxPoll.idle (p :: before)

theorem Earned.step (hbusy : busypoll ≠ 0) (hs : Earned s) (ha : AllOrNothing s a)
    (h : s.step busypoll a = some s') : Earned s' := by
  obtain ⟨hpaced, hturn⟩ := hs.paced.step hbusy h
  have hearned {q : RxPoll} (hpolls : s'.polls = q :: s.polls)
      (hlast : q.sets = true → 1000 < streak RxPoll.idle (q :: s.polls)) :
      ∀ p before, p :: before <:+ s'.polls → p.sets = true →
        1000 < streak RxPoll.idle (p :: before) := by
    intro p before hp
    rw [hpolls, List.suffix_cons_iff] at hp
    rcases hp with hp | hp
    · rw [hp, (List.cons_eq_cons.mp hp).1]
      exact hlast
    · exact hs.earned p before hp
  cases hturn with
  | full hcnt hcycles hswitch hpolls =>
    refine ⟨hpaced, by omega, hearned hpolls ?_⟩
    intro hset
    cases hset
  | counted hcnt hcycles hlimit hswitch hpolls =>
    -- the poll did not fill its weight, so it is idle
    have hzero := rxLoop_idle ha hcnt
    refine ⟨hpaced, ?_, hearned hpolls ?_⟩
    · rw [hpolls, hcycles, streak_cons_pos (by simp [RxPoll.idle, hzero])]
      exact Nat.succ_le_succ hs.counted
    · intro hset
      cases hset
  | sets hcnt hcycles hlimit hpolls =>
    have hzero := rxLoop_idle ha hcnt
    have hmore : s'.pipe.inactiveCycles ≤ streak RxPoll.idle s'.polls := by
      rw [hpolls, hcycles, streak_cons_pos (by simp [RxPoll.idle, hzero])]
      exact Nat.succ_le_succ hs.counted
    refine ⟨hpaced, hmore, hearned hpolls ?_⟩
    intro _
    rw [← hpolls]
    omega
  | falls hset hcycles hpolls =>
    refine ⟨hpaced, by omega, ?_⟩
    rw [hpolls]
    exact hs.earned
  | moves hcycles hswitch hpolls =>
    refine ⟨hpaced, ?_, ?_⟩
    · rw [hpolls, hcycles]
      exact hs.counted
    · rw [hpolls]
      exact hs.earned

theorem Earned.init : Earned {} where
  paced := .intr
  counted := Nat.le_refl _
  earned := by
    intro p before h
    cases List.suffix_nil.mp h

/-- With busy polling on, in every run whose polls find nothing or enough to fill their
weight, the fallback counts idle polls only. -/
theorem busyPoll_countsIdle (hbusy : busypoll ≠ 0) {as : List RxAction} {t : RxSystem}
    (hg : Guarded (RxSystem.step busypoll) AllOrNothing {} as)
    (hrun : run (RxSystem.step busypoll) {} as = some t) : CountsIdle t.polls := by
  have ht : Earned t := hg.inv (fun _ _ _ hs ha h => hs.step hbusy ha h) hrun Earned.init
  exact ⟨ht.earned, fun _ _ hrow hlen hidle => idle_row_sets hbusy hrun hrow hlen hidle⟩

/-- A poll that does not fill its weight is counted, whatever it has found. -/
theorem poll_short (hbusy : busypoll ≠ 0) {avail : ℕ} {cnt : ℤ} (hcnt : rxLoop 64 avail 0 = cnt)
    (hshort : cnt < 64) (c : ℕ) (polls : List RxPoll) :
    let s' := RxSystem.poll busypoll ⟨.scheduledAt c, polls⟩ 64 avail 192
    (c + 1 ≤ 1000 ∧ s' = ⟨.queuedAt (c+1) 1, ⟨cnt, false⟩ :: polls⟩) ∨
      (1000 < c + 1 ∧ s' = ⟨.fallingAt (c+1) 0, ⟨cnt, true⟩ :: polls⟩) := by
  intro s'
  have hs' : s' = RxSystem.poll busypoll ⟨.scheduledAt c, polls⟩ 64 avail 192 := rfl
  rw [hs', RxSystem.poll]
  rcases ipa2RxPoll_cases hbusy c 64 avail 192 with
    ⟨⟨-, hfull⟩, -⟩ | ⟨-, hlimit, hr⟩ | ⟨-, hlimit, hr⟩
  · rw [hcnt] at hfull
    omega
  · rw [hr, hcnt]
    exact Or.inl ⟨hlimit, rfl⟩
  · rw [hr, hcnt]
    exact Or.inr ⟨hlimit, rfl⟩

/-- So many polls that find so many buffers each, and the work behind them. -/
def steadyPolls (avail n : ℕ) : List RxAction :=
  (List.replicate n [.poll 64 avail 192, .intrWork true]).flatten

theorem run_steadyPolls (hbusy : busypoll ≠ 0) {avail : ℕ} {cnt : ℤ}
    (hcnt : rxLoop 64 avail 0 = cnt) (hshort : cnt < 64) (n c : ℕ) (hc : c + n ≤ 1000)
    (polls : List RxPoll) :
    run (RxSystem.step busypoll) ⟨.scheduledAt c, polls⟩ (steadyPolls avail n) =
      some ⟨.scheduledAt (c+n), List.replicate n ⟨cnt, false⟩ ++ polls⟩ := by
  induction n generalizing c polls with
  | zero => rfl
  | succ n ih =>
    have hround : run (RxSystem.step busypoll) ⟨.scheduledAt c, polls⟩
        [.poll 64 avail 192, .intrWork true] =
          some ⟨.scheduledAt (c+1), ⟨cnt, false⟩ :: polls⟩ := by
      rcases poll_short hbusy hcnt hshort c polls with ⟨-, hpoll⟩ | ⟨hlimit, -⟩
      · show run (RxSystem.step busypoll)
          (RxSystem.poll busypoll ⟨.scheduledAt c, polls⟩ 64 avail 192) [.intrWork true] = _
        rw [hpoll]
        rfl
      · omega
    have hrest := ih (c+1) (by omega) (⟨cnt, false⟩ :: polls)
    have hsum : c + 1 + n = c + (n + 1) := by omega
    have hlist : List.replicate n (⟨cnt, false⟩ : RxPoll) ++ ⟨cnt, false⟩ :: polls =
        List.replicate (n+1) ⟨cnt, false⟩ ++ polls := by
      rw [List.replicate_succ', List.append_assoc]
      rfl
    rw [steadyPolls, List.replicate_succ, List.flatten_cons, run_append, hround,
      Option.bind_some, ← hlist, ← hsum]
    exact hrest

/-- Of 1001 such polls the last one sets `switch_to_intr`. -/
theorem run_steadyPolls_sets (hbusy : busypoll ≠ 0) {avail : ℕ} {cnt : ℤ}
    (hcnt : rxLoop 64 avail 0 = cnt) (hshort : cnt < 64) (polls : List RxPoll) :
    run (RxSystem.step busypoll) ⟨.scheduledAt 0, polls⟩
        (steadyPolls avail 1000 ++ [.poll 64 avail 192]) =
      some ⟨.fallingAt 1001 0, ⟨cnt, true⟩ :: List.replicate 1000 ⟨cnt, false⟩ ++ polls⟩ := by
  have hrow := run_steadyPolls hbusy hcnt hshort 1000 0 (Nat.le_refl _) polls
  rw [run_append, hrow, Option.bind_some]
  rcases poll_short hbusy hcnt hshort 1000 (List.replicate 1000 ⟨cnt, false⟩ ++ polls) with
    ⟨hlimit, -⟩ | ⟨-, hpoll⟩
  · omega
  · show run (RxSystem.step busypoll) (RxSystem.poll busypoll
      ⟨.scheduledAt 1000, List.replicate 1000 ⟨cnt, false⟩ ++ polls⟩ 64 avail 192) [] = _
    rw [hpoll]
    rfl

/-- A poll that fills its weight, and then the pipe is empty for 1001 polls. -/
def burstThenIdle : List RxAction :=
  [.eotIrq true, .rxWork, .poll 64 20 192] ++ (steadyPolls 0 1000 ++ [.poll 64 0 192])

theorem busyPoll_countsIdle_burstThenIdle :
    ∃ t, run (RxSystem.step 1) {} burstThenIdle = some t ∧
      t.polls = ⟨0, true⟩ :: List.replicate 1000 ⟨0, false⟩ ++ [⟨65, false⟩] ∧
      CountsIdle t.polls := by
  have hbusy : (1 : ℤ) ≠ 0 := by decide
  have hburst : run (RxSystem.step 1) {} [.eotIrq true, .rxWork, .poll 64 20 192] =
      some ⟨.scheduledAt 0, [⟨65, false⟩]⟩ := by decide
  have hempty : rxLoop 64 0 0 = 0 := by decide
  have hrun : run (RxSystem.step 1) {} burstThenIdle = some ⟨.fallingAt 1001 0,
      ⟨0, true⟩ :: List.replicate 1000 ⟨0, false⟩ ++ [⟨65, false⟩]⟩ := by
    have hrow := run_steadyPolls_sets hbusy hempty (by decide) [⟨65, false⟩]
    rw [burstThenIdle, run_append, hburst, Option.bind_some, hrow]
  have hall : ∀ a ∈ burstThenIdle, AllOrNothing {} a := by
    intro a ha
    simp only [burstThenIdle, steadyPolls, List.mem_append, List.mem_flatten,
      List.mem_replicate] at ha
    rcases ha with hburst | ⟨l, ⟨-, rfl⟩, hrow⟩ | hlast
    · revert a
      decide
    · revert a
      decide
    · rw [List.mem_singleton.mp hlast]
      decide
  have hany : ∀ s a, True ∧ AllOrNothing {} a → AllOrNothing s a := fun _ a h => by
    cases a <;> exact h.2
  have hg : Guarded (RxSystem.step 1) AllOrNothing {} burstThenIdle :=
    Guarded.mono hany ((Guarded.trivial _ burstThenIdle).and_mem hall)
  exact ⟨_, hrun, rfl, busyPoll_countsIdle hbusy hg hrun⟩

/-- Of 1001 polls that find one buffer each, the last one sets `switch_to_intr`. -/
theorem busyPoll_lightTraffic :
    ¬ ∀ (busypoll : ℤ) (as : List RxAction) (t : RxSystem), busypoll ≠ 0 →
      run (RxSystem.step busypoll) {} as = some t → CountsIdle t.polls := by
  intro h
  have hbusy : (1 : ℤ) ≠ 0 := by decide
  have hstart : run (RxSystem.step 1) {} [.eotIrq true, .rxWork] =
      some ⟨.scheduledAt 0, []⟩ := by decide
  have hone : rxLoop 64 1 0 = 5 := by decide
  have hrun : run (RxSystem.step 1) {}
      ([.eotIrq true, .rxWork] ++ (steadyPolls 1 1000 ++ [.poll 64 1 192])) =
        some ⟨.fallingAt 1001 0, ⟨5, true⟩ :: List.replicate 1000 ⟨5, false⟩ ++ []⟩ := by
    have hrow := run_steadyPolls_sets hbusy hone (by decide) []
    rw [run_append, hstart, Option.bind_some, hrow]
  -- the poll before it, and that poll itself, were not idle
  have hstreak := (h 1 _ _ hbusy hrun).earned _ _ (List.suffix_refl _) rfl
  rw [streak_cons_neg (by decide)] at hstreak
  omega

end Pace

end X00TDCellular
