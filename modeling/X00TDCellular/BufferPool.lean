import Mathlib.Data.Option.Basic
import Mathlib.Data.Set.Basic
import Mathlib.Logic.Function.Basic

/-! Buffers that are replaced while others read them. Each holder keeps the buffer it
staged last and the one before it, and frees what readers have been moved away from. -/

open Function

/-- The buffer staged last, and the one that it replaced. -/
structure StagedPair (α : Type*) where
  curr : Option α := none
  prev : Option α := none
  deriving DecidableEq

/-- The holders' buffers, and the allocated memory by address. -/
structure BufferPool (κ α β : Type*) where
  slot : κ → StagedPair α
  heap : α → Option β

namespace BufferPool

variable {κ α β γ : Type*}

def Holds (s : BufferPool κ α β) (k : κ) (a : α) : Prop :=
  (s.slot k).curr = some a ∨ (s.slot k).prev = some a

section Operations

variable [DecidableEq κ] [DecidableEq α] (s : BufferPool κ α β)

/-- A buffer is allocated with its contents, or written. -/
def put (a : α) (b : β) : BufferPool κ α β := { s with heap := update s.heap a (some b) }

def free (a : α) : BufferPool κ α β := { s with heap := update s.heap a none }

/-- A buffer becomes the current one; the one it replaces overwrites the one before. -/
def stage (k : κ) (a : α) : BufferPool κ α β :=
  { s with slot := update s.slot k ⟨some a, (s.slot k).curr <|> (s.slot k).prev⟩ }

/-- The previous buffer of a holder is freed. -/
def reapPrev (k : κ) : BufferPool κ α β where
  slot := update s.slot k { s.slot k with prev := none }
  heap := (s.slot k).prev.elim s.heap fun a => update s.heap a none

def reapCurr (k : κ) : BufferPool κ α β where
  slot := update s.slot k { s.slot k with curr := none }
  heap := (s.slot k).curr.elim s.heap fun a => update s.heap a none

end Operations

/-- No buffer has two holders or two places, and what readers of a group use is allocated
and not held outside the group. -/
structure Sound (group : κ → γ) (pins : γ → Set α) (s : BufferPool κ α β) : Prop where
  held : ∀ k a, s.Holds k a → (s.heap a).isSome
  holder : ∀ k k' a, s.Holds k a → s.Holds k' a → k = k'
  place : ∀ k a, (s.slot k).curr = some a → (s.slot k).prev ≠ some a
  pinned : ∀ g, ∀ a ∈ pins g, (s.heap a).isSome
  apart : ∀ g, ∀ a ∈ pins g, ∀ k, s.Holds k a → group k = g

section Readers

variable {group : κ → γ} {pins : γ → Set α} {s : BufferPool κ α β}

namespace Sound

/-- Memory that was not in use is nobody's. -/
theorem not_holds_of_fresh (h : s.Sound group pins) {a : α} (hfresh : s.heap a = none) (k : κ) :
    ¬ s.Holds k a := by
  intro hk
  have hlive := h.held k a hk
  rw [hfresh] at hlive
  cases hlive

theorem not_pinned_of_fresh (h : s.Sound group pins) {a : α} (hfresh : s.heap a = none) (g : γ) :
    a ∉ pins g := by
  intro ha
  have hlive := h.pinned g a ha
  rw [hfresh] at hlive
  cases hlive

/-- Readers of a group are moved to current buffers of the group, or to buffers that are
never freed. -/
theorem publish [DecidableEq γ] (h : s.Sound group pins) {g : γ} {new : Set α}
    (hnew : ∀ a ∈ new, (∃ k, group k = g ∧ (s.slot k).curr = some a) ∨
      ((s.heap a).isSome ∧ ∀ k, ¬ s.Holds k a)) :
    s.Sound group (update pins g new) := by
  refine ⟨h.held, h.holder, h.place, fun g' a ha => ?pinned, fun g' a ha k hk => ?apart⟩
  case pinned =>
    by_cases hg : g' = g
    · rw [hg, update_self] at ha
      rcases hnew a ha with ⟨k, -, hcurr⟩ | ⟨hlive, -⟩
      · exact h.held k a (.inl hcurr)
      · exact hlive
    · rw [update_of_ne hg] at ha
      exact h.pinned g' a ha
  case apart =>
    by_cases hg : g' = g
    · rw [hg, update_self] at ha
      rcases hnew a ha with ⟨k', hk', hcurr⟩ | ⟨-, hfree⟩
      · rw [h.holder k k' a hk (.inl hcurr), hk', hg]
      · exact absurd hk (hfree k)
    · rw [update_of_ne hg] at ha
      exact h.apart g' a ha k hk

end Sound

/-- The readers of a group have been moved to the current buffers of holders that keep
them, or to buffers that nobody frees. -/
def Settled (pins : γ → Set α) (g : γ) (keep : κ → Prop) (s : BufferPool κ α β) : Prop :=
  ∀ a ∈ pins g, (∃ k, keep k ∧ (s.slot k).curr = some a) ∨ ∀ k, ¬ s.Holds k a

/-- After readers have moved on, the buffer before the current one has none. -/
theorem Settled.prev_unpinned {g : γ} {keep : κ → Prop} (h : s.Settled pins g keep)
    (hs : s.Sound group pins) {k : κ} (hk : group k = g) :
    ∀ a ∈ (s.slot k).prev, ∀ g', a ∉ pins g' := by
  intro a hprev g' hpin
  by_cases hg : g' = g
  · subst hg
    rcases h a hpin with ⟨k', -, hcurr⟩ | hfree
    · obtain rfl := hs.holder k k' a (.inr hprev) (.inl hcurr)
      exact hs.place k a hcurr hprev
    · exact hfree k (.inr hprev)
  · exact hg ((hs.apart g' a hpin k (.inr hprev)).symm.trans hk)

theorem Settled.curr_unpinned {g : γ} {keep : κ → Prop} (h : s.Settled pins g keep)
    (hs : s.Sound group pins) {k : κ} (hk : group k = g) (hkeep : ¬ keep k) :
    ∀ a ∈ (s.slot k).curr, ∀ g', a ∉ pins g' := by
  intro a hcurr g' hpin
  by_cases hg : g' = g
  · subst hg
    rcases h a hpin with ⟨k', hkeep', hcurr'⟩ | hfree
    · obtain rfl := hs.holder k k' a (.inl hcurr) (.inl hcurr')
      exact hkeep hkeep'
    · exact hfree k (.inl hcurr)
  · exact hg ((hs.apart g' a hpin k (.inl hcurr)).symm.trans hk)

end Readers

section Holders

variable [DecidableEq κ] {group : κ → γ} {pins : γ → Set α} {s : BufferPool κ α β}

theorem holds_stage {k k' : κ} {a x : α} (hx : (s.stage k a).Holds k' x) :
    s.Holds k' x ∨ (k' = k ∧ x = a) := by
  by_cases hk : k' = k
  · subst hk
    simp only [Holds, BufferPool.stage, update_self] at hx
    rcases hx with hcurr | hprev
    · exact .inr ⟨rfl, (Option.some.inj hcurr).symm⟩
    · cases hc : (s.slot k').curr with
      | none =>
        rw [hc] at hprev
        exact .inl (.inr hprev)
      | some c =>
        rw [hc] at hprev
        exact .inl (.inl (hc.trans hprev))
  · left
    simpa only [Holds, BufferPool.stage, update_of_ne hk] using hx

/-- A buffer that no holder and no reader has may be staged. -/
theorem Sound.stage (h : s.Sound group pins) {a : α} (hlive : (s.heap a).isSome)
    (hheld : ∀ k, ¬ s.Holds k a) (hpins : ∀ g, a ∉ pins g) (k : κ) :
    (s.stage k a).Sound group pins := by
  refine ⟨fun k' x hx => ?held, fun k' k'' x hx hx' => ?holder, fun k' x hcurr hprev => ?place,
    h.pinned, fun g x hx k' hk' => ?apart⟩
  case held =>
    rcases holds_stage hx with hold | ⟨-, rfl⟩
    · exact h.held k' x hold
    · exact hlive
  case holder =>
    rcases holds_stage hx with hold | ⟨rfl, rfl⟩ <;>
      rcases holds_stage hx' with hold' | ⟨rfl, hxa⟩
    · exact h.holder k' k'' x hold hold'
    · exact absurd (hxa ▸ hold) (hheld k')
    · exact absurd hold' (hheld k'')
    · rfl
  case place =>
    by_cases hk : k' = k
    · subst hk
      simp only [BufferPool.stage, update_self] at hcurr hprev
      obtain rfl := Option.some.inj hcurr
      cases hc : (s.slot k').curr with
      | none =>
        rw [hc] at hprev
        exact hheld k' (.inr hprev)
      | some c =>
        rw [hc] at hprev
        exact hheld k' (.inl (hc.trans hprev))
    · simp only [BufferPool.stage, update_of_ne hk] at hcurr hprev
      exact h.place k' x hcurr hprev
  case apart =>
    rcases holds_stage hk' with hold | ⟨-, rfl⟩
    · exact h.apart g x hx k' hold
    · exact absurd hx (hpins g)

variable [DecidableEq α]

theorem holds_reapPrev {k k' : κ} {x : α} (hx : (s.reapPrev k).Holds k' x) : s.Holds k' x := by
  by_cases hk : k' = k
  · subst hk
    simp only [Holds, BufferPool.reapPrev, update_self] at hx
    exact .inl (hx.resolve_right (Option.some_ne_none x).symm)
  · simpa only [Holds, BufferPool.reapPrev, update_of_ne hk] using hx

theorem holds_reapCurr {k k' : κ} {x : α} (hx : (s.reapCurr k).Holds k' x) : s.Holds k' x := by
  by_cases hk : k' = k
  · subst hk
    simp only [Holds, BufferPool.reapCurr, update_self] at hx
    exact .inr (hx.resolve_left (Option.some_ne_none x).symm)
  · simpa only [Holds, BufferPool.reapCurr, update_of_ne hk] using hx

/-- Reaping touches nothing but the buffer that goes. -/
theorem heap_reapPrev {k : κ} {a : α} (h : a ∉ (s.slot k).prev) :
    (s.reapPrev k).heap a = s.heap a := by
  unfold reapPrev
  cases hprev : (s.slot k).prev with
  | none => rfl
  | some x =>
    rw [hprev] at h
    exact update_of_ne (fun hax : a = x => h (congrArg some hax.symm)) _ _

theorem heap_reapCurr {k : κ} {a : α} (h : a ∉ (s.slot k).curr) :
    (s.reapCurr k).heap a = s.heap a := by
  unfold reapCurr
  cases hcurr : (s.slot k).curr with
  | none => rfl
  | some x =>
    rw [hcurr] at h
    exact update_of_ne (fun hax : a = x => h (congrArg some hax.symm)) _ _

end Holders

section Steps

variable {group : κ → γ} {pins : γ → Set α} {s : BufferPool κ α β}

namespace Sound

variable [DecidableEq α]

theorem put (h : s.Sound group pins) (a : α) (b : β) : (s.put a b).Sound group pins := by
  have hlive (x : α) (hx : (s.heap x).isSome) : ((s.put a b).heap x).isSome := by
    by_cases hxa : x = a
    · simp only [BufferPool.put, hxa, update_self, Option.isSome_some]
    · simpa only [BufferPool.put, update_of_ne hxa] using hx
  exact ⟨fun k x hx => hlive x (h.held k x hx), h.holder, h.place,
    fun g x hx => hlive x (h.pinned g x hx), h.apart⟩

/-- What neither a holder nor a reader has can be freed. -/
theorem free (h : s.Sound group pins) {a : α} (hheld : ∀ k, ¬ s.Holds k a)
    (hpins : ∀ g, a ∉ pins g) : (s.free a).Sound group pins := by
  have hlive (x : α) (hxa : x ≠ a) (hx : (s.heap x).isSome) : ((s.free a).heap x).isSome := by
    simpa only [BufferPool.free, update_of_ne hxa] using hx
  refine ⟨fun k x hx => hlive x ?_ (h.held k x hx), h.holder, h.place,
    fun g x hx => hlive x ?_ (h.pinned g x hx), h.apart⟩
  · rintro rfl
    exact hheld k hx
  · rintro rfl
    exact hpins g hx

/-- A holder gives up a buffer that no reader has. -/
theorem shrink {s' : BufferPool κ α β} {o : Option α} (h : s.Sound group pins)
    (hheap : s'.heap = o.elim s.heap fun a => update s.heap a none)
    (hslot : ∀ k' x, s'.Holds k' x → s.Holds k' x ∧ x ∉ o)
    (hplace : ∀ k' x, (s'.slot k').curr = some x → (s'.slot k').prev ≠ some x)
    (hpins : ∀ a ∈ o, ∀ g, a ∉ pins g) : s'.Sound group pins := by
  have hlive (x : α) (hx : (s.heap x).isSome) (hxo : x ∉ o) : (s'.heap x).isSome := by
    rw [hheap]
    cases o with
    | none => exact hx
    | some a =>
      have hne : x ≠ a := fun hxa => hxo (hxa ▸ rfl)
      rw [Option.elim_some, update_of_ne hne]
      exact hx
  exact ⟨fun k' x hx => hlive x (h.held k' x (hslot k' x hx).1) (hslot k' x hx).2,
    fun k' k'' x hx hx' => h.holder k' k'' x (hslot k' x hx).1 (hslot k'' x hx').1, hplace,
    fun g x hx => hlive x (h.pinned g x hx) fun hxo => hpins x hxo g hx,
    fun g x hx k' hk' => h.apart g x hx k' (hslot k' x hk').1⟩

variable [DecidableEq κ]

theorem put_stage (h : s.Sound group pins) {a : α} (hfresh : s.heap a = none) (b : β) (k : κ) :
    ((s.put a b).stage k a).Sound group pins := by
  refine (h.put a b).stage ?live (h.not_holds_of_fresh hfresh) (h.not_pinned_of_fresh hfresh) k
  simp only [BufferPool.put, update_self, Option.isSome_some]

theorem reapPrev (h : s.Sound group pins) {k : κ}
    (hpins : ∀ a ∈ (s.slot k).prev, ∀ g, a ∉ pins g) : (s.reapPrev k).Sound group pins := by
  refine h.shrink rfl (fun k' x hx => ⟨holds_reapPrev hx, fun hprev => ?gone⟩)
    (fun k' x hcurr hprev => ?place) hpins
  case gone =>
    obtain rfl := h.holder k' k x (holds_reapPrev hx) (.inr hprev)
    simp only [Holds, BufferPool.reapPrev, update_self] at hx
    exact h.place k' x (hx.resolve_right (Option.some_ne_none x).symm) hprev
  case place =>
    by_cases hk : k' = k
    · subst hk
      simp only [BufferPool.reapPrev, update_self] at hprev
      cases hprev
    · simp only [BufferPool.reapPrev, update_of_ne hk] at hcurr hprev
      exact h.place k' x hcurr hprev

theorem reapCurr (h : s.Sound group pins) {k : κ}
    (hpins : ∀ a ∈ (s.slot k).curr, ∀ g, a ∉ pins g) : (s.reapCurr k).Sound group pins := by
  refine h.shrink rfl (fun k' x hx => ⟨holds_reapCurr hx, fun hcurr => ?gone⟩)
    (fun k' x hcurr hprev => ?place) hpins
  case gone =>
    obtain rfl := h.holder k' k x (holds_reapCurr hx) (.inl hcurr)
    simp only [Holds, BufferPool.reapCurr, update_self] at hx
    exact h.place k' x hcurr (hx.resolve_left (Option.some_ne_none x).symm)
  case place =>
    by_cases hk : k' = k
    · subst hk
      simp only [BufferPool.reapCurr, update_self] at hcurr
      cases hcurr
    · simp only [BufferPool.reapCurr, update_of_ne hk] at hcurr hprev
      exact h.place k' x hcurr hprev

end Sound

section Settled

variable [DecidableEq α] [DecidableEq κ]

theorem Settled.reapPrev {g : γ} {keep : κ → Prop} (h : s.Settled pins g keep) (k : κ) :
    (s.reapPrev k).Settled pins g keep := by
  intro a ha
  rcases h a ha with ⟨k', hkeep, hcurr⟩ | hfree
  · refine .inl ⟨k', hkeep, ?_⟩
    by_cases hk : k' = k
    · simpa only [BufferPool.reapPrev, hk, update_self] using hk ▸ hcurr
    · simpa only [BufferPool.reapPrev, update_of_ne hk] using hcurr
  · exact .inr fun k' hk' => hfree k' (holds_reapPrev hk')

theorem Settled.reapCurr {g : γ} {keep : κ → Prop} (h : s.Settled pins g keep) {k : κ}
    (hkeep : ¬ keep k) : (s.reapCurr k).Settled pins g keep := by
  intro a ha
  rcases h a ha with ⟨k', hkeep', hcurr⟩ | hfree
  · have hk : k' ≠ k := fun hk => hkeep (hk ▸ hkeep')
    refine .inl ⟨k', hkeep', ?_⟩
    simpa only [BufferPool.reapCurr, update_of_ne hk] using hcurr
  · exact .inr fun k' hk' => hfree k' (holds_reapCurr hk')

end Settled

end Steps

end BufferPool
