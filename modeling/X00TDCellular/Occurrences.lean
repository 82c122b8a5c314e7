import Mathlib.Data.List.Infix
import Mathlib.Data.Nat.Count
import Mathlib.Tactic.Common

/-! The places where one text starts in another, overlapping ones counted
separately, and what becomes of them when a place is rewritten. -/

namespace Occurrences

variable {α : Type*}

/-- `old` starts at position `p` of `text`. -/
def OccursAt (old text : List α) (p : ℕ) : Prop :=
  p ≤ text.length ∧ old <+: text.drop p

instance [DecidableEq α] (old text : List α) (p : ℕ) : Decidable (OccursAt old text p) :=
  inferInstanceAs (Decidable (p ≤ text.length ∧ old <+: text.drop p))

/-- The text with the `n` entries from position `p` on replaced. -/
def splice (text : List α) (p n : ℕ) (new : List α) : List α :=
  text.take p ++ new ++ text.drop (p + n)

section Split

variable {old new text A B : List α} {p : ℕ}

theorem occursAt_append (A B : List α) : OccursAt old (A ++ old ++ B) A.length := by
  constructor
  · simp only [List.length_append]
    omega
  · rw [List.append_assoc, List.drop_left]
    exact List.prefix_append old B

theorem OccursAt.lt (hold : old ≠ []) (h : OccursAt old text p) : p < text.length := by
  apply lt_of_le_of_ne h.1
  rintro rfl
  have hnil := h.2
  rw [List.drop_length, List.prefix_nil] at hnil
  exact hold hnil

theorem OccursAt.split (h : OccursAt old text p) :
    text = text.take p ++ old ++ text.drop (p + old.length) := by
  obtain ⟨B, hB⟩ := h.2
  have hdrop : text.drop (p + old.length) = B := by
    rw [← List.drop_drop, ← hB, List.drop_left]
  rw [hdrop, List.append_assoc, hB, List.take_append_drop]

theorem occursAt_iff_split :
    OccursAt old text p ↔ ∃ A B, text = A ++ old ++ B ∧ A.length = p := by
  constructor
  · intro h
    exact ⟨text.take p, text.drop (p + old.length), h.split, List.length_take_of_le h.1⟩
  · rintro ⟨A, B, rfl, rfl⟩
    exact occursAt_append A B

theorem infix_iff_occursAt : old <:+: text ↔ ∃ p, OccursAt old text p := by
  constructor
  · rintro ⟨A, B, rfl⟩
    exact ⟨A.length, occursAt_append A B⟩
  · rintro ⟨p, hp⟩
    obtain ⟨A, B, rfl, _⟩ := occursAt_iff_split.mp hp
    exact List.infix_append A old B

end Split

section Index

variable [DecidableEq α] {old text : List α} {i p : ℕ}

/-- The first position from `i` on at which `old` starts. A start beyond the end
of the text counts as its end. -/
def index (text old : List α) (i : ℕ) : Option ℕ :=
  (List.range' (min i text.length) (text.length + 1 - min i text.length)).find? fun p =>
    OccursAt old text p

theorem index_occursAt (h : index text old i = some p) : OccursAt old text p :=
  of_decide_eq_true (List.find?_range'_eq_some.mp h).1

theorem index_eq_some (hold : old ≠ []) (h : index text old i = some p) :
    i ≤ p ∧ OccursAt old text p ∧ ∀ q, i ≤ q → q < p → ¬ OccursAt old text q := by
  have hocc : OccursAt old text p := index_occursAt h
  obtain ⟨_, hmem, hfirst⟩ := List.find?_range'_eq_some.mp h
  have hlt := hocc.lt hold
  have hle : min i text.length ≤ p := (List.mem_range'_1.mp hmem).1
  refine ⟨by omega, hocc, ?_⟩
  intro q hiq hqp hq
  have := hfirst q (by omega) hqp
  simp only [hq, decide_true, Bool.not_true, Bool.false_eq_true] at this

theorem index_eq_none (h : index text old i = none) {q : ℕ} (hq : i ≤ q) :
    ¬ OccursAt old text q := by
  intro hocc
  have hle := hocc.1
  have := List.find?_range'_eq_none.mp h q (by omega) (by omega)
  simp only [hocc, decide_true, Bool.not_true, Bool.false_eq_true] at this

theorem index_zero_isSome : (index text old 0).isSome ↔ old <:+: text := by
  rw [infix_iff_occursAt]
  cases hidx : index text old 0 with
  | none =>
    constructor
    · intro h
      cases h
    · rintro ⟨p, hp⟩
      exact absurd hp (index_eq_none hidx (Nat.zero_le p))
  | some p =>
    exact ⟨fun _ => ⟨p, index_occursAt hidx⟩, fun _ => rfl⟩

/-- The empty text is found wherever the search starts. -/
theorem index_nil (text : List α) (i : ℕ) : index text [] i = some (min i text.length) := by
  apply List.find?_range'_eq_some.mpr
  refine ⟨decide_eq_true ⟨Nat.min_le_right _ _, List.nil_prefix⟩, ?_, ?_⟩
  · apply List.mem_range'_1.mpr
    omega
  · intro q hq hlt
    omega

end Index

section Count

variable [DecidableEq α] {old text A B : List α}

/-- The number of positions at which `old` starts. -/
def count (old text : List α) : ℕ :=
  Nat.count (OccursAt old text) (text.length + 1)

/-- Between two positions with no occurrence from one to the other as many lie below. -/
theorem count_eq_of_forall_not {P : ℕ → Prop} [DecidablePred P] {i p : ℕ} (hip : i ≤ p)
    (h : ∀ q, i ≤ q → q < p → ¬ P q) : Nat.count P p = Nat.count P i := by
  obtain ⟨k, rfl⟩ := Nat.exists_eq_add_of_le hip
  have hnone : Nat.count (fun q => P (i + q)) k = 0 := by
    apply Nat.count_iff_forall_not.mpr
    intro q hq
    exact h (i + q) (Nat.le_add_right i q) (Nat.add_lt_add_left hq i)
  rw [Nat.count_add, hnone, Nat.add_zero]

theorem count_eq_zero : count old text = 0 ↔ ¬ old <:+: text := by
  unfold count
  rw [Nat.count_iff_forall_not, infix_iff_occursAt]
  constructor
  · rintro h ⟨p, hp⟩
    exact h p (Nat.lt_succ_of_le hp.1) hp
  · intro h p _ hp
    exact h ⟨p, hp⟩

/-- One occurrence is an occurrence that every other one is equal to. -/
theorem count_eq_one : count old text = 1 ↔ ∃! p, OccursAt old text p := by
  unfold count
  rw [Nat.count_eq_card_filter_range, Finset.card_eq_one]
  have hmem : ∀ p, OccursAt old text p ↔
      p ∈ (Finset.range (text.length + 1)).filter (OccursAt old text) := by
    intro p
    rw [Finset.mem_filter, Finset.mem_range]
    exact ⟨fun h => ⟨Nat.lt_succ_of_le h.1, h⟩, fun h => h.2⟩
  constructor
  · rintro ⟨p, hp⟩
    refine ⟨p, (hmem p).mpr (hp ▸ Finset.mem_singleton_self p), ?_⟩
    intro q hq
    rw [hmem, hp, Finset.mem_singleton] at hq
    exact hq
  · rintro ⟨p, hp, huniq⟩
    refine ⟨p, Finset.ext fun q => ?_⟩
    rw [← hmem, Finset.mem_singleton]
    exact ⟨huniq q, fun hq => hq ▸ hp⟩

theorem two_le_count :
    2 ≤ count old text ↔ ∃ p q, p ≠ q ∧ OccursAt old text p ∧ OccursAt old text q := by
  constructor
  · intro h
    have hsome : old <:+: text := not_not.mp fun hnone => by
      rw [count_eq_zero.mpr hnone] at h
      omega
    have hmore : ¬ ∃! p, OccursAt old text p := fun hone => by
      rw [count_eq_one.mpr hone] at h
      omega
    obtain ⟨p, hp⟩ := infix_iff_occursAt.mp hsome
    by_contra hnone
    apply hmore
    refine ⟨p, hp, ?_⟩
    intro q hq
    by_contra hne
    exact hnone ⟨q, p, hne, hq, hp⟩
  · rintro ⟨p, q, hne, hp, hq⟩
    have hzero : count old text ≠ 0 := fun h =>
      count_eq_zero.mp h (infix_iff_occursAt.mpr ⟨p, hp⟩)
    have hone : count old text ≠ 1 := fun h => hne ((count_eq_one.mp h).unique hp hq)
    omega

theorem split_unique {A' B' : List α} (h : count old (A ++ old ++ B) = 1)
    (hsplit : A ++ old ++ B = A' ++ old ++ B') : A = A' ∧ B = B' := by
  obtain ⟨p, _, huniq⟩ := count_eq_one.mp h
  have hA : A.length = p := huniq _ (occursAt_append A B)
  have hA' : A'.length = p := huniq _ (hsplit ▸ occursAt_append A' B')
  rw [List.append_assoc, List.append_assoc] at hsplit
  obtain ⟨rfl, hrest⟩ := List.append_inj hsplit (hA.trans hA'.symm)
  exact ⟨rfl, List.append_cancel_left hrest⟩

/-- Around its only occurrence a nonempty text does not occur. -/
theorem not_infix_of_count_eq_one (hold : old ≠ []) (h : count old (A ++ old ++ B) = 1) :
    ¬ old <:+: A ∧ ¬ old <:+: B := by
  obtain ⟨p, _, huniq⟩ := count_eq_one.mp h
  have hA : A.length = p := huniq _ (occursAt_append A B)
  have hpos : 0 < old.length := List.length_pos_iff.mpr hold
  constructor
  · rintro ⟨s, t, rfl⟩
    have hs : OccursAt old (s ++ old ++ t ++ old ++ B) s.length := by
      rw [List.append_assoc, List.append_assoc (s ++ old)]
      exact occursAt_append s _
    have := huniq _ hs
    simp only [List.length_append] at hA
    omega
  · rintro ⟨s, t, rfl⟩
    have hs : OccursAt old (A ++ old ++ (s ++ old ++ t)) (A ++ old ++ s).length := by
      rw [← List.append_assoc, ← List.append_assoc]
      exact occursAt_append _ t
    have := huniq _ hs
    simp only [List.length_append] at this
    omega

end Count

section Straddles

variable {old new A B : List α}

/-- `old` lies across one of the ends of `new` in `A ++ new ++ B`. -/
def Straddles (old A new B : List α) : Prop :=
  ∃ x y, old = x ++ y ∧ x ≠ [] ∧ y ≠ [] ∧
    (x <:+ A ∧ y <+: new ++ B ∨ x <:+ A ++ new ∧ y <+: B)

/-- An occurrence in two texts put together is one in either or lies across. -/
theorem infix_append_iff {xs ys : List α} :
    old <:+: xs ++ ys ↔ old <:+: xs ∨ old <:+: ys ∨
      ∃ x y, old = x ++ y ∧ x ≠ [] ∧ y ≠ [] ∧ x <:+ xs ∧ y <+: ys := by
  constructor
  · rintro ⟨s, t, h⟩
    -- where the first text ends: after the occurrence, before it, or inside it
    rcases List.append_eq_append_iff.mp h with ⟨u, hxs, ht⟩ | ⟨u, hs, hys⟩
    · exact Or.inl ⟨s, u, hxs.symm⟩
    · rcases List.append_eq_append_iff.mp hs with ⟨v, hxs, hold⟩ | ⟨v, _, hu⟩
      · by_cases hv : v = []
        · rw [hv, List.nil_append] at hold
          exact Or.inr (Or.inl ⟨[], t, by rw [hold, hys, List.nil_append]⟩)
        by_cases hu : u = []
        · rw [hu, List.append_nil] at hold
          exact Or.inl ⟨s, [], by rw [hold, hxs, List.append_nil]⟩
        exact Or.inr (Or.inr ⟨v, u, hold, hv, hu, ⟨s, hxs.symm⟩, ⟨t, hys.symm⟩⟩)
      · exact Or.inr (Or.inl ⟨v, t, by rw [hys, hu]⟩)
  · rintro (⟨s, t, rfl⟩ | ⟨s, t, rfl⟩ | ⟨x, y, rfl, -, -, ⟨s, rfl⟩, ⟨t, rfl⟩⟩)
    · exact ⟨s, t ++ ys, by simp only [List.append_assoc]⟩
    · exact ⟨xs ++ s, t, by simp only [List.append_assoc]⟩
    · exact ⟨s, t, by simp only [List.append_assoc]⟩

/-- `old` lies in one of the three texts, or across an end of the middle one. -/
def InParts (old A new B : List α) : Prop :=
  old <:+: A ∨ old <:+: new ∨ old <:+: B ∨ Straddles old A new B

theorem inParts_iff : InParts old A new B ↔ old <:+: A ++ new ++ B := by
  constructor
  · rintro (h | h | h | ⟨x, y, hxy, hx, hy, ⟨hxA, hyB⟩ | ⟨hxA, hyB⟩⟩)
    · exact h.trans
        ((List.prefix_append A new).isInfix.trans (List.prefix_append (A ++ new) B).isInfix)
    · exact h.trans (List.infix_append A new B)
    · exact h.trans (List.suffix_append (A ++ new) B).isInfix
    · rw [List.append_assoc]
      exact infix_append_iff.mpr (Or.inr (Or.inr ⟨x, y, hxy, hx, hy, hxA, hyB⟩))
    · exact infix_append_iff.mpr (Or.inr (Or.inr ⟨x, y, hxy, hx, hy, hxA, hyB⟩))
  · intro hocc
    rw [List.append_assoc] at hocc
    rcases infix_append_iff.mp hocc with h | h | ⟨x, y, hxy, hx, hy, hxA, hyB⟩
    · exact Or.inl h
    · rcases infix_append_iff.mp h with h | h | ⟨x, y, hxy, hx, hy, hxn, hyB⟩
      · exact Or.inr (Or.inl h)
      · exact Or.inr (Or.inr (Or.inl h))
      · exact Or.inr (Or.inr (Or.inr
          ⟨x, y, hxy, hx, hy, Or.inr ⟨hxn.trans (List.suffix_append A new), hyB⟩⟩))
    · exact Or.inr (Or.inr (Or.inr ⟨x, y, hxy, hx, hy, Or.inl ⟨hxA, hyB⟩⟩))

/-- Rewriting the only occurrence of a text leaves one exactly where the new text
holds it or lets it arise across one of its ends. -/
theorem infix_replaced_iff [DecidableEq α] (hold : old ≠ [])
    (h : count old (A ++ old ++ B) = 1) :
    old <:+: A ++ new ++ B ↔ old <:+: new ∨ Straddles old A new B := by
  obtain ⟨hA, hB⟩ := not_infix_of_count_eq_one hold h
  rw [← inParts_iff]
  constructor
  · rintro (h | h | h | h)
    · exact absurd h hA
    · exact Or.inl h
    · exact absurd h hB
    · exact Or.inr h
  · rintro (h | h)
    · exact Or.inr (Or.inl h)
    · exact Or.inr (Or.inr (Or.inr h))

end Straddles

end Occurrences
