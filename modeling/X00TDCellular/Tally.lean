import Mathlib.Algebra.BigOperators.Group.Finset.Piecewise
import Mathlib.Algebra.BigOperators.Pi
import Mathlib.Algebra.Order.BigOperators.Group.Finset
import Mathlib.Algebra.Order.Ring.Int
import Mathlib.Logic.Function.Basic
import Mathlib.Tactic.Abel
import Mathlib.Tactic.Common

/-! Counters that stand for a set: the total weight of those who hold something. -/

namespace Tally

open Finset Function

section Weights

variable {ι M : Type*} [Fintype ι] [AddCommGroup M]

/-- The total weight of the members of `U`. -/
def tally (w : ι → M) (U : ι → Bool) : M := ∑ i, if U i then w i else 0

theorem tally_congr {w w' : ι → M} {U U' : ι → Bool} (hU : ∀ i, U i = U' i)
    (hw : ∀ i, U i = true → w i = w' i) : tally w U = tally w' U' := by
  apply Finset.sum_congr rfl
  intro i _
  rw [← hU i]
  split_ifs with hi
  · exact hw i hi
  · rfl

theorem tally_eq_zero {w : ι → M} {U : ι → Bool} (hU : ∀ i, U i = false) : tally w U = 0 :=
  Finset.sum_eq_zero fun i _ => by rw [hU i]; rfl

section Change

variable [DecidableEq ι]

/-- A tally apart from one index. -/
theorem tally_eq_add_erase (w : ι → M) (U : ι → Bool) (i : ι) :
    tally w U = (if U i then w i else 0) + ∑ j ∈ univ.erase i, if U j then w j else 0 :=
  (Finset.add_sum_erase _ _ (mem_univ i)).symm

/-- Two tallies that differ at one index only. -/
theorem tally_change (w w' : ι → M) (U U' : ι → Bool) (i : ι) (hU : ∀ j, j ≠ i → U j = U' j)
    (hw : ∀ j, j ≠ i → U j = true → w j = w' j) :
    tally w' U' = tally w U - (if U i then w i else 0) + (if U' i then w' i else 0) := by
  have hrest : (∑ j ∈ univ.erase i, if U' j then w' j else 0) =
      ∑ j ∈ univ.erase i, if U j then w j else 0 := by
    apply Finset.sum_congr rfl
    intro j hj
    have hji := Finset.ne_of_mem_erase hj
    rw [← hU j hji]
    split_ifs with h
    · exact (hw j hji h).symm
    · rfl
  rw [tally_eq_add_erase w U i, tally_eq_add_erase w' U' i, hrest]
  abel

theorem tally_join (w : ι → M) {U : ι → Bool} {i : ι} (h : U i = false) :
    tally w (update U i true) = tally w U + w i := by
  have h' := tally_change w w U (update U i true) i
    (fun j hj => (update_of_ne hj _ _).symm) (fun _ _ _ => rfl)
  simpa [h] using h'

theorem tally_leave (w : ι → M) {U : ι → Bool} {i : ι} (h : U i = true) :
    tally w (update U i false) = tally w U - w i := by
  have h' := tally_change w w U (update U i false) i
    (fun j hj => (update_of_ne hj _ _).symm) (fun _ _ _ => rfl)
  simpa [h] using h'

theorem tally_reweigh (w : ι → M) {U : ι → Bool} {i : ι} (h : U i = true) (x : M) :
    tally (update w i x) U = tally w U - w i + x := by
  have h' := tally_change w (update w i x) U U i
    (fun _ _ => rfl) (fun j hj _ => (update_of_ne hj _ _).symm)
  simpa [h] using h'

end Change

/-- How many members `U` has. -/
abbrev count (U : ι → Bool) : ℤ := tally (fun _ => (1 : ℤ)) U

theorem count_nonneg (U : ι → Bool) : 0 ≤ count U :=
  Finset.sum_nonneg fun i _ => by dsimp only; split_ifs <;> omega

theorem count_pos_iff {U : ι → Bool} : 0 < count U ↔ ∃ i, U i = true := by
  constructor
  · intro h
    by_contra hnone
    rw [count, tally_eq_zero (fun i => by simpa using fun hi => hnone ⟨i, hi⟩)] at h
    omega
  · rintro ⟨i, hi⟩
    have hle := Finset.single_le_sum (f := fun i => if U i then (1 : ℤ) else 0)
      (fun j _ => by split_ifs <;> omega) (mem_univ i)
    simp only [hi, if_true] at hle
    exact lt_of_lt_of_le one_pos hle

theorem count_eq_zero_iff {U : ι → Bool} : count U = 0 ↔ ∀ i, U i = false := by
  constructor
  · intro h i
    by_contra hi
    have hpos := count_pos_iff.mpr ⟨i, by simpa using hi⟩
    omega
  · exact tally_eq_zero

end Weights

section Pair

variable {ι κ : Type*} [DecidableEq ι] [DecidableEq κ]

/-- A relation with the pair `(i, k)` put in or taken out. -/
def setPair (U : ι → κ → Bool) (i : ι) (k : κ) (b : Bool) : ι → κ → Bool :=
  fun i' k' => if i' = i ∧ k' = k then b else U i' k'

variable (U : ι → κ → Bool) (i : ι) (k : κ) (b : Bool)

@[simp] theorem setPair_self : setPair U i k b i k = b := by simp [setPair]

theorem setPair_of_ne {i' : ι} {k' : κ} (h : ¬(i' = i ∧ k' = k)) :
    setPair U i k b i' k' = U i' k' := if_neg h

theorem setPair_column : (fun i' => setPair U i k b i' k) = update (fun i' => U i' k) i b := by
  funext i'
  by_cases h : i' = i
  · subst h
    simp [setPair]
  · simp [setPair, h]

theorem setPair_column_of_ne {k' : κ} (h : k' ≠ k) :
    (fun i' => setPair U i k b i' k') = fun i' => U i' k' :=
  funext fun _ => setPair_of_ne U i k b fun h' => h h'.2

end Pair

end Tally
