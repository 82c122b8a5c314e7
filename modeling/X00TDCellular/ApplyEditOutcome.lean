import X00TDCellular.ApplyEdit

/-! One call of `apply_edit` with what it leaves of the tree on each of its exits. -/

namespace X00TDCellular

open Occurrences

variable {srcRoot : String} {t : PortTree} {e : PortEdit} {text : List UInt8}

/-- The call does what it is asked for: it replaces the text where that is found at one
place and no `GUARD` is, it leaves the file as it is otherwise, and it fails where the text
is found at two places, or neither it nor the new one is found, and no `GUARD` is. -/
structure Edited (t : PortTree) (e : PortEdit) (text : List UInt8)
    (r : PortTree × EditReport) : Prop where
  ok_iff : r.2 = .ok ↔ ¬ e.GuardIn text ∧ ∃! p, OccursAt e.old text p
  replaced : r.2 = .ok → ∃ A B, text = A ++ e.old ++ B ∧
    (∀ A' B', text = A' ++ e.old ++ B' → A' = A ∧ B' = B) ∧
      r.1.files e.file = some (A ++ e.new ++ B)
  unchanged : r.2 ≠ .ok → r.1.files = t.files
  others : ∀ f, f ≠ e.file → r.1.files f = t.files f
  error_iff : (∃ lines, r.2 = .error lines) ↔ ¬ e.GuardIn text ∧
    ((∃ p q, p ≠ q ∧ OccursAt e.old text p ∧ OccursAt e.old text q) ∨
      ¬ e.old <:+: text ∧ ¬ e.new <:+: text)
  returns : r.2 ≠ .endless

/-- On every file, whatever `GUARD`, `NEW` and a nonempty `OLD` are. -/
theorem runEdit_edited (hf : t.files e.file = some text) (hold : e.old ≠ []) :
    Edited t e text (runEdit srcRoot t e) := by
  by_cases hguard : e.GuardIn text
  · rw [runEdit_guard hf hguard]
    refine ⟨?_, by simp, fun _ => rfl, fun _ _ => rfl, ?_, by simp⟩
    · simp [hguard]
    · simp [hguard]
  -- what is asked for, in terms of the number of places
  have hone : (∃! p, OccursAt e.old text p) ↔ count e.old text = 1 := count_eq_one.symm
  have hmany : 2 ≤ count e.old text ↔
      ∃ p q, p ≠ q ∧ OccursAt e.old text p ∧ OccursAt e.old text q := two_le_count
  have hnone : ¬ e.old <:+: text ↔ count e.old text = 0 := count_eq_zero.symm
  rcases runEdit_count srcRoot hf hguard hold with
    ⟨hn, hnew, hr⟩ | ⟨hn, hnew, lines, hr⟩ | ⟨hn, A, B, hsplit, hr⟩ | ⟨hn, lines, hr⟩
  · rw [hr]
    refine ⟨?_, by simp, fun _ => rfl, fun _ _ => rfl, ?_, by simp⟩
    · simp [hone, hn]
    · rw [← hmany, hnone, hn]
      simp [hnew]
  · rw [hr]
    refine ⟨?_, by simp, fun _ => rfl, fun _ _ => rfl, ?_, by simp⟩
    · simp [hone, hn]
    · rw [← hmany, hnone, hn]
      simp [hguard, hnew]
  · rw [hr]
    refine ⟨?_, fun _ => ⟨A, B, hsplit, ?_, ?_⟩, by simp, ?_, ?_, by simp⟩
    · simp [hone, hn, hguard]
    · intro A' B' hsplit'
      rw [hsplit] at hn hsplit'
      obtain ⟨rfl, rfl⟩ := split_unique hn hsplit'
      exact ⟨rfl, rfl⟩
    · exact Function.update_self e.file _ t.files
    · intro f hne
      exact Function.update_of_ne hne _ t.files
    · rw [← hmany, hnone, hn]
      simp
  · rw [hr]
    refine ⟨?_, by simp, fun _ => rfl, fun _ _ => rfl, ?_, by simp⟩
    · have hne : count e.old text ≠ 1 := by omega
      simp [hone, hne]
    · rw [← hmany]
      simp [hguard, hn]

/-- A line is put in front of another one. -/
def guardedEdit : PortEdit where
  file := "f"
  desc := "d before c"
  OLD := [99, 10]
  NEW := [100, 10, 99, 10]
  GUARD := [100]
  guard_line := by decide

theorem runEdit_edited_guarded :
    guardedEdit.old = [99] ∧
      Edited (.start fun _ => some [97, 10, 99, 10]) guardedEdit [97, 10, 99, 10]
        (runEdit "." (.start fun _ => some [97, 10, 99, 10]) guardedEdit) :=
  ⟨by decide, runEdit_edited rfl (by decide)⟩

end X00TDCellular
