import Mathlib.Data.List.Basic
import Mathlib.Order.Basic
import Mathlib.Tactic.Common

namespace Buffer

variable {α : Type*}

/-- Store one cell of an array of fixed extent. A store past the end has no
result. -/
def poke (b : List α) (i : ℕ) (v : α) : Option (List α) :=
  if i < b.length then some (b.set i v) else none

/-- Store consecutive cells, the first one at `off`. -/
def pokes (b : List α) (off : ℕ) : List α → Option (List α)
  | [] => some b
  | v :: vs => (poke b off v).bind fun b' => pokes b' (off+1) vs

/-- Copy `len` cells of `src`, which must have that many. -/
def memcpy (b : List α) (off : ℕ) (src : List α) (len : ℕ) : Option (List α) :=
  if len ≤ src.length then pokes b off (src.take len) else none

/-- Writing the cell behind a known front part. -/
@[simp] theorem poke_append (front rest : List α) (c v : α) :
    poke (front ++ c :: rest) front.length v = some (front ++ v :: rest) := by
  simp [poke]

/-- Consecutive writes behind a known front part replace as many cells of the
rest and leave the others alone. -/
theorem pokes_append (front rest vs : List α) (h : vs.length ≤ rest.length) :
    pokes (front ++ rest) front.length vs =
      some (front ++ vs ++ rest.drop vs.length) := by
  induction vs generalizing front rest with
  | nil => simp [pokes]
  | cons v vs ih =>
    cases rest with
    | nil => simp at h
    | cons c rest =>
      have hrest : vs.length ≤ rest.length := by simpa using h
      have hnext := ih (front ++ [v]) rest hrest
      simp only [List.append_assoc, List.cons_append, List.nil_append,
        List.length_append, List.length_cons, List.length_nil] at hnext
      simp only [pokes, poke_append, Option.bind_some, List.append_assoc,
        List.cons_append, List.length_cons, List.drop_succ_cons]
      exact hnext

/-- What is stored lies inside the array, whose extent stays. -/
theorem length_of_poke {b b' : List α} {i : ℕ} {v : α} (h : poke b i v = some b') :
    i < b.length ∧ b'.length = b.length := by
  unfold poke at h
  split at h
  · rename_i hi
    cases h
    exact ⟨hi, List.length_set⟩
  · cases h

theorem length_of_pokes {b b' vs : List α} {off : ℕ} (h : pokes b off vs = some b') :
    (vs ≠ [] → off + vs.length ≤ b.length) ∧ b'.length = b.length := by
  induction vs generalizing b off with
  | nil =>
    cases h
    exact ⟨fun hne => absurd rfl hne, rfl⟩
  | cons v vs ih =>
    obtain ⟨b₁, hfirst, hrest⟩ := Option.bind_eq_some_iff.mp h
    obtain ⟨hoff, hlen₁⟩ := length_of_poke hfirst
    obtain ⟨hend, hlen⟩ := ih hrest
    refine ⟨fun _ => ?_, hlen.trans hlen₁⟩
    cases vs with
    | nil => exact hoff
    | cons w ws =>
      have hin := hend (List.cons_ne_nil w ws)
      rw [hlen₁] at hin
      rw [List.length_cons]
      omega

/-- A slice that starts behind a known front part. -/
theorem slice_append (front mid rest : List α) :
    ((front ++ mid ++ rest).drop front.length).take mid.length = mid := by
  simp

/-- The cells of a slice are cells of the array. -/
theorem getElem?_of_slice {b vs : List α} {o i : ℕ}
    (h : (b.drop o).take vs.length = vs) (hi : i < vs.length) :
    b[o+i]? = vs[i]? := by
  have htake : ((b.drop o).take vs.length)[i]? = (b.drop o)[i]? :=
    List.getElem?_take_of_lt hi
  rw [h, List.getElem?_drop] at htake
  exact htake.symm

end Buffer
