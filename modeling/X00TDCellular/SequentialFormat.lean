import Mathlib.Data.List.Infix
import Mathlib.Tactic.Common

/-! Formats for values that are written one after the other: what is written for a
value, and what reads it back in front of anything else. -/

/-- `Ok` are the values that the format can carry. -/
structure SequentialFormat (β α : Type*) where
  Ok : α → Prop
  write : α → List β
  read : List β → Option (α × List β)
  read_write : ∀ a rest, Ok a → read (write a ++ rest) = some (a, rest)

namespace SequentialFormat

variable {α β γ : Type*}

/-- The next `n` cells. -/
def take (n : ℕ) (s : List β) : Option (List β × List β) :=
  if n ≤ s.length then some (s.take n, s.drop n) else none

theorem take_append {n : ℕ} {a : List β} (h : a.length = n) (rest : List β) :
    take n (a ++ rest) = some (a, rest) := by
  have hle : n ≤ (a ++ rest).length := by
    rw [List.length_append]
    omega
  rw [take, if_pos hle, ← h, List.take_left, List.drop_left]

/-- As many cells as given, whatever they are. -/
def cells (n : ℕ) : SequentialFormat β (List β) where
  Ok a := a.length = n
  write a := a
  read := take n
  read_write _ rest h := take_append h rest

/-- A value of fixed width, from a coding of it that loses nothing. -/
def fixed (n : ℕ) (enc : α → List β) (dec : List β → α) (hlen : ∀ a, (enc a).length = n)
    (hdec : ∀ a, dec (enc a) = a) : SequentialFormat β α where
  Ok _ := True
  write := enc
  read s := (take n s).map fun r => (dec r.1, r.2)
  read_write a rest _ := by
    rw [take_append (hlen a), Option.map_some, hdec]

/-- Two values, where the format of the second one depends on the first. -/
def dep (F : SequentialFormat β α) (G : α → SequentialFormat β γ) :
    SequentialFormat β (α × γ) where
  Ok x := F.Ok x.1 ∧ (G x.1).Ok x.2
  write x := F.write x.1 ++ (G x.1).write x.2
  read s := (F.read s).bind fun x => ((G x.1).read x.2).map fun y => ((x.1, y.1), y.2)
  read_write x rest h := by
    rw [List.append_assoc, F.read_write _ _ h.1, Option.bind_some, (G x.1).read_write _ _ h.2,
      Option.map_some]

def pair (F : SequentialFormat β α) (G : SequentialFormat β γ) : SequentialFormat β (α × γ) :=
  F.dep fun _ => G

/-- The same cells for the values of another type, as far as they survive the way there
and back. -/
def via (F : SequentialFormat β α) (f : α → γ) (g : γ → α) : SequentialFormat β γ where
  Ok c := F.Ok (g c) ∧ f (g c) = c
  write c := F.write (g c)
  read s := (F.read s).map fun x => (f x.1, x.2)
  read_write c rest h := by
    rw [F.read_write _ _ h.1, Option.map_some, h.2]

/-- A value that stands there only if the reader knows it does. -/
def opt (F : SequentialFormat β α) (present : Bool) : SequentialFormat β (Option α) where
  Ok x := x.isSome = present ∧ ∀ a ∈ x, F.Ok a
  write x := x.elim [] F.write
  read s := if present then (F.read s).map fun x => (some x.1, x.2) else some (none, s)
  read_write x rest h := by
    obtain ⟨rfl, hok⟩ := h
    cases x with
    | none => rfl
    | some a =>
      rw [Option.isSome_some, if_pos rfl, Option.elim_some, F.read_write _ _ (hok a rfl),
        Option.map_some]

/-- The number of cells from `n` to the next multiple of `k`. -/
def gap (k n : ℕ) : ℕ := (k - n % k) % k

theorem dvd_add_gap {k : ℕ} (hk : 0 < k) (n : ℕ) : k ∣ n + gap k n := by
  have hlt : n % k < k := Nat.mod_lt n hk
  have hsplit : n = k*(n/k) + n % k := (Nat.div_add_mod n k).symm
  by_cases h : n % k = 0
  · rw [gap, h, Nat.sub_zero, Nat.mod_self, Nat.add_zero]
    exact Nat.dvd_of_mod_eq_zero h
  · have hgap : gap k n = k - n % k := Nat.mod_eq_of_lt (by omega)
    refine ⟨n/k + 1, ?_⟩
    rw [hgap, Nat.mul_add, Nat.mul_one]
    omega

/-- Filled up to a multiple of `k` cells; the reader does not look at the filling. -/
def padded (F : SequentialFormat β α) (k : ℕ) (fill : β) : SequentialFormat β α where
  Ok := F.Ok
  write a := F.write a ++ List.replicate (gap k (F.write a).length) fill
  read s := (F.read s).map fun x => (x.1, x.2.drop (gap k (s.length - x.2.length)))
  read_write a rest h := by
    rw [List.append_assoc, F.read_write _ _ h, Option.map_some]
    have hused : (F.write a ++ (List.replicate (gap k (F.write a).length) fill ++ rest)).length -
        (List.replicate (gap k (F.write a).length) fill ++ rest).length =
        (F.write a).length := by
      rw [List.length_append, Nat.add_sub_cancel]
    rw [hused, List.drop_left' List.length_replicate]

theorem length_padded (F : SequentialFormat β α) (k : ℕ) (fill : β) (a : α) :
    ((F.padded k fill).write a).length = (F.write a).length + gap k (F.write a).length := by
  rw [padded, List.length_append, List.length_replicate]

theorem dvd_length_padded (F : SequentialFormat β α) {k : ℕ} (hk : 0 < k) (fill : β) (a : α) :
    k ∣ ((F.padded k fill).write a).length := by
  rw [length_padded]
  exact dvd_add_gap hk _

section Sequence

variable (F : SequentialFormat β α)

def writeUntil (mark : List β) (as : List α) : List β := as.flatMap F.write ++ mark

/-- A value that cannot be taken for the mark. -/
def Unmarked (mark : List β) (a : α) : Prop :=
  F.Ok a ∧ mark.length ≤ (F.write a).length ∧ ¬ mark <+: F.write a

variable {F} in
theorem Unmarked.not_isPrefix {mark : List β} {a : α} (h : F.Unmarked mark a)
    (rest : List β) : ¬ mark <+: F.write a ++ rest := fun hmark =>
  h.2.2 (List.prefix_of_prefix_length_le hmark (List.prefix_append _ _) h.2.1)

variable [DecidableEq β]

/-- Values up to the mark that ends them; the reader gives up after `fuel` of them. -/
def readUntil (mark : List β) : ℕ → List β → Option (List α × List β)
  | 0, _ => none
  | fuel+1, s =>
    if mark <+: s then some ([], s.drop mark.length)
    else (F.read s).bind fun x => (readUntil mark fuel x.2).map fun y => (x.1 :: y.1, y.2)

/-- Every value is read back, and nothing behind the mark is looked at. -/
theorem readUntil_writeUntil {mark : List β} {as : List α} (h : ∀ a ∈ as, F.Unmarked mark a)
    {fuel : ℕ} (hfuel : as.length < fuel) (rest : List β) :
    F.readUntil mark fuel (F.writeUntil mark as ++ rest) = some (as, rest) := by
  induction as generalizing fuel with
  | nil =>
    obtain ⟨n, rfl⟩ : ∃ n, fuel = n+1 := ⟨fuel-1, by rw [List.length_nil] at hfuel; omega⟩
    rw [readUntil, writeUntil, List.flatMap_nil, List.nil_append,
      if_pos (List.prefix_append _ _), List.drop_left]
  | cons a as ih =>
    obtain ⟨n, rfl⟩ : ∃ n, fuel = n+1 := ⟨fuel-1, by rw [List.length_cons] at hfuel; omega⟩
    have ha := h a List.mem_cons_self
    have hrest := ih (fun b hb => h b (List.mem_cons_of_mem a hb)) (Nat.lt_of_succ_lt_succ hfuel)
    have hsplit : F.writeUntil mark (a :: as) ++ rest =
        F.write a ++ (F.writeUntil mark as ++ rest) := by
      simp only [writeUntil, List.flatMap_cons, List.append_assoc]
    rw [hsplit, readUntil, if_neg (ha.not_isPrefix _), F.read_write _ _ ha.1, Option.bind_some,
      hrest, Option.map_some]

end Sequence

end SequentialFormat
