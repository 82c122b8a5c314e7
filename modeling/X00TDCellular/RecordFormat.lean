import Mathlib.Data.List.Basic
import Mathlib.Order.Basic
import Mathlib.Tactic.Common

/-! A stream of records, each a fixed-width header that names a tag and a
value length, followed by the value. -/

/-- A header codec for tagged, length-prefixed records over cells `β`. -/
structure RecordFormat (β τ : Type*) where
  width : ℕ
  cap : ℕ
  header : τ → ℕ → List β
  fields : List β → τ × ℕ
  width_pos : 0 < width
  header_length : ∀ t n, (header t n).length = width
  fields_header : ∀ t n, n < cap → fields (header t n) = (t,n)
  fields_lt : ∀ s, s.length = width → (fields s).2 < cap
  header_fields : ∀ s, s.length = width → header (fields s).1 (fields s).2 = s

namespace RecordFormat

variable {β τ : Type*} (F : RecordFormat β τ)

/-- One record; its value fits the length field. -/
structure Record where
  tag : τ
  value : List β
  value_lt : value.length < F.cap

variable {F}

def Record.encode (x : F.Record) : List β :=
  F.header x.tag x.value.length ++ x.value

@[simp] theorem Record.length_encode (x : F.Record) :
    x.encode.length = F.width + x.value.length := by
  simp [Record.encode, F.header_length]

variable (F) in
/-- The records one after the other. -/
def encode (xs : List F.Record) : List β :=
  xs.flatMap Record.encode

@[simp] theorem encode_nil : F.encode [] = [] := rfl

@[simp] theorem encode_cons (x : F.Record) (xs : List F.Record) :
    F.encode (x :: xs) = x.encode ++ F.encode xs := rfl

@[simp] theorem encode_append (xs ys : List F.Record) :
    F.encode (xs ++ ys) = F.encode xs ++ F.encode ys := by
  simp [encode]

variable (F) in
/-- The record at the front, and what follows it. There is none when the header
or the value it announces would run past the end. -/
def next (s : List β) : Option (F.Record × List β) :=
  if hw : F.width ≤ s.length then
    let f := F.fields (s.take F.width)
    if F.width + f.2 ≤ s.length then
      some (⟨f.1, (s.drop F.width).take f.2,
        Nat.lt_of_le_of_lt (List.length_take_le _ _)
          (F.fields_lt _ (List.length_take_of_le hw))⟩, s.drop (F.width + f.2))
    else none
  else none

/-- `next` reads back the record that was written in front. -/
@[simp] theorem next_encode_append (x : F.Record) (s : List β) :
    F.next (x.encode ++ s) = some (x, s) := by
  have hhead : (x.encode ++ s).take F.width = F.header x.tag x.value.length := by
    rw [Record.encode, List.append_assoc]
    exact List.take_left' (F.header_length _ _)
  have htail : (x.encode ++ s).drop F.width = x.value ++ s := by
    rw [Record.encode, List.append_assoc]
    exact List.drop_left' (F.header_length _ _)
  have hfields : F.fields ((x.encode ++ s).take F.width) = (x.tag, x.value.length) := by
    rw [hhead, F.fields_header _ _ x.value_lt]
  have hrest : (x.encode ++ s).drop (F.width + x.value.length) = s :=
    List.drop_left' (Record.length_encode x)
  have hw : F.width ≤ (x.encode ++ s).length := by simp; omega
  have hv : F.width + x.value.length ≤ (x.encode ++ s).length := by simp
  simp only [next, hw, dite_true, hfields, hv, if_true, htail, hrest,
    List.take_left]

/-- What `next` splits off is the encoding of the record. -/
theorem eq_of_next_eq_some {s rest : List β} {x : F.Record}
    (h : F.next s = some (x, rest)) : s = x.encode ++ rest := by
  unfold next at h
  split at h
  · rename_i hw
    dsimp only at h
    split at h
    · rename_i hv
      cases h
      have hlen : ((s.drop F.width).take (F.fields (s.take F.width)).2).length =
          (F.fields (s.take F.width)).2 := by
        rw [List.length_take, List.length_drop]
        omega
      rw [Record.encode, hlen, F.header_fields _ (List.length_take_of_le hw),
        List.append_assoc, ← List.drop_drop, List.take_append_drop,
        List.take_append_drop]
    · cases h
  · cases h

theorem length_lt_of_next {s rest : List β} {x : F.Record}
    (h : F.next s = some (x, rest)) : rest.length < s.length := by
  have hw := F.width_pos
  rw [eq_of_next_eq_some h, List.length_append, Record.length_encode]
  omega

variable (F) in
/-- The records of the longest prefix that is a sequence of whole records. -/
def decode (s : List β) : List F.Record :=
  match _h : F.next s with
  | none => []
  | some (x, rest) => x :: decode rest
termination_by s.length
decreasing_by exact length_lt_of_next _h

theorem decode_of_next_none {s : List β} (h : F.next s = none) :
    F.decode s = [] := by
  rw [decode]
  split
  · rfl
  · simp_all

theorem decode_of_next_some {s rest : List β} {x : F.Record}
    (h : F.next s = some (x, rest)) : F.decode s = x :: F.decode rest := by
  rw [decode]
  split
  · simp_all
  · rename_i y rest' hy
    rw [h] at hy
    cases hy
    rfl

theorem next_nil : F.next [] = none := by
  have hw := F.width_pos
  have hshort : ¬ F.width ≤ ([] : List β).length := by
    rw [List.length_nil]
    omega
  rw [next, dif_neg hshort]

@[simp] theorem decode_nil : F.decode [] = [] :=
  decode_of_next_none next_nil

/-- Decoding takes the written records off the front, whatever follows. -/
@[simp] theorem decode_encode_append (xs : List F.Record) (s : List β) :
    F.decode (F.encode xs ++ s) = xs ++ F.decode s := by
  induction xs with
  | nil => simp
  | cons x xs ih =>
    rw [encode_cons, List.append_assoc,
      decode_of_next_some (next_encode_append x (F.encode xs ++ s)), ih,
      List.cons_append]

theorem decode_encode (xs : List F.Record) : F.decode (F.encode xs) = xs := by
  simpa using decode_encode_append xs []

variable (F) in
/-- `xs` are the records of the longest prefix of `s` that is a sequence of whole
records. -/
structure Longest (s : List β) (xs : List F.Record) : Prop where
  whole : F.encode xs <+: s
  longest : ∀ ys, F.encode ys <+: s → ys <+: xs

theorem encode_decode_isPrefix (s : List β) : F.encode (F.decode s) <+: s := by
  induction hm : s.length using Nat.strongRecOn generalizing s with
  | ind m ih =>
    subst hm
    cases hnext : F.next s with
    | none =>
      rw [decode_of_next_none hnext]
      exact List.nil_prefix
    | some xr =>
      obtain ⟨x, rest⟩ := xr
      have hrest : F.encode (F.decode rest) <+: rest :=
        ih rest.length (length_lt_of_next hnext) rest rfl
      rw [decode_of_next_some hnext, encode_cons, eq_of_next_eq_some hnext]
      exact (List.prefix_append_right_inj _).mpr hrest

theorem longest_decode (s : List β) : F.Longest s (F.decode s) where
  whole := encode_decode_isPrefix s
  longest ys h := by
    obtain ⟨rest, rfl⟩ := h
    rw [decode_encode_append]
    exact List.prefix_append ys _

section Locate

variable [DecidableEq τ]

/-- Where the value of the first record tagged `t` lies, for records written
from offset `off` on. -/
def locate (t : τ) : List F.Record → ℕ → Option (ℕ × ℕ)
  | [], _ => none
  | x :: xs, off =>
    if x.tag = t then some (off + F.width, x.value.length)
    else locate t xs (off + F.width + x.value.length)

theorem locate_eq_none {t : τ} {xs : List F.Record} {off : ℕ} :
    locate t xs off = none ↔ ∀ x ∈ xs, x.tag ≠ t := by
  induction xs generalizing off with
  | nil => simp [locate]
  | cons x xs ih =>
    by_cases hx : x.tag = t
    · simp [locate, hx]
    · simp [locate, hx, ih]

/-- The first record with the tag sits behind the encoding of the records that
precede it. -/
theorem locate_append_cons {t : τ} {pre post : List F.Record} {x : F.Record}
    {off : ℕ} (hpre : ∀ y ∈ pre, y.tag ≠ t) (hx : x.tag = t) :
    locate t (pre ++ x :: post) off =
      some (off + (F.encode pre).length + F.width, x.value.length) := by
  induction pre generalizing off with
  | nil => simp [locate, hx]
  | cons y pre ih =>
    have hy : y.tag ≠ t := hpre y (by simp)
    have hrest : ∀ z ∈ pre, z.tag ≠ t := fun z hz => hpre z (by simp [hz])
    rw [List.cons_append, locate, if_neg hy, ih hrest]
    simp only [encode_cons, List.length_append, Record.length_encode]
    congr 2
    omega

theorem locate_eq_some {t : τ} {xs : List F.Record} {off o l : ℕ}
    (h : locate t xs off = some (o, l)) :
    ∃ pre x post, xs = pre ++ x :: post ∧ (∀ y ∈ pre, y.tag ≠ t) ∧ x.tag = t ∧
      o = off + (F.encode pre).length + F.width ∧ l = x.value.length := by
  induction xs generalizing off with
  | nil => simp [locate] at h
  | cons x xs ih =>
    rw [locate] at h
    split at h
    · rename_i hx
      cases h
      exact ⟨[], x, xs, rfl, by simp, hx, rfl, rfl⟩
    · rename_i hx
      obtain ⟨pre, y, post, rfl, hpre, hy, ho, hl⟩ := ih h
      refine ⟨x :: pre, y, post, rfl, List.forall_mem_cons.mpr ⟨hx, hpre⟩, hy, ?_, hl⟩
      rw [ho, encode_cons, List.length_append, Record.length_encode]
      omega

end Locate

end RecordFormat
