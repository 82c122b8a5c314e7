import Mathlib.Data.Nat.Notation
import Mathlib.Tactic.Common

/-! Address prefixes: bit vectors that agree in their leading bits, and the masked
comparison that tests it. -/

namespace AddressPrefix

variable {v w : ℕ}

/-- The leading `len` bits of `addr` are those of `net`. -/
def InPrefix (len : ℕ) (net addr : BitVec w) : Prop :=
  ∀ i < len, addr.getMsbD i = net.getMsbD i

instance (len : ℕ) (net addr : BitVec w) : Decidable (InPrefix len net addr) :=
  inferInstanceAs (Decidable (∀ i < len, _))

def prefixMask (w len : ℕ) : BitVec w := BitVec.allOnes w <<< (w-len)

theorem getMsbD_prefixMask {i len : ℕ} (hi : i < w) (hlen : len ≤ w) :
    (prefixMask w len).getMsbD i = decide (i < len) := by
  rw [prefixMask, BitVec.getMsbD_eq_getLsbD, BitVec.getLsbD_shiftLeft, BitVec.getLsbD_allOnes]
  simp only [hi, decide_true, Bool.true_and]
  by_cases hlt : i < len
  · have hbit : w-1-i < w ∧ ¬ w-1-i < w-len ∧ w-1-i-(w-len) < w := by omega
    simp [hbit, hlt]
  · have hlow : w-1-i < w-len := by omega
    simp [hlow, hlt]

/-- Masking with a prefix mask and comparing with a network address, whose host bits
are zero, tests the prefix. -/
theorem and_prefixMask_eq_iff {len : ℕ} {net : BitVec w} (hlen : len ≤ w)
    (hnet : net &&& prefixMask w len = net) (addr : BitVec w) :
    addr &&& prefixMask w len = net ↔ InPrefix len net addr := by
  constructor
  · intro h i hi
    have hbit : (addr &&& prefixMask w len).getMsbD i = net.getMsbD i := by rw [h]
    rw [BitVec.getMsbD_and, getMsbD_prefixMask (by omega) hlen, decide_eq_true hi,
      Bool.and_true] at hbit
    exact hbit
  · intro h
    rw [← hnet]
    apply BitVec.eq_of_getMsbD_eq
    intro i hi
    rw [BitVec.getMsbD_and, BitVec.getMsbD_and, getMsbD_prefixMask hi hlen]
    by_cases hlt : i < len
    · rw [h i hlt]
    · rw [decide_eq_false hlt, Bool.and_false, Bool.and_false]

/-- A prefix that ends within the front part of an address is a prefix of that part. -/
theorem inPrefix_append_iff {len : ℕ} (hlen : len ≤ v) (netHi hi : BitVec v)
    (netLo lo : BitVec w) :
    InPrefix len (netHi ++ netLo) (hi ++ lo) ↔ InPrefix len netHi hi := by
  constructor
  · intro h i hi'
    have hbit := h i hi'
    rw [BitVec.getMsbD_append, BitVec.getMsbD_append] at hbit
    have hin : ¬ v ≤ i := by omega
    simpa [hin] using hbit
  · intro h i hi'
    have hin : ¬ v ≤ i := by omega
    rw [BitVec.getMsbD_append, BitVec.getMsbD_append]
    simpa [hin] using h i hi'

end AddressPrefix
