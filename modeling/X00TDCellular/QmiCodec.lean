import Mathlib.Data.Nat.Bitwise
import Mathlib.Tactic.Linarith
import X00TDCellular.Buffer
import X00TDCellular.RecordFormat

/-! The QMI message codec of `vendor-init/qmi.c`, over byte arrays of fixed
extent. `none` is an access outside the array. -/

namespace X00TDCellular
open Buffer RecordFormat

def qmiFlagReq : UInt8 := 0x00

/-- `v & 0xff` and `(v >> 8) & 0xff`. -/
def byte0 (v : UInt16) : UInt8 := (v &&& 0xff).toUInt8

def byte1 (v : UInt16) : UInt8 := ((v >>> 8) &&& 0xff).toUInt8

def qmiHdrReq (b : List UInt8) (txid msgId bodyLen : UInt16) :
    Option (List UInt8 × ℕ) := do
  let b ← poke b 0 qmiFlagReq
  let b ← poke b 1 (byte0 txid)
  let b ← poke b 2 (byte1 txid)
  let b ← poke b 3 (byte0 msgId)
  let b ← poke b 4 (byte1 msgId)
  let b ← poke b 5 (byte0 bodyLen)
  let b ← poke b 6 (byte1 bodyLen)
  return (b, 7)

def qmiTlvBytes (b : List UInt8) (off : ℕ) (type : UInt8) (data : List UInt8)
    (len : UInt16) : Option (List UInt8 × ℕ) := do
  let b ← poke b off type
  let b ← poke b (off+1) (byte0 len)
  let b ← poke b (off+2) (byte1 len)
  let b ← (if len ≠ 0 then memcpy b (off+3) data len.toNat else some b)
  return (b, off + 3 + len.toNat)

def qmiTlvU8 (b : List UInt8) (off : ℕ) (type v : UInt8) :
    Option (List UInt8 × ℕ) :=
  qmiTlvBytes b off type [v] 1

def qmiTlvU16 (b : List UInt8) (off : ℕ) (type : UInt8) (v : UInt16) :
    Option (List UInt8 × ℕ) :=
  qmiTlvBytes b off type [byte0 v, byte1 v] 2

/-- The four bytes of `v`, least significant first. -/
def le32 (v : UInt32) : List UInt8 :=
  [(v &&& 0xff).toUInt8, ((v >>> 8) &&& 0xff).toUInt8,
    ((v >>> 16) &&& 0xff).toUInt8, ((v >>> 24) &&& 0xff).toUInt8]

def qmiTlvU32 (b : List UInt8) (off : ℕ) (type : UInt8) (v : UInt32) :
    Option (List UInt8 × ℕ) :=
  qmiTlvBytes b off type (le32 v) 4

/-- `p[i] | (p[i + 1] << 8)` as a `uint16_t`. -/
def getLe16 (lo hi : UInt8) : UInt16 := lo.toUInt16 ||| (hi.toUInt16 <<< 8)

/-- The loop of `qmi_tlv_find` from offset `i` on. The inner result is `none`
for the return value 0, else the offset and the length that are stored. -/
def qmiTlvFindFrom (p : List UInt8) (n : ℕ) (type : UInt8) (i : ℕ) :
    Option (Option (ℕ × ℕ)) :=
  if i + 3 ≤ n then do
    let t ← p[i]?
    let lo ← p[i+1]?
    let hi ← p[i+2]?
    let l := (getLe16 lo hi).toNat
    if i + 3 + l > n then some none
    else if t = type then some (some (i+3, l))
    else qmiTlvFindFrom p n type (i + 3 + l)
  else some none
termination_by n - i

def qmiTlvFind (p : List UInt8) (n : ℕ) (type : UInt8) :
    Option (Option (ℕ × ℕ)) :=
  qmiTlvFindFrom p n type 7

/-- The error code of the result TLV, or -1. -/
def qmiResult (p : List UInt8) (n : ℕ) : Option ℤ := do
  match ← qmiTlvFind p n 0x02 with
  | none => return -1
  | some (off, len) =>
    if len < 4 then return -1
    else
      let lo ← p[off+2]?
      let hi ← p[off+3]?
      return (getLe16 lo hi).toNat

def getLe32 (b0 b1 b2 b3 : UInt8) : UInt32 :=
  b0.toUInt32 ||| (b1.toUInt32 <<< 8) ||| (b2.toUInt32 <<< 16) |||
    (b3.toUInt32 <<< 24)

/-- The inner result is `none` for the return value 0. -/
def qmiTlvGetU32 (p : List UInt8) (n : ℕ) (type : UInt8) :
    Option (Option UInt32) := do
  match ← qmiTlvFind p n type with
  | none => return none
  | some (off, len) =>
    if len < 4 then return none
    else
      let b0 ← p[off]?
      let b1 ← p[off+1]?
      let b2 ← p[off+2]?
      let b3 ← p[off+3]?
      return some (getLe32 b0 b1 b2 b3)

theorem and_255 (x : ℕ) : x &&& 255 = x % 256 :=
  Nat.and_two_pow_sub_one_eq_mod x 8

/-- Joining a high part to a low part that fits under it is an addition. -/
theorem or_shiftLeft {lo k : ℕ} (hi : ℕ) (h : lo < 2^k) :
    lo ||| (hi <<< k) = lo + 2^k*hi := by
  have hadd := Nat.shiftLeft_add_eq_or_of_lt h hi
  rw [Nat.or_comm, ← hadd, Nat.shiftLeft_eq, Nat.mul_comm, Nat.add_comm]

theorem toNat_byte0 (v : UInt16) : (byte0 v).toNat = v.toNat % 256 := by
  simp [byte0, and_255]

theorem toNat_byte1 (v : UInt16) : (byte1 v).toNat = v.toNat / 256 := by
  have hlt : v.toNat < 65536 := v.toNat_lt
  have hbyte : v.toNat / 256 < 256 := by omega
  simp [byte1, and_255, Nat.shiftRight_eq_div_pow, Nat.mod_eq_of_lt hbyte]

theorem toNat_getLe16 (lo hi : UInt8) :
    (getLe16 lo hi).toNat = lo.toNat + 256*hi.toNat := by
  have hlo : lo.toNat < 2^8 := lo.toNat_lt
  have hhi : hi.toNat < 256 := hi.toNat_lt
  have hshift : hi.toNat <<< 8 < 65536 := by
    rw [Nat.shiftLeft_eq]
    omega
  have hor := or_shiftLeft hi.toNat hlo
  simp [getLe16, Nat.mod_eq_of_lt hshift, hor]

theorem toNat_getLe32 (b0 b1 b2 b3 : UInt8) :
    (getLe32 b0 b1 b2 b3).toNat =
      b0.toNat + 2^8*b1.toNat + 2^16*b2.toNat + 2^24*b3.toNat := by
  have h0 : b0.toNat < 2^8 := b0.toNat_lt
  have h1 : b1.toNat < 2^8 := b1.toNat_lt
  have h2 : b2.toNat < 2^8 := b2.toNat_lt
  have h3 : b3.toNat < 2^8 := b3.toNat_lt
  have hs1 : b1.toNat <<< 8 < 4294967296 := by rw [Nat.shiftLeft_eq]; omega
  have hs2 : b2.toNat <<< 16 < 4294967296 := by rw [Nat.shiftLeft_eq]; omega
  have hs3 : b3.toNat <<< 24 < 4294967296 := by rw [Nat.shiftLeft_eq]; omega
  have hor1 := or_shiftLeft b1.toNat h0
  have hlow2 : b0.toNat + 2^8*b1.toNat < 2^16 := by omega
  have hlow3 : b0.toNat + 2^8*b1.toNat + 2^16*b2.toNat < 2^24 := by omega
  have hor2 := or_shiftLeft b2.toNat hlow2
  have hor3 := or_shiftLeft b3.toNat hlow3
  simp only [getLe32, UInt32.toNat_or, UInt8.toNat_toUInt32, UInt32.toNat_shiftLeft]
  simp only [UInt32.reduceToNat, Nat.reduceMod, Nat.reducePow,
    Nat.mod_eq_of_lt hs1, Nat.mod_eq_of_lt hs2, Nat.mod_eq_of_lt hs3] at *
  rw [hor1, hor2, hor3]

/-- The four bytes that `le32` lists are read back as `v`. -/
theorem getLe32_le32 (v : UInt32) :
    ∃ b0 b1 b2 b3, le32 v = [b0,b1,b2,b3] ∧ getLe32 b0 b1 b2 b3 = v := by
  refine ⟨_, _, _, _, rfl, ?_⟩
  have hlt : v.toNat < 4294967296 := v.toNat_lt
  apply UInt32.toNat_inj.mp
  rw [toNat_getLe32]
  simp [and_255, Nat.shiftRight_eq_div_pow]
  omega

end X00TDCellular
