import Mathlib.Algebra.Order.Floor.Div
import X00TDCellular.MsmBusVotes

/-! One request of a client: which usecase it reads, which calls of the interconnect
framework it makes, and how its bandwidths are converted. -/

namespace X00TDCellular
namespace MsmBusCompat

variable {s : MsmBusCompat} {h : MsmBusCompatHandle} {rcs : ℕ → ℤ} {cl index : UInt32}

section Usecase

/-- A call of `icc_set_bw`, for a vector of the usecase. -/
structure IccCall where
  vector : ℕ
  path : ℕ
  bw : UInt32 × UInt32
  deriving DecidableEq

/-- The calls for the vectors from `i` on. -/
def iccCalls (h : MsmBusCompatHandle) : ℕ → List MsmBusVectors → List IccCall
  | _, [] => []
  | i, v :: vs =>
    match findPath h v.src v.dst with
    | none => iccCalls h (i+1) vs
    | some p => ⟨i, p, v.kbps⟩ :: iccCalls h (i+1) vs

/-- What one call does to the votes and to the value that is returned so far. -/
def IccCall.perform (rcs : ℕ → ℤ) (done : Votes × ℤ) (c : IccCall) : Votes × ℤ :=
  let (votes, rc) := iccSetBw done.1 (some c.path) c.bw (rcs c.vector)
  (votes, if rc ≠ 0 ∧ done.2 = 0 then rc else done.2)

/-- The usecase that a request reads, `some none` where it returns before. -/
def usecaseOf (s : MsmBusCompat) (cl index : UInt32) : Option (Option MsmBusPaths) :=
  match slotOf cl with
  | none => some none
  | some slot =>
    match (s.handles slot).inUse, (s.handles slot).pdata with
    | false, _ | _, none => some none
    | true, some pdata =>
      -- the check compares as `int`, the read takes the index as it is
      if (pdata.numUsecases : ℤ) ≤ index.toInt32.toInt then some none
      else (pdata.usecase.getD [])[index.toNat]?.map some

/-- The walk over the vectors makes these calls in turn. -/
theorem updateVectors_eq_foldl (i : ℕ) (vs : List MsmBusVectors) (votes : Votes) (ret : ℤ) :
    updateVectors h rcs i vs votes ret =
      (iccCalls h i vs).foldl (IccCall.perform rcs) (votes, ret) := by
  induction vs generalizing i votes ret with
  | nil => rfl
  | cons v vs ih =>
    rw [updateVectors, iccCalls]
    cases findPath h v.src v.dst with
    | none => exact ih (i+1) votes ret
    | some p => exact ih (i+1) _ _

/-- Whatever the vectors are, the calls are for paths of the handle. -/
theorem iccCalls_path_mem (i : ℕ) (vs : List MsmBusVectors) :
    ∀ c ∈ iccCalls h i vs, c.path ∈ h.paths.filterMap MsmBusCompatPath.path := by
  induction vs generalizing i with
  | nil => exact List.forall_mem_nil _
  | cons v vs ih =>
    rw [iccCalls]
    cases hpath : findPath h v.src v.dst with
    | none => exact ih (i+1)
    | some p =>
      exact List.forall_mem_cons.mpr ⟨List.mem_filterMap.mpr (findPath_mem hpath), ih (i+1)⟩

/-- A handle that is in use and has its data. -/
def Attached (s : MsmBusCompat) (cl : UInt32) : Prop :=
  (s.client cl).inUse = true ∧ (s.client cl).pdata.isSome = true

theorem usecaseOf_unattached (index : UInt32) (hreg : ¬ s.Attached cl) :
    s.usecaseOf cl index = some none := by
  unfold usecaseOf
  unfold Attached client at hreg
  cases hslot : slotOf cl with
  | none => rfl
  | some slot =>
    rw [hslot] at hreg
    dsimp only [Option.elim] at hreg ⊢
    cases hlive : (s.handles slot).inUse with
    | false => rfl
    | true =>
      cases hpdata : (s.handles slot).pdata with
      | none => rfl
      | some pdata =>
        rw [hlive, hpdata] at hreg
        exact absurd ⟨rfl, rfl⟩ hreg

theorem usecaseOf_attached (index : UInt32) (hreg : s.Attached cl) :
    ∃ pdata, (s.client cl).pdata = some pdata ∧
      s.usecaseOf cl index =
        if (pdata.numUsecases : ℤ) ≤ index.toInt32.toInt then some none
        else (pdata.usecase.getD [])[index.toNat]?.map some := by
  obtain ⟨hlive, hpdata⟩ := hreg
  unfold client at hlive hpdata ⊢
  unfold usecaseOf
  cases hslot : slotOf cl with
  | none =>
    rw [hslot] at hlive
    cases hlive
  | some slot =>
    rw [hslot] at hlive hpdata
    dsimp only [Option.elim] at hlive hpdata ⊢
    obtain ⟨pdata, hp⟩ := Option.isSome_iff_exists.mp hpdata
    refine ⟨pdata, hp, ?_⟩
    rw [hlive, hp]

/-- A request is the choice of a usecase and the walk over its vectors. -/
theorem clientUpdateRequest_eq (s : MsmBusCompat) (cl index : UInt32) (rcs : ℕ → ℤ) :
    s.clientUpdateRequest cl index rcs = (s.usecaseOf cl index).map fun found =>
      match found with
      | none => (s, -22)
      | some uc =>
        let done := (iccCalls (s.client cl) 0 uc.vectors).foldl (IccCall.perform rcs) (s.votes, 0)
        ({ s with votes := done.1 }, done.2) := by
  simp only [← updateVectors_eq_foldl]
  unfold clientUpdateRequest usecaseOf client
  cases hslot : slotOf cl with
  | none => rfl
  | some slot =>
    dsimp only
    cases hlive : (s.handles slot).inUse with
    | false => rfl
    | true =>
      cases hpdata : (s.handles slot).pdata with
      | none => rfl
      | some pdata =>
        dsimp only
        by_cases hrange : (pdata.numUsecases : ℤ) ≤ index.toInt32.toInt
        · rw [if_pos hrange, if_pos hrange]
          rfl
        · rw [if_neg hrange, if_neg hrange, Option.map_map]
          rfl

/-- The request fails with `-EINVAL` and makes no call, or it walks over the usecase with
this index, which the table has, and calls for paths of its own handle only. -/
def InRange (s : MsmBusCompat) (cl index : UInt32) (rcs : ℕ → ℤ) : Prop :=
  (s.usecaseOf cl index = some none ∧ s.clientUpdateRequest cl index rcs = some (s, -22)) ∨
    ∃ pdata uc, (s.client cl).pdata = some pdata ∧ index.toNat < pdata.numUsecases ∧
      (pdata.usecase.getD [])[index.toNat]? = some uc ∧
      s.usecaseOf cl index = some (some uc) ∧
      (∀ c ∈ iccCalls (s.client cl) 0 uc.vectors, c.path ∈ s.pathsOf cl) ∧
      s.clientUpdateRequest cl index rcs =
        let done := (iccCalls (s.client cl) 0 uc.vectors).foldl (IccCall.perform rcs) (s.votes, 0)
        some ({ s with votes := done.1 }, done.2)

/-- As a signed number an index of the upper half is below every count. -/
theorem toInt32_neg {n : ℕ} (h : 2^31 ≤ index.toNat) :
    ¬ (n : ℤ) ≤ index.toInt32.toInt := by
  have hneg : index.toInt32.toInt < 0 := by
    have hbv : index.toInt32.toInt = index.toBitVec.toInt := rfl
    rw [hbv, BitVec.toInt_neg_iff]
    show 2^32 ≤ 2 * index.toNat
    omega
  omega

/-- In every state, a request stays in range exactly when its handle is not in use or
its index is not negative as a signed number. -/
theorem clientUpdateRequest_inRange_iff (s : MsmBusCompat) (cl index : UInt32) (rcs : ℕ → ℤ) :
    s.InRange cl index rcs ↔ ¬ (s.Attached cl ∧ 2^31 ≤ index.toNat) := by
  have heq := clientUpdateRequest_eq s cl index rcs
  by_cases hreg : s.Attached cl
  · obtain ⟨pdata, hpdata, hfound⟩ := usecaseOf_attached index hreg
    have hcount : pdata.numUsecases < 2^31 := pdata.numUsecases_lt
    by_cases hupper : 2^31 ≤ index.toNat
    · -- the check lets the index through, and the table ends before it
      have hbeyond : (pdata.usecase.getD [])[index.toNat]? = none :=
        List.getElem?_eq_none (by unfold MsmBusScalePdata.numUsecases at hcount; omega)
      rw [if_neg (toInt32_neg hupper), hbeyond] at hfound
      refine iff_of_false ?_ (not_not.mpr ⟨hreg, hupper⟩)
      rintro (⟨hnone, -⟩ | ⟨_, uc, -, -, -, hsome, -⟩)
      · rw [hfound] at hnone
        cases hnone
      · rw [hfound] at hsome
        cases hsome
    · refine iff_of_true ?_ (fun h => hupper h.2)
      rw [toInt32_of_lower (not_le.mp hupper)] at hfound
      by_cases hlt : index.toNat < pdata.numUsecases
      · have huc := List.getElem?_eq_getElem hlt
        rw [if_neg (by omega), huc] at hfound
        rw [hfound] at heq
        exact Or.inr ⟨pdata, _, hpdata, hlt, huc, hfound, iccCalls_path_mem 0 _, heq⟩
      · rw [if_pos (by omega)] at hfound
        rw [hfound] at heq
        exact Or.inl ⟨hfound, heq⟩
  · have hfound := usecaseOf_unattached index hreg
    rw [hfound] at heq
    exact iff_of_true (Or.inl ⟨hfound, heq⟩) (fun h => hreg h.1)

/-- The driver's own table has two usecases, and `-1` as an unsigned number passes the
check. -/
theorem clientUpdateRequest_beyond :
    ¬ ∀ (s : MsmBusCompat) (cl index : UInt32) (rcs : ℕ → ℤ), s.InRange cl index rcs := by
  intro h
  have hbeyond : defaultBus.usecaseOf 1 0xffffffff = none := by decide
  rcases h defaultBus 1 0xffffffff (fun _ => 0) with ⟨hnone, -⟩ | ⟨_, _, -, -, -, hsome, -⟩
  · rw [hbeyond] at hnone
    cases hnone
  · rw [hbeyond] at hsome
    cases hsome

end Usecase

end MsmBusCompat

section Conversion

/-- A bandwidth is not voted for with less, no vote is lost, and no smaller bandwidth is
voted for with more. -/
def NoUndervote (b : UInt64) : Prop :=
  b.toNat ≤ (bpsToKbps b).toNat * 1024 ∧ (bpsToKbps b = 0 → b = 0) ∧
    ∀ a ≤ b, bpsToKbps a ≤ bpsToKbps b

/-- Up to the largest number of kilobytes in 32 bits nothing wraps and nothing is cut. -/
theorem bpsToKbps_toNat {b : UInt64} (hb : b.toNat ≤ 4294967295*1024) :
    (bpsToKbps b).toNat = b.toNat ⌈/⌉ 1024 := by
  have hsum : (b + 1024 - 1).toNat = b.toNat + 1023 := by
    rw [UInt64.toNat_sub, UInt64.toNat_add]
    simp only [UInt64.reduceToNat]
    omega
  have hquot : (b.toNat + 1023)/1024 < 2^32 := by omega
  rw [Nat.ceilDiv_eq_add_pred_div]
  rw [bpsToKbps, UInt64.toNat_toUInt32, UInt64.toNat_div, hsum]
  simp only [UInt64.reduceToNat]
  exact Nat.mod_eq_of_lt hquot

/-- A bandwidth is converted without loss exactly up to 4294967295 KB/s. -/
theorem bpsToKbps_noUndervote_iff (b : UInt64) :
    NoUndervote b ↔ b.toNat ≤ 4294967295*1024 := by
  constructor
  -- whatever is cut off, 32 bits do not cover more
  · rintro ⟨hcover, -, -⟩
    have hcut : (bpsToKbps b).toNat ≤ 4294967295 := Nat.le_of_lt_succ (bpsToKbps b).toNat_lt
    calc b.toNat
        ≤ (bpsToKbps b).toNat * 1024 := hcover
      _ ≤ 4294967295*1024 := Nat.mul_le_mul_right 1024 hcut
  · intro hb
    have hkbps := bpsToKbps_toNat hb
    have hcover : b.toNat ≤ 1024 * (b.toNat ⌈/⌉ 1024) :=
      le_smul_ceilDiv (Nat.succ_pos 1023)
    refine ⟨?_, ?_, ?_⟩
    · rw [hkbps, Nat.mul_comm]
      exact hcover
    -- what covers `b` is 0 only if `b` is
    · intro hzero
      rw [← hkbps, hzero] at hcover
      exact UInt64.toNat_inj.mp (Nat.le_zero.mp hcover)
    · intro a hab
      have ha : a.toNat ≤ b.toNat := hab
      show (bpsToKbps a).toNat ≤ (bpsToKbps b).toNat
      rw [hkbps, bpsToKbps_toNat (ha.trans hb)]
      exact (gc_mul_ceilDiv (Nat.succ_pos 1023)).monotone_l ha

/-- 2^42 B/s are converted to 0. -/
theorem bpsToKbps_undervote : ¬ ∀ b, NoUndervote b := by
  intro h
  have hcover := (h 0x40000000000).1
  exact absurd hcover (by decide)

end Conversion

end X00TDCellular
