import Mathlib.Data.List.Perm.Subperm
import X00TDCellular.MsmBus
import X00TDCellular.NullableTable
import X00TDCellular.Transition

/-! The handle table under any sequence of calls: which handles are live, and what the slots
in use hold. -/

namespace X00TDCellular
open NullableTable Transition

def MsmBusCompatPath.entry (p : MsmBusCompatPath) : (ℤ × ℤ) × Option ℕ := ((p.src, p.dst), p.path)

namespace MsmBusCompatHandle

/-- The paths of a handle, by their pairs. -/
def table (h : MsmBusCompatHandle) : List ((ℤ × ℤ) × Option ℕ) :=
  h.paths.map MsmBusCompatPath.entry

/-- The pairs of a handle, in their order. -/
def pairs (h : MsmBusCompatHandle) : List (ℤ × ℤ) := h.paths.map fun p => (p.src, p.dst)

theorem keys_table (h : MsmBusCompatHandle) : keys h.table = h.pairs := List.map_map

theorem length_table (h : MsmBusCompatHandle) : h.table.length = h.numPaths := List.length_map _

theorem findPath_eq (h : MsmBusCompatHandle) (src dst : ℤ) :
    findPath h src dst = lookup h.table (src, dst) := by
  unfold findPath lookup table
  induction h.paths with
  | nil => rfl
  | cons p ps ih =>
    by_cases hp : p.src = src ∧ p.dst = dst
    · have hentry : p.entry.1 = (src, dst) := Prod.ext hp.1 hp.2
      rw [List.map_cons, List.find?_cons_of_pos (by simpa using hp),
        List.find?_cons_of_pos (by simpa using hentry)]
      rfl
    · have hentry : ¬ p.entry.1 = (src, dst) := by
        intro h
        exact hp ⟨congrArg Prod.fst h, congrArg Prod.snd h⟩
      rw [List.map_cons, List.find?_cons_of_neg (by simpa using hp),
        List.find?_cons_of_neg (by simpa using hentry)]
      exact ih

end MsmBusCompatHandle

/-- The pairs with a name. -/
def mappedPairs : List (ℤ × ℤ) :=
  [(msmBusMasterIpa, msmBusSlaveEbiCh0), (msmBusMasterIpa, msmBusSlaveOcimem),
    (msmBusMasterBamDma, msmBusSlaveEbiCh0), (msmBusMasterBamDma, msmBusSlaveOcimem)]

theorem mapSrcDstToIccName_isSome {src dst : ℤ} :
    (mapSrcDstToIccName src dst).isSome = true ↔ (src, dst) ∈ mappedPairs := by
  unfold mapSrcDstToIccName
  simp only [mappedPairs, List.mem_cons, List.not_mem_nil, or_false, Prod.mk.injEq]
  split
  · simp [*]
  split
  · simp [*]
  split
  · simp [*]
  split
  · simp [*]
  · simp [*]

namespace MsmBusCompat

/-- The vectors with a name whose path is got or null, in their order. -/
def answered (icc : ℕ → IccGet) (base : ℕ) : ℕ → List MsmBusVectors → List ((ℤ × ℤ) × Option ℕ)
  | _, [] => []
  | i, v :: vs =>
    if (mapSrcDstToIccName v.src v.dst).isNone then answered icc base (i+1) vs
    else match icc i with
      | .err _ => answered icc base (i+1) vs
      | .null => ((v.src, v.dst), none) :: answered icc base (i+1) vs
      | .path => ((v.src, v.dst), some (base + i)) :: answered icc base (i+1) vs

variable {icc : ℕ → IccGet} {base : ℕ}

theorem keys_answered (i : ℕ) (vs : List MsmBusVectors) :
    ∀ k ∈ keys (answered icc base i vs), k ∈ mappedPairs := by
  induction vs generalizing i with
  | nil =>
    intro k hk
    cases hk
  | cons v vs ih =>
    unfold answered
    split
    · exact ih (i+1)
    · rename_i hname
      have hmapped : (v.src, v.dst) ∈ mappedPairs := by
        rw [← mapSrcDstToIccName_isSome]
        simpa [Option.isSome_iff_ne_none] using hname
      intro k hk
      split at hk
      · exact ih (i+1) k hk
      · rcases List.mem_cons.mp hk with rfl | hlater
        · exact hmapped
        · exact ih (i+1) k hlater
      · rcases List.mem_cons.mp hk with rfl | hlater
        · exact hmapped
        · exact ih (i+1) k hlater

/-- The walk adds what the framework answers to the table, in its order. -/
theorem table_acquirePaths (i : ℕ) (vs : List MsmBusVectors) (h : MsmBusCompatHandle) :
    (acquirePaths icc base i vs h).table =
      addAll msmBusCompatMaxPaths h.table (answered icc base i vs) := by
  induction vs generalizing i h with
  | nil => rfl
  | cons v vs ih =>
    unfold acquirePaths answered
    split
    · exact ih (i+1) h
    rw [MsmBusCompatHandle.findPath_eq]
    split
    · rename_i hfound
      -- the answer does not matter, the vector is skipped
      have hskip (o : Option ℕ) : add msmBusCompatMaxPaths h.table ((v.src, v.dst), o) = h.table :=
        if_pos hfound
      rw [ih (i+1) h]
      cases icc i with
      | err code => rfl
      | null => exact congrArg (fun t => addAll _ t _) (hskip none).symm
      | path => exact congrArg (fun t => addAll _ t _) (hskip (some (base + i))).symm
    rename_i hmissing
    split
    · rename_i hfull
      rw [← MsmBusCompatHandle.length_table] at hfull
      rw [addAll_full _ hfull]
    rename_i hroom
    rw [← MsmBusCompatHandle.length_table] at hroom
    have hadd (o : Option ℕ) : add msmBusCompatMaxPaths h.table ((v.src, v.dst), o) =
        h.table ++ [((v.src, v.dst), o)] := by
      unfold add
      rw [if_neg hmissing, if_neg hroom]
    have hpush (o : Option ℕ) : MsmBusCompatHandle.table
        { h with paths := h.paths ++ [⟨v.src, v.dst, o⟩] } = h.table ++ [((v.src, v.dst), o)] :=
      List.map_append
    cases icc i with
    | err code => exact ih (i+1) h
    | null =>
      dsimp only
      rw [ih, hpush, ← hadd]
      rfl
    | path =>
      dsimp only
      rw [ih, hpush, ← hadd]
      rfl

theorem acquirePaths_keeps (i : ℕ) (vs : List MsmBusVectors) (h : MsmBusCompatHandle) :
    (acquirePaths icc base i vs h).pdata = h.pdata ∧
      (acquirePaths icc base i vs h).inUse = h.inUse := by
  induction vs generalizing i h with
  | nil => exact ⟨rfl, rfl⟩
  | cons v vs ih =>
    unfold acquirePaths
    split
    · exact ih (i+1) h
    split
    · exact ih (i+1) h
    split
    · exact ⟨rfl, rfl⟩
    split
    · exact ih (i+1) h
    · exact ih (i+1) _
    · exact ih (i+1) _

/-- Four pairs have a name, so that the table has room for all of them. -/
theorem room_for_mapped (ks : List (ℤ × ℤ)) (hks : ks.Nodup) (hsub : ∀ k ∈ ks, k ∈ mappedPairs) :
    ks.length < msmBusCompatMaxPaths := by
  have hlen : ks.length ≤ mappedPairs.length := (List.subperm_of_subset hks hsub).length_le
  have hfour : mappedPairs.length = 4 := rfl
  have hsix : msmBusCompatMaxPaths = 6 := rfl
  omega

theorem nodup_acquirePaths_iff {vs : List MsmBusVectors} {h : MsmBusCompatHandle}
    (hempty : h.paths = []) :
    (acquirePaths icc base 0 vs h).pairs.Nodup ↔ ComesOnce (answered icc base 0 vs) := by
  have htable : h.table = [] := by
    unfold MsmBusCompatHandle.table
    rw [hempty, List.map_nil]
  rw [← MsmBusCompatHandle.keys_table, table_acquirePaths, htable]
  apply nodup_addAll_iff
  intro ks hks hsub
  exact room_for_mapped ks hks fun k hk => keys_answered 0 vs k (hsub k hk)

/-- The slot and the vectors that a registration walks over, if it comes so far. -/
def walk (s : MsmBusCompat) (pdata : Option MsmBusScalePdata) :
    Option (Fin msmBusCompatMaxHandles × MsmBusScalePdata × List MsmBusVectors) :=
  match pdata with
  | none => none
  | some pdata =>
    match pdata.usecase with
    | none | some [] => none
    | some (first :: _) =>
      if s.dev.isNone then none
      else s.freeSlot.map fun slot => (slot, pdata, first.vectors)

/-- What the walk makes of the slot. -/
def acquired (s : MsmBusCompat) (pdata : MsmBusScalePdata) (vs : List MsmBusVectors)
    (icc : ℕ → IccGet) : MsmBusCompatHandle :=
  acquirePaths icc s.allocated 0 vs { pdata := some pdata }

/-- The number of a slot, as a handle. -/
def handleOf (slot : Fin msmBusCompatMaxHandles) : UInt32 := UInt32.ofNat (slot + 1)

/-- What a registration comes to. -/
inductive Registered (s : MsmBusCompat) (pdata : Option MsmBusScalePdata) (icc : ℕ → IccGet) :
    MsmBusCompat × UInt32 → Prop
  | refused (hwalk : s.walk pdata = none) : Registered s pdata icc (s, 0)
  | noPaths {slot : Fin msmBusCompatMaxHandles} {p : MsmBusScalePdata} {vs : List MsmBusVectors}
      (hwalk : s.walk pdata = some (slot, p, vs)) (hnone : (s.acquired p vs icc).numPaths = 0) :
      Registered s pdata icc
        ({ s with
            handles := Function.update s.handles slot (s.acquired p vs icc)
            allocated := s.allocated + vs.length }, 0)
  | done {slot : Fin msmBusCompatMaxHandles} {p : MsmBusScalePdata} {vs : List MsmBusVectors}
      (hwalk : s.walk pdata = some (slot, p, vs)) (hsome : (s.acquired p vs icc).numPaths ≠ 0) :
      Registered s pdata icc
        ({ s with
            handles := Function.update s.handles slot { s.acquired p vs icc with inUse := true }
            allocated := s.allocated + vs.length }, handleOf slot)

theorem registered (s : MsmBusCompat) (pdata : Option MsmBusScalePdata) (icc : ℕ → IccGet) :
    Registered s pdata icc (s.registerClient pdata icc) := by
  unfold registerClient
  split
  · exact .refused rfl
  rename_i pdata
  split
  · rename_i husecase
    apply Registered.refused
    simp only [walk, husecase]
  · rename_i husecase
    apply Registered.refused
    simp only [walk, husecase]
  rename_i first rest husecase
  split
  · rename_i hdev
    apply Registered.refused
    simp only [walk, husecase, hdev, if_true]
  rename_i hdev
  split
  · rename_i hslot
    apply Registered.refused
    simp only [walk, husecase, hdev, hslot, Option.map_none, if_false, Bool.false_eq_true]
  rename_i slot hslot
  have hwalk : s.walk (some pdata) = some (slot, pdata, first.vectors) := by
    simp only [walk, husecase, hdev, hslot, Option.map_some, if_false, Bool.false_eq_true]
  dsimp only
  split
  · rename_i hnone
    exact .noPaths hwalk hnone
  · rename_i hsome
    exact .done hwalk hsome

theorem walk_freeSlot {s : MsmBusCompat} {pdata : Option MsmBusScalePdata}
    {w : Fin msmBusCompatMaxHandles × MsmBusScalePdata × List MsmBusVectors}
    (h : s.walk pdata = some w) : s.freeSlot = some w.1 := by
  unfold walk at h
  split at h
  · cases h
  split at h
  · cases h
  · cases h
  split at h
  · cases h
  · obtain ⟨slot, hslot, hw⟩ := Option.map_eq_some_iff.mp h
    rw [hslot, ← hw]

theorem not_inUse_of_freeSlot {s : MsmBusCompat} {slot : Fin msmBusCompatMaxHandles}
    (h : s.freeSlot = some slot) : (s.handles slot).inUse = false := by
  have hfree := List.find?_some h
  simpa using hfree

theorem acquired_pdata (s : MsmBusCompat) (pdata : MsmBusScalePdata) (vs : List MsmBusVectors)
    (icc : ℕ → IccGet) : (s.acquired pdata vs icc).pdata = some pdata :=
  (acquirePaths_keeps 0 vs _).1

theorem acquired_inUse (s : MsmBusCompat) (pdata : MsmBusScalePdata) (vs : List MsmBusVectors)
    (icc : ℕ → IccGet) : (s.acquired pdata vs icc).inUse = false :=
  (acquirePaths_keeps 0 vs _).2

end MsmBusCompat

/-- What the slots in use hold, apart from the pairs being distinct. -/
structure MsmBusCompatHandle.Filled (h : MsmBusCompatHandle) : Prop where
  pdata : h.pdata.isSome = true
  pos : 1 ≤ h.numPaths
  le : h.numPaths ≤ msmBusCompatMaxPaths
  mapped : ∀ p ∈ h.paths, (mapSrcDstToIccName p.src p.dst).isSome = true

theorem MsmBusCompat.filled_acquired {s : MsmBusCompat} {pdata : MsmBusScalePdata}
    {vs : List MsmBusVectors} {icc : ℕ → IccGet} (hsome : (s.acquired pdata vs icc).numPaths ≠ 0) :
    ({ s.acquired pdata vs icc with inUse := true } : MsmBusCompatHandle).Filled := by
  have htable : (s.acquired pdata vs icc).table =
      addAll msmBusCompatMaxPaths [] (answered icc s.allocated 0 vs) := table_acquirePaths 0 vs _
  refine ⟨?_, ?_, ?_, ?_⟩
  · show (s.acquired pdata vs icc).pdata.isSome = true
    rw [acquired_pdata]
    rfl
  · exact Nat.one_le_iff_ne_zero.mpr hsome
  · show (s.acquired pdata vs icc).numPaths ≤ msmBusCompatMaxPaths
    rw [← MsmBusCompatHandle.length_table, htable]
    exact length_addAll_le _ (Nat.zero_le _)
  · intro p hp
    have hkey : (p.src, p.dst) ∈ keys (s.acquired pdata vs icc).table := by
      rw [MsmBusCompatHandle.keys_table]
      exact List.mem_map_of_mem hp
    rw [htable] at hkey
    rw [mapSrcDstToIccName_isSome]
    exact keys_answered 0 vs _ (mem_keys_addAll hkey)

/-- The bus, and the handles that its clients have got and not given back. -/
structure MsmBusClients where
  bus : MsmBusCompat := {}
  live : List UInt32 := []

inductive MsmBusAction
  | setDevice (dev : Option ℕ)
  | register (pdata : Option MsmBusScalePdata) (icc : ℕ → IccGet)
  | unregister (cl : UInt32) (rcs : ℕ → ℤ)
  | update (cl index : UInt32) (rcs : ℕ → ℤ)

namespace MsmBusClients
open MsmBusCompat

/-- A client has got what the registration returns. -/
def got (s : MsmBusClients) (r : MsmBusCompat × UInt32) : MsmBusClients where
  bus := r.1
  live := if r.2 = 0 then s.live else r.2 :: s.live

def step (s : MsmBusClients) : MsmBusAction → Option MsmBusClients
  | .setDevice dev => some { s with bus := s.bus.setDevice dev }
  | .register pdata icc => some (s.got (s.bus.registerClient pdata icc))
  | .unregister cl rcs =>
    some { bus := s.bus.unregisterClient cl rcs, live := s.live.filter (· ≠ cl) }
  | .update cl index rcs =>
    (s.bus.clientUpdateRequest cl index rcs).map fun r => { s with bus := r.1 }

/-- What the table is meant to be. -/
structure Sound (s : MsmBusClients) : Prop where
  live_range : ∀ cl ∈ s.live, 1 ≤ cl.toNat ∧ cl.toNat ≤ msmBusCompatMaxHandles
  live_nodup : s.live.Nodup
  filled : ∀ slot, (s.bus.handles slot).inUse = true → (s.bus.handles slot).Filled
  distinct : ∀ slot, (s.bus.handles slot).inUse = true → (s.bus.handles slot).pairs.Nodup

/-- What a call leaves of the slots: a failed registration its own one free and the others
as they are, and every other call those that are not its handle's. -/
def KeepsOthers (s : MsmBusClients) (a : MsmBusAction) (s' : MsmBusClients) : Prop :=
  match a with
  | .setDevice _ => s'.bus.handles = s.bus.handles
  | .register pdata icc =>
    (∀ slot, s.bus.freeSlot ≠ some slot → s'.bus.handles slot = s.bus.handles slot) ∧
      if (s.bus.registerClient pdata icc).2 = 0 then
        ∀ slot, s.bus.freeSlot = some slot → (s'.bus.handles slot).inUse = false
      else s.bus.freeSlot.map handleOf = some (s.bus.registerClient pdata icc).2
  | .unregister cl _ | .update cl _ _ =>
    ∀ slot, handleOf slot ≠ cl → s'.bus.handles slot = s.bus.handles slot

/-- No pair that has a name and gets null, with no path before, gets an answer again in the
same registration. -/
def AsksOnce (s : MsmBusClients) : MsmBusAction → Prop
  | .register pdata icc => ∀ slot p vs, s.bus.walk pdata = some (slot, p, vs) →
      ComesOnce (answered icc s.bus.allocated 0 vs)
  | _ => True

theorem handleOf_injective : Function.Injective handleOf := by decide

theorem slotOf_handleOf (slot : Fin msmBusCompatMaxHandles) :
    slotOf (handleOf slot) = some slot := by
  revert slot
  decide

theorem handleOf_range (slot : Fin msmBusCompatMaxHandles) :
    1 ≤ (handleOf slot).toNat ∧ (handleOf slot).toNat ≤ msmBusCompatMaxHandles := by
  revert slot
  decide

theorem handleOf_ne_zero (slot : Fin msmBusCompatMaxHandles) : handleOf slot ≠ 0 := by
  revert slot
  decide

theorem eq_handleOf {cl : UInt32} {slot : Fin msmBusCompatMaxHandles}
    (h : slotOf cl = some slot) : handleOf slot = cl := by
  unfold slotOf at h
  split at h
  · rename_i hcl
    cases h
    apply UInt32.toNat_inj.mp
    have hpos : cl.toNat ≠ 0 := fun hzero => hcl.1 (UInt32.toNat_inj.mp hzero)
    have hlt : cl.toNat - 1 < 4 := hcl.2
    show (cl.toNat - 1 + 1) % 2^32 = cl.toNat
    omega
  · cases h

/-- What every sequence of calls keeps. -/
structure Inv (s : MsmBusClients) : Prop where
  live_iff : ∀ cl, cl ∈ s.live ↔ ∃ slot, handleOf slot = cl ∧ (s.bus.handles slot).inUse = true
  live_nodup : s.live.Nodup
  filled : ∀ slot, (s.bus.handles slot).inUse = true → (s.bus.handles slot).Filled

variable {s s' : MsmBusClients}

theorem Inv.sound_iff (h : s.Inv) : s.Sound ↔ ∀ slot, (s.bus.handles slot).inUse = true →
    (s.bus.handles slot).pairs.Nodup := by
  constructor
  · exact fun hsound => hsound.distinct
  · intro hdistinct
    refine ⟨?_, h.live_nodup, h.filled, hdistinct⟩
    intro cl hcl
    obtain ⟨slot, hslot, _⟩ := (h.live_iff cl).mp hcl
    rw [← hslot]
    exact handleOf_range slot

/-- A registration, once the slot is known: it is free before, and holds `h` after. -/
theorem Inv.put {slot : Fin msmBusCompatMaxHandles} {h : MsmBusCompatHandle} (allocated : ℕ)
    (hs : s.Inv) (hslot : s.bus.freeSlot = some slot) (hfilled : h.inUse = true → h.Filled) :
    Inv { bus := { s.bus with
            handles := Function.update s.bus.handles slot h
            allocated := allocated }
          live := if h.inUse then handleOf slot :: s.live else s.live } := by
  have hfree := not_inUse_of_freeSlot hslot
  have hnotlive : handleOf slot ∉ s.live := by
    intro hlive
    obtain ⟨other, hother, huse⟩ := (hs.live_iff _).mp hlive
    rw [handleOf_injective hother, hfree] at huse
    cases huse
  refine ⟨?_, ?_, ?_⟩
  · intro cl
    constructor
    · intro hcl
      by_cases huse : h.inUse = true
      · rw [if_pos huse] at hcl
        rcases List.mem_cons.mp hcl with rfl | hbefore
        · exact ⟨slot, rfl, by simpa using huse⟩
        · obtain ⟨other, hother, hin⟩ := (hs.live_iff cl).mp hbefore
          have hne : other ≠ slot := by
            rintro rfl
            rw [hfree] at hin
            cases hin
          exact ⟨other, hother, by simpa [hne] using hin⟩
      · rw [if_neg huse] at hcl
        obtain ⟨other, hother, hin⟩ := (hs.live_iff cl).mp hcl
        have hne : other ≠ slot := by
          rintro rfl
          rw [hfree] at hin
          cases hin
        exact ⟨other, hother, by simpa [hne] using hin⟩
    · rintro ⟨other, hother, hin⟩
      by_cases hne : other = slot
      · rw [hne] at hin hother
        have huse : h.inUse = true := by simpa using hin
        rw [if_pos huse, hother]
        exact List.mem_cons_self
      · have hbefore : cl ∈ s.live := (hs.live_iff cl).mpr ⟨other, hother, by simpa [hne] using hin⟩
        split
        · exact List.mem_cons_of_mem _ hbefore
        · exact hbefore
  · dsimp only
    split
    · exact List.nodup_cons.mpr ⟨hnotlive, hs.live_nodup⟩
    · exact hs.live_nodup
  · intro other hin
    by_cases hne : other = slot
    · rw [hne] at hin ⊢
      have huse : h.inUse = true := by simpa using hin
      simpa using hfilled huse
    · have hbefore := hs.filled other (by simpa [hne] using hin)
      simpa [hne] using hbefore

/-- A handle given back. -/
theorem Inv.give {bus : MsmBusCompat} {cl : UInt32} (hs : s.Inv)
    (hother : ∀ slot, handleOf slot ≠ cl → bus.handles slot = s.bus.handles slot)
    (hown : ∀ slot, handleOf slot = cl → (bus.handles slot).inUse = false) :
    Inv { bus := bus, live := s.live.filter (· ≠ cl) } := by
  refine ⟨?_, hs.live_nodup.filter _, ?_⟩
  · intro cl'
    rw [List.mem_filter, hs.live_iff]
    constructor
    · rintro ⟨⟨slot, rfl, hin⟩, hne⟩
      refine ⟨slot, rfl, ?_⟩
      rw [hother slot (of_decide_eq_true hne)]
      exact hin
    · rintro ⟨slot, rfl, hin⟩
      have hne : handleOf slot ≠ cl := by
        intro heq
        rw [hown slot heq] at hin
        cases hin
      rw [hother slot hne] at hin
      exact ⟨⟨slot, rfl, hin⟩, decide_eq_true hne⟩
  · intro slot hin
    have hne : handleOf slot ≠ cl := by
      intro heq
      rw [hown slot heq] at hin
      cases hin
    rw [hother slot hne] at hin ⊢
    exact hs.filled slot hin

theorem unregister_other {bus : MsmBusCompat} {cl : UInt32} {rcs : ℕ → ℤ}
    {slot : Fin msmBusCompatMaxHandles} (h : handleOf slot ≠ cl) :
    (bus.unregisterClient cl rcs).handles slot = bus.handles slot := by
  unfold unregisterClient
  split
  · rfl
  · rename_i own hown
    split
    · apply Function.update_of_ne
      rintro rfl
      exact h (eq_handleOf hown)
    · rfl

theorem unregister_own (bus : MsmBusCompat) (rcs : ℕ → ℤ) (slot : Fin msmBusCompatMaxHandles) :
    ((bus.unregisterClient (handleOf slot) rcs).handles slot).inUse = false := by
  unfold unregisterClient
  rw [slotOf_handleOf]
  dsimp only
  split
  · simp
  · rename_i huse
    simpa using huse

/-- An update does not touch the slots at all. -/
theorem update_handles {bus bus' : MsmBusCompat} {cl index : UInt32} {rcs : ℕ → ℤ} {ret : ℤ}
    (h : bus.clientUpdateRequest cl index rcs = some (bus', ret)) : bus'.handles = bus.handles := by
  unfold clientUpdateRequest at h
  split at h
  · cases h
    rfl
  split at h
  · cases h
    rfl
  · cases h
    rfl
  split at h
  · cases h
    rfl
  · obtain ⟨uc, _, hdone⟩ := Option.map_eq_some_iff.mp h
    cases hdone
    rfl

/-- What a registration of the system comes to. -/
theorem step_register {pdata : Option MsmBusScalePdata} {icc : ℕ → IccGet}
    (h : s.step (.register pdata icc) = some s') :
    ∃ r, Registered s.bus pdata icc r ∧ s' = s.got r :=
  ⟨s.bus.registerClient pdata icc, registered s.bus pdata icc, (Option.some.inj h).symm⟩

theorem Inv.step {a : MsmBusAction} (hs : s.Inv) (h : s.step a = some s') : s'.Inv := by
  cases a with
  | setDevice dev =>
    cases h
    exact ⟨hs.live_iff, hs.live_nodup, hs.filled⟩
  | register pdata icc =>
    obtain ⟨r, hcases, rfl⟩ := step_register h
    cases hcases with
    | refused hwalk => exact hs
    | @noPaths slot p vs hwalk hnone =>
      have hfree := acquired_inUse s.bus p vs icc
      have hput := hs.put (s.bus.allocated + vs.length) (walk_freeSlot hwalk) fun huse =>
        absurd (hfree.symm.trans huse) Bool.false_ne_true
      rw [hfree] at hput
      exact hput
    | @done slot p vs hwalk hsome =>
      have hput := hs.put (s.bus.allocated + vs.length) (walk_freeSlot hwalk) fun _ =>
        filled_acquired hsome
      unfold got
      rw [if_neg (handleOf_ne_zero _)]
      exact hput
  | unregister cl rcs =>
    cases h
    apply hs.give
    · exact fun slot hne => unregister_other hne
    · rintro slot rfl
      exact unregister_own s.bus rcs slot
  | update cl index rcs =>
    obtain ⟨⟨bus', ret⟩, hupdate, hs'⟩ := Option.map_eq_some_iff.mp h
    have hhandles := update_handles hupdate
    cases hs'
    refine ⟨?_, hs.live_nodup, ?_⟩
    · intro cl'
      show cl' ∈ s.live ↔ ∃ slot, handleOf slot = cl' ∧ (bus'.handles slot).inUse = true
      rw [hhandles]
      exact hs.live_iff cl'
    · intro slot hin
      have hin' : (bus'.handles slot).inUse = true := hin
      show (bus'.handles slot).Filled
      rw [hhandles] at hin' ⊢
      exact hs.filled slot hin'

/-- The pairs in the slots are distinct. -/
def Distinct (s : MsmBusClients) : Prop :=
  ∀ slot, (s.bus.handles slot).inUse = true → (s.bus.handles slot).pairs.Nodup

theorem distinct_put {slot : Fin msmBusCompatMaxHandles} {h : MsmBusCompatHandle}
    {bus : MsmBusCompat} {live : List UInt32}
    (hbus : bus.handles = Function.update s.bus.handles slot h) (hs : s.Distinct) :
    Distinct { bus := bus, live := live } ↔ (h.inUse = true → h.pairs.Nodup) := by
  unfold Distinct
  dsimp only
  rw [hbus]
  constructor
  · intro hdistinct huse
    have hown := hdistinct slot
    rw [Function.update_self] at hown
    exact hown huse
  · intro hnew other
    by_cases hne : other = slot
    · rw [hne, Function.update_self]
      exact hnew
    · rw [Function.update_of_ne hne]
      exact hs other

theorem asksOnce_of_refused {pdata : Option MsmBusScalePdata} {icc : ℕ → IccGet}
    (hwalk : s.bus.walk pdata = none) : s.AsksOnce (.register pdata icc) := by
  intro slot p vs h
  rw [hwalk] at h
  cases h

theorem asksOnce_iff {pdata : Option MsmBusScalePdata} {icc : ℕ → IccGet}
    {slot : Fin msmBusCompatMaxHandles} {p : MsmBusScalePdata} {vs : List MsmBusVectors}
    (hwalk : s.bus.walk pdata = some (slot, p, vs)) :
    s.AsksOnce (.register pdata icc) ↔ (s.bus.acquired p vs icc).pairs.Nodup := by
  have hnodup : (s.bus.acquired p vs icc).pairs.Nodup ↔
      ComesOnce (answered icc s.bus.allocated 0 vs) := nodup_acquirePaths_iff rfl
  rw [hnodup]
  constructor
  · exact fun h => h slot p vs hwalk
  · intro h slot' p' vs' hwalk'
    rw [hwalk] at hwalk'
    cases hwalk'
    exact h

theorem asksOnce_iff_distinct {a : MsmBusAction} (hs : s.Distinct) (h : s.step a = some s') :
    s.AsksOnce a ↔ s'.Distinct := by
  cases a with
  | setDevice dev =>
    cases h
    exact iff_of_true trivial hs
  | register pdata icc =>
    obtain ⟨r, hcases, rfl⟩ := step_register h
    cases hcases with
    | refused hwalk => exact iff_of_true (asksOnce_of_refused hwalk) hs
    | @noPaths slot p vs hwalk hnone =>
      rw [asksOnce_iff hwalk]
      unfold got
      rw [distinct_put rfl hs, acquired_inUse]
      have hnil : (s.bus.acquired p vs icc).paths = [] := List.length_eq_zero_iff.mp hnone
      refine iff_of_true ?_ (fun huse => absurd huse Bool.false_ne_true)
      unfold MsmBusCompatHandle.pairs
      rw [hnil]
      exact List.nodup_nil
    | @done slot p vs hwalk hsome =>
      rw [asksOnce_iff hwalk]
      unfold got
      rw [distinct_put rfl hs]
      exact ⟨fun hnodup _ => hnodup, fun hnodup => hnodup rfl⟩
  | unregister cl rcs =>
    cases h
    refine iff_of_true trivial ?_
    intro slot hin
    by_cases hne : handleOf slot = cl
    · rw [← hne] at hin
      rw [unregister_own] at hin
      cases hin
    · have hsame : (s.bus.unregisterClient cl rcs).handles slot = s.bus.handles slot :=
        unregister_other hne
      have hin' : ((s.bus.unregisterClient cl rcs).handles slot).inUse = true := hin
      show ((s.bus.unregisterClient cl rcs).handles slot).pairs.Nodup
      rw [hsame] at hin' ⊢
      exact hs slot hin'
  | update cl index rcs =>
    obtain ⟨⟨bus', ret⟩, hupdate, hs'⟩ := Option.map_eq_some_iff.mp h
    have hhandles := update_handles hupdate
    cases hs'
    refine iff_of_true trivial ?_
    unfold Distinct
    rw [hhandles]
    exact hs

/-- What is stored in the free slot leaves the others alone. -/
theorem update_of_freeSlot {bus : MsmBusCompat} {slot : Fin msmBusCompatMaxHandles}
    (h : MsmBusCompatHandle) (hfree : bus.freeSlot = some slot) :
    ∀ other, bus.freeSlot ≠ some other →
      Function.update bus.handles slot h other = bus.handles other := by
  intro other hother
  apply Function.update_of_ne
  rintro rfl
  exact hother hfree

theorem keepsOthers {a : MsmBusAction} (h : s.step a = some s') : s.KeepsOthers a s' := by
  cases a with
  | setDevice dev =>
    cases h
    rfl
  | register pdata icc =>
    have hs' : s.got (s.bus.registerClient pdata icc) = s' := Option.some.inj h
    have hcases := registered s.bus pdata icc
    -- what is kept depends on the handle that comes back
    unfold KeepsOthers
    dsimp only
    rw [← hs']
    generalize s.bus.registerClient pdata icc = r at hcases
    cases hcases with
    | refused hwalk =>
      refine ⟨fun _ _ => rfl, ?_⟩
      rw [if_pos rfl]
      exact fun slot hslot => not_inUse_of_freeSlot hslot
    | @noPaths slot p vs hwalk hnone =>
      have hfree := walk_freeSlot hwalk
      refine ⟨update_of_freeSlot _ hfree, ?_⟩
      rw [if_pos rfl]
      intro other hother
      rw [hfree] at hother
      cases hother
      show (Function.update s.bus.handles slot (s.bus.acquired p vs icc) slot).inUse = false
      rw [Function.update_self]
      exact acquired_inUse s.bus p vs icc
    | @done slot p vs hwalk hsome =>
      have hfree := walk_freeSlot hwalk
      refine ⟨update_of_freeSlot _ hfree, ?_⟩
      rw [if_neg (handleOf_ne_zero slot), hfree]
      rfl
  | unregister cl rcs =>
    cases h
    exact fun slot hne => unregister_other hne
  | update cl index rcs =>
    obtain ⟨⟨bus', ret⟩, hupdate, hs'⟩ := Option.map_eq_some_iff.mp h
    cases hs'
    exact fun slot _ => congrFun (update_handles hupdate) slot

/-- The table under every sequence of calls, with any data and any answers of the framework:
it is as it is meant to be at each point exactly when no registration asks again for what it
got null for. No call touches the slots of other handles. -/
theorem sound_iff_asksOnce {as : List MsmBusAction} {t : MsmBusClients}
    (hrun : run step {} as = some t) :
    (Guarded step AsksOnce {} as ↔
        ∀ pre post u, as = pre ++ post → run step {} pre = some u → u.Sound) ∧
      ∀ pre a post u u', as = pre ++ a :: post → run step {} pre = some u →
        u.step a = some u' → u.KeepsOthers a u' := by
  have hinv : Inv {} := by
    refine ⟨?_, List.nodup_nil, ?_⟩
    · intro cl
      refine iff_of_false List.not_mem_nil ?_
      rintro ⟨slot, _, hin⟩
      cases hin
    · intro slot hin
      cases hin
  have hsound : Sound {} := by
    rw [hinv.sound_iff]
    intro slot hin
    cases hin
  have hstep : ∀ s a s', Inv s → step s a = some s' → Inv s' := fun _ _ _ hs h => hs.step h
  have hiff : ∀ s a s', Inv s → Sound s → step s a = some s' → (AsksOnce s a ↔ Sound s') := by
    intro s a s' hs hsound h
    rw [(hs.step h).sound_iff]
    exact asksOnce_iff_distinct (hs.sound_iff.mp hsound) h
  refine ⟨guarded_iff_always hstep hiff hrun hinv hsound, ?_⟩
  exact fun _ _ _ _ _ _ _ h => keepsOthers h

/-- The same pair twice. -/
def twicePdata : MsmBusScalePdata where
  usecase := some
    [⟨[⟨msmBusMasterIpa, msmBusSlaveEbiCh0, 0, 0⟩, ⟨msmBusMasterIpa, msmBusSlaveEbiCh0, 0, 0⟩]⟩]
  numUsecases_lt := by decide

/-- A pair that comes again after it got a path, a null path beside a good one, a slot that is
given back, and in it a pair that gets null after an error. -/
def mixedActions : List MsmBusAction :=
  [.setDevice (some 1), .register (some twicePdata) fun _ => .path,
    .register (some compatDefaultPdata) fun i => if i = 0 then .null else .path,
    .unregister 1 fun _ => 0,
    .register (some twicePdata) fun i => if i = 0 then .err (-2) else .null]

theorem sound_mixedActions : ∃ t, run step {} mixedActions = some t ∧
    (t.bus.handles ⟨0, by decide⟩).pairs = [(msmBusMasterIpa, msmBusSlaveEbiCh0)] ∧
    ∀ pre post u, mixedActions = pre ++ post → run step {} pre = some u → u.Sound := by
  have hguarded : Guarded step AsksOnce {} mixedActions := by
    refine ⟨trivial, ?_⟩
    rintro _ ⟨⟩
    refine ⟨(asksOnce_iff rfl).mpr (by decide), ?_⟩
    rintro _ ⟨⟩
    refine ⟨(asksOnce_iff rfl).mpr (by decide), ?_⟩
    rintro _ ⟨⟩
    refine ⟨trivial, ?_⟩
    rintro _ ⟨⟩
    exact ⟨(asksOnce_iff rfl).mpr (by decide), fun _ _ => trivial⟩
  exact ⟨_, rfl, by decide, (sound_iff_asksOnce rfl).1.mp hguarded⟩

/-- A node without interconnects, for which the framework returns null. -/
theorem not_sound_null : ∃ t,
    run step {} [.setDevice (some 1), .register (some twicePdata) fun _ => .null] = some t ∧
      ¬ t.Sound := by
  refine ⟨_, rfl, ?_⟩
  intro h
  have hnodup := h.distinct ⟨0, by decide⟩ (by decide)
  exact absurd hnodup (by decide)

end MsmBusClients

end X00TDCellular
