import Mathlib.Algebra.Group.Nat.Defs
import Mathlib.Data.Fintype.Basic
import Mathlib.Logic.Function.Basic
import Mathlib.Tactic.Common

/-! `msm_bus_compat.c`: the vendor's bus scaling calls on top of the interconnect framework.
The framework is the environment: which paths it hands out, and whether it takes a vote. -/

namespace X00TDCellular

def msmBusMasterIpa : ℤ := 90

def msmBusMasterBamDma : ℤ := 91

def msmBusSlaveEbiCh0 : ℤ := 512

def msmBusSlaveOcimem : ℤ := 513

structure MsmBusVectors where
  src : ℤ
  dst : ℤ
  ab : UInt64
  ib : UInt64
  deriving DecidableEq

/-- A usecase, with `num_paths` the length of its array. -/
structure MsmBusPaths where
  vectors : List MsmBusVectors
  deriving DecidableEq

/-- `usecase` is null or an array of `num_usecases` entries. -/
structure MsmBusScalePdata where
  usecase : Option (List MsmBusPaths)
  numUsecases_lt : (usecase.getD []).length < 2^31

def MsmBusScalePdata.numUsecases (pdata : MsmBusScalePdata) : ℕ :=
  (pdata.usecase.getD []).length

def msmBusCompatMaxHandles : ℕ := 4

def msmBusCompatMaxPaths : ℕ := 6

/-- The paths that the framework has handed out have numbers; a null pointer is `none`. -/
structure MsmBusCompatPath where
  src : ℤ
  dst : ℤ
  path : Option ℕ
  deriving DecidableEq

/-- `paths` are the first `num_paths` entries of the array. -/
structure MsmBusCompatHandle where
  pdata : Option MsmBusScalePdata := none
  paths : List MsmBusCompatPath := []
  inUse : Bool := false

def MsmBusCompatHandle.numPaths (h : MsmBusCompatHandle) : ℕ := h.paths.length

abbrev Votes := ℕ → UInt32 × UInt32

/-- The globals, and of the framework how many paths it has made and the votes on them. -/
structure MsmBusCompat where
  dev : Option ℕ := none
  handles : Fin msmBusCompatMaxHandles → MsmBusCompatHandle := fun _ => {}
  allocated : ℕ := 0
  votes : Votes := fun _ => (0, 0)

/-- What `devm_of_icc_get` returns: a new path, null, or an error pointer. -/
inductive IccGet
  | path
  | null
  | err (code : ℤ)
  deriving DecidableEq

/-- `icc_set_bw`, which returns `rc` unless the path is null. A vote that is refused leaves
the one before. -/
def iccSetBw (votes : Votes) (path : Option ℕ) (bw : UInt32 × UInt32) (rc : ℤ) : Votes × ℤ :=
  match path with
  | none => (votes, 0)
  | some p => (if rc = 0 then Function.update votes p bw else votes, rc)

def mapSrcDstToIccName (src dst : ℤ) : Option String :=
  if src = msmBusMasterIpa ∧ dst = msmBusSlaveEbiCh0 then some "ipa-mem"
  else if src = msmBusMasterIpa ∧ dst = msmBusSlaveOcimem then some "ipa-imem"
  else if src = msmBusMasterBamDma ∧ dst = msmBusSlaveEbiCh0 then some "ipa-mem"
  else if src = msmBusMasterBamDma ∧ dst = msmBusSlaveOcimem then some "ipa-imem"
  else none

/-- The path of the first entry for the pair, which may be null as well. -/
def findPath (h : MsmBusCompatHandle) (src dst : ℤ) : Option ℕ :=
  (h.paths.find? fun p => p.src = src ∧ p.dst = dst).bind MsmBusCompatPath.path

/-- `DIV_ROUND_UP` in 64 bits, cut to 32. -/
def bpsToKbps (bps : UInt64) : UInt32 := ((bps + 1024 - 1) / 1024).toUInt32

def MsmBusVectors.kbps (v : MsmBusVectors) : UInt32 × UInt32 := (bpsToKbps v.ab, bpsToKbps v.ib)

namespace MsmBusCompat

variable (s : MsmBusCompat)

def setDevice (dev : Option ℕ) : MsmBusCompat := { s with dev := dev }

/-- The walk over the vectors from `i` on. The path that is got for vector `i` is number
`base + i`. -/
def acquirePaths (icc : ℕ → IccGet) (base : ℕ) :
    ℕ → List MsmBusVectors → MsmBusCompatHandle → MsmBusCompatHandle
  | _, [], h => h
  | i, v :: vs, h =>
    if (mapSrcDstToIccName v.src v.dst).isNone then acquirePaths icc base (i+1) vs h
    else if (findPath h v.src v.dst).isSome then acquirePaths icc base (i+1) vs h
    else if msmBusCompatMaxPaths ≤ h.numPaths then h
    else match icc i with
      | .err _ => acquirePaths icc base (i+1) vs h
      | .null =>
        acquirePaths icc base (i+1) vs { h with paths := h.paths ++ [⟨v.src, v.dst, none⟩] }
      | .path =>
        acquirePaths icc base (i+1) vs
          { h with paths := h.paths ++ [⟨v.src, v.dst, some (base + i)⟩] }

/-- The first slot that is not in use. -/
def freeSlot : Option (Fin msmBusCompatMaxHandles) :=
  (List.finRange msmBusCompatMaxHandles).find? fun slot => !(s.handles slot).inUse

/-- The state and the handle, 0 for a failure. `icc i` is what the framework returns for
vector `i` of the first usecase, if it is asked. -/
def registerClient (pdata : Option MsmBusScalePdata) (icc : ℕ → IccGet) :
    MsmBusCompat × UInt32 :=
  match pdata with
  | none => (s, 0)
  | some pdata =>
    match pdata.usecase with
    | none | some [] => (s, 0)
    | some (first :: _) =>
      if s.dev.isNone then (s, 0)
      else match s.freeSlot with
        | none => (s, 0)
        | some slot =>
          let h := acquirePaths icc s.allocated 0 first.vectors { pdata := some pdata }
          let allocated := s.allocated + first.vectors.length
          if h.numPaths = 0 then
            -- the slot keeps the pdata, and stays free
            ({ s with handles := Function.update s.handles slot h, allocated := allocated }, 0)
          else
            ({ s with
                handles := Function.update s.handles slot { h with inUse := true }
                allocated := allocated },
              UInt32.ofNat (slot + 1))

/-- The slot of a handle in 1..4. -/
def slotOf (cl : UInt32) : Option (Fin msmBusCompatMaxHandles) :=
  if h : cl ≠ 0 ∧ cl.toNat - 1 < msmBusCompatMaxHandles then some ⟨cl.toNat - 1, h.2⟩ else none

/-- The loop that takes the votes back. -/
def dropVotes (rcs : ℕ → ℤ) : ℕ → List MsmBusCompatPath → Votes → Votes
  | _, [], votes => votes
  | i, p :: ps, votes => dropVotes rcs (i+1) ps (iccSetBw votes p.path (0, 0) (rcs i)).1

def unregisterClient (cl : UInt32) (rcs : ℕ → ℤ) : MsmBusCompat :=
  match slotOf cl with
  | none => s
  | some slot =>
    if (s.handles slot).inUse then
      { s with
        handles := Function.update s.handles slot {}
        votes := dropVotes rcs 0 (s.handles slot).paths s.votes }
    else s

/-- The walk over the vectors of a usecase, with the value that is returned so far. -/
def updateVectors (h : MsmBusCompatHandle) (rcs : ℕ → ℤ) :
    ℕ → List MsmBusVectors → Votes → ℤ → Votes × ℤ
  | _, [], votes, ret => (votes, ret)
  | i, v :: vs, votes, ret =>
    match findPath h v.src v.dst with
    | none => updateVectors h rcs (i+1) vs votes ret
    | some p =>
      let (votes', rc) := iccSetBw votes (some p) v.kbps (rcs i)
      updateVectors h rcs (i+1) vs votes' (if rc ≠ 0 ∧ ret = 0 then rc else ret)

/-- `none` stands for a usecase that is read beyond the array, which the signed comparison
lets through for an index from 2^31 on. -/
def clientUpdateRequest (cl index : UInt32) (rcs : ℕ → ℤ) : Option (MsmBusCompat × ℤ) :=
  match slotOf cl with
  | none => some (s, -22)
  | some slot =>
    match (s.handles slot).inUse, (s.handles slot).pdata with
    | false, _ | _, none => some (s, -22)
    | true, some pdata =>
      if (pdata.numUsecases : ℤ) ≤ index.toInt32.toInt then some (s, -22)
      else
        (pdata.usecase.getD [])[index.toNat]?.map fun uc =>
          let done := updateVectors (s.handles slot) rcs 0 uc.vectors s.votes 0
          ({ s with votes := done.1 }, done.2)

end MsmBusCompat

section DefaultPdata

def compatInitVectors : List MsmBusVectors :=
  [⟨msmBusMasterIpa, msmBusSlaveEbiCh0, 0, 0⟩, ⟨msmBusMasterIpa, msmBusSlaveOcimem, 0, 0⟩]

def compatNominalVectors : List MsmBusVectors :=
  [⟨msmBusMasterIpa, msmBusSlaveEbiCh0, 100000000, 1300000000⟩,
    ⟨msmBusMasterIpa, msmBusSlaveOcimem, 100000000, 1300000000⟩]

/-- What `msm_bus_cl_get_pdata` returns. -/
def compatDefaultPdata : MsmBusScalePdata where
  usecase := some [⟨compatInitVectors⟩, ⟨compatNominalVectors⟩]
  numUsecases_lt := by decide

end DefaultPdata

end X00TDCellular
