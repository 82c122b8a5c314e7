import Mathlib.Data.Int.Notation
import X00TDCellular.EnvProgram

/-! `get_ipa_dts_configuration`: what the probe reads from the device tree, with the lookups
of the interrupts as the port has them. The platform may answer each lookup in any way. -/

namespace X00TDCellular
open EnvProgram Prog

/-- The properties read with `of_property_read_u32`. -/
inductive U32Property
  | ipaHwVer | ipaHwMode | wanRxRingSize | lanRxRingSize | ee | rxPollingSleepMs
  | ipaPollingIteration
  deriving DecidableEq, Repr

/-- The properties read with `of_property_read_bool`. -/
inductive BoolProperty
  | ipaUcMonitorHolb | useIpaTetheringBridge | ipaBamRemoteMode | modemCfgEmbPipeFlt | ipaWdi2
  | skipUcPipeReset | useDmaZone | tetheredFlowControl
  deriving DecidableEq, Repr

inductive MemResource
  | ipaBase | bamBase | ipaPipeMem
  deriving DecidableEq, Repr

inductive IrqName
  | ipaIrq | bamIrq
  deriving DecidableEq, Repr

inductive DtsLookup
  | readU32 (p : U32Property)
  | readBool (p : BoolProperty)
  | getMem (r : MemResource)
  | getIrq (i : IrqName)
  deriving DecidableEq, Repr

structure Resource where
  start : UInt64
  size : UInt64

/-- A lookup of a number or of a memory resource finds it or not; one of an interrupt
returns an `int`. -/
abbrev DtsAnswer : DtsLookup → Type
  | .readU32 _ => Option UInt32
  | .readBool _ => Bool
  | .getMem _ => Option Resource
  | .getIrq _ => Int32

abbrev Dts := Prog DtsLookup DtsAnswer

def ofPropertyReadU32 (p : U32Property) : Dts (Option UInt32) := ask (DtsLookup.readU32 p)

def ofPropertyReadBool (p : BoolProperty) : Dts Bool := ask (DtsLookup.readBool p)

/-- `platform_get_resource_byname` of an `IORESOURCE_MEM`. -/
def platformGetMemByname (r : MemResource) : Dts (Option Resource) := ask (DtsLookup.getMem r)

def platformGetIrqByname (i : IrqName) : Dts Int32 := ask (DtsLookup.getIrq i)

/-- `struct ipa_plat_drv_res`. -/
structure IpaPlatDrvRes where
  useIpaTethBridge : Bool
  ipaMemBase : UInt32
  ipaMemSize : UInt32
  bamMemBase : UInt32
  bamMemSize : UInt32
  ipaIrq : UInt32
  bamIrq : UInt32
  ipaPipeMemStartOfst : UInt32
  ipaPipeMemSize : UInt32
  ipaHwType : UInt32
  ipaHwMode : UInt32
  ee : UInt32
  ipaBamRemoteMode : Bool
  modemCfgEmbPipeFlt : Bool
  ipaWdi2 : Bool
  wanRxRingSize : UInt32
  lanRxRingSize : UInt32
  skipUcPipeReset : Bool
  useDmaZone : Bool
  tetheredFlowControl : Bool
  ipaRxPollingSleepMsec : UInt32
  ipaPollingIteration : UInt32
  ipaUcMonitorHolb : Bool

/-- What the function writes: the resources, and the base and size in `smmu_info`. -/
structure DtsState where
  res : IpaPlatDrvRes
  ipaBase : UInt32
  ipaSize : UInt32

def ipaGenericRxPoolSz : UInt32 := 192

def oneMsec : UInt32 := 1

def maxPollingIteration : UInt32 := 40

def enodev : ℤ := 19

/-- The property, or what the field has without it. -/
def readU32Or (p : U32Property) (field : UInt32) : Dts UInt32 := do
  let found ← ofPropertyReadU32 p
  return found.getD field

/-- The optional properties in front of the memory resources. -/
def readProperties (res : IpaPlatDrvRes) : Dts IpaPlatDrvRes := do
  let ipaHwMode ← readU32Or .ipaHwMode res.ipaHwMode
  let ipaUcMonitorHolb ← ofPropertyReadBool .ipaUcMonitorHolb
  let wanRxRingSize ← readU32Or .wanRxRingSize res.wanRxRingSize
  let lanRxRingSize ← readU32Or .lanRxRingSize res.lanRxRingSize
  let useIpaTethBridge ← ofPropertyReadBool .useIpaTetheringBridge
  let ipaBamRemoteMode ← ofPropertyReadBool .ipaBamRemoteMode
  let modemCfgEmbPipeFlt ← ofPropertyReadBool .modemCfgEmbPipeFlt
  let ipaWdi2 ← ofPropertyReadBool .ipaWdi2
  let skipUcPipeReset ← ofPropertyReadBool .skipUcPipeReset
  let useDmaZone ← ofPropertyReadBool .useDmaZone
  let tetheredFlowControl ← ofPropertyReadBool .tetheredFlowControl
  return { res with
    ipaHwMode, ipaUcMonitorHolb, wanRxRingSize, lanRxRingSize, useIpaTethBridge,
    ipaBamRemoteMode, modemCfgEmbPipeFlt, ipaWdi2, skipUcPipeReset, useDmaZone,
    tetheredFlowControl }

/-- The pipe memory is optional too. -/
def readPipeMem (res : IpaPlatDrvRes) : Dts IpaPlatDrvRes := do
  let found ← platformGetMemByname .ipaPipeMem
  match found with
  | none => return res
  | some r =>
    return { res with
      ipaPipeMemStartOfst := r.start.toUInt32
      ipaPipeMemSize := r.size.toUInt32 }

/-- The optional properties behind the interrupts. -/
def readPolling (res : IpaPlatDrvRes) : Dts IpaPlatDrvRes := do
  let ee ← readU32Or .ee 0
  let ipaRxPollingSleepMsec ← readU32Or .rxPollingSleepMs oneMsec
  let ipaPollingIteration ← readU32Or .ipaPollingIteration maxPollingIteration
  return { res with ee, ipaRxPollingSleepMsec, ipaPollingIteration }

/-- The fields that have a value before anything is read. -/
def IpaPlatDrvRes.initialize (res : IpaPlatDrvRes) : IpaPlatDrvRes :=
  { res with
    ipaPipeMemStartOfst := 0
    ipaPipeMemSize := 0
    ipaHwType := 0
    ipaHwMode := 0
    ipaUcMonitorHolb := false
    ipaBamRemoteMode := false
    modemCfgEmbPipeFlt := false
    ipaWdi2 := false
    wanRxRingSize := ipaGenericRxPoolSz
    lanRxRingSize := ipaGenericRxPoolSz }

/-- From the interrupts on. The fields are unsigned, and the checks are made on them. -/
def readIrqs (s : DtsState) : Dts (ℤ × DtsState) := do
  let irq ← platformGetIrqByname .ipaIrq
  let s := { s with res := { s.res with ipaIrq := irq.toUInt32 } }
  if s.res.ipaIrq < 0 then return (-enodev, s)
  else
    let irq ← platformGetIrqByname .bamIrq
    let s := { s with res := { s.res with bamIrq := irq.toUInt32 } }
    if s.res.bamIrq < 0 then return (-enodev, s)
    else
      let res ← readPolling s.res
      return (0, { s with res })

/-- From the memory resources on. -/
def readMemory (s : DtsState) : Dts (ℤ × DtsState) := do
  let found ← platformGetMemByname .ipaBase
  match found with
  | none => return (-enodev, s)
  | some r =>
    let s : DtsState := {
      res := { s.res with ipaMemBase := r.start.toUInt32, ipaMemSize := r.size.toUInt32 }
      ipaBase := r.start.toUInt32
      ipaSize := r.size.toUInt32 }
    let found ← platformGetMemByname .bamBase
    match found with
    | none => return (-enodev, s)
    | some r =>
      let res := { s.res with bamMemBase := r.start.toUInt32, bamMemSize := r.size.toUInt32 }
      let res ← readPipeMem res
      readIrqs { s with res }

def getIpaDtsConfiguration (s : DtsState) : Dts (ℤ × DtsState) := do
  let res := s.res.initialize
  let found ← ofPropertyReadU32 .ipaHwVer
  match found with
  | none => return (-enodev, { s with res })
  | some ipaHwType =>
    let res := { res with ipaHwType }
    if res.ipaHwType = 0 then return (-enodev, { s with res })
    else
      let res ← readProperties res
      readMemory { s with res }

section Outcome

variable {env : ∀ c, DtsAnswer c}

theorem readPolling_irqs (env : ∀ c, DtsAnswer c) (res : IpaPlatDrvRes) :
    ((readPolling res).outcome env).ipaIrq = res.ipaIrq ∧
      ((readPolling res).outcome env).bamIrq = res.bamIrq := by
  simp only [readPolling, outcome_bind, outcome_pure, and_self]

/-- Whatever the lookups of the interrupts return, the checks pass. -/
theorem readIrqs_outcome (env : ∀ c, DtsAnswer c) (s : DtsState) :
    ((readIrqs s).outcome env).1 = 0 ∧
      ((readIrqs s).outcome env).2.res.ipaIrq = (env (.getIrq .ipaIrq)).toUInt32 ∧
      ((readIrqs s).outcome env).2.res.bamIrq = (env (.getIrq .bamIrq)).toUInt32 := by
  -- no unsigned number is below 0
  simp only [readIrqs, platformGetIrqByname, outcome_bind, outcome_ask, outcome_pure,
    UInt32.not_lt_zero, if_false, true_and]
  exact readPolling_irqs env _

/-- Where something is missing that must be there, the function ends before them. -/
theorem readMemory_outcome (env : ∀ c, DtsAnswer c) (s : DtsState) :
    (((env (.getMem .ipaBase)).isSome ∧ (env (.getMem .bamBase)).isSome) ∧
      ∃ s', (readMemory s).outcome env = (readIrqs s').outcome env) ∨
    (¬ ((env (.getMem .ipaBase)).isSome ∧ (env (.getMem .bamBase)).isSome) ∧
      ((readMemory s).outcome env).1 = -enodev) := by
  simp only [readMemory, platformGetMemByname, outcome_bind, outcome_ask]
  cases env (.getMem .ipaBase) with
  | none => exact Or.inr ⟨by simp, rfl⟩
  | some base =>
    dsimp only
    rw [outcome_bind, outcome_ask]
    cases env (.getMem .bamBase) with
    | none => exact Or.inr ⟨by simp, rfl⟩
    | some bam =>
      dsimp only
      rw [outcome_bind]
      exact Or.inl ⟨⟨rfl, rfl⟩, _, rfl⟩

/-- What must be there besides the interrupts. -/
structure OthersFound (env : ∀ c, DtsAnswer c) : Prop where
  hwVer : ∃ v, env (.readU32 .ipaHwVer) = some v ∧ v ≠ 0
  ipaBase : (env (.getMem .ipaBase)).isSome
  bamBase : (env (.getMem .bamBase)).isSome

/-- Without one of them the function fails. -/
theorem getIpaDtsConfiguration_missing (s : DtsState) (h : ¬ OthersFound env) :
    ((getIpaDtsConfiguration s).outcome env).1 = -enodev := by
  simp only [getIpaDtsConfiguration, ofPropertyReadU32, outcome_bind, outcome_ask]
  cases hver : env (.readU32 .ipaHwVer) with
  | none => rfl
  | some v =>
    dsimp only
    by_cases hv : v = 0
    · rw [if_pos hv]
      rfl
    · rw [if_neg hv, outcome_bind]
      rcases readMemory_outcome env _ with ⟨⟨hbase, hbam⟩, -⟩ | ⟨-, hret⟩
      · exact absurd ⟨⟨v, hver, hv⟩, hbase, hbam⟩ h
      · exact hret

/-- With all of them it succeeds, and the fields of the interrupts hold what their lookups
return, as unsigned numbers. -/
theorem getIpaDtsConfiguration_found (s : DtsState) (h : OthersFound env) :
    ((getIpaDtsConfiguration s).outcome env).1 = 0 ∧
      ((getIpaDtsConfiguration s).outcome env).2.res.ipaIrq =
          (env (.getIrq .ipaIrq)).toUInt32 ∧
      ((getIpaDtsConfiguration s).outcome env).2.res.bamIrq =
          (env (.getIrq .bamIrq)).toUInt32 := by
  obtain ⟨v, hver, hv⟩ := h.hwVer
  simp only [getIpaDtsConfiguration, ofPropertyReadU32, outcome_bind, outcome_ask]
  rw [hver]
  dsimp only
  rw [if_neg hv, outcome_bind]
  rcases readMemory_outcome env _ with ⟨-, s', hirqs⟩ | ⟨hnot, -⟩
  · rw [hirqs]
    exact readIrqs_outcome env s'
  · exact absurd ⟨h.ipaBase, h.bamBase⟩ hnot

/-- What the lookups of the interrupts return does not count. -/
theorem getIpaDtsConfiguration_zero_iff (s : DtsState) :
    ((getIpaDtsConfiguration s).outcome env).1 = 0 ↔ OthersFound env := by
  constructor
  · intro hret
    by_contra h
    rw [getIpaDtsConfiguration_missing s h] at hret
    exact absurd hret (by decide)
  · intro h
    exact (getIpaDtsConfiguration_found s h).1

/-- The last lookup that was made. -/
def lastLookup (env : ∀ c, DtsAnswer c) (s : DtsState) : Option DtsLookup :=
  (((getIpaDtsConfiguration s).events env).map Event.call).getLast?

/-- The function succeeds only with two interrupts, whose numbers it stores, and fails on
the spot where the lookup of one fails. -/
structure ChecksIrqs (env : ∀ c, DtsAnswer c) (s : DtsState) : Prop where
  passes : ((getIpaDtsConfiguration s).outcome env).1 = 0 →
    0 < (env (.getIrq .ipaIrq)).toInt ∧ 0 < (env (.getIrq .bamIrq)).toInt ∧
      (((getIpaDtsConfiguration s).outcome env).2.res.ipaIrq.toNat : ℤ) =
        (env (.getIrq .ipaIrq)).toInt ∧
      (((getIpaDtsConfiguration s).outcome env).2.res.bamIrq.toNat : ℤ) =
        (env (.getIrq .bamIrq)).toInt
  ipaIrq : (env (.getIrq .ipaIrq)).toInt < 0 →
    ((getIpaDtsConfiguration s).outcome env).1 ≠ 0 ∧
      lastLookup env s = some (.getIrq .ipaIrq)
  bamIrq : 0 < (env (.getIrq .ipaIrq)).toInt → (env (.getIrq .bamIrq)).toInt < 0 →
    ((getIpaDtsConfiguration s).outcome env).1 ≠ 0 ∧
      lastLookup env s = some (.getIrq .bamIrq)

/-- A positive number is stored as it is. -/
theorem toUInt32_toNat_of_pos {irq : Int32} (h : 0 < irq.toInt) :
    (irq.toUInt32.toNat : ℤ) = irq.toInt := by
  have hint : irq.toInt = irq.toBitVec.toInt := rfl
  have hnat : irq.toUInt32.toNat = irq.toBitVec.toNat := rfl
  rw [hint, BitVec.toInt_eq_toNat_cond] at h ⊢
  rw [hnat]
  split at h <;> rename_i hlt
  · rw [if_pos hlt]
  -- in the upper half the number would be negative
  · have hbound := irq.toBitVec.isLt
    omega

/-- With everything else there, a failed lookup of an interrupt is found out exactly when
there is none. -/
theorem getIpaDtsConfiguration_checksIrqs_iff (s : DtsState) (hothers : OthersFound env) :
    ChecksIrqs env s ↔
      0 < (env (.getIrq .ipaIrq)).toInt ∧ 0 < (env (.getIrq .bamIrq)).toInt := by
  obtain ⟨hret, hfield, hfield'⟩ := getIpaDtsConfiguration_found s hothers
  constructor
  -- the function succeeds anyway, so the checks have to hold on the way
  · intro h
    exact ⟨(h.passes hret).1, (h.passes hret).2.1⟩
  · rintro ⟨hpos, hpos'⟩
    refine ⟨fun _ => ⟨hpos, hpos', ?_, ?_⟩, fun hneg => ?_, fun _ hneg => ?_⟩
    · rw [hfield]
      exact toUInt32_toNat_of_pos hpos
    · rw [hfield']
      exact toUInt32_toNat_of_pos hpos'
    · omega
    · omega

/-- The resources before the probe, all zero. -/
def zeroDtsState : DtsState where
  res := ⟨false, 0, 0, 0, 0, 0, 0, 0, 0, 0, 0, 0, false, false, false, 0, 0, false, false, false,
    0, 0, false⟩
  ipaBase := 0
  ipaSize := 0

/-- The device tree of the phone, and what the lookups of its interrupts return. -/
def ipaDevice (irqs : IrqName → Int32) : ∀ c, DtsAnswer c
  | .readU32 .ipaHwVer => some 6
  | .readU32 .ipaHwMode | .readU32 .ee => some 0
  | .readU32 .wanRxRingSize | .readU32 .lanRxRingSize => some 0xc0
  | .readU32 .rxPollingSleepMs => some 1
  | .readU32 .ipaPollingIteration => some 40
  | .readBool p =>
    p ∈ [.modemCfgEmbPipeFlt, .useDmaZone, .useIpaTetheringBridge, .ipaWdi2]
  | .getMem .ipaBase => some ⟨0x14780000, 0x4000⟩
  | .getMem .bamBase => some ⟨0x14784000, 0x3c000⟩
  | .getMem .ipaPipeMem => none
  | .getIrq i => irqs i

theorem othersFound_ipaDevice (irqs : IrqName → Int32) : OthersFound (ipaDevice irqs) where
  hwVer := ⟨6, rfl, by decide⟩
  ipaBase := rfl
  bamBase := rfl

theorem getIpaDtsConfiguration_checksIrqs_device :
    OthersFound (ipaDevice fun _ => 365) ∧ ChecksIrqs (ipaDevice fun _ => 365) zeroDtsState :=
  ⟨othersFound_ipaDevice _,
    (getIpaDtsConfiguration_checksIrqs_iff zeroDtsState (othersFound_ipaDevice _)).mpr
      ⟨by decide, by decide⟩⟩

/-- Both lookups return `-EPROBE_DEFER`, and the probe goes on. -/
theorem getIpaDtsConfiguration_defer :
    OthersFound (ipaDevice fun _ => -517) ∧
      ¬ ChecksIrqs (ipaDevice fun _ => -517) zeroDtsState := by
  refine ⟨othersFound_ipaDevice _, ?_⟩
  intro h
  have hpos := (h.passes (by decide)).1
  exact absurd hpos (by decide)

end Outcome

end X00TDCellular
