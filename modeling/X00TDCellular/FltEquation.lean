import Mathlib.Data.Fin.VecNotation
import Mathlib.Data.Fintype.Basic
import Mathlib.Tactic.IntervalCases
import X00TDCellular.AddressPrefix
import X00TDCellular.QmiCodec

/-! The match equations of the filter hardware and `ipa_generate_flt_eq`, which
builds them from rule attributes. -/

namespace X00TDCellular

inductive IpaIpType
  | v4
  | v6
  | max
  deriving DecidableEq, Repr

structure MaskEq32 where
  offset : Int8
  mask : UInt32
  value : UInt32
  deriving DecidableEq, Repr

/-- `mask` and `value` are the 16 bytes of the arrays in memory order. -/
structure MaskEq128 where
  offset : Int8
  mask : List UInt8
  value : List UInt8
  deriving DecidableEq, Repr

structure RangeEq16 where
  offset : Int8
  rangeLow : UInt16
  rangeHigh : UInt16
  deriving DecidableEq, Repr

structure Eq16 where
  offset : Int8
  value : UInt16
  deriving DecidableEq, Repr

structure Eq32 where
  offset : Int8
  value : UInt32
  deriving DecidableEq, Repr

/-- `struct ipa_ipfltri_rule_eq`. An array with its counter is a list, a value with its
`present` flag an option. -/
structure IpfltriRuleEq where
  ruleEqBitmap : UInt16 := 0
  tosEq : Option UInt8 := none
  protocolEq : Option UInt8 := none
  ihlOffsetRange16 : List RangeEq16 := []
  offsetMeq32 : List MaskEq32 := []
  tcEq : Option UInt8 := none
  flEq : Option UInt32 := none
  ihlOffsetEq16 : Option Eq16 := none
  ihlOffsetEq32 : Option Eq32 := none
  ihlOffsetMeq32 : List MaskEq32 := []
  offsetMeq128 : List MaskEq128 := []
  metadataMeq32 : Option MaskEq32 := none
  ipv4FragEq : Bool := false
  deriving DecidableEq, Repr

/-- The `IPA_FLT_*` attributes that the generator looks at. -/
inductive FltAttrib
  | tos
  | protocol
  | srcAddr
  | dstAddr
  | srcPortRange
  | dstPortRange
  | type
  | code
  | spi
  | srcPort
  | dstPort
  | tc
  | flowLabel
  | nextHdr
  | metaData
  | fragment
  | tosMasked
  | macSrcAddrEtherII
  | macDstAddrEtherII
  | macSrcAddr8023
  | macDstAddr8023
  | macEtherType
  | l2tpInnerIpType
  | l2tpInnerIpv4DstAddr
  deriving DecidableEq, Repr

/-- The shift in `IPA_FLT_* = 1 << n`. -/
def FltAttrib.bit : FltAttrib → UInt32
  | .tos => 0
  | .protocol => 1
  | .srcAddr => 2
  | .dstAddr => 3
  | .srcPortRange => 4
  | .dstPortRange => 5
  | .type => 6
  | .code => 7
  | .spi => 8
  | .srcPort => 9
  | .dstPort => 10
  | .tc => 11
  | .flowLabel => 12
  | .nextHdr => 13
  | .metaData => 14
  | .fragment => 15
  | .tosMasked => 16
  | .macSrcAddrEtherII => 17
  | .macDstAddrEtherII => 18
  | .macSrcAddr8023 => 19
  | .macDstAddr8023 => 20
  | .macEtherType => 21
  | .l2tpInnerIpType => 25
  | .l2tpInnerIpv4DstAddr => 26

/-- The storage of the union `u`, as its 19 words. The members below are the views
that `u.v4` and `u.v6` give of the same words. -/
structure AttribUnion where
  word : Fin 19 → UInt32
  deriving DecidableEq, Repr

namespace AttribUnion

def v4Tos (u : AttribUnion) : UInt8 := (u.word 0).toUInt8
def v4Protocol (u : AttribUnion) : UInt8 := (u.word 0 >>> 8).toUInt8
def v4SrcAddr (u : AttribUnion) : UInt32 := u.word 1
def v4SrcAddrMask (u : AttribUnion) : UInt32 := u.word 2
def v4DstAddr (u : AttribUnion) : UInt32 := u.word 3
def v4DstAddrMask (u : AttribUnion) : UInt32 := u.word 4

def v6Tc (u : AttribUnion) : UInt8 := (u.word 0).toUInt8
def v6FlowLabel (u : AttribUnion) : UInt32 := u.word 1
def v6NextHdr (u : AttribUnion) : UInt8 := (u.word 2).toUInt8
def v6SrcAddr (u : AttribUnion) : List UInt32 := [u.word 3, u.word 4, u.word 5, u.word 6]
def v6SrcAddrMask (u : AttribUnion) : List UInt32 :=
  [u.word 7, u.word 8, u.word 9, u.word 10]
def v6DstAddr (u : AttribUnion) : List UInt32 :=
  [u.word 11, u.word 12, u.word 13, u.word 14]
def v6DstAddrMask (u : AttribUnion) : List UInt32 :=
  [u.word 15, u.word 16, u.word 17, u.word 18]

def zero : AttribUnion := ⟨fun _ => 0⟩

def ofV4Protocol (protocol : UInt8) : AttribUnion :=
  ⟨fun i => if i = 0 then protocol.toUInt32 <<< 8 else 0⟩

def ofV4Dst (addr mask : UInt32) : AttribUnion :=
  ⟨fun i => if i = 3 then addr else if i = 4 then mask else 0⟩

def ofV6NextHdr (nextHdr : UInt8) : AttribUnion :=
  ⟨fun i => if i = 2 then nextHdr.toUInt32 else 0⟩

/-- A destination and a mask whose last 96 bits are zero. -/
def ofV6DstHigh (addr mask : UInt32) : AttribUnion :=
  ⟨fun i => if i = 11 then addr else if i = 15 then mask else 0⟩

end AttribUnion

/-- `struct ipa_rule_attrib`. -/
structure RuleAttrib where
  attribMask : UInt32
  srcPortLo : UInt16 := 0
  srcPortHi : UInt16 := 0
  dstPortLo : UInt16 := 0
  dstPortHi : UInt16 := 0
  type : UInt8 := 0
  code : UInt8 := 0
  tosValue : UInt8 := 0
  tosMask : UInt8 := 0
  spi : UInt32 := 0
  srcPort : UInt16 := 0
  dstPort : UInt16 := 0
  metaData : UInt32 := 0
  metaDataMask : UInt32 := 0
  srcMacAddr : Fin 6 → UInt8 := fun _ => 0
  srcMacAddrMask : Fin 6 → UInt8 := fun _ => 0
  dstMacAddr : Fin 6 → UInt8 := fun _ => 0
  dstMacAddrMask : Fin 6 → UInt8 := fun _ => 0
  etherType : UInt16 := 0
  u : AttribUnion := .zero
  deriving DecidableEq, Repr

def RuleAttrib.has (attrib : RuleAttrib) (a : FltAttrib) : Bool :=
  attrib.attribMask &&& (1 <<< a.bit) ≠ 0

/-- `BIT(n)` of the equation bitmap. -/
def eqBit (n : UInt16) : UInt16 := 1 <<< n

namespace IpfltriRuleEq

/-- Each kind of equation has two slots with a bit of the bitmap each; a third entry
is refused. -/
def pushMeq32 (eq : IpfltriRuleEq) (e : MaskEq32) : Option IpfltriRuleEq := do
  let slot ← [eqBit 2, eqBit 3][eq.offsetMeq32.length]?
  return { eq with
    ruleEqBitmap := eq.ruleEqBitmap ||| slot
    offsetMeq32 := eq.offsetMeq32 ++ [e] }

def pushMeq128 (eq : IpfltriRuleEq) (e : MaskEq128) : Option IpfltriRuleEq := do
  let slot ← [eqBit 9, eqBit 10][eq.offsetMeq128.length]?
  return { eq with
    ruleEqBitmap := eq.ruleEqBitmap ||| slot
    offsetMeq128 := eq.offsetMeq128 ++ [e] }

def pushIhlRng16 (eq : IpfltriRuleEq) (e : RangeEq16) : Option IpfltriRuleEq := do
  let slot ← [eqBit 4, eqBit 5][eq.ihlOffsetRange16.length]?
  if e.rangeHigh < e.rangeLow then none
  else return { eq with
    ruleEqBitmap := eq.ruleEqBitmap ||| slot
    ihlOffsetRange16 := eq.ihlOffsetRange16 ++ [e] }

def pushIhlMeq32 (eq : IpfltriRuleEq) (e : MaskEq32) : Option IpfltriRuleEq := do
  let slot ← [eqBit 8, eqBit 13][eq.ihlOffsetMeq32.length]?
  return { eq with
    ruleEqBitmap := eq.ruleEqBitmap ||| slot
    ihlOffsetMeq32 := eq.ihlOffsetMeq32 ++ [e] }

end IpfltriRuleEq

/-- The four words of an address, stored one by one through `u32` pointers. -/
def u32Bytes (words : List UInt32) : List UInt8 := words.flatMap le32

/-- `ipa_generate_flt_mac_addr_eq`: the bytes of each word are reversed. -/
def macAddrEq (offset : Int8) (mask addr : Fin 6 → UInt8) : MaskEq128 where
  offset := offset
  mask := [mask 3, mask 2, mask 1, mask 0, 0, 0, mask 5, mask 4] ++ List.replicate 8 0
  value := [addr 3, addr 2, addr 1, addr 0, 0, 0, addr 5, addr 4] ++ List.replicate 8 0

def htons (v : UInt16) : UInt16 := (v <<< 8) ||| (v >>> 8)

section Generate

variable (attrib : RuleAttrib)

/-- A step of the generator that is taken when the attribute is set. -/
def whenSet (a : FltAttrib) (f : IpfltriRuleEq → Option IpfltriRuleEq)
    (eq : IpfltriRuleEq) : Option IpfltriRuleEq :=
  if attrib.has a then f eq else some eq

def genTos (eq : IpfltriRuleEq) : Option IpfltriRuleEq :=
  some { eq with
    ruleEqBitmap := eq.ruleEqBitmap ||| eqBit 0, tosEq := some attrib.u.v4Tos }

def genProtocol (protocol : UInt8) (eq : IpfltriRuleEq) : Option IpfltriRuleEq :=
  some { eq with
    ruleEqBitmap := eq.ruleEqBitmap ||| eqBit 1, protocolEq := some protocol }

/-- The bits of the traffic class and the flow label are those of their attributes. -/
def genTc (eq : IpfltriRuleEq) : Option IpfltriRuleEq :=
  some { eq with
    ruleEqBitmap := eq.ruleEqBitmap ||| eqBit 11, tcEq := some attrib.u.v6Tc }

def genFlowLabel (eq : IpfltriRuleEq) : Option IpfltriRuleEq :=
  some { eq with
    ruleEqBitmap := eq.ruleEqBitmap ||| eqBit 12, flEq := some attrib.u.v6FlowLabel }

def genSrcPortRange (eq : IpfltriRuleEq) : Option IpfltriRuleEq :=
  eq.pushIhlRng16 ⟨0, attrib.srcPortLo, attrib.srcPortHi⟩

def genDstPortRange (eq : IpfltriRuleEq) : Option IpfltriRuleEq :=
  eq.pushIhlRng16 ⟨2, attrib.dstPortLo, attrib.dstPortHi⟩

def genSrcPort (eq : IpfltriRuleEq) : Option IpfltriRuleEq :=
  eq.pushIhlRng16 ⟨0, attrib.srcPort, attrib.srcPort⟩

def genDstPort (eq : IpfltriRuleEq) : Option IpfltriRuleEq :=
  eq.pushIhlRng16 ⟨2, attrib.dstPort, attrib.dstPort⟩

def genType (eq : IpfltriRuleEq) : Option IpfltriRuleEq :=
  eq.pushIhlMeq32 ⟨0, 0xFF, attrib.type.toUInt32⟩

def genCode (eq : IpfltriRuleEq) : Option IpfltriRuleEq :=
  eq.pushIhlMeq32 ⟨1, 0xFF, attrib.code.toUInt32⟩

def genSpi (eq : IpfltriRuleEq) : Option IpfltriRuleEq :=
  eq.pushIhlMeq32 ⟨0, 0xFFFFFFFF, attrib.spi⟩

/-- The steps that both families end with. -/
def genCommon (eq : IpfltriRuleEq) : Option IpfltriRuleEq := do
  let eq ← whenSet attrib .metaData (fun eq => some { eq with
    ruleEqBitmap := eq.ruleEqBitmap ||| eqBit 14
    metadataMeq32 := some ⟨0, attrib.metaDataMask, attrib.metaData⟩ }) eq
  let eq ← whenSet attrib .fragment (fun eq => some { eq with
    ruleEqBitmap := eq.ruleEqBitmap ||| eqBit 15, ipv4FragEq := true }) eq
  let eq ← whenSet attrib .macDstAddrEtherII
    (·.pushMeq128 (macAddrEq (-14) attrib.dstMacAddrMask attrib.dstMacAddr)) eq
  let eq ← whenSet attrib .macSrcAddrEtherII
    (·.pushMeq128 (macAddrEq (-8) attrib.srcMacAddrMask attrib.srcMacAddr)) eq
  let eq ← whenSet attrib .macDstAddr8023
    (·.pushMeq128 (macAddrEq (-22) attrib.dstMacAddrMask attrib.dstMacAddr)) eq
  let eq ← whenSet attrib .macSrcAddr8023
    (·.pushMeq128 (macAddrEq (-16) attrib.srcMacAddrMask attrib.srcMacAddr)) eq
  whenSet attrib .macEtherType (·.pushMeq32 ⟨-2, (htons attrib.etherType).toUInt32,
    (htons attrib.etherType).toUInt32⟩) eq

def genV4 (eq : IpfltriRuleEq) : Option IpfltriRuleEq := do
  if attrib.has .nextHdr || attrib.has .tc || attrib.has .flowLabel then none
  let eq ← whenSet attrib .tos (genTos attrib) eq
  let eq ← whenSet attrib .tosMasked (·.pushMeq32 ⟨0, attrib.tosMask.toUInt32 <<< 16,
    attrib.tosValue.toUInt32 <<< 16⟩) eq
  let eq ← whenSet attrib .protocol (genProtocol attrib.u.v4Protocol) eq
  let eq ← whenSet attrib .srcAddr
    (·.pushMeq32 ⟨12, attrib.u.v4SrcAddrMask, attrib.u.v4SrcAddr⟩) eq
  let eq ← whenSet attrib .dstAddr
    (·.pushMeq32 ⟨16, attrib.u.v4DstAddrMask, attrib.u.v4DstAddr⟩) eq
  let eq ← whenSet attrib .srcPortRange (genSrcPortRange attrib) eq
  let eq ← whenSet attrib .dstPortRange (genDstPortRange attrib) eq
  let eq ← whenSet attrib .type (genType attrib) eq
  let eq ← whenSet attrib .code (genCode attrib) eq
  let eq ← whenSet attrib .spi (genSpi attrib) eq
  let eq ← whenSet attrib .srcPort (genSrcPort attrib) eq
  let eq ← whenSet attrib .dstPort (genDstPort attrib) eq
  genCommon attrib eq

def genV6 (eq : IpfltriRuleEq) : Option IpfltriRuleEq := do
  if attrib.has .tos || attrib.has .protocol then none
  let eq ← whenSet attrib .nextHdr (genProtocol attrib.u.v6NextHdr) eq
  let eq ← whenSet attrib .type (genType attrib) eq
  let eq ← whenSet attrib .code (genCode attrib) eq
  let eq ← whenSet attrib .spi (genSpi attrib) eq
  let eq ← whenSet attrib .l2tpInnerIpType
    (·.pushIhlMeq32 ⟨22, 0xF0000000, attrib.type.toUInt32 <<< 24⟩) eq
  -- `u.v4` of a v6 rule: the first two words of its source address
  let eq ← whenSet attrib .l2tpInnerIpv4DstAddr
    (·.pushIhlMeq32 ⟨38, attrib.u.v4DstAddrMask, attrib.u.v4DstAddr⟩) eq
  let eq ← whenSet attrib .srcPort (genSrcPort attrib) eq
  let eq ← whenSet attrib .dstPort (genDstPort attrib) eq
  let eq ← whenSet attrib .srcPortRange (genSrcPortRange attrib) eq
  let eq ← whenSet attrib .dstPortRange (genDstPortRange attrib) eq
  let eq ← whenSet attrib .srcAddr (·.pushMeq128
    ⟨8, u32Bytes attrib.u.v6SrcAddrMask, u32Bytes attrib.u.v6SrcAddr⟩) eq
  let eq ← whenSet attrib .dstAddr (·.pushMeq128
    ⟨24, u32Bytes attrib.u.v6DstAddrMask, u32Bytes attrib.u.v6DstAddr⟩) eq
  let eq ← whenSet attrib .tc (genTc attrib) eq
  let eq ← whenSet attrib .tosMasked (·.pushMeq128
    ⟨0, u32Bytes [attrib.tosMask.toUInt32 <<< 20, 0, 0, 0],
      u32Bytes [attrib.tosValue.toUInt32 <<< 20, 0, 0, 0]⟩) eq
  let eq ← whenSet attrib .flowLabel (genFlowLabel attrib) eq
  genCommon attrib eq

/-- The equation of the attributes, written over what the caller passed in `eq`; the
failures are all `-EPERM`. The counters start from zero, the `present` flags are kept. -/
def ipaGenerateFltEq (ip : IpaIpType) (eq : IpfltriRuleEq) : Option IpfltriRuleEq := do
  let eq := { eq with
    ruleEqBitmap := 0, ihlOffsetRange16 := [], offsetMeq32 := [], ihlOffsetMeq32 := []
    offsetMeq128 := [] }
  let eq ← (match ip with
    | .v4 => genV4 attrib eq
    | .v6 => genV6 attrib eq
    | .max => none)
  -- no attribute set: an equation that every packet satisfies
  if attrib.attribMask = 0 then eq.pushMeq32 ⟨0, 0, 0⟩ else return eq

end Generate

/-- The bytes of a packet by their offset from the IP header. -/
abbrev IpPacket := ℤ → UInt8

def be32 (p : IpPacket) (offset : ℤ) : UInt32 :=
  getLe32 (p (offset+3)) (p (offset+2)) (p (offset+1)) (p offset)

/-- Word `i` of the 16 bytes of a 128-bit mask or value. -/
def maskWord (bytes : List UInt8) (i : ℕ) : UInt32 :=
  getLe32 (bytes.getD (4*i) 0) (bytes.getD (4*i+1) 0) (bytes.getD (4*i+2) 0)
    (bytes.getD (4*i+3) 0)

def MaskEq32.Matches (e : MaskEq32) (p : IpPacket) : Prop :=
  be32 p e.offset.toInt &&& e.mask = e.value

def MaskEq128.Matches (e : MaskEq128) (p : IpPacket) : Prop :=
  ∀ i : ℕ, i < 4 → be32 p (e.offset.toInt + 4*i) &&& maskWord e.mask i = maskWord e.value i

/-- The IPv4 protocol or the IPv6 next header. -/
def ipProtocol (ip : IpaIpType) (p : IpPacket) : UInt8 :=
  if ip = .v4 then p 9 else p 6

/-- The equation matches the packet, as far as it tests the protocol and masked words
of the header. -/
def IpfltriRuleEq.Matches (eq : IpfltriRuleEq) (ip : IpaIpType) (p : IpPacket) : Prop :=
  (∀ protocol ∈ eq.protocolEq, ipProtocol ip p = protocol) ∧
    (∀ e ∈ eq.offsetMeq32, e.Matches p) ∧ ∀ e ∈ eq.offsetMeq128, e.Matches p

/-- The words that `u32` pointers store are the words that the comparison reads. -/
theorem maskWord_u32Bytes (w0 w1 w2 w3 : UInt32) :
    ∀ i < 4, maskWord (u32Bytes [w0, w1, w2, w3]) i = [w0, w1, w2, w3].getD i 0 := by
  obtain ⟨a0, a1, a2, a3, ha, ha'⟩ := getLe32_le32 w0
  obtain ⟨b0, b1, b2, b3, hb, hb'⟩ := getLe32_le32 w1
  obtain ⟨c0, c1, c2, c3, hc, hc'⟩ := getLe32_le32 w2
  obtain ⟨d0, d1, d2, d3, hd, hd'⟩ := getLe32_le32 w3
  have hbytes : u32Bytes [w0, w1, w2, w3] =
      [a0, a1, a2, a3, b0, b1, b2, b3, c0, c1, c2, c3, d0, d1, d2, d3] := by
    simp [u32Bytes, ha, hb, hc, hd]
  intro i hi
  rw [hbytes]
  interval_cases i
  · exact ha'
  · exact hb'
  · exact hc'
  · exact hd'

end X00TDCellular
