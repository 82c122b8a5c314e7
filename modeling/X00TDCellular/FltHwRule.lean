import Mathlib.Data.BitVec
import X00TDCellular.FltTable
import X00TDCellular.SequentialFormat

/-! The hardware image of a filter rule, as `ipa_flt.c` and `ipa_utils.c` write it with
the writers of `ipa_api.c`. A buffer is what has been written since its start, which lies
on a word boundary. -/

namespace X00TDCellular

section Writers

def ipaWrite8 (b : UInt8) (dest : List UInt8) : List UInt8 := dest ++ [b]

def ipaWrite16 (hw : UInt16) (dest : List UInt8) : List UInt8 := dest ++ [byte0 hw, byte1 hw]

def ipaWrite32 (w : UInt32) (dest : List UInt8) : List UInt8 := dest ++ le32 w

def ipaPadTo32 (dest : List UInt8) : List UInt8 :=
  let i := dest.length % 4
  if i ≠ 0 then dest ++ List.replicate (4-i) 0 else dest

def writeByteEq (v : UInt8) (buf : List UInt8) : List UInt8 := ipaPadTo32 (ipaWrite8 v buf)

def writeWordEq (v : UInt32) (buf : List UInt8) : List UInt8 := ipaPadTo32 (ipaWrite32 v buf)

def writeEq16 (e : Eq16) (buf : List UInt8) : List UInt8 :=
  ipaPadTo32 (ipaWrite16 e.value (ipaWrite8 e.offset.toUInt8 buf))

def writeEq32 (e : Eq32) (buf : List UInt8) : List UInt8 :=
  ipaPadTo32 (ipaWrite32 e.value (ipaWrite8 e.offset.toUInt8 buf))

def writeRange16 (e : RangeEq16) (buf : List UInt8) : List UInt8 :=
  ipaPadTo32 (ipaWrite16 e.rangeLow (ipaWrite16 e.rangeHigh (ipaWrite8 e.offset.toUInt8 buf)))

def writeMeq32 (e : MaskEq32) (buf : List UInt8) : List UInt8 :=
  ipaPadTo32 (ipaWrite32 e.value (ipaWrite32 e.mask (ipaWrite8 e.offset.toUInt8 buf)))

/-- The loops over the 16 bytes of the mask and of the value. -/
def writeMeq128 (e : MaskEq128) (buf : List UInt8) : List UInt8 :=
  let buf := ipaWrite8 e.offset.toUInt8 buf
  let buf := e.mask.foldl (fun buf b => ipaWrite8 b buf) buf
  ipaPadTo32 (e.value.foldl (fun buf b => ipaWrite8 b buf) buf)

/-- The write of an equation that may be absent. -/
def writeOpt {α : Type} (write : α → List UInt8 → List UInt8) (e : Option α)
    (buf : List UInt8) : List UInt8 :=
  e.elim buf fun e => write e buf

/-- `ipa_generate_hw_rule_from_eq`: of each array the first two entries are written, as
far as its counter says. -/
def ipaGenerateHwRuleFromEq (attrib : IpfltriRuleEq) (buf : List UInt8) : List UInt8 :=
  let buf := writeOpt writeByteEq attrib.tosEq buf
  let buf := writeOpt writeByteEq attrib.protocolEq buf
  let buf := writeOpt writeMeq32 attrib.offsetMeq32[0]? buf
  let buf := writeOpt writeMeq32 attrib.offsetMeq32[1]? buf
  let buf := writeOpt writeRange16 attrib.ihlOffsetRange16[0]? buf
  let buf := writeOpt writeRange16 attrib.ihlOffsetRange16[1]? buf
  let buf := writeOpt writeEq16 attrib.ihlOffsetEq16 buf
  let buf := writeOpt writeEq32 attrib.ihlOffsetEq32 buf
  let buf := writeOpt writeMeq32 attrib.ihlOffsetMeq32[0]? buf
  let buf := writeOpt writeMeq128 attrib.offsetMeq128[0]? buf
  let buf := writeOpt writeMeq128 attrib.offsetMeq128[1]? buf
  let buf := writeOpt writeByteEq attrib.tcEq buf
  let buf := writeOpt writeWordEq attrib.flEq buf
  -- the second equation of this kind stands behind the flow label
  let buf := writeOpt writeMeq32 attrib.ihlOffsetMeq32[1]? buf
  let buf := writeOpt writeMeq32 attrib.metadataMeq32 buf
  if attrib.ipv4FragEq then ipaPadTo32 buf else buf

end Writers

section Attributes

/-- The locals of `ipa_generate_hw_rule`, with `*buf` and `*en_rule`. -/
structure HwRuleGen where
  buf : List UInt8
  enRule : UInt16 := 0
  ofstMeq32 : ℕ := 0
  ihlOfstRng16 : ℕ := 0
  ihlOfstMeq32 : ℕ := 0
  ofstMeq128 : ℕ := 0

namespace HwRuleGen

/-- Each kind of equation has two slots; the third is "ran out of eq". -/
def meq32 (write : List UInt8 → List UInt8) (g : HwRuleGen) : Option HwRuleGen := do
  let slot ← [eqBit 2, eqBit 3][g.ofstMeq32]?
  return { g with
    enRule := g.enRule ||| slot, buf := write g.buf, ofstMeq32 := g.ofstMeq32 + 1 }

def ihlRng16 (e : RangeEq16) (g : HwRuleGen) : Option HwRuleGen := do
  let slot ← [eqBit 4, eqBit 5][g.ihlOfstRng16]?
  if e.rangeHigh < e.rangeLow then none
  else return { g with
    enRule := g.enRule ||| slot, buf := writeRange16 e g.buf, ihlOfstRng16 := g.ihlOfstRng16 + 1 }

def ihlMeq32 (e : MaskEq32) (g : HwRuleGen) : Option HwRuleGen := do
  let slot ← [eqBit 8, eqBit 13][g.ihlOfstMeq32]?
  return { g with
    enRule := g.enRule ||| slot, buf := writeMeq32 e g.buf, ihlOfstMeq32 := g.ihlOfstMeq32 + 1 }

def meq128 (write : List UInt8 → List UInt8) (g : HwRuleGen) : Option HwRuleGen := do
  let slot ← [eqBit 9, eqBit 10][g.ofstMeq128]?
  return { g with
    enRule := g.enRule ||| slot, buf := write g.buf, ofstMeq128 := g.ofstMeq128 + 1 }

/-- An equation that a rule has at most once. -/
def single (bit : UInt16) (write : List UInt8 → List UInt8) (g : HwRuleGen) :
    Option HwRuleGen :=
  some { g with enRule := g.enRule ||| bit, buf := write g.buf }

end HwRuleGen

variable (attrib : RuleAttrib)

def macByte (a : Fin 6 → UInt8) (i : ℕ) : UInt8 := if h : i < 6 then a ⟨i, h⟩ else 0

/-- `ipa_generate_mac_addr_hw_rule`. -/
def writeMacAddr (offset : UInt8) (mask addr : Fin 6 → UInt8) (buf : List UInt8) :
    List UInt8 :=
  let half (a : Fin 6 → UInt8) (buf : List UInt8) : List UInt8 :=
    let buf := ipaWrite8 (macByte a 2) (ipaWrite8 (macByte a 3) buf)
    let buf := ipaWrite8 (macByte a 0) (ipaWrite8 (macByte a 1) buf)
    let buf := ipaWrite8 (macByte a 4) (ipaWrite8 (macByte a 5) (ipaWrite16 0 buf))
    ipaWrite32 0 (ipaWrite32 0 buf)
  ipaPadTo32 (half addr (half mask (ipaWrite8 offset buf)))

/-- The ether type in the upper half of the mask and of the value. -/
def writeEtherType (buf : List UInt8) : List UInt8 :=
  let buf := ipaWrite16 (htons attrib.etherType) (ipaWrite16 0 (ipaWrite8 0xFE buf))
  ipaPadTo32 (ipaWrite16 (htons attrib.etherType) (ipaWrite16 0 buf))

/-- Four words of the mask and four of the value, by `ipa_write_32`. -/
def writeWords128 (offset : UInt8) (mask value : List UInt32) (buf : List UInt8) :
    List UInt8 :=
  let buf := mask.foldl (fun buf w => ipaWrite32 w buf) (ipaWrite8 offset buf)
  ipaPadTo32 (value.foldl (fun buf w => ipaWrite32 w buf) buf)

/-- A step that is taken when the attribute is set. -/
def whenHas (a : FltAttrib) (f : HwRuleGen → Option HwRuleGen) (g : HwRuleGen) :
    Option HwRuleGen :=
  if attrib.has a then f g else some g

/-- The four steps on Ethernet addresses, the same for both families. -/
def hwMacAddrs (g : HwRuleGen) : Option HwRuleGen := do
  let g ← whenHas attrib .macDstAddrEtherII
    (·.meq128 (writeMacAddr (-14) attrib.dstMacAddrMask attrib.dstMacAddr)) g
  let g ← whenHas attrib .macSrcAddrEtherII
    (·.meq128 (writeMacAddr (-8) attrib.srcMacAddrMask attrib.srcMacAddr)) g
  let g ← whenHas attrib .macDstAddr8023
    (·.meq128 (writeMacAddr (-22) attrib.dstMacAddrMask attrib.dstMacAddr)) g
  whenHas attrib .macSrcAddr8023
    (·.meq128 (writeMacAddr (-16) attrib.srcMacAddrMask attrib.srcMacAddr)) g

def hwMetaData (g : HwRuleGen) : Option HwRuleGen :=
  g.single (eqBit 14) (writeMeq32 ⟨0, attrib.metaDataMask, attrib.metaData⟩)

/-- The fragment equation has no parameters. -/
def hwFragment (g : HwRuleGen) : Option HwRuleGen := g.single (eqBit 15) ipaPadTo32

def hwRuleV4 (g : HwRuleGen) : Option HwRuleGen := do
  if attrib.has .nextHdr || attrib.has .tc || attrib.has .flowLabel then none
  let g ← whenHas attrib .tos (·.single (eqBit 0) (writeByteEq attrib.u.v4Tos)) g
  let g ← whenHas attrib .tosMasked (·.meq32 (writeMeq32
    ⟨0, attrib.tosMask.toUInt32 <<< 16, attrib.tosValue.toUInt32 <<< 16⟩)) g
  let g ← whenHas attrib .protocol (·.single (eqBit 1) (writeByteEq attrib.u.v4Protocol)) g
  let g ← whenHas attrib .srcAddr
    (·.meq32 (writeMeq32 ⟨12, attrib.u.v4SrcAddrMask, attrib.u.v4SrcAddr⟩)) g
  let g ← whenHas attrib .dstAddr
    (·.meq32 (writeMeq32 ⟨16, attrib.u.v4DstAddrMask, attrib.u.v4DstAddr⟩)) g
  let g ← whenHas attrib .macEtherType (·.meq32 (writeEtherType attrib)) g
  let g ← whenHas attrib .srcPortRange (·.ihlRng16 ⟨0, attrib.srcPortLo, attrib.srcPortHi⟩) g
  let g ← whenHas attrib .dstPortRange (·.ihlRng16 ⟨2, attrib.dstPortLo, attrib.dstPortHi⟩) g
  let g ← whenHas attrib .type (·.ihlMeq32 ⟨0, 0xFF, attrib.type.toUInt32⟩) g
  let g ← whenHas attrib .code (·.ihlMeq32 ⟨1, 0xFF, attrib.code.toUInt32⟩) g
  let g ← whenHas attrib .spi (·.ihlMeq32 ⟨0, 0xFFFFFFFF, attrib.spi⟩) g
  let g ← whenHas attrib .srcPort (·.ihlRng16 ⟨0, attrib.srcPort, attrib.srcPort⟩) g
  let g ← whenHas attrib .dstPort (·.ihlRng16 ⟨2, attrib.dstPort, attrib.dstPort⟩) g
  let g ← hwMacAddrs attrib g
  let g ← whenHas attrib .metaData (hwMetaData attrib) g
  whenHas attrib .fragment hwFragment g

def hwRuleV6 (g : HwRuleGen) : Option HwRuleGen := do
  if attrib.has .tos || attrib.has .protocol then none
  let g ← whenHas attrib .nextHdr (·.single (eqBit 1) (writeByteEq attrib.u.v6NextHdr)) g
  let g ← whenHas attrib .macEtherType (·.meq32 (writeEtherType attrib)) g
  let g ← whenHas attrib .type (·.ihlMeq32 ⟨0, 0xFF, attrib.type.toUInt32⟩) g
  let g ← whenHas attrib .code (·.ihlMeq32 ⟨1, 0xFF, attrib.code.toUInt32⟩) g
  let g ← whenHas attrib .spi (·.ihlMeq32 ⟨0, 0xFFFFFFFF, attrib.spi⟩) g
  let g ← whenHas attrib .l2tpInnerIpType (·.ihlMeq32
    ⟨22, 0xF0000000, if attrib.type = 0x40 then 0x40000000 else 0x60000000⟩) g
  let g ← whenHas attrib .l2tpInnerIpv4DstAddr
    (·.ihlMeq32 ⟨38, attrib.u.v4DstAddrMask, attrib.u.v4DstAddr⟩) g
  let g ← whenHas attrib .srcPort (·.ihlRng16 ⟨0, attrib.srcPort, attrib.srcPort⟩) g
  let g ← whenHas attrib .dstPort (·.ihlRng16 ⟨2, attrib.dstPort, attrib.dstPort⟩) g
  let g ← whenHas attrib .srcPortRange (·.ihlRng16 ⟨0, attrib.srcPortLo, attrib.srcPortHi⟩) g
  let g ← whenHas attrib .dstPortRange (·.ihlRng16 ⟨2, attrib.dstPortLo, attrib.dstPortHi⟩) g
  let g ← whenHas attrib .srcAddr
    (·.meq128 (writeWords128 8 attrib.u.v6SrcAddrMask attrib.u.v6SrcAddr)) g
  let g ← whenHas attrib .dstAddr
    (·.meq128 (writeWords128 24 attrib.u.v6DstAddrMask attrib.u.v6DstAddr)) g
  let g ← whenHas attrib .tc (·.single (eqBit 11) (writeByteEq attrib.u.v6Tc)) g
  let g ← whenHas attrib .tosMasked (·.meq128 (writeWords128 0
    [attrib.tosMask.toUInt32 <<< 20, 0, 0, 0] [attrib.tosValue.toUInt32 <<< 20, 0, 0, 0])) g
  let g ← hwMacAddrs attrib g
  let g ← whenHas attrib .flowLabel (·.single (eqBit 12) (writeWordEq attrib.u.v6FlowLabel)) g
  let g ← whenHas attrib .metaData (hwMetaData attrib) g
  whenHas attrib .fragment hwFragment g

/-- The buffer and `*en_rule`, which the caller has set to zero; the failures are all
`-EPERM`. -/
def ipaGenerateHwRule (ip : IpaIpType) (buf : List UInt8) : Option (List UInt8 × UInt16) := do
  let g ← (match ip with
    | .v4 => hwRuleV4 attrib { buf := buf }
    | .v6 => hwRuleV6 attrib { buf := buf }
    | .max => none)
  -- no attribute set: the default rule
  let g ← if attrib.attribMask = 0 then g.meq32 (writeMeq32 ⟨0, 0, 0⟩) else some g
  return (g.buf, g.enRule)

end Attributes

/-- The bit fields of `struct ipa_flt_rule_hw_hdr`, the lowest first. -/
structure FltRuleHwHdr where
  enRule : BitVec 16
  action : BitVec 5
  rtTblIdx : BitVec 5
  retainHdr : BitVec 1
  toUc : BitVec 1
  rsvd : BitVec 4 := 0
  deriving DecidableEq, Repr

def FltRuleHwHdr.word (hdr : FltRuleHwHdr) : UInt32 :=
  ⟨hdr.rsvd ++ (hdr.toUc ++ (hdr.retainHdr ++ (hdr.rtTblIdx ++ (hdr.action ++ hdr.enRule))))⟩

/-- The value of the enumerator. -/
def FltAction.toBits : FltAction → BitVec 5
  | .passToRouting => 0
  | .passToSrcNat => 1
  | .passToDstNat => 2
  | .passToException => 3

/-- What the generator reads of a `struct ipa_flt_entry`; `rtTbl` is `rt_tbl->idx` where
the rule names a table. -/
structure FltHwEntry where
  action : FltAction
  retainHdr : UInt8 := 0
  toUc : UInt8 := 0
  rtTbl : Option UInt32 := none
  rtTblIdx : UInt32 := 0
  eqAttribType : Bool := false
  attrib : RuleAttrib := { attribMask := 0 }
  eqAttrib : IpfltriRuleEq := {}
  hwLen : ℕ := 0

namespace FltHwEntry

/-- The header that is stored, each value cut to its bit field. -/
def hdr (entry : FltHwEntry) (enRule : UInt16) : FltRuleHwHdr where
  enRule := enRule.toBitVec
  action := entry.action.toBits
  rtTblIdx := (entry.rtTbl.getD entry.rtTblIdx).toBitVec.setWidth 5
  retainHdr := entry.retainHdr.toBitVec.setWidth 1
  toUc := entry.toUc.toBitVec.setWidth 1

/-- The parameters of the equations behind the header, and the bitmap for it. -/
def params (entry : FltHwEntry) (ip : IpaIpType) (buf : List UInt8) :
    Option (List UInt8 × UInt16) :=
  if entry.eqAttribType then
    some (ipaGenerateHwRuleFromEq entry.eqAttrib buf, entry.eqAttrib.ruleEqBitmap)
  else ipaGenerateHwRule entry.attrib ip buf

end FltHwEntry

/-- `ipa_generate_flt_hw_rule`: the entry with its length, and the buffer. The word of the
header is left out first and stored when the parameters are known. -/
def ipaGenerateFltHwRule (ip : IpaIpType) (entry : FltHwEntry) (buf : List UInt8) :
    Option (FltHwEntry × List UInt8) := do
  let (body, enRule) ← entry.params ip (buf ++ [0, 0, 0, 0])
  let rule := buf ++ le32 (entry.hdr enRule).word ++ body.drop (buf.length + 4)
  let len := rule.length - buf.length
  if entry.hwLen = 0 then return ({ entry with hwLen := len }, rule)
  else if entry.hwLen ≠ len then none
  else return (entry, rule)

end X00TDCellular
