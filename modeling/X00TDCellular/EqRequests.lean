import X00TDCellular.FltRuleFormat

/-! The equations that `ipa_generate_hw_rule` and `ipa_generate_flt_eq` are asked for by
a rule's attributes: the same requests, in different orders. -/

namespace X00TDCellular

/-- One equation that a generator is asked for. -/
inductive EqReq
  | tos (v : UInt8)
  | protocol (v : UInt8)
  | tc (v : UInt8)
  | fl (v : UInt32)
  | metadata (e : MaskEq32)
  | frag
  | meq32 (e : MaskEq32)
  | ihlRng16 (e : RangeEq16)
  | ihlMeq32 (e : MaskEq32)
  | meq128 (e : MaskEq128)

namespace EqReq

/-- The bits of the bitmap that stand for equations of this kind, in the order of use. -/
def slots : EqReq → List ℕ
  | .tos _ => [0]
  | .protocol _ => [1]
  | .meq32 _ => [2, 3]
  | .ihlRng16 _ => [4, 5]
  | .ihlMeq32 _ => [8, 13]
  | .meq128 _ => [9, 10]
  | .tc _ => [11]
  | .fl _ => [12]
  | .metadata _ => [14]
  | .frag => [15]

/-- The parameters as the hardware reads them. -/
def bytes : EqReq → List UInt8
  | .tos v | .protocol v | .tc v => byteEqFormat.write v
  | .fl v => wordEqFormat.write v
  | .metadata e | .meq32 e | .ihlMeq32 e => meq32Format.write e
  | .ihlRng16 e => range16Format.write e
  | .meq128 e => meq128Format.write e
  | .frag => []

/-- The step of `ipa_generate_flt_eq`. -/
def push : EqReq → IpfltriRuleEq → Option IpfltriRuleEq
  | .tos v, eq => some { eq with
      ruleEqBitmap := eq.ruleEqBitmap ||| eqBit 0, tosEq := some v }
  | .protocol v, eq => genProtocol v eq
  | .tc v, eq => some { eq with
      ruleEqBitmap := eq.ruleEqBitmap ||| eqBit 11, tcEq := some v }
  | .fl v, eq => some { eq with
      ruleEqBitmap := eq.ruleEqBitmap ||| eqBit 12, flEq := some v }
  | .metadata e, eq => some { eq with
      ruleEqBitmap := eq.ruleEqBitmap ||| eqBit 14, metadataMeq32 := some e }
  | .frag, eq => some { eq with
      ruleEqBitmap := eq.ruleEqBitmap ||| eqBit 15, ipv4FragEq := true }
  | .meq32 e, eq => eq.pushMeq32 e
  | .ihlRng16 e, eq => eq.pushIhlRng16 e
  | .ihlMeq32 e, eq => eq.pushIhlMeq32 e
  | .meq128 e, eq => eq.pushMeq128 e

/-- The step of `ipa_generate_hw_rule`. -/
def gen : EqReq → HwRuleGen → Option HwRuleGen
  | .tos v, g => g.single (eqBit 0) (writeByteEq v)
  | .protocol v, g => g.single (eqBit 1) (writeByteEq v)
  | .tc v, g => g.single (eqBit 11) (writeByteEq v)
  | .fl v, g => g.single (eqBit 12) (writeWordEq v)
  | .metadata e, g => g.single (eqBit 14) (writeMeq32 e)
  | .frag, g => g.single (eqBit 15) ipaPadTo32
  | .meq32 e, g => g.meq32 (writeMeq32 e)
  | .ihlRng16 e, g => g.ihlRng16 e
  | .ihlMeq32 e, g => g.ihlMeq32 e
  | .meq128 e, g => g.meq128 (writeMeq128 e)

end EqReq

def pushAll (rs : List EqReq) (eq : IpfltriRuleEq) : Option IpfltriRuleEq :=
  rs.foldlM (fun eq r => r.push eq) eq

def genAll (rs : List EqReq) (g : HwRuleGen) : Option HwRuleGen :=
  rs.foldlM (fun g r => r.gen g) g

section Requests

variable (attrib : RuleAttrib)

def reqIf (a : FltAttrib) (r : EqReq) : List EqReq := if attrib.has a then [r] else []

theorem pushAll_append (rs ss : List EqReq) (eq : IpfltriRuleEq) :
    pushAll (rs ++ ss) eq = (pushAll rs eq).bind (pushAll ss) := List.foldlM_append

theorem genAll_append (rs ss : List EqReq) (g : HwRuleGen) :
    genAll (rs ++ ss) g = (genAll rs g).bind (genAll ss) := List.foldlM_append

theorem pushAll_reqIf (a : FltAttrib) (r : EqReq) (eq : IpfltriRuleEq) :
    pushAll (reqIf attrib a r) eq = whenSet attrib a r.push eq := by
  unfold pushAll reqIf whenSet
  split
  · exact List.foldlM_cons.trans (bind_pure _)
  · rfl

theorem genAll_reqIf (a : FltAttrib) (r : EqReq) (g : HwRuleGen) :
    genAll (reqIf attrib a r) g = whenHas attrib a r.gen g := by
  unfold genAll reqIf whenHas
  split
  · exact List.foldlM_cons.trans (bind_pure _)
  · rfl

def macReqs : List EqReq :=
  reqIf attrib .macDstAddrEtherII
      (.meq128 (macAddrEq (-14) attrib.dstMacAddrMask attrib.dstMacAddr)) ++
    (reqIf attrib .macSrcAddrEtherII
      (.meq128 (macAddrEq (-8) attrib.srcMacAddrMask attrib.srcMacAddr)) ++
    (reqIf attrib .macDstAddr8023
      (.meq128 (macAddrEq (-22) attrib.dstMacAddrMask attrib.dstMacAddr)) ++
    reqIf attrib .macSrcAddr8023
      (.meq128 (macAddrEq (-16) attrib.srcMacAddrMask attrib.srcMacAddr))))

def lastReqs : List EqReq :=
  reqIf attrib .metaData (.metadata ⟨0, attrib.metaDataMask, attrib.metaData⟩) ++
    reqIf attrib .fragment .frag

/-- The ether type, in the half of the word where each generator puts it. -/
def etherReqs (shift : UInt32) : List EqReq :=
  reqIf attrib .macEtherType (.meq32 ⟨-2, (htons attrib.etherType).toUInt32 <<< shift,
    (htons attrib.etherType).toUInt32 <<< shift⟩)

def firstReqsV4 : List EqReq :=
  reqIf attrib .tos (.tos attrib.u.v4Tos) ++
    (reqIf attrib .tosMasked (.meq32 ⟨0, attrib.tosMask.toUInt32 <<< 16,
      attrib.tosValue.toUInt32 <<< 16⟩) ++
    (reqIf attrib .protocol (.protocol attrib.u.v4Protocol) ++
    (reqIf attrib .srcAddr (.meq32 ⟨12, attrib.u.v4SrcAddrMask, attrib.u.v4SrcAddr⟩) ++
    reqIf attrib .dstAddr (.meq32 ⟨16, attrib.u.v4DstAddrMask, attrib.u.v4DstAddr⟩))))

def portReqsV4 : List EqReq :=
  reqIf attrib .srcPortRange (.ihlRng16 ⟨0, attrib.srcPortLo, attrib.srcPortHi⟩) ++
    (reqIf attrib .dstPortRange (.ihlRng16 ⟨2, attrib.dstPortLo, attrib.dstPortHi⟩) ++
    (reqIf attrib .type (.ihlMeq32 ⟨0, 0xFF, attrib.type.toUInt32⟩) ++
    (reqIf attrib .code (.ihlMeq32 ⟨1, 0xFF, attrib.code.toUInt32⟩) ++
    (reqIf attrib .spi (.ihlMeq32 ⟨0, 0xFFFFFFFF, attrib.spi⟩) ++
    (reqIf attrib .srcPort (.ihlRng16 ⟨0, attrib.srcPort, attrib.srcPort⟩) ++
    reqIf attrib .dstPort (.ihlRng16 ⟨2, attrib.dstPort, attrib.dstPort⟩))))))

theorem genCommon_eq_pushAll (eq : IpfltriRuleEq) :
    genCommon attrib eq =
      pushAll (lastReqs attrib ++ (macReqs attrib ++ etherReqs attrib 0)) eq := by
  simp only [lastReqs, macReqs, etherReqs, pushAll_append, List.append_assoc, pushAll_reqIf,
    UInt32.shiftLeft_zero]
  rfl

theorem genV4_eq_pushAll (eq : IpfltriRuleEq) :
    genV4 attrib eq =
      if attrib.has .nextHdr || attrib.has .tc || attrib.has .flowLabel then none
      else pushAll (firstReqsV4 attrib ++ (portReqsV4 attrib ++
        (lastReqs attrib ++ (macReqs attrib ++ etherReqs attrib 0)))) eq := by
  unfold genV4
  split
  · rfl
  · simp only [firstReqsV4, portReqsV4, pushAll_append, List.append_assoc, pushAll_reqIf,
      genCommon_eq_pushAll]
    rfl

/-- `l2tp` is the value that the generator compares the inner IP type with. -/
def middleReqsV6 (l2tp : UInt32) : List EqReq :=
  reqIf attrib .type (.ihlMeq32 ⟨0, 0xFF, attrib.type.toUInt32⟩) ++
    (reqIf attrib .code (.ihlMeq32 ⟨1, 0xFF, attrib.code.toUInt32⟩) ++
    (reqIf attrib .spi (.ihlMeq32 ⟨0, 0xFFFFFFFF, attrib.spi⟩) ++
    (reqIf attrib .l2tpInnerIpType (.ihlMeq32 ⟨22, 0xF0000000, l2tp⟩) ++
    (reqIf attrib .l2tpInnerIpv4DstAddr
      (.ihlMeq32 ⟨38, attrib.u.v4DstAddrMask, attrib.u.v4DstAddr⟩) ++
    (reqIf attrib .srcPort (.ihlRng16 ⟨0, attrib.srcPort, attrib.srcPort⟩) ++
    (reqIf attrib .dstPort (.ihlRng16 ⟨2, attrib.dstPort, attrib.dstPort⟩) ++
    (reqIf attrib .srcPortRange (.ihlRng16 ⟨0, attrib.srcPortLo, attrib.srcPortHi⟩) ++
    (reqIf attrib .dstPortRange (.ihlRng16 ⟨2, attrib.dstPortLo, attrib.dstPortHi⟩) ++
    (reqIf attrib .srcAddr (.meq128
      ⟨8, u32Bytes attrib.u.v6SrcAddrMask, u32Bytes attrib.u.v6SrcAddr⟩) ++
    (reqIf attrib .dstAddr (.meq128
      ⟨24, u32Bytes attrib.u.v6DstAddrMask, u32Bytes attrib.u.v6DstAddr⟩) ++
    (reqIf attrib .tc (.tc attrib.u.v6Tc) ++
    reqIf attrib .tosMasked (.meq128 ⟨0, u32Bytes [attrib.tosMask.toUInt32 <<< 20, 0, 0, 0],
      u32Bytes [attrib.tosValue.toUInt32 <<< 20, 0, 0, 0]⟩))))))))))))

def nextHdrReqs : List EqReq := reqIf attrib .nextHdr (.protocol attrib.u.v6NextHdr)

def flowReqs : List EqReq := reqIf attrib .flowLabel (.fl attrib.u.v6FlowLabel)

theorem genV6_eq_pushAll (eq : IpfltriRuleEq) :
    genV6 attrib eq =
      if attrib.has .tos || attrib.has .protocol then none
      else pushAll (nextHdrReqs attrib ++ (middleReqsV6 attrib (attrib.type.toUInt32 <<< 24) ++
        ((flowReqs attrib ++ lastReqs attrib) ++ (macReqs attrib ++ etherReqs attrib 0)))) eq := by
  unfold genV6
  split
  · rfl
  · simp only [nextHdrReqs, middleReqsV6, flowReqs, pushAll_append, List.append_assoc,
      pushAll_reqIf, genCommon_eq_pushAll]
    rfl

theorem foldl_ipaWrite32 (words : List UInt32) (buf : List UInt8) :
    words.foldl (fun buf w => ipaWrite32 w buf) buf = buf ++ u32Bytes words := by
  induction words generalizing buf with
  | nil => exact (List.append_nil buf).symm
  | cons w words ih =>
    rw [List.foldl_cons, ih, ipaWrite32, List.append_assoc]
    rfl

theorem writeWords128_eq (offset : Int8) (mask value : List UInt32) :
    writeWords128 offset.toUInt8 mask value =
      writeMeq128 ⟨offset, u32Bytes mask, u32Bytes value⟩ := by
  funext buf
  simp only [writeWords128, writeMeq128, foldl_ipaWrite32, foldl_ipaWrite8]

theorem writeMacAddr_eq (offset : Int8) (mask addr : Fin 6 → UInt8) :
    writeMacAddr offset.toUInt8 mask addr = writeMeq128 (macAddrEq offset mask addr) := by
  funext buf
  have hbyte (a : Fin 6 → UInt8) : macByte a 0 = a 0 ∧ macByte a 1 = a 1 ∧ macByte a 2 = a 2 ∧
      macByte a 3 = a 3 ∧ macByte a 4 = a 4 ∧ macByte a 5 = a 5 := ⟨rfl, rfl, rfl, rfl, rfl, rfl⟩
  have h16 (buf : List UInt8) : ipaWrite16 0 buf = buf ++ [0, 0] := rfl
  have h32 (buf : List UInt8) : ipaWrite32 0 buf = buf ++ [0, 0, 0, 0] := rfl
  have hfold : writeMeq128 (macAddrEq offset mask addr) buf =
      ipaPadTo32 (buf ++ [offset.toUInt8] ++ (macAddrEq offset mask addr).mask ++
        (macAddrEq offset mask addr).value) := by
    simp only [writeMeq128, foldl_ipaWrite8]
    rfl
  rw [hfold]
  simp only [writeMacAddr, hbyte, macAddrEq, h16, h32, ipaWrite8, List.append_assoc,
    List.cons_append, List.nil_append, List.reduceReplicate]

theorem le32_upper (v : UInt16) : le32 (v.toUInt32 <<< 16) = [0, 0, byte0 v, byte1 v] := by
  have hlt : v.toNat < 65536 := v.toNat_lt
  have hbyte : v.toNat / 256 < 256 := by omega
  simp only [le32, List.cons.injEq, and_true]
  refine ⟨?_, ?_, ?_, ?_⟩
  all_goals
    apply UInt8.toNat_inj.mp
    simp [toNat_byte0, toNat_byte1, and_255, Nat.shiftLeft_eq, Nat.shiftRight_eq_div_pow]
    omega

theorem writeEtherType_eq :
    writeEtherType attrib = writeMeq32 ⟨-2, (htons attrib.etherType).toUInt32 <<< 16,
      (htons attrib.etherType).toUInt32 <<< 16⟩ := by
  funext buf
  have hzero : byte0 0 = 0 ∧ byte1 0 = 0 := by decide
  have hoffset : (-2 : Int8).toUInt8 = 0xFE := by decide
  simp only [writeEtherType, writeMeq32, ipaWrite8, ipaWrite16, ipaWrite32, le32_upper,
    hoffset, hzero.1, hzero.2, List.append_assoc]
  rfl

theorem hwMacAddrs_eq_genAll (g : HwRuleGen) :
    hwMacAddrs attrib g = genAll (macReqs attrib) g := by
  have hmac (offset : Int8) (mask addr : Fin 6 → UInt8) :
      (EqReq.meq128 (macAddrEq offset mask addr)).gen =
        fun g => g.meq128 (writeMacAddr offset.toUInt8 mask addr) := by
    funext g
    rw [writeMacAddr_eq]
    rfl
  simp only [macReqs, genAll_append, genAll_reqIf, hmac]
  rfl

theorem etherReqs_gen (g : HwRuleGen) :
    genAll (etherReqs attrib 16) g =
      whenHas attrib .macEtherType (·.meq32 (writeEtherType attrib)) g := by
  rw [etherReqs, genAll_reqIf, writeEtherType_eq]
  rfl

theorem hwRuleV4_eq_genAll (g : HwRuleGen) :
    hwRuleV4 attrib g =
      if attrib.has .nextHdr || attrib.has .tc || attrib.has .flowLabel then none
      else genAll (firstReqsV4 attrib ++ (etherReqs attrib 16 ++ (portReqsV4 attrib ++
        (macReqs attrib ++ lastReqs attrib)))) g := by
  unfold hwRuleV4
  split
  · rfl
  · simp only [firstReqsV4, portReqsV4, lastReqs, genAll_append, List.append_assoc,
      genAll_reqIf, etherReqs_gen, ← hwMacAddrs_eq_genAll]
    rfl

theorem hwRuleV6_eq_genAll (g : HwRuleGen) :
    hwRuleV6 attrib g =
      if attrib.has .tos || attrib.has .protocol then none
      else genAll (nextHdrReqs attrib ++ (etherReqs attrib 16 ++
        (middleReqsV6 attrib (if attrib.type = 0x40 then 0x40000000 else 0x60000000) ++
        (macReqs attrib ++ (flowReqs attrib ++ lastReqs attrib))))) g := by
  have hwords (offset : Int8) (mask value : List UInt32) :
      (EqReq.meq128 ⟨offset, u32Bytes mask, u32Bytes value⟩).gen =
        fun g => g.meq128 (writeWords128 offset.toUInt8 mask value) := by
    funext g
    rw [writeWords128_eq]
    rfl
  unfold hwRuleV6
  by_cases h : (attrib.has .tos || attrib.has .protocol) = true
  · simp only [if_pos h]
    rfl
  · simp only [if_neg h, nextHdrReqs, middleReqsV6, flowReqs, lastReqs, genAll_append,
      List.append_assoc, genAll_reqIf, etherReqs_gen, hwords, ← hwMacAddrs_eq_genAll]
    rfl

end Requests

namespace EqReq

/-- The equations of the kind that are there already; a single one is never looked at. -/
def used : EqReq → IpfltriRuleEq → ℕ
  | .meq32 _, eq => eq.offsetMeq32.length
  | .ihlRng16 _, eq => eq.ihlOffsetRange16.length
  | .ihlMeq32 _, eq => eq.ihlOffsetMeq32.length
  | .meq128 _, eq => eq.offsetMeq128.length
  | _, _ => 0

/-- The check on the bounds of a range. -/
def valid : EqReq → Bool
  | .ihlRng16 e => ¬ e.rangeHigh < e.rangeLow
  | _ => true

/-- The equation in its field, the bitmap apart. -/
def place : EqReq → IpfltriRuleEq → IpfltriRuleEq
  | .tos v, eq => { eq with tosEq := some v }
  | .protocol v, eq => { eq with protocolEq := some v }
  | .tc v, eq => { eq with tcEq := some v }
  | .fl v, eq => { eq with flEq := some v }
  | .metadata e, eq => { eq with metadataMeq32 := some e }
  | .frag, eq => { eq with ipv4FragEq := true }
  | .meq32 e, eq => { eq with offsetMeq32 := eq.offsetMeq32 ++ [e] }
  | .ihlRng16 e, eq => { eq with ihlOffsetRange16 := eq.ihlOffsetRange16 ++ [e] }
  | .ihlMeq32 e, eq => { eq with ihlOffsetMeq32 := eq.ihlOffsetMeq32 ++ [e] }
  | .meq128 e, eq => { eq with offsetMeq128 := eq.offsetMeq128 ++ [e] }

/-- The bit that the next equation of the kind takes. -/
def slotAt (r : EqReq) (n : ℕ) : Option ℕ := if r.valid then r.slots[n]? else none

/-- The equation is placed and its bit set. -/
def pushAt (r : EqReq) (eq : IpfltriRuleEq) (bit : ℕ) : IpfltriRuleEq :=
  { r.place eq with ruleEqBitmap := eq.ruleEqBitmap ||| eqBit (UInt16.ofNat bit) }

/-- One of the two places of a kind. -/
theorem slot_bind {α : Type} (a b n : ℕ) (f : UInt16 → α) :
    ([eqBit (UInt16.ofNat a), eqBit (UInt16.ofNat b)][n]?).bind (fun slot => some (f slot)) =
      ([a, b][n]?).map fun bit => f (eqBit (UInt16.ofNat bit)) := by
  match n with
  | 0 => rfl
  | 1 => rfl
  | _+2 => rfl

theorem push_eq (r : EqReq) (eq : IpfltriRuleEq) :
    r.push eq = (r.slotAt (r.used eq)).map (r.pushAt eq) := by
  cases r
  case ihlRng16 e =>
    by_cases h : e.rangeHigh < e.rangeLow
    · simp [push, IpfltriRuleEq.pushIhlRng16, slotAt, valid, h]
    · have hvalid : (ihlRng16 e).valid = true := by simp [valid, h]
      rw [slotAt, if_pos hvalid]
      simp only [push, IpfltriRuleEq.pushIhlRng16, if_neg h]
      exact slot_bind 4 5 _ fun slot => { eq with
        ruleEqBitmap := eq.ruleEqBitmap ||| slot
        ihlOffsetRange16 := eq.ihlOffsetRange16 ++ [e] }
  case meq32 e =>
    exact slot_bind 2 3 _ fun slot => { eq with
      ruleEqBitmap := eq.ruleEqBitmap ||| slot, offsetMeq32 := eq.offsetMeq32 ++ [e] }
  case ihlMeq32 e =>
    exact slot_bind 8 13 _ fun slot => { eq with
      ruleEqBitmap := eq.ruleEqBitmap ||| slot, ihlOffsetMeq32 := eq.ihlOffsetMeq32 ++ [e] }
  case meq128 e =>
    exact slot_bind 9 10 _ fun slot => { eq with
      ruleEqBitmap := eq.ruleEqBitmap ||| slot, offsetMeq128 := eq.offsetMeq128 ++ [e] }
  all_goals rfl

theorem used_place {r s : EqReq} (h : r.slots ≠ s.slots) (eq : IpfltriRuleEq) :
    r.used (s.place eq) = r.used eq := by
  cases r <;> cases s <;> first | rfl | exact absurd rfl h

theorem place_comm {r s : EqReq} (h : r.slots ≠ s.slots) (eq : IpfltriRuleEq) :
    r.place (s.place eq) = s.place (r.place eq) := by
  cases r <;> cases s <;> first | rfl | exact absurd rfl h

theorem place_bitmap (r : EqReq) (eq : IpfltriRuleEq) (bits : UInt16) :
    r.place { eq with ruleEqBitmap := bits } = { r.place eq with ruleEqBitmap := bits } := by
  cases r <;> rfl

theorem used_bitmap (r : EqReq) (eq : IpfltriRuleEq) (bits : UInt16) :
    r.used { eq with ruleEqBitmap := bits } = r.used eq := by
  cases r <;> rfl

theorem used_pushAt {r s : EqReq} (h : r.slots ≠ s.slots) (eq : IpfltriRuleEq) (n : ℕ) :
    r.used (s.pushAt eq n) = r.used eq := by
  rw [pushAt, used_bitmap, used_place h]

theorem pushAt_comm {r s : EqReq} (h : r.slots ≠ s.slots) (eq : IpfltriRuleEq) (m n : ℕ) :
    s.pushAt (r.pushAt eq m) n = r.pushAt (s.pushAt eq n) m := by
  have hbits : eq.ruleEqBitmap ||| eqBit (UInt16.ofNat m) ||| eqBit (UInt16.ofNat n) =
      eq.ruleEqBitmap ||| eqBit (UInt16.ofNat n) ||| eqBit (UInt16.ofNat m) := by
    rw [UInt16.or_assoc, UInt16.or_comm (eqBit (UInt16.ofNat m)), ← UInt16.or_assoc]
  simp only [pushAt, place_bitmap, place_comm h.symm, hbits]

/-- Requests of different kinds do not see each other. -/
theorem push_comm {r s : EqReq} (h : r.slots ≠ s.slots) (eq : IpfltriRuleEq) :
    (r.push eq).bind s.push = (s.push eq).bind r.push := by
  have hfirst (m : ℕ) : s.push (r.pushAt eq m) =
      (s.slotAt (s.used eq)).map (s.pushAt (r.pushAt eq m)) := by
    rw [push_eq, used_pushAt h.symm]
  have hsecond (n : ℕ) : r.push (s.pushAt eq n) =
      (r.slotAt (r.used eq)).map (r.pushAt (s.pushAt eq n)) := by
    rw [push_eq, used_pushAt h]
  rw [push_eq r, push_eq s]
  cases hr : r.slotAt (r.used eq) <;> cases hs : s.slotAt (s.used eq) <;>
    simp [hfirst, hsecond, hr, hs, pushAt_comm h]

end EqReq

section Order

/-- The two lists ask for equations of different kinds. -/
def Apart (rs ss : List EqReq) : Prop := ∀ r ∈ rs, ∀ s ∈ ss, r.slots ≠ s.slots

theorem pushAll_cons (r : EqReq) (rs : List EqReq) (eq : IpfltriRuleEq) :
    pushAll (r :: rs) eq = (r.push eq).bind (pushAll rs) := List.foldlM_cons

theorem push_pushAll_comm {r : EqReq} {ss : List EqReq} (h : ∀ s ∈ ss, r.slots ≠ s.slots)
    (eq : IpfltriRuleEq) : (r.push eq).bind (pushAll ss) = (pushAll ss eq).bind r.push := by
  induction ss generalizing eq with
  | nil => exact Option.bind_fun_some (r.push eq)
  | cons s ss ih =>
    have hs := h s List.mem_cons_self
    have hss := ih fun t ht => h t (List.mem_cons_of_mem s ht)
    calc (r.push eq).bind (pushAll (s :: ss))
        = ((r.push eq).bind s.push).bind (pushAll ss) := by
          rw [Option.bind_assoc]
          exact congrArg _ (funext fun eq => pushAll_cons s ss eq)
      _ = ((s.push eq).bind r.push).bind (pushAll ss) := by rw [EqReq.push_comm hs]
      _ = (s.push eq).bind fun eq => (r.push eq).bind (pushAll ss) := Option.bind_assoc _ _ _
      _ = (s.push eq).bind fun eq => (pushAll ss eq).bind r.push := by simp only [hss]
      _ = (pushAll (s :: ss) eq).bind r.push := by rw [pushAll_cons, Option.bind_assoc]

theorem pushAll_comm {rs ss : List EqReq} (h : Apart rs ss) (eq : IpfltriRuleEq) :
    pushAll (rs ++ ss) eq = pushAll (ss ++ rs) eq := by
  rw [pushAll_append, pushAll_append]
  induction rs generalizing eq with
  | nil => exact (Option.bind_fun_some _).symm
  | cons r rs ih =>
    have hr := push_pushAll_comm (fun s hs => h r List.mem_cons_self s hs) eq
    have hrs := ih fun t ht => h t (List.mem_cons_of_mem r ht)
    calc (pushAll (r :: rs) eq).bind (pushAll ss)
        = (r.push eq).bind fun eq => (pushAll rs eq).bind (pushAll ss) := by
          rw [pushAll_cons, Option.bind_assoc]
      _ = (r.push eq).bind fun eq => (pushAll ss eq).bind (pushAll rs) := by simp only [hrs]
      _ = ((r.push eq).bind (pushAll ss)).bind (pushAll rs) := (Option.bind_assoc _ _ _).symm
      _ = ((pushAll ss eq).bind r.push).bind (pushAll rs) := by rw [hr]
      _ = (pushAll ss eq).bind (pushAll (r :: rs)) := by
          rw [Option.bind_assoc]
          exact congrArg _ (funext fun eq => (pushAll_cons r rs eq).symm)

end Order

end X00TDCellular
