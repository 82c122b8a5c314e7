import X00TDCellular.WanDlRules

/-! What the hand-built equations of the WAN-DL rules match, against the equations
that `ipa_generate_flt_eq` produces for the attributes in their comments. -/

namespace X00TDCellular
open AddressPrefix

/-- The attribute that the comment of each rule names. -/
def WanDlRule.attrib : WanDlRule → RuleAttrib
  | .icmpV4 => { attribMask := 1 <<< FltAttrib.protocol.bit, u := .ofV4Protocol 1 }
  | .mcastV4 => { attribMask := 1 <<< FltAttrib.dstAddr.bit, u := .ofV4Dst 0xE0000000 0xF0000000 }
  | .bcastV4 => { attribMask := 1 <<< FltAttrib.dstAddr.bit, u := .ofV4Dst 0xFFFFFFFF 0xFFFFFFFF }
  | .icmpV6 => { attribMask := 1 <<< FltAttrib.nextHdr.bit, u := .ofV6NextHdr 58 }
  | .mcastV6 =>
    { attribMask := 1 <<< FltAttrib.dstAddr.bit, u := .ofV6DstHigh 0xFF000000 0xFF000000 }
  | .lnklclV6 =>
    { attribMask := 1 <<< FltAttrib.dstAddr.bit, u := .ofV6DstHigh 0xFE800000 0xFFC00000 }

def srcAddrV4 (p : IpPacket) : BitVec 32 := (be32 p 12).toBitVec

def dstAddrV4 (p : IpPacket) : BitVec 32 := (be32 p 16).toBitVec

def dstAddrV6 (p : IpPacket) : BitVec 128 :=
  (be32 p 24).toBitVec ++ ((be32 p 28).toBitVec ++ ((be32 p 32).toBitVec ++
    (be32 p 36).toBitVec : BitVec 64) : BitVec 96)

/-- The packets that each rule is for. -/
def WanDlRule.Covers : WanDlRule → IpPacket → Prop
  | .icmpV4, p => p 9 = 1
  | .mcastV4, p => InPrefix 4 0xE0000000 (dstAddrV4 p)
  | .bcastV4, p => InPrefix 32 0xFFFFFFFF (dstAddrV4 p)
  | .icmpV6, p => p 6 = 58
  | .mcastV6, p => InPrefix 8 0xFF000000000000000000000000000000 (dstAddrV6 p)
  | .lnklclV6, p => InPrefix 10 0xFE800000000000000000000000000000 (dstAddrV6 p)

/-- `ipa_generate_flt_eq` on the rule's attribute, into a cleared equation. -/
def WanDlRule.generated (r : WanDlRule) : Option IpfltriRuleEq :=
  ipaGenerateFltEq r.attrib r.ip {}

theorem matches_protocol (protocol : UInt8) (ip : IpaIpType) (p : IpPacket) :
    (protocolRuleEq protocol).Matches ip p ↔ ipProtocol ip p = protocol := by
  simp [IpfltriRuleEq.Matches, protocolRuleEq]

theorem matches_meq32 (offset : Int8) (value mask : UInt32) (ip : IpaIpType)
    (p : IpPacket) :
    (meq32RuleEq offset value mask).Matches ip p ↔ be32 p offset.toInt &&& mask = value := by
  simp [IpfltriRuleEq.Matches, meq32RuleEq, MaskEq32.Matches]

/-- A masked comparison of one header word tests a prefix of at most 32 bits. -/
theorem and_eq_iff_inPrefix {len : ℕ} {mask value : UInt32} (hlen : len ≤ 32)
    (hmask : mask.toBitVec = prefixMask 32 len) (hvalue : value &&& mask = value)
    (word : UInt32) :
    word &&& mask = value ↔ InPrefix len value.toBitVec word.toBitVec := by
  have hnet : value.toBitVec &&& prefixMask 32 len = value.toBitVec := by
    rw [← hmask, ← UInt32.toBitVec_and, hvalue]
  rw [← and_prefixMask_eq_iff hlen hnet, ← hmask, ← UInt32.toBitVec_and, UInt32.toBitVec_inj]

/-- An IPv6 prefix of at most 32 bits is a prefix of the first destination word. -/
theorem and_eq_iff_inPrefix_dstAddrV6 {len : ℕ} {mask value : UInt32} (hlen : len ≤ 32)
    (hmask : mask.toBitVec = prefixMask 32 len) (hvalue : value &&& mask = value)
    (p : IpPacket) :
    be32 p 24 &&& mask = value ↔
      InPrefix len (value.toBitVec ++ (0 : BitVec 96) : BitVec 128) (dstAddrV6 p) := by
  rw [and_eq_iff_inPrefix hlen hmask hvalue]
  exact (inPrefix_append_iff hlen _ _ _ _).symm

/-- An attribute mask whose only flag is the destination address. -/
theorem has_dstAddr {attrib : RuleAttrib}
    (h : attrib.attribMask = 1 <<< FltAttrib.dstAddr.bit) (a : FltAttrib) :
    attrib.has a = decide (a = .dstAddr) := by
  rw [RuleAttrib.has, h]
  cases a <;> decide

theorem generate_v4_dstAddr (addr mask : UInt32) :
    ipaGenerateFltEq { attribMask := 1 <<< FltAttrib.dstAddr.bit, u := .ofV4Dst addr mask }
      .v4 {} = some (meq32RuleEq 16 addr mask) := by
  have hset : (1 <<< FltAttrib.dstAddr.bit : UInt32) ≠ 0 := by decide
  simp [ipaGenerateFltEq, genV4, genCommon, whenSet, has_dstAddr, hset,
    IpfltriRuleEq.pushMeq32]
  simp [meq32RuleEq, AttribUnion.ofV4Dst, AttribUnion.v4DstAddr, AttribUnion.v4DstAddrMask]

def meq128RuleEq (addr mask : UInt32) : IpfltriRuleEq :=
  { ruleEqBitmap := eqBit 9
    offsetMeq128 := [⟨24, u32Bytes [mask, 0, 0, 0], u32Bytes [addr, 0, 0, 0]⟩] }

theorem generate_v6_dstAddr (addr mask : UInt32) :
    ipaGenerateFltEq { attribMask := 1 <<< FltAttrib.dstAddr.bit, u := .ofV6DstHigh addr mask }
      .v6 {} = some (meq128RuleEq addr mask) := by
  have hset : (1 <<< FltAttrib.dstAddr.bit : UInt32) ≠ 0 := by decide
  simp [ipaGenerateFltEq, genV6, genCommon, whenSet, has_dstAddr, hset,
    IpfltriRuleEq.pushMeq128]
  simp [meq128RuleEq, AttribUnion.ofV6DstHigh, AttribUnion.v6DstAddr,
    AttribUnion.v6DstAddrMask]

theorem matches_meq128 (addr mask : UInt32) (ip : IpaIpType) (p : IpPacket) :
    (meq128RuleEq addr mask).Matches ip p ↔ be32 p 24 &&& mask = addr := by
  have hmask := maskWord_u32Bytes mask 0 0 0
  have haddr := maskWord_u32Bytes addr 0 0 0
  simp only [IpfltriRuleEq.Matches, meq128RuleEq, MaskEq128.Matches, Option.mem_def,
    reduceCtorEq, false_implies, List.not_mem_nil, implies_true, true_and,
    List.mem_singleton, forall_eq]
  constructor
  · intro h
    have h0 := h 0 (by decide)
    rw [hmask 0 (by decide), haddr 0 (by decide)] at h0
    exact h0
  · intro h i hi
    rw [hmask i hi, haddr i hi]
    interval_cases i
    · exact h
    -- the other words of the mask and the value are zero
    · simp
    · simp
    · simp

theorem mcastV6_word (p : IpPacket) :
    be32 p 24 &&& 0xFF000000 = 0xFF000000 ↔ WanDlRule.mcastV6.Covers p :=
  and_eq_iff_inPrefix_dstAddrV6 (by decide : 8 ≤ 32) (by decide) (by decide) p

theorem lnklclV6_word (p : IpPacket) :
    be32 p 24 &&& 0xFFC00000 = 0xFE800000 ↔ WanDlRule.lnklclV6.Covers p :=
  and_eq_iff_inPrefix_dstAddrV6 (by decide : 10 ≤ 32) (by decide) (by decide) p

/-- `ipa_generate_flt_eq` produces, for each attribute, an equation that matches the
packets the rule is for. -/
theorem generated_matches (r : WanDlRule) :
    ∃ eq, r.generated = some eq ∧ ∀ p, eq.Matches r.ip p ↔ r.Covers p := by
  cases r with
  | icmpV4 =>
    refine ⟨protocolRuleEq 1, by decide, ?_⟩
    intro p
    exact matches_protocol 1 .v4 p
  | mcastV4 =>
    refine ⟨_, generate_v4_dstAddr _ _, ?_⟩
    intro p
    rw [matches_meq32]
    exact and_eq_iff_inPrefix (by decide) (by decide) (by decide) _
  | bcastV4 =>
    refine ⟨_, generate_v4_dstAddr _ _, ?_⟩
    intro p
    rw [matches_meq32]
    exact and_eq_iff_inPrefix (by decide) (by decide) (by decide) _
  | icmpV6 =>
    refine ⟨protocolRuleEq 58, by decide, ?_⟩
    intro p
    exact matches_protocol 58 .v6 p
  | mcastV6 =>
    refine ⟨_, generate_v6_dstAddr _ _, ?_⟩
    intro p
    rw [matches_meq128]
    exact mcastV6_word p
  | lnklclV6 =>
    refine ⟨_, generate_v6_dstAddr _ _, ?_⟩
    intro p
    rw [matches_meq128]
    exact lnklclV6_word p

/-- What the hand-built rules match: the two IPv4 address rules test the source
address, at offset 12. -/
def WanDlRule.Tests : WanDlRule → IpPacket → Prop
  | .mcastV4, p => InPrefix 4 0xE0000000 (srcAddrV4 p)
  | .bcastV4, p => InPrefix 32 0xFFFFFFFF (srcAddrV4 p)
  | r, p => r.Covers p

theorem eqAttrib_matches (r : WanDlRule) (p : IpPacket) :
    r.eqAttrib.Matches r.ip p ↔ r.Tests p := by
  cases r with
  | icmpV4 => exact matches_protocol 1 .v4 p
  | mcastV4 =>
    rw [WanDlRule.eqAttrib, matches_meq32]
    exact and_eq_iff_inPrefix (by decide) (by decide) (by decide) _
  | bcastV4 =>
    rw [WanDlRule.eqAttrib, matches_meq32]
    exact and_eq_iff_inPrefix (by decide) (by decide) (by decide) _
  | icmpV6 => exact matches_protocol 58 .v6 p
  | mcastV6 =>
    rw [WanDlRule.eqAttrib, matches_meq32]
    exact mcastV6_word p
  | lnklclV6 =>
    rw [WanDlRule.eqAttrib, matches_meq32]
    exact lnklclV6_word p

/-- On the packet, each rule of the family matches exactly when the equation generated
for its attribute does, and exactly when the packet is one the rule is for. -/
def EquationsAgree (ip : IpaIpType) (p : IpPacket) : Prop :=
  ∀ r : WanDlRule, r.ip = ip → ∃ eq, r.generated = some eq ∧
    (r.eqAttrib.Matches ip p ↔ eq.Matches ip p) ∧ (r.eqAttrib.Matches ip p ↔ r.Covers p)

theorem equationsAgree_iff_tests (ip : IpaIpType) (p : IpPacket) :
    EquationsAgree ip p ↔ ∀ r : WanDlRule, r.ip = ip → (r.Tests p ↔ r.Covers p) := by
  constructor
  · intro h r hr
    obtain ⟨eq, _, _, hcovers⟩ := h r hr
    rw [← hr, eqAttrib_matches] at hcovers
    exact hcovers
  · intro h r hr
    obtain ⟨eq, hgen, hmatches⟩ := generated_matches r
    have htests := h r hr
    refine ⟨eq, hgen, ?_, ?_⟩
    · rw [← hr, eqAttrib_matches, hmatches]
      exact htests
    · rw [← hr, eqAttrib_matches]
      exact htests

/-- For every header: the six rules match what their comments say on every IPv6 packet,
and on an IPv4 packet exactly when its source and destination are both or neither in
224.0.0.0/4, and both or neither 255.255.255.255. -/
theorem equationsAgree_iff (ip : IpaIpType) (p : IpPacket) :
    EquationsAgree ip p ↔ (ip = .v4 →
      (InPrefix 4 0xE0000000 (srcAddrV4 p) ↔ InPrefix 4 0xE0000000 (dstAddrV4 p)) ∧
      (InPrefix 32 0xFFFFFFFF (srcAddrV4 p) ↔ InPrefix 32 0xFFFFFFFF (dstAddrV4 p))) := by
  rw [equationsAgree_iff_tests]
  constructor
  · intro h hip
    exact ⟨h .mcastV4 hip.symm, h .bcastV4 hip.symm⟩
  · intro h r hr
    cases r with
    | mcastV4 => exact (h hr.symm).1
    | bcastV4 => exact (h hr.symm).2
    | icmpV4 => exact Iff.rfl
    | icmpV6 => exact Iff.rfl
    | mcastV6 => exact Iff.rfl
    | lnklclV6 => exact Iff.rfl

/-- From 10.0.0.2 to 224.0.0.1. -/
def allHosts : IpPacket := fun i =>
  ([0x45, 0, 0, 60, 0, 0, 0, 0, 1, 17, 0, 0, 10, 0, 0, 2, 224, 0, 0, 1] : List UInt8).getD
    i.toNat 0

theorem not_equationsAgree_allHosts :
    ¬ ∀ (ip : IpaIpType) (p : IpPacket), EquationsAgree ip p := by
  intro h
  have hiff := (equationsAgree_iff_tests .v4 allHosts).mp (h .v4 allHosts) .mcastV4 rfl
  have hdst : WanDlRule.mcastV4.Covers allHosts := by
    show InPrefix 4 0xE0000000 (dstAddrV4 allHosts)
    decide
  have hsrc : ¬ WanDlRule.mcastV4.Tests allHosts := by
    show ¬ InPrefix 4 0xE0000000 (srcAddrV4 allHosts)
    decide
  exact hsrc (hiff.mpr hdst)

end X00TDCellular
