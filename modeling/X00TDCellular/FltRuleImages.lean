import Mathlib.Algebra.BigOperators.Ring.List
import Mathlib.Algebra.Order.BigOperators.Group.List
import X00TDCellular.FltRuleAgreement

/-! The images of whole rules: what the hardware reads of a rule that was given by an
equation, and of one that was given by attributes. -/

namespace X00TDCellular
open SequentialFormat

section Requested

variable (attrib : RuleAttrib)

def hwReqsV4 : List EqReq :=
  firstReqsV4 attrib ++ (etherReqs attrib 16 ++ (portReqsV4 attrib ++
    (macReqs attrib ++ lastReqs attrib)))

/-- The inner IP type in the upper byte: IPv4 is known, anything else is IPv6. -/
def hwInnerIpType : UInt32 := if attrib.type = 0x40 then 0x40000000 else 0x60000000

def hwReqsV6 : List EqReq :=
  nextHdrReqs attrib ++ (etherReqs attrib 16 ++
    (middleReqsV6 attrib (hwInnerIpType attrib) ++
    (macReqs attrib ++ (flowReqs attrib ++ lastReqs attrib))))

theorem slots_reqIf (a : FltAttrib) (r : EqReq) :
    ((reqIf attrib a r).map EqReq.slots).Sublist [r.slots] := by
  unfold reqIf
  split
  · exact List.Sublist.refl _
  · exact List.nil_sublist _

theorem sized_reqIf (a : FltAttrib) {r : EqReq} (h : r.Sized) :
    ∀ s ∈ reqIf attrib a r, s.Sized := by
  intro s hs
  unfold reqIf at hs
  split at hs
  · rw [List.mem_singleton.mp hs]
    exact h
  · cases hs

theorem slots_macReqs : ((macReqs attrib).map EqReq.slots).Sublist
    ([[9, 10]] ++ ([[9, 10]] ++ ([[9, 10]] ++ [[9, 10]]))) := by
  simp only [macReqs, List.map_append]
  exact (slots_reqIf _ _ _).append <| (slots_reqIf _ _ _).append <|
    (slots_reqIf _ _ _).append (slots_reqIf _ _ _)

theorem slots_lastReqs :
    ((lastReqs attrib).map EqReq.slots).Sublist ([[14]] ++ [[15]]) := by
  simp only [lastReqs, List.map_append]
  exact (slots_reqIf _ _ _).append (slots_reqIf _ _ _)

theorem slots_hwReqsV4 : ((hwReqsV4 attrib).map EqReq.slots).Sublist
    (([[0]] ++ ([[2, 3]] ++ ([[1]] ++ ([[2, 3]] ++ [[2, 3]])))) ++ ([[2, 3]] ++
      (([[4, 5]] ++ ([[4, 5]] ++ ([[8, 13]] ++ ([[8, 13]] ++ ([[8, 13]] ++
        ([[4, 5]] ++ [[4, 5]])))))) ++
      (([[9, 10]] ++ ([[9, 10]] ++ ([[9, 10]] ++ [[9, 10]]))) ++ ([[14]] ++ [[15]]))))) := by
  have hmac := slots_macReqs attrib
  have hlast := slots_lastReqs attrib
  simp only [hwReqsV4, firstReqsV4, portReqsV4, List.map_append]
  refine List.Sublist.append ?first <| (slots_reqIf _ _ _).append <|
    List.Sublist.append ?port <| hmac.append hlast
  case first =>
    exact (slots_reqIf _ _ _).append <| (slots_reqIf _ _ _).append <|
      (slots_reqIf _ _ _).append <| (slots_reqIf _ _ _).append (slots_reqIf _ _ _)
  case port =>
    exact (slots_reqIf _ _ _).append <| (slots_reqIf _ _ _).append <|
      (slots_reqIf _ _ _).append <| (slots_reqIf _ _ _).append <|
      (slots_reqIf _ _ _).append <| (slots_reqIf _ _ _).append (slots_reqIf _ _ _)

theorem slots_hwReqsV6 : ((hwReqsV6 attrib).map EqReq.slots).Sublist
    ([[1]] ++ ([[2, 3]] ++ (([[8, 13]] ++ ([[8, 13]] ++ ([[8, 13]] ++ ([[8, 13]] ++ ([[8, 13]] ++
      ([[4, 5]] ++ ([[4, 5]] ++ ([[4, 5]] ++ ([[4, 5]] ++ ([[9, 10]] ++ ([[9, 10]] ++
      ([[11]] ++ [[9, 10]])))))))))))) ++
      (([[9, 10]] ++ ([[9, 10]] ++ ([[9, 10]] ++ [[9, 10]]))) ++
      ([[12]] ++ ([[14]] ++ [[15]])))))) := by
  have hmac := slots_macReqs attrib
  have hlast := slots_lastReqs attrib
  simp only [hwReqsV6, nextHdrReqs, middleReqsV6, flowReqs, List.map_append]
  refine (slots_reqIf _ _ _).append <| (slots_reqIf _ _ _).append <|
    List.Sublist.append ?middle <| hmac.append <| (slots_reqIf _ _ _).append hlast
  case middle =>
    exact (slots_reqIf _ _ _).append <| (slots_reqIf _ _ _).append <|
      (slots_reqIf _ _ _).append <| (slots_reqIf _ _ _).append <|
      (slots_reqIf _ _ _).append <| (slots_reqIf _ _ _).append <|
      (slots_reqIf _ _ _).append <| (slots_reqIf _ _ _).append <|
      (slots_reqIf _ _ _).append <| (slots_reqIf _ _ _).append <|
      (slots_reqIf _ _ _).append <| (slots_reqIf _ _ _).append (slots_reqIf _ _ _)

/-- Nothing is there yet, and no kind with one place is asked for twice. -/
theorem Fresh.of_slots {rs : List EqReq} {kinds : List (List ℕ)}
    (h : (rs.map EqReq.slots).Sublist kinds)
    (honce : kinds.Pairwise fun a b => a = b → a.length = 2) : Fresh rs {} where
  once := List.pairwise_map.mp (honce.sublist h)
  absent r _ _ n _ := by
    match n with
    | 0 | 1 | 2 | 3 | 4 | 5 | 6 | 7 | 8 | 9 | 10 | 11 | 12 | 13 | 14 | 15 => rfl
    | _+16 => rfl

theorem Apart.of_slots {rs ss : List EqReq} {ks ls : List (List ℕ)}
    (hrs : (rs.map EqReq.slots).Sublist ks) (hss : (ss.map EqReq.slots).Sublist ls)
    (h : ∀ a ∈ ks, ∀ b ∈ ls, a ≠ b) : Apart rs ss := fun r hr s hs =>
  h r.slots (hrs.subset (List.mem_map_of_mem hr)) s.slots (hss.subset (List.mem_map_of_mem hs))

/-- The equation that every packet satisfies, for a rule without attributes. -/
def defaultReqs : List EqReq := if attrib.attribMask = 0 then [.meq32 ⟨0, 0, 0⟩] else []

/-- What `ipa_generate_hw_rule` asks for, in its order, if the family has all the
attributes. -/
def hwReqs : IpaIpType → Option (List EqReq)
  | .v4 =>
    if attrib.has .nextHdr || attrib.has .tc || attrib.has .flowLabel then none
    else some (hwReqsV4 attrib ++ defaultReqs attrib)
  | .v6 =>
    if attrib.has .tos || attrib.has .protocol then none
    else some (hwReqsV6 attrib ++ defaultReqs attrib)
  | .max => none

theorem slots_defaultReqs : ((defaultReqs attrib).map EqReq.slots).Sublist [[2, 3]] := by
  unfold defaultReqs
  split
  · exact List.Sublist.refl _
  · exact List.nil_sublist _

theorem fresh_hwReqs {ip : IpaIpType} {rs : List EqReq} (h : hwReqs attrib ip = some rs) :
    Fresh rs {} := by
  cases ip
  case v4 =>
    obtain rfl := Option.some.inj (Option.ite_none_left_eq_some.mp h).2
    have hslots := (slots_hwReqsV4 attrib).append (slots_defaultReqs attrib)
    rw [← List.map_append] at hslots
    exact .of_slots hslots (by decide)
  case v6 =>
    obtain rfl := Option.some.inj (Option.ite_none_left_eq_some.mp h).2
    have hslots := (slots_hwReqsV6 attrib).append (slots_defaultReqs attrib)
    rw [← List.map_append] at hslots
    exact .of_slots hslots (by decide)
  case max => cases h

/-- Both generators go on with the default equation alike. -/
theorem pushAll_defaultReqs (eq : IpfltriRuleEq) :
    pushAll (defaultReqs attrib) eq =
      if attrib.attribMask = 0 then eq.pushMeq32 ⟨0, 0, 0⟩ else some eq := by
  unfold pushAll defaultReqs
  split
  · exact List.foldlM_cons.trans (bind_pure _)
  · rfl

theorem genAll_defaultReqs (g : HwRuleGen) :
    genAll (defaultReqs attrib) g =
      if attrib.attribMask = 0 then g.meq32 (writeMeq32 ⟨0, 0, 0⟩) else some g := by
  unfold genAll defaultReqs
  split
  · exact List.foldlM_cons.trans (bind_pure _)
  · rfl

/-- The generator takes the requests in turn. -/
theorem ipaGenerateHwRule_eq_genAll (ip : IpaIpType) (buf : List UInt8) :
    ipaGenerateHwRule attrib ip buf =
      ((hwReqs attrib ip).bind (genAll · { buf := buf })).map fun g => (g.buf, g.enRule) := by
  cases ip
  case v4 =>
    unfold ipaGenerateHwRule hwReqs
    simp only [hwRuleV4_eq_genAll]
    split
    · rfl
    · rw [Option.bind_some, genAll_append (hwReqsV4 attrib)]
      simp only [genAll_defaultReqs, Option.map_eq_bind, Option.bind_assoc]
      refine congrArg _ (funext fun g => ?_)
      split <;> rfl
  case v6 =>
    unfold ipaGenerateHwRule hwReqs
    simp only [hwRuleV6_eq_genAll]
    split
    · rfl
    · rw [Option.bind_some, genAll_append (hwReqsV6 attrib)]
      simp only [genAll_defaultReqs, Option.map_eq_bind, Option.bind_assoc]
      refine congrArg _ (funext fun g => ?_)
      split <;> rfl
  case max => rfl

/-- The equation that the generator writes. -/
def hwEquation (ip : IpaIpType) : Option IpfltriRuleEq :=
  (hwReqs attrib ip).bind (pushAll · {})

/-- The bits whose parameters the generator writes, in its order. -/
def hwBits (ip : IpaIpType) : List ℕ :=
  ((hwReqs attrib ip).map fun rs => takeBits (rs.map EqReq.slots) []).getD []

theorem tracks_start {buf : List UInt8} (h : 4 ∣ buf.length) :
    Tracks buf {} { buf := buf } [] where
  enRule := rfl
  used r := by cases r <;> rfl
  buf_eq := (List.append_nil buf).symm
  aligned := h
  params n bytes := by
    have hnone : ({} : IpfltriRuleEq).paramAt n = none := by
      match n with
      | 0 | 1 | 2 | 3 | 4 | 5 | 6 | 7 | 8 | 9 | 10 | 11 | 12 | 13 | 14 | 15 => rfl
      | _+16 => rfl
    simp [hnone]
  nodup := List.nodup_nil

theorem flatMap_params {eq : IpfltriRuleEq} {ps : List (ℕ × List UInt8)}
    (h : ∀ p ∈ ps, eq.paramAt p.1 = some p.2) :
    ps.flatMap (·.2) = (ps.map (·.1)).flatMap fun n => (eq.paramAt n).getD [] := by
  rw [List.flatMap_map]
  refine List.flatMap_congr fun p hp => ?_
  rw [h p hp, Option.getD_some]

/-- The writing generator fails if there is no equation, and has else written the
parameters of the equation's bits. -/
theorem run_hwReqs (ip : IpaIpType) {buf : List UInt8} (h : 4 ∣ buf.length) :
    (hwEquation attrib ip = none ∧ ipaGenerateHwRule attrib ip buf = none) ∨
      ∃ eq g ps, hwEquation attrib ip = some eq ∧
        ipaGenerateHwRule attrib ip buf = some (g.buf, g.enRule) ∧
        Tracks buf eq g ps ∧ ps.map (·.1) = hwBits attrib ip := by
  rw [ipaGenerateHwRule_eq_genAll, hwEquation, hwBits]
  cases hreqs : hwReqs attrib ip with
  | none => exact .inl ⟨rfl, rfl⟩
  | some rs =>
    have hrun := (tracks_start h).run (fresh_hwReqs attrib hreqs)
    rw [Option.bind_some, Option.bind_some]
    obtain ⟨hpush, hgen⟩ | ⟨eq, g, ps, hpush, hgen, htracks, hbits⟩ := hrun
    · exact .inl ⟨hpush, by rw [hgen, Option.map_none]⟩
    · exact .inr ⟨eq, g, ps, hpush, by rw [hgen, Option.map_some], htracks, hbits⟩

/-- The parameters of an equation, in the order of the writing generator. -/
def hwBody (ip : IpaIpType) (eq : IpfltriRuleEq) : List UInt8 :=
  (hwBits attrib ip).flatMap fun n => (eq.paramAt n).getD []

theorem ipaGenerateHwRule_eq_hwBody (ip : IpaIpType) {buf : List UInt8} (h : 4 ∣ buf.length) :
    ipaGenerateHwRule attrib ip buf = (hwEquation attrib ip).map fun eq =>
      (buf ++ hwBody attrib ip eq, eq.ruleEqBitmap) := by
  obtain ⟨hnone, hgen⟩ | ⟨eq, g, ps, hsome, hgen, htracks, hbits⟩ := run_hwReqs attrib ip h
  · rw [hnone, hgen, Option.map_none]
  · rw [hsome, hgen, Option.map_some, htracks.buf_eq, htracks.enRule,
      flatMap_params fun p hp => (htracks.params p.1 p.2).mp hp, hbits]
    rfl

theorem nodup_hwBits {ip : IpaIpType} {eq : IpfltriRuleEq} (h : hwEquation attrib ip = some eq) :
    (hwBits attrib ip).Nodup ∧ ∀ n, n ∈ hwBits attrib ip ↔ (eq.paramAt n).isSome := by
  have hrun := @run_hwReqs attrib ip [] (dvd_zero 4)
  obtain ⟨hnone, -⟩ | ⟨eq', g, ps, hsome, -, htracks, hbits⟩ := hrun
  · rw [h] at hnone
    cases hnone
  · obtain rfl : eq = eq' := Option.some.inj (h.symm.trans hsome)
    rw [← hbits]
    exact ⟨htracks.nodup, htracks.mem_bits⟩

theorem sized_hwReqsV4 : ∀ r ∈ hwReqsV4 attrib, r.Sized := by
  simp only [hwReqsV4, firstReqsV4, etherReqs, portReqsV4, macReqs, lastReqs,
    List.forall_mem_append]
  and_intros
  all_goals exact sized_reqIf attrib _ (by first | exact trivial | exact ⟨rfl, rfl⟩)

theorem sized_hwReqsV6 : ∀ r ∈ hwReqsV6 attrib, r.Sized := by
  simp only [hwReqsV6, nextHdrReqs, etherReqs, middleReqsV6, macReqs, flowReqs, lastReqs,
    List.forall_mem_append]
  and_intros
  all_goals exact sized_reqIf attrib _ (by first | exact trivial | exact ⟨rfl, rfl⟩)

theorem sized_hwReqs {ip : IpaIpType} {rs : List EqReq} (h : hwReqs attrib ip = some rs) :
    ∀ r ∈ rs, r.Sized := by
  have hdefault : ∀ r ∈ defaultReqs attrib, r.Sized := by
    intro r hr
    unfold defaultReqs at hr
    split at hr
    · rw [List.mem_singleton.mp hr]
      exact trivial
    · cases hr
  cases ip
  case v4 =>
    obtain rfl := Option.some.inj (Option.ite_none_left_eq_some.mp h).2
    exact List.forall_mem_append.mpr ⟨sized_hwReqsV4 attrib, hdefault⟩
  case v6 =>
    obtain rfl := Option.some.inj (Option.ite_none_left_eq_some.mp h).2
    exact List.forall_mem_append.mpr ⟨sized_hwReqsV6 attrib, hdefault⟩
  case max => cases h

theorem wellFormed_empty : ({} : IpfltriRuleEq).WellFormed where
  bitmap n hn := by
    revert n
    decide
  meq32 := Nat.zero_le 2
  range16 := Nat.zero_le 2
  ihlMeq32 := Nat.zero_le 2
  meq128 := Nat.zero_le 2
  bytes _ he := absurd he List.not_mem_nil

theorem wellFormed_hwEquation {ip : IpaIpType} {eq : IpfltriRuleEq}
    (h : hwEquation attrib ip = some eq) : eq.WellFormed := by
  obtain ⟨rs, hreqs, hpush⟩ := Option.bind_eq_some_iff.mp h
  exact wellFormed_pushAll (sized_hwReqs attrib hreqs) wellFormed_empty hpush

end Requested

section Agreement

variable (attrib : RuleAttrib)

theorem etherReqs_eq_nil (hether : attrib.has .macEtherType = false) (shift : UInt32) :
    etherReqs attrib shift = [] := by
  rw [etherReqs, reqIf, hether]
  rfl

/-- The inner IP type of an L2TP rule is an IP version in the upper half of the byte. -/
def L2tpVersioned : Prop :=
  attrib.has .l2tpInnerIpType = true → attrib.type = 0x40 ∨ attrib.type = 0x60

theorem middleReqsV6_hwInnerIpType (h : L2tpVersioned attrib) :
    middleReqsV6 attrib (hwInnerIpType attrib) =
      middleReqsV6 attrib (attrib.type.toUInt32 <<< 24) := by
  by_cases hl2tp : attrib.has .l2tpInnerIpType = true
  · obtain htype | htype := h hl2tp
    · rw [hwInnerIpType, htype]
      rfl
    · rw [hwInnerIpType, htype]
      rfl
  · simp only [middleReqsV6, reqIf, if_neg hl2tp]

theorem pushAll_swap {ks rs ss : List EqReq} (h : Apart rs ss) (eq : IpfltriRuleEq) :
    pushAll (ks ++ (rs ++ ss)) eq = pushAll (ks ++ (ss ++ rs)) eq := by
  rw [pushAll_append, pushAll_append]
  exact congrArg _ (funext fun eq => pushAll_comm h eq)

theorem genV4_eq_hwReqsV4 (hether : attrib.has .macEtherType = false) :
    genV4 attrib {} =
      if attrib.has .nextHdr || attrib.has .tc || attrib.has .flowLabel then none
      else pushAll (hwReqsV4 attrib) {} := by
  have hapart : Apart (lastReqs attrib) (macReqs attrib) :=
    .of_slots (slots_lastReqs attrib) (slots_macReqs attrib) (by decide)
  rw [genV4_eq_pushAll, hwReqsV4, etherReqs_eq_nil attrib hether, etherReqs_eq_nil attrib hether,
    List.append_nil, List.nil_append, ← List.append_assoc, pushAll_swap hapart,
    List.append_assoc]

theorem genV6_eq_hwReqsV6 (hether : attrib.has .macEtherType = false)
    (hl2tp : L2tpVersioned attrib) :
    genV6 attrib {} =
      if attrib.has .tos || attrib.has .protocol then none
      else pushAll (hwReqsV6 attrib) {} := by
  have hflow : ((flowReqs attrib ++ lastReqs attrib).map EqReq.slots).Sublist
      ([[12]] ++ ([[14]] ++ [[15]])) := by
    rw [List.map_append]
    exact (slots_reqIf _ _ _).append (slots_lastReqs attrib)
  have hapart : Apart (flowReqs attrib ++ lastReqs attrib) (macReqs attrib) :=
    .of_slots hflow (slots_macReqs attrib) (by decide)
  rw [genV6_eq_pushAll, hwReqsV6, etherReqs_eq_nil attrib hether, etherReqs_eq_nil attrib hether,
    List.append_nil, List.nil_append, middleReqsV6_hwInnerIpType attrib hl2tp,
    ← List.append_assoc, pushAll_swap hapart, List.append_assoc]

/-- `ipa_generate_flt_eq` describes the rule that `ipa_generate_hw_rule` writes, unless
the rule names an ether type, which the two put into different halves of the word, or an
inner IP type that is no version. -/
theorem ipaGenerateFltEq_eq_hwEquation (ip : IpaIpType)
    (hether : attrib.has .macEtherType = false) (hl2tp : L2tpVersioned attrib) :
    ipaGenerateFltEq attrib ip {} = hwEquation attrib ip := by
  cases ip
  case v4 =>
    change (genV4 attrib {}).bind _ = _
    rw [genV4_eq_hwReqsV4 attrib hether, hwEquation, hwReqs]
    split
    · rfl
    · rw [Option.bind_some, pushAll_append]
      exact congrArg _ (funext fun eq => (pushAll_defaultReqs attrib eq).symm)
  case v6 =>
    change (genV6 attrib {}).bind _ = _
    rw [genV6_eq_hwReqsV6 attrib hether hl2tp, hwEquation, hwReqs]
    split
    · rfl
    · rw [Option.bind_some, pushAll_append]
      exact congrArg _ (funext fun eq => (pushAll_defaultReqs attrib eq).symm)
  case max => rfl

end Agreement

section Images

theorem lt_of_paramAt {eq : IpfltriRuleEq} {n : ℕ} (h : (eq.paramAt n).isSome) : n < 16 := by
  match n with
  | 0 | 1 | 2 | 3 | 4 | 5 | 6 | 7 | 8 | 9 | 10 | 11 | 12 | 13 | 14 | 15 => decide
  | _+16 => cases h

theorem paramAt_of_mem_hwParams {eq : IpfltriRuleEq} {p : ℕ × List UInt8}
    (h : p ∈ eq.hwParams) : eq.paramAt p.1 = some p.2 := by
  obtain ⟨n, -, hp⟩ := List.mem_filterMap.mp h
  obtain ⟨bytes, hbytes, rfl⟩ := Option.map_eq_some_iff.mp hp
  exact hbytes

theorem map_fst_hwParams (eq : IpfltriRuleEq) :
    eq.hwParams.map (·.1) = (List.range 16).filter fun n => (eq.paramAt n).isSome := by
  rw [IpfltriRuleEq.hwParams, List.map_filterMap, ← List.filterMap_eq_filter]
  refine List.filterMap_congr fun n _ => ?_
  cases h : eq.paramAt n <;> simp [Option.guard, h]

/-- Written in the order of their bits, the parameters are where the hardware reads them. -/
theorem hwBody_eq_write {attrib : RuleAttrib} {ip : IpaIpType} {eq : IpfltriRuleEq}
    (h : hwEquation attrib ip = some eq) (hsorted : (hwBits attrib ip).Pairwise (· < ·)) :
    hwBody attrib ip eq = (ruleEqFormat eq.ruleEqBitmap).write eq := by
  obtain ⟨hnodup, hmem⟩ := nodup_hwBits attrib h
  have hbits : hwBits attrib ip = eq.hwParams.map (·.1) := by
    rw [map_fst_hwParams]
    refine List.Perm.eq_of_pairwise (fun a b _ _ hab hba => absurd hab (Nat.lt_asymm hba)) hsorted
      (List.pairwise_lt_range.filter _) ?_
    refine (List.perm_ext_iff_of_nodup hnodup (List.nodup_range.filter _)).mpr fun n => ?_
    rw [hmem, List.mem_filter, List.mem_range]
    exact ⟨fun hn => ⟨lt_of_paramAt hn, hn⟩, And.right⟩
  rw [hwBody, hbits, write_ruleEqFormat]
  exact (flatMap_params fun p hp => paramAt_of_mem_hwParams hp).symm

/-- The room that the parameters behind a bit take. -/
def paramRoom : ℕ → ℕ
  | 0 | 1 | 6 | 11 | 12 => 4
  | 4 | 5 | 7 => 8
  | 2 | 3 | 8 | 13 | 14 => 12
  | 9 | 10 => 36
  | _ => 0

theorem dvd_paramRoom (n : ℕ) : 4 ∣ paramRoom n := by
  unfold paramRoom
  split <;> decide

theorem length_paramAt {eq : IpfltriRuleEq} (hwf : eq.WellFormed) {n : ℕ} {bytes : List UInt8}
    (h : eq.paramAt n = some bytes) : bytes.length = paramRoom n := by
  have hpadded {α : Type} {F : SequentialFormat UInt8 α} {k : ℕ} {o : Option α}
      (ho : o.map (F.padded 4 0).write = some bytes)
      (hk : ∀ a ∈ o, (F.write a).length = k) : bytes.length = k + gap 4 k := by
    obtain ⟨a, ha, rfl⟩ := Option.map_eq_some_iff.mp ho
    rw [length_padded, hk a ha]
  have hlong {i : ℕ} (e : MaskEq128) (he : e ∈ eq.offsetMeq128[i]?) :
      ([e.offset.toUInt8] ++ (e.mask ++ e.value)).length = 33 := by
    obtain ⟨hmask, hvalue⟩ := hwf.bytes e (List.mem_of_getElem? he)
    simp only [List.length_append, List.length_singleton, hmask, hvalue]
  match n with
  | 0 | 1 | 11 => exact hpadded (k := 1) h fun _ _ => rfl
  | 2 | 3 | 8 | 13 | 14 => exact hpadded (k := 9) h fun _ _ => rfl
  | 4 | 5 => exact hpadded (k := 5) h fun _ _ => rfl
  | 6 => exact hpadded (k := 3) h fun _ _ => rfl
  | 7 => exact hpadded (k := 5) h fun _ _ => rfl
  | 9 | 10 => exact hpadded (k := 33) h hlong
  | 12 => exact hpadded (k := 4) h fun _ _ => rfl
  | 15 =>
    obtain ⟨-, hnil⟩ := Option.ite_none_right_eq_some.mp h
    rw [← Option.some.inj hnil]
    rfl
  | _+16 => cases h

namespace FltHwEntry

variable (entry : FltHwEntry) (ip : IpaIpType)

/-- The equation that a rule stands for. -/
def equation : Option IpfltriRuleEq :=
  if entry.eqAttribType then some entry.eqAttrib else hwEquation entry.attrib ip

/-- The parameters as they are written. -/
def body (eq : IpfltriRuleEq) : List UInt8 :=
  if entry.eqAttribType then (ruleEqFormat eq.ruleEqBitmap).write eq
  else hwBody entry.attrib ip eq

def image : Option (List UInt8) :=
  (entry.equation ip).map fun eq => le32 (entry.hdr eq.ruleEqBitmap).word ++ entry.body ip eq

/-- The parameters stand in the order of the bits that announce them. -/
def InOrder : Prop :=
  if entry.eqAttribType then entry.eqAttrib.WellFormed
  else (hwBits entry.attrib ip).Pairwise (· < ·)

theorem params_eq {buf : List UInt8} (h : 4 ∣ buf.length) :
    entry.params ip buf = (entry.equation ip).map fun eq =>
      (buf ++ entry.body ip eq, eq.ruleEqBitmap) := by
  unfold params equation body
  split
  · rw [Option.map_some, (emits_fromEq entry.eqAttrib _).2 buf h]
  · exact ipaGenerateHwRule_eq_hwBody entry.attrib ip h

/-- The rule behind the buffer, and the length that it must have or gets. -/
theorem ipaGenerateFltHwRule_eq {buf : List UInt8} (h : 4 ∣ buf.length) :
    ipaGenerateFltHwRule ip entry buf = (entry.image ip).bind fun image =>
      if entry.hwLen = 0 then some ({ entry with hwLen := image.length }, buf ++ image)
      else if entry.hwLen ≠ image.length then none
      else some (entry, buf ++ image) := by
  have hhdr : 4 ∣ (buf ++ [0, 0, 0, 0]).length := by
    rw [List.length_append]
    exact (Nat.dvd_add_right h).mpr (dvd_refl 4)
  rw [ipaGenerateFltHwRule, params_eq entry ip hhdr, image]
  cases entry.equation ip with
  | none => rfl
  | some eq =>
    have hdrop : (buf ++ ([0, 0, 0, 0] ++ entry.body ip eq)).drop (buf.length + 4) =
        entry.body ip eq := by
      rw [← List.append_assoc, List.drop_left' (by rw [List.length_append]; rfl)]
    have hlen (s : List UInt8) : (buf ++ s).length - buf.length = s.length := by
      rw [List.length_append, Nat.add_sub_cancel_left]
    simp only [Option.map_some, Option.bind_some, Option.bind_eq_bind, List.append_assoc, hdrop,
      hlen]
    rfl

/-- Whatever the order, the parameters are those of some of the bits, each once. -/
theorem exists_bits {eq : IpfltriRuleEq} (h : entry.equation ip = some eq) :
    ∃ bits : List ℕ, bits.Nodup ∧ (∀ n ∈ bits, n < 16) ∧
      entry.body ip eq = bits.flatMap fun n => (eq.paramAt n).getD [] := by
  unfold equation at h
  unfold body
  split at h
  case isTrue htype =>
    refine ⟨eq.hwParams.map (·.1), ?nodup, ?lt, ?body⟩
    case nodup =>
      rw [map_fst_hwParams]
      exact List.nodup_range.filter _
    case lt =>
      rw [map_fst_hwParams]
      exact fun n hn => List.mem_range.mp (List.mem_filter.mp hn).1
    case body =>
      rw [if_pos htype, write_ruleEqFormat]
      exact flatMap_params fun p hp => paramAt_of_mem_hwParams hp
  case isFalse htype =>
    obtain ⟨hnodup, hmem⟩ := nodup_hwBits entry.attrib h
    refine ⟨hwBits entry.attrib ip, hnodup, fun n hn => lt_of_paramAt ((hmem n).mp hn), ?_⟩
    rw [if_neg htype]
    rfl

/-- The parameters never outgrow what the generator of the table provides for a rule. -/
theorem length_body_le {eq : IpfltriRuleEq} (h : entry.equation ip = some eq)
    (hwf : eq.WellFormed) : (entry.body ip eq).length ≤ 176 := by
  obtain ⟨bits, hnodup, hlt, hbody⟩ := exists_bits entry ip h
  have hroom (n : ℕ) : ((eq.paramAt n).getD []).length ≤ paramRoom n := by
    cases hparam : eq.paramAt n with
    | none => exact Nat.zero_le _
    | some bytes => exact (length_paramAt hwf hparam).le
  have hsub : bits.Subperm (List.range 16) :=
    List.subperm_of_subset hnodup fun n hn => List.mem_range.mpr (hlt n hn)
  obtain ⟨bits', hperm, hsublist⟩ := hsub
  calc (entry.body ip eq).length
      = (bits.map fun n => ((eq.paramAt n).getD []).length).sum := by
        rw [hbody, List.length_flatMap]
    _ ≤ (bits.map paramRoom).sum := List.sum_le_sum fun n _ => hroom n
    _ = (bits'.map paramRoom).sum := (hperm.map paramRoom).sum_eq.symm
    _ ≤ ((List.range 16).map paramRoom).sum :=
        (hsublist.map paramRoom).sum_le_sum fun _ _ => Nat.zero_le _
    _ = 176 := by decide

theorem dvd_length_body {eq : IpfltriRuleEq} (h : entry.equation ip = some eq) :
    4 ∣ (entry.body ip eq).length := by
  unfold equation at h
  unfold body
  split at h
  case isTrue htype =>
    rw [if_pos htype]
    exact (emits_fromEq eq _).1
  case isFalse htype =>
    rw [if_neg htype, hwBody, List.length_flatMap]
    refine List.dvd_sum fun len hlen => ?_
    obtain ⟨n, -, rfl⟩ := List.mem_map.mp hlen
    cases hparam : eq.paramAt n with
    | none => exact dvd_zero 4
    | some bytes =>
      rw [Option.getD_some, length_paramAt (wellFormed_hwEquation entry.attrib h) hparam]
      exact dvd_paramRoom n

theorem wellFormed_of_inOrder {eq : IpfltriRuleEq} (heq : entry.equation ip = some eq)
    (horder : entry.InOrder ip) :
    eq.WellFormed ∧ entry.body ip eq = (ruleEqFormat eq.ruleEqBitmap).write eq := by
  unfold equation at heq
  unfold InOrder at horder
  unfold body
  split at heq
  case isTrue htype =>
    rw [if_pos htype] at horder
    rw [if_pos htype]
    exact ⟨Option.some.inj heq ▸ horder, rfl⟩
  case isFalse htype =>
    rw [if_neg htype] at horder
    rw [if_neg htype]
    exact ⟨wellFormed_hwEquation entry.attrib heq, hwBody_eq_write heq horder⟩

/-- A rule whose parameters are in order is read back as its header and its equation, in
front of whatever follows it. -/
theorem read_image {image : List UInt8} (h : entry.image ip = some image)
    (horder : entry.InOrder ip) (rest : List UInt8) :
    ∃ eq, entry.equation ip = some eq ∧
      fltRuleFormat.read (image ++ rest) =
        some ((entry.hdr eq.ruleEqBitmap, eq), rest) := by
  obtain ⟨eq, heq, rfl⟩ := Option.map_eq_some_iff.mp h
  refine ⟨eq, heq, ?_⟩
  have hboth := wellFormed_of_inOrder entry ip heq horder
  have hok : fltRuleFormat.Ok (entry.hdr eq.ruleEqBitmap, eq) :=
    ⟨⟨trivial, FltRuleHwHdr.ofWord_word _⟩, hboth.1.ok⟩
  have hwrite : fltRuleFormat.write (entry.hdr eq.ruleEqBitmap, eq) =
      le32 (entry.hdr eq.ruleEqBitmap).word ++ entry.body ip eq := by
    rw [hboth.2]
    rfl
  rw [← hwrite]
  exact fltRuleFormat.read_write _ rest hok

end FltHwEntry

/-- A rule in order is generated at the next word boundary, no longer than 180 bytes, and
the hardware reads it back there as its header and the equation it stands for. -/
theorem ipaGenerateFltHwRule_read {ip : IpaIpType} {entry : FltHwEntry} {buf : List UInt8}
    (haligned : 4 ∣ buf.length) (hnew : entry.hwLen = 0) (horder : entry.InOrder ip)
    {eq : IpfltriRuleEq} (heq : entry.equation ip = some eq) :
    ∃ image, ipaGenerateFltHwRule ip entry buf =
        some ({ entry with hwLen := image.length }, buf ++ image) ∧
      4 ∣ image.length ∧ image.length ≤ 180 ∧
      ∀ rest, fltRuleFormat.read (image ++ rest) =
        some ((entry.hdr eq.ruleEqBitmap, eq), rest) := by
  have himage : entry.image ip =
      some (le32 (entry.hdr eq.ruleEqBitmap).word ++ entry.body ip eq) := by
    rw [FltHwEntry.image, heq, Option.map_some]
  have hwf := (entry.wellFormed_of_inOrder ip heq horder).1
  have hdvd := entry.dvd_length_body ip heq
  have hle := entry.length_body_le ip heq hwf
  have hlen : (le32 (entry.hdr eq.ruleEqBitmap).word ++ entry.body ip eq).length =
      4 + (entry.body ip eq).length := List.length_append
  refine ⟨le32 (entry.hdr eq.ruleEqBitmap).word ++ entry.body ip eq, ?gen, ?dvd, ?le,
    fun rest => ?read⟩
  case gen => rw [entry.ipaGenerateFltHwRule_eq ip haligned, himage, Option.bind_some, if_pos hnew]
  case dvd => omega
  case le => omega
  case read =>
    obtain ⟨eq', heq', hread⟩ := entry.read_image ip himage horder rest
    rw [hread, Option.some.inj (heq'.symm.trans heq)]

/-- TCP from the dynamic ports of 10.0.0.0/8 to port 443 of 192.168.0.0/16. -/
def webRule : FltHwEntry where
  action := .passToRouting
  rtTbl := some 2
  attrib :=
    { attribMask := 0x41E, srcPortLo := 49152, srcPortHi := 65535, dstPort := 443
      u := ⟨fun i => [0x600, 0x0A000000, 0xFF000000, 0xC0A80000, 0xFFFF0000].getD i 0⟩ }

def webEq : IpfltriRuleEq where
  ruleEqBitmap := 0x3E
  protocolEq := some 6
  offsetMeq32 := [⟨12, 0xFF000000, 0x0A000000⟩, ⟨16, 0xFFFF0000, 0xC0A80000⟩]
  ihlOffsetRange16 := [⟨0, 49152, 65535⟩, ⟨2, 443, 443⟩]

theorem equation_webRule : webRule.equation .v4 = some webEq := by decide

theorem hwBits_webRule : (hwBits webRule.attrib .v4).Pairwise (· < ·) := by decide

theorem ipaGenerateFltHwRule_read_webRule :
    ∃ image, ipaGenerateFltHwRule .v4 webRule [1, 0, 0, 0] =
        some ({ webRule with hwLen := image.length }, [1, 0, 0, 0] ++ image) ∧
      4 ∣ image.length ∧ image.length ≤ 180 ∧
      ∀ rest, fltRuleFormat.read (image ++ rest) =
        some ((webRule.hdr webEq.ruleEqBitmap, webEq), rest) :=
  have horder : webRule.InOrder .v4 := hwBits_webRule
  ipaGenerateFltHwRule_read (dvd_refl 4) rfl horder equation_webRule

/-- The hardware rule of attributes carries the equation that `ipa_generate_flt_eq` makes of
them: both refuse the same attributes, set the same bits, and each bit's parameters are
written once. -/
theorem ipaGenerateHwRule_agrees (attrib : RuleAttrib) (ip : IpaIpType) {buf : List UInt8}
    (haligned : 4 ∣ buf.length) (hether : attrib.has .macEtherType = false)
    (hl2tp : L2tpVersioned attrib) :
    ipaGenerateHwRule attrib ip buf = (ipaGenerateFltEq attrib ip {}).map
        (fun eq => (buf ++ hwBody attrib ip eq, eq.ruleEqBitmap)) ∧
      ∀ eq, ipaGenerateFltEq attrib ip {} = some eq → eq.WellFormed ∧
        (hwBits attrib ip).Perm
          ((List.range 16).filter fun n => eqPresent eq.ruleEqBitmap (UInt16.ofNat n)) := by
  rw [ipaGenerateFltEq_eq_hwEquation attrib ip hether hl2tp]
  refine ⟨ipaGenerateHwRule_eq_hwBody attrib ip haligned, fun eq heq => ?_⟩
  have hwf := wellFormed_hwEquation attrib heq
  obtain ⟨hnodup, hmem⟩ := nodup_hwBits attrib heq
  refine ⟨hwf, (List.perm_ext_iff_of_nodup hnodup (List.nodup_range.filter _)).mpr fun n => ?_⟩
  rw [hmem, List.mem_filter, List.mem_range]
  constructor
  · intro hsome
    have hlt := lt_of_paramAt hsome
    rw [hwf.bitmap n hlt, given_eq_isSome]
    exact ⟨hlt, hsome⟩
  · rintro ⟨hlt, hbit⟩
    rw [← given_eq_isSome, ← hwf.bitmap n hlt]
    exact hbit

theorem ipaGenerateHwRule_agrees_webRule :
    ipaGenerateHwRule webRule.attrib .v4 [1, 0, 0, 0] =
        (ipaGenerateFltEq webRule.attrib .v4 {}).map
          (fun eq => ([1, 0, 0, 0] ++ hwBody webRule.attrib .v4 eq, eq.ruleEqBitmap)) ∧
      ∀ eq, ipaGenerateFltEq webRule.attrib .v4 {} = some eq → eq.WellFormed ∧
        (hwBits webRule.attrib .v4).Perm
          ((List.range 16).filter fun n => eqPresent eq.ruleEqBitmap (UInt16.ofNat n)) :=
  ipaGenerateHwRule_agrees webRule.attrib .v4 (dvd_refl 4) (by decide)
    fun h => absurd h (by decide)

/-- A masked type of service, and a protocol. -/
def maskedTosAttrib : RuleAttrib where
  attribMask := 0x10002
  u := .ofV4Protocol 17
  tosMask := 3
  tosValue := 1

/-- Where the bits of the attributes come up in their order, the rule for the driver's own
table is byte for byte the one that their equation has in the hardware. -/
theorem ipaGenerateHwRule_eq_fromEq (attrib : RuleAttrib) (ip : IpaIpType) {buf : List UInt8}
    (haligned : 4 ∣ buf.length) (hether : attrib.has .macEtherType = false)
    (hl2tp : L2tpVersioned attrib) (horder : (hwBits attrib ip).Pairwise (· < ·)) :
    ipaGenerateHwRule attrib ip buf = (ipaGenerateFltEq attrib ip {}).map
      fun eq => (ipaGenerateHwRuleFromEq eq buf, eq.ruleEqBitmap) := by
  rw [ipaGenerateFltEq_eq_hwEquation attrib ip hether hl2tp,
    ipaGenerateHwRule_eq_hwBody attrib ip haligned]
  cases heq : hwEquation attrib ip with
  | none => rfl
  | some eq =>
    have hbytes := (emits_fromEq eq eq.ruleEqBitmap).2 buf haligned
    rw [Option.map_some, Option.map_some, hwBody_eq_write heq horder, hbytes]

theorem ipaGenerateHwRule_eq_fromEq_webRule :
    ipaGenerateHwRule webRule.attrib .v4 [1, 0, 0, 0] =
      (ipaGenerateFltEq webRule.attrib .v4 {}).map
        fun eq => (ipaGenerateHwRuleFromEq eq [1, 0, 0, 0], eq.ruleEqBitmap) :=
  ipaGenerateHwRule_eq_fromEq webRule.attrib .v4 (dvd_refl 4) (by decide)
    (fun h => absurd h (by decide)) hwBits_webRule

-- the masked type of service is written in front of the protocol, its bit stands behind it
example : ipaGenerateHwRule maskedTosAttrib .v4 [] ≠
    (ipaGenerateFltEq maskedTosAttrib .v4 {}).map
      fun eq => (ipaGenerateHwRuleFromEq eq [], eq.ruleEqBitmap) := by decide

end Images

end X00TDCellular
