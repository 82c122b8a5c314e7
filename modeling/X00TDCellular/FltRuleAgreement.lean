import Mathlib.Data.List.Sort
import X00TDCellular.EqRequests

/-! `ipa_generate_hw_rule`, which writes a rule's attributes for the hardware, against
`ipa_generate_flt_eq`, which describes them by an equation. -/

namespace X00TDCellular
open SequentialFormat Function

section Params

/-- The parameters behind bit `n` of the bitmap. -/
def IpfltriRuleEq.paramAt (eq : IpfltriRuleEq) : ℕ → Option (List UInt8)
  | 0 => eq.tosEq.map byteEqFormat.write
  | 1 => eq.protocolEq.map byteEqFormat.write
  | 2 => eq.offsetMeq32[0]?.map meq32Format.write
  | 3 => eq.offsetMeq32[1]?.map meq32Format.write
  | 4 => eq.ihlOffsetRange16[0]?.map range16Format.write
  | 5 => eq.ihlOffsetRange16[1]?.map range16Format.write
  | 6 => eq.ihlOffsetEq16.map eq16Format.write
  | 7 => eq.ihlOffsetEq32.map eq32Format.write
  | 8 => eq.ihlOffsetMeq32[0]?.map meq32Format.write
  | 9 => eq.offsetMeq128[0]?.map meq128Format.write
  | 10 => eq.offsetMeq128[1]?.map meq128Format.write
  | 11 => eq.tcEq.map byteEqFormat.write
  | 12 => eq.flEq.map wordEqFormat.write
  | 13 => eq.ihlOffsetMeq32[1]?.map meq32Format.write
  | 14 => eq.metadataMeq32.map meq32Format.write
  | 15 => if eq.ipv4FragEq then some [] else none
  | _ => none

/-- The parameters with their bits, in the order in which the hardware reads them. -/
def IpfltriRuleEq.hwParams (eq : IpfltriRuleEq) : List (ℕ × List UInt8) :=
  (List.range 16).filterMap fun n => (eq.paramAt n).map fun bytes => (n, bytes)

theorem given_eq_isSome (eq : IpfltriRuleEq) (n : ℕ) : eq.given n = (eq.paramAt n).isSome := by
  match n with
  | 0 | 1 | 2 | 3 | 4 | 5 | 6 | 7 | 8 | 9 | 10 | 11 | 12 | 13 | 14 => exact Option.isSome_map.symm
  | 15 =>
    cases h : eq.ipv4FragEq <;> simp [IpfltriRuleEq.given, IpfltriRuleEq.paramAt, h]
  | _+16 => rfl

theorem flatMap_filterMap (f : ℕ → Option (List UInt8)) (ns : List ℕ) :
    (ns.filterMap fun n => (f n).map fun bytes => (n, bytes)).flatMap (·.2) =
      ns.flatMap fun n => (f n).getD [] := by
  induction ns with
  | nil => rfl
  | cons n ns ih =>
    rw [List.filterMap_cons, List.flatMap_cons]
    cases hn : f n with
    | none => simpa using ih
    | some bytes => simpa using ih

theorem write_ruleEqFormat (en : UInt16) (eq : IpfltriRuleEq) :
    (ruleEqFormat en).write eq = eq.hwParams.flatMap (·.2) := by
  have hopt {α : Type} (F : SequentialFormat UInt8 α) (b : Bool) (o : Option α) :
      (F.opt b).write o = (o.map F.write).getD [] := by
    cases o <;> rfl
  have hfrag : (eq.paramAt 15).getD [] = [] := by
    cases h : eq.ipv4FragEq <;> simp [IpfltriRuleEq.paramAt, h]
  have hrange : List.range 16 = [0, 1, 2, 3, 4, 5, 6, 7, 8, 9, 10, 11, 12, 13, 14, 15] := by decide
  rw [IpfltriRuleEq.hwParams, flatMap_filterMap, hrange]
  simp only [List.flatMap_cons, List.flatMap_nil, hfrag, List.append_nil]
  simp only [ruleEqFormat, via, pair, dep, hopt, IpfltriRuleEq.paramAt]

namespace EqReq

theorem paramAt_place_of_notMem {r : EqReq} {k : ℕ} (h : k ∉ r.slots) (eq : IpfltriRuleEq) :
    (r.place eq).paramAt k = eq.paramAt k := by
  match k with
  | 0 | 1 | 2 | 3 | 4 | 5 | 6 | 7 | 8 | 9 | 10 | 11 | 12 | 13 | 14 | 15 =>
    cases r <;> first | rfl | exact absurd (by simp [slots]) h
  | _+16 => rfl

/-- A request fills in the parameters of its bit. -/
theorem paramAt_place {r : EqReq} {eq : IpfltriRuleEq} {n : ℕ}
    (h : r.slots[r.used eq]? = some n) :
    (r.place eq).paramAt = update eq.paramAt n (some r.bytes) := by
  have htwo {a b : ℕ} {l : List ℕ} {i : ℕ} (hl : l = [a, b]) (hi : l[i]? = some n) :
      (i = 0 ∧ n = a) ∨ (i = 1 ∧ n = b) := by
    subst hl
    match i with
    | 0 => exact .inl ⟨rfl, (Option.some.inj hi).symm⟩
    | 1 => exact .inr ⟨rfl, (Option.some.inj hi).symm⟩
    | _+2 => cases hi
  funext k
  by_cases hk : k ∈ r.slots
  case neg =>
    have hn : k ≠ n := fun hn => hk (hn ▸ List.mem_of_getElem? h)
    rw [paramAt_place_of_notMem hk, update_of_ne hn]
  cases r
  case meq32 e =>
    obtain ⟨hused, rfl⟩ | ⟨hused, rfl⟩ := htwo rfl h <;>
      obtain rfl | rfl := (by simpa [slots] using hk : k = 2 ∨ k = 3) <;>
      have hlen : eq.offsetMeq32.length = _ := hused <;>
      simp [place, IpfltriRuleEq.paramAt, hlen, bytes]
  case ihlRng16 e =>
    obtain ⟨hused, rfl⟩ | ⟨hused, rfl⟩ := htwo rfl h <;>
      obtain rfl | rfl := (by simpa [slots] using hk : k = 4 ∨ k = 5) <;>
      have hlen : eq.ihlOffsetRange16.length = _ := hused <;>
      simp [place, IpfltriRuleEq.paramAt, hlen, bytes]
  case ihlMeq32 e =>
    obtain ⟨hused, rfl⟩ | ⟨hused, rfl⟩ := htwo rfl h <;>
      obtain rfl | rfl := (by simpa [slots] using hk : k = 8 ∨ k = 13) <;>
      have hlen : eq.ihlOffsetMeq32.length = _ := hused <;>
      simp [place, IpfltriRuleEq.paramAt, hlen, bytes]
  case meq128 e =>
    obtain ⟨hused, rfl⟩ | ⟨hused, rfl⟩ := htwo rfl h <;>
      obtain rfl | rfl := (by simpa [slots] using hk : k = 9 ∨ k = 10) <;>
      have hlen : eq.offsetMeq128.length = _ := hused <;>
      simp [place, IpfltriRuleEq.paramAt, hlen, bytes]
  all_goals
    obtain rfl := List.mem_singleton.mp hk
    obtain rfl := Option.some.inj h
    rw [update_self]
    rfl

end EqReq

end Params

section WellFormed

theorem toNat_eqBit {n : ℕ} (h : n < 16) : (eqBit (UInt16.ofNat n)).toNat = 2^n := by
  have hpow : 2^n < 65536 := Nat.pow_lt_pow_right (by decide) h
  have hmod : n % 65536 % 16 = n := by omega
  simp [eqBit, hmod, Nat.shiftLeft_eq, Nat.mod_eq_of_lt hpow]

theorem eqPresent_eq_testBit (c : UInt16) {n : ℕ} (h : n < 16) :
    eqPresent c (UInt16.ofNat n) = c.toNat.testBit n := by
  have hand : (c &&& eqBit (UInt16.ofNat n)).toNat = (c.toNat.testBit n).toNat * 2^n := by
    rw [UInt16.toNat_and, toNat_eqBit h, Nat.and_two_pow]
  have hzero : c &&& eqBit (UInt16.ofNat n) = 0 ↔ c.toNat.testBit n = false := by
    rw [← UInt16.toNat_inj, hand]
    cases c.toNat.testBit n <;> simp
  rw [Bool.eq_iff_iff, eqPresent, decide_eq_true_iff, ne_eq, hzero, Bool.not_eq_false]

/-- Setting a bit of the bitmap. -/
theorem eqPresent_or (b : UInt16) {m n : ℕ} (hm : m < 16) (hn : n < 16) :
    eqPresent (b ||| eqBit (UInt16.ofNat m)) (UInt16.ofNat n) =
      (eqPresent b (UInt16.ofNat n) || decide (n = m)) := by
  rw [eqPresent_eq_testBit _ hn, eqPresent_eq_testBit _ hn, UInt16.toNat_or, toNat_eqBit hm,
    Nat.testBit_or, Nat.testBit_two_pow]
  simp only [eq_comm]

namespace EqReq

/-- The masks and values of 128 bits are that long. -/
def Sized : EqReq → Prop
  | .meq128 e => e.mask.length = 16 ∧ e.value.length = 16
  | _ => True

/-- What a request does that is not refused: there is a bit for it, whose parameters it
gives. -/
theorem push_cases {r : EqReq} {eq eq' : IpfltriRuleEq} (h : r.push eq = some eq') :
    ∃ n, r.slots[r.used eq]? = some n ∧ eq' = r.pushAt eq n := by
  rw [push_eq, slotAt] at h
  by_cases hvalid : r.valid = true
  · rw [if_pos hvalid] at h
    obtain ⟨n, hslot, heq⟩ := Option.map_eq_some_iff.mp h
    exact ⟨n, hslot, heq.symm⟩
  · rw [if_neg hvalid] at h
    cases h

theorem lt_of_mem_slots {r : EqReq} {n : ℕ} (h : n ∈ r.slots) : n < 16 := by
  cases r <;> simp only [slots, List.mem_cons, List.not_mem_nil, or_false] at h <;> omega

theorem paramAt_pushAt {r : EqReq} {eq : IpfltriRuleEq} {n : ℕ}
    (h : r.slots[r.used eq]? = some n) :
    (r.pushAt eq n).paramAt = update eq.paramAt n (some r.bytes) := paramAt_place h

theorem wellFormed_push {r : EqReq} {eq eq' : IpfltriRuleEq} (hr : r.Sized)
    (hwf : eq.WellFormed) (h : r.push eq = some eq') : eq'.WellFormed := by
  obtain ⟨n, hslot, rfl⟩ := push_cases h
  have hn : n < 16 := lt_of_mem_slots (List.mem_of_getElem? hslot)
  have hused : r.used eq < r.slots.length := (List.getElem?_eq_some_iff.mp hslot).1
  have hbitmap : ∀ k < 16, eqPresent (r.pushAt eq n).ruleEqBitmap (UInt16.ofNat k) =
      (r.pushAt eq n).given k := by
    intro k hk
    rw [given_eq_isSome, paramAt_pushAt hslot]
    have hold := hwf.bitmap k hk
    rw [given_eq_isSome] at hold
    calc eqPresent (r.pushAt eq n).ruleEqBitmap (UInt16.ofNat k)
        = (eqPresent eq.ruleEqBitmap (UInt16.ofNat k) || decide (k = n)) :=
          eqPresent_or eq.ruleEqBitmap hn hk
      _ = ((eq.paramAt k).isSome || decide (k = n)) := by rw [hold]
      _ = (update eq.paramAt n (some r.bytes) k).isSome := by
          by_cases hkn : k = n
          · simp [hkn]
          · simp [hkn]
  obtain ⟨-, hmeq32, hrange16, hihlMeq32, hmeq128, hbytes⟩ := hwf
  have hnext {α : Type} {l : List α} (hl : l.length < 2) (e : α) : (l ++ [e]).length ≤ 2 := by
    rw [List.length_append, List.length_singleton]
    omega
  cases r
  case meq32 e => exact ⟨hbitmap, hnext hused e, hrange16, hihlMeq32, hmeq128, hbytes⟩
  case ihlRng16 e => exact ⟨hbitmap, hmeq32, hnext hused e, hihlMeq32, hmeq128, hbytes⟩
  case ihlMeq32 e => exact ⟨hbitmap, hmeq32, hrange16, hnext hused e, hmeq128, hbytes⟩
  case meq128 e =>
    refine ⟨hbitmap, hmeq32, hrange16, hihlMeq32, hnext hused e, fun e' he' => ?_⟩
    rcases List.mem_append.mp he' with hold | hnew
    · exact hbytes e' hold
    · rw [List.mem_singleton.mp hnew]
      exact hr
  all_goals exact ⟨hbitmap, hmeq32, hrange16, hihlMeq32, hmeq128, hbytes⟩

end EqReq

theorem wellFormed_pushAll {rs : List EqReq} (hrs : ∀ r ∈ rs, r.Sized)
    {eq eq' : IpfltriRuleEq} (hwf : eq.WellFormed) (h : pushAll rs eq = some eq') :
    eq'.WellFormed := by
  induction rs generalizing eq with
  | nil => exact Option.some.inj h ▸ hwf
  | cons r rs ih =>
    rw [pushAll_cons] at h
    obtain ⟨mid, hfirst, hrest⟩ := Option.bind_eq_some_iff.mp h
    exact ih (fun t ht => hrs t (List.mem_cons_of_mem r ht))
      (EqReq.wellFormed_push (hrs r List.mem_cons_self) hwf hfirst) hrest

end WellFormed

section Tracks

/-- How many places of the kind the writing generator has used. -/
def EqReq.usedBy : EqReq → HwRuleGen → ℕ
  | .meq32 _, g => g.ofstMeq32
  | .ihlRng16 _, g => g.ihlOfstRng16
  | .ihlMeq32 _, g => g.ihlOfstMeq32
  | .meq128 _, g => g.ofstMeq128
  | _, _ => 0

/-- The writing generator has written `ps` behind `buf`, the parameters of `eq`. -/
structure Tracks (buf : List UInt8) (eq : IpfltriRuleEq) (g : HwRuleGen)
    (ps : List (ℕ × List UInt8)) : Prop where
  enRule : g.enRule = eq.ruleEqBitmap
  used : ∀ r : EqReq, r.usedBy g = r.used eq
  buf_eq : g.buf = buf ++ ps.flatMap (·.2)
  aligned : 4 ∣ g.buf.length
  params : ∀ n bytes, (n, bytes) ∈ ps ↔ eq.paramAt n = some bytes
  nodup : (ps.map (·.1)).Nodup

namespace EqReq

def writer : EqReq → List UInt8 → List UInt8
  | .tos v | .protocol v | .tc v => writeByteEq v
  | .fl v => writeWordEq v
  | .metadata e | .meq32 e | .ihlMeq32 e => writeMeq32 e
  | .ihlRng16 e => writeRange16 e
  | .meq128 e => writeMeq128 e
  | .frag => ipaPadTo32

theorem emits_writer (r : EqReq) : Emits r.writer r.bytes := by
  cases r
  case fl v => exact emits_wordEq v
  case metadata e => exact emits_meq32 e
  case meq32 e => exact emits_meq32 e
  case ihlMeq32 e => exact emits_meq32 e
  case ihlRng16 e => exact emits_range16 e
  case meq128 e => exact emits_meq128 e
  case frag => exact (emits_nil).pad true
  all_goals exact emits_byteEq _

/-- The counter of the kind goes up. -/
def counted : EqReq → HwRuleGen → HwRuleGen
  | .meq32 _, g => { g with ofstMeq32 := g.ofstMeq32 + 1 }
  | .ihlRng16 _, g => { g with ihlOfstRng16 := g.ihlOfstRng16 + 1 }
  | .ihlMeq32 _, g => { g with ihlOfstMeq32 := g.ihlOfstMeq32 + 1 }
  | .meq128 _, g => { g with ofstMeq128 := g.ofstMeq128 + 1 }
  | _, g => g

def genAt (r : EqReq) (g : HwRuleGen) (bit : ℕ) : HwRuleGen :=
  { r.counted g with enRule := g.enRule ||| eqBit (UInt16.ofNat bit), buf := r.writer g.buf }

theorem gen_eq (r : EqReq) (g : HwRuleGen) :
    r.gen g = (r.slotAt (r.usedBy g)).map (r.genAt g) := by
  cases r
  case ihlRng16 e =>
    by_cases h : e.rangeHigh < e.rangeLow
    · simp [gen, HwRuleGen.ihlRng16, slotAt, valid, h]
    · have hvalid : (ihlRng16 e).valid = true := by simp [valid, h]
      rw [slotAt, if_pos hvalid]
      simp only [gen, HwRuleGen.ihlRng16, if_neg h]
      exact slot_bind 4 5 _ fun slot => { g with
        enRule := g.enRule ||| slot, buf := writeRange16 e g.buf
        ihlOfstRng16 := g.ihlOfstRng16 + 1 }
  case meq32 e =>
    exact slot_bind 2 3 _ fun slot => { g with
      enRule := g.enRule ||| slot, buf := writeMeq32 e g.buf, ofstMeq32 := g.ofstMeq32 + 1 }
  case ihlMeq32 e =>
    exact slot_bind 8 13 _ fun slot => { g with
      enRule := g.enRule ||| slot, buf := writeMeq32 e g.buf
      ihlOfstMeq32 := g.ihlOfstMeq32 + 1 }
  case meq128 e =>
    exact slot_bind 9 10 _ fun slot => { g with
      enRule := g.enRule ||| slot, buf := writeMeq128 e g.buf, ofstMeq128 := g.ofstMeq128 + 1 }
  all_goals rfl

/-- Both generators count alike. -/
theorem usedBy_genAt (r s : EqReq) {g : HwRuleGen} {eq : IpfltriRuleEq}
    (h : ∀ t : EqReq, t.usedBy g = t.used eq) (n : ℕ) :
    s.usedBy (r.genAt g n) = s.used (r.pushAt eq n) := by
  have hlen {α : Type} (l : List α) (e : α) : (l ++ [e]).length = l.length + 1 := by
    rw [List.length_append, List.length_singleton]
  have hs := h s
  by_cases hkind : s.slots = r.slots
  · cases r <;> cases s <;>
      first
        | rfl
        | exact (congrArg (· + 1) hs).trans (hlen _ _).symm
        | simp [slots] at hkind
  · rw [used_pushAt hkind, ← hs]
    cases r <;> cases s <;> first | rfl | exact absurd rfl hkind

end EqReq

theorem Tracks.step {buf : List UInt8} {eq : IpfltriRuleEq} {g : HwRuleGen}
    {ps : List (ℕ × List UInt8)} (h : Tracks buf eq g ps) {r : EqReq} {n : ℕ}
    (hslot : r.slots[r.used eq]? = some n) (hfresh : eq.paramAt n = none) :
    Tracks buf (r.pushAt eq n) (r.genAt g n) (ps ++ [(n, r.bytes)]) := by
  have hbuf : (r.genAt g n).buf = g.buf ++ r.bytes := r.emits_writer.2 g.buf h.aligned
  constructor
  case enRule => exact congrArg (· ||| eqBit (UInt16.ofNat n)) h.enRule
  case used => exact fun s => r.usedBy_genAt s h.used n
  case buf_eq => rw [hbuf, h.buf_eq, List.flatMap_append, List.append_assoc]; simp
  case aligned =>
    have hg := h.aligned
    have hr := r.emits_writer.1
    rw [hbuf, List.length_append]
    omega
  case params =>
    intro k bytes
    rw [EqReq.paramAt_pushAt hslot, List.mem_append, h.params, List.mem_singleton, Prod.mk.injEq]
    by_cases hk : k = n
    · rw [hk, update_self, hfresh]
      simp [eq_comm]
    · rw [update_of_ne hk]
      simp [hk]
  case nodup =>
    rw [List.map_append, List.map_singleton, List.nodup_append]
    refine ⟨h.nodup, List.nodup_singleton _, fun k hk k' hk' hkk => ?_⟩
    obtain ⟨⟨k₀, bytes⟩, hmem, hk₀⟩ := List.mem_map.mp hk
    have hsome := (h.params k₀ bytes).mp hmem
    have hkn : k₀ = n := hk₀.trans (hkk.trans (List.mem_singleton.mp hk'))
    rw [hkn, hfresh] at hsome
    cases hsome

/-- Equations of a kind with one place are asked for once, and are not there yet. -/
structure Fresh (rs : List EqReq) (eq : IpfltriRuleEq) : Prop where
  once : rs.Pairwise fun r s => r.slots = s.slots → r.slots.length = 2
  absent : ∀ r ∈ rs, r.slots.length = 1 → ∀ n ∈ r.slots, eq.paramAt n = none

/-- The bits that requests of these kinds take: each the first one of its kind that is
free. -/
def takeBits (kinds : List (List ℕ)) (taken : List ℕ) : List ℕ :=
  kinds.foldl (fun taken slots => taken ++ (slots.find? (· ∉ taken)).toList) taken

namespace EqReq

theorem slots_eq_of_mem {r s : EqReq} {n : ℕ} (hr : n ∈ r.slots) (hs : n ∈ s.slots) :
    r.slots = s.slots := by
  cases r <;> cases s <;>
    simp only [slots, List.mem_cons, List.not_mem_nil, or_false] at hr hs ⊢ <;> omega

/-- The bit after those in use, of a kind with an array. -/
theorem free_of_array {α : Type} {l : List α} {f : ℕ → Option (List UInt8)} {a b n : ℕ}
    (ha : (f a).isSome = l[0]?.isSome) (hb : (f b).isSome = l[1]?.isSome)
    (h : [a, b][l.length]? = some n) :
    f n = none ∧ [a, b].find? (fun k => (f k).isNone) = some n := by
  match l, h with
  | [], h =>
    obtain rfl : a = n := Option.some.inj h
    have hnone : f a = none := Option.not_isSome_iff_eq_none.mp (by simp [ha])
    exact ⟨hnone, by simp [hnone]⟩
  | [_], h =>
    obtain rfl : b = n := Option.some.inj h
    have hnone : f b = none := Option.not_isSome_iff_eq_none.mp (by simp [hb])
    have hsome : (f a).isSome = true := by simp [ha]
    exact ⟨hnone, by simp [hnone, hsome]⟩

/-- The bit that a request takes was free, and is the first such one of its kind. -/
theorem slot_free {r : EqReq} {eq : IpfltriRuleEq} {n : ℕ} (h : r.slots[r.used eq]? = some n)
    (hsingle : r.slots.length = 1 → ∀ k ∈ r.slots, eq.paramAt k = none) :
    eq.paramAt n = none ∧ r.slots.find? (fun k => (eq.paramAt k).isNone) = some n := by
  cases r
  case meq32 e =>
    exact free_of_array Option.isSome_map Option.isSome_map h
  case ihlRng16 e =>
    exact free_of_array Option.isSome_map Option.isSome_map h
  case ihlMeq32 e =>
    exact free_of_array Option.isSome_map Option.isSome_map h
  case meq128 e =>
    exact free_of_array Option.isSome_map Option.isSome_map h
  all_goals
    obtain rfl := Option.some.inj h
    have hnone := hsingle rfl _ List.mem_cons_self
    exact ⟨hnone, by simp [slots, hnone]⟩

end EqReq

theorem Fresh.tail {r : EqReq} {rs : List EqReq} {eq : IpfltriRuleEq} (h : Fresh (r :: rs) eq)
    {n : ℕ} (hslot : r.slots[r.used eq]? = some n) : Fresh rs (r.pushAt eq n) := by
  obtain ⟨hhead, htail⟩ := List.pairwise_cons.mp h.once
  refine ⟨htail, fun s hs hlen k hk => ?_⟩
  have hne : k ≠ n := by
    rintro rfl
    have hkinds := EqReq.slots_eq_of_mem (List.mem_of_getElem? hslot) hk
    have htwo := hhead s hs hkinds
    rw [hkinds] at htwo
    omega
  rw [EqReq.paramAt_pushAt hslot, update_of_ne hne]
  exact h.absent s (List.mem_cons_of_mem r hs) hlen k hk

theorem Tracks.mem_bits {buf : List UInt8} {eq : IpfltriRuleEq} {g : HwRuleGen}
    {ps : List (ℕ × List UInt8)} (h : Tracks buf eq g ps) (k : ℕ) :
    k ∈ ps.map (·.1) ↔ (eq.paramAt k).isSome := by
  rw [Option.isSome_iff_exists]
  constructor
  · intro hk
    obtain ⟨⟨k₀, bytes⟩, hin, rfl⟩ := List.mem_map.mp hk
    exact ⟨bytes, (h.params k₀ bytes).mp hin⟩
  · rintro ⟨bytes, hbytes⟩
    exact List.mem_map.mpr ⟨(k, bytes), (h.params k bytes).mpr hbytes, rfl⟩

theorem Tracks.find_slot {buf : List UInt8} {eq : IpfltriRuleEq} {g : HwRuleGen}
    {ps : List (ℕ × List UInt8)} (h : Tracks buf eq g ps) (slots : List ℕ) :
    slots.find? (· ∉ ps.map (·.1)) = slots.find? fun k => (eq.paramAt k).isNone := by
  congr 1
  funext k
  rw [Bool.eq_iff_iff, decide_eq_true_iff, h.mem_bits, Option.isNone_iff_eq_none,
    Option.not_isSome_iff_eq_none]

/-- On the same requests both generators refuse or both go through, and then one has
written what the other has noted. -/
theorem Tracks.run {rs : List EqReq} {buf : List UInt8} {eq : IpfltriRuleEq} {g : HwRuleGen}
    {ps : List (ℕ × List UInt8)} (h : Tracks buf eq g ps) (hfresh : Fresh rs eq) :
    (pushAll rs eq = none ∧ genAll rs g = none) ∨
      ∃ eq' g' ps', pushAll rs eq = some eq' ∧ genAll rs g = some g' ∧
        Tracks buf eq' g' ps' ∧
        ps'.map (·.1) = takeBits (rs.map EqReq.slots) (ps.map (·.1)) := by
  induction rs generalizing eq g ps with
  | nil => exact .inr ⟨eq, g, ps, rfl, rfl, h, rfl⟩
  | cons r rs ih =>
    have hpush : pushAll (r :: rs) eq = (r.push eq).bind (pushAll rs) := pushAll_cons r rs eq
    have hgen : genAll (r :: rs) g = (r.gen g).bind (genAll rs) := List.foldlM_cons
    rw [r.push_eq] at hpush
    rw [r.gen_eq, h.used] at hgen
    cases hat : r.slotAt (r.used eq) with
    | none =>
      rw [hat] at hpush hgen
      exact .inl ⟨hpush, hgen⟩
    | some n =>
      rw [hat] at hpush hgen
      have hslot : r.slots[r.used eq]? = some n := by
        rw [EqReq.slotAt] at hat
        split at hat
        · exact hat
        · cases hat
      obtain ⟨hfree, hfind⟩ := EqReq.slot_free hslot (hfresh.absent r List.mem_cons_self)
      have hbits : takeBits ((r :: rs).map EqReq.slots) (ps.map (·.1)) =
          takeBits (rs.map EqReq.slots) ((ps ++ [(n, r.bytes)]).map (·.1)) := by
        rw [takeBits, List.map_cons, List.foldl_cons, h.find_slot, hfind, List.map_append]
        rfl
      have hrest := ih (h.step hslot hfree) (hfresh.tail hslot)
      rw [hbits, hpush, hgen]
      exact hrest

end Tracks

end X00TDCellular
