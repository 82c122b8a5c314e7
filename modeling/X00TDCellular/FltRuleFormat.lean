import X00TDCellular.FltHwRule

/-! What the filter hardware reads: a header word, and behind it the parameters of the
equations that the header's bitmap names, in the order of their bits. -/

namespace X00TDCellular
open SequentialFormat

section Cells

def byteFormat : SequentialFormat UInt8 UInt8 :=
  fixed 1 (fun b => [b]) (fun s => s.getD 0 0) (fun _ => rfl) fun _ => rfl

theorem getLe16_bytes (v : UInt16) : getLe16 (byte0 v) (byte1 v) = v := by
  have hlt : v.toNat < 65536 := v.toNat_lt
  apply UInt16.toNat_inj.mp
  rw [toNat_getLe16, toNat_byte0, toNat_byte1]
  omega

def word16Format : SequentialFormat UInt8 UInt16 :=
  fixed 2 (fun v => [byte0 v, byte1 v]) (fun s => getLe16 (s.getD 0 0) (s.getD 1 0))
    (fun _ => rfl) getLe16_bytes

theorem getLe32_bytes (v : UInt32) :
    getLe32 ((le32 v).getD 0 0) ((le32 v).getD 1 0) ((le32 v).getD 2 0) ((le32 v).getD 3 0) =
      v := by
  obtain ⟨b0, b1, b2, b3, hbytes, hv⟩ := getLe32_le32 v
  rw [hbytes]
  exact hv

def word32Format : SequentialFormat UInt8 UInt32 :=
  fixed 4 le32 (fun s => getLe32 (s.getD 0 0) (s.getD 1 0) (s.getD 2 0) (s.getD 3 0))
    (fun _ => rfl) getLe32_bytes

def offsetFormat : SequentialFormat UInt8 Int8 := byteFormat.via UInt8.toInt8 Int8.toUInt8

end Cells

section Equations

def byteEqFormat : SequentialFormat UInt8 UInt8 := byteFormat.padded 4 0

def wordEqFormat : SequentialFormat UInt8 UInt32 := word32Format.padded 4 0

def eq16Format : SequentialFormat UInt8 Eq16 :=
  ((offsetFormat.pair word16Format).via (fun x => ⟨x.1, x.2⟩)
    (fun e => (e.offset, e.value))).padded 4 0

def eq32Format : SequentialFormat UInt8 Eq32 :=
  ((offsetFormat.pair word32Format).via (fun x => ⟨x.1, x.2⟩)
    (fun e => (e.offset, e.value))).padded 4 0

/-- The upper bound stands in front of the lower one. -/
def range16Format : SequentialFormat UInt8 RangeEq16 :=
  ((offsetFormat.pair (word16Format.pair word16Format)).via (fun x => ⟨x.1, x.2.2, x.2.1⟩)
    (fun e => (e.offset, e.rangeHigh, e.rangeLow))).padded 4 0

def meq32Format : SequentialFormat UInt8 MaskEq32 :=
  ((offsetFormat.pair (word32Format.pair word32Format)).via (fun x => ⟨x.1, x.2.1, x.2.2⟩)
    (fun e => (e.offset, e.mask, e.value))).padded 4 0

def meq128Format : SequentialFormat UInt8 MaskEq128 :=
  ((offsetFormat.pair ((cells 16).pair (cells 16))).via (fun x => ⟨x.1, x.2.1, x.2.2⟩)
    (fun e => (e.offset, e.mask, e.value))).padded 4 0

/-- The bit of the bitmap is set. -/
def eqPresent (en n : UInt16) : Bool := en &&& eqBit n ≠ 0

/-- The parameters of the equations that the bitmap `en` names. -/
def ruleEqFormat (en : UInt16) : SequentialFormat UInt8 IpfltriRuleEq :=
  ((byteEqFormat.opt (eqPresent en 0)).pair <|
    (byteEqFormat.opt (eqPresent en 1)).pair <|
    (meq32Format.opt (eqPresent en 2)).pair <|
    (meq32Format.opt (eqPresent en 3)).pair <|
    (range16Format.opt (eqPresent en 4)).pair <|
    (range16Format.opt (eqPresent en 5)).pair <|
    (eq16Format.opt (eqPresent en 6)).pair <|
    (eq32Format.opt (eqPresent en 7)).pair <|
    (meq32Format.opt (eqPresent en 8)).pair <|
    (meq128Format.opt (eqPresent en 9)).pair <|
    (meq128Format.opt (eqPresent en 10)).pair <|
    (byteEqFormat.opt (eqPresent en 11)).pair <|
    (wordEqFormat.opt (eqPresent en 12)).pair <|
    (meq32Format.opt (eqPresent en 13)).pair <|
    meq32Format.opt (eqPresent en 14)).via
  (fun (tos, protocol, m0, m1, r0, r1, e16, e32, i0, q0, q1, tc, fl, i1, metadata) =>
    { ruleEqBitmap := en, tosEq := tos, protocolEq := protocol
      ihlOffsetRange16 := r0.toList ++ r1.toList, offsetMeq32 := m0.toList ++ m1.toList
      tcEq := tc, flEq := fl, ihlOffsetEq16 := e16, ihlOffsetEq32 := e32
      ihlOffsetMeq32 := i0.toList ++ i1.toList, offsetMeq128 := q0.toList ++ q1.toList
      metadataMeq32 := metadata, ipv4FragEq := eqPresent en 15 })
  (fun eq => (eq.tosEq, eq.protocolEq, eq.offsetMeq32[0]?, eq.offsetMeq32[1]?,
    eq.ihlOffsetRange16[0]?, eq.ihlOffsetRange16[1]?, eq.ihlOffsetEq16, eq.ihlOffsetEq32,
    eq.ihlOffsetMeq32[0]?, eq.offsetMeq128[0]?, eq.offsetMeq128[1]?, eq.tcEq, eq.flEq,
    eq.ihlOffsetMeq32[1]?, eq.metadataMeq32))

end Equations

def FltRuleHwHdr.ofWord (w : UInt32) : FltRuleHwHdr where
  enRule := w.toBitVec.extractLsb' 0 16
  action := w.toBitVec.extractLsb' 16 5
  rtTblIdx := w.toBitVec.extractLsb' 21 5
  retainHdr := w.toBitVec.extractLsb' 26 1
  toUc := w.toBitVec.extractLsb' 27 1
  rsvd := w.toBitVec.extractLsb' 28 4

theorem FltRuleHwHdr.ofWord_word (hdr : FltRuleHwHdr) : ofWord hdr.word = hdr := by
  obtain ⟨en, action, idx, retain, uc, rsvd⟩ := hdr
  simp only [ofWord, word, FltRuleHwHdr.mk.injEq]
  refine ⟨?_, ?_, ?_, ?_, ?_, ?_⟩
  all_goals
    apply BitVec.eq_of_getLsbD_eq
    intro i hi
    simp only [BitVec.getLsbD_extractLsb', BitVec.getLsbD_append]
    grind

def hdrFormat : SequentialFormat UInt8 FltRuleHwHdr :=
  word32Format.via FltRuleHwHdr.ofWord FltRuleHwHdr.word

/-- A rule as the hardware reads it. -/
def fltRuleFormat : SequentialFormat UInt8 (FltRuleHwHdr × IpfltriRuleEq) :=
  hdrFormat.dep fun hdr => ruleEqFormat ⟨hdr.enRule⟩

section Emits

theorem ipaPadTo32_append {buf : List UInt8} (h : 4 ∣ buf.length) (s : List UInt8) :
    ipaPadTo32 (buf ++ s) = buf ++ (s ++ List.replicate (gap 4 s.length) 0) := by
  have hmod : (buf ++ s).length % 4 = s.length % 4 := by
    rw [List.length_append]
    omega
  simp only [ipaPadTo32, hmod]
  by_cases hs : s.length % 4 = 0
  · rw [if_neg (not_not.mpr hs), gap, hs]
    simp
  · have hgap : gap 4 s.length = 4 - s.length % 4 := Nat.mod_eq_of_lt (by omega)
    rw [if_pos hs, hgap, List.append_assoc]

/-- At a word boundary the function writes `s`, and it stops at a word boundary. -/
def Emits (f : List UInt8 → List UInt8) (s : List UInt8) : Prop :=
  4 ∣ s.length ∧ ∀ buf, 4 ∣ buf.length → f buf = buf ++ s

theorem Emits.next {f g : List UInt8 → List UInt8} {s t : List UInt8} (hf : Emits f s)
    (hg : Emits g t) : Emits (fun buf => g (f buf)) (s ++ t) := by
  have hs := hf.1
  have ht := hg.1
  refine ⟨?_, fun buf h => ?_⟩
  · rw [List.length_append]
    omega
  · have hmid : 4 ∣ (buf ++ s).length := by
      rw [List.length_append]
      omega
    calc g (f buf) = g (buf ++ s) := by rw [hf.2 buf h]
      _ = buf ++ s ++ t := hg.2 _ hmid
      _ = buf ++ (s ++ t) := List.append_assoc buf s t

theorem emits_nil : Emits (fun buf => buf) [] :=
  ⟨dvd_zero 4, fun buf _ => (List.append_nil buf).symm⟩

/-- Padding has nothing left to do. -/
theorem Emits.pad {f : List UInt8 → List UInt8} {s : List UInt8} (hf : Emits f s) (b : Bool) :
    Emits (fun buf => if b then ipaPadTo32 (f buf) else f buf) s := by
  refine ⟨hf.1, fun buf h => ?_⟩
  have hzero : (buf ++ s).length % 4 = 0 := by
    have hs := hf.1
    rw [List.length_append]
    omega
  have hpad : ipaPadTo32 (buf ++ s) = buf ++ s := by
    rw [ipaPadTo32, hzero]
    rfl
  change (if b then ipaPadTo32 (f buf) else f buf) = buf ++ s
  rw [hf.2 buf h, hpad, ite_self]

/-- A writer pads what its format pads. -/
theorem emits_padded {α : Type} (F : SequentialFormat UInt8 α) (a : α)
    {write : List UInt8 → List UInt8} (hwrite : ∀ buf, write buf = buf ++ F.write a) :
    Emits (fun buf => ipaPadTo32 (write buf)) ((F.padded 4 0).write a) :=
  ⟨dvd_length_padded F (by decide) 0 a, fun buf h =>
    (congrArg ipaPadTo32 (hwrite buf)).trans (ipaPadTo32_append h _)⟩

theorem emits_byteEq (v : UInt8) : Emits (writeByteEq v) (byteEqFormat.write v) :=
  emits_padded byteFormat v fun _ => rfl

theorem emits_wordEq (v : UInt32) : Emits (writeWordEq v) (wordEqFormat.write v) :=
  emits_padded word32Format v fun _ => rfl

theorem emits_eq16 (e : Eq16) : Emits (writeEq16 e) (eq16Format.write e) :=
  emits_padded _ e fun buf => List.append_assoc buf _ _

theorem emits_eq32 (e : Eq32) : Emits (writeEq32 e) (eq32Format.write e) :=
  emits_padded _ e fun buf => List.append_assoc buf _ _

theorem emits_range16 (e : RangeEq16) : Emits (writeRange16 e) (range16Format.write e) :=
  emits_padded _ e fun buf =>
    (List.append_assoc (buf ++ [e.offset.toUInt8]) _ _).trans (List.append_assoc buf _ _)

theorem emits_meq32 (e : MaskEq32) : Emits (writeMeq32 e) (meq32Format.write e) :=
  emits_padded _ e fun buf =>
    (List.append_assoc (buf ++ [e.offset.toUInt8]) _ _).trans (List.append_assoc buf _ _)

theorem foldl_ipaWrite8 (bytes buf : List UInt8) :
    bytes.foldl (fun buf b => ipaWrite8 b buf) buf = buf ++ bytes := by
  induction bytes generalizing buf with
  | nil => exact (List.append_nil buf).symm
  | cons b bytes ih => rw [List.foldl_cons, ih, ipaWrite8, List.append_assoc, List.singleton_append]

theorem emits_meq128 (e : MaskEq128) : Emits (writeMeq128 e) (meq128Format.write e) :=
  emits_padded _ e fun buf => by
    rw [foldl_ipaWrite8, foldl_ipaWrite8]
    exact (List.append_assoc (buf ++ [e.offset.toUInt8]) _ _).trans (List.append_assoc buf _ _)

theorem emits_opt {α : Type} {F : SequentialFormat UInt8 α}
    {write : α → List UInt8 → List UInt8} (hwrite : ∀ a, Emits (write a) (F.write a))
    (b : Bool) (o : Option α) : Emits (writeOpt write o) ((F.opt b).write o) := by
  cases o with
  | none => exact emits_nil
  | some a => exact hwrite a

/-- The generator writes its equations in the order in which the hardware reads them. -/
theorem emits_fromEq (eq : IpfltriRuleEq) (en : UInt16) :
    Emits (ipaGenerateHwRuleFromEq eq) ((ruleEqFormat en).write eq) :=
  (emits_opt emits_byteEq _ _).next <| (emits_opt emits_byteEq _ _).next <|
    (emits_opt emits_meq32 _ _).next <| (emits_opt emits_meq32 _ _).next <|
    (emits_opt emits_range16 _ _).next <| (emits_opt emits_range16 _ _).next <|
    (emits_opt emits_eq16 _ _).next <| (emits_opt emits_eq32 _ _).next <|
    (emits_opt emits_meq32 _ _).next <| (emits_opt emits_meq128 _ _).next <|
    (emits_opt emits_meq128 _ _).next <| (emits_opt emits_byteEq _ _).next <|
    (emits_opt emits_wordEq _ _).next <| (emits_opt emits_meq32 _ _).next <|
    (emits_opt emits_meq32 _ _).pad _

end Emits

section WellFormed

/-- Whether the equation behind bit `n` of the bitmap is given. -/
def IpfltriRuleEq.given (eq : IpfltriRuleEq) : ℕ → Bool
  | 0 => eq.tosEq.isSome
  | 1 => eq.protocolEq.isSome
  | 2 => eq.offsetMeq32[0]?.isSome
  | 3 => eq.offsetMeq32[1]?.isSome
  | 4 => eq.ihlOffsetRange16[0]?.isSome
  | 5 => eq.ihlOffsetRange16[1]?.isSome
  | 6 => eq.ihlOffsetEq16.isSome
  | 7 => eq.ihlOffsetEq32.isSome
  | 8 => eq.ihlOffsetMeq32[0]?.isSome
  | 9 => eq.offsetMeq128[0]?.isSome
  | 10 => eq.offsetMeq128[1]?.isSome
  | 11 => eq.tcEq.isSome
  | 12 => eq.flEq.isSome
  | 13 => eq.ihlOffsetMeq32[1]?.isSome
  | 14 => eq.metadataMeq32.isSome
  | 15 => eq.ipv4FragEq
  | _ => false

/-- The bitmap names the equations that are given, and each array has its two places. -/
structure IpfltriRuleEq.WellFormed (eq : IpfltriRuleEq) : Prop where
  bitmap : ∀ n < 16, eqPresent eq.ruleEqBitmap (UInt16.ofNat n) = eq.given n
  meq32 : eq.offsetMeq32.length ≤ 2
  range16 : eq.ihlOffsetRange16.length ≤ 2
  ihlMeq32 : eq.ihlOffsetMeq32.length ≤ 2
  meq128 : eq.offsetMeq128.length ≤ 2
  bytes : ∀ e ∈ eq.offsetMeq128, e.mask.length = 16 ∧ e.value.length = 16

/-- The two places of an array list all of it. -/
theorem slots_toList {α : Type} {l : List α} (h : l.length ≤ 2) :
    l[0]?.toList ++ l[1]?.toList = l := by
  match l, h with
  | [], _ => rfl
  | [_], _ => rfl
  | [_, _], _ => rfl

theorem opt_ok {α : Type} {F : SequentialFormat UInt8 α} {b : Bool} {o : Option α}
    (h : b = o.isSome) (hok : ∀ a ∈ o, F.Ok a) : (F.opt b).Ok o := ⟨h.symm, hok⟩

theorem offset_ok (o : Int8) : offsetFormat.Ok o := ⟨trivial, Int8.toInt8_toUInt8 o⟩

theorem meq32_ok (e : MaskEq32) : meq32Format.Ok e :=
  ⟨⟨offset_ok e.offset, trivial, trivial⟩, rfl⟩

theorem IpfltriRuleEq.WellFormed.ok {eq : IpfltriRuleEq} (h : eq.WellFormed) :
    (ruleEqFormat eq.ruleEqBitmap).Ok eq := by
  have hbit := h.bitmap
  have hrange (e : RangeEq16) : range16Format.Ok e :=
    ⟨⟨offset_ok e.offset, trivial, trivial⟩, rfl⟩
  have hq (i : ℕ) : ∀ e ∈ eq.offsetMeq128[i]?, meq128Format.Ok e := fun e he =>
    ⟨⟨offset_ok e.offset, (h.bytes e (List.mem_of_getElem? he)).1,
      (h.bytes e (List.mem_of_getElem? he)).2⟩, rfl⟩
  refine ⟨⟨opt_ok (hbit 0 (by omega)) fun _ _ => trivial,
    opt_ok (hbit 1 (by omega)) fun _ _ => trivial,
    opt_ok (hbit 2 (by omega)) fun e _ => meq32_ok e,
    opt_ok (hbit 3 (by omega)) fun e _ => meq32_ok e,
    opt_ok (hbit 4 (by omega)) fun e _ => hrange e, opt_ok (hbit 5 (by omega)) fun e _ => hrange e,
    opt_ok (hbit 6 (by omega)) fun e _ => ⟨⟨offset_ok e.offset, trivial⟩, rfl⟩,
    opt_ok (hbit 7 (by omega)) fun e _ => ⟨⟨offset_ok e.offset, trivial⟩, rfl⟩,
    opt_ok (hbit 8 (by omega)) fun e _ => meq32_ok e, opt_ok (hbit 9 (by omega)) (hq 0),
    opt_ok (hbit 10 (by omega)) (hq 1), opt_ok (hbit 11 (by omega)) fun _ _ => trivial,
    opt_ok (hbit 12 (by omega)) fun _ _ => trivial,
    opt_ok (hbit 13 (by omega)) fun e _ => meq32_ok e,
    opt_ok (hbit 14 (by omega)) fun e _ => meq32_ok e⟩, ?_⟩
  have hfrag : eqPresent eq.ruleEqBitmap 15 = eq.ipv4FragEq := hbit 15 (by omega)
  simp only [slots_toList h.meq32, slots_toList h.range16, slots_toList h.ihlMeq32,
    slots_toList h.meq128, hfrag]

end WellFormed

end X00TDCellular
