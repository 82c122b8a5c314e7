import X00TDCellular.FltCommit

/-! What one table becomes in memory: the first pass finds the lengths that the second
one needs, and the second one fills the memory exactly. -/

namespace X00TDCellular
open Function

namespace FltHwEntry

variable (entry : FltHwEntry) (ip : IpaIpType)

/-- The rule, whether its length is known yet or not. -/
def unsized : FltHwEntry := { entry with hwLen := 0 }

/-- The length is that of the rule, if it is known at all. -/
def Measured : Prop :=
  entry.hwLen = 0 ∨ ∃ image, entry.image ip = some image ∧ entry.hwLen = image.length

def bytes : List UInt8 := (entry.image ip).getD []

theorem image_unsized : entry.unsized.image ip = entry.image ip := rfl

theorem dvd_length_image {image : List UInt8} (h : entry.image ip = some image) :
    4 ∣ image.length := by
  obtain ⟨eq, heq, rfl⟩ := Option.map_eq_some_iff.mp h
  have hbody := entry.dvd_length_body ip heq
  have hlen : (le32 (entry.hdr eq.ruleEqBitmap).word ++ entry.body ip eq).length =
      4 + (entry.body ip eq).length := List.length_append
  omega

theorem length_image_pos {image : List UInt8} (h : entry.image ip = some image) :
    image.length ≠ 0 := by
  obtain ⟨eq, heq, rfl⟩ := Option.map_eq_some_iff.mp h
  have hlen : (le32 (entry.hdr eq.ruleEqBitmap).word ++ entry.body ip eq).length =
      4 + (entry.body ip eq).length := List.length_append
  omega

variable {entry ip}

/-- A pass over a rule finds or confirms its length. -/
theorem Measured.generate (h : entry.Measured ip) {buf : List UInt8} (hbuf : 4 ∣ buf.length) :
    ipaGenerateFltHwRule ip entry buf = (entry.image ip).map fun image =>
      ({ entry with hwLen := image.length }, buf ++ image) := by
  rw [entry.ipaGenerateFltHwRule_eq ip hbuf]
  cases himage : entry.image ip with
  | none => rfl
  | some image =>
    rw [Option.bind_some, Option.map_some]
    rcases h with hzero | ⟨image', himage', hlen⟩
    · rw [if_pos hzero]
    · obtain rfl := Option.some.inj (himage.symm.trans himage')
      rw [if_neg (hlen ▸ entry.length_image_pos ip himage), if_neg (not_not.mpr hlen), ← hlen]

end FltHwEntry

section Passes

variable (ip : IpaIpType)

/-- The memory of a table with these rules. -/
def tblImage (es : List FltHwEntry) : List UInt8 := es.flatMap (·.bytes ip) ++ le32 0

theorem tblImage_unsized {es es' : List FltHwEntry}
    (h : es.map FltHwEntry.unsized = es'.map FltHwEntry.unsized) :
    tblImage ip es = tblImage ip es' := by
  have hbytes (es : List FltHwEntry) :
      es.flatMap (·.bytes ip) = (es.map FltHwEntry.unsized).flatMap (·.bytes ip) := by
    rw [List.flatMap_map]
    rfl
  rw [tblImage, tblImage, hbytes es, hbytes es', h]

/-- Every rule is one that the hardware can have. -/
def Writable (es : List FltHwEntry) : Prop := ∀ entry ∈ es, (entry.image ip).isSome

theorem Writable.of_unsized {es es' : List FltHwEntry}
    (h : es.map FltHwEntry.unsized = es'.map FltHwEntry.unsized) (hes : Writable ip es) :
    Writable ip es' := by
  intro entry hentry
  have hmem : entry.unsized ∈ es.map FltHwEntry.unsized := h ▸ List.mem_map_of_mem hentry
  obtain ⟨old, hold, heq⟩ := List.mem_map.mp hmem
  rw [← entry.image_unsized ip, ← heq]
  exact hes old hold

theorem sizeEntries_cons {entry : FltHwEntry} (h : entry.Measured ip) (es : List FltHwEntry) :
    sizeEntries ip (entry :: es) = (entry.image ip).elim (entry :: es, false) fun image =>
      ({ entry with hwLen := image.length } :: (sizeEntries ip es).1, (sizeEntries ip es).2) := by
  rw [sizeEntries, h.generate (dvd_zero 4)]
  cases entry.image ip <;> rfl

/-- The first pass changes nothing but lengths, which it gets right, and it goes through
if and only if every rule can be written. -/
theorem sizeEntries_spec {es : List FltHwEntry} (h : ∀ entry ∈ es, entry.Measured ip) :
    (sizeEntries ip es).1.map FltHwEntry.unsized = es.map FltHwEntry.unsized ∧
      (∀ entry ∈ (sizeEntries ip es).1, entry.Measured ip) ∧
      ((sizeEntries ip es).2 = true ↔ Writable ip es) ∧
      ((sizeEntries ip es).2 = true → ∀ entry ∈ (sizeEntries ip es).1,
        entry.hwLen = (entry.bytes ip).length) := by
  induction es with
  | nil => exact ⟨rfl, h, ⟨fun _ _ hentry => absurd hentry List.not_mem_nil, fun _ => rfl⟩,
      fun _ _ hentry => absurd hentry List.not_mem_nil⟩
  | cons entry es ih =>
    obtain ⟨hsame, hmeasured, hok, hlen⟩ := ih fun e he => h e (List.mem_cons_of_mem entry he)
    rw [sizeEntries_cons ip (h entry List.mem_cons_self)]
    cases himage : entry.image ip with
    | none =>
      refine ⟨rfl, h, ⟨fun hfalse => absurd hfalse Bool.false_ne_true, fun hall => ?_⟩,
        fun hfalse => absurd hfalse Bool.false_ne_true⟩
      have hsome := hall entry List.mem_cons_self
      rw [himage] at hsome
      cases hsome
    | some image =>
      have hbytes : entry.bytes ip = image := by rw [FltHwEntry.bytes, himage, Option.getD_some]
      refine ⟨?same, ?measured, ?ok, ?len⟩
      case same => exact congrArg (entry.unsized :: ·) hsame
      case measured => exact List.forall_mem_cons.mpr ⟨.inr ⟨image, himage, rfl⟩, hmeasured⟩
      case ok =>
        refine hok.trans ⟨fun hes => ?_, fun hall e he => hall e (List.mem_cons_of_mem entry he)⟩
        exact List.forall_mem_cons.mpr ⟨by rw [himage, Option.isSome_some], hes⟩
      case len =>
        intro htrue
        exact List.forall_mem_cons.mpr ⟨(congrArg List.length hbytes).symm, hlen htrue⟩

/-- The second pass writes one rule after the other. -/
theorem genEntries_eq {es : List FltHwEntry} (hmeasured : ∀ entry ∈ es, entry.Measured ip)
    (hes : Writable ip es) {buf : List UInt8} (hbuf : 4 ∣ buf.length) :
    genEntries ip es buf = some (buf ++ es.flatMap (·.bytes ip)) := by
  induction es generalizing buf with
  | nil => rw [genEntries, List.flatMap_nil, List.append_nil]
  | cons entry es ih =>
    obtain ⟨image, himage⟩ := Option.isSome_iff_exists.mp (hes entry List.mem_cons_self)
    have hbytes : entry.bytes ip = image := by rw [FltHwEntry.bytes, himage, Option.getD_some]
    have hnext : 4 ∣ (buf ++ image).length := by
      have himg := entry.dvd_length_image ip himage
      rw [List.length_append]
      omega
    rw [genEntries, (hmeasured entry List.mem_cons_self).generate hbuf, himage, Option.map_some,
      Option.bind_some, List.flatMap_cons, hbytes, ← List.append_assoc]
    exact ih (fun e he => hmeasured e (List.mem_cons_of_mem entry he))
      (fun e he => hes e (List.mem_cons_of_mem entry he)) hnext

/-- The length of a table that was sized is that of its rules. -/
theorem sum_hwLen {es : List FltHwEntry}
    (h : ∀ entry ∈ es, entry.hwLen = (entry.bytes ip).length) :
    (es.map (·.hwLen)).sum = (es.flatMap (·.bytes ip)).length := by
  rw [List.length_flatMap]
  exact congrArg List.sum (List.map_congr_left h)

theorem sum_hwLen_ne_zero {es : List FltHwEntry} (hne : es ≠ []) (hes : Writable ip es)
    (h : ∀ entry ∈ es, entry.hwLen = (entry.bytes ip).length) :
    (es.map (·.hwLen)).sum ≠ 0 := by
  obtain ⟨entry, rest, rfl⟩ := List.exists_cons_of_ne_nil hne
  obtain ⟨image, himage⟩ := Option.isSome_iff_exists.mp (hes entry List.mem_cons_self)
  have hlen := h entry List.mem_cons_self
  have hpos := entry.length_image_pos ip himage
  rw [FltHwEntry.bytes, himage, Option.getD_some] at hlen
  rw [List.map_cons, List.sum_cons]
  omega

end Passes

section Tables

/-- What the second pass needs of a table with rules: their memory, and its size. -/
def FltHwTbl.Ready (ip : IpaIpType) (tbl : FltHwTbl) : Prop :=
  tbl.entries ≠ [] → tbl.membody ip = some (tblImage ip tbl.entries) ∧ tbl.sz ≠ 0

/-- The rules of two states of a table differ in what is known of their lengths. -/
def FltHwTbl.SameRules (tbl tbl' : FltHwTbl) : Prop :=
  tbl'.entries.map FltHwEntry.unsized = tbl.entries.map FltHwEntry.unsized

def FltHwTbl.Measured (ip : IpaIpType) (tbl : FltHwTbl) : Prop :=
  ∀ entry ∈ tbl.entries, entry.Measured ip

/-- A table of the right size is filled to its end. -/
theorem FltHwTbl.membody_eq {ip : IpaIpType} {tbl : FltHwTbl} (h : tbl.Measured ip)
    (hes : Writable ip tbl.entries)
    (hsz : tbl.sz = (tbl.entries.flatMap (·.bytes ip)).length + 4) :
    tbl.membody ip = some (tblImage ip tbl.entries) := by
  rw [membody, genEntries_eq ip h hes (dvd_zero 4), List.nil_append, Option.map_some, hsz,
    Nat.sub_self, List.replicate_zero, List.append_nil]
  rfl

theorem FltHwTbl.size_spec {ip : IpaIpType} {tbl : FltHwTbl} (h : tbl.Measured ip) :
    tbl.SameRules (tbl.size ip).1 ∧ (tbl.size ip).1.Measured ip ∧
      ((tbl.size ip).2 = true ↔ Writable ip tbl.entries) ∧
      ((tbl.size ip).2 = true → (tbl.size ip).1.Ready ip) := by
  obtain ⟨hsame, hmeasured, hok, hlen⟩ := sizeEntries_spec ip h
  unfold FltHwTbl.size
  dsimp only
  split
  case isTrue hgo =>
    refine ⟨hsame, hmeasured, ⟨fun _ => hok.mp hgo.1, fun _ => rfl⟩, fun _ _ => ⟨?body, ?sz⟩⟩
    case body =>
      have hsum := sum_hwLen ip (hlen hgo.1)
      exact membody_eq hmeasured ((hok.mp hgo.1).of_unsized ip hsame.symm) (congrArg (· + 4) hsum)
    case sz => exact Nat.succ_ne_zero _
  case isFalse hstop =>
    -- only a table without rules has no length
    refine ⟨hsame, hmeasured, hok, fun htrue hne => ?_⟩
    have hes := (hok.mp htrue).of_unsized ip hsame.symm
    exact absurd ⟨htrue, sum_hwLen_ne_zero ip hne hes (hlen htrue)⟩ hstop

/-- What the first pass over the tables does. -/
structure SizePass (ip : IpaIpType) (ks : List FltTblKey) (s : FltHw) (r : FltHw × Bool) :
    Prop where
  pool : r.1.pool = s.pool
  sram : r.1.sram = s.sram
  other : ∀ k ∉ ks, r.1.tbl k = s.tbl k
  rules : ∀ k, (s.tbl k).SameRules (r.1.tbl k)
  measured : ∀ k, (r.1.tbl k).Measured k.ip
  ok : r.2 = true ↔ ∀ k ∈ ks, Writable ip (s.tbl k).entries
  ready : r.2 = true → ∀ k ∈ ks, (r.1.tbl k).Ready ip

theorem ipaGetFltHwTblSize_spec {ip : IpaIpType} {ks : List FltTblKey} (hip : ∀ k ∈ ks, k.ip = ip)
    (hnodup : ks.Nodup) {s : FltHw} (h : ∀ k, (s.tbl k).Measured k.ip) :
    SizePass ip ks s (ipaGetFltHwTblSize ip ks s) := by
  induction ks generalizing s with
  | nil =>
    exact ⟨rfl, rfl, fun _ _ => rfl, fun _ => rfl, h,
      ⟨fun _ k hk => absurd hk List.not_mem_nil, fun _ => rfl⟩,
      fun _ k hk => absurd hk List.not_mem_nil⟩
  | cons k ks ih =>
    obtain rfl : k.ip = ip := hip k List.mem_cons_self
    obtain ⟨hk, hnodup⟩ := List.nodup_cons.mp hnodup
    obtain ⟨hsame, hmeasured, hok, hready⟩ := FltHwTbl.size_spec (h k)
    -- the state after the table
    have hmid (k' : FltTblKey) :
        (s.tbl k').SameRules (update s.tbl k ((s.tbl k).size k.ip).1 k') ∧
          (update s.tbl k ((s.tbl k).size k.ip).1 k').Measured k'.ip := by
      by_cases hk' : k' = k
      · subst hk'
        rw [update_self]
        exact ⟨hsame, hmeasured⟩
      · rw [update_of_ne hk']
        exact ⟨rfl, h k'⟩
    rw [ipaGetFltHwTblSize]
    by_cases hfirst : ((s.tbl k).size k.ip).2 = true
    · have hrest := ih (fun k' hk' => hip k' (List.mem_cons_of_mem k hk')) hnodup
        (s := { s with tbl := update s.tbl k ((s.tbl k).size k.ip).1 }) fun k' => (hmid k').2
      simp only [if_pos hfirst]
      refine ⟨hrest.pool, hrest.sram, fun k' hk' => ?other,
        fun k' => (hrest.rules k').trans (hmid k').1, hrest.measured, hrest.ok.trans ?ok,
        fun htrue k' hk' => ?ready⟩
      case other =>
        exact (hrest.other k' (List.not_mem_of_not_mem_cons hk')).trans
          (update_of_ne (List.ne_of_not_mem_cons hk') _ _)
      case ok =>
        refine ⟨fun hall => List.forall_mem_cons.mpr ⟨hok.mp hfirst, fun k' hk' => ?_⟩,
          fun hall k' hk' => ?_⟩
        · exact (hall k' hk').of_unsized k.ip (hmid k').1
        · exact (hall k' (List.mem_cons_of_mem k hk')).of_unsized k.ip (hmid k').1.symm
      case ready =>
        rcases List.mem_cons.mp hk' with rfl | hk'
        · rw [hrest.other k' hk]
          simpa only [update_self] using hready hfirst
        · exact hrest.ready htrue k' hk'
    · simp only [if_neg hfirst]
      refine ⟨rfl, rfl, fun k' hk' => update_of_ne (List.ne_of_not_mem_cons hk') _ _,
        fun k' => (hmid k').1, fun k' => (hmid k').2, ⟨fun hfalse => ?_, fun hall => ?_⟩,
        fun hfalse => ?_⟩
      · cases hfalse
      · exact absurd (hok.mpr (hall k List.mem_cons_self)) hfirst
      · cases hfalse

end Tables

end X00TDCellular
