import Mathlib.Logic.Relation
import X00TDCellular.FltCommitSend

/-! Runs of rule changes and commits: what the hardware reads behind a header word is
always the memory of the rules that were committed last. -/

namespace X00TDCellular
open Function BufferPool

section Reap

/-- What reaping leaves as it was in memory. -/
structure Reaped (pins : FltPins) (s s' : FltHw) : Prop where
  sound : s'.pool.Sound FltTblKey.ip pins
  heap : ∀ ip, ∀ a ∈ pins ip, s'.pool.heap a = s.pool.heap a
  holds : ∀ k a, s'.pool.Holds k a → s.pool.Holds k a

/-- The readers of a family use the current buffers of its tables with rules, or memory
that stays. -/
def FltHw.Moved (pins : FltPins) (ip : IpaIpType) (s : FltHw) : Prop :=
  s.pool.Settled pins ip fun k => (s.tbl k).entries ≠ []

theorem reapTbl_spec {pins : FltPins} {ip : IpaIpType} {s : FltHw} {k : FltTblKey}
    (hk : k.ip = ip) (hs : s.pool.Sound FltTblKey.ip pins) (hmoved : s.Moved pins ip) :
    Reaped pins s (s.reapTbl k) ∧ (s.reapTbl k).Moved pins ip := by
  -- a reader has the current buffer of a table, or memory that belongs to none
  have hprev := hmoved.prev_unpinned hs hk
  have hs' := hs.reapPrev hprev
  have hmoved' : ({ s with pool := s.pool.reapPrev k } : FltHw).Moved pins ip :=
    Settled.reapPrev hmoved k
  have hheap (g : IpaIpType) (a : UInt32) (ha : a ∈ pins g) :
      (s.pool.reapPrev k).heap a = s.pool.heap a :=
    heap_reapPrev fun hap => hprev a hap g ha
  unfold FltHw.reapTbl
  dsimp only
  split
  case isTrue hempty =>
    have hcurr := hmoved'.curr_unpinned hs' hk (not_not.mpr hempty)
    refine ⟨⟨hs'.reapCurr hcurr, fun g a ha => ?heap, fun k' a ha => ?holds⟩,
      Settled.reapCurr hmoved' (not_not.mpr hempty)⟩
    case heap => exact (heap_reapCurr fun hac => hcurr a hac g ha).trans (hheap g a ha)
    case holds => exact holds_reapPrev (holds_reapCurr ha)
  case isFalse hrules =>
    exact ⟨⟨hs', hheap, fun k' a ha => holds_reapPrev ha⟩, hmoved'⟩

theorem ipaReapSysFltTbls_spec {pins : FltPins} {ip : IpaIpType} {keys : List FltTblKey}
    (hkeys : ∀ k ∈ keys, k.ip = ip) {s : FltHw} (hs : s.pool.Sound FltTblKey.ip pins)
    (hmoved : s.Moved pins ip) : Reaped pins s (s.ipaReapSysFltTbls keys) := by
  induction keys generalizing s with
  | nil => exact ⟨hs, fun _ _ _ => rfl, fun _ _ h => h⟩
  | cons k keys ih =>
    obtain ⟨hfirst, hmoved⟩ := reapTbl_spec (hkeys k List.mem_cons_self) hs hmoved
    have hrest := ih (fun k' hk' => hkeys k' (List.mem_cons_of_mem k hk')) hfirst.sound hmoved
    exact ⟨hrest.sound, fun g a ha => (hrest.heap g a ha).trans (hfirst.heap g a ha),
      fun k' a ha => hfirst.holds k' a (hrest.holds k' a ha)⟩

/-- Whatever the readers use, the reaping is about memory alone. -/
theorem ipaReapSysFltTbls_frame (keys : List FltTblKey) (s : FltHw) :
    (s.ipaReapSysFltTbls keys).tbl = s.tbl ∧ (s.ipaReapSysFltTbls keys).sram = s.sram := by
  induction keys generalizing s with
  | nil => exact ⟨rfl, rfl⟩
  | cons k keys ih =>
    have hfirst : (s.reapTbl k).tbl = s.tbl ∧ (s.reapTbl k).sram = s.sram := by
      unfold FltHw.reapTbl
      dsimp only
      split
      · exact ⟨rfl, rfl⟩
      · exact ⟨rfl, rfl⟩
    obtain ⟨htbl, hsram⟩ := ih (s.reapTbl k)
    exact ⟨htbl.trans hfirst.1, hsram.trans hfirst.2⟩

end Reap

section Invariant

variable (cfg : FltHwCfg)

/-- What the hardware may use for a family: the empty table, and what the header words of
the driver name. -/
def FltHw.pins (s : FltHw) : FltPins := fun ip =>
  {a | a = cfg.emptyRtTblMem ∨ ∃ k, cfg.Owned k ∧ k.ip = ip ∧ a = s.sram (cfg.localAddr k)}

/-- Behind each header word of the driver stand the rules that were committed. -/
structure FltHw.Inv (committed : FltTblKey → List FltHwEntry) (s : FltHw) : Prop where
  sound : s.pool.Sound FltTblKey.ip (s.pins cfg)
  empty : s.pool.heap cfg.emptyRtTblMem = some (le32 0)
  spare : ∀ k, ¬ s.pool.Holds k cfg.emptyRtTblMem
  measured : ∀ k, (s.tbl k).Measured k.ip
  hw : ∀ k, cfg.Owned k →
    s.pool.heap (s.sram (cfg.localAddr k)) = some (tblImage k.ip (committed k))

/-- Allocated memory that no table and no reader has. -/
structure FltHw.Scratch (s : FltHw) (a : UInt32) : Prop where
  live : (s.pool.heap a).isSome
  held : ∀ k, ¬ s.pool.Holds k a
  pins : ∀ ip, a ∉ s.pins cfg ip

variable {cfg} {committed : FltTblKey → List FltHwEntry} {s : FltHw}

/-- The readers follow the header words of the driver, wherever else memory changes. -/
theorem FltHw.pins_congr {s s' : FltHw}
    (h : ∀ k, cfg.Owned k → s'.sram (cfg.localAddr k) = s.sram (cfg.localAddr k)) :
    s'.pins cfg = s.pins cfg := by
  ext ip a
  refine or_congr Iff.rfl (exists_congr fun k => and_congr_right fun hk => ?_)
  rw [h k hk]

theorem FltHw.pins_eq {s s' : FltHw} (h : s'.sram = s.sram) : s'.pins cfg = s.pins cfg :=
  FltHw.pins_congr fun k _ => congrFun h (cfg.localAddr k)

theorem FltHw.mem_pins {k : FltTblKey} (hk : cfg.Owned k) :
    s.sram (cfg.localAddr k) ∈ s.pins cfg k.ip := .inr ⟨k, hk, rfl, rfl⟩

theorem FltHw.empty_mem_pins (ip : IpaIpType) : cfg.emptyRtTblMem ∈ s.pins cfg ip := .inl rfl

namespace FltHw.Inv

theorem fresh (h : s.Inv cfg committed) {a : UInt32} (ha : s.pool.heap a = none)
    (bytes : List UInt8) : (s.put a bytes).Scratch cfg a where
  live := by simp only [FltHw.put, BufferPool.put, update_self, Option.isSome_some]
  held := h.sound.not_holds_of_fresh ha
  pins := h.sound.not_pinned_of_fresh ha

/-- Writing to memory that no reader has. -/
theorem put (h : s.Inv cfg committed) {a : UInt32} (ha : ∀ ip, a ∉ s.pins cfg ip)
    (bytes : List UInt8) : (s.put a bytes).Inv cfg committed := by
  have hheap (ip : IpaIpType) (x : UInt32) (hx : x ∈ s.pins cfg ip) :
      (s.put a bytes).pool.heap x = s.pool.heap x := by
    refine update_of_ne ?_ _ _
    rintro rfl
    exact ha ip hx
  exact ⟨h.sound.put a bytes, (hheap .v4 _ (empty_mem_pins .v4)).trans h.empty, h.spare, h.measured,
    fun k hk => (hheap k.ip _ (mem_pins hk)).trans (h.hw k hk)⟩

theorem dmaFree (h : s.Inv cfg committed) {a : UInt32} (hheld : ∀ k, ¬ s.pool.Holds k a)
    (hpins : ∀ ip, a ∉ s.pins cfg ip) : (s.dmaFree a).Inv cfg committed := by
  have hheap (ip : IpaIpType) (x : UInt32) (hx : x ∈ s.pins cfg ip) :
      (s.dmaFree a).pool.heap x = s.pool.heap x := by
    refine update_of_ne ?_ _ _
    rintro rfl
    exact hpins ip hx
  exact ⟨h.sound.free hheld hpins, (hheap .v4 _ (empty_mem_pins .v4)).trans h.empty, h.spare,
    h.measured, fun k hk => (hheap k.ip _ (mem_pins hk)).trans (h.hw k hk)⟩

/-- A first pass over the tables. -/
theorem size {ip : IpaIpType} {ks : List FltTblKey} {r : FltHw × Bool}
    (h : s.Inv cfg committed) (hr : SizePass ip ks s r) : r.1.Inv cfg committed := by
  have hpins : r.1.pins cfg = s.pins cfg := pins_eq hr.sram
  refine ⟨?sound, ?empty, ?spare, hr.measured, fun k hk => ?hw⟩
  case sound => rw [hr.pool, hpins]; exact h.sound
  case empty => rw [hr.pool]; exact h.empty
  case spare => rw [hr.pool]; exact h.spare
  case hw => rw [hr.pool, hr.sram]; exact h.hw k hk

/-- A second pass, wherever it ended. -/
theorem gen {ip : IpaIpType} {ks : List FltTblKey} {g : FltGen} {r : FltGen × Bool}
    (h : g.s.Inv cfg committed) (hr : GenPass ip (g.s.pins cfg) ks g r) :
    r.1.s.Inv cfg committed := by
  have hpins : r.1.s.pins cfg = g.s.pins cfg := pins_eq hr.sram
  have hheap (k : IpaIpType) (a : UInt32) (ha : a ∈ g.s.pins cfg k) :
      r.1.s.pool.heap a = g.s.pool.heap a := hr.heap a (h.sound.pinned k a ha)
  refine ⟨?sound, ?empty, ?spare, ?measured, fun k hk => ?hw⟩
  case sound => rw [hpins]; exact hr.sound
  case empty => exact (hheap .v4 _ (empty_mem_pins .v4)).trans h.empty
  case spare =>
    exact hr.spare _ (h.sound.pinned .v4 _ (empty_mem_pins .v4)) h.spare
  case measured => rw [hr.tbl]; exact h.measured
  case hw =>
    rw [hr.sram]
    exact (hheap k.ip _ (mem_pins hk)).trans (h.hw k hk)

end FltHw.Inv

namespace FltHw.Scratch

/-- Freeing it hurts nobody. -/
theorem free {a : UInt32} (h : s.Scratch cfg a) (hinv : s.Inv cfg committed) :
    (s.dmaFree a).Inv cfg committed := hinv.dmaFree h.held h.pins

theorem put {a : UInt32} (h : s.Scratch cfg a) (b : UInt32) (bytes : List UInt8) :
    (s.put b bytes).Scratch cfg a := by
  refine ⟨?live, h.held, h.pins⟩
  by_cases hab : a = b
  · simp only [FltHw.put, BufferPool.put, hab, update_self, Option.isSome_some]
  · simpa only [FltHw.put, BufferPool.put, update_of_ne hab] using h.live

theorem dmaFree {a b : UInt32} (h : s.Scratch cfg a) (hab : a ≠ b) :
    (s.dmaFree b).Scratch cfg a := by
  refine ⟨?live, h.held, h.pins⟩
  simpa only [FltHw.dmaFree, BufferPool.free, update_of_ne hab] using h.live

theorem size {a : UInt32} (h : s.Scratch cfg a) {ip : IpaIpType} {ks : List FltTblKey}
    {r : FltHw × Bool} (hr : SizePass ip ks s r) : r.1.Scratch cfg a := by
  refine ⟨?live, ?held, fun ip' => ?pins⟩
  case live => rw [hr.pool]; exact h.live
  case held => rw [hr.pool]; exact h.held
  case pins => rw [pins_eq hr.sram]; exact h.pins ip'

theorem gen {a : UInt32} {ip : IpaIpType} {ks : List FltTblKey} {g : FltGen} {r : FltGen × Bool}
    (h : g.s.Scratch cfg a) (hr : GenPass ip (g.s.pins cfg) ks g r) : r.1.s.Scratch cfg a := by
  refine ⟨?live, hr.spare a h.live h.held, fun ip' => ?pins⟩
  case live => rw [hr.heap a h.live]; exact h.live
  case pins => rw [pins_eq hr.sram]; exact h.pins ip'

end FltHw.Scratch

end Invariant

section Commit

variable {cfg : FltHwCfg} {committed : FltTblKey → List FltHwEntry} {s : FltHw}

/-- A family whose tables and header words are ready to be sent. -/
structure Generated (cfg : FltHwCfg) (ip : IpaIpType) (s s' : FltHw) (head1 head2 : UInt32)
    (heads : FltHeads) : Prop where
  sram : s'.sram = s.sram
  rules : ∀ k, (s.tbl k).SameRules (s'.tbl k)
  writable : ∀ k ∈ cfg.tblKeys ip, Writable ip (s.tbl k).entries
  scratch1 : s'.Scratch cfg head1
  scratch2 : s'.Scratch cfg head2
  ne : head1 ≠ head2
  wellFormed : heads.WellFormed
  mem1 : s'.pool.heap head1 = some (heads.head1.flatMap le32)
  mem2 : s'.pool.heap head2 = some (heads.head2.flatMap le32)
  word : ∀ k ∈ cfg.cmdKeys ip,
    ((s'.tbl k).entries = [] ∧ heads.get k = cfg.emptyRtTblMem) ∨
      ((s'.tbl k).entries ≠ [] ∧ (s'.pool.slot k).curr = some (heads.get k) ∧
        s'.pool.heap (heads.get k) = some (tblImage ip (s'.tbl k).entries))

/-- The header word of a table after a second pass that went through. -/
theorem GenPass.head {ip : IpaIpType} {pins : FltPins} {g : FltGen} {r : FltGen × Bool}
    (h : GenPass ip pins (cfg.tblKeys ip) g r) (hstart : g.heads = .start cfg)
    (htrue : r.2 = true) {k : FltTblKey} (hk : k ∈ cfg.cmdKeys ip) :
    ((r.1.s.tbl k).entries = [] ∧ r.1.heads.get k = cfg.emptyRtTblMem) ∨
      ((r.1.s.tbl k).entries ≠ [] ∧ (r.1.s.pool.slot k).curr = some (r.1.heads.get k) ∧
        r.1.s.pool.heap (r.1.heads.get k) = some (tblImage ip (r.1.s.tbl k).entries)) := by
  obtain ⟨hip, haddr, hmem⟩ := cfg.mem_cmdKeys hk
  rw [h.tbl]
  by_cases hempty : (g.s.tbl k).entries = []
  · refine .inl ⟨hempty, ?_⟩
    rw [h.word k haddr hip (.inr hempty), hstart]
    exact FltHeads.get_start cfg haddr
  · obtain ⟨a, hcurr, hheap, hget⟩ := h.staged htrue k hmem hempty
    refine .inr ⟨hempty, ?_⟩
    rw [hget haddr]
    exact ⟨hcurr, hheap⟩

/-- The second pass, with the two header buffers filled behind it. -/
theorem generate_tables {ip : IpaIpType} {g : FltGen} {head1 head2 : UInt32}
    (hinv : g.s.Inv cfg committed) (hstart : g.heads = .start cfg)
    (hready : ∀ k ∈ cfg.tblKeys ip, (g.s.tbl k).Ready ip) (hsram : g.s.sram = s.sram)
    (hrules : ∀ k, (s.tbl k).SameRules (g.s.tbl k))
    (hwritable : ∀ k ∈ cfg.tblKeys ip, Writable ip (s.tbl k).entries)
    (h1 : g.s.Scratch cfg head1) (h2 : g.s.Scratch cfg head2) (hne : head1 ≠ head2) :
    let r := ipaGenerateFltHwTblCommon ip (cfg.tblKeys ip) g
    let s' := (r.1.s.put head1 (r.1.heads.head1.flatMap le32)).put head2
      (r.1.heads.head2.flatMap le32)
    s'.Inv cfg committed ∧ s'.sram = s.sram ∧ (∀ k, (s.tbl k).SameRules (s'.tbl k)) ∧
      s'.Scratch cfg head1 ∧ s'.Scratch cfg head2 ∧
      (r.2 = true → Generated cfg ip s s' head1 head2 r.1.heads) := by
  intro r s'
  have hr : GenPass ip (g.s.pins cfg) (cfg.tblKeys ip) g r :=
    ipaGenerateFltHwTblCommon_spec (fun k hk => cfg.mem_tblKeys hk) (cfg.nodup_tblKeys ip)
      hinv.sound (hstart ▸ FltHeads.wellFormed_start cfg) hready
  have h1' : r.1.s.Scratch cfg head1 := h1.gen hr
  have h2' : r.1.s.Scratch cfg head2 := h2.gen hr
  have hrules' (k : FltTblKey) : (s.tbl k).SameRules (s'.tbl k) := by
    have htbl : s'.tbl k = g.s.tbl k := congrFun hr.tbl k
    rw [htbl]
    exact hrules k
  have hscratch1 : s'.Scratch cfg head1 := (h1'.put _ _).put _ _
  have hscratch2 : s'.Scratch cfg head2 := (h2'.put _ _).put _ _
  refine ⟨((hinv.gen hr).put h1'.pins _).put (h2'.put head1 _).pins _, hr.sram.trans hsram,
    hrules', hscratch1, hscratch2, fun htrue => ⟨hr.sram.trans hsram, hrules', hwritable,
      hscratch1, hscratch2, hne, hr.heads, ?mem1, ?mem2, fun k hk => ?word⟩⟩
  case mem1 => simp only [s', FltHw.put, BufferPool.put, update_of_ne hne, update_self]
  case mem2 => simp only [s', FltHw.put, BufferPool.put, update_self]
  case word =>
    rcases hr.head hstart htrue hk with hempty | ⟨hentries, hcurr, hheap⟩
    · exact .inl hempty
    · refine .inr ⟨hentries, hcurr, ?_⟩
      -- the header buffers are of no table, so filling them leaves the tables alone
      have hne1 : r.1.heads.get k ≠ head1 := fun heq => h1'.held k (.inl (heq ▸ hcurr))
      have hne2 : r.1.heads.get k ≠ head2 := fun heq => h2'.held k (.inl (heq ▸ hcurr))
      simpa only [s', FltHw.put, BufferPool.put, update_of_ne hne2, update_of_ne hne1] using hheap

/-- The generation of a family fails and leaves the hardware's memory alone, or is ready
to be sent. -/
theorem ipaGenerateFltHwTblV2_spec (ip : IpaIpType) (allocs : List (Option UInt32))
    (h : s.Inv cfg committed) :
    let r := s.ipaGenerateFltHwTblV2 cfg ip allocs
    r.1.Inv cfg committed ∧ r.1.sram = s.sram ∧ (∀ k, (s.tbl k).SameRules (r.1.tbl k)) ∧
      ∀ head1 head2, r.2 = some (head1, head2) →
        ∃ heads, Generated cfg ip s r.1 head1 head2 heads := by
  have hnone (s' : FltHw) (head1 head2 : UInt32) :
      (s', (none : Option (UInt32 × UInt32))).2 = some (head1, head2) →
        ∃ heads, Generated cfg ip s s' head1 head2 heads := fun hfalse => by cases hfalse
  intro r
  unfold r FltHw.ipaGenerateFltHwTblV2
  -- each failure gives back the header buffers that were there already
  cases halloc1 : s.dmaAlloc (allocs.headD none) with
  | none => exact ⟨h, rfl, fun _ => rfl, hnone s⟩
  | some head1 =>
    have hfresh1 := FltHw.dmaAlloc_eq_some halloc1
    have hinv1 := h.put (h.sound.not_pinned_of_fresh hfresh1)
      ((FltHeads.start cfg).head1.flatMap le32)
    have hscratch1 := h.fresh hfresh1 ((FltHeads.start cfg).head1.flatMap le32)
    dsimp only
    cases halloc2 : (s.put head1 ((FltHeads.start cfg).head1.flatMap le32)).dmaAlloc
        (allocs.tail.headD none) with
    | none => exact ⟨hscratch1.free hinv1, rfl, fun _ => rfl, hnone _⟩
    | some head2 =>
      have hfresh2 := FltHw.dmaAlloc_eq_some halloc2
      have hne : head1 ≠ head2 := by
        rintro rfl
        have hlive := hscratch1.live
        rw [hfresh2] at hlive
        cases hlive
      have hinv2 := hinv1.put (hinv1.sound.not_pinned_of_fresh hfresh2)
        ((FltHeads.start cfg).head2.flatMap le32)
      have hscratch2 := hinv1.fresh hfresh2 ((FltHeads.start cfg).head2.flatMap le32)
      have hscratch1 := hscratch1.put head2 ((FltHeads.start cfg).head2.flatMap le32)
      dsimp only
      have hsize := ipaGetFltHwTblSize_spec (fun k hk => cfg.mem_tblKeys hk)
        (cfg.nodup_tblKeys ip) hinv2.measured
      have hinv3 := hinv2.size hsize
      have hscratch1 := hscratch1.size hsize
      have hscratch2 := hscratch2.size hsize
      split
      case isFalse hfail =>
        exact ⟨(hscratch1.dmaFree hne).free (hscratch2.free hinv3), hsize.sram, hsize.rules,
          hnone _⟩
      case isTrue hsized =>
        have hwritable : ∀ k ∈ cfg.tblKeys ip, Writable ip (s.tbl k).entries :=
          hsize.ok.mp hsized
        obtain ⟨hinv, hsram, hrules, hs1, hs2, hgenerated⟩ :=
          generate_tables (g := ⟨_, .start cfg, allocs.tail.tail⟩) (s := s) hinv3 rfl
            (hsize.ready hsized) hsize.sram hsize.rules hwritable hscratch1 hscratch2 hne
        split
        case isTrue hgen =>
          refine ⟨hinv, hsram, hrules, fun h1 h2 heq => ?_⟩
          obtain ⟨rfl, rfl⟩ := Prod.mk.inj (Option.some.inj heq)
          exact ⟨_, hgenerated hgen⟩
        case isFalse =>
          exact ⟨(hs1.dmaFree hne).free (hs2.free hinv), hsram, hrules, hnone _⟩

section Send

variable {ip : IpaIpType} {s' : FltHw} {head1 head2 : UInt32} {heads : FltHeads}

/-- The state after the transfer. -/
def FltHw.sent (cfg : FltHwCfg) (ip : IpaIpType) (head1 head2 : UInt32) (s : FltHw) : FltHw :=
  ((cfg.cmdKeys ip).map (dmaCmd cfg head1 head2)).foldl FltHw.dmaSharedMem s

theorem FltHw.sent_frame (cfg : FltHwCfg) (ip : IpaIpType) (head1 head2 : UInt32) (s : FltHw) :
    (s.sent cfg ip head1 head2).pool = s.pool ∧ (s.sent cfg ip head1 head2).tbl = s.tbl ∧
      ∀ x ∉ (cfg.cmdKeys ip).map cfg.localAddr,
        (s.sent cfg ip head1 head2).sram x = s.sram x := by
  have hframe := FltHw.foldl_dmaSharedMem ((cfg.cmdKeys ip).map (dmaCmd cfg head1 head2)) s
  rw [FltHw.map_localAddr_dmaCmd] at hframe
  exact hframe

theorem Generated.sent_sram (hg : Generated cfg ip s s' head1 head2 heads) (hip : ip ≠ .max)
    {k : FltTblKey} (hk : cfg.Owned k) : (s'.sent cfg ip head1 head2).sram (cfg.localAddr k) =
      if k.ip = ip then heads.get k else s'.sram (cfg.localAddr k) := by
  rw [FltHw.sent, FltHw.sram_send hip hg.wellFormed hg.mem1 hg.mem2 (.refl _) hk]
  simp only [hk.mem_cmdKeys_iff ip]

/-- The readers of the family use what was staged, or the empty table. -/
theorem Generated.sent_pins_self (hg : Generated cfg ip s s' head1 head2 heads) (hip : ip ≠ .max)
    {a : UInt32} (ha : a ∈ (s'.sent cfg ip head1 head2).pins cfg ip) : a = cfg.emptyRtTblMem ∨
      ∃ k, k.ip = ip ∧ (s'.tbl k).entries ≠ [] ∧ (s'.pool.slot k).curr = some a := by
  rcases ha with hempty | ⟨k, hk, hkip, rfl⟩
  · exact .inl hempty
  · rw [hg.sent_sram hip hk, if_pos hkip]
    rcases hg.word k (hkip ▸ hk.2) with ⟨-, hword⟩ | ⟨hentries, hcurr, -⟩
    · exact .inl hword
    · exact .inr ⟨k, hkip, hentries, hcurr⟩

theorem Generated.sent_pins (hg : Generated cfg ip s s' head1 head2 heads) (hip : ip ≠ .max) :
    (s'.sent cfg ip head1 head2).pins cfg =
      update (s'.pins cfg) ip ((s'.sent cfg ip head1 head2).pins cfg ip) := by
  funext g
  by_cases hg' : g = ip
  · rw [hg', update_self]
  · rw [update_of_ne hg']
    ext a
    refine or_congr Iff.rfl (exists_congr fun k => and_congr_right fun hk =>
      and_congr_right fun hkip => ?_)
    rw [hg.sent_sram hip hk, if_neg (hkip.trans_ne hg')]

theorem Generated.sent_sound (hg : Generated cfg ip s s' head1 head2 heads) (hip : ip ≠ .max)
    (h : s'.Inv cfg committed) : (s'.sent cfg ip head1 head2).pool.Sound FltTblKey.ip
      ((s'.sent cfg ip head1 head2).pins cfg) := by
  have hpool := (FltHw.sent_frame cfg ip head1 head2 s').1
  rw [hpool, hg.sent_pins hip]
  refine h.sound.publish fun a ha => ?_
  rcases hg.sent_pins_self hip ha with rfl | ⟨k, hk, -, hcurr⟩
  · exact .inr ⟨by rw [h.empty, Option.isSome_some], h.spare⟩
  · exact .inl ⟨k, hk, hcurr⟩

theorem Generated.sent_moved (hg : Generated cfg ip s s' head1 head2 heads) (hip : ip ≠ .max)
    (h : s'.Inv cfg committed) : (s'.sent cfg ip head1 head2).Moved
      ((s'.sent cfg ip head1 head2).pins cfg) ip := by
  obtain ⟨hpool, htbl, -⟩ := FltHw.sent_frame cfg ip head1 head2 s'
  intro a ha
  change (∃ k, ((s'.sent cfg ip head1 head2).tbl k).entries ≠ [] ∧
    ((s'.sent cfg ip head1 head2).pool.slot k).curr = some a) ∨
      ∀ k, ¬ (s'.sent cfg ip head1 head2).pool.Holds k a
  rw [hpool, htbl]
  rcases hg.sent_pins_self hip ha with rfl | ⟨k, -, hentries, hcurr⟩
  · exact .inr h.spare
  · exact .inl ⟨k, hentries, hcurr⟩

/-- A header buffer is nobody's after the transfer either. -/
theorem Generated.sent_unpinned (hg : Generated cfg ip s s' head1 head2 heads) (hip : ip ≠ .max)
    {a : UInt32} (ha : s'.Scratch cfg a) (g : IpaIpType) :
    a ∉ (s'.sent cfg ip head1 head2).pins cfg g := by
  intro hpin
  rw [hg.sent_pins hip] at hpin
  by_cases hg' : g = ip
  · rw [hg', update_self] at hpin
    rcases hg.sent_pins_self hip hpin with rfl | ⟨k, -, -, hcurr⟩
    · exact ha.pins ip (FltHw.empty_mem_pins ip)
    · exact ha.held k (.inl hcurr)
  · rw [update_of_ne hg'] at hpin
    exact ha.pins g hpin

/-- Wherever the transfer has got to, behind a header word stand the new rules of its table
if the word has been written, and the old ones if not. -/
theorem Generated.heap_sending (hg : Generated cfg ip s s' head1 head2 heads) (hip : ip ≠ .max)
    (h : s'.Inv cfg committed) {ks : List FltTblKey} (hks : ks.Sublist (cfg.cmdKeys ip))
    {k : FltTblKey} (hk : cfg.Owned k) :
    s'.pool.heap (((ks.map (dmaCmd cfg head1 head2)).foldl FltHw.dmaSharedMem s').sram
      (cfg.localAddr k)) =
        some (tblImage k.ip (if k ∈ ks then (s.tbl k).entries else committed k)) := by
  rw [FltHw.sram_send hip hg.wellFormed hg.mem1 hg.mem2 hks hk]
  by_cases hmem : k ∈ ks
  · have hkip := (hk.mem_cmdKeys_iff ip).mp (hks.subset hmem)
    rw [if_pos hmem, if_pos hmem, hkip, ← tblImage_unsized ip (hg.rules k)]
    rcases hg.word k (hks.subset hmem) with ⟨hentries, hword⟩ | ⟨-, -, hheap⟩
    -- no rules: the empty table of the driver
    · rw [hword, hentries, h.empty]
      rfl
    · exact hheap
  · rw [if_neg hmem, if_neg hmem]
    exact h.hw k hk

/-- Behind each header word stand now the rules of the family, and the old rules of the
other one. -/
theorem Generated.sent_hw (hg : Generated cfg ip s s' head1 head2 heads) (hip : ip ≠ .max)
    (h : s'.Inv cfg committed) {k : FltTblKey} (hk : cfg.Owned k) :
    s'.pool.heap ((s'.sent cfg ip head1 head2).sram (cfg.localAddr k)) =
      some (tblImage k.ip (if k.ip = ip then (s.tbl k).entries else committed k)) := by
  rw [FltHw.sent, hg.heap_sending hip h (.refl _) hk]
  simp only [hk.mem_cmdKeys_iff ip]

/-- The transfer, the reaping and the freeing of the header buffers. -/
theorem Generated.commit (hg : Generated cfg ip s s' head1 head2 heads) (hip : ip ≠ .max)
    (h : s'.Inv cfg committed) :
    ((((s'.sent cfg ip head1 head2).ipaReapSysFltTbls (cfg.tblKeys ip)).dmaFree head1).dmaFree
      head2).Inv cfg fun k => if k.ip = ip then (s.tbl k).entries else committed k := by
  obtain ⟨hpool, htbl, -⟩ := FltHw.sent_frame cfg ip head1 head2 s'
  obtain ⟨hreapTbl, hreapSram⟩ := ipaReapSysFltTbls_frame (cfg.tblKeys ip)
    (s'.sent cfg ip head1 head2)
  have hreap := ipaReapSysFltTbls_spec (fun k hk => cfg.mem_tblKeys hk)
    (hg.sent_sound hip h) (hg.sent_moved hip h)
  have hpins : ((s'.sent cfg ip head1 head2).ipaReapSysFltTbls (cfg.tblKeys ip)).pins cfg =
      (s'.sent cfg ip head1 head2).pins cfg := FltHw.pins_eq hreapSram
  have hheld {a : UInt32} (ha : ∀ k, ¬ s'.pool.Holds k a) (k : FltTblKey) :
      ¬ ((s'.sent cfg ip head1 head2).ipaReapSysFltTbls (cfg.tblKeys ip)).pool.Holds k a := by
    intro hk
    have hk' := hreap.holds k a hk
    rw [hpool] at hk'
    exact ha k hk'
  have hinv : ((s'.sent cfg ip head1 head2).ipaReapSysFltTbls (cfg.tblKeys ip)).Inv cfg
      fun k => if k.ip = ip then (s.tbl k).entries else committed k := by
    refine ⟨?sound, ?empty, hheld h.spare, fun k => ?measured, fun k hk => ?hw⟩
    case sound => rw [hpins]; exact hreap.sound
    case empty =>
      rw [hreap.heap .v4 _ (FltHw.empty_mem_pins .v4), hpool]
      exact h.empty
    case measured =>
      rw [hreapTbl, htbl]
      exact h.measured k
    case hw =>
      rw [hreapSram, hreap.heap k.ip _ (FltHw.mem_pins hk), hpool]
      exact hg.sent_hw hip h hk
  -- the header buffers are read by nobody once the words have been copied
  have hfree1 := hinv.dmaFree (hheld hg.scratch1.held) fun g => by
    rw [hpins]
    exact hg.sent_unpinned hip hg.scratch1 g
  exact hfree1.dmaFree (hheld hg.scratch2.held) fun g hpin => by
    have hpin' : head2 ∈ (s'.sent cfg ip head1 head2).pins cfg g := by
      rw [← hpins]
      exact hpin
    exact hg.sent_unpinned hip hg.scratch2 g hpin'

end Send

/-- The rules of a family after a commit of it that went through. -/
def commitRules (ip : IpaIpType) (s : FltHw) (committed : FltTblKey → List FltHwEntry) :
    FltTblKey → List FltHwEntry := fun k => if k.ip = ip then (s.tbl k).entries else committed k

/-- The four ways in which a commit ends: without memory for its commands, without tables,
with the transfer, and without it. -/
theorem ipaCommitFltV2_cases (cfg : FltHwCfg) (ip : IpaIpType) (o : CommitOutcome) (s : FltHw) :
    let r := s.ipaCommitFltV2 cfg ip o
    let gen := s.ipaGenerateFltHwTblV2 cfg ip o.allocs
    r = (s, eNoMem) ∨ gen.2 = none ∧ r = (gen.1, eFault) ∨
      ∃ head1 head2, gen.2 = some (head1, head2) ∧
        (r = ((((gen.1.sent cfg ip head1 head2).ipaReapSysFltTbls (cfg.tblKeys ip)).dmaFree
            head1).dmaFree head2, 0) ∨
          r = ((gen.1.dmaFree head1).dmaFree head2, eFault)) := by
  intro r gen
  unfold r FltHw.ipaCommitFltV2
  split
  case isTrue => exact .inl rfl
  case isFalse =>
    dsimp only
    split
    case h_1 hgen => exact .inr (.inl ⟨hgen, rfl⟩)
    case h_2 head1 head2 hgen =>
      refine .inr (.inr ⟨head1, head2, hgen, ?_⟩)
      split
      · exact .inl rfl
      · exact .inr rfl

/-- A commit either returns zero, and the hardware has the rules of the family, or it fails,
and the hardware has what it had. -/
theorem ipaCommitFltV2_spec {ip : IpaIpType} (hip : ip ≠ .max) (o : CommitOutcome)
    (h : s.Inv cfg committed) :
    let r := s.ipaCommitFltV2 cfg ip o
    (r.2 = 0 ∧ (∀ k ∈ cfg.tblKeys ip, Writable ip (s.tbl k).entries) ∧
        r.1.Inv cfg (commitRules ip s committed)) ∨
      (r.2 ≠ 0 ∧ r.1.sram = s.sram ∧ r.1.Inv cfg committed) := by
  obtain ⟨hinv, hsram, -, hgenerated⟩ := ipaGenerateFltHwTblV2_spec ip o.allocs h
  have hfault : eFault ≠ 0 := by decide
  intro r
  rcases ipaCommitFltV2_cases cfg ip o s with hr | ⟨-, hr⟩ | ⟨head1, head2, hgen, hr | hr⟩ <;>
    simp only [r, hr]
  · exact .inr ⟨by decide, trivial, h⟩
  · exact .inr ⟨hfault, hsram, hinv⟩
  · obtain ⟨heads, hg⟩ := hgenerated head1 head2 hgen
    exact .inl ⟨trivial, hg.writable, hg.commit hip hinv⟩
  · obtain ⟨heads, hg⟩ := hgenerated head1 head2 hgen
    exact .inr ⟨hfault, hsram, (hg.scratch2.dmaFree hg.ne.symm).free (hg.scratch1.free hinv)⟩

/-- A commit writes no word but those of its commands, and changes nothing of the rules but
what is known of their lengths. -/
theorem ipaCommitFltV2_frame (ip : IpaIpType) (o : CommitOutcome) (h : s.Inv cfg committed) :
    let r := s.ipaCommitFltV2 cfg ip o
    (∀ x ∉ (cfg.cmdKeys ip).map cfg.localAddr, r.1.sram x = s.sram x) ∧
      ∀ k, (s.tbl k).SameRules (r.1.tbl k) := by
  obtain ⟨-, hsram, hrules, -⟩ := ipaGenerateFltHwTblV2_spec ip o.allocs h
  intro r
  rcases ipaCommitFltV2_cases cfg ip o s with hr | ⟨-, hr⟩ | ⟨head1, head2, -, hr | hr⟩ <;>
    simp only [r, hr]
  · exact ⟨fun _ _ => trivial, fun _ => rfl⟩
  · exact ⟨fun x _ => congrFun hsram x, hrules⟩
  · obtain ⟨-, htbl, hsend⟩ := FltHw.sent_frame cfg ip head1 head2
      (s.ipaGenerateFltHwTblV2 cfg ip o.allocs).1
    obtain ⟨hreapTbl, hreapSram⟩ := ipaReapSysFltTbls_frame (cfg.tblKeys ip)
      ((s.ipaGenerateFltHwTblV2 cfg ip o.allocs).1.sent cfg ip head1 head2)
    refine ⟨fun x hx => ?sram, fun k => ?rules⟩
    case sram =>
      calc _ = ((s.ipaGenerateFltHwTblV2 cfg ip o.allocs).1.sent cfg ip head1 head2).sram x :=
            congrFun hreapSram x
        _ = (s.ipaGenerateFltHwTblV2 cfg ip o.allocs).1.sram x := hsend x hx
        _ = s.sram x := congrFun hsram x
    case rules =>
      exact (congrArg (s.tbl k).SameRules (congrFun (hreapTbl.trans htbl) k)).mpr (hrules k)
  · exact ⟨fun x _ => congrFun hsram x, hrules⟩

end Commit

section Runs

def FltHw.edit (s : FltHw) (k : FltTblKey) (es : List FltHwEntry) : FltHw :=
  { s with tbl := update s.tbl k { s.tbl k with entries := es } }

/-- A word of shared memory is written by somebody else. -/
def FltHw.smemWrite (s : FltHw) (x : ℕ) (v : UInt32) : FltHw :=
  { s with sram := update s.sram x v }

/-- The driver and the hardware, with the rules that were committed last. -/
structure FltWorld where
  hw : FltHw
  committed : FltTblKey → List FltHwEntry

namespace FltWorld

/-- After `ipa_init_flt4` and `ipa_init_flt6`: no rules, and every header word names the
empty table. Outside of the headers shared memory is as it was. -/
def init (cfg : FltHwCfg) (sram : ℕ → UInt32) : FltWorld where
  hw :=
    { tbl := fun _ => {}
      pool :=
        { slot := fun _ => {}
          heap := update (fun _ => none) cfg.emptyRtTblMem (some (le32 0)) }
      sram := ipaInitFltV2 cfg .v6 (ipaInitFltV2 cfg .v4 sram) }
  committed := fun _ => []

variable (cfg : FltHwCfg)

/-- `ipa2_commit_flt`. -/
def commit (w : FltWorld) (ip : IpaIpType) (o : CommitOutcome) : FltWorld :=
  let r := w.hw.ipa2CommitFlt cfg ip o
  { hw := r.1, committed := if r.2 = 0 then commitRules ip w.hw w.committed else w.committed }

/-- Rules are added, deleted and changed in any way; an entry that is new or has been
changed has no length yet. -/
inductive Step : FltWorld → FltWorld → Prop
  | edit (w : FltWorld) (k : FltTblKey) (es : List FltHwEntry)
      (h : ∀ entry ∈ es, entry ∈ (w.hw.tbl k).entries ∨ entry.hwLen = 0) :
      Step w { w with hw := w.hw.edit k es }
  | commit (w : FltWorld) (ip : IpaIpType) (o : CommitOutcome) : Step w (w.commit cfg ip o)

/-- Beside the steps of the driver, the modem writes the header words of its pipes, and
whoever has it the rest of shared memory. -/
inductive Reachable : FltWorld → Prop
  | init (sram : ℕ → UInt32) : Reachable (init cfg sram)
  | step {w w' : FltWorld} (h : Reachable w) (hstep : Step cfg w w') : Reachable w'
  | foreign {w : FltWorld} (h : Reachable w) {x : ℕ} (hx : cfg.Foreign x) (v : UInt32) :
      Reachable { w with hw := w.hw.smemWrite x v }

variable {cfg}

theorem sram_init (sram : ℕ → UInt32) {k : FltTblKey} (hk : cfg.Owned k) :
    (init cfg sram).hw.sram (cfg.localAddr k) = cfg.emptyRtTblMem := by
  obtain ⟨-, haddr, hmem⟩ := cfg.mem_cmdKeys hk.2
  obtain ⟨hplace, hlt⟩ := cfg.localAddr_eq haddr
  obtain ⟨i, hidx, hi⟩ : ∃ i, FltHwCfg.wordIdx k = i + 1 ∧ i ≤ cfg.ipaNumPipes := by
    cases k with
    | glob ip => exact ⟨0, rfl, Nat.zero_le _⟩
    | ep idx ip =>
      have hlt := (cfg.mem_tblKeys_ep.mp hmem)
      exact ⟨idx+1, rfl, hlt⟩
  rw [hplace, hidx]
  -- the v6 headers are written last, and leave those of v4 alone
  cases hip : k.ip with
  | v6 => exact ipaInitFltV2_hdrWord cfg .v6 _ hi
  | v4 =>
    have hother := ipaInitFltV2_other cfg (by decide : IpaIpType.v6 ≠ .max)
      (by decide : IpaIpType.v4 ≠ .max) (by decide) (ipaInitFltV2 cfg .v4 sram) (hidx ▸ hlt)
    exact hother.trans (ipaInitFltV2_hdrWord cfg .v4 sram hi)
  | max => exact absurd hip hk.1

theorem inv_init (sram : ℕ → UInt32) :
    (init cfg sram).hw.Inv cfg (init cfg sram).committed := by
  have hempty : (init cfg sram).hw.pool.heap cfg.emptyRtTblMem = some (le32 0) := by
    simp only [init, update_self]
  have hheld (k : FltTblKey) (a : UInt32) : ¬ (init cfg sram).hw.pool.Holds k a :=
    fun h => h.elim (fun hc => by cases hc) fun hp => by cases hp
  have hpin (ip : IpaIpType) (a : UInt32) (ha : a ∈ (init cfg sram).hw.pins cfg ip) :
      a = cfg.emptyRtTblMem :=
    ha.elim id fun ⟨_, hk, _, heq⟩ => heq.trans (sram_init sram hk)
  refine ⟨⟨fun k a ha => absurd ha (hheld k a), fun k _ a ha => absurd ha (hheld k a),
    fun k a ha => absurd (.inl ha) (hheld k a), fun ip a ha => ?pinned,
    fun _ a _ k hk => absurd hk (hheld k a)⟩, hempty, fun k => hheld k _,
    fun _ entry hentry => absurd hentry List.not_mem_nil, fun k hk => ?hw⟩
  case pinned => rw [hpin ip a ha, hempty, Option.isSome_some]
  case hw =>
    rw [sram_init sram hk]
    exact hempty

/-- All that a commit can do: it returns zero and all rules of the family are committed, or
it fails and the hardware has what it had. -/
theorem commit_spec {w : FltWorld} (h : w.hw.Inv cfg w.committed) (ip : IpaIpType)
    (o : CommitOutcome) :
    ((w.hw.ipa2CommitFlt cfg ip o).2 = 0 ∧
        (∀ k ∈ cfg.tblKeys ip, Writable ip (w.hw.tbl k).entries) ∧
        (w.commit cfg ip o).committed = commitRules ip w.hw w.committed ∧
        (w.commit cfg ip o).hw.Inv cfg (commitRules ip w.hw w.committed)) ∨
      ((w.hw.ipa2CommitFlt cfg ip o).2 ≠ 0 ∧ (w.commit cfg ip o).committed = w.committed ∧
        (w.commit cfg ip o).hw.sram = w.hw.sram ∧
        (w.commit cfg ip o).hw.Inv cfg w.committed) := by
  unfold FltWorld.commit FltHw.ipa2CommitFlt
  by_cases hip : ip = .max
  · simp only [if_pos hip]
    exact .inr ⟨by decide, rfl, trivial, h⟩
  · simp only [if_neg hip]
    rcases ipaCommitFltV2_spec hip o h with ⟨hrc, hwritable, hinv⟩ | ⟨hrc, hsram, hinv⟩
    · simp only [if_pos hrc]
      exact .inl ⟨trivial, hwritable, rfl, hinv⟩
    · simp only [if_neg hrc]
      exact .inr ⟨by decide, rfl, hsram, hinv⟩

theorem Step.inv {w w' : FltWorld} (hstep : Step cfg w w') (h : w.hw.Inv cfg w.committed) :
    w'.hw.Inv cfg w'.committed := by
  cases hstep with
  -- the hardware does not see a change of the rules
  | edit k es hes =>
    refine ⟨h.sound, h.empty, h.spare, fun k' => ?_, h.hw⟩
    by_cases hk : k' = k
    · subst hk
      intro entry hentry
      simp only [FltHw.edit, update_self] at hentry
      exact (hes entry hentry).elim (h.measured k' entry) .inl
    · simpa only [FltHw.edit, update_of_ne hk] using h.measured k'
  | commit ip o =>
    rcases commit_spec h ip o with ⟨-, -, hcommitted, hinv⟩ | ⟨-, hcommitted, -, hinv⟩
    · rw [hcommitted]
      exact hinv
    · rw [hcommitted]
      exact hinv

theorem inv_smemWrite {w : FltWorld} (h : w.hw.Inv cfg w.committed) {x : ℕ}
    (hx : cfg.Foreign x) (v : UInt32) : (w.hw.smemWrite x v).Inv cfg w.committed := by
  have hkeep (k : FltTblKey) (hk : cfg.Owned k) :
      (w.hw.smemWrite x v).sram (cfg.localAddr k) = w.hw.sram (cfg.localAddr k) :=
    update_of_ne (hx k hk) _ _
  refine ⟨?sound, h.empty, h.spare, h.measured, fun k hk => ?hw⟩
  case sound =>
    rw [FltHw.pins_congr hkeep]
    exact h.sound
  case hw =>
    rw [hkeep k hk]
    exact h.hw k hk

theorem Reachable.inv {w : FltWorld} (h : Reachable cfg w) : w.hw.Inv cfg w.committed := by
  induction h with
  | init sram => exact inv_init sram
  | step _ hstep ih => exact hstep.inv ih
  | foreign _ hx v ih => exact inv_smemWrite ih hx v

/-- The rules that were committed are rules that can be written. -/
theorem Step.written {w w' : FltWorld} (hstep : Step cfg w w') (h : w.hw.Inv cfg w.committed)
    (hwritten : ∀ k, cfg.Owned k → Writable k.ip (w.committed k)) :
    ∀ k, cfg.Owned k → Writable k.ip (w'.committed k) := by
  cases hstep with
  | edit k es hes => exact hwritten
  | commit ip o =>
    rcases commit_spec h ip o with ⟨-, hwritable, hcommitted, -⟩ | ⟨-, hcommitted, -, -⟩
    · rw [hcommitted]
      intro k hk
      unfold commitRules
      split
      case isTrue hkip => exact hkip ▸ hwritable k (hkip ▸ (cfg.mem_cmdKeys hk.2).2.2)
      case isFalse => exact hwritten k hk
    · rw [hcommitted]
      exact hwritten

theorem Reachable.written {w : FltWorld} (h : Reachable cfg w) :
    ∀ k, cfg.Owned k → Writable k.ip (w.committed k) := by
  induction h with
  | init sram => exact fun _ _ entry hentry => absurd hentry List.not_mem_nil
  | step hreach hstep ih => exact hstep.written hreach.inv ih
  | foreign _ _ _ ih => exact ih

/-- A step of the driver leaves what is not its own. -/
theorem Step.foreign {w w' : FltWorld} (hstep : Step cfg w w') (h : w.hw.Inv cfg w.committed)
    {x : ℕ} (hx : cfg.Foreign x) : w'.hw.sram x = w.hw.sram x := by
  cases hstep with
  | edit k es hes => rfl
  | commit ip o =>
    unfold FltWorld.commit FltHw.ipa2CommitFlt
    by_cases hip : ip = .max
    · rw [if_pos hip]
    · rw [if_neg hip]
      refine (ipaCommitFltV2_frame ip o h).1 x fun hmem => ?_
      obtain ⟨k, hk, heq⟩ := List.mem_map.mp hmem
      have hkip := (cfg.mem_cmdKeys hk).1
      exact hx k ⟨hkip ▸ hip, hkip ▸ hk⟩ heq

theorem Reachable.steps {w w' : FltWorld} (h : Reachable cfg w)
    (hrun : Relation.ReflTransGen (Step cfg) w w') : Reachable cfg w' := by
  induction hrun with
  | refl => exact h
  | tail _ hstep ih => exact ih.step hstep

theorem Reachable.keeps_foreign {w w' : FltWorld} (h : Reachable cfg w)
    (hrun : Relation.ReflTransGen (Step cfg) w w') {x : ℕ} (hx : cfg.Foreign x) :
    w'.hw.sram x = w.hw.sram x := by
  induction hrun with
  | refl => rfl
  -- each step starts in a reachable state, so the invariant is at hand
  | tail hinit hstep ih => exact (hstep.foreign (h.steps hinit).inv hx).trans ih

end FltWorld

end Runs

end X00TDCellular
