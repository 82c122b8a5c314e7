import X00TDCellular.FltCommitProgress
import Mathlib.Data.List.TakeWhile

/-! What the hardware can rely on while rules come and go: the memory that it reads, the
rules that it makes of it, and the commits that must fail. -/

namespace X00TDCellular

namespace FltHwEntry

/-- The header and the equation of a rule. -/
def hwRule (ip : IpaIpType) (entry : FltHwEntry) : FltRuleHwHdr × IpfltriRuleEq :=
  let eq := (entry.equation ip).getD {}
  (entry.hdr eq.ruleEqBitmap, eq)

/-- The rule can be written, and read again. -/
def Readable (ip : IpaIpType) (entry : FltHwEntry) : Prop :=
  (entry.equation ip).isSome ∧ entry.InOrder ip

/-- Its header would be taken for the word that ends the table. -/
def Blank (ip : IpaIpType) (entry : FltHwEntry) : Prop := (entry.hwRule ip).1.word = 0

instance (ip : IpaIpType) (entry : FltHwEntry) : Decidable (entry.Blank ip) :=
  inferInstanceAs (Decidable (_ = _))

variable {ip : IpaIpType} {entry : FltHwEntry}

theorem Readable.of_image (himage : (entry.image ip).isSome) (horder : entry.InOrder ip) :
    entry.Readable ip := by
  rw [image, Option.isSome_map] at himage
  exact ⟨himage, horder⟩

/-- A rule in memory is its header and its equation in the format of the hardware. -/
theorem Readable.write_hwRule (h : entry.Readable ip) :
    fltRuleFormat.Ok (entry.hwRule ip) ∧
      fltRuleFormat.write (entry.hwRule ip) = entry.bytes ip := by
  obtain ⟨eq, heq⟩ := Option.isSome_iff_exists.mp h.1
  obtain ⟨hwf, hbody⟩ := entry.wellFormed_of_inOrder ip heq h.2
  have hrule : entry.hwRule ip = (entry.hdr eq.ruleEqBitmap, eq) := by
    rw [hwRule, heq, Option.getD_some]
  have himage : entry.bytes ip = le32 (entry.hdr eq.ruleEqBitmap).word ++ entry.body ip eq := by
    rw [bytes, image, heq, Option.map_some, Option.getD_some]
  rw [hrule, himage, hbody]
  exact ⟨⟨⟨trivial, FltRuleHwHdr.ofWord_word _⟩, hwf.ok⟩, rfl⟩

theorem bytes_eq (h : entry.Readable ip) : ∃ body,
    entry.bytes ip = le32 (entry.hwRule ip).1.word ++ body := by
  obtain ⟨eq, heq⟩ := Option.isSome_iff_exists.mp h.1
  refine ⟨entry.body ip eq, ?_⟩
  rw [bytes, image, hwRule, heq, Option.map_some, Option.getD_some, Option.getD_some]

/-- A rule with a header is not taken for the end of its table. -/
theorem Readable.unmarked (h : entry.Readable ip) (hblank : ¬ entry.Blank ip) :
    fltRuleFormat.Unmarked (le32 0) (entry.hwRule ip) := by
  obtain ⟨hok, hwrite⟩ := h.write_hwRule
  obtain ⟨body, hbytes⟩ := bytes_eq h
  refine ⟨hok, ?len, fun hmark => hblank ?blank⟩
  case len =>
    rw [hwrite, hbytes, List.length_append]
    exact Nat.le_add_right 4 _
  case blank =>
    rw [hwrite, hbytes] at hmark
    obtain ⟨rest, heq⟩ := hmark
    have hword : le32 0 = le32 (entry.hwRule ip).1.word := (List.append_inj heq rfl).1
    have hzero := congrArg (fun s => wordAt (s ++ []) 0) hword
    simp only [wordAt_le32] at hzero
    exact hzero.symm

end FltHwEntry

section Reading

open FltHwEntry

variable {ip : IpaIpType} {es : List FltHwEntry}

/-- What is left of a table from its first blank rule on begins with the word that ends a
table. -/
theorem exists_rest (h : ∀ entry ∈ es, entry.Readable ip) :
    ∃ rest, tblImage ip (es.dropWhile fun entry => ¬ entry.Blank ip) = le32 0 ++ rest := by
  cases hdrop : es.dropWhile fun entry => ¬ entry.Blank ip with
  | nil => exact ⟨[], rfl⟩
  | cons entry tail =>
    have hmem : entry ∈ es :=
      (List.dropWhile_sublist _).subset (hdrop ▸ List.mem_cons_self)
    have hblank : entry.Blank ip := by
      have hhead := List.head?_dropWhile_not (fun entry => decide (¬ entry.Blank ip)) es
      rw [hdrop] at hhead
      simpa using hhead
    -- a blank header is the mark itself
    obtain ⟨body, hbytes⟩ := bytes_eq (h entry hmem)
    refine ⟨body ++ tblImage ip tail, ?_⟩
    rw [tblImage, List.flatMap_cons, hbytes, hblank, tblImage]
    simp only [List.append_assoc]

/-- The hardware finds the rules of a table in their order, up to the first one whose
header is blank. -/
theorem readUntil_tblImage (h : ∀ entry ∈ es, entry.Readable ip) {fuel : ℕ}
    (hfuel : es.length < fuel) :
    (fltRuleFormat.readUntil (le32 0) fuel (tblImage ip es)).map (·.1) =
      some ((es.takeWhile fun entry => ¬ entry.Blank ip).map (hwRule ip)) := by
  have hsplit := List.takeWhile_append_dropWhile (p := fun entry => ¬ entry.Blank ip) (l := es)
  have hmem (entry : FltHwEntry) (he : entry ∈ es.takeWhile fun entry => ¬ entry.Blank ip) :
      entry.Readable ip ∧ ¬ entry.Blank ip :=
    ⟨h entry ((List.takeWhile_sublist _).subset he), by simpa using List.mem_takeWhile_imp he⟩
  obtain ⟨rest, hrest⟩ := exists_rest h
  have himage : tblImage ip es = fltRuleFormat.writeUntil (le32 0)
      ((es.takeWhile fun entry => ¬ entry.Blank ip).map (hwRule ip)) ++ rest := by
    have hbytes : ((es.takeWhile fun entry => ¬ entry.Blank ip).map (hwRule ip)).flatMap
        fltRuleFormat.write =
          (es.takeWhile fun entry => ¬ entry.Blank ip).flatMap (·.bytes ip) := by
      rw [List.flatMap_map]
      exact List.flatMap_congr fun entry he => (hmem entry he).1.write_hwRule.2
    rw [SequentialFormat.writeUntil, hbytes, List.append_assoc, ← hrest]
    conv_lhs => rw [← hsplit]
    simp only [tblImage, List.flatMap_append, List.append_assoc]
  have hshort : ((es.takeWhile fun entry => ¬ entry.Blank ip).map (hwRule ip)).length < fuel := by
    rw [List.length_map]
    exact ((List.takeWhile_sublist _).length_le).trans_lt hfuel
  have hunmarked : ∀ rule ∈ (es.takeWhile fun entry => ¬ entry.Blank ip).map (hwRule ip),
      fltRuleFormat.Unmarked (le32 0) rule := by
    intro rule hrule
    obtain ⟨entry, he, rfl⟩ := List.mem_map.mp hrule
    exact (hmem entry he).1.unmarked (hmem entry he).2
  rw [himage, SequentialFormat.readUntil_writeUntil fltRuleFormat hunmarked hshort rest,
    Option.map_some]

end Reading

section Example

/-- The places and the pipes of the controller v2.6L. -/
def fltHwCfgV26L : FltHwCfg where
  smemRestrictedBytes := 0
  v4FltOfst := 648
  v6FltOfst := 744
  ipaNumPipes := 16
  skipEpCfgShadow _ := false
  modemCfgEmbPipeFlt := true
  appsWanCons := 5
  appsLanCons := 2
  appsCmdProd := 3
  appsLanWanProd := 4
  emptyRtTblMem := 0x1000
  pipes := pipesV26L
  apart := by decide

/-- UDP over IPv4, to be routed by the first table. -/
def udpRule : FltHwEntry where
  action := .passToRouting
  attrib := { attribMask := 2, u := .ofV4Protocol 17 }

/-- Rules are added to the global table and to that of pipe 1. -/
def rulesAdded : FltWorld :=
  let w := FltWorld.init fltHwCfgV26L fun x => UInt32.ofNat x
  { w with hw := (w.hw.edit (.glob .v4) [udpRule, webRule]).edit (.ep 1 .v4) [webRule] }

/-- And committed. -/
def rulesCommitted : FltWorld :=
  rulesAdded.commit fltHwCfgV26L .v4
    { allocs := [some 0x2000, some 0x3000, some 0x4000, some 0x5000] }

/-- The modem has a table of its own for pipe 4. -/
def modemTable : FltWorld :=
  { rulesCommitted with hw := rulesCommitted.hw.smemWrite (fltHwCfgV26L.hdrWord .v4 6) 0x9000 }

theorem new_rules : ∀ entry ∈ [udpRule, webRule], entry.hwLen = 0 :=
  List.forall_mem_cons.mpr ⟨rfl, List.forall_mem_singleton.mpr rfl⟩

theorem reachable_rulesAdded : FltWorld.Reachable fltHwCfgV26L rulesAdded :=
  .step (.step (.init _) (.edit _ _ _ fun entry hentry => .inr (new_rules entry hentry)))
    (.edit _ _ _ fun entry hentry => .inr (new_rules entry (List.mem_cons_of_mem _ hentry)))

theorem reachable_rulesCommitted : FltWorld.Reachable fltHwCfgV26L rulesCommitted :=
  .step reachable_rulesAdded (.commit _ _ _)

theorem foreign_pipe4 : fltHwCfgV26L.ForeignPipe 4 := by
  unfold FltHwCfg.ForeignPipe
  decide

theorem reachable_modemTable : FltWorld.Reachable fltHwCfgV26L modemTable :=
  .foreign reachable_rulesCommitted
    (fltHwCfgV26L.foreign_pipe (by decide : IpaIpType.v4 ≠ .max) foreign_pipe4) _

theorem owned_glob {cfg : FltHwCfg} {ip : IpaIpType} (h : ip ≠ .max) : cfg.Owned (.glob ip) :=
  ⟨h, List.mem_cons_self⟩

theorem owned_pipe1 : fltHwCfgV26L.Owned (.ep 1 .v4) :=
  ⟨by decide, fltHwCfgV26L.mem_cmdKeys_ep.mpr (by decide)⟩

theorem committed_modemTable : modemTable.committed (.glob .v4) = [udpRule, webRule] := rfl

/-- A range of ports the wrong way round, on a pipe that never gets a header word. -/
def reversedRule : FltHwEntry where
  action := .passToRouting
  attrib := { attribMask := 16, srcPortLo := 9, srcPortHi := 3 }

def reversedAdded : FltWorld :=
  { modemTable with hw := modemTable.hw.edit (.ep 7 .v4) [webRule, reversedRule] }

def freshBuffers : List UInt32 := (List.range 19).map fun i => UInt32.ofNat (4096*(i+6))

/-- Every allocation and the transfer go through. -/
def freshOutcome : CommitOutcome where
  allocs := freshBuffers.map some

theorem reachable_reversedAdded : FltWorld.Reachable fltHwCfgV26L reversedAdded := by
  refine .step reachable_modemTable (.edit _ _ _ ?_)
  intro entry hentry
  rcases List.mem_pair.mp hentry with rfl | rfl
  · exact .inr rfl
  · exact .inr rfl

end Example

section Guarantees

variable {cfg : FltHwCfg} {w : FltWorld}

/-- Whatever rules came and went, and however the commits of them ended, behind each header
word of the driver stands memory that has not been freed, with exactly the rules that were
committed last. -/
theorem FltWorld.reads_committed (h : Reachable cfg w) {k : FltTblKey} (hk : cfg.Owned k) :
    w.hw.pool.heap (w.hw.sram (cfg.localAddr k)) = some (tblImage k.ip (w.committed k)) :=
  h.inv.hw k hk

theorem FltWorld.reads_committed_modemTable :
    modemTable.hw.pool.heap (modemTable.hw.sram (fltHwCfgV26L.localAddr (.glob .v4))) =
        some (tblImage .v4 [udpRule, webRule]) ∧
      modemTable.hw.pool.heap (modemTable.hw.sram (fltHwCfgV26L.localAddr (.ep 1 .v4))) =
        some (tblImage .v4 [webRule]) := by
  have hglob := FltWorld.reads_committed reachable_modemTable
    (owned_glob (by decide : IpaIpType.v4 ≠ .max))
  have hpipe := FltWorld.reads_committed reachable_modemTable owned_pipe1
  exact ⟨hglob, hpipe⟩

/-- The hardware makes of that memory the rules that were committed, in their order, up to
the first one whose header is blank: behind such a rule it sees nothing. -/
theorem FltWorld.reads_rules (h : Reachable cfg w) {k : FltTblKey} (hk : cfg.Owned k)
    (horder : ∀ entry ∈ w.committed k, entry.InOrder k.ip) {fuel : ℕ}
    (hfuel : (w.committed k).length < fuel) :
    ∃ bytes, w.hw.pool.heap (w.hw.sram (cfg.localAddr k)) = some bytes ∧
      (fltRuleFormat.readUntil (le32 0) fuel bytes).map (·.1) =
        some (((w.committed k).takeWhile fun entry => ¬ entry.Blank k.ip).map
          (FltHwEntry.hwRule k.ip)) := by
  have hread : ∀ entry ∈ w.committed k, entry.Readable k.ip := fun entry hentry =>
    .of_image (h.written k hk entry hentry) (horder entry hentry)
  exact ⟨_, h.inv.hw k hk, readUntil_tblImage hread hfuel⟩

theorem FltWorld.reads_rules_modemTable :
    ∃ bytes, modemTable.hw.pool.heap
        (modemTable.hw.sram (fltHwCfgV26L.localAddr (.glob .v4))) = some bytes ∧
      (fltRuleFormat.readUntil (le32 0) 3 bytes).map (·.1) =
        some [(udpRule.hdr 2, { ruleEqBitmap := 2, protocolEq := some 17 }),
          (webRule.hdr webEq.ruleEqBitmap, webEq)] := by
  have horder : ∀ entry ∈ modemTable.committed (.glob .v4), entry.InOrder .v4 := by
    rw [committed_modemTable]
    exact List.forall_mem_cons.mpr ⟨(by decide : (hwBits udpRule.attrib .v4).Pairwise (· < ·)),
      List.forall_mem_singleton.mpr hwBits_webRule⟩
  exact FltWorld.reads_rules reachable_modemTable
    (owned_glob (by decide : IpaIpType.v4 ≠ .max)) horder (by decide)

/-- While a commit moves the header words one after the other, each of them names at every
moment a whole table: the new rules if it has been moved, the old ones if not. -/
theorem FltWorld.reads_during_commit (h : Reachable cfg w) {ip : IpaIpType} (hip : ip ≠ .max)
    {allocs : List (Option UInt32)} {head1 head2 : UInt32}
    (hgen : (w.hw.ipaGenerateFltHwTblV2 cfg ip allocs).2 = some (head1, head2)) (n : ℕ)
    {k : FltTblKey} (hk : cfg.Owned k) :
    let s := (((cfg.cmdKeys ip).take n).map (dmaCmd cfg head1 head2)).foldl FltHw.dmaSharedMem
      (w.hw.ipaGenerateFltHwTblV2 cfg ip allocs).1
    s.pool.heap (s.sram (cfg.localAddr k)) = some (tblImage k.ip
      (if k ∈ (cfg.cmdKeys ip).take n then (w.hw.tbl k).entries else w.committed k)) := by
  intro s
  obtain ⟨hinv, -, -, hgenerated⟩ := ipaGenerateFltHwTblV2_spec ip allocs h.inv
  obtain ⟨heads, hg⟩ := hgenerated head1 head2 hgen
  have hpool : s.pool = (w.hw.ipaGenerateFltHwTblV2 cfg ip allocs).1.pool :=
    (FltHw.foldl_dmaSharedMem _ _).1
  rw [hpool]
  exact hg.heap_sending hip hinv (List.take_sublist n _) hk

theorem FltWorld.reads_during_commit_secondWord :
    let gen := rulesAdded.hw.ipaGenerateFltHwTblV2 fltHwCfgV26L .v4
      [some 0x2000, some 0x3000, some 0x4000, some 0x5000]
    let s := (((fltHwCfgV26L.cmdKeys .v4).take 2).map
      (dmaCmd fltHwCfgV26L 0x2000 0x3000)).foldl FltHw.dmaSharedMem gen.1
    s.pool.heap (s.sram (fltHwCfgV26L.localAddr (.glob .v4))) =
        some (tblImage .v4 [udpRule, webRule]) ∧
      s.pool.heap (s.sram (fltHwCfgV26L.localAddr (.ep 1 .v4))) = some (tblImage .v4 []) := by
  have hgen : (rulesAdded.hw.ipaGenerateFltHwTblV2 fltHwCfgV26L .v4
      [some 0x2000, some 0x3000, some 0x4000, some 0x5000]).2 = some (0x2000, 0x3000) := rfl
  have hv4 : IpaIpType.v4 ≠ .max := by decide
  exact ⟨FltWorld.reads_during_commit reachable_rulesAdded hv4 hgen 2 (owned_glob hv4),
    FltWorld.reads_during_commit reachable_rulesAdded hv4 hgen 2 owned_pipe1⟩

/-- The words of the filter headers that are not the driver's, the bitmap and the words of the
pipes that it skips or has no word for, stay as they are over any run of the driver, from
whatever the modem has stored in them. -/
theorem FltWorld.keeps_foreign_words {w' : FltWorld} (h : Reachable cfg w)
    (hrun : Relation.ReflTransGen (Step cfg) w w') {ip : IpaIpType} (hip : ip ≠ .max) :
    w'.hw.sram (cfg.smemRestrictedBytes + cfg.fltOfst ip) =
        w.hw.sram (cfg.smemRestrictedBytes + cfg.fltOfst ip) ∧
      ∀ idx, cfg.ForeignPipe idx →
        w'.hw.sram (cfg.smemRestrictedBytes + cfg.fltOfst ip + 8 + 4*idx) =
          w.hw.sram (cfg.smemRestrictedBytes + cfg.fltOfst ip + 8 + 4*idx) := by
  refine ⟨h.keeps_foreign hrun (cfg.foreign_bitmap hip), fun idx hidx => ?_⟩
  have hplace : cfg.hdrWord ip (idx+2) =
      cfg.smemRestrictedBytes + cfg.fltOfst ip + 8 + 4*idx := by
    unfold FltHwCfg.hdrWord
    omega
  exact hplace ▸ h.keeps_foreign hrun (cfg.foreign_pipe hip hidx)

/-- Two rules go again. -/
def rulesDeleted : FltWorld :=
  { modemTable with hw := modemTable.hw.edit (.glob .v4) [] }

theorem FltWorld.keeps_foreign_words_modemTable :
    (rulesDeleted.commit fltHwCfgV26L .v4 freshOutcome).hw.sram 672 = 0x9000 := by
  have hrun : Relation.ReflTransGen (Step fltHwCfgV26L) modemTable
      (rulesDeleted.commit fltHwCfgV26L .v4 freshOutcome) :=
    .tail (.single (.edit _ (.glob .v4) [] fun _ hentry => absurd hentry List.not_mem_nil))
      (.commit _ _ _)
  exact (FltWorld.keeps_foreign_words reachable_modemTable hrun
    (by decide : IpaIpType.v4 ≠ .max)).2 4 foreign_pipe4

/-- One rule that cannot be written fails every commit of its family, whatever the
allocator and the transfer answer; the hardware keeps the rules that it has. -/
theorem FltWorld.commit_unwritable (h : Reachable cfg w) {ip : IpaIpType} {k : FltTblKey}
    (hk : k ∈ cfg.tblKeys ip) {entry : FltHwEntry} (hentry : entry ∈ (w.hw.tbl k).entries)
    (hbad : entry.image ip = none) (o : CommitOutcome) :
    (w.hw.ipa2CommitFlt cfg ip o).2 ≠ 0 ∧ (w.commit cfg ip o).hw.sram = w.hw.sram ∧
      ∀ k', cfg.Owned k' → (w.commit cfg ip o).hw.pool.heap (w.hw.sram (cfg.localAddr k')) =
        some (tblImage k'.ip (w.committed k')) := by
  rcases FltWorld.commit_spec h.inv ip o with ⟨-, hwritable, -, -⟩ | ⟨hrc, -, hsram, hinv⟩
  · have hsome := hwritable k hk entry hentry
    rw [hbad] at hsome
    cases hsome
  · refine ⟨hrc, hsram, fun k' hk' => ?_⟩
    rw [← hsram]
    exact hinv.hw k' hk'

theorem FltWorld.commit_unwritable_reversed :
    (reversedAdded.hw.ipa2CommitFlt fltHwCfgV26L .v4 freshOutcome).2 ≠ 0 ∧
      (reversedAdded.commit fltHwCfgV26L .v4 freshOutcome).hw.sram = reversedAdded.hw.sram ∧
      ∀ k, fltHwCfgV26L.Owned k →
        (reversedAdded.commit fltHwCfgV26L .v4 freshOutcome).hw.pool.heap
            (reversedAdded.hw.sram (fltHwCfgV26L.localAddr k)) =
          some (tblImage k.ip (reversedAdded.committed k)) := by
  have hk : FltTblKey.ep 7 .v4 ∈ fltHwCfgV26L.tblKeys .v4 :=
    List.mem_cons_of_mem _ (List.mem_map_of_mem (List.mem_range.mpr (by decide)))
  have hentry : reversedRule ∈ (reversedAdded.hw.tbl (.ep 7 .v4)).entries :=
    List.mem_cons_of_mem _ List.mem_cons_self
  have hbad : reversedRule.image .v4 = none := by decide
  exact FltWorld.commit_unwritable reachable_reversedAdded hk hentry hbad freshOutcome

/-- Where memory and transfer do not fail, a commit of a family returns zero if and only if
each of its rules can be written. -/
theorem FltWorld.commit_succeeds_iff (h : Reachable cfg w) {ip : IpaIpType} (hip : ip ≠ .max)
    {o : CommitOutcome} (ho : o.Good w.hw ((cfg.tblKeys ip).length + 2)) :
    (w.hw.ipa2CommitFlt cfg ip o).2 = 0 ↔
      ∀ k ∈ cfg.tblKeys ip, ∀ entry ∈ (w.hw.tbl k).entries, (entry.image ip).isSome :=
  ipa2CommitFlt_eq_zero_iff hip h.inv ho

theorem FltWorld.commit_succeeds_iff_rulesAdded :
    (rulesAdded.hw.ipa2CommitFlt fltHwCfgV26L .v4 freshOutcome).2 = 0 ↔
      ∀ k ∈ fltHwCfgV26L.tblKeys .v4, ∀ entry ∈ (rulesAdded.hw.tbl k).entries,
        (entry.image .v4).isSome := by
  have hall : freshBuffers.all (fun a => decide (a ≠ 0 ∧ a.toNat % 4 = 0 ∧ a ≠ 0x1000)) = true := by
    decide
  have hfresh (a : UInt32) (ha : a ∈ freshBuffers) : a ≠ 0 ∧ a.toNat % 4 = 0 ∧ a ≠ 0x1000 :=
    of_decide_eq_true (List.all_eq_true.mp hall a ha)
  have hunused (a : UInt32) (ha : a ∈ freshBuffers) : rulesAdded.hw.pool.heap a = none := by
    have hheap : rulesAdded.hw.pool.heap =
        Function.update (fun _ => none) 0x1000 (some (le32 0)) := rfl
    rw [hheap, Function.update_of_ne (hfresh a ha).2.2]
  have hsupply : rulesAdded.hw.Supply freshBuffers :=
    ⟨by decide, fun a ha => ⟨(hfresh a ha).1, (hfresh a ha).2.1⟩, hunused⟩
  exact FltWorld.commit_succeeds_iff reachable_rulesAdded (by decide : IpaIpType.v4 ≠ .max)
    ⟨rfl, rfl, rfl, freshBuffers, rfl, hsupply, by decide⟩

end Guarantees

end X00TDCellular
