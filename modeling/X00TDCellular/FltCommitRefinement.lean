import X00TDCellular.FltCommitGuarantees
import X00TDCellular.UlDelete

/-! The tables of rules and the commit that writes them: what the abstract commit records
as the hardware's tables is what stands in memory. -/

namespace X00TDCellular
open Function

/-- What the generator reads of an entry, with the index of its routing table. -/
def FltEntry.toHw (rtIdx : ℕ → UInt32) (e : FltEntry) : FltHwEntry where
  action := e.rule.action
  retainHdr := e.rule.retainHdr
  toUc := e.rule.toUc
  rtTbl :=
    if e.rule.action = .passToException ∨ e.rule.eqAttribType then none
    else some (rtIdx e.rule.rtTblHdl)
  rtTblIdx := UInt32.ofNat e.rule.rtTblIdx
  eqAttribType := e.rule.eqAttribType
  attrib := e.rule.attrib
  eqAttrib := e.rule.eqAttrib

/-- Only the rules of one table differ. -/
structure IpaCtx.Edits (s : IpaCtx) (k : FltTblKey) (s' : IpaCtx) : Prop where
  hw : ∀ k', (s'.fltTbl k').hw = (s.fltTbl k').hw
  entries : ∀ k' ≠ k, (s'.fltTbl k').entries = (s.fltTbl k').entries

namespace IpaCtx

variable (s : IpaCtx)

theorem edits_refl (k : FltTblKey) : s.Edits k s := ⟨fun _ => rfl, fun _ _ => rfl⟩

theorem edits_update {s' : IpaCtx} {k : FltTblKey} {tbl : FltTbl}
    (h : s'.fltTbl = update s.fltTbl k tbl) (hhw : tbl.hw = (s.fltTbl k).hw) : s.Edits k s' := by
  refine ⟨fun k' => ?_, fun k' hk' => ?_⟩
  · rw [h]
    by_cases hk' : k' = k
    · rw [hk', update_self, hhw]
    · rw [update_of_ne hk']
  · rw [h, update_of_ne hk']

theorem edits_addFltRule (key : FltTblKey) (rule : FltRule) (addRear : Bool) (o : RuleOutcome) :
    s.Edits key (s.addFltRule key rule addRear o).1 := by
  unfold addFltRule
  dsimp only
  split
  · exact s.edits_refl key
  split
  · exact s.edits_refl key
  split
  · exact s.edits_update rfl rfl
  split
  · exact s.edits_refl key
  · exact s.edits_update rfl rfl

theorem edits_delFltRule {hdl : ℕ} {k : FltTblKey} (h : s.idFind hdl = some k) :
    s.Edits k (s.delFltRule hdl).1 := by
  unfold delFltRule
  rw [h]
  exact s.edits_update rfl rfl

/-- Without a rule of the handle nothing changes. -/
theorem exists_edits_delFltRule (hdl : ℕ) : ∃ k, s.Edits k (s.delFltRule hdl).1 := by
  cases hfind : s.idFind hdl with
  | some k => exact ⟨k, s.edits_delFltRule hfind⟩
  | none =>
    refine ⟨.glob .v4, ?_⟩
    unfold delFltRule
    rw [hfind]
    exact s.edits_refl _

end IpaCtx

section Carries

variable (rtIdx : ℕ → UInt32)

/-- The driver's tables and the hardware have the rules of the abstract state. -/
structure FltWorld.Carries (s : IpaCtx) (w : FltWorld) : Prop where
  entries : ∀ k, (w.hw.tbl k).entries.map FltHwEntry.unsized =
    (s.fltTbl k).entries.map (FltEntry.toHw rtIdx)
  hw : ∀ k, (w.committed k).map FltHwEntry.unsized =
    (s.fltTbl k).hw.map (FltEntry.toHw rtIdx)

variable {rtIdx} {cfg : FltHwCfg} {s s' : IpaCtx} {w : FltWorld}

/-- A change of one table, with the entries that stay and entries without a length. -/
theorem FltWorld.Carries.edit (h : w.Carries rtIdx s) {k : FltTblKey}
    (hedits : s.Edits k s') {es : List FltHwEntry}
    (hes : es.map FltHwEntry.unsized =
      (s'.fltTbl k).entries.map (FltEntry.toHw rtIdx)) :
    FltWorld.Carries rtIdx s' { w with hw := w.hw.edit k es } := by
  refine ⟨fun k' => ?_, fun k' => ?_⟩
  · by_cases hk' : k' = k
    · simp only [FltHw.edit, hk', update_self, hes]
    · simp only [FltHw.edit, update_of_ne hk', hedits.entries k' hk', h.entries k']
  · rw [hedits.hw k']
    exact h.hw k'

/-- The abstract commit takes the result of the real one. -/
theorem FltWorld.Carries.commit (h : w.Carries rtIdx s)
    (hinv : w.hw.Inv cfg w.committed) (ip : IpaIpType) (o : CommitOutcome) :
    FltWorld.Carries rtIdx
      (s.commitFlt ip ((w.hw.ipa2CommitFlt cfg ip o).2 = 0)) (w.commit cfg ip o) := by
  refine ⟨fun k => ?entries, fun k => ?hw⟩
  case entries =>
    rw [(s.entries_commitFlt ip _ k).1, ← h.entries k]
    unfold FltWorld.commit FltHw.ipa2CommitFlt
    split
    · rfl
    · exact (ipaCommitFltV2_frame ip o hinv).2 k
  case hw =>
    unfold FltWorld.commit IpaCtx.commitFlt
    dsimp only
    by_cases hrc : (w.hw.ipa2CommitFlt cfg ip o).2 = 0
    · by_cases hk : k.ip = ip
      · simp only [hrc, hk, commitRules, decide_true, and_self, if_true, h.entries k]
      · simp only [hrc, hk, commitRules, decide_true, false_and, if_true, if_false, h.hw k]
    · simp only [hrc, decide_false, Bool.false_eq_true, and_false, if_false, h.hw k]

variable (rtIdx) (cfg) in
/-- The tables of rules beside the hardware that they drive: the real commit decides how the
abstract one ends. -/
inductive FltWorld.Driven : IpaCtx → FltWorld → Prop
  | init {s : IpaCtx} (h : ∀ k, (s.fltTbl k).entries = [] ∧ (s.fltTbl k).hw = [])
      (sram : ℕ → UInt32) : Driven s (init cfg sram)
  | edit {s s' : IpaCtx} {w : FltWorld} {k : FltTblKey} {es : List FltHwEntry} (h : Driven s w)
      (hedits : s.Edits k s')
      (hes : es.map FltHwEntry.unsized =
        (s'.fltTbl k).entries.map (FltEntry.toHw rtIdx))
      (hlen : ∀ entry ∈ es, entry ∈ (w.hw.tbl k).entries ∨ entry.hwLen = 0) :
      Driven s' { w with hw := w.hw.edit k es }
  | commit {s : IpaCtx} {w : FltWorld} (h : Driven s w) (ip : IpaIpType) (o : CommitOutcome) :
      Driven (s.commitFlt ip ((w.hw.ipa2CommitFlt cfg ip o).2 = 0)) (w.commit cfg ip o)
  | foreign {s : IpaCtx} {w : FltWorld} (h : Driven s w) {x : ℕ} (hx : cfg.Foreign x)
      (v : UInt32) : Driven s { w with hw := w.hw.smemWrite x v }

theorem FltWorld.Driven.reachable (h : Driven rtIdx cfg s w) : Reachable cfg w := by
  induction h with
  | init h sram => exact .init sram
  | edit h hedits hes hlen ih => exact .step ih (.edit _ _ _ hlen)
  | commit h ip o ih => exact .step ih (.commit _ ip o)
  | foreign h hx v ih => exact .foreign ih hx v

theorem FltWorld.Driven.carries (h : Driven rtIdx cfg s w) :
    w.Carries rtIdx s := by
  induction h with
  | init h sram =>
    refine ⟨fun k => ?_, fun k => ?_⟩
    · rw [(h k).1]
      rfl
    · rw [(h k).2]
      rfl
  | edit h hedits hes hlen ih => exact ih.edit hedits hes
  | commit h ip o ih => exact ih.commit h.reachable.inv ip o
  | foreign h hx v ih => exact ⟨ih.entries, ih.hw⟩

/-- Whatever change of one table the abstract state makes, the driver can make it. -/
theorem FltWorld.Driven.exists_edit (h : Driven rtIdx cfg s w) {k : FltTblKey}
    (hedits : s.Edits k s') : ∃ es, Driven rtIdx cfg s' { w with hw := w.hw.edit k es } := by
  refine ⟨(s'.fltTbl k).entries.map (FltEntry.toHw rtIdx), h.edit hedits ?_ ?_⟩
  · rw [List.map_map]
    rfl
  · intro entry hentry
    obtain ⟨e, -, rfl⟩ := List.mem_map.mp hentry
    exact .inr rfl

/-- What stands behind the header words is the abstract state's record of the hardware. -/
theorem FltWorld.Driven.heap_eq (h : Driven rtIdx cfg s w) {k : FltTblKey}
    (hk : cfg.Owned k) : w.hw.pool.heap (w.hw.sram (cfg.localAddr k)) =
      some (tblImage k.ip ((s.fltTbl k).hw.map (FltEntry.toHw rtIdx))) := by
  have hunsized : ((s.fltTbl k).hw.map (FltEntry.toHw rtIdx)).map FltHwEntry.unsized =
      (s.fltTbl k).hw.map (FltEntry.toHw rtIdx) := by
    rw [List.map_map]
    rfl
  rw [h.reachable.inv.hw k hk]
  exact congrArg some (tblImage_unsized k.ip ((h.carries.hw k).trans hunsized.symm))

end Carries

section Requests

theorem IpaCtx.hw_addRules (s : IpaCtx) (key : FltTblKey) (rules : List FltRuleAdd)
    (os : List RuleOutcome) (k : FltTblKey) :
    ((s.addRules key rules os).1.fltTbl k).hw = (s.fltTbl k).hw := by
  induction rules generalizing s os with
  | nil => rfl
  | cons r rules ih =>
    have hfirst := (s.edits_addFltRule key r.rule r.atRear (os.headD {})).hw k
    unfold addRules
    dsimp only
    split
    · exact (ih _ os.tail).trans hfirst
    · exact (ih _ os.tail).trans hfirst

theorem IpaCtx.hw_delRules (s : IpaCtx) (hdls : List FltRuleDel) (k : FltTblKey) :
    ((s.delRules hdls).1.fltTbl k).hw = (s.fltTbl k).hw := by
  induction hdls generalizing s with
  | nil => rfl
  | cons r hdls ih =>
    obtain ⟨k', hfirst⟩ := s.exists_edits_delFltRule r.hdl
    exact (ih (s.delFltRule r.hdl).1).trans (hfirst.hw k)

variable {rtIdx : ℕ → UInt32} {cfg : FltHwCfg} {s s' : IpaCtx}
  {w w' : FltWorld}

/-- The loop of a request to add rules: the driver can follow it, and no memory changes. -/
theorem FltWorld.Driven.addRules (h : Driven rtIdx cfg s w) (key : FltTblKey)
    (rules : List FltRuleAdd) (os : List RuleOutcome) :
    ∃ w', Driven rtIdx cfg (s.addRules key rules os).1 w' ∧
      w'.hw.pool = w.hw.pool ∧ w'.hw.sram = w.hw.sram := by
  induction rules generalizing s w os with
  | nil => exact ⟨w, h, rfl, rfl⟩
  | cons r rules ih =>
    obtain ⟨es, hadd⟩ :=
      h.exists_edit (s.edits_addFltRule key r.rule r.atRear (os.headD {}))
    obtain ⟨w', hrest, hmemory⟩ := ih hadd os.tail
    refine ⟨w', ?_, hmemory⟩
    unfold IpaCtx.addRules
    dsimp only
    split
    · exact hrest
    · exact hrest

/-- The loop of a request to delete rules. -/
theorem FltWorld.Driven.delRules (h : Driven rtIdx cfg s w) (hdls : List FltRuleDel) :
    ∃ w', Driven rtIdx cfg (s.delRules hdls).1 w' ∧
      w'.hw.pool = w.hw.pool ∧ w'.hw.sram = w.hw.sram := by
  induction hdls generalizing s w with
  | nil => exact ⟨w, h, rfl, rfl⟩
  | cons r hdls ih =>
    obtain ⟨k, hedits⟩ := s.exists_edits_delFltRule r.hdl
    obtain ⟨es, hdel⟩ := h.exists_edit hedits
    obtain ⟨w', hrest, hmemory⟩ := ih hdel
    exact ⟨w', hrest, hmemory⟩

theorem rc_eq_zero_iff (ok : Bool) : (if ok then 0 else ePerm) = 0 ↔ ok = true := by
  cases ok <;> decide

/-- The commit at the end of a request that has turned `s` into `s'`. -/
theorem FltWorld.Driven.commit_request (h : Driven rtIdx cfg s' w')
    (hhw : ∀ k, (s'.fltTbl k).hw = (s.fltTbl k).hw) (ip : IpaIpType) (c : CommitOutcome)
    {ok : Bool} (hok : ok = decide ((w'.hw.ipa2CommitFlt cfg ip c).2 = 0)) :
    Driven rtIdx cfg (s'.commitFlt ip ok) (w'.commit cfg ip c) ∧
      ∀ k, cfg.Owned k →
        (w'.commit cfg ip c).hw.pool.heap ((w'.commit cfg ip c).hw.sram (cfg.localAddr k)) =
          some (tblImage k.ip ((if k.ip = ip ∧ (if ok then 0 else ePerm) = 0
            then ((s'.commitFlt ip ok).fltTbl k).entries
            else (s.fltTbl k).hw).map (FltEntry.toHw rtIdx))) := by
  subst hok
  refine ⟨h.commit ip c, fun k hk => ?_⟩
  rw [(h.commit ip c).heap_eq hk, (s'.entries_commitFlt ip _ k).1]
  simp only [rc_eq_zero_iff]
  unfold IpaCtx.commitFlt
  dsimp only
  split
  · rfl
  · rw [hhw k]

/-- No rules and no handles. -/
def bareCtx : IpaCtx where
  hwType := .v26L
  ipaNumPipes := 16
  pipes := pipesV26L
  fltTbl _ := {}
  idr := []
  rtTbls := []

def exceptionRule : FltRule where
  action := .passToException

/-- UDP, for a routing table of the modem. -/
def udpEqRule : FltRule where
  retainHdr := 1
  action := .passToRouting
  eqAttrib := { ruleEqBitmap := 2, protocolEq := some 17 }
  rtTblIdx := 2
  eqAttribType := true

/-- The second rule goes in front of the first. -/
def twoRequest : AddFltRuleReq where
  commit := true
  ip := .v4
  ep := 0
  global := true
  rules :=
    [{ rule := exceptionRule, atRear := true, fltRuleHdl := 0 },
      { rule := udpEqRule, atRear := false, fltRuleHdl := 0 }]

def hwException : FltHwEntry := FltEntry.toHw (fun _ => 0) ⟨exceptionRule, some 0⟩

def hwUdpEq : FltHwEntry := FltEntry.toHw (fun _ => 0) ⟨udpEqRule, some 1⟩

def twoCtx : IpaCtx := (bareCtx.addRules (.glob .v4) twoRequest.rules []).1

def twoWorld : FltWorld :=
  let w := FltWorld.init fltHwCfgV26L fun _ => 0
  { w with hw := (w.hw.edit (.glob .v4) [hwException]).edit (.glob .v4) [hwUdpEq, hwException] }

theorem driven_bareCtx : FltWorld.Driven (fun _ => 0) fltHwCfgV26L bareCtx
    (FltWorld.init fltHwCfgV26L fun _ => 0) := .init (fun _ => ⟨rfl, rfl⟩) _

theorem driven_twoCtx : FltWorld.Driven (fun _ => 0) fltHwCfgV26L twoCtx twoWorld := by
  have hnew (entry : FltHwEntry) (h : entry ∈ [hwUdpEq, hwException]) : entry.hwLen = 0 := by
    rcases List.mem_pair.mp h with rfl | rfl
    · rfl
    · rfl
  refine FltWorld.Driven.edit (driven_bareCtx.edit (bareCtx.edits_addFltRule (.glob .v4)
    exceptionRule true {}) ?_ ?_) (IpaCtx.edits_addFltRule _ (.glob .v4) udpEqRule false {})
    rfl fun entry hentry => .inr (hnew entry hentry)
  · rfl
  · exact fun entry hentry => .inr (hnew entry (List.mem_cons_of_mem _ hentry))

def twoCommitted : FltWorld := twoWorld.commit fltHwCfgV26L .v4 freshOutcome

def deleteRequest : DelFltRuleReq where
  commit := true
  ip := .v4
  hdls := [{ hdl := 0 }]

def deletedWorld : FltWorld :=
  { twoCommitted with hw := twoCommitted.hw.edit (.glob .v4) [hwUdpEq] }

theorem driven_twoCommitted : FltWorld.Driven (fun _ => 0) fltHwCfgV26L
    (twoCtx.commitFlt .v4 true) twoCommitted := driven_twoCtx.commit .v4 freshOutcome

theorem driven_deletedWorld : FltWorld.Driven (fun _ => 0) fltHwCfgV26L
    ((twoCtx.commitFlt .v4 true).delRules deleteRequest.hdls).1 deletedWorld := by
  have hfind : (twoCtx.commitFlt .v4 true).idFind 0 = some (.glob .v4) := by decide
  exact driven_twoCommitted.edit (IpaCtx.edits_delFltRule _ hfind) rfl
    fun _ hentry => .inr (List.mem_singleton.mp hentry ▸ rfl)

def secondOutcome : CommitOutcome where
  allocs := [some 0x30000, some 0x31000, some 0x32000]

/-- In every run of table changes and commits the driver can carry out a request for rules
with a commit, and however it does: if the request returns zero the hardware has all tables of
the family as the driver now has them, otherwise what it had before. -/
theorem FltWorld.reads_add_request (h : Driven rtIdx cfg s w) {req : AddFltRuleReq}
    (hrules : req.rules ≠ []) (hip : req.ip ≠ .max) (hcommit : req.commit = true)
    (os : List RuleOutcome) :
    (∃ added, Driven rtIdx cfg (s.addRules req.key req.rules os).1 added ∧
        added.hw.pool = w.hw.pool ∧ added.hw.sram = w.hw.sram) ∧
      ∀ added, Driven rtIdx cfg (s.addRules req.key req.rules os).1 added → ∀ c : CommitOutcome,
        let ok : Bool := (added.hw.ipa2CommitFlt cfg req.ip c).2 = 0
        let w' := added.commit cfg req.ip c
        let r := s.ipa2AddFltRule req { rules := os, commitOk := ok }
        Driven rtIdx cfg r.1 w' ∧
          ∀ k, cfg.Owned k → w'.hw.pool.heap (w'.hw.sram (cfg.localAddr k)) =
            some (tblImage k.ip ((if k.ip = req.ip ∧ r.2.2 = 0 then (r.1.fltTbl k).entries
              else (s.fltTbl k).hw).map (FltEntry.toHw rtIdx))) := by
  refine ⟨h.addRules req.key req.rules os, fun added hadded c => ?_⟩
  have hstart : ¬ (req.rules = [] ∨ req.ip = .max) := not_or.mpr ⟨hrules, hip⟩
  intro ok w' r
  have hr : r = ((s.addRules req.key req.rules os).1.commitFlt req.ip ok,
      { req with rules := (s.addRules req.key req.rules os).2 }, if ok then 0 else ePerm) := by
    unfold r IpaCtx.ipa2AddFltRule
    rw [if_neg hstart]
    exact if_pos hcommit
  rw [hr]
  exact hadded.commit_request (s.hw_addRules req.key req.rules os) req.ip c rfl

theorem FltWorld.reads_add_request_twoRules :
    twoCommitted.hw.pool.heap (twoCommitted.hw.sram (fltHwCfgV26L.localAddr (.glob .v4))) =
      some (tblImage .v4 [hwUdpEq, hwException]) := by
  have hrules : twoRequest.rules ≠ [] := List.cons_ne_nil _ _
  have hip : twoRequest.ip ≠ .max := by decide
  obtain ⟨-, hreads⟩ := (FltWorld.reads_add_request driven_bareCtx hrules hip rfl []).2 twoWorld
    driven_twoCtx freshOutcome
  have hglob := hreads (.glob .v4) (owned_glob hip)
  rw [if_pos ⟨rfl, rfl⟩] at hglob
  exact hglob

/-- The same of a request to delete rules: the driver's tables are as its loop has left them
either way, and those of the hardware if it returns zero. -/
theorem FltWorld.reads_del_request (h : Driven rtIdx cfg s w) {req : DelFltRuleReq}
    (hhdls : req.hdls ≠ []) (hip : req.ip ≠ .max) (hcommit : req.commit = true) :
    (∃ deleted, Driven rtIdx cfg (s.delRules req.hdls).1 deleted ∧
        deleted.hw.pool = w.hw.pool ∧ deleted.hw.sram = w.hw.sram) ∧
      ∀ deleted, Driven rtIdx cfg (s.delRules req.hdls).1 deleted → ∀ c : CommitOutcome,
        let ok : Bool := (deleted.hw.ipa2CommitFlt cfg req.ip c).2 = 0
        let w' := deleted.commit cfg req.ip c
        let r := s.ipa2DelFltRule req ok
        Driven rtIdx cfg r.1 w' ∧
          ∀ k, cfg.Owned k → w'.hw.pool.heap (w'.hw.sram (cfg.localAddr k)) =
            some (tblImage k.ip ((if k.ip = req.ip ∧ r.2.2 = 0 then (r.1.fltTbl k).entries
              else (s.fltTbl k).hw).map (FltEntry.toHw rtIdx))) := by
  refine ⟨h.delRules req.hdls, fun deleted hdeleted c => ?_⟩
  have hstart : ¬ (req.hdls = [] ∨ req.ip = .max) := not_or.mpr ⟨hhdls, hip⟩
  intro ok w' r
  have hr : r = ((s.delRules req.hdls).1.commitFlt req.ip ok,
      { req with hdls := (s.delRules req.hdls).2 }, if ok then 0 else ePerm) := by
    unfold r IpaCtx.ipa2DelFltRule
    rw [if_neg hstart]
    exact if_pos hcommit
  rw [hr]
  exact hdeleted.commit_request (s.hw_delRules req.hdls) req.ip c rfl

theorem FltWorld.reads_del_request_firstRule :
    let w' := deletedWorld.commit fltHwCfgV26L .v4 secondOutcome
    w'.hw.pool.heap (w'.hw.sram (fltHwCfgV26L.localAddr (.glob .v4))) =
      some (tblImage .v4 [hwUdpEq]) := by
  have hhdls : deleteRequest.hdls ≠ [] := List.cons_ne_nil _ _
  have hip : deleteRequest.ip ≠ .max := by decide
  obtain ⟨-, hreads⟩ := (FltWorld.reads_del_request driven_twoCommitted hhdls hip rfl).2
    deletedWorld driven_deletedWorld secondOutcome
  have hglob := hreads (.glob .v4) (owned_glob hip)
  rw [if_pos ⟨rfl, rfl⟩] at hglob
  exact hglob

end Requests

end X00TDCellular
