import Mathlib.Data.List.Perm.Subperm
import Mathlib.Logic.Function.Basic
import X00TDCellular.FltEquation

/-! The software filter tables of `ipa_flt.c`. Memory, ids and the commit to hardware
can fail; how they turn out is an argument of each operation. -/

namespace X00TDCellular
open Function

inductive FltAction
  | passToRouting
  | passToSrcNat
  | passToDstNat
  | passToException
  deriving DecidableEq, Repr

structure FltRule where
  retainHdr : UInt8 := 0
  toUc : UInt8 := 0
  action : FltAction
  rtTblHdl : ℕ := 0
  attrib : RuleAttrib := { attribMask := 0 }
  eqAttrib : IpfltriRuleEq := {}
  rtTblIdx : ℕ := 0
  eqAttribType : Bool := false
  deriving DecidableEq, Repr

/-- An entry has an id once `ipa_id_alloc` gave it one; the id is its handle. -/
structure FltEntry where
  rule : FltRule
  id : Option ℕ
  deriving DecidableEq, Repr

/-- `hw` is what the last commit wrote. -/
structure FltTbl where
  entries : List FltEntry := []
  ruleCnt : ℕ := 0
  stickyRear : Bool := false
  hw : List FltEntry := []
  deriving DecidableEq, Repr

inductive FltTblKey
  | glob (ip : IpaIpType)
  | ep (ipaEpIdx : ℕ) (ip : IpaIpType)
  deriving DecidableEq, Repr

def FltTblKey.ip : FltTblKey → IpaIpType
  | .glob ip => ip
  | .ep _ ip => ip

inductive IpaHwType
  | v2
  | v25
  | v26L
  deriving DecidableEq, Repr

/-- `v4_modem_rt_index_hi` and `v6_modem_rt_index_hi`, which are equal. -/
def IpaHwType.modemRtIndexHi : IpaHwType → ℕ
  | .v2 => 3
  | .v25 => 6
  | .v26L => 6

/-- `idr` lists the ids in use, those of filter rules and all others; `rtTbls` those
of routing tables. The number of pipes is read from the hardware: the driver's own are
among the first six, and its arrays have room for 20. -/
structure IpaCtx where
  hwType : IpaHwType
  ipaNumPipes : ℕ
  pipes : 6 ≤ ipaNumPipes ∧ ipaNumPipes ≤ 20
  fltTbl : FltTblKey → FltTbl
  idr : List ℕ
  rtTbls : List ℕ

/-- The controller v2.6L has 16 pipes. -/
theorem pipesV26L : 6 ≤ 16 ∧ 16 ≤ 20 := by decide

def ruleCntMax : ℕ := 512

/-- The lowest id that is not in use. -/
def idrAlloc (used : List ℕ) : ℕ :=
  ((List.range (used.length+1)).find? (fun i => i ∉ used)).getD 0

theorem idrAlloc_notMem (used : List ℕ) : idrAlloc used ∉ used := by
  have hfree : ∃ i ∈ List.range (used.length+1), i ∉ used := by
    by_contra h
    push Not at h
    have hle := (List.nodup_range.subperm h).length_le
    rw [List.length_range] at hle
    omega
  obtain ⟨i, hi, hnot⟩ := hfree
  have hsome : ((List.range (used.length+1)).find? (fun i => i ∉ used)).isSome := by
    rw [List.find?_isSome]
    exact ⟨i, hi, by simpa using hnot⟩
  obtain ⟨j, hj⟩ := Option.isSome_iff_exists.mp hsome
  have hfound := List.find?_some hj
  rw [idrAlloc, hj]
  simpa using hfound

/-- How `kmem_cache_zalloc` and `ipa_id_alloc` turn out for one rule. A used up id
space is a failure of the latter. -/
structure RuleOutcome where
  entryOk : Bool := true
  idOk : Bool := true
  deriving DecidableEq, Repr

namespace FltTbl

/-- Where a new entry goes; a sticky last rule stays last. -/
def place (tbl : FltTbl) (e : FltEntry) (addRear : Bool) : List FltEntry :=
  if addRear then
    if tbl.stickyRear then tbl.entries.dropLast ++ [e] ++ tbl.entries.getLast?.toList
    else tbl.entries ++ [e]
  else e :: tbl.entries

theorem place_perm (tbl : FltTbl) (e : FltEntry) (addRear : Bool) :
    (tbl.place e addRear).Perm (e :: tbl.entries) := by
  unfold place
  split
  · split
    · rcases List.eq_nil_or_concat tbl.entries with h | ⟨init, last, h⟩
      · simp [h]
      · have hsplit : tbl.entries = init ++ [last] := by
          rw [h, List.concat_eq_append]
        rw [hsplit]
        simp only [List.dropLast_concat, List.getLast?_concat, Option.toList_some]
        rw [List.append_assoc]
        exact List.perm_middle
    · exact List.perm_append_singleton e tbl.entries
  · exact List.Perm.refl _

end FltTbl

namespace IpaCtx

variable (s : IpaCtx)

/-- The checks of `__ipa_add_flt_rule` on the rule's routing table. -/
def ruleValid (rule : FltRule) : Bool :=
  if rule.action = .passToException then rule.rtTblIdx = 0
  else if rule.eqAttribType then rule.rtTblIdx ≤ s.hwType.modemRtIndexHi
  else rule.rtTblHdl ≠ 0 ∧ rule.rtTblHdl ∈ s.rtTbls

/-- `__ipa_add_flt_rule`: the handle of the new entry, or `none` for an error. -/
def addFltRule (key : FltTblKey) (rule : FltRule) (addRear : Bool) (o : RuleOutcome) :
    IpaCtx × Option ℕ :=
  let tbl := s.fltTbl key
  let id := idrAlloc s.idr
  if ¬ s.ruleValid rule then (s, none)
  else if ¬ o.entryOk then (s, none)
  else if ruleCntMax ≤ tbl.ruleCnt then
    -- -EINVAL after the entry has been linked: it stays, without an id
    ({ s with fltTbl :=
        update s.fltTbl key { tbl with entries := tbl.place ⟨rule, none⟩ addRear } }, none)
  else if ¬ o.idOk then (s, none)
  else
    ({ s with
      fltTbl := update s.fltTbl key { tbl with
        entries := tbl.place ⟨rule, some id⟩ addRear, ruleCnt := tbl.ruleCnt+1 }
      idr := id :: s.idr }, some id)

/-- Each id in a table is in use, and names one entry. -/
structure WellFormed : Prop where
  idr : ∀ k, ∀ e ∈ (s.fltTbl k).entries, ∀ id ∈ e.id, id ∈ s.idr
  unique : ∀ k k' e e' id, e ∈ (s.fltTbl k).entries → e' ∈ (s.fltTbl k').entries →
    e.id = some id → e'.id = some id → k = k' ∧ e = e'

/-- The table state has come from `s` by linking entries for some of the rules that
`pending` lists, in that order; entries never leave a table. -/
structure Grows (s' : IpaCtx) (pending : FltTblKey → List FltRule) : Prop where
  hwType : s'.hwType = s.hwType
  rtTbls : s'.rtTbls = s.rtTbls
  link : ∀ k, ∃ new : List FltEntry, (new.map (·.rule)).Sublist (pending k) ∧
    (s'.fltTbl k).entries.Perm (new ++ (s.fltTbl k).entries) ∧
    (s'.fltTbl k).ruleCnt ≤ (s.fltTbl k).ruleCnt + new.length
  wellFormed : s.WellFormed → s'.WellFormed

/-- The rule, if it is valid, for its own table. -/
def pendingRule (key : FltTblKey) (rule : FltRule) : FltTblKey → List FltRule :=
  fun k => if k = key ∧ s.ruleValid rule = true then [rule] else []

variable {s}

theorem Grows.refl (pending : FltTblKey → List FltRule) : s.Grows s pending := by
  refine ⟨rfl, rfl, ?_, id⟩
  intro k
  exact ⟨[], List.nil_sublist _, List.Perm.refl _, Nat.le_refl _⟩

theorem Grows.trans {s' s'' : IpaCtx} {pending pending' : FltTblKey → List FltRule}
    (h : s.Grows s' pending) (h' : s'.Grows s'' pending') :
    s.Grows s'' (fun k => pending k ++ pending' k) := by
  refine ⟨h'.hwType.trans h.hwType, h'.rtTbls.trans h.rtTbls, ?_,
    fun hwf => h'.wellFormed (h.wellFormed hwf)⟩
  intro k
  -- the entries of the two parts, in the order in which they were linked
  obtain ⟨new, hsub, hperm, hcnt⟩ := h.link k
  obtain ⟨new', hsub', hperm', hcnt'⟩ := h'.link k
  refine ⟨new ++ new', ?_, ?_, ?_⟩
  · rw [List.map_append]
    exact hsub.append hsub'
  · apply hperm'.trans
    apply (hperm.append_left new').trans
    rw [← List.append_assoc]
    exact List.perm_append_comm.append_right _
  · rw [List.length_append]
    omega

theorem Grows.ruleValid {s' : IpaCtx} {pending : FltTblKey → List FltRule}
    (h : s.Grows s' pending) (rule : FltRule) : s'.ruleValid rule = s.ruleValid rule := by
  unfold IpaCtx.ruleValid
  rw [h.hwType, h.rtTbls]

theorem Grows.mem {s' : IpaCtx} {pending : FltTblKey → List FltRule}
    (h : s.Grows s' pending) {k : FltTblKey} {e : FltEntry}
    (he : e ∈ (s.fltTbl k).entries) : e ∈ (s'.fltTbl k).entries := by
  obtain ⟨new, _, hperm, _⟩ := h.link k
  exact hperm.mem_iff.mpr (List.mem_append_right new he)

theorem Grows.ruleCnt_le {s' : IpaCtx} {pending : FltTblKey → List FltRule}
    (h : s.Grows s' pending) (k : FltTblKey) :
    (s'.fltTbl k).ruleCnt ≤ (s.fltTbl k).ruleCnt + (pending k).length := by
  obtain ⟨new, hsub, _, hcnt⟩ := h.link k
  have hlen := hsub.length_le
  rw [List.length_map] at hlen
  omega

/-- How often a rule stands in a table. -/
def ruleCount (s : IpaCtx) (k : FltTblKey) (rule : FltRule) : ℕ :=
  ((s.fltTbl k).entries.map (·.rule)).count rule

theorem Grows.ruleCount_le {s' : IpaCtx} {pending : FltTblKey → List FltRule}
    (h : s.Grows s' pending) (k : FltTblKey) (rule : FltRule) :
    s'.ruleCount k rule ≤ (pending k).count rule + s.ruleCount k rule := by
  obtain ⟨new, hsub, hperm, _⟩ := h.link k
  have hcount := (hperm.map (·.rule)).count_eq rule
  rw [List.map_append, List.count_append] at hcount
  have hle := hsub.count_le rule
  unfold ruleCount
  omega

variable (s)

/-- A new entry without an id, or with one that was not in use. -/
theorem WellFormed.link {s s' : IpaCtx} {key : FltTblKey} {rule : FltRule} {new : Option ℕ}
    {tbl : FltTbl} (hwf : s.WellFormed) (htbl : s'.fltTbl = update s.fltTbl key tbl)
    (hperm : tbl.entries.Perm (⟨rule, new⟩ :: (s.fltTbl key).entries))
    (hidr : ∀ i ∈ s.idr, i ∈ s'.idr) (hnew : ∀ i ∈ new, i ∉ s.idr ∧ i ∈ s'.idr) :
    s'.WellFormed := by
  -- every entry is an old one or the new one
  have hcases (k : FltTblKey) (e : FltEntry) (he : e ∈ (s'.fltTbl k).entries) :
      e ∈ (s.fltTbl k).entries ∨ (k = key ∧ e = ⟨rule, new⟩) := by
    rw [htbl] at he
    by_cases hk : k = key
    · rw [hk, update_self, hperm.mem_iff, List.mem_cons] at he
      rcases he with he | he
      · exact Or.inr ⟨hk, he⟩
      · rw [hk]
        exact Or.inl he
    · rw [update_of_ne hk] at he
      exact Or.inl he
  constructor
  · intro k e he i hi
    rcases hcases k e he with hold | ⟨_, rfl⟩
    · exact hidr i (hwf.idr k e hold i hi)
    · exact (hnew i hi).2
  · intro k k' e e' i he he' hi hi'
    rcases hcases k e he with hold | ⟨rfl, rfl⟩
    · rcases hcases k' e' he' with hold' | ⟨rfl, rfl⟩
      · exact hwf.unique k k' e e' i hold hold' hi hi'
      · exact absurd (hwf.idr k e hold i hi) (hnew i hi').1
    · rcases hcases k' e' he' with hold' | ⟨rfl, rfl⟩
      · exact absurd (hwf.idr k' e' hold' i hi') (hnew i hi).1
      · exact ⟨rfl, rfl⟩

/-- Linking one entry, with the counter left alone or increased. -/
theorem grows_link {key : FltTblKey} {rule : FltRule} {new : Option ℕ} {tbl : FltTbl}
    {s' : IpaCtx} (hvalid : s.ruleValid rule = true) (hhw : s'.hwType = s.hwType)
    (hrt : s'.rtTbls = s.rtTbls) (htbl : s'.fltTbl = update s.fltTbl key tbl)
    (hperm : tbl.entries.Perm (⟨rule, new⟩ :: (s.fltTbl key).entries))
    (hcnt : tbl.ruleCnt ≤ (s.fltTbl key).ruleCnt+1)
    (hidr : ∀ i ∈ s.idr, i ∈ s'.idr) (hnew : ∀ i ∈ new, i ∉ s.idr ∧ i ∈ s'.idr) :
    s.Grows s' (s.pendingRule key rule) := by
  refine ⟨hhw, hrt, ?_, fun hwf => hwf.link htbl hperm hidr hnew⟩
  intro k
  rw [htbl]
  by_cases hk : k = key
  · rw [hk, update_self]
    refine ⟨[⟨rule, new⟩], ?_, hperm, hcnt⟩
    simp [pendingRule, hvalid]
  · rw [update_of_ne hk]
    exact ⟨[], List.nil_sublist _, List.Perm.refl _, Nat.le_refl _⟩

/-- What adding a rule does to the tables, whatever its result. -/
theorem addFltRule_grows (key : FltTblKey) (rule : FltRule) (addRear : Bool)
    (o : RuleOutcome) :
    s.Grows (s.addFltRule key rule addRear o).1 (s.pendingRule key rule) := by
  unfold addFltRule
  by_cases hvalid : s.ruleValid rule = true
  · rw [if_neg (not_not.mpr hvalid)]
    split
    · exact Grows.refl _
    · split
      -- a full table links the entry all the same, uncounted
      · refine s.grows_link hvalid rfl rfl rfl (FltTbl.place_perm _ _ addRear) (Nat.le_succ _)
          (fun i hi => hi) ?_
        intro i hi
        cases hi
      · split
        · exact Grows.refl _
        · refine s.grows_link hvalid rfl rfl rfl (FltTbl.place_perm _ _ addRear)
            (Nat.le_refl _) (fun i hi => List.mem_cons_of_mem _ hi) ?_
          intro i hi
          cases hi
          exact ⟨idrAlloc_notMem s.idr, List.mem_cons_self⟩
  · rw [if_pos hvalid]
    exact Grows.refl _

/-- A handle that is returned is the id of an entry for the rule. -/
theorem mem_of_addFltRule_eq_some {key : FltTblKey} {rule : FltRule} {addRear : Bool}
    {o : RuleOutcome} {id : ℕ} (h : (s.addFltRule key rule addRear o).2 = some id) :
    ⟨rule, some id⟩ ∈ ((s.addFltRule key rule addRear o).1.fltTbl key).entries := by
  by_cases hvalid : s.ruleValid rule = true
  · by_cases hentry : o.entryOk = true
    · by_cases hfull : ruleCntMax ≤ (s.fltTbl key).ruleCnt
      · rw [addFltRule, if_neg (not_not.mpr hvalid), if_neg (not_not.mpr hentry),
          if_pos hfull] at h
        cases h
      · by_cases hid : o.idOk = true
        · rw [addFltRule, if_neg (not_not.mpr hvalid), if_neg (not_not.mpr hentry),
            if_neg hfull, if_neg (not_not.mpr hid)] at h ⊢
          cases h
          simp only [update_self]
          exact (FltTbl.place_perm _ _ addRear).mem_iff.mpr List.mem_cons_self
        · rw [addFltRule, if_neg (not_not.mpr hvalid), if_neg (not_not.mpr hentry),
            if_neg hfull, if_pos hid] at h
          cases h
    · rw [addFltRule, if_neg (not_not.mpr hvalid), if_pos hentry] at h
      cases h
  · rw [addFltRule, if_pos hvalid] at h
    cases h

theorem ruleValid_of_addFltRule_eq_some {key : FltTblKey} {rule : FltRule} {addRear : Bool}
    {o : RuleOutcome} {id : ℕ} (h : (s.addFltRule key rule addRear o).2 = some id) :
    s.ruleValid rule = true := by
  by_contra hvalid
  rw [addFltRule, if_pos hvalid] at h
  cases h

/-- A valid rule is added when there is memory, room and an id. -/
theorem addFltRule_isSome {key : FltTblKey} {rule : FltRule} {addRear : Bool}
    {o : RuleOutcome} (hvalid : s.ruleValid rule = true) (hentry : o.entryOk = true)
    (hid : o.idOk = true) (hroom : (s.fltTbl key).ruleCnt < ruleCntMax) :
    (s.addFltRule key rule addRear o).2.isSome := by
  have hfull : ¬ ruleCntMax ≤ (s.fltTbl key).ruleCnt := by omega
  rw [addFltRule, if_neg (not_not.mpr hvalid), if_neg (not_not.mpr hentry), if_neg hfull,
    if_neg (not_not.mpr hid)]
  rfl

end IpaCtx

/-- `struct ipa_flt_rule_add`; handle and status are written by the driver. -/
structure FltRuleAdd where
  rule : FltRule
  atRear : Bool
  fltRuleHdl : ℕ
  status : ℤ := 0
  deriving DecidableEq, Repr

/-- `struct ipa_ioc_add_flt_rule`, with the pipe that its `ep` maps to. -/
structure AddFltRuleReq where
  commit : Bool
  ip : IpaIpType
  ep : ℕ
  global : Bool
  rules : List FltRuleAdd
  deriving DecidableEq, Repr

def AddFltRuleReq.key (req : AddFltRuleReq) : FltTblKey :=
  if req.global then .glob req.ip else .ep req.ep req.ip

/-- The outcomes of the rules of a request, where they are not all well, and of its
commit. -/
structure AddOutcome where
  rules : List RuleOutcome := []
  commitOk : Bool := true
  deriving DecidableEq, Repr

def ePerm : ℤ := -1
def eNoMem : ℤ := -12
def eFault : ℤ := -14
def eNoDev : ℤ := -19
def eInval : ℤ := -22

namespace IpaCtx

/-- The loop of `ipa2_add_flt_rule_usr`: a rule that fails is marked, and the loop
goes on. -/
def addRules (s : IpaCtx) (key : FltTblKey) :
    List FltRuleAdd → List RuleOutcome → IpaCtx × List FltRuleAdd
  | [], _ => (s, [])
  | r :: rs, os =>
    let added := s.addFltRule key r.rule r.atRear (os.headD {})
    let rest := added.1.addRules key rs os.tail
    match added.2 with
    | some id => (rest.1, { r with fltRuleHdl := id, status := 0 } :: rest.2)
    | none => (rest.1, { r with status := -1 } :: rest.2)

/-- `ipa_commit_flt`: when it fails the hardware keeps the tables it had. -/
def commitFlt (s : IpaCtx) (ip : IpaIpType) (ok : Bool) : IpaCtx :=
  { s with fltTbl := fun k =>
      if k.ip = ip ∧ ok then { s.fltTbl k with hw := (s.fltTbl k).entries } else s.fltTbl k }

def setStickyRear (s : IpaCtx) (key : FltTblKey) : IpaCtx :=
  let tbl := s.fltTbl key
  { s with fltTbl := update s.fltTbl key { tbl with stickyRear := true } }

/-- `ipa2_add_flt_rule_usr`. Only the commit can fail the request as a whole. -/
def ipa2AddFltRule (s : IpaCtx) (req : AddFltRuleReq) (o : AddOutcome) :
    IpaCtx × AddFltRuleReq × ℤ :=
  if req.rules = [] ∨ req.ip = .max then (s, req, eInval)
  else
    let added := s.addRules req.key req.rules o.rules
    let req := { req with rules := added.2 }
    if req.commit then
      (added.1.commitFlt req.ip o.commitOk, req, if o.commitOk then 0 else ePerm)
    else (added.1, req, 0)

/-- `ipa_install_dflt_flt_rules`: an exception rule for each family, which then stays
last. Its callees' results are not looked at. -/
def ipaInstallDfltFltRule (s : IpaCtx) (ep : ℕ) (ip : IpaIpType) (o : AddOutcome) : IpaCtx :=
  let added := s.addFltRule (.ep ep ip) { action := .passToException } true (o.rules.headD {})
  (added.1.commitFlt ip o.commitOk).setStickyRear (.ep ep ip)

variable {s : IpaCtx}

/-- Neither a commit nor the sticky flag touches entries, counters or ids; another
object's id changes nothing in the tables. -/
theorem Grows.of_same {s' : IpaCtx} {s'' : IpaCtx} {pending : FltTblKey → List FltRule}
    (h : s.Grows s' pending) (hhw : s''.hwType = s'.hwType) (hrt : s''.rtTbls = s'.rtTbls)
    (hidr : ∀ i ∈ s'.idr, i ∈ s''.idr)
    (htbl : ∀ k, (s''.fltTbl k).entries = (s'.fltTbl k).entries ∧
      (s''.fltTbl k).ruleCnt = (s'.fltTbl k).ruleCnt) :
    s.Grows s'' pending := by
  refine ⟨hhw.trans h.hwType, hrt.trans h.rtTbls, ?_, ?_⟩
  · intro k
    rw [(htbl k).1, (htbl k).2]
    exact h.link k
  · intro hwf
    have hwf' := h.wellFormed hwf
    constructor
    · intro k e he i hi
      rw [(htbl k).1] at he
      exact hidr i (hwf'.idr k e he i hi)
    · intro k k' e e' i he he' hi hi'
      rw [(htbl k).1] at he
      rw [(htbl k').1] at he'
      exact hwf'.unique k k' e e' i he he' hi hi'

theorem entries_commitFlt (s : IpaCtx) (ip : IpaIpType) (ok : Bool) (k : FltTblKey) :
    ((s.commitFlt ip ok).fltTbl k).entries = (s.fltTbl k).entries ∧
      ((s.commitFlt ip ok).fltTbl k).ruleCnt = (s.fltTbl k).ruleCnt := by
  unfold commitFlt
  dsimp only
  split
  · exact ⟨rfl, rfl⟩
  · exact ⟨rfl, rfl⟩

theorem Grows.commitFlt {s' : IpaCtx} {pending : FltTblKey → List FltRule}
    (h : s.Grows s' pending) (ip : IpaIpType) (ok : Bool) :
    s.Grows (s'.commitFlt ip ok) pending :=
  h.of_same rfl rfl (fun _ hi => hi) (s'.entries_commitFlt ip ok)

theorem Grows.setStickyRear {s' : IpaCtx} {pending : FltTblKey → List FltRule}
    (h : s.Grows s' pending) (key : FltTblKey) : s.Grows (s'.setStickyRear key) pending := by
  refine h.of_same ?_ ?_ ?_ ?_
  · rfl
  · rfl
  · exact fun _ hi => hi
  intro k
  unfold IpaCtx.setStickyRear
  by_cases hk : k = key
  · simp [hk]
  · simp [update_of_ne hk]

def pendingRules (s : IpaCtx) (key : FltTblKey) (rules : List FltRule) :
    FltTblKey → List FltRule :=
  fun k => rules.flatMap fun rule => s.pendingRule key rule k

theorem pendingRules_singleton (s : IpaCtx) (key : FltTblKey) (rule : FltRule) :
    s.pendingRules key [rule] = s.pendingRule key rule := by
  funext k
  simp [pendingRules]

theorem Grows.pendingRules {s' : IpaCtx} {pending : FltTblKey → List FltRule}
    (h : s.Grows s' pending) (key : FltTblKey) (rules : List FltRule) :
    s'.pendingRules key rules = s.pendingRules key rules := by
  funext k
  simp only [IpaCtx.pendingRules, pendingRule, h.ruleValid]

theorem addRules_grows (key : FltTblKey) (rules : List FltRuleAdd) (os : List RuleOutcome) :
    s.Grows (s.addRules key rules os).1 (s.pendingRules key (rules.map (·.rule))) := by
  induction rules generalizing s os with
  | nil => exact Grows.refl _
  | cons r rs ih =>
    have hadd := s.addFltRule_grows key r.rule r.atRear (os.headD {})
    have hrest := ih (s := (s.addFltRule key r.rule r.atRear (os.headD {})).1) os.tail
    rw [hadd.pendingRules] at hrest
    have hall := hadd.trans hrest
    unfold addRules
    dsimp only
    split
    · exact hall
    · exact hall

theorem ipa2AddFltRule_grows (s : IpaCtx) (req : AddFltRuleReq) (o : AddOutcome) :
    s.Grows (s.ipa2AddFltRule req o).1 (s.pendingRules req.key (req.rules.map (·.rule))) := by
  have hadd := addRules_grows (s := s) req.key req.rules o.rules
  unfold ipa2AddFltRule
  split
  · exact Grows.refl _
  · dsimp only
    split
    · exact hadd.commitFlt _ _
    · exact hadd

theorem ipaInstallDfltFltRule_grows (s : IpaCtx) (ep : ℕ) (ip : IpaIpType) (o : AddOutcome) :
    s.Grows (s.ipaInstallDfltFltRule ep ip o)
      (s.pendingRule (.ep ep ip) { action := .passToException }) :=
  ((s.addFltRule_grows _ _ _ _).commitFlt _ _).setStickyRear _

/-- A request with one rule: its status says whether the rule was added, and then its
handle names the rule. -/
theorem ipa2AddFltRule_single (s : IpaCtx) (req : AddFltRuleReq) (r : FltRuleAdd)
    (hrules : req.rules = [r]) (hip : req.ip ≠ .max) (o : AddOutcome) :
    (∃ id, (s.addFltRule req.key r.rule r.atRear (o.rules.headD {})).2 = some id ∧
      (s.ipa2AddFltRule req o).2.1.rules = [{ r with fltRuleHdl := id, status := 0 }] ∧
      ⟨r.rule, some id⟩ ∈ ((s.ipa2AddFltRule req o).1.fltTbl req.key).entries) ∨
    ((s.addFltRule req.key r.rule r.atRear (o.rules.headD {})).2 = none ∧
      (s.ipa2AddFltRule req o).2.1.rules = [{ r with status := -1 }]) := by
  have hbad : ¬ (req.rules = [] ∨ req.ip = .max) := by
    rw [hrules]
    rintro (h | h)
    · cases h
    · exact hip h
  cases hadd : (s.addFltRule req.key r.rule r.atRear (o.rules.headD {})).2 with
  | some id =>
    have hmem := s.mem_of_addFltRule_eq_some hadd
    have hrun : s.addRules req.key req.rules o.rules =
        ((s.addFltRule req.key r.rule r.atRear (o.rules.headD {})).1,
          [{ r with fltRuleHdl := id, status := 0 }]) := by
      rw [hrules]
      simp only [addRules, hadd]
    left
    rw [ipa2AddFltRule, if_neg hbad, hrun]
    refine ⟨id, rfl, ?_, ?_⟩
    · dsimp only
      split <;> rfl
    · dsimp only
      split
      · rw [(entries_commitFlt _ _ _ _).1]
        exact hmem
      · exact hmem
  | none =>
    have hrun : s.addRules req.key req.rules o.rules =
        ((s.addFltRule req.key r.rule r.atRear (o.rules.headD {})).1,
          [{ r with status := -1 }]) := by
      rw [hrules]
      simp only [addRules, hadd]
    right
    rw [ipa2AddFltRule, if_neg hbad, hrun]
    refine ⟨rfl, ?_⟩
    dsimp only
    split <;> rfl

theorem ruleValid_of_status (s : IpaCtx) (req : AddFltRuleReq) (r : FltRuleAdd)
    (hrules : req.rules = [r]) (hip : req.ip ≠ .max) (o : AddOutcome)
    (hstatus : ∀ x ∈ (s.ipa2AddFltRule req o).2.1.rules, x.status = 0) :
    s.ruleValid r.rule = true := by
  rcases s.ipa2AddFltRule_single req r hrules hip o with ⟨id, hadd, _, _⟩ | ⟨_, hfail⟩
  · exact s.ruleValid_of_addFltRule_eq_some hadd
  · have hx := hstatus { r with status := -1 } (by
      rw [hfail]
      exact List.mem_singleton_self _)
    cases hx

theorem ipa2AddFltRule_rc {req : AddFltRuleReq} {o : AddOutcome} (hrules : req.rules ≠ [])
    (hip : req.ip ≠ .max) :
    (s.ipa2AddFltRule req o).2.2 = 0 ↔ (req.commit = true → o.commitOk = true) := by
  have hbad : ¬ (req.rules = [] ∨ req.ip = .max) := by
    rintro (h | h)
    · exact hrules h
    · exact hip h
  rw [ipa2AddFltRule, if_neg hbad]
  dsimp only
  cases req.commit <;> cases o.commitOk <;> simp [ePerm]

end IpaCtx

end X00TDCellular
