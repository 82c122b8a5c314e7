import X00TDCellular.UlRules
import X00TDCellular.WanDlInstalled

/-! Where the rules of the list come to stand in the tables of the egress pipe, and which
positions the modem is told. -/

namespace X00TDCellular
open Function

namespace FltTbl

variable {tbl : FltTbl}

/-- The entries behind those that the table has, but in front of a sticky last one. -/
def behind (tbl : FltTbl) (es : List FltEntry) : List FltEntry :=
  if tbl.stickyRear then tbl.entries.dropLast ++ es ++ tbl.entries.getLast?.toList
  else tbl.entries ++ es

theorem behind_cons (e : FltEntry) (es : List FltEntry)
    (h : tbl.stickyRear = true → tbl.entries ≠ []) :
    (tbl.linkOne e).behind es = tbl.behind (e :: es) := by
  have hflag : (tbl.linkOne e).stickyRear = tbl.stickyRear := rfl
  have hplace : (tbl.linkOne e).entries = tbl.place e true := rfl
  unfold behind
  rw [hflag, hplace]
  unfold place
  cases hsticky : tbl.stickyRear with
  | false => simp
  | true =>
    rcases List.eq_nil_or_concat tbl.entries with hnil | ⟨init, last, hsplit⟩
    · exact absurd hnil (h hsticky)
    · rw [List.concat_eq_append] at hsplit
      simp [hsplit]

/-- Entries linked one after the other stand in that order, unless the first of them takes
the place of a sticky last one that is not there. -/
theorem entries_placeRear (es : List FltEntry) (h : tbl.stickyRear = true → tbl.entries ≠ []) :
    (tbl.placeRear es).entries = tbl.behind es := by
  induction es generalizing tbl with
  | nil =>
    show tbl.entries = tbl.behind []
    unfold behind
    split
    · rcases List.eq_nil_or_concat tbl.entries with hnil | ⟨init, last, hsplit⟩
      · simp [hnil]
      · rw [List.concat_eq_append] at hsplit
        simp [hsplit]
    · simp
  | cons e es ih =>
    have hne : (tbl.linkOne e).stickyRear = true → (tbl.linkOne e).entries ≠ [] := by
      intro _ hnil
      have hmem := (tbl.place_perm e true).mem_iff.mpr List.mem_cons_self
      change tbl.place e true = [] at hnil
      rw [hnil] at hmem
      cases hmem
    exact (ih hne).trans (behind_cons e es h)

theorem entries_placeRear_empty (hsticky : tbl.stickyRear = true) (hnil : tbl.entries = [])
    (e : FltEntry) (es : List FltEntry) : (tbl.placeRear (e :: es)).entries = es ++ [e] := by
  have hone : (tbl.linkOne e).entries = [e] := by
    simp [linkOne, place, hsticky, hnil]
  have hflag : (tbl.linkOne e).stickyRear = true := hsticky
  show ((tbl.linkOne e).placeRear es).entries = es ++ [e]
  rw [entries_placeRear es (fun _ => by simp [hone]), behind, hflag, if_pos rfl, hone]
  rfl

theorem rotate_ne {e : FltEntry} {es : List FltEntry} (hnodup : (e :: es).Nodup)
    (hne : es ≠ []) : es ++ [e] ≠ e :: es := by
  cases es with
  | nil => exact absurd rfl hne
  | cons e' es =>
    intro h
    injection h with hhead _
    rw [hhead] at hnodup
    exact (List.nodup_cons.mp hnodup).1 List.mem_cons_self

/-- New entries stand behind the others in the order in which they were linked, but where
the table was empty, two or more of them are new and the last one is sticky. -/
theorem placeRear_eq_behind_iff {es : List FltEntry} (hnodup : es.Nodup) :
    (tbl.placeRear es).entries = tbl.behind es ↔
      ¬ (tbl.stickyRear = true ∧ tbl.entries = [] ∧ 2 ≤ es.length) := by
  by_cases hempty : tbl.stickyRear = true ∧ tbl.entries = []
  · obtain ⟨hsticky, hnil⟩ := hempty
    have hbehind : tbl.behind es = es := by
      simp [behind, hsticky, hnil]
    rw [hbehind]
    cases es with
    | nil => exact iff_of_true hnil (by simp)
    | cons e es =>
      rw [entries_placeRear_empty hsticky hnil]
      cases es with
      | nil => simp
      | cons e' es =>
        have hrotate := rotate_ne hnodup (List.cons_ne_nil e' es)
        exact iff_of_false hrotate (not_not.mpr ⟨hsticky, hnil, by simp⟩)
  · have hne : tbl.stickyRear = true → tbl.entries ≠ [] := fun hsticky hnil =>
      hempty ⟨hsticky, hnil⟩
    rw [entries_placeRear es hne]
    exact iff_of_true rfl fun h => hempty ⟨h.1, h.2.1⟩

/-- By how much the new entries of an empty table are moved to the front: the first one of
several takes the sticky last place. -/
def shift (tbl : FltTbl) (n : ℕ) : ℕ := if tbl.stickyRear = true ∧ 2 ≤ n then 1 else 0

/-- Which new entry of a table that was empty is found at a position. -/
theorem placeRear_getElem?_iff {es : List FltEntry} (hnil : tbl.entries = [])
    (hnodup : es.Nodup) {x c : ℕ} (hc : c < es.length) (hx : x ≤ c) :
    (tbl.placeRear es).entries[x]? = es[c]? ↔ x + tbl.shift es.length = c := by
  by_cases hmoved : tbl.stickyRear = true ∧ 2 ≤ es.length
  · obtain ⟨hsticky, hlen⟩ := hmoved
    have hshift : tbl.shift es.length = 1 := if_pos ⟨hsticky, hlen⟩
    rw [hshift]
    cases es with
    | nil => simp at hc
    | cons e es =>
      rw [entries_placeRear_empty hsticky hnil]
      rw [List.length_cons] at hc hlen
      have hinj (i j : ℕ) (hi : i < es.length + 1) : (e :: es)[i]? = (e :: es)[j]? ↔ i = j :=
        List.getElem?_inj (by rw [List.length_cons]; exact hi) hnodup
      by_cases hlast : x < es.length
      · have hfront : (es ++ [e])[x]? = (e :: es)[x+1]? := by
          rw [List.getElem?_append_left hlast, List.getElem?_cons_succ]
        rw [hfront]
        exact hinj (x+1) c (by omega)
      · -- the sticky place holds the first of the new entries
        have hx' : x = es.length := by omega
        have hback : (es ++ [e])[x]? = (e :: es)[0]? := by
          rw [hx', List.getElem?_append_right le_rfl, Nat.sub_self]
          rfl
        rw [hback, hinj 0 c (by omega)]
        omega
  · have hshift : tbl.shift es.length = 0 := if_neg hmoved
    have hsame : (tbl.placeRear es).entries = tbl.behind es :=
      (placeRear_eq_behind_iff hnodup).mpr fun h => hmoved ⟨h.1, h.2.2⟩
    have hbehind : tbl.behind es = es := by
      unfold behind
      split <;> simp [hnil]
    rw [hshift, hsame, hbehind, Nat.add_zero]
    exact List.getElem?_inj (by omega) hnodup

end FltTbl

namespace IpaCtx

variable {s : IpaCtx} {qs : List ExtIntfProp} {ip : IpaIpType}

theorem rules_newUlOf (s : IpaCtx) (q : ExtIntfProp) (ip : IpaIpType) :
    (s.newUlOf q ip).map (fun e => e.rule) =
      if ip ∈ q.families then [DriverState.ulFltRule q] else [] := by
  unfold newUlOf ExtIntfProp.families
  by_cases hmax : q.ip = .max
  · rw [if_pos hmax, if_pos hmax]
    cases ip with
    | v4 => rfl
    | v6 => rfl
    | max => rfl
  · rw [if_neg hmax, if_neg hmax]
    by_cases hip : ip = q.ip
    · simp [hip]
    · simp [hip]

/-- The new entries of a family are for the rules that belong to it, in list order. -/
theorem rules_newUl (s : IpaCtx) (ip : IpaIpType) (qs : List ExtIntfProp) :
    (s.newUl ip qs).map (fun e => e.rule) =
      (qs.filter fun q => ip ∈ q.families).map DriverState.ulFltRule := by
  induction qs generalizing s with
  | nil => rfl
  | cons q qs ih =>
    rw [newUl, List.map_append, rules_newUlOf, ih]
    by_cases hip : ip ∈ q.families
    · simp [hip]
    · simp [hip]

theorem length_newUlOf (s : IpaCtx) (q : ExtIntfProp) (ip : IpaIpType) :
    (s.newUlOf q ip).length = if ip ∈ q.families then 1 else 0 := by
  have hrules := congrArg List.length (rules_newUlOf s q ip)
  rw [List.length_map] at hrules
  rw [hrules]
  split <;> rfl

theorem length_newUl (s : IpaCtx) (ip : IpaIpType) (qs : List ExtIntfProp) :
    (s.newUl ip qs).length = qs.countP fun q => ip ∈ q.families := by
  have hrules := congrArg List.length (rules_newUl s ip qs)
  rw [List.length_map, List.length_map] at hrules
  rw [hrules, List.countP_eq_length_filter]

/-- Which of the new entries of a family is the one for rule `i`. -/
def ulPlace (qs : List ExtIntfProp) (i : ℕ) (ip : IpaIpType) : ℕ :=
  (qs.take i).countP fun q => ip ∈ q.families

theorem ulPlace_lt {i : ℕ} {q : ExtIntfProp} (hq : qs[i]? = some q) (hip : ip ∈ q.families) :
    ulPlace qs i ip < (s.newUl ip qs).length := by
  obtain ⟨hi, rfl⟩ := List.getElem?_eq_some_iff.mp hq
  have hsplit := List.take_append_drop i qs
  rw [List.drop_eq_getElem_cons hi] at hsplit
  have hcount : qs.countP (fun q => decide (ip ∈ q.families)) =
      ulPlace qs i ip + ((qs.drop (i+1)).countP (fun q => decide (ip ∈ q.families)) + 1) := by
    conv_lhs => rw [← hsplit]
    rw [List.countP_append, List.countP_cons_of_pos (by simpa using hip), ulPlace]
  rw [length_newUl, hcount]
  omega

/-- The stored handle is the id of the entry for its rule. -/
theorem newUl_of_hdl {i h : ℕ} {q : ExtIntfProp} (hq : qs[i]? = some q)
    (hh : (s.ulHdls qs)[i]? = some h) :
    (s.newUl (if q.ip = .max then .v4 else q.ip) qs)[ulPlace qs i
      (if q.ip = .max then .v4 else q.ip)]? = some ⟨DriverState.ulFltRule q, some h⟩ := by
  induction qs generalizing s i with
  | nil => cases hq
  | cons q' qs ih =>
    cases i with
    | zero =>
      cases hq
      cases hh
      unfold ulPlace newUl newUlOf
      by_cases hmax : q.ip = .max
      · simp [hmax]
      · simp [hmax]
    | succ i =>
      -- the entries of the first rule stand before those of the others
      have hrest := ih (s := s.linkUl q') (i := i) hq hh
      have hplace : ulPlace (q' :: qs) (i+1) (if q.ip = .max then .v4 else q.ip) =
          (s.newUlOf q' (if q.ip = .max then .v4 else q.ip)).length +
            ulPlace qs i (if q.ip = .max then .v4 else q.ip) := by
        rw [length_newUlOf, ulPlace, ulPlace, List.take_succ_cons, List.countP_cons]
        simp only [decide_eq_true_eq]
        omega
      rw [newUl, hplace, List.getElem?_append_right (Nat.le_add_right _ _),
        Nat.add_sub_cancel_left]
      exact hrest

/-- Tables of other pipes, and the global ones, keep their rules. -/
theorem sameRules_linkUls_other {k : FltTblKey} (hk : ∀ ip, k ≠ lanWanTbl ip) (s : IpaCtx)
    (qs : List ExtIntfProp) : ((s.linkUls qs).fltTbl k).SameRules (s.fltTbl k) := by
  have hrear (s : IpaCtx) (ip : IpaIpType) (rule : FltRule) :
      ((s.linkRear ip rule).fltTbl k).SameRules (s.fltTbl k) := by
    unfold linkRear commitFlt
    dsimp only
    rw [update_of_ne (hk ip)]
    split
    · exact ⟨rfl, rfl, rfl⟩
    · exact FltTbl.SameRules.refl _
  have hone (s : IpaCtx) (q : ExtIntfProp) :
      ((s.linkUl q).fltTbl k).SameRules (s.fltTbl k) := by
    unfold linkUl
    split
    · exact (hrear _ _ _).trans (hrear _ _ _)
    · exact hrear _ _ _
  induction qs generalizing s with
  | nil => exact FltTbl.SameRules.refl _
  | cons q qs ih => exact (ih (s.linkUl q)).trans (hone s q)

end IpaCtx

namespace DriverState
open IpaCtx

variable {d d' : DriverState} {o : UlOutcome}

/-- The list has come into the tables of the egress pipe. -/
structure UlLanded (d d' : DriverState) : Prop where
  /-- the new entries stand behind the old ones, in front of a sticky last one -/
  entries : ∀ ip ∈ [IpaIpType.v4, IpaIpType.v6], (d'.ipa.fltTbl (lanWanTbl ip)).entries =
    (d.ipa.fltTbl (lanWanTbl ip)).behind (d.ipa.newUl ip d.q6UlFilterRule)
  /-- they are for the rules of the family and for the wildcards, in list order -/
  rules : ∀ ip ∈ [IpaIpType.v4, IpaIpType.v6],
    (d.ipa.newUl ip d.q6UlFilterRule).map
        (fun e => (e.rule.action, e.rule.rtTblIdx, e.rule.eqAttribType, e.rule.eqAttrib)) =
      (d.q6UlFilterRule.filter fun q => q.ip = ip ∨ q.ip = .max).map
        fun q => (q.action, q.rtTblIdx, true, q.eqAttrib)
  others : ∀ k, k ≠ lanWanTbl .v4 → k ≠ lanWanTbl .v6 →
    (d'.ipa.fltTbl k).SameRules (d.ipa.fltTbl k)
  handles : ∀ i q, d.q6UlFilterRule[i]? = some q →
    (d.ipa.newUl (if q.ip = .max then .v4 else q.ip) d.q6UlFilterRule)[ulPlace
        d.q6UlFilterRule i (if q.ip = .max then .v4 else q.ip)]? =
      some ⟨ulFltRule q, some (d'.q6UlFilterRuleHdl i)⟩

/-- The first of several new rules takes the place of a sticky last rule that the table
does not have. -/
def TakesSticky (d : DriverState) (ip : IpaIpType) : Prop :=
  (d.ipa.fltTbl (lanWanTbl ip)).stickyRear = true ∧
    (d.ipa.fltTbl (lanWanTbl ip)).entries = [] ∧
    2 ≤ d.q6UlFilterRule.countP fun q => q.ip = ip ∨ q.ip = .max

theorem mem_families_iff {q : ExtIntfProp} {ip : IpaIpType}
    (hip : ip ∈ [IpaIpType.v4, IpaIpType.v6]) : ip ∈ q.families ↔ q.ip = ip ∨ q.ip = .max := by
  unfold ExtIntfProp.families
  by_cases hmax : q.ip = .max
  · rw [if_pos hmax]
    exact iff_of_true hip (Or.inr hmax)
  · rw [if_neg hmax, List.mem_singleton]
    constructor
    · exact fun h => Or.inl h.symm
    · rintro (h | h)
      · exact h.symm
      · exact absurd h hmax

theorem ulEntries_iff (hok : d.UlInstallsOk o) {ip : IpaIpType}
    (hip : ip ∈ [IpaIpType.v4, IpaIpType.v6]) :
    ((d.wwanAddUlFltRuleToIpa o).1.ipa.fltTbl (lanWanTbl ip)).entries =
        (d.ipa.fltTbl (lanWanTbl ip)).behind (d.ipa.newUl ip d.q6UlFilterRule) ↔
      ¬ d.TakesSticky ip := by
  have hcount : (d.ipa.newUl ip d.q6UlFilterRule).length =
      d.q6UlFilterRule.countP fun q => q.ip = ip ∨ q.ip = .max := by
    rw [length_newUl]
    apply List.countP_congr
    intro q _
    simp only [decide_eq_true_eq]
    exact mem_families_iff hip
  have hnodup : (d.ipa.newUl ip d.q6UlFilterRule).Nodup := (newUl_nodup _ _ _).of_map
  rw [(wwanAddUlFltRuleToIpa_of_ok hok).1, (sameRules_linkUls _ _ ip).1,
    FltTbl.placeRear_eq_behind_iff hnodup, hcount]
  rfl

/-- The new entries of a family are for its rules and the wildcards, in list order. -/
theorem newUl_families (d : DriverState) {ip : IpaIpType}
    (hip : ip ∈ [IpaIpType.v4, IpaIpType.v6]) :
    (d.ipa.newUl ip d.q6UlFilterRule).map
        (fun e => (e.rule.action, e.rule.rtTblIdx, e.rule.eqAttribType, e.rule.eqAttrib)) =
      (d.q6UlFilterRule.filter fun q => q.ip = ip ∨ q.ip = .max).map
        fun q => (q.action, q.rtTblIdx, true, q.eqAttrib) := by
  have hrules := congrArg
    (List.map fun r : FltRule => (r.action, r.rtTblIdx, r.eqAttribType, r.eqAttrib))
    (d.ipa.rules_newUl ip d.q6UlFilterRule)
  rw [List.map_map, List.map_map] at hrules
  have hfilter : (d.q6UlFilterRule.filter fun q => ip ∈ q.families) =
      d.q6UlFilterRule.filter fun q => q.ip = ip ∨ q.ip = .max := by
    apply List.filter_congr
    intro q _
    simp only [decide_eq_decide]
    exact mem_families_iff hip
  rw [hfilter] at hrules
  exact hrules

/-- No rule is linked in the table that belongs to no family. -/
theorem newUl_max (s : IpaCtx) (qs : List ExtIntfProp) : s.newUl .max qs = [] := by
  apply List.length_eq_zero_iff.mp
  rw [length_newUl, List.countP_eq_zero]
  intro q _
  unfold ExtIntfProp.families
  split
  · decide
  · rename_i hq
    simpa using fun heq => hq heq.symm

theorem sameRules_linkUls_outside (s : IpaCtx) (qs : List ExtIntfProp) {k : FltTblKey}
    (h4 : k ≠ lanWanTbl .v4) (h6 : k ≠ lanWanTbl .v6) :
    ((s.linkUls qs).fltTbl k).SameRules (s.fltTbl k) := by
  by_cases hmax : k = lanWanTbl .max
  · have hsame := s.sameRules_linkUls qs .max
    rw [newUl_max] at hsame
    rw [hmax]
    exact hsame
  · apply sameRules_linkUls_other
    intro ip
    cases ip with
    | v4 => exact h4
    | v6 => exact h6
    | max => exact hmax

/-- When every install is accepted, the rules land in the tables of their families exactly
when none of these is empty with a sticky last place that one of several rules takes. -/
theorem ulLanded_iff (hok : d.UlInstallsOk o) :
    UlLanded d (d.wwanAddUlFltRuleToIpa o).1 ↔ ¬ d.TakesSticky .v4 ∧ ¬ d.TakesSticky .v6 := by
  obtain ⟨hipa, hhdl, -, -, -⟩ := wwanAddUlFltRuleToIpa_of_ok hok
  constructor
  · intro h
    exact ⟨(ulEntries_iff hok (by simp)).mp (h.entries .v4 (by simp)),
      (ulEntries_iff hok (by simp)).mp (h.entries .v6 (by simp))⟩
  · rintro ⟨h4, h6⟩
    refine ⟨?_, fun ip hip => d.newUl_families hip, ?_, ?_⟩
    · intro ip hip
      apply (ulEntries_iff hok hip).mpr
      simp only [List.mem_cons, List.not_mem_nil, or_false] at hip
      rcases hip with rfl | rfl
      · exact h4
      · exact h6
    · intro k h4 h6
      rw [hipa]
      exact sameRules_linkUls_outside _ _ h4 h6
    · intro i q hq
      have hlt : i < (d.ipa.ulHdls d.q6UlFilterRule).length := by
        rw [length_ulHdls]
        exact (List.getElem?_eq_some_iff.mp hq).1
      have hget := List.getElem?_eq_getElem hlt
      have hstored : storeHdls d.q6UlFilterRuleHdl 0 (d.ipa.ulHdls d.q6UlFilterRule) (0+i) = _ :=
        storeHdls_getElem? hget
      rw [Nat.zero_add] at hstored
      rw [hhdl, hstored]
      exact newUl_of_hdl hq hget

/-- A wildcard and a v4 rule go into tables without a rule. -/
theorem ulLanded_wildcard_v4 :
    let d := atHandshake [q6Wildcard, { q6Wildcard with ip := .v4 }]
    d.UlInstallsOk {} ∧ UlLanded d (d.wwanAddUlFltRuleToIpa {}).1 := by
  have hok : (atHandshake [q6Wildcard, { q6Wildcard with ip := .v4 }]).UlInstallsOk {} :=
    ⟨rfl, rfl, by decide⟩
  refine ⟨hok, (ulLanded_iff hok).mpr ⟨?_, ?_⟩⟩
  · rintro ⟨hsticky, -, -⟩
    cases hsticky
  · rintro ⟨hsticky, -, -⟩
    cases hsticky

/-- The egress pipe after its default v4 rule could not be allocated: the sticky flag is set
all the same. -/
def withoutDefault (rules : List ExtIntfProp) : DriverState :=
  ((atHandshake rules).setupEgressPipe { dfltV4 := { rules := [{ entryOk := false }] } }).1

/-- Of two v4 rules the first one comes to stand last. -/
theorem not_ulLanded_withoutDefault :
    let d := withoutDefault
      [{ q6Wildcard with ip := .v4, rtTblIdx := 1 }, { q6Wildcard with ip := .v4, rtTblIdx := 2 }]
    d.UlInstallsOk {} ∧ ¬ UlLanded d (d.wwanAddUlFltRuleToIpa {}).1 ∧
      ((d.wwanAddUlFltRuleToIpa {}).1.ipa.fltTbl (lanWanTbl .v4)).entries.map
        (fun e => e.rule.rtTblIdx) = [2, 1] := by
  refine ⟨⟨rfl, rfl, by decide⟩, ?_, by decide⟩
  intro hlanded
  have hentries := hlanded.entries .v4 (by simp)
  revert hentries
  decide

section Indices

theorem getElem?_ulFilterIndexList (numV4 numV6 : ℕ) (qs : List ExtIntfProp) (i : ℕ) :
    (ulFilterIndexList numV4 numV6 qs)[i]? = qs[i]?.map fun q =>
      ⟨if q.ip = .v4 then numV4 + (qs.take i).countP (fun q => q.ip = .v4)
        else numV6 + (qs.take i).countP (fun q => q.ip ≠ .v4), q.filterHdl⟩ := by
  induction qs generalizing numV4 numV6 i with
  | nil => simp [ulFilterIndexList]
  | cons q qs ih =>
    unfold ulFilterIndexList
    cases i with
    | zero => by_cases hq : q.ip = .v4 <;> simp [hq]
    | succ i =>
      by_cases hq : q.ip = .v4
      · rw [if_pos hq, List.getElem?_cons_succ, ih, List.getElem?_cons_succ]
        simp [hq, Nat.add_assoc, Nat.add_comm 1]
      · rw [if_neg hq, List.getElem?_cons_succ, ih, List.getElem?_cons_succ]
        simp [hq, Nat.add_assoc, Nat.add_comm 1]

/-- The family that a rule is counted under. -/
def countedIp (q : ExtIntfProp) : IpaIpType := if q.ip = .v4 then .v4 else .v6

theorem countedIp_mem (q : ExtIntfProp) :
    countedIp q ∈ [IpaIpType.v4, IpaIpType.v6] ∧ countedIp q ∈ q.families := by
  unfold countedIp ExtIntfProp.families
  cases q.ip <;> simp

/-- Wildcards stand in the v4 table but are not counted there. -/
theorem ulPlace_eq (qs : List ExtIntfProp) (i : ℕ) (q : ExtIntfProp) :
    ulPlace qs i (countedIp q) =
      if q.ip = .v4 then (qs.take i).countP (fun q => q.ip = .v4) +
        (qs.take i).countP (fun q => q.ip = .max)
      else (qs.take i).countP (fun q => q.ip ≠ .v4) := by
  unfold ulPlace countedIp
  by_cases hq : q.ip = .v4
  · rw [if_pos hq, if_pos hq]
    induction qs.take i with
    | nil => rfl
    | cons q' qs ih =>
      have hfamily : IpaIpType.v4 ∈ q'.families ↔ q'.ip = .v4 ∨ q'.ip = .max :=
        mem_families_iff (by simp)
      simp only [List.countP_cons, ih, hfamily, decide_eq_true_eq]
      cases q'.ip <;> simp <;> omega
  · rw [if_neg hq, if_neg hq]
    apply List.countP_congr
    intro q' _
    unfold ExtIntfProp.families
    cases q'.ip <;> simp

/-- Each index of the message is the position at which the entry for its rule stands. -/
def UlIndicesReal (d d' : DriverState) (req : FltrInstalledNotif) : Prop :=
  ∀ i q x, d.q6UlFilterRule[i]? = some q → req.filterIndexList[i]? = some x →
    (d'.ipa.fltTbl (lanWanTbl (countedIp q))).entries[x.filterIndex]? =
      (d.ipa.newUl (countedIp q) d.q6UlFilterRule)[ulPlace d.q6UlFilterRule i (countedIp q)]?

/-- By how much the new entries of a family are moved to the front. -/
def ulShift (d : DriverState) (ip : IpaIpType) : ℕ :=
  (d.ipa.fltTbl (lanWanTbl ip)).shift (d.ipa.newUl ip d.q6UlFilterRule).length

/-- The message that is sent counts the rules of the cache. -/
theorem notif_of_sent {req : FltrInstalledNotif} (hok : d.UlInstallsOk o)
    (hsent : (d.wwanAddUlFltRuleToIpa o).1.qmiSent =
      d.qmiSent ++ [.filterInstalledNotif req]) : req = ulInstalledNotif d.q6UlFilterRule := by
  obtain ⟨hctx, halloc, hadd⟩ := hok
  rw [wwanAddUlFltRuleToIpa, if_neg (not_not.mpr hctx), if_neg (not_not.mpr halloc)] at hsent
  dsimp only at hsent
  have hkept : (d.addUlRules o.add 0 d.q6UlFilterRule).1.qmiSent = d.qmiSent := by
    rw [addUlRules_of_failures hadd]
  unfold qmiFilterNotifySend at hsent
  split at hsent
  · simp [note, hkept] at hsent
  · cases hnotify : o.notify with
    | notSent => simp [hnotify, note, hkept] at hsent
    | failed =>
      simp only [hnotify, note, hkept, List.append_cancel_left_eq] at hsent
      cases hsent
      rfl
    | accepted =>
      simp only [hnotify, hkept, List.append_cancel_left_eq] at hsent
      cases hsent
      rfl

/-- In an empty table the entry for a rule stands at an index exactly when that is its place
among the new ones, less the shift. -/
theorem entry_at_iff (hok : d.UlInstallsOk o)
    (hempty : ∀ ip ∈ [IpaIpType.v4, IpaIpType.v6],
      (d.ipa.fltTbl (lanWanTbl ip)).entries = [])
    {i : ℕ} {q : ExtIntfProp} (hq : d.q6UlFilterRule[i]? = some q) {x : ℕ}
    (hx : x ≤ ulPlace d.q6UlFilterRule i (countedIp q)) :
    ((d.wwanAddUlFltRuleToIpa o).1.ipa.fltTbl (lanWanTbl (countedIp q))).entries[x]? =
        (d.ipa.newUl (countedIp q) d.q6UlFilterRule)[ulPlace d.q6UlFilterRule i
          (countedIp q)]? ↔
      x + d.ulShift (countedIp q) = ulPlace d.q6UlFilterRule i (countedIp q) := by
  obtain ⟨hip, hmem⟩ := countedIp_mem q
  have hnodup : (d.ipa.newUl (countedIp q) d.q6UlFilterRule).Nodup := (newUl_nodup _ _ _).of_map
  rw [(wwanAddUlFltRuleToIpa_of_ok hok).1, (sameRules_linkUls _ _ _).1]
  exact FltTbl.placeRear_getElem?_iff (hempty _ hip) hnodup (ulPlace_lt hq hmem) hx

/-- The index that the message gives for a rule. -/
theorem ulInstalledNotif_getElem? {qs : List ExtIntfProp} {i : ℕ} {q : ExtIntfProp}
    (hq : qs[i]? = some q) :
    ∃ x, (ulInstalledNotif qs).filterIndexList[i]? = some x ∧
      x.filterIndex = if q.ip = .v4 then (qs.take i).countP (fun q => q.ip = .v4)
        else (qs.take i).countP (fun q => q.ip ≠ .v4) := by
  have hlist := getElem?_ulFilterIndexList 0 0 qs i
  rw [hq, Option.map_some, Nat.zero_add, Nat.zero_add] at hlist
  exact ⟨_, hlist, rfl⟩

/-- What it takes for the index of one rule to be right. -/
theorem realIndex_iff (hok : d.UlInstallsOk o)
    (hempty : ∀ ip ∈ [IpaIpType.v4, IpaIpType.v6],
      (d.ipa.fltTbl (lanWanTbl ip)).entries = [])
    {i : ℕ} {q : ExtIntfProp} (hq : d.q6UlFilterRule[i]? = some q) {x : FilterIndex}
    (hx : (ulInstalledNotif d.q6UlFilterRule).filterIndexList[i]? = some x) :
    ((d.wwanAddUlFltRuleToIpa o).1.ipa.fltTbl (lanWanTbl (countedIp q))).entries[x.filterIndex]? =
        (d.ipa.newUl (countedIp q) d.q6UlFilterRule)[ulPlace d.q6UlFilterRule i
          (countedIp q)]? ↔
      if q.ip = .v4 then
        (d.q6UlFilterRule.take i).countP (fun q => q.ip = .max) = d.ulShift .v4
      else d.ulShift .v6 = 0 := by
  obtain ⟨x', hx', hidx⟩ := ulInstalledNotif_getElem? hq
  obtain rfl : x' = x := Option.some.inj (hx'.symm.trans hx)
  have hplace := ulPlace_eq d.q6UlFilterRule i q
  by_cases hv4 : q.ip = .v4
  · have hcounted : countedIp q = .v4 := if_pos hv4
    rw [if_pos hv4] at hplace hidx ⊢
    rw [entry_at_iff hok hempty hq (by omega), hcounted]
    rw [hcounted] at hplace
    omega
  · have hcounted : countedIp q = .v6 := if_neg hv4
    rw [if_neg hv4] at hplace hidx ⊢
    rw [entry_at_iff hok hempty hq (by omega), hcounted]
    rw [hcounted] at hplace
    omega

/-- Only with a rule that is not for v4 alone is there anything to shift. -/
theorem exists_of_ulShift_ne_zero (hshift : d.ulShift .v6 ≠ 0) :
    ∃ (i : ℕ) (q : ExtIntfProp), d.q6UlFilterRule[i]? = some q ∧ q.ip ≠ .v4 := by
  have htwo : 2 ≤ (d.ipa.newUl .v6 d.q6UlFilterRule).length := by
    by_contra hfew
    exact hshift (if_neg fun h => hfew h.2)
  rw [length_newUl] at htwo
  obtain ⟨q, hmem, hfamily⟩ := List.countP_pos_iff.mp (Nat.lt_of_lt_of_le Nat.two_pos htwo)
  obtain ⟨i, hq⟩ := List.getElem?_of_mem hmem
  refine ⟨i, q, hq, fun hv4 => ?_⟩
  simp [ExtIntfProp.families, hv4] at hfamily

/-- Installed into empty tables, the rules stand where the message says exactly when no
wildcard comes before a v4 rule; a sticky last place that one of several rules takes shifts
the others by one. -/
theorem ulIndices_iff {req : FltrInstalledNotif} (hok : d.UlInstallsOk o)
    (hempty : ∀ ip ∈ [IpaIpType.v4, IpaIpType.v6],
      (d.ipa.fltTbl (lanWanTbl ip)).entries = [])
    (hsent : (d.wwanAddUlFltRuleToIpa o).1.qmiSent =
      d.qmiSent ++ [.filterInstalledNotif req]) :
    UlIndicesReal d (d.wwanAddUlFltRuleToIpa o).1 req ↔
      (∀ i q, d.q6UlFilterRule[i]? = some q → q.ip = .v4 →
        (d.q6UlFilterRule.take i).countP (fun q => q.ip = .max) = d.ulShift .v4) ∧
      d.ulShift .v6 = 0 := by
  obtain rfl := notif_of_sent hok hsent
  constructor
  · intro hreal
    refine ⟨?_, ?_⟩
    · intro i q hq hv4
      obtain ⟨x, hx, _⟩ := ulInstalledNotif_getElem? hq
      have hright := (realIndex_iff hok hempty hq hx).mp (hreal i q x hq hx)
      rw [if_pos hv4] at hright
      exact hright
    · by_contra hshift
      -- the first of the shifted rules is not where it is said to be
      obtain ⟨i, q, hq, hv4⟩ := exists_of_ulShift_ne_zero hshift
      obtain ⟨x, hx, _⟩ := ulInstalledNotif_getElem? hq
      have hright := (realIndex_iff hok hempty hq hx).mp (hreal i q x hq hx)
      rw [if_neg hv4] at hright
      exact hshift hright
  · rintro ⟨hv4s, hshift⟩ i q x hq hx
    apply (realIndex_iff hok hempty hq hx).mpr
    split
    · rename_i hv4
      exact hv4s i q hq hv4
    · exact hshift

/-- A v4 rule in front of a wildcard. -/
theorem ulIndices_v4_wildcard :
    let d := atHandshake [{ q6Wildcard with ip := .v4 }, q6Wildcard]
    d.UlInstallsOk {} ∧ UlIndicesReal d (d.wwanAddUlFltRuleToIpa {}).1
      (ulInstalledNotif d.q6UlFilterRule) := by
  have hok : (atHandshake [{ q6Wildcard with ip := .v4 }, q6Wildcard]).UlInstallsOk {} :=
    ⟨rfl, rfl, by decide⟩
  have hempty : ∀ ip ∈ [IpaIpType.v4, IpaIpType.v6],
      ((atHandshake [{ q6Wildcard with ip := .v4 }, q6Wildcard]).ipa.fltTbl
        (lanWanTbl ip)).entries = [] := fun _ _ => rfl
  refine ⟨hok, (ulIndices_iff hok hempty (by decide)).mpr ⟨?_, rfl⟩⟩
  intro i q hq hv4
  -- only the first rule is one for v4
  match i, hq with
  | 0, _ => rfl
  | 1, hq =>
    cases hq
    cases hv4

/-- Behind a wildcard the v4 rule is reported at position 0, where the wildcard stands. -/
theorem not_ulIndices_wildcard_v4 :
    let d := atHandshake [q6Wildcard, { q6Wildcard with ip := .v4 }]
    d.UlInstallsOk {} ∧
      (∀ ip ∈ [IpaIpType.v4, IpaIpType.v6], (d.ipa.fltTbl (lanWanTbl ip)).entries = []) ∧
      (d.wwanAddUlFltRuleToIpa {}).1.qmiSent =
        d.qmiSent ++ [.filterInstalledNotif (ulInstalledNotif d.q6UlFilterRule)] ∧
      ¬ UlIndicesReal d (d.wwanAddUlFltRuleToIpa {}).1 (ulInstalledNotif d.q6UlFilterRule) := by
  refine ⟨⟨rfl, rfl, by decide⟩, fun _ _ => rfl, by decide, ?_⟩
  intro hreal
  have hsecond := hreal 1 _ _ rfl rfl
  revert hsecond
  decide

end Indices

end DriverState

end X00TDCellular
