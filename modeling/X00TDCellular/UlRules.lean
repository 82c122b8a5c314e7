import X00TDCellular.RuleInstall

/-! The ported `wwan_add_ul_flt_rule_to_ipa` when all its installs succeed: what it leaves
in the filter tables, and which handles it stores. -/

namespace X00TDCellular
open Function

/-- The families that the rule is installed in. -/
def ExtIntfProp.families (q : ExtIntfProp) : List IpaIpType :=
  if q.ip = .max then [.v4, .v6] else [q.ip]

namespace FltTbl

/-- The same rules in the same order, whatever has been committed. -/
def SameRules (t t' : FltTbl) : Prop :=
  t.entries = t'.entries ∧ t.ruleCnt = t'.ruleCnt ∧ t.stickyRear = t'.stickyRear

theorem SameRules.refl (t : FltTbl) : t.SameRules t := ⟨rfl, rfl, rfl⟩

theorem SameRules.trans {t t' t'' : FltTbl} (h : t.SameRules t') (h' : t'.SameRules t'') :
    t.SameRules t'' :=
  ⟨h.1.trans h'.1, h.2.1.trans h'.2.1, h.2.2.trans h'.2.2⟩

def linkOne (tbl : FltTbl) (e : FltEntry) : FltTbl :=
  { tbl with entries := tbl.place e true, ruleCnt := tbl.ruleCnt+1 }

/-- Entries linked at the rear, one after the other. -/
def placeRear (tbl : FltTbl) (es : List FltEntry) : FltTbl := es.foldl linkOne tbl

theorem placeRear_append (tbl : FltTbl) (es es' : List FltEntry) :
    tbl.placeRear (es ++ es') = (tbl.placeRear es).placeRear es' :=
  List.foldl_append

theorem SameRules.linkOne {t t' : FltTbl} (h : t.SameRules t') (e : FltEntry) :
    (t.linkOne e).SameRules (t'.linkOne e) := by
  obtain ⟨hentries, hcnt, hsticky⟩ := h
  refine ⟨?_, ?_, hsticky⟩
  · show t.place e true = t'.place e true
    unfold place
    rw [hentries, hsticky]
  · show t.ruleCnt+1 = t'.ruleCnt+1
    rw [hcnt]

theorem SameRules.placeRear {t t' : FltTbl} (h : t.SameRules t') (es : List FltEntry) :
    (t.placeRear es).SameRules (t'.placeRear es) := by
  induction es generalizing t t' with
  | nil => exact h
  | cons e es ih => exact ih (h.linkOne e)

theorem placeRear_perm (tbl : FltTbl) (es : List FltEntry) :
    (tbl.placeRear es).entries.Perm (es ++ tbl.entries) := by
  induction es generalizing tbl with
  | nil => exact List.Perm.refl _
  | cons e es ih =>
    apply (ih (tbl.linkOne e)).trans
    apply ((tbl.place_perm e true).append_left es).trans
    exact List.perm_middle

theorem ruleCnt_placeRear (tbl : FltTbl) (es : List FltEntry) :
    (tbl.placeRear es).ruleCnt = tbl.ruleCnt + es.length := by
  induction es generalizing tbl with
  | nil => rfl
  | cons e es ih =>
    have hrest := ih (tbl.linkOne e)
    have hone : (tbl.linkOne e).ruleCnt = tbl.ruleCnt+1 := rfl
    have hstep : tbl.placeRear (e :: es) = (tbl.linkOne e).placeRear es := rfl
    rw [hstep, hrest, hone, List.length_cons]
    omega

theorem stickyRear_placeRear (tbl : FltTbl) (es : List FltEntry) :
    (tbl.placeRear es).stickyRear = tbl.stickyRear := by
  induction es generalizing tbl with
  | nil => rfl
  | cons e es ih => exact ih (tbl.linkOne e)

/-- A new entry does not disturb the order of the others. -/
theorem filter_place {p : FltEntry → Bool} {e : FltEntry} (he : p e = false) (tbl : FltTbl)
    (addRear : Bool) : (tbl.place e addRear).filter p = tbl.entries.filter p := by
  unfold place
  split
  · split
    · rcases List.eq_nil_or_concat tbl.entries with h | ⟨init, last, h⟩
      · simp [h, he]
      · rw [List.concat_eq_append] at h
        simp [h, he, List.filter_append]
    · simp [he, List.filter_append]
  · simp [he]

theorem filter_placeRear {p : FltEntry → Bool} {es : List FltEntry}
    (hes : ∀ e ∈ es, p e = false) (tbl : FltTbl) :
    (tbl.placeRear es).entries.filter p = tbl.entries.filter p := by
  induction es generalizing tbl with
  | nil => rfl
  | cons e es ih =>
    have hrest := ih (fun e' he' => hes e' (List.mem_cons_of_mem e he')) (tbl.linkOne e)
    have hone : (tbl.linkOne e).entries.filter p = tbl.entries.filter p :=
      filter_place (hes e List.mem_cons_self) tbl true
    exact hrest.trans hone

end FltTbl

namespace IpaCtx

/-- One more entry at the rear of its table, under the next id, in a family that is then
committed. -/
def linkRear (s : IpaCtx) (ip : IpaIpType) (rule : FltRule) : IpaCtx :=
  let tbl := s.fltTbl (lanWanTbl ip)
  commitFlt { s with
    fltTbl := update s.fltTbl (lanWanTbl ip) { tbl with
      entries := tbl.place ⟨rule, some (idrAlloc s.idr)⟩ true
      ruleCnt := tbl.ruleCnt+1 }
    idr := idrAlloc s.idr :: s.idr } ip true

/-- The copies of one cached rule of the modem. -/
def linkUl (s : IpaCtx) (q : ExtIntfProp) : IpaCtx :=
  if q.ip = .max then
    (s.linkRear .v4 (DriverState.ulFltRule q)).linkRear .v6 (DriverState.ulFltRule q)
  else s.linkRear q.ip (DriverState.ulFltRule q)

def linkUls (s : IpaCtx) (qs : List ExtIntfProp) : IpaCtx := qs.foldl linkUl s

/-- The handles that are stored: of a wildcard only that of its v4 copy. -/
def ulHdls (s : IpaCtx) : List ExtIntfProp → List ℕ
  | [] => []
  | q :: qs => idrAlloc s.idr :: (s.linkUl q).ulHdls qs

theorem length_ulHdls (s : IpaCtx) (qs : List ExtIntfProp) :
    (s.ulHdls qs).length = qs.length := by
  induction qs generalizing s with
  | nil => rfl
  | cons q qs ih =>
    rw [ulHdls, List.length_cons, List.length_cons, ih]

/-- A rule that is added has taken the next id. -/
theorem addFltRule_of_eq_some {s : IpaCtx} {key : FltTblKey} {rule : FltRule}
    {addRear : Bool} {o : RuleOutcome} {id : ℕ}
    (h : (s.addFltRule key rule addRear o).2 = some id) :
    id = idrAlloc s.idr ∧ (s.addFltRule key rule addRear o).1 =
      { s with
        fltTbl := update s.fltTbl key { s.fltTbl key with
          entries := (s.fltTbl key).place ⟨rule, some (idrAlloc s.idr)⟩ addRear
          ruleCnt := (s.fltTbl key).ruleCnt+1 }
        idr := idrAlloc s.idr :: s.idr } := by
  unfold addFltRule at h ⊢
  dsimp only at h ⊢
  split at h
  · cases h
  · rename_i hvalid
    rw [if_neg hvalid]
    split at h
    · cases h
    · rename_i hentry
      rw [if_neg hentry]
      split at h
      · cases h
      · rename_i hfull
        rw [if_neg hfull]
        split at h
        · cases h
        · rename_i hid
          rw [if_neg hid]
          cases h
          exact ⟨rfl, rfl⟩

/-- The rules of a table, without their handles. -/
def tblRules (s : IpaCtx) (ip : IpaIpType) : List FltRule :=
  (s.fltTbl (lanWanTbl ip)).entries.map (·.rule)

theorem lanWanTbl_injective : Injective lanWanTbl := by
  intro ip ip' h
  injection h

theorem entries_linkRear (s : IpaCtx) (ip ip' : IpaIpType) (rule : FltRule) :
    ((s.linkRear ip rule).fltTbl (lanWanTbl ip')).entries =
      if ip' = ip then (s.fltTbl (lanWanTbl ip)).place ⟨rule, some (idrAlloc s.idr)⟩ true
      else (s.fltTbl (lanWanTbl ip')).entries := by
  unfold linkRear
  rw [(entries_commitFlt _ _ _ _).1]
  by_cases hip : ip' = ip
  · rw [hip, if_pos rfl]
    dsimp only
    rw [update_self]
  · rw [if_neg hip]
    dsimp only
    rw [update_of_ne (fun h => hip (lanWanTbl_injective h))]

theorem mem_tblRules_linkRear {s : IpaCtx} {ip ip' : IpaIpType} {rule rule' : FltRule} :
    rule' ∈ (s.linkRear ip rule).tblRules ip' ↔
      rule' ∈ s.tblRules ip' ∨ (ip' = ip ∧ rule' = rule) := by
  unfold tblRules
  rw [entries_linkRear]
  by_cases hip : ip' = ip
  · rw [if_pos hip, ((FltTbl.place_perm _ _ true).map (·.rule)).mem_iff, List.map_cons,
      List.mem_cons, hip, or_comm]
    simp
  · rw [if_neg hip]
    simp [hip]

theorem mem_tblRules_linkUl {s : IpaCtx} {q : ExtIntfProp} {ip : IpaIpType}
    {rule : FltRule} :
    rule ∈ (s.linkUl q).tblRules ip ↔
      rule ∈ s.tblRules ip ∨ (ip ∈ q.families ∧ rule = DriverState.ulFltRule q) := by
  unfold linkUl ExtIntfProp.families
  by_cases hmax : q.ip = .max
  · rw [if_pos hmax, if_pos hmax, mem_tblRules_linkRear, mem_tblRules_linkRear, or_assoc,
      ← or_and_right]
    simp
  · rw [if_neg hmax, if_neg hmax, mem_tblRules_linkRear, List.mem_singleton]

/-- The tables hold what they held, and each rule of the list in its families. -/
theorem mem_tblRules_linkUls {s : IpaCtx} {qs : List ExtIntfProp} {ip : IpaIpType}
    {rule : FltRule} :
    rule ∈ (s.linkUls qs).tblRules ip ↔
      rule ∈ s.tblRules ip ∨
        ∃ q ∈ qs, ip ∈ q.families ∧ rule = DriverState.ulFltRule q := by
  induction qs generalizing s with
  | nil => simp [linkUls]
  | cons q qs ih =>
    have hrest := ih (s := s.linkUl q)
    rw [mem_tblRules_linkUl, or_assoc] at hrest
    rw [List.exists_mem_cons_iff]
    exact hrest

/-- The entries that one cached rule adds to a family's table. -/
def newUlOf (s : IpaCtx) (q : ExtIntfProp) (ip : IpaIpType) : List FltEntry :=
  if q.ip = .max then
    if ip = .v4 then [⟨DriverState.ulFltRule q, some (idrAlloc s.idr)⟩]
    else if ip = .v6 then
      [⟨DriverState.ulFltRule q, some (idrAlloc (idrAlloc s.idr :: s.idr))⟩]
    else []
  else if ip = q.ip then [⟨DriverState.ulFltRule q, some (idrAlloc s.idr)⟩]
  else []

/-- The entries that a list adds, in the order in which they are linked. -/
def newUl (s : IpaCtx) (ip : IpaIpType) : List ExtIntfProp → List FltEntry
  | [] => []
  | q :: qs => s.newUlOf q ip ++ (s.linkUl q).newUl ip qs

theorem sameRules_linkRear (s : IpaCtx) (ip ip' : IpaIpType) (rule : FltRule) :
    ((s.linkRear ip rule).fltTbl (lanWanTbl ip')).SameRules
      ((s.fltTbl (lanWanTbl ip')).placeRear
        (if ip' = ip then [⟨rule, some (idrAlloc s.idr)⟩] else [])) := by
  have hcommit (s : IpaCtx) (ok : Bool) (k : FltTblKey) :
      ((s.commitFlt ip ok).fltTbl k).SameRules (s.fltTbl k) := by
    unfold commitFlt
    dsimp only
    split
    · exact ⟨rfl, rfl, rfl⟩
    · exact FltTbl.SameRules.refl _
  unfold linkRear
  apply (hcommit _ _ _).trans
  by_cases hip : ip' = ip
  · rw [hip, if_pos rfl]
    dsimp only
    rw [update_self]
    exact FltTbl.SameRules.refl _
  · rw [if_neg hip]
    dsimp only
    rw [update_of_ne (fun h => hip (lanWanTbl_injective h))]
    exact FltTbl.SameRules.refl _

theorem sameRules_linkUl (s : IpaCtx) (q : ExtIntfProp) (ip : IpaIpType) :
    ((s.linkUl q).fltTbl (lanWanTbl ip)).SameRules
      ((s.fltTbl (lanWanTbl ip)).placeRear (s.newUlOf q ip)) := by
  unfold linkUl newUlOf
  by_cases hmax : q.ip = .max
  · rw [if_pos hmax, if_pos hmax]
    have h4 := s.sameRules_linkRear .v4 ip (DriverState.ulFltRule q)
    have h6 := (s.linkRear .v4 (DriverState.ulFltRule q)).sameRules_linkRear .v6 ip
      (DriverState.ulFltRule q)
    have hboth := h6.trans (h4.placeRear _)
    rw [← FltTbl.placeRear_append] at hboth
    cases ip with
    | v4 => exact hboth
    | v6 => exact hboth
    | max => exact hboth
  · rw [if_neg hmax, if_neg hmax]
    exact s.sameRules_linkRear q.ip ip (DriverState.ulFltRule q)

/-- The tables of the egress pipe after the list is installed. -/
theorem sameRules_linkUls (s : IpaCtx) (qs : List ExtIntfProp) (ip : IpaIpType) :
    ((s.linkUls qs).fltTbl (lanWanTbl ip)).SameRules
      ((s.fltTbl (lanWanTbl ip)).placeRear (s.newUl ip qs)) := by
  induction qs generalizing s with
  | nil => exact FltTbl.SameRules.refl _
  | cons q qs ih =>
    have hrest := ih (s.linkUl q)
    have hone := (s.sameRules_linkUl q ip).placeRear ((s.linkUl q).newUl ip qs)
    rw [← FltTbl.placeRear_append] at hone
    exact hrest.trans hone

theorem mem_idr_linkUl {s : IpaCtx} {q : ExtIntfProp} {x : ℕ}
    (hx : x = idrAlloc s.idr ∨ x ∈ s.idr) : x ∈ (s.linkUl q).idr := by
  have hone : x ∈ idrAlloc s.idr :: s.idr := List.mem_cons.mpr hx
  unfold linkUl
  split
  · exact List.mem_cons_of_mem _ hone
  · exact hone

/-- New entries have ids that were not in use. -/
theorem newUlOf_fresh {s : IpaCtx} {q : ExtIntfProp} {ip : IpaIpType} {e : FltEntry}
    (he : e ∈ s.newUlOf q ip) : ∃ x, e.id = some x ∧ x ∉ s.idr ∧ x ∈ (s.linkUl q).idr := by
  have hfirst := idrAlloc_notMem s.idr
  have hsecond := idrAlloc_notMem (idrAlloc s.idr :: s.idr)
  unfold newUlOf at he
  by_cases hmax : q.ip = .max
  · rw [if_pos hmax] at he
    split at he
    · rw [List.mem_singleton.mp he]
      exact ⟨_, rfl, hfirst, mem_idr_linkUl (Or.inl rfl)⟩
    · split at he
      · rw [List.mem_singleton.mp he]
        refine ⟨_, rfl, fun h => hsecond (List.mem_cons_of_mem _ h), ?_⟩
        unfold linkUl
        rw [if_pos hmax]
        exact List.mem_cons_self
      · cases he
  · rw [if_neg hmax] at he
    split at he
    · rw [List.mem_singleton.mp he]
      exact ⟨_, rfl, hfirst, mem_idr_linkUl (Or.inl rfl)⟩
    · cases he

theorem newUl_fresh {s : IpaCtx} {qs : List ExtIntfProp} {ip : IpaIpType} {e : FltEntry}
    (he : e ∈ s.newUl ip qs) : ∃ x, e.id = some x ∧ x ∉ s.idr := by
  induction qs generalizing s with
  | nil => cases he
  | cons q qs ih =>
    rcases List.mem_append.mp he with hone | hrest
    · obtain ⟨x, hid, hnot, _⟩ := newUlOf_fresh hone
      exact ⟨x, hid, hnot⟩
    · obtain ⟨x, hid, hnot⟩ := ih hrest
      exact ⟨x, hid, fun h => hnot (mem_idr_linkUl (Or.inr h))⟩

/-- No two new entries of a family share an id. -/
theorem newUl_nodup (s : IpaCtx) (ip : IpaIpType) (qs : List ExtIntfProp) :
    ((s.newUl ip qs).map (·.id)).Nodup := by
  induction qs generalizing s with
  | nil => exact List.nodup_nil
  | cons q qs ih =>
    rw [newUl, List.map_append, List.nodup_append]
    refine ⟨?_, ih (s.linkUl q), ?_⟩
    · unfold newUlOf
      split
      · split
        · exact List.nodup_singleton _
        · split
          · exact List.nodup_singleton _
          · exact List.nodup_nil
      · split
        · exact List.nodup_singleton _
        · exact List.nodup_nil
    · rintro _ hone _ hrest rfl
      obtain ⟨e, he, hid⟩ := List.mem_map.mp hone
      obtain ⟨e', he', hid'⟩ := List.mem_map.mp hrest
      obtain ⟨x, hx, _, hused⟩ := newUlOf_fresh he
      obtain ⟨x', hx', hfree⟩ := newUl_fresh he'
      have heq : x = x' := by
        have hsame : some x = some x' := by rw [← hx, ← hx', hid, hid']
        exact Option.some.inj hsame
      rw [heq] at hused
      exact hfree hused

/-- Stored handles are ids that were not in use. -/
theorem ulHdls_fresh {s : IpaCtx} {qs : List ExtIntfProp} {h : ℕ} (hh : h ∈ s.ulHdls qs) :
    h ∉ s.idr := by
  induction qs generalizing s with
  | nil => cases hh
  | cons q qs ih =>
    rcases List.mem_cons.mp hh with rfl | hrest
    · exact idrAlloc_notMem s.idr
    · exact fun hused => ih hrest (mem_idr_linkUl (Or.inr hused))

theorem ulHdls_nodup (s : IpaCtx) (qs : List ExtIntfProp) : (s.ulHdls qs).Nodup := by
  induction qs generalizing s with
  | nil => exact List.nodup_nil
  | cons q qs ih =>
    apply List.nodup_cons.mpr
    exact ⟨fun hrest => ulHdls_fresh hrest (mem_idr_linkUl (Or.inl rfl)), ih (s.linkUl q)⟩

/-- Handle `j` is that of the entry for rule `j`, of the v4 one for a wildcard. -/
theorem mem_newUl_of_hdl {s : IpaCtx} {qs : List ExtIntfProp} {j h : ℕ} {q : ExtIntfProp}
    (hq : qs[j]? = some q) (hh : (s.ulHdls qs)[j]? = some h) :
    ⟨DriverState.ulFltRule q, some h⟩ ∈
      s.newUl (if q.ip = .max then .v4 else q.ip) qs := by
  induction qs generalizing s j with
  | nil => cases hq
  | cons q' qs ih =>
    cases j with
    | zero =>
      cases hq
      cases hh
      apply List.mem_append_left
      unfold newUlOf
      by_cases hmax : q.ip = .max
      · rw [if_pos hmax, if_pos hmax, if_pos rfl]
        exact List.mem_singleton_self _
      · rw [if_neg hmax, if_neg hmax, if_pos rfl]
        exact List.mem_singleton_self _
    | succ j => exact List.mem_append_right _ (ih hq hh)

/-- Without a wildcard the handle of every new entry is stored. -/
theorem id_mem_ulHdls {s : IpaCtx} {qs : List ExtIntfProp} {ip : IpaIpType} {e : FltEntry}
    (hqs : ∀ q ∈ qs, q.ip ≠ .max) (he : e ∈ s.newUl ip qs) :
    ∃ h ∈ s.ulHdls qs, e.id = some h := by
  induction qs generalizing s with
  | nil => cases he
  | cons q qs ih =>
    rcases List.mem_append.mp he with hone | hrest
    · unfold newUlOf at hone
      rw [if_neg (hqs q List.mem_cons_self)] at hone
      split at hone
      · rw [List.mem_singleton.mp hone]
        exact ⟨_, List.mem_cons_self, rfl⟩
      · cases hone
    · obtain ⟨h, hh, hid⟩ := ih (fun q' hq' => hqs q' (List.mem_cons_of_mem q hq')) hrest
      exact ⟨h, List.mem_cons_of_mem _ hh, hid⟩

/-- The v6 copy of a wildcard has an id that no stored handle is. -/
theorem exists_unstored {s : IpaCtx} {qs : List ExtIntfProp} {q : ExtIntfProp}
    (hq : q ∈ qs) (hmax : q.ip = .max) :
    ∃ e ∈ s.newUl .v6 qs, ∃ x, e.id = some x ∧ x ∉ s.ulHdls qs := by
  induction qs generalizing s with
  | nil => cases hq
  | cons q' qs ih =>
    by_cases hhere : q'.ip = .max
    · refine ⟨⟨DriverState.ulFltRule q', some (idrAlloc (idrAlloc s.idr :: s.idr))⟩, ?_, _,
        rfl, ?_⟩
      · apply List.mem_append_left
        unfold newUlOf
        rw [if_pos hhere]
        exact List.mem_singleton_self _
      · have hused : idrAlloc (idrAlloc s.idr :: s.idr) ∈ (s.linkUl q').idr := by
          unfold linkUl
          rw [if_pos hhere]
          exact List.mem_cons_self
        intro hmem
        rcases List.mem_cons.mp hmem with hfirst | hrest
        · have hnot := idrAlloc_notMem (idrAlloc s.idr :: s.idr)
          rw [hfirst] at hnot
          exact hnot List.mem_cons_self
        · exact ulHdls_fresh hrest hused
    · have hrest : q ∈ qs := by
        rcases List.mem_cons.mp hq with rfl | hrest
        · exact absurd hmax hhere
        · exact hrest
      obtain ⟨e, he, x, hid, hnot⟩ := ih (s := s.linkUl q') hrest
      refine ⟨e, List.mem_append_right _ he, x, hid, ?_⟩
      intro hmem
      rcases List.mem_cons.mp hmem with rfl | hstored
      · obtain ⟨x', hid', hfree⟩ := newUl_fresh he
        rw [hid] at hid'
        cases hid'
        exact hfree (mem_idr_linkUl (Or.inl rfl))
      · exact hnot hstored

end IpaCtx

namespace DriverState

theorem ipa2AddFltRule_ulFltRuleReq {s : IpaCtx} {q : ExtIntfProp} {ip : IpaIpType}
    {o : AddOutcome} {id : ℕ} (hip : ip ≠ .max) (hcommit : o.commitOk = true)
    (hadd : (s.addFltRule (lanWanTbl ip) (ulFltRule q) true (o.rules.headD {})).2 = some id) :
    (s.ipa2AddFltRule (ulFltRuleReq q ip) o).1 = s.linkRear ip (ulFltRule q) := by
  have hbad : ¬ ((ulFltRuleReq q ip).rules = [] ∨ (ulFltRuleReq q ip).ip = .max) := by
    rintro (h | h)
    · cases h
    · exact hip h
  have hreq : (ulFltRuleReq q ip).commit = true := rfl
  have hrun : (s.addRules (ulFltRuleReq q ip).key (ulFltRuleReq q ip).rules o.rules).1 =
      (s.addFltRule (lanWanTbl ip) (ulFltRule q) true (o.rules.headD {})).1 := by
    unfold ulFltRuleReq IpaCtx.addRules
    dsimp only
    split
    · rfl
    · rfl
  rw [IpaCtx.ipa2AddFltRule, if_neg hbad]
  dsimp only
  rw [if_pos hreq, hcommit, hrun, (IpaCtx.addFltRule_of_eq_some hadd).2]
  rfl

/-- An install that reports no failure has linked its rule. -/
theorem addFltRule_ulFltRuleReq {d : DriverState} {q : ExtIntfProp} {ip : IpaIpType}
    {o : AddOutcome} (hip : ip ≠ .max)
    (hok : (d.addFltRule (ulFltRuleReq q ip) o).1.failures = d.failures) :
    (d.addFltRule (ulFltRuleReq q ip) o).1 =
        { d with ipa := d.ipa.linkRear ip (ulFltRule q) } ∧
      (d.addFltRule (ulFltRuleReq q ip) o).2.2 = 0 ∧
      hdlOf (d.addFltRule (ulFltRuleReq q ip) o).2.1 = idrAlloc d.ipa.idr := by
  obtain ⟨hrc, hstatus⟩ := addFltRule_of_failures hok
  have hcommit : o.commitOk = true :=
    (IpaCtx.ipa2AddFltRule_rc (List.cons_ne_nil _ _) hip).mp hrc rfl
  rcases d.ipa.ipa2AddFltRule_single (ulFltRuleReq q ip) _ rfl hip o with
    ⟨id, hadd, hrules, _⟩ | ⟨_, hrules⟩
  · have hgood : decide ((d.ipa.ipa2AddFltRule (ulFltRuleReq q ip) o).2.2 = 0 ∧
        ∀ r ∈ (d.ipa.ipa2AddFltRule (ulFltRuleReq q ip) o).2.1.rules, r.status = 0) = true :=
      decide_eq_true ⟨hrc, hstatus⟩
    refine ⟨?_, hrc, ?_⟩
    · unfold addFltRule
      dsimp only
      rw [hgood, note_true, ipa2AddFltRule_ulFltRuleReq hip hcommit hadd]
    · show (((d.ipa.ipa2AddFltRule (ulFltRuleReq q ip) o).2.1.rules.head?.map _).getD 0) = _
      rw [hrules, (IpaCtx.addFltRule_of_eq_some hadd).1]
      rfl
  · -- a rejected rule shows in its status
    have hx := hstatus _ (by
      show _ ∈ (d.ipa.ipa2AddFltRule (ulFltRuleReq q ip) o).2.1.rules
      rw [hrules]
      exact List.mem_singleton_self _)
    cases hx

theorem addUlRuleFor_of_failures {d : DriverState} {i : ℕ} {q : ExtIntfProp}
    {ip : IpaIpType} {o : AddOutcome} (hip : ip ≠ .max)
    (hok : (d.addUlRuleFor i q ip o).1.failures = d.failures) :
    d.addUlRuleFor i q ip o = ({ d with
      ipa := d.ipa.linkRear ip (ulFltRule q)
      q6UlFilterRuleHdl := update d.q6UlFilterRuleHdl i (idrAlloc d.ipa.idr) }, 0) := by
  have hadded : (d.addFltRule (ulFltRuleReq q ip) o).1.failures = d.failures := by
    unfold addUlRuleFor at hok
    dsimp only at hok
    split at hok
    · exact hok
    · exact hok
  obtain ⟨hstate, hrc, hhdl⟩ := addFltRule_ulFltRuleReq hip hadded
  unfold addUlRuleFor
  dsimp only
  rw [if_pos hrc, hhdl, hstate]

/-- One cached rule, with both its copies if it is a wildcard. -/
theorem addUlRule_of_failures {d : DriverState} {i : ℕ} {q : ExtIntfProp}
    {o : IpaIpType → AddOutcome} (hok : (d.addUlRule i q o).1.failures = d.failures) :
    d.addUlRule i q o = ({ d with
      ipa := d.ipa.linkUl q
      q6UlFilterRuleHdl := update d.q6UlFilterRuleHdl i (idrAlloc d.ipa.idr) }, 0) := by
  unfold addUlRule at hok ⊢
  unfold IpaCtx.linkUl
  by_cases hmax : q.ip = .max
  · rw [if_pos hmax] at hok ⊢
    rw [if_pos hmax]
    dsimp only at hok ⊢
    -- the first copy fails nothing, so it is known, and then the second one is
    have hle := (d.addUlRuleFor_installs i q .v4 (o .v4)).failures
    have hle' := (addFltRule_installs (d.addUlRuleFor i q .v4 (o .v4)).1 (ulFltRuleReq q .v6)
      (o .v6)).failures
    have hv4 := addUlRuleFor_of_failures (by decide)
      (show (d.addUlRuleFor i q .v4 (o .v4)).1.failures = d.failures by omega)
    rw [hv4] at hok ⊢
    dsimp only at hok ⊢
    rw [(addFltRule_ulFltRuleReq (by decide) hok).1]
  · rw [if_neg hmax] at hok ⊢
    rw [if_neg hmax]
    exact addUlRuleFor_of_failures hmax hok

/-- Stores handles from index `i` on. -/
def storeHdls (hdl : ℕ → ℕ) (i : ℕ) : List ℕ → ℕ → ℕ
  | [] => hdl
  | x :: xs => storeHdls (update hdl i x) (i+1) xs

theorem storeHdls_of_lt {hdl : ℕ → ℕ} {i j : ℕ} (h : j < i) (xs : List ℕ) :
    storeHdls hdl i xs j = hdl j := by
  induction xs generalizing hdl i with
  | nil => rfl
  | cons x xs ih =>
    rw [storeHdls, ih (Nat.lt_succ_of_lt h), update_of_ne (Nat.ne_of_lt h)]

theorem storeHdls_getElem? {hdl : ℕ → ℕ} {i j x : ℕ} {xs : List ℕ} (h : xs[j]? = some x) :
    storeHdls hdl i xs (i+j) = x := by
  induction xs generalizing hdl i j with
  | nil => cases h
  | cons y ys ih =>
    cases j with
    | zero =>
      cases h
      show storeHdls (update hdl i x) (i+1) ys i = x
      rw [storeHdls_of_lt (Nat.lt_add_one i), update_self]
    | succ j =>
      have hrest := @ih (update hdl i y) (i+1) j h
      rw [storeHdls, ← hrest]
      congr 1
      omega

/-- The loop, from rule `i` on. -/
theorem addUlRules_of_failures {d : DriverState} {o : ℕ → IpaIpType → AddOutcome} {i : ℕ}
    {qs : List ExtIntfProp} (hok : (d.addUlRules o i qs).1.failures = d.failures) :
    d.addUlRules o i qs = ({ d with
      ipa := d.ipa.linkUls qs
      q6UlFilterRuleHdl := storeHdls d.q6UlFilterRuleHdl i (d.ipa.ulHdls qs) }, 0) := by
  induction qs generalizing d i with
  | nil => rfl
  | cons q qs ih =>
    have hle := (d.addUlRule_installs i q (o i)).failures
    have hle' := ((d.addUlRule i q (o i)).1.addUlRules_installs o (i+1) qs).failures
    have hsplit : (d.addUlRules o i (q :: qs)).1 =
        ((d.addUlRule i q (o i)).1.addUlRules o (i+1) qs).1 := rfl
    rw [hsplit] at hok
    have hfirst := addUlRule_of_failures
      (show (d.addUlRule i q (o i)).1.failures = d.failures by omega)
    have hrest := ih (d := (d.addUlRule i q (o i)).1) (i := i+1) (by omega)
    unfold addUlRules
    dsimp only
    rw [hrest, hfirst]
    rfl

/-- Every rule of the cache has been installed in its families. -/
def UlInstallsOk (d : DriverState) (o : UlOutcome) : Prop :=
  d.ipaQmiCtx = true ∧ o.allocOk = true ∧
    (d.addUlRules o.add 0 d.q6UlFilterRule).1.failures = d.failures

theorem qmiFilterNotifySend_keeps (d : DriverState) (req : FltrInstalledNotif)
    (o : SendOutcome) :
    (d.qmiFilterNotifySend req o).1.ipa = d.ipa ∧
      (d.qmiFilterNotifySend req o).1.q6UlFilterRuleHdl = d.q6UlFilterRuleHdl ∧
      (d.qmiFilterNotifySend req o).1.q6UlFilterRule = d.q6UlFilterRule ∧
      (d.qmiFilterNotifySend req o).1.egressSet = d.egressSet := by
  unfold qmiFilterNotifySend
  split
  · exact ⟨rfl, rfl, rfl, rfl⟩
  · cases o with
    | notSent => exact ⟨rfl, rfl, rfl, rfl⟩
    | failed => exact ⟨rfl, rfl, rfl, rfl⟩
    | accepted => exact ⟨rfl, rfl, rfl, rfl⟩

/-- The tables, the handles and their number. Whether the modem could be notified makes
no difference to these. -/
theorem wwanAddUlFltRuleToIpa_of_ok {d : DriverState} {o : UlOutcome}
    (hok : d.UlInstallsOk o) :
    (d.wwanAddUlFltRuleToIpa o).1.ipa = d.ipa.linkUls d.q6UlFilterRule ∧
      (d.wwanAddUlFltRuleToIpa o).1.q6UlFilterRuleHdl =
        storeHdls d.q6UlFilterRuleHdl 0 (d.ipa.ulHdls d.q6UlFilterRule) ∧
      (d.wwanAddUlFltRuleToIpa o).1.oldNumQ6Rule = d.q6UlFilterRule.length ∧
      (d.wwanAddUlFltRuleToIpa o).1.q6UlFilterRule = d.q6UlFilterRule ∧
      (d.wwanAddUlFltRuleToIpa o).1.egressSet = d.egressSet := by
  obtain ⟨hctx, halloc, hadd⟩ := hok
  obtain ⟨hipa, hhdl, hq6, hegress⟩ := qmiFilterNotifySend_keeps
    (d.addUlRules o.add 0 d.q6UlFilterRule).1 (ulInstalledNotif d.q6UlFilterRule) o.notify
  have hrules := addUlRules_of_failures hadd
  rw [wwanAddUlFltRuleToIpa, if_neg (not_not.mpr hctx), if_neg (not_not.mpr halloc)]
  dsimp only
  rw [hipa, hhdl, hq6, hegress, hrules]
  exact ⟨rfl, rfl, rfl, rfl, rfl⟩

/-- A call that reports no failure has installed every rule. -/
theorem ulInstallsOk_of_failures {d : DriverState} {o : UlOutcome}
    (hok : (d.wwanAddUlFltRuleToIpa o).1.failures = d.failures) :
    d.UlInstallsOk o ∧ (d.wwanAddUlFltRuleToIpa o).2 = 0 := by
  by_cases hctx : d.ipaQmiCtx = true
  · by_cases halloc : o.allocOk = true
    · have hle := (d.addUlRules_installs o.add 0 d.q6UlFilterRule).failures
      have hle' := (qmiFilterNotifySend_installs (d.addUlRules o.add 0 d.q6UlFilterRule).1
        (ulInstalledNotif d.q6UlFilterRule) o.notify).failures
      rw [wwanAddUlFltRuleToIpa, if_neg (not_not.mpr hctx), if_neg (not_not.mpr halloc)]
        at hok ⊢
      dsimp only at hok ⊢
      have hadd : (d.addUlRules o.add 0 d.q6UlFilterRule).1.failures = d.failures := by omega
      refine ⟨⟨hctx, halloc, hadd⟩, ?_⟩
      -- the notification is the last call that could have failed
      have hsent : ((d.addUlRules o.add 0 d.q6UlFilterRule).1.qmiFilterNotifySend
          (ulInstalledNotif d.q6UlFilterRule) o.notify).2 = 0 := by
        rw [← hadd] at hok
        unfold qmiFilterNotifySend at hok ⊢
        split
        · rename_i hbad
          rw [if_pos hbad] at hok
          simp [note] at hok
        · rename_i hgood
          rw [if_neg hgood] at hok
          cases hnotify : o.notify with
          | notSent => simp [hnotify, note] at hok
          | failed => simp [hnotify, note] at hok
          | accepted => rfl
      rw [if_pos hsent, addUlRules_of_failures hadd]
    · rw [wwanAddUlFltRuleToIpa, if_neg (not_not.mpr hctx), if_pos halloc] at hok
      simp [note] at hok
  · rw [wwanAddUlFltRuleToIpa, if_pos hctx] at hok
    simp [note] at hok

end DriverState

end X00TDCellular
