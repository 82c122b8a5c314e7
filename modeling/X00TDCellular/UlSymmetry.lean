import X00TDCellular.UlDelete
import X00TDCellular.WanDlInstalled

/-! When the delete undoes the install. It goes by the handles, which know of one copy of
each rule, and commits by a family that it takes from the array of the moment and
translates once more. -/

namespace X00TDCellular
open Function

namespace IpaCtx

section Linked

variable {s : IpaCtx} {qs : List ExtIntfProp}

/-- The table after the install: the new entries and the old ones. -/
theorem mem_entries_linkUls {ip : IpaIpType} {e : FltEntry} :
    e ∈ ((s.linkUls qs).fltTbl (lanWanTbl ip)).entries ↔
      e ∈ s.newUl ip qs ∨ e ∈ (s.fltTbl (lanWanTbl ip)).entries := by
  rw [(s.sameRules_linkUls qs ip).1, (FltTbl.placeRear_perm _ _).mem_iff, List.mem_append]

/-- Ids of old entries were in use before the install. -/
theorem id_notMem_of_fresh (hwf : s.WellFormed) {ip : IpaIpType} {e : FltEntry} {x : ℕ}
    (he : e ∈ (s.fltTbl (lanWanTbl ip)).entries) (hx : x ∉ s.idr) : e.id ≠ some x :=
  fun hid => hx (hwf.idr _ e he x hid)

/-- The install leaves every stored handle to be deleted, and none besides when no rule
is a wildcard. -/
theorem pending_linkUls (hwf : s.WellFormed) (hwf' : (s.linkUls qs).WellFormed)
    (hqs : ∀ q ∈ qs, q.ip ≠ .max) :
    (s.linkUls qs).Pending (fun ip => (s.fltTbl (lanWanTbl ip)).ruleCnt) (s.ulHdls qs) := by
  have hold (ip : IpaIpType) (x : ℕ) (hx : x ∉ s.idr) :
      (s.fltTbl (lanWanTbl ip)).entries.countP (·.id = some x) = 0 := by
    apply List.countP_eq_zero.mpr
    intro e he hid
    exact id_notMem_of_fresh hwf he hx (of_decide_eq_true hid)
  refine ⟨hwf', s.ulHdls_nodup qs, ?_, ?_⟩
  · intro h hh
    obtain ⟨j, hj⟩ := List.getElem?_of_mem hh
    have hlt : j < qs.length := by
      rw [← s.length_ulHdls qs]
      exact (List.getElem?_eq_some_iff.mp hj).1
    have hq := List.getElem?_eq_getElem hlt
    have hip := hqs qs[j] (List.getElem_mem hlt)
    have hmem := mem_newUl_of_hdl hq hj
    rw [if_neg hip] at hmem
    refine ⟨qs[j].ip, hip, ?_⟩
    rw [(s.sameRules_linkUls qs _).1, (FltTbl.placeRear_perm _ _).countP_eq,
      List.countP_append, hold _ h (ulHdls_fresh hh)]
    have hcount : ((s.newUl qs[j].ip qs).map (·.id)).count (some h) = 1 :=
      List.count_eq_one_of_mem (s.newUl_nodup _ qs) (List.mem_map_of_mem hmem)
    rw [List.count, List.countP_map] at hcount
    rw [Nat.add_zero, ← hcount]
    apply List.countP_congr
    intro e _
    simp
  · intro ip
    rw [(s.sameRules_linkUls qs ip).2.1, FltTbl.ruleCnt_placeRear,
      (s.sameRules_linkUls qs ip).1, (FltTbl.placeRear_perm _ _).countP_eq,
      List.countP_append]
    have hnew : (s.newUl ip qs).countP (·.id ∈ (s.ulHdls qs).map some) =
        (s.newUl ip qs).length := by
      apply List.countP_eq_length.mpr
      intro e he
      obtain ⟨h, hh, hid⟩ := id_mem_ulHdls hqs he
      apply decide_eq_true
      rw [hid]
      exact List.mem_map_of_mem hh
    have hnone : (s.fltTbl (lanWanTbl ip)).entries.countP
        (·.id ∈ (s.ulHdls qs).map some) = 0 := by
      apply List.countP_eq_zero.mpr
      intro e he hid
      obtain ⟨h, hh, heq⟩ := List.mem_map.mp (of_decide_eq_true hid)
      exact id_notMem_of_fresh hwf he (ulHdls_fresh hh) heq.symm
    rw [hnew, hnone, Nat.add_zero]

/-- What is left of a table when the stored handles are taken out of it. -/
theorem filter_linkUls (hwf : s.WellFormed) (hqs : ∀ q ∈ qs, q.ip ≠ .max)
    (ip : IpaIpType) :
    ((s.linkUls qs).fltTbl (lanWanTbl ip)).entries.filter
        (·.id ∉ (s.ulHdls qs).map some) = (s.fltTbl (lanWanTbl ip)).entries := by
  rw [(s.sameRules_linkUls qs ip).1, FltTbl.filter_placeRear]
  · apply List.filter_eq_self.mpr
    intro e he
    apply decide_eq_true
    intro hid
    obtain ⟨h, hh, heq⟩ := List.mem_map.mp hid
    exact id_notMem_of_fresh hwf he (ulHdls_fresh hh) heq.symm
  · intro e he
    obtain ⟨h, hh, hid⟩ := id_mem_ulHdls hqs he
    apply decide_eq_false
    rw [hid]
    exact not_not.mpr (List.mem_map_of_mem hh)

/-- The hardware has the tables of the families that the list is for. -/
theorem hw_linkRear {ip ip' : IpaIpType} {rule : FltRule}
    (h : ip' = ip ∨ (s.fltTbl (lanWanTbl ip')).hw = (s.fltTbl (lanWanTbl ip')).entries) :
    ((s.linkRear ip rule).fltTbl (lanWanTbl ip')).hw =
      ((s.linkRear ip rule).fltTbl (lanWanTbl ip')).entries := by
  unfold linkRear commitFlt
  dsimp only
  by_cases hip : ip' = ip
  · rw [if_pos ⟨hip, rfl⟩]
  · have hkey : ¬ ((lanWanTbl ip').ip = ip ∧ true = true) := fun hboth => hip hboth.1
    rw [if_neg hkey, update_of_ne (fun heq => hip (lanWanTbl_injective heq))]
    exact h.resolve_left hip

theorem hw_linkUl {q : ExtIntfProp} {ip : IpaIpType}
    (h : ip ∈ q.families ∨
      (s.fltTbl (lanWanTbl ip)).hw = (s.fltTbl (lanWanTbl ip)).entries) :
    ((s.linkUl q).fltTbl (lanWanTbl ip)).hw = ((s.linkUl q).fltTbl (lanWanTbl ip)).entries := by
  unfold linkUl
  unfold ExtIntfProp.families at h
  by_cases hmax : q.ip = .max
  · rw [if_pos hmax] at h ⊢
    apply hw_linkRear
    by_cases h6 : ip = .v6
    · exact Or.inl h6
    · right
      apply hw_linkRear
      rcases h with hmem | hhw
      · left
        simpa [h6] using hmem
      · exact Or.inr hhw
  · rw [if_neg hmax] at h ⊢
    apply hw_linkRear
    rcases h with hmem | hhw
    · exact Or.inl (List.mem_singleton.mp hmem)
    · exact Or.inr hhw

theorem hw_linkUls {ip : IpaIpType}
    (h : (∃ q ∈ qs, ip ∈ q.families) ∨
      (s.fltTbl (lanWanTbl ip)).hw = (s.fltTbl (lanWanTbl ip)).entries) :
    ((s.linkUls qs).fltTbl (lanWanTbl ip)).hw =
      ((s.linkUls qs).fltTbl (lanWanTbl ip)).entries := by
  induction qs generalizing s with
  | nil =>
    rcases h with ⟨q, hq, _⟩ | hhw
    · cases hq
    · exact hhw
  | cons q qs ih =>
    apply ih (s := s.linkUl q)
    rcases h with ⟨q', hq', hip⟩ | hhw
    · rcases List.mem_cons.mp hq' with rfl | hrest
      · exact Or.inr (hw_linkUl (Or.inl hip))
      · exact Or.inl ⟨q', hrest, hip⟩
    · exact Or.inr (hw_linkUl (Or.inr hhw))

end Linked

end IpaCtx

namespace DriverState

/-- The turns of the loop. -/
def delCalls (hdl : ℕ → ℕ) (commitOk : ℕ → Bool) (i : ℕ) :
    List ExtIntfProp → List IpaCtx.DelCall
  | [] => []
  | q :: qs => ⟨hdl i, translateIp q.ip, commitOk i⟩ :: delCalls hdl commitOk (i+1) qs

theorem delCalls_getElem? (hdl : ℕ → ℕ) (commitOk : ℕ → Bool) (i j : ℕ)
    (qs : List ExtIntfProp) :
    (delCalls hdl commitOk i qs)[j]? =
      qs[j]?.map fun q => ⟨hdl (i+j), translateIp q.ip, commitOk (i+j)⟩ := by
  induction qs generalizing i j with
  | nil => rfl
  | cons q qs ih =>
    cases j with
    | zero => rfl
    | succ j =>
      show (delCalls hdl commitOk (i+1) qs)[j]? = qs[j]?.map _
      rw [ih, show i+1+j = i+(j+1) by omega]

theorem translateIp_ne_max (ip : IpaIpType) : translateIp ip ≠ .max := by
  cases ip <;> decide

/-- One request of the loop: its rule by the handle, its commit by the family. -/
theorem delFltRule_ulDelReq (d : DriverState) (ip : IpaIpType) (hdl : ℕ) (ok : Bool) :
    (d.delFltRule (ulDelReq ip hdl) ok).1.ipa = d.ipa.delStep ⟨hdl, translateIp ip, ok⟩ ∧
      (d.delFltRule (ulDelReq ip hdl) ok).1.q6UlFilterRuleHdl = d.q6UlFilterRuleHdl ∧
      ((d.delFltRule (ulDelReq ip hdl) ok).2.2 = 0 ↔ ok = true) := by
  have hbad : ¬ ((ulDelReq ip hdl).hdls = [] ∨ (ulDelReq ip hdl).ip = .max) := by
    rintro (h | h)
    · cases h
    · exact translateIp_ne_max ip h
  have hcommit : (ulDelReq ip hdl).commit = true := rfl
  refine ⟨?_, rfl, ?_⟩
  · show (d.ipa.ipa2DelFltRule (ulDelReq ip hdl) ok).1 = _
    rw [IpaCtx.ipa2DelFltRule, if_neg hbad]
    dsimp only
    rw [if_pos hcommit]
    rfl
  · show (d.ipa.ipa2DelFltRule (ulDelReq ip hdl) ok).2.2 = 0 ↔ _
    rw [IpaCtx.ipa2DelFltRule, if_neg hbad]
    dsimp only
    rw [if_pos hcommit]
    cases ok <;> simp [ePerm]

theorem ipa_delUlRules (d : DriverState) (commitOk : ℕ → Bool) (i : ℕ)
    (qs : List ExtIntfProp) :
    (d.delUlRules commitOk i qs).1.ipa =
      d.ipa.delSteps (delCalls d.q6UlFilterRuleHdl commitOk i qs) := by
  induction qs generalizing d i with
  | nil => rfl
  | cons q qs ih =>
    obtain ⟨hipa, hhdl, hrc⟩ :=
      d.delFltRule_ulDelReq q.ip (d.q6UlFilterRuleHdl i) (commitOk i)
    unfold delUlRules delCalls IpaCtx.delSteps
    dsimp only
    by_cases hok : commitOk i = true
    · rw [if_pos (hrc.mpr hok), if_pos hok, ih, hipa, hhdl]
    · rw [if_neg (fun h => hok (hrc.mp h)), if_neg hok, hipa]

/-- The state in which the install leaves the driver, and that of the delete after the
array has been given another list. -/
def addedUl (d : DriverState) (o : UlOutcome) : DriverState := (d.wwanAddUlFltRuleToIpa o).1

def deletedUl (d : DriverState) (o : UlOutcome) (new : List ExtIntfProp) (o' : DelOutcome) :
    DriverState :=
  (wwanDelUlFltRuleToIpa { d.addedUl o with q6UlFilterRule := new }
    (q6Array d.q6UlFilterRule new) o').1

/-- Both tables of the egress pipe hold the same rules. -/
def UlRestored (d d' : DriverState) : Prop :=
  ∀ ip, (d'.ipa.fltTbl (lanWanTbl ip)).SameRules (d.ipa.fltTbl (lanWanTbl ip))

/-- A family whose table is another one has it in hardware. -/
def ChangesCommitted (d d' : DriverState) : Prop :=
  ∀ ip, (d'.ipa.fltTbl (lanWanTbl ip)).entries ≠ (d.ipa.fltTbl (lanWanTbl ip)).entries →
    (d'.ipa.fltTbl (lanWanTbl ip)).hw = (d'.ipa.fltTbl (lanWanTbl ip)).entries

/-- No rule of the list is a wildcard, no call of the delete fails before its last commit,
and each rule is followed, at its own index or a later one, by an entry of the array that
is translated to the rule's family and whose commit succeeds. -/
def Deletable (qs array : List ExtIntfProp) (o' : DelOutcome) : Prop :=
  o'.allocOk = true ∧ (∀ q ∈ qs, q.ip ≠ .max) ∧
    (∀ i, i+1 < qs.length → o'.commitOk i = true) ∧
    ∀ (i : ℕ) (q : ExtIntfProp), qs[i]? = some q →
      ∃ (j : ℕ) (q' : ExtIntfProp), i ≤ j ∧ j < qs.length ∧ array[j]? = some q' ∧
        translateIp q'.ip = q.ip ∧ o'.commitOk j = true

section Symmetry

variable {d : DriverState} {o : UlOutcome} {new : List ExtIntfProp} {o' : DelOutcome}

theorem length_take_q6Array (old new : List ExtIntfProp) :
    ((q6Array old new).take old.length).length = old.length := by
  unfold q6Array
  rw [List.length_take, List.length_append, List.length_drop]
  omega

/-- What the delete does to the tables. -/
theorem ipa_deletedUl (new : List ExtIntfProp) (hok : d.UlInstallsOk o)
    (halloc : o'.allocOk = true) :
    (d.deletedUl o new o').ipa = (d.ipa.linkUls d.q6UlFilterRule).delSteps
      (delCalls (storeHdls d.q6UlFilterRuleHdl 0 (d.ipa.ulHdls d.q6UlFilterRule))
        o'.commitOk 0 ((q6Array d.q6UlFilterRule new).take d.q6UlFilterRule.length)) := by
  obtain ⟨hipa, hhdl, hnum, _, _⟩ := wwanAddUlFltRuleToIpa_of_ok hok
  have hrun := ipa_delUlRules { d.addedUl o with q6UlFilterRule := new } o'.commitOk 0
    ((q6Array d.q6UlFilterRule new).take d.q6UlFilterRule.length)
  have hstart : ({ d.addedUl o with q6UlFilterRule := new } : DriverState).ipa =
      d.ipa.linkUls d.q6UlFilterRule := hipa
  have hhdls : ({ d.addedUl o with q6UlFilterRule := new } : DriverState).q6UlFilterRuleHdl =
      storeHdls d.q6UlFilterRuleHdl 0 (d.ipa.ulHdls d.q6UlFilterRule) := hhdl
  rw [hstart, hhdls] at hrun
  rw [← hrun]
  unfold deletedUl wwanDelUlFltRuleToIpa
  rw [if_neg (not_not.mpr halloc)]
  have hnum' : ({ d.addedUl o with q6UlFilterRule := new } : DriverState).oldNumQ6Rule =
      d.q6UlFilterRule.length := hnum
  rw [hnum']
  dsimp only
  split
  · rfl
  · rfl

/-- The handles of the turns are the stored ones. -/
theorem hdls_delCalls {s : IpaCtx} {qs array : List ExtIntfProp} (hdl : ℕ → ℕ)
    (commitOk : ℕ → Bool) (hlen : array.length = qs.length) :
    (delCalls (storeHdls hdl 0 (s.ulHdls qs)) commitOk 0 array).map (·.hdl) =
      s.ulHdls qs := by
  apply List.ext_getElem?
  intro j
  rw [List.getElem?_map, delCalls_getElem?, Option.map_map]
  by_cases hj : j < array.length
  · have hj' : j < (s.ulHdls qs).length := by
      rw [s.length_ulHdls, ← hlen]
      exact hj
    have hstored := List.getElem?_eq_getElem hj'
    rw [List.getElem?_eq_getElem hj, hstored, Option.map_some]
    exact congrArg some (storeHdls_getElem? hstored)
  · have hj' : ¬ j < (s.ulHdls qs).length := by
      rw [s.length_ulHdls, ← hlen]
      exact hj
    rw [List.getElem?_eq_none (by omega), List.getElem?_eq_none (by omega)]
    rfl

/-- A new entry that is still there is none of those before the install. -/
theorem not_ulRestored_of_leftover {d' : DriverState} (hwf : d.ipa.WellFormed)
    {ip : IpaIpType} {e : FltEntry} {qs : List ExtIntfProp} (hnew : e ∈ d.ipa.newUl ip qs)
    (hleft : e ∈ (d'.ipa.fltTbl (lanWanTbl ip)).entries) : ¬ d.UlRestored d' := by
  intro hrestored
  rw [(hrestored ip).1] at hleft
  obtain ⟨x, hid, hfresh⟩ := IpaCtx.newUl_fresh hnew
  exact IpaCtx.id_notMem_of_fresh hwf hleft hfresh hid

theorem wellFormed_linkUls (hwf : d.ipa.WellFormed) (hok : d.UlInstallsOk o) :
    (d.ipa.linkUls d.q6UlFilterRule).WellFormed := by
  have hgrows := (d.addUlRules_installs o.add 0 d.q6UlFilterRule).grows
  rw [addUlRules_of_failures hok.2.2] at hgrows
  exact hgrows.wellFormed hwf

/-- Every rule of the list has an entry, and its handle is stored. -/
theorem exists_hdl {s : IpaCtx} {qs : List ExtIntfProp} {j : ℕ} (hj : j < qs.length) :
    ∃ h, (s.ulHdls qs)[j]? = some h ∧
      ∃ ip, ⟨ulFltRule qs[j], some h⟩ ∈ s.newUl ip qs := by
  have hj' : j < (s.ulHdls qs).length := by
    rw [s.length_ulHdls]
    exact hj
  have hh := List.getElem?_eq_getElem hj'
  exact ⟨_, hh, _, IpaCtx.mem_newUl_of_hdl (List.getElem?_eq_getElem hj) hh⟩

/-- A commit that fails keeps the last rule in its table, if it is not the last commit. -/
theorem mem_delSteps_of_not_ok {s : IpaCtx} {cs : List IpaCtx.DelCall} {i h : ℕ}
    {k : FltTblKey} {e : FltEntry} (hnodup : (cs.map (·.hdl)).Nodup) (hi : i+1 < cs.length)
    (hlast : (cs.map (·.hdl))[cs.length-1]? = some h)
    (hfail : ∃ c, cs[i]? = some c ∧ c.commitOk = false)
    (he : e ∈ (s.fltTbl k).entries) (hid : e.id = some h) :
    e ∈ ((s.delSteps cs).fltTbl k).entries := by
  obtain ⟨c, hc, hno⟩ := hfail
  have hsplit : cs = cs.take i ++ c :: cs.drop (i+1) := by
    obtain ⟨hlt, hget⟩ := List.getElem?_eq_some_iff.mp hc
    rw [← hget, ← List.drop_eq_getElem_cons hlt, List.take_append_drop]
  have htake : cs.take i ++ [c] = cs.take (i+1) := by
    rw [List.take_add_one, hc]
    rfl
  rw [hsplit, IpaCtx.delSteps_append_of_not_ok s _ _ hno, htake]
  apply IpaCtx.mem_delSteps he
  intro c' hc' hid'
  rw [hid] at hid'
  -- the handle would be at two indices
  obtain ⟨j, hj⟩ := List.getElem?_of_mem hc'
  have hji : j < i+1 := by
    have hlt := (List.getElem?_eq_some_iff.mp hj).1
    rw [List.length_take] at hlt
    omega
  rw [List.getElem?_take_of_lt hji] at hj
  have hj' : (cs.map (·.hdl))[j]? = some h := by
    rw [List.getElem?_map, hj, Option.map_some, Option.some.inj hid']
  have hjlen : j < (cs.map (·.hdl)).length := (List.getElem?_eq_some_iff.mp hj').1
  have hsame : j = cs.length-1 := (List.getElem?_inj hjlen hnodup).mp (hj'.trans hlast.symm)
  omega

/-- Each of the three ways in which a rule can stay behind. -/
theorem not_ulRestored_deletedUl (new : List ExtIntfProp) (o' : DelOutcome)
    (hwf : d.ipa.WellFormed) (hok : d.UlInstallsOk o)
    (hrules : d.q6UlFilterRule ≠ [])
    (hbad : o'.allocOk = false ∨ (∃ q ∈ d.q6UlFilterRule, q.ip = .max) ∨
      ∃ i, i+1 < d.q6UlFilterRule.length ∧ o'.commitOk i = false) :
    ¬ d.UlRestored (d.deletedUl o new o') := by
  have hpos : 0 < d.q6UlFilterRule.length := List.length_pos_of_ne_nil hrules
  by_cases halloc : o'.allocOk = true
  · have hipa := ipa_deletedUl new hok halloc
    have hlen := length_take_q6Array d.q6UlFilterRule new
    have hhdls := hdls_delCalls (s := d.ipa) d.q6UlFilterRuleHdl o'.commitOk hlen
    rcases hbad with hno | ⟨q, hq, hmax⟩ | ⟨i, hi, hfail⟩
    · rw [halloc] at hno
      cases hno
    · -- the v6 copy of a wildcard, of which no handle is kept
      obtain ⟨e, he, x, hid, hnot⟩ := IpaCtx.exists_unstored (s := d.ipa) hq hmax
      apply not_ulRestored_of_leftover hwf he
      rw [hipa]
      apply IpaCtx.mem_delSteps (IpaCtx.mem_entries_linkUls.mpr (Or.inl he))
      intro c hc hid'
      rw [hid] at hid'
      apply hnot
      rw [← hhdls]
      exact List.mem_map.mpr ⟨c, hc, (Option.some.inj hid').symm⟩
    · -- the last rule, when an earlier commit ends the loop
      obtain ⟨h, hh, ip, hmem⟩ := exists_hdl (s := d.ipa)
        (show d.q6UlFilterRule.length - 1 < d.q6UlFilterRule.length by omega)
      apply not_ulRestored_of_leftover hwf hmem
      rw [hipa]
      have hcs := congrArg List.length hhdls
      rw [List.length_map, IpaCtx.length_ulHdls] at hcs
      apply mem_delSteps_of_not_ok (i := i) ?_ (by rw [hcs]; exact hi) ?_ ?_
        (IpaCtx.mem_entries_linkUls.mpr (Or.inl hmem)) rfl
      · rw [hhdls]
        exact d.ipa.ulHdls_nodup d.q6UlFilterRule
      · rw [hhdls, hcs]
        exact hh
      · rw [delCalls_getElem?, List.getElem?_eq_getElem (by rw [hlen]; omega), Option.map_some]
        refine ⟨_, rfl, ?_⟩
        show o'.commitOk (0+i) = false
        rw [Nat.zero_add]
        exact hfail
  · -- without memory the delete does nothing
    obtain ⟨h, _, ip, hmem⟩ := exists_hdl (s := d.ipa) hpos
    apply not_ulRestored_of_leftover hwf hmem
    have hsame : (d.deletedUl o new o').ipa = (d.addedUl o).ipa := by
      unfold deletedUl wwanDelUlFltRuleToIpa
      rw [if_pos halloc]
      rfl
    rw [hsame, addedUl, (wwanAddUlFltRuleToIpa_of_ok hok).1]
    exact IpaCtx.mem_entries_linkUls.mpr (Or.inl hmem)

/-- The turns of the delete when `array` is what the driver has from index 0 on. -/
def delTurns (d : DriverState) (o' : DelOutcome) (array : List ExtIntfProp) :
    List IpaCtx.DelCall :=
  delCalls (storeHdls d.q6UlFilterRuleHdl 0 (d.ipa.ulHdls d.q6UlFilterRule)) o'.commitOk 0 array

/-- What a turn is made of: the handle of the rule, the family of the array. -/
theorem delTurns_getElem? {array : List ExtIntfProp}
    (hlen : array.length = d.q6UlFilterRule.length) {j : ℕ} {c : IpaCtx.DelCall}
    (hc : (d.delTurns o' array)[j]? = some c) :
    ∃ q', array[j]? = some q' ∧ (d.ipa.ulHdls d.q6UlFilterRule)[j]? = some c.hdl ∧
      c.ip = translateIp q'.ip ∧ c.commitOk = o'.commitOk j := by
  unfold delTurns at hc
  have hhdl := congrArg (fun l : List ℕ => l[j]?)
    (hdls_delCalls (s := d.ipa) d.q6UlFilterRuleHdl o'.commitOk hlen)
  rw [List.getElem?_map, hc, Option.map_some] at hhdl
  rw [delCalls_getElem?] at hc
  obtain ⟨q', hq', rfl⟩ := Option.map_eq_some_iff.mp hc
  exact ⟨q', hq', hhdl.symm, rfl, by rw [Nat.zero_add]⟩

theorem exists_delTurn (d : DriverState) (o' : DelOutcome) {array : List ExtIntfProp} {j : ℕ}
    {q' : ExtIntfProp} (hq' : array[j]? = some q') :
    ∃ c, (d.delTurns o' array)[j]? = some c ∧ c.ip = translateIp q'.ip ∧
      c.commitOk = o'.commitOk j := by
  unfold delTurns
  rw [delCalls_getElem?, hq', Option.map_some]
  exact ⟨_, rfl, rfl, by rw [Nat.zero_add]⟩

/-- Without wildcards the handle of a rule is in the table of the rule's family. -/
theorem stored_in_iff (hwf : d.ipa.WellFormed) (hok : d.UlInstallsOk o)
    (hqs : ∀ q ∈ d.q6UlFilterRule, q.ip ≠ .max) {i h : ℕ} {q : ExtIntfProp}
    (hq : d.q6UlFilterRule[i]? = some q)
    (hh : (d.ipa.ulHdls d.q6UlFilterRule)[i]? = some h) (ip : IpaIpType) :
    (∃ e ∈ ((d.ipa.linkUls d.q6UlFilterRule).fltTbl (lanWanTbl ip)).entries,
      e.id = some h) ↔ ip = q.ip := by
  have hmem := IpaCtx.mem_newUl_of_hdl hq hh
  rw [if_neg (hqs q (List.mem_of_getElem? hq))] at hmem
  have hentry := IpaCtx.mem_entries_linkUls.mpr (Or.inl hmem)
  constructor
  · rintro ⟨e, he, hid⟩
    have hunique := (wellFormed_linkUls hwf hok).unique _ _ e _ h he hentry hid rfl
    exact IpaCtx.lanWanTbl_injective hunique.1
  · rintro rfl
    exact ⟨_, hentry, rfl⟩

/-- A family whose table has one of the stored handles is a family of the list. -/
theorem family_of_stored (hwf : d.ipa.WellFormed) (hok : d.UlInstallsOk o)
    (hqs : ∀ q ∈ d.q6UlFilterRule, q.ip ≠ .max) {h : ℕ} {ip : IpaIpType}
    (hh : h ∈ d.ipa.ulHdls d.q6UlFilterRule)
    (hin : ∃ e ∈ ((d.ipa.linkUls d.q6UlFilterRule).fltTbl (lanWanTbl ip)).entries,
      e.id = some h) : ∃ q ∈ d.q6UlFilterRule, ip ∈ q.families := by
  obtain ⟨i, hi⟩ := List.getElem?_of_mem hh
  have hlt : i < d.q6UlFilterRule.length := by
    rw [← d.ipa.length_ulHdls]
    exact (List.getElem?_eq_some_iff.mp hi).1
  have hq := List.getElem?_eq_getElem hlt
  have hmem := List.getElem_mem hlt
  refine ⟨_, hmem, ?_⟩
  rw [(stored_in_iff hwf hok hqs hq hi ip).mp hin]
  unfold ExtIntfProp.families
  rw [if_neg (hqs _ hmem)]
  exact List.mem_singleton_self _

/-- The turns change a family's table at the indices of its own rules. -/
theorem commitsFollow_delTurns {array : List ExtIntfProp} (hwf : d.ipa.WellFormed)
    (hok : d.UlInstallsOk o) (hqs : ∀ q ∈ d.q6UlFilterRule, q.ip ≠ .max)
    (hlen : array.length = d.q6UlFilterRule.length) :
    (∀ ip, (d.ipa.linkUls d.q6UlFilterRule).CommitsFollow ip (d.delTurns o' array)) ↔
      ∀ (i : ℕ) (q : ExtIntfProp), d.q6UlFilterRule[i]? = some q →
        ∃ (j : ℕ) (q' : ExtIntfProp), i ≤ j ∧ array[j]? = some q' ∧
          translateIp q'.ip = q.ip ∧ o'.commitOk j = true := by
  constructor
  · intro hfollow i q hq
    have hi : i < array.length := by
      rw [hlen]
      exact (List.getElem?_eq_some_iff.mp hq).1
    obtain ⟨c, hc, _⟩ := exists_delTurn d o' (List.getElem?_eq_getElem hi)
    obtain ⟨_, _, hh, _, _⟩ := delTurns_getElem? hlen hc
    obtain ⟨j, c', hij, hc', hip, hcommit⟩ := IpaCtx.commitsFollow_iff.mp (hfollow q.ip) i c hc
      ((stored_in_iff hwf hok hqs hq hh q.ip).mpr rfl)
    obtain ⟨q', hq', _, hip', hok'⟩ := delTurns_getElem? hlen hc'
    exact ⟨j, q', hij, hq', by rw [← hip', ← hip], by rw [← hok', hcommit]⟩
  · intro hall ip
    apply IpaCtx.commitsFollow_iff.mpr
    intro i c hc hin
    obtain ⟨_, hq'', hh, _, _⟩ := delTurns_getElem? hlen hc
    have hi : i < d.q6UlFilterRule.length := by
      rw [← hlen]
      exact (List.getElem?_eq_some_iff.mp hq'').1
    have hq := List.getElem?_eq_getElem hi
    have hfam := (stored_in_iff hwf hok hqs hq hh ip).mp hin
    obtain ⟨j, q', hij, hq', hip, hcommit⟩ := hall i _ hq
    obtain ⟨c', hc', hip', hok'⟩ := exists_delTurn d o' hq'
    refine ⟨j, c', hij, hc', ?_, ?_⟩
    · rw [hfam, hip', hip]
    · rw [hok', hcommit]

theorem deletedUl_of_no_rules (new : List ExtIntfProp) (o' : DelOutcome)
    (hok : d.UlInstallsOk o) (hrules : d.q6UlFilterRule = []) :
    (d.deletedUl o new o').ipa = d.ipa ∧ (d.addedUl o).ipa = d.ipa := by
  have hadded : (d.addedUl o).ipa = d.ipa := by
    rw [addedUl, (wwanAddUlFltRuleToIpa_of_ok hok).1, hrules]
    rfl
  refine ⟨?_, hadded⟩
  by_cases halloc : o'.allocOk = true
  · rw [ipa_deletedUl new hok halloc, hrules]
    rfl
  · rw [← hadded]
    unfold deletedUl wwanDelUlFltRuleToIpa
    rw [if_pos halloc]
    rfl

/-- Where no commit but that of the last rule can fail, no turn but the last can. -/
theorem delTurns_dropLast_ok {array : List ExtIntfProp}
    (hlen : array.length = d.q6UlFilterRule.length)
    (hcommit : ∀ i, i+1 < d.q6UlFilterRule.length → o'.commitOk i = true) :
    ∀ c ∈ (d.delTurns o' array).dropLast, c.commitOk = true := by
  intro c hc
  obtain ⟨i, hi⟩ := List.getElem?_of_mem hc
  obtain ⟨hlt, hget⟩ := List.getElem?_eq_some_iff.mp hi
  rw [List.getElem_dropLast] at hget
  rw [List.length_dropLast] at hlt
  have hturn : (d.delTurns o' array)[i]? = some c := by
    rw [← hget]
    exact List.getElem?_eq_getElem _
  have hcount := congrArg List.length
    (hdls_delCalls (s := d.ipa) d.q6UlFilterRuleHdl o'.commitOk hlen)
  rw [← delTurns, List.length_map, IpaCtx.length_ulHdls] at hcount
  obtain ⟨_, _, _, _, hok⟩ := delTurns_getElem? hlen hturn
  rw [hok]
  apply hcommit
  omega

/-- A table that loses entries to the delete is that of a family of the list. -/
theorem family_of_filtered (hwf : d.ipa.WellFormed) (hok : d.UlInstallsOk o)
    (hqs : ∀ q ∈ d.q6UlFilterRule, q.ip ≠ .max) {ip : IpaIpType}
    (hchange : (((d.ipa.linkUls d.q6UlFilterRule).fltTbl (lanWanTbl ip)).entries.filter
        fun e => decide (e.id ∉ (d.ipa.ulHdls d.q6UlFilterRule).map some)) ≠
      ((d.ipa.linkUls d.q6UlFilterRule).fltTbl (lanWanTbl ip)).entries) :
    ∃ q ∈ d.q6UlFilterRule, ip ∈ q.families := by
  have hout : ¬ ∀ e ∈ ((d.ipa.linkUls d.q6UlFilterRule).fltTbl (lanWanTbl ip)).entries,
      decide (e.id ∉ (d.ipa.ulHdls d.q6UlFilterRule).map some) = true :=
    fun hstay => hchange (List.filter_eq_self.mpr hstay)
  push Not at hout
  obtain ⟨e, he, hid⟩ := hout
  have hstored : e.id ∈ (d.ipa.ulHdls d.q6UlFilterRule).map some := by
    by_contra hnot
    exact hid (decide_eq_true hnot)
  obtain ⟨h, hh, heq⟩ := List.mem_map.mp hstored
  exact family_of_stored hwf hok hqs hh ⟨e, he, heq.symm⟩

/-- The tables after a delete that no call of its own ends early, without wildcards: what
they were, and in hardware where every change is followed by a commit. -/
theorem ulRestored_deletedUl (new : List ExtIntfProp) (hwf : d.ipa.WellFormed)
    (hok : d.UlInstallsOk o)
    (halloc : o'.allocOk = true) (hqs : ∀ q ∈ d.q6UlFilterRule, q.ip ≠ .max)
    (hcommit : ∀ i, i+1 < d.q6UlFilterRule.length → o'.commitOk i = true) :
    d.UlRestored (d.deletedUl o new o') ∧
      ((d.addedUl o).ChangesCommitted (d.deletedUl o new o') ↔
        ∀ ip, (d.ipa.linkUls d.q6UlFilterRule).CommitsFollow ip
          (d.delTurns o' ((q6Array d.q6UlFilterRule new).take d.q6UlFilterRule.length))) := by
  have hadded : (d.addedUl o).ipa = d.ipa.linkUls d.q6UlFilterRule :=
    (wwanAddUlFltRuleToIpa_of_ok hok).1
  have hipa := ipa_deletedUl new hok halloc
  have hlen := length_take_q6Array d.q6UlFilterRule new
  have hhdls := hdls_delCalls (s := d.ipa) d.q6UlFilterRuleHdl o'.commitOk hlen
  rw [← delTurns] at hipa hhdls
  set turns := d.delTurns o' ((q6Array d.q6UlFilterRule new).take d.q6UlFilterRule.length)
  have hp := IpaCtx.pending_linkUls hwf (wellFormed_linkUls hwf hok) hqs
  rw [← hhdls] at hp
  -- no turn but the last can fail, so all turns are taken
  have hall : ∀ c ∈ turns.dropLast, c.commitOk = true := delTurns_dropLast_ok hlen hcommit
  rw [IpaCtx.delSteps_of_ok hall] at hipa
  obtain ⟨hdone, htables⟩ := hp.foldl_delStep
  rw [← hipa] at hdone htables
  have hmap : turns.map (fun c => some c.hdl) = (d.ipa.ulHdls d.q6UlFilterRule).map some := by
    rw [← hhdls, List.map_map]
    rfl
  rw [hmap] at htables
  refine ⟨?_, ?_⟩
  · intro ip
    obtain ⟨hentries, hsticky⟩ := htables (lanWanTbl ip)
    rw [IpaCtx.filter_linkUls hwf hqs ip] at hentries
    refine ⟨hentries, ?_, ?_⟩
    · rw [hdone.counted ip]
      simp
    · rw [hsticky, (d.ipa.sameRules_linkUls d.q6UlFilterRule ip).2.2,
        FltTbl.stickyRear_placeRear]
  · unfold ChangesCommitted
    rw [hadded]
    constructor
    · intro hcommitted ip
      by_contra hfollow
      -- the table of a turn is that of a family of the list, which the install committed
      have hfam : ∃ q ∈ d.q6UlFilterRule, ip ∈ q.families := by
        rw [IpaCtx.commitsFollow_iff] at hfollow
        push Not at hfollow
        obtain ⟨i, c, hc, hin, _⟩ := hfollow
        obtain ⟨_, _, hh, _, _⟩ := delTurns_getElem? hlen hc
        exact family_of_stored hwf hok hqs (List.mem_of_getElem? hh) hin
      obtain ⟨hhw, hchange⟩ :=
        hp.hw_ne_entries (IpaCtx.hw_linkUls (Or.inl hfam)) hfollow
      rw [← hipa] at hhw hchange
      exact hhw (hcommitted ip hchange)
    · intro hfollow ip hchange
      rw [hipa]
      apply hp.hw_eq_entries (fun e he => he) ?_ (hfollow ip)
      left
      apply IpaCtx.hw_linkUls
      left
      rw [(htables _).1] at hchange
      exact family_of_filtered hwf hok hqs hchange

/-- When the delete undoes the install: nothing to undo, or a list that `Deletable`
describes. -/
theorem ulRestored_and_committed_iff (d : DriverState) (o : UlOutcome)
    (new : List ExtIntfProp) (o' : DelOutcome) (hwf : d.ipa.WellFormed)
    (hok : d.UlInstallsOk o) :
    (d.UlRestored (d.deletedUl o new o') ∧
        (d.addedUl o).ChangesCommitted (d.deletedUl o new o')) ↔
      d.q6UlFilterRule = [] ∨
        Deletable d.q6UlFilterRule (q6Array d.q6UlFilterRule new) o' := by
  by_cases hrules : d.q6UlFilterRule = []
  · obtain ⟨hdel, hadd⟩ := deletedUl_of_no_rules new o' hok hrules
    refine ⟨fun _ => Or.inl hrules, fun _ => ⟨?_, ?_⟩⟩
    · intro ip
      rw [hdel]
      exact ⟨rfl, rfl, rfl⟩
    · intro ip hchange
      rw [hdel, hadd] at hchange
      exact absurd rfl hchange
  have hlen := length_take_q6Array d.q6UlFilterRule new
  have htake (j : ℕ) (q' : ExtIntfProp) :
      ((q6Array d.q6UlFilterRule new).take d.q6UlFilterRule.length)[j]? = some q' ↔
        j < d.q6UlFilterRule.length ∧ (q6Array d.q6UlFilterRule new)[j]? = some q' := by
    rw [List.getElem?_take]
    split
    · rename_i hj
      exact (and_iff_right hj).symm
    · rename_i hj
      simp [hj]
  by_cases hgood : o'.allocOk = true ∧ (∀ q ∈ d.q6UlFilterRule, q.ip ≠ .max) ∧
      ∀ i, i+1 < d.q6UlFilterRule.length → o'.commitOk i = true
  · obtain ⟨halloc, hqs, hcommit⟩ := hgood
    obtain ⟨hrestored, hcommitted⟩ :=
      ulRestored_deletedUl new hwf hok halloc hqs hcommit
    rw [hcommitted, commitsFollow_delTurns hwf hok hqs hlen]
    constructor
    · rintro ⟨_, hfollow⟩
      refine Or.inr ⟨halloc, hqs, hcommit, ?_⟩
      intro i q hq
      obtain ⟨j, q', hij, hq', hip, hj⟩ := hfollow i q hq
      obtain ⟨hlt, hq''⟩ := (htake j q').mp hq'
      exact ⟨j, q', hij, hlt, hq'', hip, hj⟩
    · rintro (hempty | ⟨_, _, _, hfollow⟩)
      · exact absurd hempty hrules
      refine ⟨hrestored, ?_⟩
      intro i q hq
      obtain ⟨j, q', hij, hlt, hq', hip, hj⟩ := hfollow i q hq
      exact ⟨j, q', hij, (htake j q').mpr ⟨hlt, hq'⟩, hip, hj⟩
  · have hbad : o'.allocOk = false ∨ (∃ q ∈ d.q6UlFilterRule, q.ip = .max) ∨
        ∃ i, i+1 < d.q6UlFilterRule.length ∧ o'.commitOk i = false := by
      by_contra hno
      push Not at hno
      obtain ⟨halloc, hqs, hcommit⟩ := hno
      refine hgood ⟨?_, hqs, ?_⟩
      · exact Bool.eq_true_of_not_eq_false halloc
      · exact fun i hi => Bool.eq_true_of_not_eq_false (hcommit i hi)
    have hnot := not_ulRestored_deletedUl new o' hwf hok hrules hbad
    constructor
    · exact fun hboth => absurd hboth.1 hnot
    · rintro (hempty | ⟨halloc, hqs, hcommit, _⟩)
      · exact absurd hempty hrules
      · exact absurd ⟨halloc, hqs, hcommit⟩ hgood

end Symmetry

/-- A rule of each family. A new list, of a v6 rule and a wildcard, has come in by the time
of the delete, and its entries are translated to the families of the old ones. -/
theorem ulRestored_and_committed_replaced :
    let d := atHandshake [{ q6Wildcard with ip := .v4 }, { q6Wildcard with ip := .v6 }]
    let new := [{ q6Wildcard with ip := .v6 }, q6Wildcard]
    d.UlRestored (d.deletedUl {} new {}) ∧
      (d.addedUl {}).ChangesCommitted (d.deletedUl {} new {}) := by
  refine (ulRestored_and_committed_iff
    (atHandshake [{ q6Wildcard with ip := .v4 }, { q6Wildcard with ip := .v6 }]) {} _ {}
    (atHandshake_initial _).wellFormed ⟨rfl, rfl, by decide⟩).mpr (Or.inr ?_)
  refine ⟨rfl, by decide, fun _ _ => rfl, ?_⟩
  intro i q hq
  have hlt : i < 2 := (List.getElem?_eq_some_iff.mp hq).1
  obtain rfl | rfl : i = 0 ∨ i = 1 := by omega
  · cases hq
    exact ⟨0, { q6Wildcard with ip := .v6 }, Nat.le_refl 0, by decide, rfl, rfl, rfl⟩
  · cases hq
    exact ⟨1, q6Wildcard, Nat.le_refl 1, by decide, rfl, rfl, rfl⟩

/-- A wildcard leaves its second copy in the v6 table. A v6 rule goes, but the commit is
one of the v4 tables. -/
theorem deletedUl_leftover :
    let d := atHandshake [q6Wildcard]
    let d₆ := atHandshake [{ q6Wildcard with ip := .v6 }]
    (d.UlInstallsOk {} ∧ ¬ d.UlRestored (d.deletedUl {} [] {})) ∧
      d₆.UlInstallsOk {} ∧ ¬ (d₆.addedUl {}).ChangesCommitted (d₆.deletedUl {} [] {}) := by
  refine ⟨⟨⟨rfl, rfl, by decide⟩, ?_⟩, ⟨rfl, rfl, by decide⟩, ?_⟩
  · intro hrestored
    have hlen := congrArg List.length (hrestored .v6).1
    exact absurd hlen (by decide)
  · intro hcommitted
    have hhw := hcommitted .v6 (by decide)
    revert hhw
    decide

end DriverState

end X00TDCellular
