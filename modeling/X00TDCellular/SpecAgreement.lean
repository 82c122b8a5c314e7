import X00TDCellular.WanDlInstalled

/-! The six rules as the AP installs them, as the request describes them to the modem,
and as the notification lists them. -/

namespace X00TDCellular

/-- The index under which FILTER_INSTALLED_NOTIF lists the rule. -/
def WanDlRule.filterIndex : WanDlRule → ℕ
  | .icmpV4 => 0
  | .mcastV4 => 1
  | .bcastV4 => 2
  | .icmpV6 => 3
  | .mcastV6 => 4
  | .lnklclV6 => 5

theorem mem_wanDlFilterIndexList {hdl : WanDlRule → ℕ} {fi : FilterIndex} :
    fi ∈ wanDlFilterIndexList hdl ↔ ∃ r : WanDlRule, fi = ⟨r.filterIndex, hdl r⟩ := by
  constructor
  · intro hfi
    simp only [wanDlFilterIndexList, List.mem_cons, List.not_mem_nil, or_false] at hfi
    rcases hfi with rfl | rfl | rfl | rfl | rfl | rfl
    · exact ⟨.icmpV4, rfl⟩
    · exact ⟨.mcastV4, rfl⟩
    · exact ⟨.bcastV4, rfl⟩
    · exact ⟨.icmpV6, rfl⟩
    · exact ⟨.mcastV6, rfl⟩
    · exact ⟨.lnklclV6, rfl⟩
  · rintro ⟨r, rfl⟩
    cases r <;> simp [wanDlFilterIndexList, WanDlRule.filterIndex]

/-- The specs stand in the order of the notification. -/
theorem filterSpecList_filterIndex (r : WanDlRule) :
    wanDlFilterReq.filterSpecList[r.filterIndex]? =
      some (filterSpec r.filterIndex r.ip r.eqAttrib) := by
  cases r <;> rfl

namespace DriverState

/-- The handle names a rule of the family of the spec, with its match equation. -/
def SpecMatches (d : DriverState) (fi : FilterIndex) (spec : FilterSpec) : Prop :=
  ∃ e ∈ (d.ipa.fltTbl (lanWanTbl spec.ipType)).entries,
    e.id = some fi.filterHandle ∧ e.rule.eqAttribType = true ∧
      e.rule.eqAttrib = spec.filterRule

/-- The rule also goes to the routing table of the spec, which carries mux id `m`. -/
def SpecAgrees (d : DriverState) (m : ℕ) (fi : FilterIndex) (spec : FilterSpec) : Prop :=
  ∃ e ∈ (d.ipa.fltTbl (lanWanTbl spec.ipType)).entries,
    e.id = some fi.filterHandle ∧ e.rule.eqAttribType = true ∧
      e.rule.eqAttrib = spec.filterRule ∧ spec.routeTableIndex = some e.rule.rtTblIdx ∧
      spec.muxId = some m

instance (d : DriverState) (m : ℕ) (fi : FilterIndex) (spec : FilterSpec) :
    Decidable (d.SpecAgrees m fi spec) :=
  inferInstanceAs (Decidable (∃ e ∈ _, _))

theorem Named.specMatches {d : DriverState} {r : WanDlRule} {rtIdx : ℕ}
    (h : d.Named r rtIdx) :
    d.SpecMatches ⟨r.filterIndex, d.wanDlFltHdl r⟩
      (filterSpec r.filterIndex r.ip r.eqAttrib) :=
  ⟨_, h, rfl, rfl, rfl⟩

/-- A named rule for another routing table than 8 is not the one the spec asks for. -/
theorem Named.not_specAgrees {d : DriverState} (hwf : d.ipa.WellFormed) {r : WanDlRule}
    {rtIdx : ℕ} (h : d.Named r rtIdx) (hrt : rtIdx ≠ 8) (m : ℕ) :
    ¬ d.SpecAgrees m ⟨r.filterIndex, d.wanDlFltHdl r⟩
      (filterSpec r.filterIndex r.ip r.eqAttrib) := by
  rintro ⟨e, he, hid, _, _, htbl, _⟩
  -- the handle is that of the named entry only
  obtain ⟨_, rfl⟩ := hwf.unique _ _ _ _ _ he h hid rfl
  exact hrt (Option.some.inj htbl).symm

theorem modemRtIndexHi_lt (hw : IpaHwType) : hw.modemRtIndexHi < 8 := by
  cases hw <;> decide

/-- No table accepts a rule for the routing table that the specs ask for. -/
theorem rtIdx_lt_of_autoWanDlRules {d : DriverState} {o : AutoOutcome} {rtIdx : ℕ}
    (hidx : d.wanDlRtIdx = some rtIdx)
    (hok : (d.autoWanDlRules o).failures = d.failures) : rtIdx < 8 := by
  obtain ⟨d', hd', hfirst, _, _⟩ := autoWanDlRules_of_failures hidx hok
  rw [hd'] at hfirst
  obtain ⟨hicmp, _⟩ := failures_addWanDlRules_cons hfirst
  have hle := rtIdx_le_of_addWanDlRule hicmp
  have hlt := modemRtIndexHi_lt d.ipa.hwType
  omega

/-- Whatever mux id and routing table index the extended properties give, when all
installs succeed each handle names the rule that its spec describes by family and
equation, and the spec does not agree with it. -/
theorem wanDlSpecs_disagree {d : DriverState} {o : AutoOutcome} {prop : ExtIntfProp}
    (hwf : d.ipa.WellFormed) (hprop : d.wanDlProp = some prop)
    (hidx : prop.rtTblIdx ≠ ipaWanDlRtIdxNone)
    (hok : (d.autoWanDlRules o).failures = d.failures) :
    ∀ fi ∈ wanDlFilterIndexList (d.autoWanDlRules o).wanDlFltHdl,
      ∃ spec ∈ wanDlFilterReq.filterSpecList[fi.filterIndex]?,
        (d.autoWanDlRules o).SpecMatches fi spec ∧
          ¬ (d.autoWanDlRules o).SpecAgrees prop.muxId fi spec := by
  have hrt : d.wanDlRtIdx = some prop.rtTblIdx := by
    unfold wanDlRtIdx
    rw [hprop]
    exact if_neg hidx
  have hwf' := (d.autoWanDlRules_installs o).grows.wellFormed hwf
  have hne : prop.rtTblIdx ≠ 8 := Nat.ne_of_lt (rtIdx_lt_of_autoWanDlRules hrt hok)
  intro fi hfi
  obtain ⟨r, rfl⟩ := mem_wanDlFilterIndexList.mp hfi
  have hnamed := autoWanDlRules_named hrt hok r
  exact ⟨_, filterSpecList_filterIndex r, hnamed.specMatches,
    hnamed.not_specAgrees hwf' hne _⟩

/-- Index 0, for mux id 1 and routing table 3: the spec says routing table 8. -/
theorem not_specAgrees_icmpV4 :
    (withChannel 1).wanDlProp = some { q6Wildcard with muxId := 1 } ∧
      ((withChannel 1).autoWanDlRules {}).failures = (withChannel 1).failures ∧
      ∃ fi ∈ wanDlFilterIndexList ((withChannel 1).autoWanDlRules {}).wanDlFltHdl,
        ∀ spec ∈ wanDlFilterReq.filterSpecList[fi.filterIndex]?,
          ¬ ((withChannel 1).autoWanDlRules {}).SpecAgrees 1 fi spec := by
  refine ⟨by decide, by decide, _, List.mem_cons_self, ?_⟩
  intro spec hspec
  cases hspec
  decide

theorem wanDlSpecs_disagree_muxId2 :
    ∃ spec ∈ wanDlFilterReq.filterSpecList[1]?,
      ((withChannel 2).autoWanDlRules {}).SpecMatches
        ⟨1, ((withChannel 2).autoWanDlRules {}).wanDlFltHdl .mcastV4⟩ spec ∧
      ¬ ((withChannel 2).autoWanDlRules {}).SpecAgrees 2
        ⟨1, ((withChannel 2).autoWanDlRules {}).wanDlFltHdl .mcastV4⟩ spec := by
  have hprop : (withChannel 2).wanDlProp = some { q6Wildcard with muxId := 2 } := by decide
  exact wanDlSpecs_disagree (o := {}) (withChannel_wellFormed 2) hprop (by decide)
    (by decide) ⟨1, _⟩ (mem_wanDlFilterIndexList.mpr ⟨.mcastV4, rfl⟩)

end DriverState
end X00TDCellular
