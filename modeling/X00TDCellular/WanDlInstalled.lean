import X00TDCellular.RuleInstall

/-! When a run of the work that succeeds throughout leaves the WAN-DL rules installed.
The installers look for a routing table index in `mux_channel[0]`, which the last step
of the same run may be the first to add. -/

namespace X00TDCellular
namespace DriverState

/-- A driver whose work has not been done: the handle variables are still zero. -/
structure Initial (d : DriverState) : Prop where
  wellFormed : d.ipa.WellFormed
  initDone : d.autoIpacmInitDone = false
  wanDlFltHdl : ∀ r, d.wanDlFltHdl r = 0

/-- Every handle variable names an entry for its rule. -/
def WanDlInstalled (d : DriverState) : Prop := ∀ r, ∃ rtIdx, d.Named r rtIdx

/-- A run that sets the done flag has gone through the whole sequence. -/
theorem vendorAutoIpacmInitFn_of_done {d : DriverState} {o : AutoOutcome}
    (hinit : d.autoIpacmInitDone = false)
    (hdone : (d.vendorAutoIpacmInitFn o).autoIpacmInitDone = true) :
    d.vendorAutoIpacmInitFn o = ((d.takeWork.beforeNotif
      o).installWanDlQmiFilterInstalledNotif o).autoIngressMux o := by
  have hclear : d.autoIpacmInitDone ≠ true := by simp [hinit]
  rcases d.vendorAutoIpacmInitFn_cases o with
    ⟨_, work, heq⟩ | ⟨_, _, _, heq⟩ | ⟨_, _, _, heq⟩
  · rw [heq] at hdone
    exact absurd hdone hclear
  · rw [heq] at hdone
    exact absurd hdone hclear
  · exact heq

/-- Both installers go through their rules when they report no failure. -/
theorem autoWanDlRules_of_failures {d : DriverState} {o : AutoOutcome} {rtIdx : ℕ}
    (hidx : d.wanDlRtIdx = some rtIdx)
    (hok : (d.autoWanDlRules o).failures = d.failures) :
    ∃ d', d' = d.addWanDlRules rtIdx [.icmpV4, .icmpV6] o.add ∧
      d'.failures = d.failures ∧
      d.autoWanDlRules o =
        d'.addWanDlRules rtIdx [.mcastV4, .bcastV4, .mcastV6, .lnklclV6] o.add ∧
      (d.autoWanDlRules o).failures = d'.failures := by
  have hicmp := d.installIcmpPassthroughRule_installs o
  have hmcast := (d.installIcmpPassthroughRule o).installMcastBcastFilterRules_installs o
  have hle := hicmp.failures
  have hle' : _ ≤ (d.autoWanDlRules o).failures := hmcast.failures
  have hfirst : (d.installIcmpPassthroughRule o).failures = d.failures := by
    apply Nat.le_antisymm _ hle
    exact hok ▸ hle'
  have hidx' : (d.installIcmpPassthroughRule o).wanDlRtIdx = some rtIdx :=
    hicmp.wanDlRtIdx.trans hidx
  refine ⟨d.installIcmpPassthroughRule o, installWanDlRules_of_failures hidx hfirst, hfirst,
    ?_, hok.trans hfirst.symm⟩
  exact installWanDlRules_of_failures hidx' (hok.trans hfirst.symm)

theorem autoWanDlRules_named {d : DriverState} {o : AutoOutcome} {rtIdx : ℕ}
    (hidx : d.wanDlRtIdx = some rtIdx)
    (hok : (d.autoWanDlRules o).failures = d.failures) (r : WanDlRule) :
    (d.autoWanDlRules o).Named r rtIdx := by
  obtain ⟨d', hd', hfirst, heq, hsecond⟩ := autoWanDlRules_of_failures hidx hok
  rw [heq] at hsecond ⊢
  by_cases hr : r ∈ [WanDlRule.mcastV4, .bcastV4, .mcastV6, .lnklclV6]
  · exact addWanDlRules_named (by decide) hsecond hr
  · -- an ICMP rule, which the second installer leaves alone
    have hr' : r ∈ [WanDlRule.icmpV4, .icmpV6] := by
      rwa [WanDlRule.mem_mcast_iff, not_not] at hr
    apply (d'.addWanDlRules_installs rtIdx _ o.add).named hr
    rw [hd'] at hfirst ⊢
    exact addWanDlRules_named (by decide) hfirst hr'

theorem wanDlFltHdl_autoWanDlRules {d : DriverState} (o : AutoOutcome)
    (hidx : d.wanDlRtIdx = none) : (d.autoWanDlRules o).wanDlFltHdl = d.wanDlFltHdl := by
  have hicmp := d.installIcmpPassthroughRule_installs o
  have hidx' : (d.installIcmpPassthroughRule o).wanDlRtIdx = none :=
    hicmp.wanDlRtIdx.trans hidx
  exact (wanDlFltHdl_installWanDlRules hidx' _ _ _ _).trans
    (wanDlFltHdl_installWanDlRules hidx _ _ _ _)

/-- Two rules of one family cannot have the same handle. -/
theorem Named.rule_inj {d : DriverState} (hwf : d.ipa.WellFormed) {r r' : WanDlRule}
    {rtIdx rtIdx' : ℕ} (h : d.Named r rtIdx) (h' : d.Named r' rtIdx')
    (hhdl : d.wanDlFltHdl r = d.wanDlFltHdl r') (hip : r.ip = r'.ip) : r = r' := by
  unfold Named at h h'
  rw [← hhdl] at h'
  obtain ⟨_, hentry⟩ := hwf.unique _ _ _ _ _ h h' rfl rfl
  apply WanDlRule.eq_of_eqAttrib r r' hip
  exact congrArg (fun e => e.rule.eqAttrib) hentry

theorem not_wanDlInstalled {d : DriverState} (hwf : d.ipa.WellFormed)
    (hhdl : ∀ r, d.wanDlFltHdl r = 0) : ¬ d.WanDlInstalled := by
  intro hall
  obtain ⟨rtIdx, hicmp⟩ := hall .icmpV4
  obtain ⟨rtIdx', hmcast⟩ := hall .mcastV4
  have heq := hicmp.rule_inj hwf hmcast ((hhdl _).trans (hhdl _).symm) rfl
  cases heq

theorem wanDlRtIdx_isSome_iff (d : DriverState) :
    d.wanDlRtIdx.isSome ↔ ∃ prop, d.wanDlProp = some prop ∧ prop.rtTblIdx ≠ ipaWanDlRtIdxNone := by
  unfold wanDlRtIdx
  cases hprop : d.wanDlProp with
  | none => simp
  | some prop =>
    by_cases hnone : prop.rtTblIdx = ipaWanDlRtIdxNone
    · simp [hnone]
    · simp [hnone]

/-- In the state in which a run without a failure has set the done flag, the rules are
installed exactly if `mux_channel[0]` had an extended property to take the index from
before the run. -/
theorem wanDlInstalled_iff {d : DriverState} {o : AutoOutcome} (hinit : d.Initial)
    (hdone : (d.vendorAutoIpacmInitFn o).autoIpacmInitDone = true)
    (hok : (d.vendorAutoIpacmInitFn o).failures = d.failures) :
    (d.vendorAutoIpacmInitFn o).WanDlInstalled ↔
      ∃ prop, d.wanDlProp = some prop ∧ prop.rtTblIdx ≠ ipaWanDlRtIdxNone := by
  rw [vendorAutoIpacmInitFn_of_done hinit.initDone hdone] at hok ⊢
  rw [← wanDlRtIdx_isSome_iff]
  have hegress := d.takeWork.autoEgress_installs o
  have hrules := (d.takeWork.autoEgress o).1.autoWanDlRules_installs o
  have hsent := (installWanDlQmiFilterNotify_installs
    ((d.takeWork.autoEgress o).1.autoWanDlRules o) o).then
      (installWanDlQmiFilterInstalledNotif_installs (d.takeWork.beforeNotif o) o)
  -- what comes after the installers leaves entries and handles alone
  have hmux := hsent.keepsRules.trans (autoIngressMux_keepsRules _ o)
  have hidx : (d.takeWork.autoEgress o).1.wanDlRtIdx = d.wanDlRtIdx := hegress.wanDlRtIdx
  constructor
  · -- without an index the handles are still zero
    intro hall
    by_contra hnone
    rw [Option.not_isSome_iff_eq_none] at hnone
    have hwf := hmux.grows.wellFormed
      (hrules.grows.wellFormed (hegress.grows.wellFormed hinit.wellFormed))
    refine not_wanDlInstalled hwf ?_ hall
    intro r
    rw [hmux.wanDlFltHdl, wanDlFltHdl_autoWanDlRules o (hidx.trans hnone),
      hegress.wanDlFltHdl r List.not_mem_nil]
    exact hinit.wanDlFltHdl r
  · intro hsome r
    obtain ⟨rtIdx, hrt⟩ := Option.isSome_iff_exists.mp hsome
    refine ⟨rtIdx, hmux.named ?_⟩
    -- no step of the run fails, so neither do the installers
    have hle := hegress.failures
    have hle' := hrules.failures
    have hle'' := hmux.failures
    have hsame : d.takeWork.failures = d.failures := rfl
    exact autoWanDlRules_named (hidx.trans hrt) (by omega) r

theorem atHandshake_initial (q6 : List ExtIntfProp) : (atHandshake q6).Initial := by
  refine ⟨⟨?_, ?_⟩, rfl, fun _ => rfl⟩
  · intro k e he
    cases he
  · intro k k' e e' id he
    cases he

/-- A rule of the modem for both families, with a routing table that both accept. -/
def q6Wildcard : ExtIntfProp where
  ip := .max
  eqAttrib := {}
  action := .passToRouting
  rtTblIdx := 3

/-- No channel is registered: everything succeeds, the work is done, and the rule that
the multicast handle should name is not there. -/
theorem not_wanDlInstalled_noChannel :
    (atHandshake [q6Wildcard]).Initial ∧
      (atHandshake [q6Wildcard]).ipa.ruleValid (ulFltRule q6Wildcard) = true ∧
      ((atHandshake [q6Wildcard]).vendorAutoIpacmInitFn {}).autoIpacmInitDone = true ∧
      ((atHandshake [q6Wildcard]).vendorAutoIpacmInitFn {}).failures = 0 ∧
      ¬ ((atHandshake [q6Wildcard]).vendorAutoIpacmInitFn {}).WanDlInstalled := by
  refine ⟨atHandshake_initial _, by decide, by decide, by decide, ?_⟩
  intro hall
  obtain ⟨rtIdx, hmem⟩ := hall .mcastV4
  -- no entry of the v4 table has its equation
  have hattrib : WanDlRule.mcastV4.eqAttrib ∈
      List.map (fun e : FltEntry => e.rule.eqAttrib) _ :=
    List.mem_map_of_mem hmem
  revert hattrib
  decide

/-- A driver with one registered channel, as the ioctl leaves it. -/
def withChannel (muxId : ℕ) : DriverState :=
  ((atHandshake [q6Wildcard]).addMuxChannel muxId qmapmux {}).1

theorem withChannel_wellFormed (muxId : ℕ) : (withChannel muxId).ipa.WellFormed :=
  (addMuxChannel_keepsRules _ muxId qmapmux {}).grows.wellFormed
    (atHandshake_initial [q6Wildcard]).wellFormed

theorem wanDlInstalled_withChannel :
    ((withChannel 1).vendorAutoIpacmInitFn {}).WanDlInstalled := by
  have hinit : (withChannel 1).Initial := ⟨withChannel_wellFormed 1, by decide, by decide⟩
  apply (wanDlInstalled_iff hinit (by decide) (by decide)).mpr
  exact ⟨{ q6Wildcard with muxId := 1 }, by decide, by decide⟩

end DriverState
end X00TDCellular
