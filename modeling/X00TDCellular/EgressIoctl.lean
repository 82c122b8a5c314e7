import X00TDCellular.UlRules
import X00TDCellular.WanDlInstalled

/-! `RMNET_IOCTL_SET_EGRESS_DATA_FORMAT` beside the step of the auto-IPACM work that
replays it. Only the ioctl looks at `modem_cfg_emb_pipe_flt` before it installs the
modem's rules. -/

namespace X00TDCellular
namespace DriverState

/-- The ioctl, and whether it returns zero. A pipe that cannot be set up is logged, and
the rules are installed all the same. -/
def setEgressDataFormat (d : DriverState) (o : AutoOutcome) : DriverState × Bool :=
  let pipe := d.setupEgressPipe o.setup
  if pipe.1.q6UlFilterRule ≠ [] then
    if pipe.1.ipaQmiCtx ∧ ¬ pipe.1.qmiModemCfgEmbPipeFlt then
      let ul := pipe.1.wwanAddUlFltRuleToIpa o.ul
      ({ ul.1 with
        egressSet := true
        a7UlFltSet := if ul.2 = 0 then true else ul.1.a7UlFltSet }, ul.2 = 0)
    -- the modem filters this pipe itself: nothing is installed, and the flag is set
    else ({ pipe.1 with egressSet := true, a7UlFltSet := true }, true)
  else ({ pipe.1 with egressSet := true }, pipe.2)

/-- The rules of the modem's list that are in the filter tables. -/
def installedUlRules (d : DriverState) : Set (IpaIpType × FltRule) :=
  {p | (∃ q ∈ d.q6UlFilterRule, p.2 = ulFltRule q) ∧ p.2 ∈ d.ipa.tblRules p.1}

/-- What the ioctl's callers can see of the step. -/
structure EgressAgrees (d d' : DriverState) : Prop where
  rules : d.installedUlRules = d'.installedUlRules
  egressSet : d.egressSet = d'.egressSet
  a7UlFltSet : d.a7UlFltSet = d'.a7UlFltSet

theorem EgressAgrees.refl (d : DriverState) : d.EgressAgrees d := ⟨rfl, rfl, rfl⟩

/-- Each rule of the list is in the tables of all its families. -/
def UlRulesPresent (d : DriverState) : Prop :=
  ∀ q ∈ d.q6UlFilterRule, ∀ ip ∈ q.families, ulFltRule q ∈ d.ipa.tblRules ip

theorem qmiModemCfg_setupEgressPipe (d : DriverState) (o : SysPipeOutcome) :
    (d.setupEgressPipe o).1.qmiModemCfgEmbPipeFlt = d.qmiModemCfgEmbPipeFlt := by
  unfold setupEgressPipe
  split
  · rfl
  · split
    · rfl
    · rfl

/-- The default rules of a new pipe are none of the modem's: those retain the header. -/
theorem mem_tblRules_setupEgressPipe (d : DriverState) (o : SysPipeOutcome)
    (q : ExtIntfProp) (ip : IpaIpType) :
    ulFltRule q ∈ (d.setupEgressPipe o).1.ipa.tblRules ip ↔
      ulFltRule q ∈ d.ipa.tblRules ip := by
  have hgrows := (d.setupEgressPipe_installs o).grows
  constructor
  · intro h
    obtain ⟨e, he, hrule⟩ := List.mem_map.mp h
    obtain ⟨new, hsub, hperm, _⟩ := hgrows.link (lanWanTbl ip)
    rcases List.mem_append.mp (hperm.mem_iff.mp he) with hnew | hold
    · have hpending := hsub.subset (List.mem_map_of_mem (f := (·.rule)) hnew)
      have hretain : e.rule.retainHdr = 1 := by rw [hrule]; rfl
      have hdflt : e.rule = { action := .passToException } := by
        unfold dfltPending IpaCtx.pendingRule at hpending
        split at hpending
        · cases hpending
        · rcases List.mem_append.mp hpending with h4 | h6
          · split at h4
            · exact List.mem_singleton.mp h4
            · cases h4
          · split at h6
            · exact List.mem_singleton.mp h6
            · cases h6
      rw [hdflt] at hretain
      exact absurd hretain (by decide)
    · exact List.mem_map.mpr ⟨e, hold, hrule⟩
  · intro h
    obtain ⟨e, he, hrule⟩ := List.mem_map.mp h
    exact List.mem_map.mpr ⟨e, hgrows.mem he, hrule⟩

/-- The pipe is set up and `egress_set` noted, before any rule is looked at. -/
def withEgressPipe (d : DriverState) (o : AutoOutcome) : DriverState :=
  { (d.setupEgressPipe o.setup).1 with egressSet := true }

/-- The work's step when no call of it fails. -/
theorem autoEgress_of_failures {d : DriverState} {o : AutoOutcome}
    (hok : (d.autoEgress o).1.failures = d.failures) :
    (d.autoEgress o).1 = (d.withEgressPipe o).autoUlRules o ∧
      ((d.withEgressPipe o).autoUlRules o).failures = (d.withEgressPipe o).failures := by
  by_cases hsetup : o.setup.ok = true
  · have hpipe : (d.setupEgressPipe o.setup).2 = true := by
      rw [setupEgressPipe_snd, hsetup]
    have heq : (d.autoEgress o).1 = (d.withEgressPipe o).autoUlRules o := by
      unfold autoEgress
      dsimp only
      rw [if_neg (not_not.mpr hpipe)]
      rfl
    refine ⟨heq, ?_⟩
    have hle : d.failures ≤ (d.withEgressPipe o).failures :=
      (d.setupEgressPipe_installs o.setup).failures
    have hle' := ((d.withEgressPipe o).autoUlRules_installs o).failures
    rw [heq] at hok
    omega
  · rw [autoEgress_of_not_ok (Bool.eq_false_of_not_eq_true hsetup)] at hok
    simp [note] at hok

/-- The modem's rules after a step of the work without failures: those that were there,
and all of the list. -/
theorem mem_installedUlRules_linkUls {d d' : DriverState} {p : IpaIpType × FltRule}
    (hipa : d'.ipa = d.ipa.linkUls d.q6UlFilterRule)
    (hq6 : d'.q6UlFilterRule = d.q6UlFilterRule) :
    p ∈ d'.installedUlRules ↔ p ∈ d.installedUlRules ∨
      ∃ q ∈ d.q6UlFilterRule, p.1 ∈ q.families ∧ p.2 = ulFltRule q := by
  unfold installedUlRules
  rw [Set.mem_ofPred_eq, Set.mem_ofPred_eq, hipa, hq6, IpaCtx.mem_tblRules_linkUls]
  constructor
  · rintro ⟨hrule, hold | hnew⟩
    · exact Or.inl ⟨hrule, hold⟩
    · exact Or.inr hnew
  · rintro (⟨hrule, hold⟩ | ⟨q, hq, hip, hrule⟩)
    · exact ⟨hrule, Or.inl hold⟩
    · exact ⟨⟨q, hq, hrule⟩, Or.inr ⟨q, hq, hip, hrule⟩⟩

/-- Installing the list changes nothing in the set of its rules only where all of them
are there. -/
theorem installedUlRules_eq_iff_present {d d' : DriverState}
    (hipa : d'.ipa = d.ipa.linkUls d.q6UlFilterRule)
    (hq6 : d'.q6UlFilterRule = d.q6UlFilterRule) :
    d'.installedUlRules = d.installedUlRules ↔ d.UlRulesPresent := by
  constructor
  · intro heq q hq ip hip
    have hmem : (ip, ulFltRule q) ∈ d'.installedUlRules :=
      (mem_installedUlRules_linkUls hipa hq6).mpr (Or.inr ⟨q, hq, hip, rfl⟩)
    rw [heq] at hmem
    exact hmem.2
  · intro hpresent
    ext p
    rw [mem_installedUlRules_linkUls hipa hq6]
    constructor
    · rintro (hold | ⟨q, hq, hip, hrule⟩)
      · exact hold
      · refine ⟨⟨q, hq, hrule⟩, ?_⟩
        rw [hrule]
        exact hpresent q hq p.1 hip
    · exact Or.inl

theorem ulRulesPresent_withEgressPipe (d : DriverState) (o : AutoOutcome) :
    (d.withEgressPipe o).UlRulesPresent ↔ d.UlRulesPresent := by
  have hq6 : (d.withEgressPipe o).q6UlFilterRule = d.q6UlFilterRule :=
    (d.setupEgressPipe_installs o.setup).q6UlFilterRule
  unfold UlRulesPresent
  rw [hq6]
  have hmem (q : ExtIntfProp) (ip : IpaIpType) :
      ulFltRule q ∈ (d.withEgressPipe o).ipa.tblRules ip ↔
        ulFltRule q ∈ d.ipa.tblRules ip :=
    d.mem_tblRules_setupEgressPipe o.setup q ip
  simp only [hmem]

theorem setEgressDataFormat_of_no_rules {d : DriverState} (o : AutoOutcome)
    (hrules : d.q6UlFilterRule = []) :
    (d.setEgressDataFormat o).1 = d.withEgressPipe o := by
  have hempty : (d.setupEgressPipe o.setup).1.q6UlFilterRule = [] :=
    (d.setupEgressPipe_installs o.setup).q6UlFilterRule.trans hrules
  unfold setEgressDataFormat
  dsimp only
  rw [if_neg (not_not.mpr hempty)]
  rfl

/-- A modem that filters the pipe itself. -/
theorem setEgressDataFormat_of_modemCfg {d : DriverState} (o : AutoOutcome)
    (hrules : d.q6UlFilterRule ≠ []) (hcfg : d.qmiModemCfgEmbPipeFlt = true) :
    (d.setEgressDataFormat o).1 = { d.withEgressPipe o with a7UlFltSet := true } := by
  have hsome : (d.setupEgressPipe o.setup).1.q6UlFilterRule ≠ [] := by
    rw [(d.setupEgressPipe_installs o.setup).q6UlFilterRule]
    exact hrules
  have hskip : ¬ ((d.setupEgressPipe o.setup).1.ipaQmiCtx ∧
      ¬ (d.setupEgressPipe o.setup).1.qmiModemCfgEmbPipeFlt) := by
    rw [qmiModemCfg_setupEgressPipe]
    exact fun h => h.2 hcfg
  unfold setEgressDataFormat
  dsimp only
  rw [if_pos hsome, if_neg hskip]
  rfl

theorem setEgressDataFormat_of_install {d : DriverState} (o : AutoOutcome)
    (hrules : d.q6UlFilterRule ≠ []) (hctx : d.ipaQmiCtx = true)
    (hcfg : d.qmiModemCfgEmbPipeFlt = false) :
    (d.setEgressDataFormat o).1 =
      { ((d.setupEgressPipe o.setup).1.wwanAddUlFltRuleToIpa o.ul).1 with
        egressSet := true
        a7UlFltSet := if ((d.setupEgressPipe o.setup).1.wwanAddUlFltRuleToIpa o.ul).2 = 0
          then true
          else ((d.setupEgressPipe o.setup).1.wwanAddUlFltRuleToIpa o.ul).1.a7UlFltSet } := by
  have hsome : (d.setupEgressPipe o.setup).1.q6UlFilterRule ≠ [] := by
    rw [(d.setupEgressPipe_installs o.setup).q6UlFilterRule]
    exact hrules
  have hinstall : (d.setupEgressPipe o.setup).1.ipaQmiCtx ∧
      ¬ (d.setupEgressPipe o.setup).1.qmiModemCfgEmbPipeFlt := by
    rw [qmiModemCfg_setupEgressPipe, ipaQmiCtx_setupEgressPipe]
    simp [hctx, hcfg]
  unfold setEgressDataFormat
  dsimp only
  rw [if_pos hsome, if_pos hinstall]

/-- The work's step with rules to install, when no call of it fails. -/
theorem autoEgress_of_rules {d : DriverState} {o : AutoOutcome}
    (hrules : d.q6UlFilterRule ≠ [])
    (hok : (d.autoEgress o).1.failures = d.failures) :
    d.ipaQmiCtx = true ∧
      (d.autoEgress o).1.ipa = (d.setupEgressPipe o.setup).1.ipa.linkUls d.q6UlFilterRule ∧
      (d.autoEgress o).1.q6UlFilterRule = d.q6UlFilterRule ∧
      (d.autoEgress o).1.egressSet = true ∧ (d.autoEgress o).1.a7UlFltSet = true := by
  have hpq6 : (d.withEgressPipe o).q6UlFilterRule = d.q6UlFilterRule :=
    (d.setupEgressPipe_installs o.setup).q6UlFilterRule
  obtain ⟨hstep, hfail⟩ := autoEgress_of_failures hok
  have hul : (d.withEgressPipe o).autoUlRules o =
      { ((d.withEgressPipe o).wwanAddUlFltRuleToIpa o.ul).1 with
        a7UlFltSet := if ((d.withEgressPipe o).wwanAddUlFltRuleToIpa o.ul).2 = 0 then true
          else ((d.withEgressPipe o).wwanAddUlFltRuleToIpa o.ul).1.a7UlFltSet } := by
    unfold autoUlRules
    rw [if_pos (fun h => hrules (hpq6.symm.trans h))]
  rw [hul] at hfail
  obtain ⟨hinstalls, hrc⟩ := ulInstallsOk_of_failures hfail
  obtain ⟨hipa, _, _, hq6, hegress⟩ := wwanAddUlFltRuleToIpa_of_ok hinstalls
  rw [hpq6] at hipa hq6
  have hctx : d.ipaQmiCtx = true :=
    (ipaQmiCtx_setupEgressPipe d o.setup).symm.trans hinstalls.1
  rw [hstep, hul]
  refine ⟨hctx, hipa, hq6, hegress, ?_⟩
  dsimp only
  rw [if_pos hrc]

/-- The ioctl, where the modem leaves the filters of the pipe to it. -/
theorem setEgressDataFormat_of_rules {d : DriverState} {o : AutoOutcome}
    (hrules : d.q6UlFilterRule ≠ []) (hctx : d.ipaQmiCtx = true)
    (hcfg : d.qmiModemCfgEmbPipeFlt = false)
    (hok : (d.setEgressDataFormat o).1.failures = d.failures) :
    (d.setEgressDataFormat o).1.ipa =
        (d.setupEgressPipe o.setup).1.ipa.linkUls d.q6UlFilterRule ∧
      (d.setEgressDataFormat o).1.q6UlFilterRule = d.q6UlFilterRule ∧
      (d.setEgressDataFormat o).1.egressSet = true ∧
      (d.setEgressDataFormat o).1.a7UlFltSet = true := by
  have hinst := d.setupEgressPipe_installs o.setup
  have hle := hinst.failures
  have hle' := ((d.setupEgressPipe o.setup).1.wwanAddUlFltRuleToIpa_installs o.ul).failures
  rw [setEgressDataFormat_of_install o hrules hctx hcfg] at hok ⊢
  dsimp only at hok ⊢
  obtain ⟨hinstalls, hrc⟩ := ulInstallsOk_of_failures
    (show ((d.setupEgressPipe o.setup).1.wwanAddUlFltRuleToIpa o.ul).1.failures =
      (d.setupEgressPipe o.setup).1.failures by omega)
  obtain ⟨hipa, _, _, hq6, _⟩ := wwanAddUlFltRuleToIpa_of_ok hinstalls
  rw [hinst.q6UlFilterRule] at hipa hq6
  exact ⟨hipa, hq6, rfl, if_pos hrc⟩

/-- Where no call of either fails, the work's step leaves the state that the ioctl leaves
exactly when the modem has not claimed the filters of the pipe, or when all its rules had
been installed before. -/
theorem autoEgress_agrees_iff {d : DriverState} {o : AutoOutcome}
    (hauto : (d.autoEgress o).1.failures = d.failures)
    (hioctl : (d.setEgressDataFormat o).1.failures = d.failures) :
    (d.autoEgress o).1.EgressAgrees (d.setEgressDataFormat o).1 ↔
      d.qmiModemCfgEmbPipeFlt = false ∨ d.UlRulesPresent := by
  have hpq6 : (d.withEgressPipe o).q6UlFilterRule = d.q6UlFilterRule :=
    (d.setupEgressPipe_installs o.setup).q6UlFilterRule
  by_cases hrules : d.q6UlFilterRule = []
  · -- without rules the two are the same step
    have hpresent : d.UlRulesPresent := by
      intro q hq
      rw [hrules] at hq
      cases hq
    have hskip : (d.withEgressPipe o).autoUlRules o = d.withEgressPipe o := by
      unfold autoUlRules
      rw [if_neg (not_not.mpr (hpq6.trans hrules))]
    rw [(autoEgress_of_failures hauto).1, hskip, setEgressDataFormat_of_no_rules o hrules]
    exact ⟨fun _ => Or.inr hpresent, fun _ => EgressAgrees.refl _⟩
  · obtain ⟨hctx, hipa, hq6, hegress, ha7⟩ := autoEgress_of_rules hrules hauto
    by_cases hcfg : d.qmiModemCfgEmbPipeFlt = true
    · -- the ioctl leaves the rules to the modem, the work installs them
      rw [setEgressDataFormat_of_modemCfg o hrules hcfg,
        ← ulRulesPresent_withEgressPipe d o, hcfg]
      have hlinked : (d.autoEgress o).1.ipa =
          (d.withEgressPipe o).ipa.linkUls (d.withEgressPipe o).q6UlFilterRule := by
        rw [hpq6]
        exact hipa
      have hset := installedUlRules_eq_iff_present hlinked (hq6.trans hpq6.symm)
      constructor
      · intro hagree
        exact Or.inr (hset.mp hagree.rules)
      · rintro (h | hpresent)
        · cases h
        · exact ⟨hset.mpr hpresent, hegress, ha7⟩
    -- both install the list behind the same pipe
    · have hcfg' : d.qmiModemCfgEmbPipeFlt = false := Bool.eq_false_of_not_eq_true hcfg
      obtain ⟨hipa', hq6', hegress', ha7'⟩ :=
        setEgressDataFormat_of_rules hrules hctx hcfg' hioctl
      have hsame : (d.autoEgress o).1.installedUlRules =
          (d.setEgressDataFormat o).1.installedUlRules := by
        unfold installedUlRules
        rw [hipa, hipa', hq6, hq6']
      exact ⟨fun _ => Or.inl hcfg', fun _ =>
        ⟨hsame, hegress.trans hegress'.symm, ha7.trans ha7'.symm⟩⟩

/-- The device tree's `qcom,modem-cfg-emb-pipe-flt`, which the QMI context takes over. -/
def withModemCfgEmbPipeFlt (d : DriverState) (flt : Bool) : DriverState :=
  { d with ipaModemCfgEmbPipeFlt := flt, qmiModemCfgEmbPipeFlt := flt }

/-- A rule for each family and a wildcard: without the property, and with it once the rules
are there. -/
theorem autoEgress_agrees_installed :
    let d := atHandshake [{ q6Wildcard with ip := .v4 }, { q6Wildcard with ip := .v6 }, q6Wildcard]
    let d' := (d.autoEgress {}).1.withModemCfgEmbPipeFlt true
    (d.autoEgress {}).1.EgressAgrees (d.setEgressDataFormat {}).1 ∧
      (d'.autoEgress {}).1.EgressAgrees (d'.setEgressDataFormat {}).1 := by
  refine ⟨(autoEgress_agrees_iff (by decide) (by decide)).mpr (Or.inl rfl),
    (autoEgress_agrees_iff (by decide) (by decide)).mpr (Or.inr ?_)⟩
  unfold UlRulesPresent
  decide

/-- A modem that filters the embedded pipe itself: the work installs its rule on that
pipe, the ioctl does not. -/
theorem autoEgress_not_agrees_modemCfg :
    let d := (atHandshake [q6Wildcard]).withModemCfgEmbPipeFlt true
    (d.autoEgress {}).1.failures = d.failures ∧
      (d.setEgressDataFormat {}).1.failures = d.failures ∧
      ¬ (d.autoEgress {}).1.EgressAgrees (d.setEgressDataFormat {}).1 := by
  refine ⟨by decide, by decide, ?_⟩
  intro hagree
  have hauto : (IpaIpType.v4, ulFltRule q6Wildcard) ∈
      (((atHandshake [q6Wildcard]).withModemCfgEmbPipeFlt true).autoEgress
        {}).1.installedUlRules :=
    ⟨⟨q6Wildcard, by decide, rfl⟩, by decide⟩
  rw [hagree.rules] at hauto
  have hioctl := hauto.2
  revert hioctl
  decide

end DriverState

end X00TDCellular
