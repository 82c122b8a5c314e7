import X00TDCellular.SpecAgreement

/-! When FILTER_INSTALLED_NOTIF says what is the case. A run sends it whatever became of
the rules and of the request before, with the handles that the variables hold by then. -/

namespace X00TDCellular
open Transition

/-- The two calls of the rule's installer that come before it adds anything. -/
def AutoOutcome.installerOk (o : AutoOutcome) (r : WanDlRule) : Bool :=
  if r ∈ [WanDlRule.icmpV4, .icmpV6] then o.icmpQueryOk && o.icmpParamOk
  else o.mcastQueryOk && o.mcastParamOk

namespace DriverState

/-- The handle variable names an entry for the rule, for whatever routing table. -/
def Names (d : DriverState) (r : WanDlRule) : Prop :=
  ∃ e ∈ (d.ipa.fltTbl (lanWanTbl r.ip)).entries, e.id = some (d.wanDlFltHdl r) ∧
    e.rule.action = .passToRouting ∧ e.rule.eqAttribType = true ∧
    e.rule.eqAttrib = r.eqAttrib

/-- The handle names the rule that the spec describes, by family, action and equation.
Routing table and mux id are left out: on those no spec agrees with its rule. -/
def Describes (d : DriverState) (fi : FilterIndex) (spec : FilterSpec) : Prop :=
  ∃ e ∈ (d.ipa.fltTbl (lanWanTbl spec.ipType)).entries, e.id = some fi.filterHandle ∧
    e.rule.action = spec.filterAction ∧ e.rule.eqAttribType = true ∧
    e.rule.eqAttrib = spec.filterRule

/-- Memory, an id, the commit, and a routing table index that the table accepts. -/
def Fits (d : DriverState) (rtIdx : ℕ) (r : WanDlRule) (o : AddOutcome) : Prop :=
  o.commitOk = true ∧ (o.rules.headD {}).entryOk = true ∧ (o.rules.headD {}).idOk = true ∧
    d.ipa.ruleValid (r.fltRule rtIdx) = true

/-- The run adds the rule: it finds an index, nothing fails, and the table has room for
all that the run may add to it. -/
def AddsRule (d : DriverState) (o : AutoOutcome) (r : WanDlRule) : Prop :=
  ∃ rtIdx ∈ d.wanDlRtIdx, o.installerOk r = true ∧ d.Fits rtIdx r (o.add r) ∧
    (d.ipa.fltTbl (lanWanTbl r.ip)).ruleCnt + (d.autoPending o (lanWanTbl r.ip)).length ≤
      ruleCntMax

/-- The run does not write the rule's handle variable. -/
def KeepsHandle (d : DriverState) (o : AutoOutcome) (r : WanDlRule) : Prop :=
  d.wanDlRtIdx = none ∨ o.installerOk r = false ∨ (o.add r).commitOk = false

theorem Named.names {d : DriverState} {r : WanDlRule} {rtIdx : ℕ} (h : d.Named r rtIdx) :
    d.Names r :=
  ⟨_, h, rfl, rfl, rfl, rfl⟩

theorem Names.describes {d : DriverState} {r : WanDlRule} (h : d.Names r) :
    d.Describes ⟨r.filterIndex, d.wanDlFltHdl r⟩
      (filterSpec r.filterIndex r.ip r.eqAttrib) :=
  h

theorem Installs.names {d d' : DriverState} {rs : List WanDlRule}
    {pending : FltTblKey → List FltRule} (h : d.Installs d' rs pending) {r : WanDlRule}
    (hhdl : d'.wanDlFltHdl r = d.wanDlFltHdl r) (hnames : d.Names r) : d'.Names r := by
  obtain ⟨e, he, hid, hrule⟩ := hnames
  refine ⟨e, h.grows.mem he, ?_, hrule⟩
  rw [hhdl]
  exact hid

theorem Installs.fits {d d' : DriverState} {rs : List WanDlRule}
    {pending : FltTblKey → List FltRule} (h : d.Installs d' rs pending) {rtIdx : ℕ}
    {r : WanDlRule} {o : AddOutcome} (hfits : d.Fits rtIdx r o) : d'.Fits rtIdx r o := by
  obtain ⟨hcommit, hentry, hid, hvalid⟩ := hfits
  refine ⟨hcommit, hentry, hid, ?_⟩
  rw [h.grows.ruleValid]
  exact hvalid

section Adds

theorem length_pendingRule_of_fits {d : DriverState} {rtIdx : ℕ} {r : WanDlRule}
    {o : AddOutcome} (hfits : d.Fits rtIdx r o) :
    (d.ipa.pendingRule (lanWanTbl r.ip) (r.fltRule rtIdx) (lanWanTbl r.ip)).length = 1 := by
  obtain ⟨_, _, _, hvalid⟩ := hfits
  simp [IpaCtx.pendingRule, hvalid]

/-- A rule that fits is named in the end, if the table has room for the whole list. -/
theorem addWanDlRules_named_of_fits {d : DriverState} {rtIdx : ℕ} {rules : List WanDlRule}
    {o : WanDlRule → AddOutcome} {r : WanDlRule} (hnodup : rules.Nodup) (hr : r ∈ rules)
    (hfits : d.Fits rtIdx r (o r))
    (hroom : (d.ipa.fltTbl (lanWanTbl r.ip)).ruleCnt + (rules.flatMap fun r' =>
      d.ipa.pendingRule (lanWanTbl r'.ip) (r'.fltRule rtIdx) (lanWanTbl r.ip)).length ≤
        ruleCntMax) :
    (d.addWanDlRules rtIdx rules o).Named r rtIdx := by
  induction rules generalizing d with
  | nil => cases hr
  | cons r' rules ih =>
    obtain ⟨hnot, hnodup'⟩ := List.nodup_cons.mp hnodup
    have hadd := d.addWanDlRule_installs rtIdx r' (o r')
    rw [List.flatMap_cons, List.length_append] at hroom
    rcases List.mem_cons.mp hr with rfl | htail
    · have hone := length_pendingRule_of_fits hfits
      obtain ⟨hcommit, hentry, hid, hvalid⟩ := hfits
      have hsome : (d.ipa.addFltRule (lanWanTbl r.ip) (r.fltRule rtIdx) true
          ((o r).rules.headD {})).2.isSome :=
        d.ipa.addFltRule_isSome hvalid hentry hid (by omega)
      have hnamed := addWanDlRule_named_of_isSome hcommit hsome
      exact ((d.addWanDlRule rtIdx r (o r)).addWanDlRules_installs rtIdx rules o).named hnot
        hnamed
    · apply ih hnodup' htail (hadd.fits hfits)
      -- the first rule has taken at most its own share of the room
      have hcnt := hadd.grows.ruleCnt_le (lanWanTbl r.ip)
      simp only [hadd.pendingRule]
      omega

theorem wanDlPending_eq {d : DriverState} {rtIdx : ℕ} (hidx : d.wanDlRtIdx = some rtIdx)
    (r : WanDlRule) :
    d.wanDlPending r = d.ipa.pendingRule (lanWanTbl r.ip) (r.fltRule rtIdx) := by
  unfold wanDlPending
  rw [hidx]

/-- The same for an installer whose calls succeed. -/
theorem installWanDlRules_named_of_fits {d : DriverState} {rtIdx : ℕ}
    {rules : List WanDlRule} {queryOk paramOk : Bool} {o : WanDlRule → AddOutcome}
    {r : WanDlRule} (hidx : d.wanDlRtIdx = some rtIdx) (hok : (queryOk && paramOk) = true)
    (hnodup : rules.Nodup) (hr : r ∈ rules) (hfits : d.Fits rtIdx r (o r))
    (hroom : (d.ipa.fltTbl (lanWanTbl r.ip)).ruleCnt +
      (rules.flatMap fun r' => d.wanDlPending r' (lanWanTbl r.ip)).length ≤ ruleCntMax) :
    (d.installWanDlRules rules queryOk paramOk o).Named r rtIdx := by
  rw [installWanDlRules_eq, hidx]
  dsimp only
  rw [if_pos hok]
  simp only [wanDlPending_eq hidx] at hroom
  exact addWanDlRules_named_of_fits hnodup hr hfits hroom

theorem autoWanDlRules_named_of_fits {d : DriverState} {o : AutoOutcome} {rtIdx : ℕ}
    {r : WanDlRule} (hidx : d.wanDlRtIdx = some rtIdx) (hok : o.installerOk r = true)
    (hfits : d.Fits rtIdx r (o.add r))
    (hroom : (d.ipa.fltTbl (lanWanTbl r.ip)).ruleCnt +
      (d.autoWanDlPending (lanWanTbl r.ip)).length ≤ ruleCntMax) :
    (d.autoWanDlRules o).Named r rtIdx := by
  have hicmp := d.installIcmpPassthroughRule_installs o
  have hmcast := (d.installIcmpPassthroughRule o).installMcastBcastFilterRules_installs o
  have hsplit : d.autoWanDlPending (lanWanTbl r.ip) =
      ([WanDlRule.icmpV4, .icmpV6].flatMap fun r' => d.wanDlPending r' (lanWanTbl r.ip)) ++
      [WanDlRule.mcastV4, .bcastV4, .mcastV6, .lnklclV6].flatMap
        fun r' => d.wanDlPending r' (lanWanTbl r.ip) := by
    rw [← List.flatMap_append]
    rfl
  rw [hsplit, List.length_append] at hroom
  unfold AutoOutcome.installerOk at hok
  by_cases hr : r ∈ [WanDlRule.icmpV4, .icmpV6]
  · rw [if_pos hr] at hok
    have hnot : r ∉ [WanDlRule.mcastV4, .bcastV4, .mcastV6, .lnklclV6] := by
      rw [WanDlRule.mem_mcast_iff]
      exact not_not.mpr hr
    apply hmcast.named hnot
    exact installWanDlRules_named_of_fits hidx hok (by decide) hr hfits (by omega)
  · rw [if_neg hr] at hok
    have hidx' : (d.installIcmpPassthroughRule o).wanDlRtIdx = some rtIdx :=
      hicmp.wanDlRtIdx.trans hidx
    have hcnt := hicmp.grows.ruleCnt_le (lanWanTbl r.ip)
    apply installWanDlRules_named_of_fits hidx' hok (by decide) (r.mem_mcast_iff.mpr hr)
      (hicmp.fits hfits)
    simp only [hicmp.wanDlPending]
    omega

end Adds

section Keeps

theorem wanDlFltHdl_addWanDlRule_of_commit {d : DriverState} {rtIdx : ℕ} {r : WanDlRule}
    {o : AddOutcome} (hcommit : o.commitOk = false) :
    (d.addWanDlRule rtIdx r o).wanDlFltHdl = d.wanDlFltHdl := by
  have hrc : (d.addFltRule (r.addReq rtIdx) o).2.2 ≠ 0 := by
    intro hzero
    have hok := (IpaCtx.ipa2AddFltRule_rc (List.cons_ne_nil _ _) r.ip_ne_max).mp hzero rfl
    rw [hcommit] at hok
    cases hok
  unfold addWanDlRule
  dsimp only
  rw [if_neg hrc]
  rfl

theorem wanDlFltHdl_addWanDlRules_of_commit {d : DriverState} {rtIdx : ℕ}
    (rules : List WanDlRule) {o : WanDlRule → AddOutcome} {r : WanDlRule}
    (hcommit : (o r).commitOk = false) :
    (d.addWanDlRules rtIdx rules o).wanDlFltHdl r = d.wanDlFltHdl r := by
  induction rules generalizing d with
  | nil => rfl
  | cons r' rules ih =>
    have hrest : (d.addWanDlRules rtIdx (r' :: rules) o).wanDlFltHdl r =
        (d.addWanDlRule rtIdx r' (o r')).wanDlFltHdl r := ih
    rw [hrest]
    by_cases hr : r = r'
    · rw [← hr, wanDlFltHdl_addWanDlRule_of_commit hcommit]
    · apply (d.addWanDlRule_installs rtIdx r' (o r')).wanDlFltHdl
      exact fun hmem => hr (List.mem_singleton.mp hmem)

theorem wanDlFltHdl_installWanDlRules_of_keeps {d : DriverState} (rules : List WanDlRule)
    {queryOk paramOk : Bool} {o : WanDlRule → AddOutcome} {r : WanDlRule}
    (h : d.wanDlRtIdx = none ∨ (queryOk && paramOk) = false ∨ (o r).commitOk = false) :
    (d.installWanDlRules rules queryOk paramOk o).wanDlFltHdl r = d.wanDlFltHdl r := by
  rw [installWanDlRules_eq]
  cases hidx : d.wanDlRtIdx with
  | none => rfl
  | some rtIdx =>
    dsimp only
    split
    · rename_i hok
      rcases h with hnone | hfail | hcommit
      · rw [hidx] at hnone
        cases hnone
      · rw [hok] at hfail
        cases hfail
      · exact wanDlFltHdl_addWanDlRules_of_commit rules hcommit
    · rfl

theorem wanDlFltHdl_autoWanDlRules_of_keeps {d : DriverState} {o : AutoOutcome}
    {r : WanDlRule} (h : d.KeepsHandle o r) :
    (d.autoWanDlRules o).wanDlFltHdl r = d.wanDlFltHdl r := by
  have hicmp := d.installIcmpPassthroughRule_installs o
  have hmcast := (d.installIcmpPassthroughRule o).installMcastBcastFilterRules_installs o
  unfold KeepsHandle AutoOutcome.installerOk at h
  by_cases hr : r ∈ [WanDlRule.icmpV4, .icmpV6]
  · rw [if_pos hr] at h
    have hnot : r ∉ [WanDlRule.mcastV4, .bcastV4, .mcastV6, .lnklclV6] := by
      rw [WanDlRule.mem_mcast_iff]
      exact not_not.mpr hr
    exact (hmcast.wanDlFltHdl r hnot).trans (wanDlFltHdl_installWanDlRules_of_keeps _ h)
  · rw [if_neg hr] at h
    have hidx : (d.installIcmpPassthroughRule o).wanDlRtIdx = d.wanDlRtIdx :=
      hicmp.wanDlRtIdx
    rw [← hidx] at h
    exact (wanDlFltHdl_installWanDlRules_of_keeps _ h).trans (hicmp.wanDlFltHdl r hr)

end Keeps

/-- Either way the variable names the rule when the notification is built. -/
theorem beforeNotif_names {d : DriverState} {o : AutoOutcome} {r : WanDlRule}
    (h : d.AddsRule o r ∨ d.KeepsHandle o r ∧ d.Names r) : (d.beforeNotif o).Names r := by
  have hegress := d.autoEgress_installs o
  have hrules := (d.autoEgress o).1.autoWanDlRules_installs o
  have hsent := installWanDlQmiFilterNotify_installs ((d.autoEgress o).1.autoWanDlRules o) o
  apply hsent.names (hsent.wanDlFltHdl r List.not_mem_nil)
  rcases h with ⟨rtIdx, hidx, hok, hfits, hroom⟩ | ⟨hkeeps, hnames⟩
  · -- step 1 has taken its share of the room
    have hcnt := hegress.grows.ruleCnt_le (lanWanTbl r.ip)
    have hpending : (d.autoEgress o).1.autoWanDlPending = d.autoWanDlPending := by
      unfold autoWanDlPending
      simp only [hegress.wanDlPending]
    rw [autoPending, List.length_append] at hroom
    have hnamed := autoWanDlRules_named_of_fits (hegress.wanDlRtIdx.trans hidx) hok
      (hegress.fits hfits) (by rw [hpending]; omega)
    exact hnamed.names
  · have hkeeps' : (d.autoEgress o).1.KeepsHandle o r := by
      unfold KeepsHandle
      rw [hegress.wanDlRtIdx]
      exact hkeeps
    apply hrules.names (wanDlFltHdl_autoWanDlRules_of_keeps hkeeps')
    exact hegress.names (hegress.wanDlFltHdl r List.not_mem_nil) hnames

/-- A run that gets as far as sending the notification does so after a request that the
modem has accepted, and each variable names its rule: the run adds it, or keeps a handle
from before. -/
def MayNotify (d : DriverState) : DriverAction → Prop
  | .autoIpacmInit o => d.autoIpacmInitDone = false → d.netdev = true → o.setup.ok = true →
      o.notifOk = true → o.notif ≠ .notSent →
        o.reqOk = true ∧ o.install = .accepted ∧
          ∀ r, d.AddsRule o r ∨ d.KeepsHandle o r ∧ d.Names r
  | _ => True

/-- The run sends notification `n` about the WAN-DL rules. -/
def SendsNotif (d : DriverState) (o : AutoOutcome) (n : FltrInstalledNotif) : Prop :=
  d.autoIpacmInitDone = false ∧ d.netdev = true ∧ o.setup.ok = true ∧
    ((d.takeWork.beforeNotif o).installWanDlQmiFilterInstalledNotif o).qmiSent =
      (d.takeWork.beforeNotif o).qmiSent ++ [.filterInstalledNotif n]

/-- INSTALL_FILTER_RULE returns success in the run. -/
def RequestAccepted (d : DriverState) (o : AutoOutcome) : Prop :=
  o.reqOk = true ∧ (((d.takeWork.autoEgress o).1.autoWanDlRules o).qmiFilterRequestSend
    wanDlFilterReq o.install).2 = 0

/-- If the run sends a notification that says success, the request has been accepted,
and the tables of that moment have the rule of each spec under the handle listed for
it. -/
def Truthful (d : DriverState) : DriverAction → Prop
  | .autoIpacmInit o => ∀ n, d.SendsNotif o n → n.installStatus = .success →
      d.RequestAccepted o ∧ ∀ fi ∈ n.filterIndexList,
        ∃ spec ∈ wanDlFilterReq.filterSpecList[fi.filterIndex]?,
          (d.takeWork.beforeNotif o).Describes fi spec
  | _ => True

/-- A notification that is sent is the one about the handle variables. -/
theorem eq_of_notif_sent {d : DriverState} {o : AutoOutcome} {n : FltrInstalledNotif}
    (h : (d.installWanDlQmiFilterInstalledNotif o).qmiSent =
      d.qmiSent ++ [.filterInstalledNotif n]) :
    o.notifOk = true ∧ o.notif ≠ .notSent ∧ n = wanDlInstalledNotif d.wanDlFltHdl := by
  have hvalid : d.notifValid (wanDlInstalledNotif d.wanDlFltHdl) = true := by
    have hpipes := d.ipa.pipes
    simp [notifValid, wanDlInstalledNotif, wanDlFilterIndexList, qmiIpaMaxFilters, appsLanWanProd]
    omega
  have hnone : d.qmiSent ≠ d.qmiSent ++ [.filterInstalledNotif n] := by
    simp
  unfold installWanDlQmiFilterInstalledNotif at h
  by_cases hok : o.notifOk = true
  · rw [if_neg (not_not.mpr hok)] at h
    unfold qmiFilterNotifySend at h
    rw [if_neg (not_not.mpr hvalid)] at h
    cases hout : o.notif with
    | notSent =>
      rw [hout] at h
      exact absurd h hnone
    -- a message that fails has been sent
    | failed =>
      rw [hout] at h
      have hn := List.append_cancel_left h
      simp only [List.cons.injEq, QmiMsg.filterInstalledNotif.injEq, and_true] at hn
      exact ⟨hok, by decide, hn.symm⟩
    | accepted =>
      rw [hout] at h
      have hn := List.append_cancel_left h
      simp only [List.cons.injEq, QmiMsg.filterInstalledNotif.injEq, and_true] at hn
      exact ⟨hok, by decide, hn.symm⟩
  · rw [if_pos hok] at h
    exact absurd h hnone

/-- One step, whatever it is. -/
theorem MayNotify.truthful {d : DriverState} {a : DriverAction} (h : d.MayNotify a) :
    d.Truthful a := by
  cases a with
  | q6HandshakeComplete => trivial
  | addMuxChannel muxId name o => trivial
  | autoIpacmInit o =>
    rintro n ⟨hdone, hnetdev, hok, hsent⟩ _
    obtain ⟨hnotif, hnot, rfl⟩ := eq_of_notif_sent hsent
    obtain ⟨hreq, hinstall, hrules⟩ := h hdone hnetdev hok hnotif hnot
    constructor
    · refine ⟨hreq, ?_⟩
      rw [hinstall, qmiFilterRequestSend,
        if_neg (not_not.mpr (filterRequestValid_wanDlFilterReq _))]
    · intro fi hfi
      obtain ⟨r, rfl⟩ := mem_wanDlFilterIndexList.mp hfi
      refine ⟨_, filterSpecList_filterIndex r, ?_⟩
      have hnames : (d.takeWork.beforeNotif o).Names r := beforeNotif_names (hrules r)
      exact hnames.describes

/-- From every state, and over all steps that follow. -/
theorem notif_truthful {d : DriverState} {as : List DriverAction}
    (hguard : Guarded step MayNotify d as) : Guarded step Truthful d as :=
  hguard.mono fun _ _ h => h.truthful

instance (d : DriverState) (r : WanDlRule) : Decidable (d.Names r) :=
  inferInstanceAs (Decidable (∃ _ ∈ _, _))

instance (d : DriverState) (fi : FilterIndex) (spec : FilterSpec) :
    Decidable (d.Describes fi spec) :=
  inferInstanceAs (Decidable (∃ _ ∈ _, _))

instance (d : DriverState) (rtIdx : ℕ) (r : WanDlRule) (o : AddOutcome) :
    Decidable (d.Fits rtIdx r o) :=
  inferInstanceAs (Decidable (_ ∧ _))

instance (d : DriverState) (o : AutoOutcome) (r : WanDlRule) : Decidable (d.AddsRule o r) :=
  inferInstanceAs (Decidable (∃ _ ∈ _, _))

instance (d : DriverState) (o : AutoOutcome) (r : WanDlRule) :
    Decidable (d.KeepsHandle o r) :=
  inferInstanceAs (Decidable (_ ∨ _))

instance (d : DriverState) : ∀ a, Decidable (d.MayNotify a)
  | .q6HandshakeComplete => isTrue trivial
  | .addMuxChannel _ _ _ => isTrue trivial
  | .autoIpacmInit _ => inferInstanceAs (Decidable (_ → _ → _ → _ → _ → _))

/-- Without a channel the rules are skipped, and the notification reports success for
handles of zero; it does so too when the modem has turned the request down. -/
theorem not_truthful_noChannel :
    ¬ Guarded step Truthful (atHandshake [q6Wildcard]) [.autoIpacmInit {}] ∧
      ¬ Guarded step Truthful (atHandshake [q6Wildcard])
        [.autoIpacmInit { install := .failed }] := by
  constructor
  · rintro ⟨htruthful, _⟩
    have hsent : (atHandshake [q6Wildcard]).SendsNotif {} (wanDlInstalledNotif fun _ => 0) :=
      ⟨rfl, rfl, rfl, rfl⟩
    obtain ⟨_, hlist⟩ := htruthful _ hsent rfl
    -- index 1 is the multicast rule
    obtain ⟨spec, hspec, hdescribes⟩ := hlist ⟨1, 0⟩ (by decide)
    cases hspec
    revert hdescribes
    decide
  · rintro ⟨htruthful, _⟩
    have hsent : (atHandshake [q6Wildcard]).SendsNotif { install := .failed }
        (wanDlInstalledNotif fun _ => 0) :=
      ⟨rfl, rfl, rfl, rfl⟩
    obtain ⟨⟨_, hrequest⟩, _⟩ := htruthful _ hsent rfl
    revert hrequest
    decide

/-- With a channel registered the first run sends the notification, and may. -/
theorem notif_truthful_withChannel :
    Guarded step Truthful (withChannel 1) [.autoIpacmInit {}] ∧
      ∃ n, (withChannel 1).SendsNotif {} n ∧ n.installStatus = .success :=
  ⟨notif_truthful (by decide), _, ⟨rfl, rfl, rfl, rfl⟩, rfl⟩

end DriverState
end X00TDCellular
