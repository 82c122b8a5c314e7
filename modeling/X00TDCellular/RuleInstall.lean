import X00TDCellular.AutoIpacm

/-! What the installing steps change: filter tables grow by the rules of the step, and
the mux channels, the interfaces and the modem's rules stay as they are. -/

namespace X00TDCellular
namespace DriverState

/-- A step that installs rules from `pending` and may store handles of the WAN-DL
rules `rs`. -/
structure Installs (d d' : DriverState) (rs : List WanDlRule)
    (pending : FltTblKey → List FltRule) : Prop where
  grows : d.ipa.Grows d'.ipa pending
  failures : d.failures ≤ d'.failures
  muxChannel : d'.muxChannel = d.muxChannel
  rmnetIndex : d'.rmnetIndex = d.rmnetIndex
  intfList : d'.intfList = d.intfList
  q6UlFilterRule : d'.q6UlFilterRule = d.q6UlFilterRule
  initDone : d'.autoIpacmInitDone = d.autoIpacmInitDone
  wanDlFltHdl : ∀ r, r ∉ rs → d'.wanDlFltHdl r = d.wanDlFltHdl r

theorem Installs.refl (d : DriverState) (rs : List WanDlRule)
    (pending : FltTblKey → List FltRule) : d.Installs d rs pending :=
  ⟨IpaCtx.Grows.refl _, Nat.le_refl _, rfl, rfl, rfl, rfl, rfl, fun _ _ => rfl⟩

theorem Installs.trans {d d' d'' : DriverState} {rs rs' : List WanDlRule}
    {pending pending' : FltTblKey → List FltRule} (h : d.Installs d' rs pending)
    (h' : d'.Installs d'' rs' pending') :
    d.Installs d'' (rs ++ rs') (fun k => pending k ++ pending' k) where
  grows := h.grows.trans h'.grows
  failures := Nat.le_trans h.failures h'.failures
  muxChannel := h'.muxChannel.trans h.muxChannel
  rmnetIndex := h'.rmnetIndex.trans h.rmnetIndex
  intfList := h'.intfList.trans h.intfList
  q6UlFilterRule := h'.q6UlFilterRule.trans h.q6UlFilterRule
  initDone := h'.initDone.trans h.initDone
  wanDlFltHdl := by
    intro r hr
    rw [List.mem_append, not_or] at hr
    rw [h'.wanDlFltHdl r hr.2, h.wanDlFltHdl r hr.1]

/-- A step that adds nothing may follow any step. -/
theorem Installs.then {d d' d'' : DriverState} {rs : List WanDlRule}
    {pending : FltTblKey → List FltRule} (h : d.Installs d' rs pending)
    (h' : d'.Installs d'' [] (fun _ => [])) : d.Installs d'' rs pending := by
  have hall := h.trans h'
  simp only [List.append_nil] at hall
  exact hall

/-- The fields that the installing steps are about. -/
def installed (d : DriverState) :=
  (d.ipa, d.failures, d.muxChannel, d.rmnetIndex, d.intfList, d.q6UlFilterRule,
    d.autoIpacmInitDone, d.wanDlFltHdl)

/-- The other fields may change as they like. -/
theorem Installs.of_same {d d' d'' : DriverState} {rs : List WanDlRule}
    {pending : FltTblKey → List FltRule} (h : d.Installs d' rs pending)
    (hsame : d''.installed = d'.installed) : d.Installs d'' rs pending := by
  simp only [installed, Prod.mk.injEq] at hsame
  obtain ⟨hipa, hfailures, hmux, hindex, hintf, hq6, hdone, hhdl⟩ := hsame
  refine ⟨?_, ?_, hmux.trans h.muxChannel, hindex.trans h.rmnetIndex,
    hintf.trans h.intfList, hq6.trans h.q6UlFilterRule, hdone.trans h.initDone, ?_⟩
  · rw [hipa]
    exact h.grows
  · rw [hfailures]
    exact h.failures
  · rw [hhdl]
    exact h.wanDlFltHdl

theorem note_installs (d : DriverState) (ok : Bool) (rs : List WanDlRule)
    (pending : FltTblKey → List FltRule) : d.Installs (d.note ok) rs pending :=
  ⟨IpaCtx.Grows.refl _, Nat.le_add_right _ _, rfl, rfl, rfl, rfl, rfl, fun _ _ => rfl⟩

theorem addFltRule_installs (d : DriverState) (req : AddFltRuleReq) (o : AddOutcome) :
    d.Installs (d.addFltRule req o).1 []
      (d.ipa.pendingRules req.key (req.rules.map (·.rule))) :=
  ⟨d.ipa.ipa2AddFltRule_grows req o, Nat.le_add_right _ _, rfl, rfl, rfl, rfl, rfl,
    fun _ _ => rfl⟩

theorem send_installs (d : DriverState) (msg : QmiMsg) :
    d.Installs { d with qmiSent := d.qmiSent ++ [msg] } [] (fun _ => []) :=
  (Installs.refl d [] _).of_same rfl

theorem qmiFilterNotifySend_installs (d : DriverState) (req : FltrInstalledNotif)
    (o : SendOutcome) : d.Installs (d.qmiFilterNotifySend req o).1 [] (fun _ => []) := by
  have hsent := d.send_installs (.filterInstalledNotif req)
  unfold qmiFilterNotifySend
  split
  · exact d.note_installs _ _ _
  · cases o with
    | notSent => exact d.note_installs _ _ _
    | failed => exact hsent.then (note_installs _ _ _ _)
    | accepted => exact hsent

section Uplink

/-- The rules that one cached rule stands for, in their tables. -/
def ulPending (d : DriverState) (q : ExtIntfProp) : FltTblKey → List FltRule :=
  fun k =>
    if q.ip = .max then
      d.ipa.pendingRule (lanWanTbl .v4) (ulFltRule q) k ++
        d.ipa.pendingRule (lanWanTbl .v6) (ulFltRule q) k
    else d.ipa.pendingRule (lanWanTbl q.ip) (ulFltRule q) k

theorem Installs.ulPending {d d' : DriverState} {rs : List WanDlRule}
    {pending : FltTblKey → List FltRule} (h : d.Installs d' rs pending) (q : ExtIntfProp) :
    d'.ulPending q = d.ulPending q := by
  funext k
  simp only [DriverState.ulPending, IpaCtx.pendingRule, h.grows.ruleValid]

theorem Installs.pendingRule {d d' : DriverState} {rs : List WanDlRule}
    {pending : FltTblKey → List FltRule} (h : d.Installs d' rs pending) (key : FltTblKey)
    (rule : FltRule) : d'.ipa.pendingRule key rule = d.ipa.pendingRule key rule := by
  funext k
  simp only [IpaCtx.pendingRule, h.grows.ruleValid]

theorem addFltRule_installs_single (d : DriverState) (req : AddFltRuleReq) (r : FltRuleAdd)
    (hrules : req.rules = [r]) (o : AddOutcome) :
    d.Installs (d.addFltRule req o).1 [] (d.ipa.pendingRule req.key r.rule) := by
  have h := d.addFltRule_installs req o
  rw [hrules, List.map_singleton, IpaCtx.pendingRules_singleton] at h
  exact h

theorem addUlRuleFor_installs (d : DriverState) (i : ℕ) (q : ExtIntfProp) (ip : IpaIpType)
    (o : AddOutcome) :
    d.Installs (d.addUlRuleFor i q ip o).1 []
      (d.ipa.pendingRule (lanWanTbl ip) (ulFltRule q)) := by
  have h := d.addFltRule_installs_single (ulFltRuleReq q ip) _ rfl o
  unfold addUlRuleFor
  dsimp only
  split
  · exact h.of_same rfl
  · exact h

theorem addUlRule_installs (d : DriverState) (i : ℕ) (q : ExtIntfProp)
    (o : IpaIpType → AddOutcome) :
    d.Installs (d.addUlRule i q o).1 [] (d.ulPending q) := by
  unfold addUlRule
  by_cases hmax : q.ip = .max
  · have h4 := d.addUlRuleFor_installs i q .v4 (o .v4)
    have h6 := addFltRule_installs_single (d.addUlRuleFor i q .v4 (o .v4)).1
      (ulFltRuleReq q .v6) _ rfl (o .v6)
    -- the first copy has changed nothing the second one is checked against
    rw [h4.pendingRule] at h6
    rw [if_pos hmax]
    unfold DriverState.ulPending
    simp only [hmax, if_true]
    exact h4.trans h6
  · rw [if_neg hmax]
    unfold DriverState.ulPending
    simp only [hmax, if_false]
    exact d.addUlRuleFor_installs i q q.ip (o q.ip)

theorem addUlRules_installs (d : DriverState) (o : ℕ → IpaIpType → AddOutcome) (i : ℕ)
    (qs : List ExtIntfProp) :
    d.Installs (d.addUlRules o i qs).1 [] (fun k => qs.flatMap fun q => d.ulPending q k) := by
  induction qs generalizing d i with
  | nil => exact Installs.refl _ _ _
  | cons q qs ih =>
    have hadd := d.addUlRule_installs i q (o i)
    have hrest := ih (d.addUlRule i q (o i)).1 (i+1)
    simp only [hadd.ulPending] at hrest
    exact hadd.trans hrest

/-- The modem's rules, if the call gets as far as adding them. -/
def ulRulesPending (d : DriverState) (o : UlOutcome) : FltTblKey → List FltRule :=
  fun k =>
    if d.ipaQmiCtx ∧ o.allocOk then d.q6UlFilterRule.flatMap fun q => d.ulPending q k else []

theorem wwanAddUlFltRuleToIpa_installs (d : DriverState) (o : UlOutcome) :
    d.Installs (d.wwanAddUlFltRuleToIpa o).1 [] (d.ulRulesPending o) := by
  unfold wwanAddUlFltRuleToIpa
  by_cases hctx : d.ipaQmiCtx = true
  · rw [if_neg (not_not.mpr hctx)]
    by_cases halloc : o.allocOk = true
    · rw [if_neg (not_not.mpr halloc)]
      have h := (d.addUlRules_installs o.add 0 d.q6UlFilterRule).then
        (qmiFilterNotifySend_installs _ (ulInstalledNotif d.q6UlFilterRule) o.notify)
      unfold DriverState.ulRulesPending
      simp only [hctx, halloc, and_self, if_true]
      exact h.of_same rfl
    · rw [if_pos halloc]
      exact d.note_installs _ _ _
  · rw [if_pos hctx]
    exact d.note_installs _ _ _

end Uplink

section WanDl

/-- The handle variable of the rule names an entry for it, with routing table `rtIdx`. -/
def Named (d : DriverState) (r : WanDlRule) (rtIdx : ℕ) : Prop :=
  (⟨r.fltRule rtIdx, some (d.wanDlFltHdl r)⟩ : FltEntry) ∈
    (d.ipa.fltTbl (lanWanTbl r.ip)).entries

instance (d : DriverState) (r : WanDlRule) (rtIdx : ℕ) : Decidable (d.Named r rtIdx) :=
  inferInstanceAs (Decidable (_ ∈ _))

theorem Installs.named {d d' : DriverState} {rs : List WanDlRule}
    {pending : FltTblKey → List FltRule} (h : d.Installs d' rs pending) {r : WanDlRule}
    {rtIdx : ℕ} (hr : r ∉ rs) (hnamed : d.Named r rtIdx) : d'.Named r rtIdx := by
  unfold Named
  rw [h.wanDlFltHdl r hr]
  exact h.grows.mem hnamed

theorem addWanDlRule_installs (d : DriverState) (rtIdx : ℕ) (r : WanDlRule)
    (o : AddOutcome) :
    d.Installs (d.addWanDlRule rtIdx r o) [r]
      (d.ipa.pendingRule (lanWanTbl r.ip) (r.fltRule rtIdx)) := by
  have h := d.addFltRule_installs_single (r.addReq rtIdx) _ rfl o
  unfold addWanDlRule
  dsimp only
  split
  · refine ⟨h.grows, h.failures, h.muxChannel, h.rmnetIndex, h.intfList, h.q6UlFilterRule,
      h.initDone, ?_⟩
    intro r' hr'
    have hne : r' ≠ r := fun heq => hr' (heq ▸ List.mem_singleton_self r)
    simp only [Function.update_of_ne hne]
    exact h.wanDlFltHdl r' List.not_mem_nil
  · exact ⟨h.grows, h.failures, h.muxChannel, h.rmnetIndex, h.intfList, h.q6UlFilterRule,
      h.initDone, fun r' _ => h.wanDlFltHdl r' List.not_mem_nil⟩

/-- A request that reports no failure, neither for itself nor for its rule, leaves the
rule named by its variable. -/
theorem addWanDlRule_named {d : DriverState} {rtIdx : ℕ} {r : WanDlRule} {o : AddOutcome}
    (hrc : (d.addFltRule (r.addReq rtIdx) o).2.2 = 0)
    (hstatus : ∀ x ∈ (d.addFltRule (r.addReq rtIdx) o).2.1.rules, x.status = 0) :
    (d.addWanDlRule rtIdx r o).Named r rtIdx := by
  rcases d.ipa.ipa2AddFltRule_single (r.addReq rtIdx) _ rfl r.ip_ne_max o with
    ⟨id, _, hrules, hmem⟩ | ⟨_, hrules⟩
  · have hhdl : hdlOf (d.addFltRule (r.addReq rtIdx) o).2.1 = id := by
      show (((d.ipa.ipa2AddFltRule (r.addReq rtIdx) o).2.1.rules.head?.map _).getD 0) = id
      rw [hrules]
      rfl
    unfold addWanDlRule Named
    rw [if_pos hrc]
    simp only [Function.update_self, hhdl]
    exact hmem
  · -- the return code is 0 for a rejected rule too; only the status tells
    exfalso
    have hx := hstatus { (⟨r.fltRule rtIdx, true, fltRuleHdlNone, 0⟩ : FltRuleAdd) with
      status := -1 } (by
        show _ ∈ (d.ipa.ipa2AddFltRule (r.addReq rtIdx) o).2.1.rules
        rw [hrules]
        exact List.mem_singleton_self _)
    cases hx

theorem failures_addWanDlRule (d : DriverState) (rtIdx : ℕ) (r : WanDlRule)
    (o : AddOutcome) :
    (d.addWanDlRule rtIdx r o).failures = (d.addFltRule (r.addReq rtIdx) o).1.failures := by
  unfold addWanDlRule
  dsimp only
  split
  · rfl
  · rfl

/-- A call that adds no failure reports none, for itself or for a rule. -/
theorem addFltRule_of_failures {d : DriverState} {req : AddFltRuleReq} {o : AddOutcome}
    (hok : (d.addFltRule req o).1.failures = d.failures) :
    (d.addFltRule req o).2.2 = 0 ∧ ∀ x ∈ (d.addFltRule req o).2.1.rules, x.status = 0 := by
  by_contra hbad
  simp only [addFltRule] at hbad hok
  simp [note, hbad] at hok

theorem addWanDlRule_named_of_failures {d : DriverState} {rtIdx : ℕ} {r : WanDlRule}
    {o : AddOutcome} (hok : (d.addWanDlRule rtIdx r o).failures = d.failures) :
    (d.addWanDlRule rtIdx r o).Named r rtIdx := by
  rw [failures_addWanDlRule] at hok
  obtain ⟨hrc, hstatus⟩ := addFltRule_of_failures hok
  exact addWanDlRule_named hrc hstatus

/-- The routing table index of a rule that is added is one the table accepts. -/
theorem rtIdx_le_of_addWanDlRule {d : DriverState} {rtIdx : ℕ} {r : WanDlRule}
    {o : AddOutcome} (hok : (d.addWanDlRule rtIdx r o).failures = d.failures) :
    rtIdx ≤ d.ipa.hwType.modemRtIndexHi := by
  rw [failures_addWanDlRule] at hok
  obtain ⟨_, hstatus⟩ := addFltRule_of_failures hok
  have hvalid : d.ipa.ruleValid (r.fltRule rtIdx) = true :=
    d.ipa.ruleValid_of_status (r.addReq rtIdx) _ rfl r.ip_ne_max o hstatus
  exact of_decide_eq_true hvalid

/-- A rule that the table accepts, in a request whose commit succeeds. -/
theorem addWanDlRule_named_of_isSome {d : DriverState} {rtIdx : ℕ} {r : WanDlRule}
    {o : AddOutcome} (hcommit : o.commitOk = true)
    (hadd : (d.ipa.addFltRule (lanWanTbl r.ip) (r.fltRule rtIdx) true
      (o.rules.headD {})).2.isSome) :
    (d.addWanDlRule rtIdx r o).Named r rtIdx := by
  apply addWanDlRule_named
  · exact (IpaCtx.ipa2AddFltRule_rc (List.cons_ne_nil _ _) r.ip_ne_max).mpr fun _ => hcommit
  · intro x hx
    change x ∈ (d.ipa.ipa2AddFltRule (r.addReq rtIdx) o).2.1.rules at hx
    rcases d.ipa.ipa2AddFltRule_single (r.addReq rtIdx) _ rfl r.ip_ne_max o with
      ⟨id, _, hrules, _⟩ | ⟨hnone, _⟩
    · rw [hrules, List.mem_singleton] at hx
      rw [hx]
    · have hnone' : (d.ipa.addFltRule (lanWanTbl r.ip) (r.fltRule rtIdx) true
          (o.rules.headD {})).2 = none := hnone
      rw [hnone'] at hadd
      cases hadd

/-- The first extended property of `mux_channel[0]`, when it has one. -/
def wanDlProp (d : DriverState) : Option ExtIntfProp :=
  if d.rmnetIndex.val = 0 then none
  else (d.intfList.find? (·.name = (d.muxChannel 0).vchannelName)).bind (·.ext.head?)

/-- The routing table index that it gives for the WAN-DL rules. -/
def wanDlRtIdx (d : DriverState) : Option ℕ :=
  match d.wanDlProp with
  | none => none
  | some prop => if prop.rtTblIdx = ipaWanDlRtIdxNone then none else some prop.rtTblIdx

theorem Installs.wanDlProp {d d' : DriverState} {rs : List WanDlRule}
    {pending : FltTblKey → List FltRule} (h : d.Installs d' rs pending) :
    d'.wanDlProp = d.wanDlProp := by
  unfold DriverState.wanDlProp
  rw [h.rmnetIndex, h.intfList, h.muxChannel]

theorem Installs.wanDlRtIdx {d d' : DriverState} {rs : List WanDlRule}
    {pending : FltTblKey → List FltRule} (h : d.Installs d' rs pending) :
    d'.wanDlRtIdx = d.wanDlRtIdx := by
  unfold DriverState.wanDlRtIdx
  rw [h.wanDlProp]

theorem wanDlModemRtTblIdx_eq (d : DriverState) (allocOk : Bool) :
    d.wanDlModemRtTblIdx allocOk =
      match d.wanDlProp with
      | none => (d, ipaWanDlRtIdxNone)
      | some prop => if allocOk then (d, prop.rtTblIdx) else (d.note false, ipaWanDlRtIdxNone) := by
  unfold wanDlModemRtTblIdx DriverState.wanDlProp ipaQueryIntf ipaQueryIntfExtProps
  by_cases h0 : d.rmnetIndex.val = 0
  · simp [h0]
  · cases hfind : d.intfList.find? (·.name = (d.muxChannel 0).vchannelName) with
    | none => simp [h0, hfind]
    | some intf =>
      cases hext : intf.ext with
      | nil => simp [h0, hfind, hext]
      | cons prop props => cases allocOk <;> simp [h0, hfind, hext]

theorem note_true (d : DriverState) : d.note true = d := rfl

/-- An installer adds all its rules for the index it finds; without one it does
nothing, and when it runs out of memory it does nothing but fail. -/
theorem installWanDlRules_eq (d : DriverState) (rules : List WanDlRule)
    (queryOk paramOk : Bool) (o : WanDlRule → AddOutcome) :
    d.installWanDlRules rules queryOk paramOk o =
      match d.wanDlRtIdx with
      | some rtIdx => if queryOk && paramOk then d.addWanDlRules rtIdx rules o else d.note false
      | none => d.note (queryOk || d.wanDlProp.isNone) := by
  unfold installWanDlRules DriverState.wanDlRtIdx
  rw [wanDlModemRtTblIdx_eq]
  cases hprop : d.wanDlProp with
  | none => simp [note_true]
  | some prop =>
    by_cases hidx : prop.rtTblIdx = ipaWanDlRtIdxNone
    · cases queryOk <;> simp [hidx, note_true]
    · cases queryOk <;> cases paramOk <;> simp [hidx]

/-- The WAN-DL rule in its table, if there is a routing table index for it. -/
def wanDlPending (d : DriverState) (r : WanDlRule) : FltTblKey → List FltRule :=
  fun k => match d.wanDlRtIdx with
    | none => []
    | some rtIdx => d.ipa.pendingRule (lanWanTbl r.ip) (r.fltRule rtIdx) k

theorem addWanDlRules_installs (d : DriverState) (rtIdx : ℕ) (rules : List WanDlRule)
    (o : WanDlRule → AddOutcome) :
    d.Installs (d.addWanDlRules rtIdx rules o) rules (fun k => rules.flatMap fun r =>
      d.ipa.pendingRule (lanWanTbl r.ip) (r.fltRule rtIdx) k) := by
  induction rules generalizing d with
  | nil => exact Installs.refl _ _ _
  | cons r rules ih =>
    have hadd := d.addWanDlRule_installs rtIdx r (o r)
    have hrest := ih (d.addWanDlRule rtIdx r (o r))
    simp only [hadd.pendingRule] at hrest
    exact hadd.trans hrest

/-- No failure in the whole, so none in the first step and none in the rest. -/
theorem failures_addWanDlRules_cons {d : DriverState} {rtIdx : ℕ} {r : WanDlRule}
    {rules : List WanDlRule} {o : WanDlRule → AddOutcome}
    (hok : (d.addWanDlRules rtIdx (r :: rules) o).failures = d.failures) :
    (d.addWanDlRule rtIdx r (o r)).failures = d.failures ∧
      ((d.addWanDlRule rtIdx r (o r)).addWanDlRules rtIdx rules o).failures =
        (d.addWanDlRule rtIdx r (o r)).failures := by
  have hle := (d.addWanDlRule_installs rtIdx r (o r)).failures
  have hle' := ((d.addWanDlRule rtIdx r (o r)).addWanDlRules_installs rtIdx rules o).failures
  have hsplit : d.addWanDlRules rtIdx (r :: rules) o =
      (d.addWanDlRule rtIdx r (o r)).addWanDlRules rtIdx rules o := rfl
  rw [hsplit] at hok
  omega

/-- Rules that are added without a failure are named by their variables. -/
theorem addWanDlRules_named {d : DriverState} {rtIdx : ℕ} {rules : List WanDlRule}
    {o : WanDlRule → AddOutcome} (hnodup : rules.Nodup)
    (hok : (d.addWanDlRules rtIdx rules o).failures = d.failures) {r : WanDlRule}
    (hr : r ∈ rules) : (d.addWanDlRules rtIdx rules o).Named r rtIdx := by
  induction rules generalizing d with
  | nil => cases hr
  | cons r' rules ih =>
    obtain ⟨hnot, hnodup'⟩ := List.nodup_cons.mp hnodup
    obtain ⟨hfirst, hrest⟩ := failures_addWanDlRules_cons hok
    rcases List.mem_cons.mp hr with rfl | htail
    -- the rules behind it have other handle variables
    · have hinst := (d.addWanDlRule rtIdx r (o r)).addWanDlRules_installs rtIdx rules o
      exact hinst.named hnot (addWanDlRule_named_of_failures hfirst)
    · exact ih hnodup' hrest htail

theorem installWanDlRules_installs (d : DriverState) (rules : List WanDlRule)
    (queryOk paramOk : Bool) (o : WanDlRule → AddOutcome) :
    d.Installs (d.installWanDlRules rules queryOk paramOk o) rules
      (fun k => rules.flatMap fun r => d.wanDlPending r k) := by
  rw [installWanDlRules_eq]
  unfold DriverState.wanDlPending
  cases d.wanDlRtIdx with
  | none => exact d.note_installs _ _ _
  | some rtIdx =>
    dsimp only
    split
    · exact d.addWanDlRules_installs rtIdx rules o
    · exact d.note_installs _ _ _

/-- An installer that finds an index and reports no failure has gone through its
rules. -/
theorem installWanDlRules_of_failures {d : DriverState} {rules : List WanDlRule}
    {queryOk paramOk : Bool} {o : WanDlRule → AddOutcome} {rtIdx : ℕ}
    (hidx : d.wanDlRtIdx = some rtIdx)
    (hok : (d.installWanDlRules rules queryOk paramOk o).failures = d.failures) :
    d.installWanDlRules rules queryOk paramOk o = d.addWanDlRules rtIdx rules o := by
  rw [installWanDlRules_eq, hidx] at hok ⊢
  dsimp only at hok ⊢
  split at hok
  · rename_i hall
    exact if_pos hall
  · simp [note] at hok

/-- Without an index it leaves the handle variables alone. -/
theorem wanDlFltHdl_installWanDlRules {d : DriverState} (hidx : d.wanDlRtIdx = none)
    (rules : List WanDlRule) (queryOk paramOk : Bool) (o : WanDlRule → AddOutcome) :
    (d.installWanDlRules rules queryOk paramOk o).wanDlFltHdl = d.wanDlFltHdl := by
  rw [installWanDlRules_eq, hidx]
  rfl

end WanDl

section Egress

/-- The default rules that setting up the egress pipe adds. -/
def dfltPending (d : DriverState) : FltTblKey → List FltRule :=
  fun k =>
    if d.epValid ∨ d.ipaModemCfgEmbPipeFlt then []
    else d.ipa.pendingRule (lanWanTbl .v4) { action := .passToException } k ++
      d.ipa.pendingRule (lanWanTbl .v6) { action := .passToException } k

theorem setupEgressPipe_installs (d : DriverState) (o : SysPipeOutcome) :
    d.Installs (d.setupEgressPipe o).1 [] d.dfltPending := by
  unfold setupEgressPipe
  split
  · exact d.note_installs _ _ _
  · split
    · exact (Installs.refl d [] _).of_same rfl
    -- one default rule for each family, the second on the tables that the first leaves
    · rename_i hfresh
      have h4 := d.ipa.ipaInstallDfltFltRule_grows appsLanWanProd .v4 o.dfltV4
      have h6 := (d.ipa.ipaInstallDfltFltRule appsLanWanProd .v4 o.dfltV4)
        |>.ipaInstallDfltFltRule_grows appsLanWanProd .v6 o.dfltV6
      have hboth := h4.trans h6
      simp only [IpaCtx.pendingRule, h4.ruleValid] at hboth
      refine ⟨?_, Nat.le_refl _, rfl, rfl, rfl, rfl, rfl, fun _ _ => rfl⟩
      unfold dfltPending
      simp only [hfresh, if_false]
      exact hboth

theorem autoUlRules_installs (d : DriverState) (o : AutoOutcome) :
    d.Installs (d.autoUlRules o) [] (d.ulRulesPending o.ul) := by
  unfold autoUlRules
  split
  · have h := d.wwanAddUlFltRuleToIpa_installs o.ul
    exact h.of_same rfl
  · exact Installs.refl _ _ _

/-- What step 1 of the work adds. -/
def egressPending (d : DriverState) (o : AutoOutcome) : FltTblKey → List FltRule :=
  fun k => d.dfltPending k ++ d.ulRulesPending o.ul k

theorem setupEgressPipe_snd (d : DriverState) (o : SysPipeOutcome) :
    (d.setupEgressPipe o).2 = o.ok := by
  unfold setupEgressPipe
  cases hok : o.ok with
  | false => rfl
  | true =>
    rw [if_neg (by simp)]
    split
    · rfl
    · rfl

theorem ipaQmiCtx_setupEgressPipe (d : DriverState) (o : SysPipeOutcome) :
    (d.setupEgressPipe o).1.ipaQmiCtx = d.ipaQmiCtx := by
  unfold setupEgressPipe
  split
  · rfl
  · split
    · rfl
    · rfl

theorem autoEgress_snd (d : DriverState) (o : AutoOutcome) :
    (d.autoEgress o).2 = o.setup.ok := by
  rw [← setupEgressPipe_snd d]
  unfold autoEgress
  dsimp only
  by_cases hpipe : (d.setupEgressPipe o.setup).2 = true
  · rw [if_neg (not_not.mpr hpipe), hpipe]
  · rw [if_pos hpipe]

theorem autoEgress_of_not_ok {d : DriverState} {o : AutoOutcome} (hok : o.setup.ok = false) :
    (d.autoEgress o).1 = d.note false := by
  simp [autoEgress, setupEgressPipe, hok]

theorem autoEgress_installs (d : DriverState) (o : AutoOutcome) :
    d.Installs (d.autoEgress o).1 [] (d.egressPending o) := by
  have hpipe := d.setupEgressPipe_installs o.setup
  unfold autoEgress
  dsimp only
  split
  · exact hpipe.trans (Installs.refl _ [] _)
  · have hset : d.Installs { (d.setupEgressPipe o.setup).1 with egressSet := true } []
        d.dfltPending :=
      hpipe.of_same rfl
    have hul := autoUlRules_installs
      { (d.setupEgressPipe o.setup).1 with egressSet := true } o
    -- nothing that the modem's rules depend on has changed before them
    have hpending :
        ulRulesPending { (d.setupEgressPipe o.setup).1 with egressSet := true } o.ul =
          d.ulRulesPending o.ul := by
      unfold ulRulesPending
      simp only [hset.ulPending]
      rw [hpipe.q6UlFilterRule, ipaQmiCtx_setupEgressPipe]
    rw [hpending] at hul
    exact hset.trans hul

end Egress

section BeforeNotif

def autoWanDlPending (d : DriverState) : FltTblKey → List FltRule :=
  fun k => [WanDlRule.icmpV4, .icmpV6, .mcastV4, .bcastV4, .mcastV6, .lnklclV6].flatMap
    fun r => d.wanDlPending r k

theorem Installs.wanDlPending {d d' : DriverState} {rs : List WanDlRule}
    {pending : FltTblKey → List FltRule} (h : d.Installs d' rs pending) (r : WanDlRule) :
    d'.wanDlPending r = d.wanDlPending r := by
  funext k
  simp only [DriverState.wanDlPending, h.wanDlRtIdx, h.pendingRule]

theorem installIcmpPassthroughRule_installs (d : DriverState) (o : AutoOutcome) :
    d.Installs (d.installIcmpPassthroughRule o) [.icmpV4, .icmpV6]
      (fun k => [WanDlRule.icmpV4, .icmpV6].flatMap fun r => d.wanDlPending r k) :=
  d.installWanDlRules_installs _ _ _ _

theorem installMcastBcastFilterRules_installs (d : DriverState) (o : AutoOutcome) :
    d.Installs (d.installMcastBcastFilterRules o) [.mcastV4, .bcastV4, .mcastV6, .lnklclV6]
      (fun k => [WanDlRule.mcastV4, .bcastV4, .mcastV6, .lnklclV6].flatMap
        fun r => d.wanDlPending r k) :=
  d.installWanDlRules_installs _ _ _ _

theorem autoWanDlRules_installs (d : DriverState) (o : AutoOutcome) :
    d.Installs (d.autoWanDlRules o) WanDlRule.all d.autoWanDlPending := by
  have hicmp := d.installIcmpPassthroughRule_installs o
  have hmcast := (d.installIcmpPassthroughRule o).installMcastBcastFilterRules_installs o
  simp only [hicmp.wanDlPending] at hmcast
  have hall := hicmp.trans hmcast
  refine ⟨?_, hall.failures, hall.muxChannel, hall.rmnetIndex, hall.intfList,
    hall.q6UlFilterRule, hall.initDone, fun r hr => absurd (WanDlRule.mem_all r) hr⟩
  have hgrows := hall.grows
  simp only [← List.flatMap_append] at hgrows
  exact hgrows

theorem installWanDlQmiFilterNotify_installs (d : DriverState) (o : AutoOutcome) :
    d.Installs (d.installWanDlQmiFilterNotify o) [] (fun _ => []) := by
  have hsent := d.send_installs (.installFilterRule wanDlFilterReq)
  unfold installWanDlQmiFilterNotify qmiFilterRequestSend
  split
  · exact d.note_installs _ _ _
  · split
    · exact d.note_installs _ _ _
    · cases o.install with
      | notSent => exact d.note_installs _ _ _
      | failed => exact hsent.then (note_installs _ _ _ _)
      | accepted => exact hsent

theorem installWanDlQmiFilterInstalledNotif_installs (d : DriverState) (o : AutoOutcome) :
    d.Installs (d.installWanDlQmiFilterInstalledNotif o) [] (fun _ => []) := by
  unfold installWanDlQmiFilterInstalledNotif
  split
  · exact d.note_installs _ _ _
  · exact d.qmiFilterNotifySend_installs _ _

/-- What a whole run of the work adds. -/
def autoPending (d : DriverState) (o : AutoOutcome) : FltTblKey → List FltRule :=
  fun k => d.egressPending o k ++ d.autoWanDlPending k

theorem beforeNotif_installs (d : DriverState) (o : AutoOutcome) :
    d.Installs (d.beforeNotif o) WanDlRule.all (d.autoPending o) := by
  have hegress := d.autoEgress_installs o
  have hrules := (d.autoEgress o).1.autoWanDlRules_installs o
  have hpending : (d.autoEgress o).1.autoWanDlPending = d.autoWanDlPending := by
    unfold autoWanDlPending
    simp only [hegress.wanDlPending]
  rw [hpending] at hrules
  exact (hegress.trans hrules).then (installWanDlQmiFilterNotify_installs _ o)

end BeforeNotif

section Mux

/-- A step that leaves the filter rules and the handle variables alone. -/
structure KeepsRules (d d' : DriverState) : Prop where
  grows : d.ipa.Grows d'.ipa (fun _ => [])
  failures : d.failures ≤ d'.failures
  q6UlFilterRule : d'.q6UlFilterRule = d.q6UlFilterRule
  wanDlFltHdl : d'.wanDlFltHdl = d.wanDlFltHdl

theorem KeepsRules.refl (d : DriverState) : d.KeepsRules d :=
  ⟨IpaCtx.Grows.refl _, Nat.le_refl _, rfl, rfl⟩

theorem KeepsRules.trans {d d' d'' : DriverState} (h : d.KeepsRules d')
    (h' : d'.KeepsRules d'') : d.KeepsRules d'' :=
  ⟨h.grows.trans h'.grows, Nat.le_trans h.failures h'.failures,
    h'.q6UlFilterRule.trans h.q6UlFilterRule, h'.wanDlFltHdl.trans h.wanDlFltHdl⟩

theorem Installs.keepsRules {d d' : DriverState} (h : d.Installs d' [] (fun _ => [])) :
    d.KeepsRules d' :=
  ⟨h.grows, h.failures, h.q6UlFilterRule, funext fun r => h.wanDlFltHdl r List.not_mem_nil⟩

theorem KeepsRules.named {d d' : DriverState} (h : d.KeepsRules d') {r : WanDlRule}
    {rtIdx : ℕ} (hnamed : d.Named r rtIdx) : d'.Named r rtIdx := by
  unfold Named
  rw [h.wanDlFltHdl]
  exact h.grows.mem hnamed

theorem addQmapHdr_keepsRules (d : DriverState) (index : Fin maxNumOfMuxChannel)
    (ok : Bool) : d.KeepsRules (d.addQmapHdr index ok).1 := by
  unfold addQmapHdr
  dsimp only
  split
  · exact KeepsRules.refl d
  · split
    · exact (d.note_installs _ [] _).keepsRules
    · refine ⟨?_, Nat.le_refl _, rfl, rfl⟩
      refine (IpaCtx.Grows.refl _).of_same ?_ ?_ ?_ ?_
      · rfl
      · rfl
      · exact fun i hi => List.mem_cons_of_mem _ hi
      · exact fun _ => ⟨rfl, rfl⟩

theorem registerIntfExt_keepsRules (d : DriverState) (index : Fin maxNumOfMuxChannel)
    (o : RegisterOutcome) : d.KeepsRules (d.registerIntfExt index o).1 := by
  unfold registerIntfExt
  dsimp only
  split
  · exact (d.note_installs _ [] _).keepsRules
  · exact ⟨IpaCtx.Grows.refl _, Nat.le_refl _, rfl, rfl⟩

theorem wwanRegisterToIpa_keepsRules (d : DriverState) (index : Fin maxNumOfMuxChannel)
    (o : RegisterOutcome) : d.KeepsRules (d.wwanRegisterToIpa index o).1 := by
  have hhdr := d.addQmapHdr_keepsRules index o.hdrOk
  unfold wwanRegisterToIpa
  dsimp only
  split
  · exact hhdr.trans (registerIntfExt_keepsRules _ index o)
  · exact hhdr

theorem registerMuxEntry_keepsRules (d : DriverState) (index : Fin maxNumOfMuxChannel)
    (o : RegisterOutcome) : d.KeepsRules (d.registerMuxEntry index o).1 := by
  unfold registerMuxEntry
  split
  · exact d.wwanRegisterToIpa_keepsRules index o
  · exact KeepsRules.refl d

theorem addMuxEntry_keepsRules (d : DriverState) (muxId : ℕ) (name : IfName)
    (h : d.rmnetIndex.val < maxNumOfMuxChannel) (o : RegisterOutcome) :
    d.KeepsRules (d.addMuxEntry muxId name h o).1 := by
  have hcache (index : Fin maxNumOfMuxChannel) :
      d.KeepsRules (d.cacheMuxEntry index muxId name) :=
    ⟨IpaCtx.Grows.refl _, Nat.le_refl _, rfl, rfl⟩
  have hreg (index : Fin maxNumOfMuxChannel) :=
    (hcache index).trans (registerMuxEntry_keepsRules _ index o)
  unfold addMuxEntry
  dsimp only
  split
  · have hcount (d' : DriverState) (index : Fin maxNumOfMuxChannel) :
        d'.KeepsRules (d'.countMuxEntry index) :=
      ⟨IpaCtx.Grows.refl _, Nat.le_refl _, rfl, rfl⟩
    exact (hreg _).trans (hcount _ _)
  · exact hreg _

theorem addMuxChannel_keepsRules (d : DriverState) (muxId : ℕ) (name : IfName)
    (o : RegisterOutcome) : d.KeepsRules (d.addMuxChannel muxId name o).1 := by
  unfold addMuxChannel
  split
  · exact KeepsRules.refl d
  · split
    · exact d.addMuxEntry_keepsRules muxId name _ o
    · exact KeepsRules.refl d

theorem autoIngressMux_keepsRules (d : DriverState) (o : AutoOutcome) :
    d.KeepsRules (d.autoIngressMux o) := by
  unfold autoIngressMux
  split
  · exact (d.note_installs _ [] _).keepsRules
  · split
    · rename_i h
      have hadd := d.addMuxEntry_keepsRules 1 qmapmux h o.register
      dsimp only
      split
      · exact ⟨hadd.grows, hadd.failures, hadd.q6UlFilterRule, hadd.wanDlFltHdl⟩
      · exact hadd
    · exact KeepsRules.refl d

/-- A run does nothing, or stops at the egress pipe, or goes through the sequence. -/
theorem vendorAutoIpacmInitFn_cases (d : DriverState) (o : AutoOutcome) :
    ((d.autoIpacmInitDone = true ∨ d.netdev = false) ∧
      ∃ work, d.vendorAutoIpacmInitFn o = { d with autoIpacmInitWork := work }) ∨
    (d.autoIpacmInitDone = false ∧ d.netdev = true ∧ o.setup.ok = false ∧
      d.vendorAutoIpacmInitFn o = d.takeWork.note false) ∨
    (d.autoIpacmInitDone = false ∧ d.netdev = true ∧ o.setup.ok = true ∧
      d.vendorAutoIpacmInitFn o = ((d.takeWork.beforeNotif
        o).installWanDlQmiFilterInstalledNotif o).autoIngressMux o) := by
  unfold vendorAutoIpacmInitFn
  by_cases hdone : d.autoIpacmInitDone = true
  · rw [if_pos hdone]
    exact Or.inl ⟨Or.inl hdone, false, rfl⟩
  · rw [if_neg hdone]
    by_cases hnetdev : d.netdev = true
    · rw [if_neg (not_not.mpr hnetdev), autoSequence, autoEgress_snd]
      right
      by_cases hok : o.setup.ok = true
      · rw [if_neg (not_not.mpr hok)]
        exact Or.inr ⟨Bool.eq_false_of_not_eq_true hdone, hnetdev, hok, rfl⟩
      · rw [if_pos hok, autoEgress_of_not_ok (Bool.eq_false_of_not_eq_true hok)]
        exact Or.inl ⟨Bool.eq_false_of_not_eq_true hdone, hnetdev,
          Bool.eq_false_of_not_eq_true hok, rfl⟩
    · rw [if_pos hnetdev]
      exact Or.inl ⟨Or.inr (Bool.eq_false_of_not_eq_true hnetdev), true, rfl⟩

end Mux

end DriverState
end X00TDCellular
