import X00TDCellular.RmnetIpa
import X00TDCellular.Transition

/-! The in-kernel IPACM emulation: `vendor_auto_ipacm_init_fn` and the four functions
that install and report the WAN-DL rules. -/

namespace X00TDCellular

/-- How each call that a run of the work makes turns out, in the order of the calls. -/
structure AutoOutcome where
  setup : DriverState.SysPipeOutcome := {}
  ul : DriverState.UlOutcome := {}
  icmpQueryOk : Bool := true
  icmpParamOk : Bool := true
  mcastQueryOk : Bool := true
  mcastParamOk : Bool := true
  add : WanDlRule → AddOutcome := fun _ => {}
  reqOk : Bool := true
  install : SendOutcome := .accepted
  notifOk : Bool := true
  notif : SendOutcome := .accepted
  ingressOk : Bool := true
  register : DriverState.RegisterOutcome := {}

def ipaWanDlRtIdxNone : ℕ := 0xffffffff

/-- A handle of `-1`, which a request carries in. -/
def fltRuleHdlNone : ℕ := 0xffffffff

/-- The rule that the AP installs for routing table `rtIdx`. -/
def WanDlRule.fltRule (r : WanDlRule) (rtIdx : ℕ) : FltRule where
  retainHdr := 1
  action := .passToRouting
  rtTblIdx := rtIdx
  eqAttribType := true
  eqAttrib := r.eqAttrib

def WanDlRule.addReq (r : WanDlRule) (rtIdx : ℕ) : AddFltRuleReq where
  commit := true
  ip := r.ip
  ep := appsLanWanProd
  global := false
  rules := [{ rule := r.fltRule rtIdx, atRear := true, fltRuleHdl := fltRuleHdlNone }]

/-- The specs of `install_wan_dl_qmi_filter_notify`. Routing table 8 and mux id 1 are
written out in each of them. -/
def filterSpec (identifier : ℕ) (ipType : IpaIpType) (filterRule : IpfltriRuleEq) :
    FilterSpec where
  filterSpecIdentifier := identifier
  ipType := ipType
  filterRule := filterRule
  filterAction := .passToRouting
  routeTableIndex := some 8
  muxId := some 1

def wanDlFilterReq : InstallFltrRuleReq where
  filterSpecList :=
    [filterSpec 0 .v4 (protocolRuleEq 1),
      filterSpec 1 .v4 (meq32RuleEq 12 0xE0000000 0xF0000000),
      filterSpec 2 .v4 (meq32RuleEq 12 0xFFFFFFFF 0xFFFFFFFF),
      filterSpec 3 .v6 (protocolRuleEq 58),
      filterSpec 4 .v6 (meq32RuleEq 24 0xFF000000 0xFF000000),
      filterSpec 5 .v6 (meq32RuleEq 24 0xFE800000 0xFFC00000)]
  sourcePipeIndexValid := false
  sourcePipeIndex := appsLanWanProd

theorem DriverState.filterRequestValid_wanDlFilterReq (d : DriverState) :
    d.filterRequestValid wanDlFilterReq = true := by
  have hpipes := d.ipa.pipes
  have hlanWan : appsLanWanProd < d.ipa.ipaNumPipes := by
    unfold appsLanWanProd
    omega
  have hspecs : ∀ spec ∈ wanDlFilterReq.filterSpecList, spec.ipType ≠ .max ∧
      spec.muxId.isSome ∧ spec.routeTableIndex.isSome := by decide
  exact decide_eq_true ⟨by decide, rfl, hlanWan, hspecs⟩

/-- The list of handles that the modem is told, by index. -/
def wanDlFilterIndexList (hdl : WanDlRule → ℕ) : List FilterIndex :=
  [⟨0, hdl .icmpV4⟩, ⟨1, hdl .mcastV4⟩, ⟨2, hdl .bcastV4⟩, ⟨3, hdl .icmpV6⟩,
    ⟨4, hdl .mcastV6⟩, ⟨5, hdl .lnklclV6⟩]

def wanDlInstalledNotif (hdl : WanDlRule → ℕ) : FltrInstalledNotif where
  sourcePipeIndex := appsLanWanProd
  installStatus := .success
  filterIndexList := wanDlFilterIndexList hdl
  embeddedPipeIndex := some appsLanWanProd
  embeddedCallMuxId := some 1

/-- "qmapmux0.0" -/
def qmapmux : IfName := ['q', 'm', 'a', 'p', 'm', 'u', 'x', '0', '.', '0']

namespace DriverState

variable (d : DriverState)

/-- `wan_dl_modem_rt_tbl_idx`. An allocation that fails counts as a failure of the
run; that nothing is registered does not. -/
def wanDlModemRtTblIdx (allocOk : Bool) : DriverState × ℕ :=
  let vc := (d.muxChannel 0).vchannelName
  if d.rmnetIndex.val = 0 then (d, ipaWanDlRtIdxNone)
  else match d.ipaQueryIntf vc with
    | none => (d, ipaWanDlRtIdxNone)
    | some 0 => (d, ipaWanDlRtIdxNone)
    | some (num+1) =>
      if ¬ allocOk then (d.note false, ipaWanDlRtIdxNone)
      else match d.ipaQueryIntfExtProps vc (num+1) with
        | some (prop :: _) => (d, prop.rtTblIdx)
        | _ => (d, ipaWanDlRtIdxNone)

/-- One rule of an installer: the handle is stored when the request succeeds as a
whole. -/
def addWanDlRule (rtIdx : ℕ) (r : WanDlRule) (o : AddOutcome) : DriverState :=
  let added := d.addFltRule (r.addReq rtIdx) o
  if added.2.2 = 0 then
    { added.1 with
      wanDlFltHdl := Function.update added.1.wanDlFltHdl r (hdlOf added.2.1) }
  else added.1

def addWanDlRules (rtIdx : ℕ) (rules : List WanDlRule) (o : WanDlRule → AddOutcome) :
    DriverState :=
  rules.foldl (fun d r => d.addWanDlRule rtIdx r (o r)) d

/-- The body that the two installers have in common, for their own rules. Their return
values are not used by the caller. -/
def installWanDlRules (rules : List WanDlRule) (queryOk paramOk : Bool)
    (o : WanDlRule → AddOutcome) : DriverState :=
  let query := d.wanDlModemRtTblIdx queryOk
  -- skipped and reported as success
  if query.2 = ipaWanDlRtIdxNone then query.1
  else if ¬ paramOk then query.1.note false
  else query.1.addWanDlRules query.2 rules o

def installIcmpPassthroughRule (o : AutoOutcome) : DriverState :=
  d.installWanDlRules [.icmpV4, .icmpV6] o.icmpQueryOk o.icmpParamOk o.add

def installMcastBcastFilterRules (o : AutoOutcome) : DriverState :=
  d.installWanDlRules [.mcastV4, .bcastV4, .mcastV6, .lnklclV6] o.mcastQueryOk
    o.mcastParamOk o.add

/-- `install_wan_dl_qmi_filter_notify`. The mux id and the routing table index that it
looks up for `mux_channel[0]` do not enter the request. -/
def installWanDlQmiFilterNotify (o : AutoOutcome) : DriverState :=
  if ¬ o.reqOk then d.note false
  else (d.qmiFilterRequestSend wanDlFilterReq o.install).1

def installWanDlQmiFilterInstalledNotif (o : AutoOutcome) : DriverState :=
  if ¬ o.notifOk then d.note false
  else (d.qmiFilterNotifySend (wanDlInstalledNotif d.wanDlFltHdl) o.notif).1

def autoUlRules (o : AutoOutcome) : DriverState :=
  if d.q6UlFilterRule ≠ [] then
    let ul := d.wwanAddUlFltRuleToIpa o.ul
    { ul.1 with a7UlFltSet := if ul.2 = 0 then true else ul.1.a7UlFltSet }
  else d

/-- Step 1 of the work: the egress pipe and the modem's uplink rules. -/
def autoEgress (o : AutoOutcome) : DriverState × Bool :=
  let pipe := d.setupEgressPipe o.setup
  if ¬ pipe.2 then pipe
  else (autoUlRules { pipe.1 with egressSet := true } o, true)

def autoWanDlRules (o : AutoOutcome) : DriverState :=
  (d.installIcmpPassthroughRule o).installMcastBcastFilterRules o

/-- The work up to FILTER_INSTALLED_NOTIF, when step 1 succeeds. -/
def beforeNotif (o : AutoOutcome) : DriverState :=
  ((d.autoEgress o).1.autoWanDlRules o).installWanDlQmiFilterNotify o

/-- Steps 2 and 3: the ingress format, and mux id 1, which is not looked up before. -/
def autoIngressMux (o : AutoOutcome) : DriverState :=
  if ¬ o.ingressOk then d.note false
  else if h : d.rmnetIndex.val < maxNumOfMuxChannel then
    let added := d.addMuxEntry 1 qmapmux h o.register
    if added.2 then
      -- the done flag, and the polling of statistics that starts with it
      { added.1 with autoIpacmInitDone := true, meteredMuxId := 1, pollingInterval := 1 }
    else added.1
  else d

/-- The sequence itself; of its calls, only those of the three numbered steps can stop
it. -/
def autoSequence (o : AutoOutcome) : DriverState :=
  if ¬ (d.autoEgress o).2 then (d.autoEgress o).1
  else ((d.beforeNotif o).installWanDlQmiFilterInstalledNotif o).autoIngressMux o

def takeWork : DriverState := { d with autoIpacmInitWork := false }

/-- `vendor_auto_ipacm_init_fn`. -/
def vendorAutoIpacmInitFn (o : AutoOutcome) : DriverState :=
  if d.autoIpacmInitDone then d.takeWork
  -- without a netdev the work is put off by a second
  else if ¬ d.netdev then { d with autoIpacmInitWork := true }
  else d.takeWork.autoSequence o

/-- The end of `ipa_q6_handshake_complete`. -/
def q6HandshakeComplete : DriverState :=
  { d with autoIpacmInitWork := d.autoIpacmInitWork || !d.autoIpacmInitDone }

end DriverState

/-- What happens to the driver: a handshake with the modem, an ioctl, or a run of the
work. -/
inductive DriverAction
  | q6HandshakeComplete
  | addMuxChannel (muxId : ℕ) (name : IfName) (o : DriverState.RegisterOutcome)
  | autoIpacmInit (o : AutoOutcome)

namespace DriverState

/-- The work runs only when it is scheduled. -/
def step (d : DriverState) : DriverAction → Option DriverState
  | .q6HandshakeComplete => some d.q6HandshakeComplete
  | .addMuxChannel muxId name o => some (d.addMuxChannel muxId name o).1
  | .autoIpacmInit o =>
    if d.autoIpacmInitWork then some (d.vendorAutoIpacmInitFn o) else none

/-- A driver that has a netdev and the modem's rules: no rule is installed and no channel
is added. -/
def atHandshake (q6UlFilterRule : List ExtIntfProp) : DriverState where
  ipa :=
    { hwType := .v26L, ipaNumPipes := 16, pipes := pipesV26L, fltTbl := fun _ => {}, idr := [],
      rtTbls := [] }
  intfList := []
  epValid := false
  ipaModemCfgEmbPipeFlt := false
  qmiModemCfgEmbPipeFlt := false
  ipaQmiCtx := true
  q6UlFilterRule := q6UlFilterRule
  q6UlFilterRuleHdl := fun _ => 0
  oldNumQ6Rule := 0
  muxChannel := fun _ => {}
  rmnetIndex := 0
  egressSet := false
  a7UlFltSet := false
  wanDlFltHdl := fun _ => 0
  netdev := true
  autoIpacmInitDone := false
  autoIpacmInitWork := true
  meteredMuxId := 0
  pollingInterval := 0
  qmiSent := []
  failures := 0

end DriverState

end X00TDCellular
