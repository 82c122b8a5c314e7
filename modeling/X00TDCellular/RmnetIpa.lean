import X00TDCellular.FltTable
import X00TDCellular.WanDlRules

/-! The state of `rmnet_ipa.c` that the IPACM steps share, and the steps themselves:
the ported installation of the modem's uplink rules, the registration of a mux channel
with IPA, and `RMNET_IOCTL_ADD_MUX_CHANNEL`. -/

namespace X00TDCellular
open Function

/-- A netdev name, without its terminator. -/
abbrev IfName := List Char

/-- `struct ipa_ioc_ext_intf_prop`: a cached rule of the modem, and a property of a
registered interface. -/
structure ExtIntfProp where
  ip : IpaIpType
  eqAttrib : IpfltriRuleEq
  action : FltAction
  rtTblIdx : ℕ
  muxId : ℕ := 0
  filterHdl : ℕ := 0
  isXlatRule : Bool := false
  deriving DecidableEq, Repr

structure IpaIntf where
  name : IfName
  ext : List ExtIntfProp
  deriving DecidableEq, Repr

/-- `struct rmnet_mux_val`. -/
structure MuxChannel where
  muxId : ℕ := 0
  vchannelName : IfName := []
  muxChannelSet : Bool := false
  ulFltReg : Bool := false
  muxHdrSet : Bool := false
  deriving DecidableEq, Repr

structure FilterIndex where
  filterIndex : ℕ
  filterHandle : ℕ
  deriving DecidableEq, Repr

inductive QmiResult
  | success
  | failure
  deriving DecidableEq, Repr

/-- `struct ipa_fltr_installed_notif_req_msg_v01`. -/
structure FltrInstalledNotif where
  sourcePipeIndex : ℕ
  installStatus : QmiResult
  filterIndexList : List FilterIndex
  embeddedPipeIndex : Option ℕ := none
  embeddedCallMuxId : Option ℕ := none
  deriving DecidableEq, Repr

/-- `struct ipa_filter_spec_type_v01`. -/
structure FilterSpec where
  filterSpecIdentifier : ℕ
  ipType : IpaIpType
  filterRule : IpfltriRuleEq
  filterAction : FltAction
  routeTableIndex : Option ℕ
  muxId : Option ℕ
  deriving DecidableEq, Repr

structure InstallFltrRuleReq where
  filterSpecList : List FilterSpec
  /-- `source_pipe_index_valid` -/
  sourcePipeIndexValid : Bool
  sourcePipeIndex : ℕ
  deriving DecidableEq, Repr

inductive QmiMsg
  | installFilterRule (req : InstallFltrRuleReq)
  | filterInstalledNotif (req : FltrInstalledNotif)
  deriving DecidableEq, Repr

/-- How the exchange with the modem turns out: nothing is sent, the message is sent and
fails or times out, or the modem accepts it. -/
inductive SendOutcome
  | notSent
  | failed
  | accepted
  deriving DecidableEq, Repr

def appsLanWanProd : ℕ := 4
abbrev maxNumOfMuxChannel : ℕ := 15
def ipaNumPropsMax : ℕ := 35
def qmiIpaMaxFilters : ℕ := 64

instance : NeZero maxNumOfMuxChannel := ⟨by decide⟩

/-- The filter table of `IPA_CLIENT_APPS_LAN_WAN_PROD` for a family. -/
def lanWanTbl (ip : IpaIpType) : FltTblKey := .ep appsLanWanProd ip

structure DriverState where
  ipa : IpaCtx
  intfList : List IpaIntf
  /-- `ep[..].valid` of the egress pipe -/
  epValid : Bool
  /-- `modem_cfg_emb_pipe_flt` of `ipa_ctx` and of `ipa_qmi_ctx` -/
  ipaModemCfgEmbPipeFlt : Bool
  qmiModemCfgEmbPipeFlt : Bool
  /-- `ipa_qmi_ctx` is allocated -/
  ipaQmiCtx : Bool
  /-- the first `num_q6_rule` entries of the cache -/
  q6UlFilterRule : List ExtIntfProp
  q6UlFilterRuleHdl : ℕ → ℕ
  oldNumQ6Rule : ℕ
  muxChannel : Fin maxNumOfMuxChannel → MuxChannel
  rmnetIndex : Fin (maxNumOfMuxChannel+1)
  egressSet : Bool
  a7UlFltSet : Bool
  /-- the `wan_dl_flt_*_hdl` variables -/
  wanDlFltHdl : WanDlRule → ℕ
  /-- `ipa_netdevs[0]` is set -/
  netdev : Bool
  autoIpacmInitDone : Bool
  autoIpacmInitWork : Bool
  meteredMuxId : ℕ
  pollingInterval : ℕ
  /-- history: the messages sent to the modem -/
  qmiSent : List QmiMsg
  /-- history: how many calls of driver functions have failed -/
  failures : ℕ

namespace DriverState

variable (d : DriverState)

def note (ok : Bool) : DriverState :=
  { d with failures := d.failures + (if ok then 0 else 1) }

/-- `ipa2_add_flt_rule`. The call has failed if it reports an error, for itself or in
the status of a rule. -/
def addFltRule (req : AddFltRuleReq) (o : AddOutcome) :
    DriverState × AddFltRuleReq × ℤ :=
  let added := d.ipa.ipa2AddFltRule req o
  (note { d with ipa := added.1 }
    (added.2.2 = 0 ∧ ∀ r ∈ added.2.1.rules, r.status = 0), added.2)

/-- The rule that is installed for a cached rule of the modem. -/
def ulFltRule (q : ExtIntfProp) : FltRule where
  retainHdr := 1
  action := q.action
  rtTblIdx := q.rtTblIdx
  eqAttribType := true
  eqAttrib := q.eqAttrib

def ulFltRuleReq (q : ExtIntfProp) (ip : IpaIpType) : AddFltRuleReq where
  commit := true
  ip := ip
  ep := appsLanWanProd
  global := false
  rules := [{ rule := ulFltRule q, atRear := true, fltRuleHdl := 0 }]

def hdlOf (req : AddFltRuleReq) : ℕ := (req.rules.head?.map (·.fltRuleHdl)).getD 0

/-- Adds rule `i` for one family and stores its handle. -/
def addUlRuleFor (i : ℕ) (q : ExtIntfProp) (ip : IpaIpType) (o : AddOutcome) :
    DriverState × ℤ :=
  let added := d.addFltRule (ulFltRuleReq q ip) o
  if added.2.2 = 0 then
    ({ added.1 with
      q6UlFilterRuleHdl := update added.1.q6UlFilterRuleHdl i (hdlOf added.2.1) }, 0)
  else (added.1, eFault)

/-- One turn of the loop: a wildcard rule goes into both families, and what becomes of
it in the second one is not looked at. -/
def addUlRule (i : ℕ) (q : ExtIntfProp) (o : IpaIpType → AddOutcome) :
    DriverState × ℤ :=
  if q.ip = .max then
    let v4 := d.addUlRuleFor i q .v4 (o .v4)
    -- the handle of the v6 copy is not kept
    ((v4.1.addFltRule (ulFltRuleReq q .v6) (o .v6)).1, v4.2)
  else d.addUlRuleFor i q q.ip (o q.ip)

def addUlRules (d : DriverState) (o : ℕ → IpaIpType → AddOutcome) (i : ℕ) :
    List ExtIntfProp → DriverState × ℤ
  | [] => (d, 0)
  | q :: qs =>
    let added := d.addUlRule i q (o i)
    let rest := added.1.addUlRules o (i+1) qs
    (rest.1, if added.2 = 0 then rest.2 else added.2)

/-- The index of each cached rule counts the v4 rules, or all others, before it. -/
def ulFilterIndexList : ℕ → ℕ → List ExtIntfProp → List FilterIndex
  | _, _, [] => []
  | numV4, numV6, q :: qs =>
    if q.ip = .v4 then ⟨numV4, q.filterHdl⟩ :: ulFilterIndexList (numV4+1) numV6 qs
    else ⟨numV6, q.filterHdl⟩ :: ulFilterIndexList numV4 (numV6+1) qs

def ulInstalledNotif (rules : List ExtIntfProp) : FltrInstalledNotif where
  sourcePipeIndex := appsLanWanProd
  installStatus := .success
  filterIndexList := ulFilterIndexList 0 0 rules

/-- The checks of `qmi_filter_notify_send`. -/
def notifValid (req : FltrInstalledNotif) : Bool :=
  req.filterIndexList.length ≤ qmiIpaMaxFilters ∧
    ¬ (req.filterIndexList.head?.map (·.filterIndex) = some 0 ∧
      req.sourcePipeIndex ≠ appsLanWanProd) ∧
    req.installStatus = .success ∧ req.sourcePipeIndex < d.ipa.ipaNumPipes ∧
    req.embeddedPipeIndex.isSome = req.embeddedCallMuxId.isSome ∧
    req.embeddedPipeIndex.getD 0 < d.ipa.ipaNumPipes

def qmiFilterNotifySend (req : FltrInstalledNotif) (o : SendOutcome) :
    DriverState × ℤ :=
  if ¬ d.notifValid req then (d.note false, eInval)
  else match o with
    | .notSent => (d.note false, -110)
    | .failed => (note { d with qmiSent := d.qmiSent ++ [.filterInstalledNotif req] } false, -5)
    | .accepted => ({ d with qmiSent := d.qmiSent ++ [.filterInstalledNotif req] }, 0)

structure UlOutcome where
  allocOk : Bool := true
  add : ℕ → IpaIpType → AddOutcome := fun _ _ => {}
  notify : SendOutcome := .accepted

/-- The ported `wwan_add_ul_flt_rule_to_ipa`. -/
def wwanAddUlFltRuleToIpa (o : UlOutcome) : DriverState × ℤ :=
  if ¬ d.ipaQmiCtx then (d.note false, eFault)
  else if ¬ o.allocOk then (d.note false, eNoMem)
  else
    let added := d.addUlRules o.add 0 d.q6UlFilterRule
    -- sent whatever became of the rules
    let sent := added.1.qmiFilterNotifySend (ulInstalledNotif d.q6UlFilterRule) o.notify
    ({ sent.1 with oldNumQ6Rule := d.q6UlFilterRule.length },
      if sent.2 = 0 then added.2 else eFault)

structure SysPipeOutcome where
  ok : Bool := true
  dfltV4 : AddOutcome := {}
  dfltV6 : AddOutcome := {}

/-- `ipa2_setup_sys_pipe` for the egress pipe. Set up once, it is only reconfigured;
the first time it gets its default rules, unless the modem configures its filters. -/
def setupEgressPipe (o : SysPipeOutcome) : DriverState × Bool :=
  if ¬ o.ok then (d.note false, false)
  -- a LAN_WAN_PROD pipe that is valid is reconfigured, without an error
  else if d.epValid ∨ d.ipaModemCfgEmbPipeFlt then ({ d with epValid := true }, true)
  else
    ({ d with
      epValid := true
      ipa := (d.ipa.ipaInstallDfltFltRule appsLanWanProd .v4 o.dfltV4).ipaInstallDfltFltRule
        appsLanWanProd .v6 o.dfltV6 }, true)

structure RegisterOutcome where
  hdrOk : Bool := true
  propOk : Bool := true
  intfOk : Bool := true

/-- `ipa_add_qmap_hdr`, unless the channel's header has been added before. A header
takes an id as well. -/
def addQmapHdr (index : Fin maxNumOfMuxChannel) (ok : Bool) : DriverState × Bool :=
  let ch := d.muxChannel index
  if ch.muxHdrSet then (d, true)
  else if ¬ ok then (d.note false, false)
  else
    ({ d with
      ipa := { d.ipa with idr := idrAlloc d.ipa.idr :: d.ipa.idr }
      muxChannel := update d.muxChannel index { ch with muxHdrSet := true } }, true)

/-- `ipa2_register_intf_ext` with the cached rules as extended properties; `mux_id`
there is one byte. -/
def registerIntfExt (index : Fin maxNumOfMuxChannel) (o : RegisterOutcome) :
    DriverState × Bool :=
  let ch := d.muxChannel index
  if ¬ o.propOk ∨ ipaNumPropsMax < d.q6UlFilterRule.length ∨ ¬ o.intfOk then
    (d.note false, false)
  else
    ({ d with
      intfList := d.intfList ++ [{
        name := ch.vchannelName
        ext := d.q6UlFilterRule.map fun q => { q with muxId := ch.muxId % 256 } }]
      muxChannel := update d.muxChannel index { ch with ulFltReg := true } }, true)

def wwanRegisterToIpa (index : Fin maxNumOfMuxChannel) (o : RegisterOutcome) :
    DriverState × Bool :=
  let hdr := d.addQmapHdr index o.hdrOk
  if hdr.2 then hdr.1.registerIntfExt index o else hdr

/-- The checks of `qmi_filter_request_send` on the request; that the modem is up is part
of the outcome. -/
def filterRequestValid (req : InstallFltrRuleReq) : Bool :=
  req.filterSpecList.length < qmiIpaMaxFilters ∧ req.sourcePipeIndexValid = false ∧
    req.sourcePipeIndex < d.ipa.ipaNumPipes ∧
    ∀ spec ∈ req.filterSpecList, spec.ipType ≠ .max ∧ spec.muxId.isSome ∧
      spec.routeTableIndex.isSome

def qmiFilterRequestSend (req : InstallFltrRuleReq) (o : SendOutcome) : DriverState × ℤ :=
  if ¬ d.filterRequestValid req then (d.note false, eInval)
  else match o with
    | .notSent => (d.note false, eInval)
    | .failed => (note { d with qmiSent := d.qmiSent ++ [.installFilterRule req] } false, -5)
    | .accepted => ({ d with qmiSent := d.qmiSent ++ [.installFilterRule req] }, 0)

def cacheMuxEntry (index : Fin maxNumOfMuxChannel) (muxId : ℕ) (name : IfName) :
    DriverState :=
  let ch := d.muxChannel index
  { d with
    muxChannel := update d.muxChannel index { ch with muxId := muxId, vchannelName := name } }

/-- Without rules of the modem there is nothing to register yet. -/
def registerMuxEntry (index : Fin maxNumOfMuxChannel) (o : RegisterOutcome) :
    DriverState × Bool :=
  if d.q6UlFilterRule ≠ [] then d.wwanRegisterToIpa index o else (d, true)

def countMuxEntry (index : Fin maxNumOfMuxChannel) : DriverState :=
  let ch := d.muxChannel index
  { d with
    muxChannel := update d.muxChannel index { ch with
      muxChannelSet := true, ulFltReg := d.q6UlFilterRule ≠ [] }
    rmnetIndex := index.succ }

/-- The part that the ioctl and auto-IPACM have in common: cache the channel in the next
entry, register it if the modem's rules are there, and count it. When the registration
fails the entry stays cached, uncounted. -/
def addMuxEntry (muxId : ℕ) (name : IfName) (h : d.rmnetIndex.val < maxNumOfMuxChannel)
    (o : RegisterOutcome) : DriverState × Bool :=
  let index : Fin maxNumOfMuxChannel := ⟨d.rmnetIndex.val, h⟩
  let registered := (d.cacheMuxEntry index muxId name).registerMuxEntry index o
  if registered.2 then (registered.1.countMuxEntry index, true) else registered

/-- All 15 entries are searched, also those that are not counted. -/
def findMuxChannelIndex (muxId : ℕ) : Option (Fin maxNumOfMuxChannel) :=
  (List.finRange maxNumOfMuxChannel).find? fun i => (d.muxChannel i).muxId = muxId

/-- `RMNET_IOCTL_ADD_MUX_CHANNEL`. -/
def addMuxChannel (muxId : ℕ) (name : IfName) (o : RegisterOutcome) :
    DriverState × ℤ :=
  -- an id that is there already counts as added
  if (d.findMuxChannelIndex muxId).isSome then (d, 0)
  else if h : d.rmnetIndex.val < maxNumOfMuxChannel then
    let added := d.addMuxEntry muxId name h o
    (added.1, if added.2 then 0 else eNoDev)
  else (d, eFault)

/-- `ipa_query_intf`: the number of extended properties of the first interface with the
name. -/
def ipaQueryIntf (name : IfName) : Option ℕ :=
  (d.intfList.find? (·.name = name)).map (·.ext.length)

/-- `ipa_query_intf_ext_props`. -/
def ipaQueryIntfExtProps (name : IfName) (numExtProps : ℕ) : Option (List ExtIntfProp) :=
  match d.intfList.find? (·.name = name) with
  | some intf => if intf.ext.length = numExtProps then some intf.ext else none
  | none => none

end DriverState

end X00TDCellular
