import X00TDCellular.EnvProgram
import X00TDCellular.QmiRoundTrip

/-! `vendor-init`: the bring-up stages and `main`. Sockets, the modem, the files under
`/run/vendor-init`, other programs and signals are the environment; the log is left out. -/

namespace X00TDCellular
namespace VendorInit
open EnvProgram EnvProgram.Prog

inductive QrtrSvc
  | wds | dms | nas | wda | dpm | dsd
  deriving DecidableEq, Repr

/-- The messages, each of the service that its stage has looked up. -/
inductive MsgId
  | dmsGetOperatingMode | dmsSetOperatingMode
  | nasSetSysSelPref | nasInitiateNwRegister | nasGetServingSystem
  | dpmOpenPortReq | wdaSetDataFormat
  | bindMux | afSetMode | ipFamily4D | startNetwork | getSettings
  deriving DecidableEq, Repr

def MsgId.toUInt16 : MsgId → UInt16
  | .dmsGetOperatingMode => 0x002D
  | .dmsSetOperatingMode => 0x002E
  | .nasSetSysSelPref => 0x0033
  | .nasInitiateNwRegister => 0x0022
  | .nasGetServingSystem => 0x0024
  | .dpmOpenPortReq => 0x0020
  | .wdaSetDataFormat => 0x0020
  | .bindMux => 0x00A2
  | .afSetMode => 0x00AF
  | .ipFamily4D => 0x004D
  | .startNetwork => 0x0020
  | .getSettings => 0x002D

/-- A request, by the calls that build it in a buffer of `bufSz` bytes. -/
structure QmiRequest where
  bufSz : ℕ
  txid : UInt16
  msg : MsgId
  tlvs : List TlvCall

def QmiRequest.build (r : QmiRequest) (buf : List UInt8) : Option (List UInt8 × ℕ) :=
  buildRequest buf r.txid r.msg.toUInt16 r.tlvs

/-- The stages, under the names that they have in `STAGES`. -/
inductive StageName
  | dmsOnline | nasRat | dpmOpen | wdaSet | dsd | bindMux | wdsStart | postTune
  deriving DecidableEq, Repr

inductive RunResult
  | starting | interrupted | ready | failed (stage : StageName)
  deriving DecidableEq, Repr

/-- The files of the state directory. -/
inductive StateFile
  | state | stage | apn | numMuxes | dryRun
  | dmsPort | dmsModeBefore | dmsSetOnlineResult
  | nasPort | ratBefore | nasSetPrefResult | nasRegisterResult | ratAfter
  | dpmPort | dpmOpenResult | wdaPort | wdaDlProto | wdaUlProto | wdaDlMaxSize | wdaDlDgrams
  | dsdPort | wdsPort | muxBound
  | bearerState | bearerPdh | bearerIpv4 | bearerGw | bearerPrefix | bearerMtu
  | rmnetDataFormatRequest | rmnetUlTxcsum | postTune
  deriving DecidableEq, Repr

/-- A value, by its format and what is printed with it. -/
inductive StateValue
  | result (r : RunResult)
  | stage (s : StageName)
  /-- `"%s"` of a string from the command line -/
  | arg (s : List UInt8)
  | text (s : String)
  /-- `"%d"` and `"%u"` -/
  | int (n : ℤ)
  /-- `"%d (%s)"` and `"%u (%s)"` -/
  | named (n : ℤ) (name : String)
  /-- `"GET_ERR_%d"` -/
  | getErr (n : ℤ)
  /-- `"FAIL_%d"` -/
  | fail (n : ℤ)
  /-- `"0x%08x"` -/
  | hex (v : UInt32)
  /-- `"%u.%u.%u.%u"` of the four bytes, the highest first -/
  | dotted (v : UInt32)
  deriving DecidableEq, Repr

inductive NetDev
  | rmnetIpa0 | qmapmux00
  deriving DecidableEq, Repr

/-- The data format flags of an rmnet device. -/
inductive RmnetFlag
  | ingressDeaggregation | ingressMapv4Checksum | egressMapv4Checksum
  deriving DecidableEq, Repr

inductive EthFeature
  | gro | gso | tso | txChecksumIpv4 | txChecksumIpv6
  deriving DecidableEq, Repr

/-- The shell commands. -/
inductive Command
  | ipLinkUp (dev : NetDev)
  /-- `ip link add link rmnet_ipa0 name qmapmux0.0 type rmnet mux_id 1`, and the flags that
  are `on` -/
  | ipLinkAddRmnet (flags : List RmnetFlag)
  | ipLinkMtu (dev : NetDev) (mtu : UInt32)
  /-- `ip link set qmapmux0.0 type rmnet mux_id 1`, and the flags that are `on` -/
  | ipLinkSetRmnet (flags : List RmnetFlag)
  | ethtool (dev : NetDev) (features : List EthFeature) (on : Bool)
  deriving DecidableEq, Repr

inductive Call
  | qrtrOpen
  | qrtrLookup (fd : ℤ) (service : QrtrSvc)
  | qrtrTxn (fd : ℤ) (port : UInt32) (req : QmiRequest) (respSz timeoutMs : ℕ)
  | close (fd : ℤ)
  /-- `write_file` of `state.c` -/
  | writeFile (file : StateFile) (value : StateValue)
  | system (cmd : Command)
  | tryWrite (path value : String)
  /-- how many times the loop of `stage_nas_rat` comes around until the clock ends it -/
  | lteRounds
  /-- a look at `g_stop` -/
  | gStop
  /-- returns after a signal handler has run, and both handlers set `g_stop` -/
  | pause

/-- What a call returns: for `qrtr_lookup` a port or 0, for `qrtr_txn` the bytes received,
if any, for `write_file` whether the file could be opened. -/
abbrev Answer : Call → Type
  | .qrtrOpen => ℤ
  | .qrtrLookup _ _ => UInt32
  | .qrtrTxn _ _ _ _ _ => Option (List UInt8)
  | .close _ => Unit
  | .writeFile _ _ => Bool
  | .system _ => ℤ
  | .tryWrite _ _ => Bool
  | .lteRounds => ℕ
  | .gStop => Bool
  | .pause => Unit

abbrev Vi := Prog Call Answer

/-- `struct vi_ctx`. -/
structure ViCtx where
  fd : ℤ := -1
  txid : UInt16 := 1
  wdsPort : UInt32 := 0
  wdaPort : UInt32 := 0
  dpmPort : UInt32 := 0
  dsdPort : UInt32 := 0
  bearerPktDataHandle : UInt32 := 0
  bearerIpv4 : UInt32 := 0
  bearerGw : UInt32 := 0
  bearerMask : UInt32 := 0
  bearerDns1 : UInt32 := 0
  bearerDns2 : UInt32 := 0
  bearerMtu : UInt32 := 0
  apn : List UInt8
  dryRun : Bool := false
  skipMm : Bool := false
  numMuxes : ℤ := 1
  fullUl : Bool := false
  simpleWds : Bool := true

def qrtrOpen : Vi ℤ := ask Call.qrtrOpen

def qrtrLookup (fd : ℤ) (service : QrtrSvc) : Vi UInt32 := ask (Call.qrtrLookup fd service)

def qrtrTxn (fd : ℤ) (port : UInt32) (req : QmiRequest) (respSz timeoutMs : ℕ) :
    Vi (Option (List UInt8)) :=
  ask (Call.qrtrTxn fd port req respSz timeoutMs)

def close (fd : ℤ) : Vi Unit := ask (Call.close fd)

def stateSetStage (stage : StageName) : Vi Bool := ask (Call.writeFile .stage (.stage stage))

def stateSetResult (result : RunResult) : Vi Bool := ask (Call.writeFile .state (.result result))

def stateRecord (key : StateFile) (value : StateValue) : Vi Bool := ask (Call.writeFile key value)

def system (cmd : Command) : Vi ℤ := ask (Call.system cmd)

def tryWrite (path value : String) : Vi Bool := ask (Call.tryWrite path value)

def lteRounds : Vi ℕ := ask Call.lteRounds

def gStop : Vi Bool := ask Call.gStop

def pause : Vi Unit := ask Call.pause

/-- `qmi_result` of a reply, which is looked at nowhere but in its own bytes. -/
def resultOf (resp : List UInt8) : ℤ := (qmiResult resp resp.length).getD (-1)

/-- `qmi_tlv_find` of a reply. -/
def tlvOf (resp : List UInt8) (type : UInt8) : Option (ℕ × ℕ) :=
  (qmiTlvFind resp resp.length type).join

/-- `qmi_tlv_get_u32` of a reply. -/
def u32Of (resp : List UInt8) (type : UInt8) : Option UInt32 :=
  (qmiTlvGetU32 resp resp.length type).join

section DmsOnline

def dmsModeOnline : UInt8 := 0x00

def modeName (m : UInt8) : String :=
  if m = 0x00 then "ONLINE"
  else if m = 0x01 then "LOW_POWER"
  else if m = 0x02 then "FACTORY_TEST"
  else if m = 0x03 then "OFFLINE"
  else if m = 0x04 then "RESET"
  else if m = 0x05 then "SHUTTING_DOWN"
  else if m = 0x06 then "PERSISTENT_LOW_POWER"
  else "UNKNOWN"

def getOperatingMode : QmiRequest where
  bufSz := 64
  txid := 1
  msg := .dmsGetOperatingMode
  tlvs := []

def setOperatingModeOnline : QmiRequest where
  bufSz := 64
  txid := 2
  msg := .dmsSetOperatingMode
  tlvs := [.u8 0x01 dmsModeOnline]

/-- The mode in a reply without error. -/
def operatingMode (resp : List UInt8) : UInt8 :=
  match tlvOf resp 0x01 with
  | some (off, len) => if 1 ≤ len then resp.getD off 0xFF else 0xFF
  | none => 0xFF

def stageDmsOnline (ctx : ViCtx) : Vi (ℕ × ViCtx) :=
  if ctx.dryRun then return (0, ctx)
  else do
    let fd ← qrtrOpen
    if fd < 0 then return (1, ctx)
    else
      let dmsPort ← qrtrLookup fd .dms
      if dmsPort = 0 then
        close fd
        return (1, ctx)
      else
        let _ ← stateRecord .dmsPort (.int dmsPort.toNat)
        match ← qrtrTxn fd dmsPort getOperatingMode 256 2000 with
        | none =>
          close fd
          return (2, ctx)
        | some resp =>
          if resultOf resp ≠ 0 then
            -- not fatal: the modem is taken to be online
            let _ ← stateRecord .dmsModeBefore (.getErr (resultOf resp))
            close fd
            return (0, ctx)
          else
            let current := operatingMode resp
            let _ ← stateRecord .dmsModeBefore (.named current.toNat (modeName current))
            if current = dmsModeOnline then
              close fd
              return (0, ctx)
            else
              match ← qrtrTxn fd dmsPort setOperatingModeOnline 256 5000 with
              | none =>
                close fd
                return (2, ctx)
              | some resp =>
                close fd
                let _ ← stateRecord .dmsSetOnlineResult (.int (resultOf resp))
                return (if resultOf resp ≠ 0 then 3 else 0, ctx)

end DmsOnline

section NasRat

def radioIfNone : UInt8 := 0x00

def radioIfGsm : UInt8 := 0x04

def radioIfUmts : UInt8 := 0x05

def radioIfLte : UInt8 := 0x08

def radioIfName (r : UInt8) : String :=
  if r = radioIfNone then "none"
  else if r = radioIfGsm then "gsm"
  else if r = radioIfUmts then "umts"
  else if r = radioIfLte then "lte"
  else "unknown"

/-- An interface is a `gint8` where it is printed. -/
def ratValue (r : UInt8) : StateValue := .named r.toInt8.toInt (radioIfName r)

/-- `RAT_MODE_LTE_PREFERRED` -/
def ratModeLtePreferred : UInt16 := 0x0010 ||| 0x0008 ||| 0x0004

def setSysSelPref (txid : UInt16) : QmiRequest where
  bufSz := 128
  txid := txid
  msg := .nasSetSysSelPref
  tlvs :=
    [.u16 0x11 ratModeLtePreferred,
      .bytes 0x16 ⟨[0x00, 0x00, 0x00, 0x00, 0x00], by decide⟩,
      .u8 0x17 0x00,
      .bytes 0x1E ⟨[3, radioIfLte, radioIfUmts, radioIfGsm], by decide⟩]

def initiateNwRegister (txid : UInt16) : QmiRequest where
  bufSz := 64
  txid := txid
  msg := .nasInitiateNwRegister
  tlvs := [.u8 0x01 0x01]

def getServingSystem (txid : UInt16) : QmiRequest where
  bufSz := 16
  txid := txid
  msg := .nasGetServingSystem
  tlvs := []

/-- A request whose result is only recorded; both return values are tolerated by the
stage. -/
def issueRequest (fd : ℤ) (nasPort : UInt32) (req : QmiRequest) (key : StateFile) :
    Vi ℤ := do
  match ← qrtrTxn fd nasPort req 256 5000 with
  | none => return -1
  | some resp =>
    let _ ← stateRecord key (.int (resultOf resp))
    return if resultOf resp ≠ 0 then -1 else 0

def issueSetSysSelPref (fd : ℤ) (nasPort : UInt32) (txid : UInt16) : Vi ℤ :=
  issueRequest fd nasPort (setSysSelPref txid) .nasSetPrefResult

def issueInitiateRegister (fd : ℤ) (nasPort : UInt32) (txid : UInt16) : Vi ℤ :=
  issueRequest fd nasPort (initiateNwRegister txid) .nasRegisterResult

/-- The loop over the interfaces after the first. -/
def bestInterface (best : UInt8) : List UInt8 → UInt8
  | [] => best
  | r :: rs =>
    if r = radioIfLte then radioIfLte
    else if r = radioIfUmts ∧ best ≠ radioIfLte then bestInterface r rs
    else bestInterface best rs

/-- What `poll_serving_system` makes of a reply: LTE when there is a tracking area code,
else the best interface of the serving system TLV. -/
def servingInterface (resp : List UInt8) : UInt8 :=
  if resultOf resp ≠ 0 then radioIfNone
  else if (tlvOf resp 0x15).isSome then radioIfLte
  else match tlvOf resp 0x01 with
    | none => radioIfNone
    | some (off, len) =>
      if len < 5 then radioIfNone
      else
        let count := (resp.getD (off+4) 0).toNat
        if count = 0 ∨ off + 5 + count > resp.length then radioIfNone
        else bestInterface (resp.getD (off+5) 0) ((resp.drop (off+6)).take (count-1))

/-- What a poll reports, a timeout included. -/
def polledInterface (resp : Option (List UInt8)) : UInt8 :=
  (resp.map servingInterface).getD radioIfNone

def pollServingSystem (fd : ℤ) (nasPort : UInt32) (txid : UInt16) : Vi UInt8 := do
  let resp ← qrtrTxn fd nasPort (getServingSystem txid) 1024 2000
  return polledInterface resp

/-- The loop that waits for LTE: `seen_lte` and `last_rat` after so many rounds at most. -/
def waitForLte (fd : ℤ) (nasPort : UInt32) : ℕ → UInt16 → UInt8 → Vi (Bool × UInt8)
  | 0, _, lastRat => return (false, lastRat)
  | rounds+1, txid, _ => do
    let r ← pollServingSystem fd nasPort txid
    if r = radioIfLte then return (true, r)
    else waitForLte fd nasPort rounds (txid+1) r

def stageNasRat (ctx : ViCtx) : Vi (ℕ × ViCtx) :=
  if ctx.dryRun then return (0, ctx)
  else do
    let fd ← qrtrOpen
    if fd < 0 then return (1, ctx)
    else
      let nasPort ← qrtrLookup fd .nas
      if nasPort = 0 then
        close fd
        return (1, ctx)
      else
        let _ ← stateRecord .nasPort (.int nasPort.toNat)
        let currentRat ← pollServingSystem fd nasPort 1
        let _ ← stateRecord .ratBefore (ratValue currentRat)
        if currentRat = radioIfLte then
          close fd
          return (0, ctx)
        else
          let _ ← issueSetSysSelPref fd nasPort 2
          let _ ← issueInitiateRegister fd nasPort 3
          let rounds ← lteRounds
          let waited ← waitForLte fd nasPort rounds 4 currentRat
          let _ ← stateRecord .ratAfter (ratValue waited.2)
          close fd
          -- without LTE the request falls back to the simple form
          if waited.1 then return (0, ctx) else return (0, { ctx with simpleWds := true })

end NasRat

/-- The endpoint descriptor of DPM. -/
def epDesc : {d : List UInt8 // d.length ≤ 65535} :=
  ⟨[0x01, 0x04, 0x00, 0x00, 0x00, 0x01, 0x00, 0x00, 0x00, 0x04, 0x00, 0x00, 0x00, 0x05,
    0x00, 0x00, 0x00], by decide⟩

/-- `EP_INFO`, the same bytes in both stages that have it. -/
def epInfo : {d : List UInt8 // d.length ≤ 65535} :=
  ⟨[0x04, 0x00, 0x00, 0x00, 0x01, 0x00, 0x00, 0x00], by decide⟩

def openPortReq : QmiRequest where
  bufSz := 64
  txid := 1
  msg := .dpmOpenPortReq
  tlvs := [.bytes 0x11 epDesc]

def stageDpmOpen (ctx : ViCtx) : Vi (ℕ × ViCtx) :=
  if ctx.dryRun then return (0, ctx)
  else do
    let fd ← qrtrOpen
    if fd < 0 then return (1, ctx)
    else
      let dpmPort ← qrtrLookup fd .dpm
      let ctx := { ctx with dpmPort := dpmPort }
      if dpmPort = 0 then
        let _ ← stateRecord .dpmPort (.text "0 (not found)")
        close fd
        return (1, ctx)
      else
        let _ ← stateRecord .dpmPort (.int dpmPort.toNat)
        match ← qrtrTxn fd dpmPort openPortReq 256 2000 with
        | none =>
          close fd
          return (2, ctx)
        | some resp =>
          let _ ← stateRecord .dpmOpenResult (.int (resultOf resp))
          close fd
          return (if resultOf resp ≠ 0 then 3 else 0, ctx)

section WdaSet

def wdaDlProto : UInt32 := 7

def wdaUlProtoV1 : UInt32 := 5

def wdaUlProtoV3 : UInt32 := 7

def wdaDlSize : UInt32 := 8192

def wdaDlDgrams : UInt32 := 10

def setDataFormat (fullUl : Bool) : QmiRequest where
  bufSz := 128
  txid := 1
  msg := .wdaSetDataFormat
  tlvs :=
    [.u32 0x11 2,
      .u32 0x12 (if fullUl then wdaUlProtoV3 else wdaUlProtoV1),
      .u32 0x13 wdaDlProto,
      .u32 0x15 wdaDlDgrams,
      .u32 0x16 wdaDlSize,
      .bytes 0x17 epInfo,
      .u32 0x19 0,
      .u8 0x1A 1,
      .u32 0x1B 0,
      .u32 0x1C 0]

/-- A value that the modem echoes; one that is missing counts as 0. -/
def echoed (resp : List UInt8) (type : UInt8) : UInt32 := (u32Of resp type).getD 0

def stageWdaSet (ctx : ViCtx) : Vi (ℕ × ViCtx) :=
  if ctx.dryRun then return (0, ctx)
  else do
    let fd ← qrtrOpen
    if fd < 0 then return (1, ctx)
    else
      let wdaPort ← qrtrLookup fd .wda
      let ctx := { ctx with wdaPort := wdaPort }
      if wdaPort = 0 then
        close fd
        return (1, ctx)
      else
        let _ ← stateRecord .wdaPort (.int wdaPort.toNat)
        match ← qrtrTxn fd wdaPort (setDataFormat ctx.fullUl) 256 2000 with
        | none =>
          close fd
          return (2, ctx)
        | some resp =>
          close fd
          if resultOf resp ≠ 0 then return (3, ctx)
          else
            -- the echo is recorded, and a warning logged when it is another format
            let _ ← stateRecord .wdaDlProto (.int (echoed resp 0x13).toNat)
            let _ ← stateRecord .wdaUlProto (.int (echoed resp 0x12).toNat)
            let _ ← stateRecord .wdaDlMaxSize (.int (echoed resp 0x16).toNat)
            let _ ← stateRecord .wdaDlDgrams (.int (echoed resp 0x15).toNat)
            return (0, ctx)

end WdaSet

def stageDsd (ctx : ViCtx) : Vi (ℕ × ViCtx) :=
  if ctx.dryRun then return (0, ctx)
  else do
    let fd ← qrtrOpen
    if fd < 0 then return (0, ctx)
    else
      let dsdPort ← qrtrLookup fd .dsd
      let _ ← stateRecord .dsdPort
        (if dsdPort ≠ 0 then .int dsdPort.toNat else .text "0 (not found)")
      close fd
      return (0, { ctx with dsdPort := dsdPort })

section BindMux

def bindMuxDataPort (txid : UInt16) (m : ℕ) : QmiRequest where
  bufSz := 64
  txid := txid
  msg := .bindMux
  tlvs := [.bytes 0x10 epInfo, .u8 0x11 (UInt8.ofNat m)]

/-- The loop, with so many of the mux ids from `m` on left. -/
def bindMuxes : ℕ → ℕ → ViCtx → Vi (ℕ × ViCtx)
  | 0, _, ctx => return (0, ctx)
  | left+1, m, ctx => do
    let ctx' := { ctx with txid := ctx.txid + 1 }
    match ← qrtrTxn ctx.fd ctx.wdsPort (bindMuxDataPort ctx.txid m) 256 2000 with
    | none => return (2, ctx')
    | some resp =>
      if resultOf resp ≠ 0 then return (3, ctx') else bindMuxes left (m+1) ctx'

/-- The socket stays open when the stage fails in its loop too; `main` closes it. -/
def stageBindMux (ctx : ViCtx) : Vi (ℕ × ViCtx) :=
  if ctx.dryRun then return (0, ctx)
  else do
    let fd ← qrtrOpen
    if fd < 0 then return (1, ctx)
    else
      let wdsPort ← qrtrLookup fd .wds
      if wdsPort = 0 then
        close fd
        return (1, { ctx with wdsPort := wdsPort })
      else
        let _ ← stateRecord .wdsPort (.int wdsPort.toNat)
        let (rc, ctx) ← bindMuxes ctx.numMuxes.toNat 1
          { ctx with wdsPort := wdsPort, fd := fd, txid := 1 }
        if rc ≠ 0 then return (rc, ctx)
        else
          let _ ← stateRecord .muxBound (.int ctx.numMuxes.toNat)
          return (0, ctx)

end BindMux

section WdsStart

def getCurrentSettings (txid : UInt16) : QmiRequest where
  bufSz := 64
  txid := txid
  msg := .getSettings
  tlvs := [.u32 0x10 0xffffffff]

/-- The loop that counts the leading ones of a mask. -/
def prefixLength (mask : UInt32) : ℕ :=
  ((List.range 32).takeWhile fun i => mask.toBitVec.getMsbD i).length

/-- Records what the TLV carries, if the reply has it. -/
def recordU32 (resp : List UInt8) (type : UInt8) (key : StateFile) (value : UInt32 → StateValue) :
    Vi Unit :=
  match u32Of resp type with
  | some v => do
    let _ ← stateRecord key (value v)
    return ()
  | none => return ()

/-- The fields that a reply fills in. -/
def withSettings (ctx : ViCtx) (resp : List UInt8) : ViCtx :=
  { ctx with
    bearerIpv4 := (u32Of resp 0x1E).getD ctx.bearerIpv4
    bearerGw := (u32Of resp 0x20).getD ctx.bearerGw
    bearerMask := (u32Of resp 0x21).getD ctx.bearerMask
    bearerDns1 := (u32Of resp 0x15).getD ctx.bearerDns1
    bearerDns2 := (u32Of resp 0x16).getD ctx.bearerDns2
    bearerMtu := (u32Of resp 0x29).getD ctx.bearerMtu }

/-- The error code of the reply is not looked at. -/
def issueGetSettings (ctx : ViCtx) : Vi (ℤ × ViCtx) := do
  let ctx' := { ctx with txid := ctx.txid + 1 }
  match ← qrtrTxn ctx.fd ctx.wdsPort (getCurrentSettings ctx.txid) 1024 2000 with
  | none => return (-1, ctx')
  | some resp =>
    recordU32 resp 0x1E .bearerIpv4 .dotted
    recordU32 resp 0x20 .bearerGw .dotted
    recordU32 resp 0x21 .bearerPrefix fun mask => .int (prefixLength mask)
    recordU32 resp 0x29 .bearerMtu fun mtu => .int mtu.toNat
    return (0, withSettings ctx' resp)

def afSetMode (txid : UInt16) : QmiRequest where
  bufSz := 256
  txid := txid
  msg := .afSetMode
  tlvs := [.u32 0x01 0x00000002]

def setIpFamily (txid : UInt16) : QmiRequest where
  bufSz := 256
  txid := txid
  msg := .ipFamily4D
  tlvs := [.u8 0x01 0x04]

/-- The APN with its length as a `uint16_t`. -/
def apnTlv (apn : List UInt8) : TlvCall :=
  .bytes 0x14 ⟨apn.take (apn.length % 65536), by
    rw [List.length_take]
    omega⟩

def startNetwork (ctx : ViCtx) : QmiRequest where
  bufSz := 256
  txid := ctx.txid
  msg := .startNetwork
  tlvs :=
    if ctx.simpleWds then [apnTlv ctx.apn, .u8 0x19 0x04]
    else
      [apnTlv ctx.apn, .u8 0x16 0x00, .u8 0x19 0x04, .u8 0x31 0x05, .u8 0x35 0x01,
        .u8 0x39 0x01]

/-- From the label `start_network` on. -/
def issueStartNetwork (ctx : ViCtx) : Vi (ℕ × ViCtx) := do
  let ctx' := { ctx with txid := ctx.txid + 1 }
  match ← qrtrTxn ctx.fd ctx.wdsPort (startNetwork ctx) 512 10000 with
  | none => return (2, ctx')
  | some resp =>
    if resultOf resp ≠ 0 then
      let _ ← stateRecord .bearerState (.fail (resultOf resp))
      return (3, ctx')
    else
      recordU32 resp 0x01 .bearerPdh .hex
      let _ ← stateRecord .bearerState (.text "UP")
      let settings ← issueGetSettings
        { ctx' with
          bearerPktDataHandle := (u32Of resp 0x01).getD ctx.bearerPktDataHandle }
      return (0, settings.2)

/-- An error in the reply to one of the two requests before the start is tolerated. -/
def stageWdsStart (ctx : ViCtx) : Vi (ℕ × ViCtx) :=
  if ctx.dryRun then return (0, ctx)
  else if ctx.wdsPort = 0 then return (1, ctx)
  else if ctx.simpleWds then issueStartNetwork ctx
  else do
    let af ← qrtrTxn ctx.fd ctx.wdsPort (afSetMode ctx.txid) 512 2000
    if af.isNone then return (2, { ctx with txid := ctx.txid + 1 })
    else
      let family ← qrtrTxn ctx.fd ctx.wdsPort (setIpFamily (ctx.txid + 1)) 512 2000
      if family.isNone then return (2, { ctx with txid := ctx.txid + 2 })
      else issueStartNetwork { ctx with txid := ctx.txid + 2 }

end WdsStart

section PostTune

/-- The calls that do not look at their context, in order. -/
def callAll : List Call → Vi Unit
  | [] => return ()
  | c :: cs => do
    let _ ← ask c
    callAll cs

/-- The flags that are named when the device is set up for the run. -/
def rmnetFlags (fullUl : Bool) : List RmnetFlag :=
  if fullUl then [.ingressDeaggregation, .ingressMapv4Checksum, .egressMapv4Checksum]
  else [.ingressDeaggregation, .ingressMapv4Checksum]

def createChild : List Call :=
  [.system (.ipLinkUp .rmnetIpa0),
    .system (.ipLinkAddRmnet [.ingressDeaggregation, .ingressMapv4Checksum])]

def setMtu (mtu : UInt32) : List Call :=
  if 0 < mtu ∧ mtu < 2000 then [.system (.ipLinkMtu .qmapmux00 mtu)] else []

def setFlags (fullUl : Bool) : List Call :=
  [.system (.ipLinkUp .qmapmux00), .system (.ipLinkSetRmnet (rmnetFlags fullUl)),
    .writeFile .rmnetDataFormatRequest (.text (if fullUl then
        "DEAGG + INGRESS_MAP_CKSUMV4 + EGRESS_MAP_CKSUMV4"
      else "DEAGG + INGRESS_MAP_CKSUMV4"))]

def tune (fullUl : Bool) : List Call :=
  [.tryWrite "/proc/sys/net/core/netdev_max_backlog" "10000",
    .tryWrite "/proc/sys/net/ipv4/tcp_no_metrics_save" "1",
    .tryWrite "/proc/sys/net/ipv4/tcp_initial_ssthresh" "1400",
    .tryWrite "/sys/module/tcp_cubic/parameters/hystart" "0",
    .tryWrite "/sys/module/tcp_cubic/parameters/hystart_detect" "0",
    .system (.ethtool .rmnetIpa0 [.gro] true),
    .system (.ethtool .qmapmux00 [.gro] true),
    .system (.ethtool .qmapmux00 [.gso] true),
    .system (.ethtool .qmapmux00 [.tso] true),
    .system (.ethtool .qmapmux00 [.txChecksumIpv4, .txChecksumIpv6] false),
    .system (.ethtool .rmnetIpa0 [.txChecksumIpv4, .txChecksumIpv6] false),
    .writeFile .rmnetUlTxcsum (.text (if fullUl then
        "off (QMAPv3 UL — SW csum; HW offload broken)"
      else "off (QMAPv1 UL — SW csum)")),
    .tryWrite "/sys/class/net/rmnet_ipa0/queues/rx-0/rps_cpus" "2",
    .tryWrite "/sys/class/net/qmapmux0.0/queues/rx-0/rps_cpus" "4",
    .writeFile .postTune (.text "applied")]

/-- None of the results is looked at. -/
def stagePostTune (ctx : ViCtx) : Vi (ℕ × ViCtx) :=
  if ctx.dryRun then return (0, ctx)
  else do
    callAll (createChild ++ setMtu ctx.bearerMtu ++ setFlags ctx.fullUl ++ tune ctx.fullUl)
    return (0, ctx)

end PostTune

section Main

def stages : List (StageName × (ViCtx → Vi (ℕ × ViCtx))) :=
  [(.dmsOnline, stageDmsOnline), (.nasRat, stageNasRat), (.dpmOpen, stageDpmOpen),
    (.wdaSet, stageWdaSet), (.dsd, stageDsd), (.bindMux, stageBindMux),
    (.wdsStart, stageWdsStart), (.postTune, stagePostTune)]

/-- What `getopt_long` finds on the command line, `atoi` applied. -/
inductive Opt
  | apn (name : List UInt8)
  | numMuxes (n : ℤ)
  | skipMm
  | dryRun
  | logFile (path : List UInt8)
  | simpleWds
  | fullWds
  | fullUl
  | verbose
  | help
  | unknown
  deriving DecidableEq, Repr

/-- `DEFAULT_APN` -/
def defaultApn : List UInt8 := [0x69, 0x6e, 0x74, 0x65, 0x72, 0x6e, 0x65, 0x74]

/-- The loop over the options: the context, or the exit code of the usage text. -/
def parseOpts (ctx : ViCtx) : List Opt → Except ℕ ViCtx
  | [] => .ok ctx
  | .apn name :: opts => parseOpts { ctx with apn := name } opts
  | .numMuxes n :: opts => parseOpts { ctx with numMuxes := n } opts
  | .skipMm :: opts => parseOpts { ctx with skipMm := true } opts
  | .dryRun :: opts => parseOpts { ctx with dryRun := true } opts
  | .logFile _ :: opts => parseOpts ctx opts
  | .simpleWds :: opts => parseOpts { ctx with simpleWds := true } opts
  | .fullWds :: opts => parseOpts { ctx with simpleWds := false } opts
  | .fullUl :: opts => parseOpts { ctx with fullUl := true } opts
  | .verbose :: opts => parseOpts ctx opts
  | .help :: _ => .error 0
  | .unknown :: _ => .error 1

/-- The stage loop. -/
def runStages : List (StageName × (ViCtx → Vi (ℕ × ViCtx))) → ViCtx → Vi (ℕ × ViCtx)
  | [], ctx => return (0, ctx)
  | (name, fn) :: rest, ctx => do
    let stop ← gStop
    if stop then
      let _ ← stateSetResult .interrupted
      return (130, ctx)
    else
      let _ ← stateSetStage name
      let done ← fn ctx
      if done.1 ≠ 0 then
        let _ ← stateSetResult (.failed name)
        return done
      else runStages rest done.2

/-- The hold loop. -/
def hold : Vi Unit := do
  let stop ← gStop
  if stop then return () else pause

/-- `main` from the end of the options on. -/
def mainWith (ctx : ViCtx) : Vi ℕ := do
  let _ ← stateSetResult .starting
  let _ ← stateRecord .apn (.arg ctx.apn)
  let _ ← stateRecord .numMuxes (.int ctx.numMuxes)
  let _ ← stateRecord .dryRun (.int (if ctx.dryRun then 1 else 0))
  let (rc, ctx) ← runStages stages ctx
  if rc = 0 then
    let _ ← stateSetResult .ready
    hold
    if 0 ≤ ctx.fd then
      close ctx.fd
      return rc
    else return rc
  else if 0 ≤ ctx.fd then
    close ctx.fd
    return rc
  else return rc

def main (opts : List Opt) : Vi ℕ :=
  match parseOpts { apn := defaultApn } opts with
  | .error rc => return rc
  | .ok ctx => mainWith ctx

end Main

end VendorInit
end X00TDCellular
