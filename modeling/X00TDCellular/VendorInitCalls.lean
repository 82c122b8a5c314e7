import X00TDCellular.VendorInit

/-! Which calls each stage makes, and what it leaves of the options. -/

namespace X00TDCellular
namespace VendorInit
open EnvProgram EnvProgram.Prog EnvProgram.Monitor

def StageName.messages : StageName → List MsgId
  | .dmsOnline => [.dmsGetOperatingMode, .dmsSetOperatingMode]
  | .nasRat => [.nasGetServingSystem, .nasSetSysSelPref, .nasInitiateNwRegister]
  | .dpmOpen => [.dpmOpenPortReq]
  | .wdaSet => [.wdaSetDataFormat]
  | .dsd => []
  | .bindMux => [.bindMux]
  | .wdsStart => [.afSetMode, .ipFamily4D, .startNetwork, .getSettings]
  | .postTune => []

def StageName.files : StageName → List StateFile
  | .dmsOnline => [.dmsPort, .dmsModeBefore, .dmsSetOnlineResult]
  | .nasRat => [.nasPort, .ratBefore, .nasSetPrefResult, .nasRegisterResult, .ratAfter]
  | .dpmOpen => [.dpmPort, .dpmOpenResult]
  | .wdaSet => [.wdaPort, .wdaDlProto, .wdaUlProto, .wdaDlMaxSize, .wdaDlDgrams]
  | .dsd => [.dsdPort]
  | .bindMux => [.wdsPort, .muxBound]
  | .wdsStart =>
    [.bearerState, .bearerPdh, .bearerIpv4, .bearerGw, .bearerPrefix, .bearerMtu]
  | .postTune => [.rmnetDataFormatRequest, .rmnetUlTxcsum, .postTune]

/-- The stages that open a socket; `wds_start` uses the one that `bind_mux` has left. -/
def StageName.opensSocket : StageName → Bool
  | .wdsStart | .postTune => false
  | _ => true

/-- The calls that a stage may make. Those of `main` itself are not among them. -/
def StageName.Calls (name : StageName) : Call → Prop
  | .qrtrOpen | .qrtrLookup _ _ | .close _ => name.opensSocket = true
  | .qrtrTxn _ _ req _ _ => req.msg ∈ name.messages
  | .writeFile file _ => file ∈ name.files
  | .system _ | .tryWrite _ _ => name = .postTune
  | .lteRounds => name = .nasRat
  | .gStop | .pause => False

/-- The options that no stage changes. -/
structure KeepsOpts (ctx ctx' : ViCtx) : Prop where
  apn : ctx'.apn = ctx.apn
  dryRun : ctx'.dryRun = ctx.dryRun
  numMuxes : ctx'.numMuxes = ctx.numMuxes
  fullUl : ctx'.fullUl = ctx.fullUl

theorem KeepsOpts.refl (ctx : ViCtx) : KeepsOpts ctx ctx := ⟨rfl, rfl, rfl, rfl⟩

theorem KeepsOpts.trans {ctx ctx' ctx'' : ViCtx} (h : KeepsOpts ctx ctx')
    (h' : KeepsOpts ctx' ctx'') : KeepsOpts ctx ctx'' :=
  ⟨h'.apn.trans h.apn, h'.dryRun.trans h.dryRun, h'.numMuxes.trans h.numMuxes,
    h'.fullUl.trans h.fullUl⟩

/-- What most stages leave of the options: all of them. -/
def KeepsForm (ctx : ViCtx) (r : ℕ × ViCtx) : Prop :=
  KeepsOpts ctx r.2 ∧ r.2.simpleWds = ctx.simpleWds

/-- What `nas_rat` leaves: it may go back to the simple form. -/
def NarrowsForm (ctx : ViCtx) (r : ℕ × ViCtx) : Prop :=
  KeepsOpts ctx r.2 ∧ (r.2.simpleWds = false → ctx.simpleWds = false)

variable {ctx : ViCtx}

theorem KeepsForm.refl (ctx : ViCtx) (rc : ℕ) : KeepsForm ctx (rc, ctx) :=
  ⟨KeepsOpts.refl ctx, rfl⟩

section Rules

variable {name : StageName} {α : Type} {R : α → Prop}

theorem only_record {key : StateFile} {value : StateValue} {f : Bool → Vi α}
    (hkey : key ∈ name.files) (h : ∀ ok, Only name.Calls R (f ok)) :
    Only name.Calls R (stateRecord key value >>= f) :=
  only_ask_bind hkey h

theorem only_txn {fd : ℤ} {port : UInt32} {req : QmiRequest} {respSz timeoutMs : ℕ}
    {f : Option (List UInt8) → Vi α} (msg : MsgId) (hreq : req.msg = msg)
    (hmsg : msg ∈ name.messages) (h : ∀ resp, Only name.Calls R (f resp)) :
    Only name.Calls R (qrtrTxn fd port req respSz timeoutMs >>= f) := by
  rw [← hreq] at hmsg
  exact only_ask_bind hmsg h

/-- The end of a stage that has its own socket. -/
theorem only_close {fd : ℤ} {f : Unit → Vi α} (hname : name.opensSocket = true)
    (h : Only name.Calls R (f ())) : Only name.Calls R (close fd >>= f) :=
  only_ask_bind hname fun _ => h

/-- The beginning of such a stage. -/
theorem only_open {rc : α} {f : ℤ → Vi α} (hname : name.opensSocket = true) (hfail : R rc)
    (h : ∀ fd, Only name.Calls R (f fd)) :
    Only name.Calls R (qrtrOpen >>= fun fd => if fd < 0 then pure rc else f fd) := by
  apply only_ask_bind (c := Call.qrtrOpen) hname
  intro fd
  split
  · exact hfail
  · exact h fd

theorem only_lookup {fd : ℤ} {svc : QrtrSvc} {f : UInt32 → Vi α}
    (hname : name.opensSocket = true) (h : ∀ port, Only name.Calls R (f port)) :
    Only name.Calls R (qrtrLookup fd svc >>= f) :=
  only_ask_bind hname h

end Rules

theorem only_dmsOnline (ctx : ViCtx) :
    Only StageName.dmsOnline.Calls (KeepsForm ctx) (stageDmsOnline ctx) := by
  have hsame (rc : ℕ) := KeepsForm.refl ctx rc
  unfold stageDmsOnline
  split
  · exact hsame 0
  apply only_open rfl (hsame 1)
  intro fd
  apply only_lookup rfl
  intro port
  split
  · exact only_close rfl (hsame 1)
  apply only_record (by decide)
  intro _
  apply only_txn .dmsGetOperatingMode rfl (by decide)
  intro resp
  cases resp with
  | none => exact only_close rfl (hsame 2)
  | some resp =>
    dsimp only
    split
    · apply only_record (by decide)
      exact fun _ => only_close rfl (hsame 0)
    · apply only_record (by decide)
      intro _
      split
      · exact only_close rfl (hsame 0)
      · apply only_txn .dmsSetOperatingMode rfl (by decide)
        intro resp'
        cases resp' with
        | none => exact only_close rfl (hsame 2)
        | some resp' =>
          apply only_close rfl
          apply only_record (by decide)
          exact fun _ => hsame _

theorem only_dpmOpen (ctx : ViCtx) :
    Only StageName.dpmOpen.Calls (KeepsForm ctx) (stageDpmOpen ctx) := by
  unfold stageDpmOpen
  split
  · exact KeepsForm.refl ctx 0
  apply only_open rfl (KeepsForm.refl ctx 1)
  intro fd
  apply only_lookup rfl
  intro port
  have hsame (rc : ℕ) : KeepsForm ctx (rc, { ctx with dpmPort := port }) :=
    ⟨⟨rfl, rfl, rfl, rfl⟩, rfl⟩
  dsimp only
  split
  · apply only_record (by decide)
    exact fun _ => only_close rfl (hsame 1)
  apply only_record (by decide)
  intro _
  apply only_txn .dpmOpenPortReq rfl (by decide)
  intro resp
  cases resp with
  | none => exact only_close rfl (hsame 2)
  | some resp =>
    apply only_record (by decide)
    exact fun _ => only_close rfl (hsame _)

theorem only_wdaSet (ctx : ViCtx) :
    Only StageName.wdaSet.Calls (KeepsForm ctx) (stageWdaSet ctx) := by
  unfold stageWdaSet
  split
  · exact KeepsForm.refl ctx 0
  apply only_open rfl (KeepsForm.refl ctx 1)
  intro fd
  apply only_lookup rfl
  intro port
  have hsame (rc : ℕ) : KeepsForm ctx (rc, { ctx with wdaPort := port }) :=
    ⟨⟨rfl, rfl, rfl, rfl⟩, rfl⟩
  dsimp only
  split
  · exact only_close rfl (hsame 1)
  apply only_record (by decide)
  intro _
  apply only_txn .wdaSetDataFormat rfl (by decide)
  intro resp
  cases resp with
  | none => exact only_close rfl (hsame 2)
  | some resp =>
    apply only_close rfl
    split
    · exact hsame 3
    apply only_record (by decide)
    intro _
    apply only_record (by decide)
    intro _
    apply only_record (by decide)
    intro _
    apply only_record (by decide)
    exact fun _ => hsame 0

theorem only_dsd (ctx : ViCtx) :
    Only StageName.dsd.Calls (KeepsForm ctx) (stageDsd ctx) := by
  unfold stageDsd
  split
  · exact KeepsForm.refl ctx 0
  apply only_open rfl (KeepsForm.refl ctx 0)
  intro fd
  apply only_lookup rfl
  intro port
  apply only_record (by decide)
  exact fun _ => only_close rfl ⟨⟨rfl, rfl, rfl, rfl⟩, rfl⟩

section NasRat

variable {fd : ℤ} {port : UInt32}

theorem only_poll {α : Type} {R : α → Prop} {txid : UInt16} {f : UInt8 → Vi α}
    (h : ∀ r, Only StageName.nasRat.Calls R (f r)) :
    Only StageName.nasRat.Calls R (pollServingSystem fd port txid >>= f) := by
  apply only_bind (R := fun _ => True)
  · exact only_txn .nasGetServingSystem rfl (by decide) fun _ => trivial
  · exact fun r _ => h r

theorem only_issueRequest {req : QmiRequest} {key : StateFile}
    (msg : MsgId) (hreq : req.msg = msg) (hmsg : msg ∈ StageName.nasRat.messages)
    (hkey : key ∈ StageName.nasRat.files) :
    Only StageName.nasRat.Calls (fun _ => True) (issueRequest fd port req key) := by
  apply only_txn msg hreq hmsg
  intro resp
  cases resp with
  | none => exact trivial
  | some resp => exact only_record hkey fun _ => trivial

theorem only_waitForLte (rounds : ℕ) (txid : UInt16) (lastRat : UInt8) :
    Only StageName.nasRat.Calls (fun _ => True) (waitForLte fd port rounds txid lastRat) := by
  induction rounds generalizing txid lastRat with
  | zero => exact trivial
  | succ rounds ih =>
    apply only_poll
    intro r
    split
    · exact trivial
    · exact ih (txid+1) r

theorem only_nasRat (ctx : ViCtx) :
    Only StageName.nasRat.Calls (NarrowsForm ctx) (stageNasRat ctx) := by
  have hsame (rc : ℕ) : NarrowsForm ctx (rc, ctx) := ⟨KeepsOpts.refl ctx, fun h => h⟩
  unfold stageNasRat
  split
  · exact hsame 0
  apply only_open rfl (hsame 1)
  intro fd
  apply only_lookup rfl
  intro port
  split
  · exact only_close rfl (hsame 1)
  apply only_record (by decide)
  intro _
  apply only_poll
  intro currentRat
  apply only_record (by decide)
  intro _
  split
  · exact only_close rfl (hsame 0)
  apply only_bind (only_issueRequest .nasSetSysSelPref rfl (by decide) (by decide))
  intro _ _
  apply only_bind (only_issueRequest .nasInitiateNwRegister rfl (by decide) (by decide))
  intro _ _
  have hrounds : StageName.nasRat.Calls .lteRounds := rfl
  apply only_ask_bind hrounds
  intro rounds
  apply only_bind (only_waitForLte rounds 4 currentRat)
  intro waited _
  apply only_record (by decide)
  intro _
  apply only_close rfl
  split
  · exact hsame 0
  · refine ⟨⟨rfl, rfl, rfl, rfl⟩, ?_⟩
    intro hfull
    cases hfull

end NasRat

theorem only_bindMuxes (left m : ℕ) (ctx : ViCtx) :
    Only StageName.bindMux.Calls (KeepsForm ctx) (bindMuxes left m ctx) := by
  induction left generalizing m ctx with
  | zero => exact KeepsForm.refl ctx 0
  | succ left ih =>
    have hsame (rc : ℕ) : KeepsForm ctx (rc, { ctx with txid := ctx.txid + 1 }) :=
      ⟨⟨rfl, rfl, rfl, rfl⟩, rfl⟩
    apply only_txn .bindMux rfl (by decide)
    intro resp
    cases resp with
    | none => exact hsame 2
    | some resp =>
      dsimp only
      split
      · exact hsame 3
      · have hrest := ih (m+1) { ctx with txid := ctx.txid + 1 }
        exact hrest.imp fun r hr => ⟨(hsame 0).1.trans hr.1, hr.2⟩

theorem only_bindMux (ctx : ViCtx) :
    Only StageName.bindMux.Calls (KeepsForm ctx) (stageBindMux ctx) := by
  unfold stageBindMux
  split
  · exact KeepsForm.refl ctx 0
  apply only_open rfl (KeepsForm.refl ctx 1)
  intro fd
  apply only_lookup rfl
  intro port
  split
  · exact only_close rfl ⟨⟨rfl, rfl, rfl, rfl⟩, rfl⟩
  apply only_record (by decide)
  intro _
  apply only_bind (only_bindMuxes ctx.numMuxes.toNat 1
    { ctx with wdsPort := port, fd := fd, txid := 1 })
  rintro ⟨rc, ctx'⟩ ⟨⟨hapn, hdry, hmuxes, hul⟩, hform⟩
  have hsame (rc : ℕ) : KeepsForm ctx (rc, ctx') := ⟨⟨hapn, hdry, hmuxes, hul⟩, hform⟩
  dsimp only
  split
  · exact hsame rc
  · apply only_record (by decide)
    exact fun _ => hsame 0

section WdsStart

theorem only_recordU32 {α : Type} {R : α → Prop} {resp : List UInt8} {type : UInt8}
    {key : StateFile} {value : UInt32 → StateValue} {f : Unit → Vi α}
    (hkey : key ∈ StageName.wdsStart.files) (h : Only StageName.wdsStart.Calls R (f ())) :
    Only StageName.wdsStart.Calls R (recordU32 resp type key value >>= f) := by
  apply only_bind (R := fun _ => True)
  · unfold recordU32
    split
    · exact only_record hkey fun _ => trivial
    · exact trivial
  · exact fun _ _ => h

theorem only_issueGetSettings (ctx : ViCtx) :
    Only StageName.wdsStart.Calls
      (fun r => KeepsOpts ctx r.2 ∧ r.2.simpleWds = ctx.simpleWds) (issueGetSettings ctx) := by
  apply only_txn .getSettings rfl (by decide)
  intro resp
  cases resp with
  | none => exact ⟨⟨rfl, rfl, rfl, rfl⟩, rfl⟩
  | some resp =>
    apply only_recordU32 (by decide)
    apply only_recordU32 (by decide)
    apply only_recordU32 (by decide)
    apply only_recordU32 (by decide)
    exact ⟨⟨rfl, rfl, rfl, rfl⟩, rfl⟩

theorem only_issueStartNetwork (ctx : ViCtx) :
    Only StageName.wdsStart.Calls (KeepsForm ctx) (issueStartNetwork ctx) := by
  apply only_txn .startNetwork rfl (by decide)
  intro resp
  cases resp with
  | none => exact ⟨⟨rfl, rfl, rfl, rfl⟩, rfl⟩
  | some resp =>
    dsimp only
    split
    · apply only_record (by decide)
      exact fun _ => ⟨⟨rfl, rfl, rfl, rfl⟩, rfl⟩
    · apply only_recordU32 (by decide)
      apply only_record (by decide)
      intro _
      apply only_bind (only_issueGetSettings _)
      rintro settings ⟨⟨hapn, hdry, hmuxes, hul⟩, hform⟩
      exact ⟨⟨hapn, hdry, hmuxes, hul⟩, hform⟩

theorem only_wdsStart (ctx : ViCtx) :
    Only StageName.wdsStart.Calls (KeepsForm ctx) (stageWdsStart ctx) := by
  unfold stageWdsStart
  split
  · exact KeepsForm.refl ctx 0
  split
  · exact KeepsForm.refl ctx 1
  split
  · exact only_issueStartNetwork ctx
  apply only_txn .afSetMode rfl (by decide)
  intro af
  split
  · exact ⟨⟨rfl, rfl, rfl, rfl⟩, rfl⟩
  apply only_txn .ipFamily4D rfl (by decide)
  intro family
  split
  · exact ⟨⟨rfl, rfl, rfl, rfl⟩, rfl⟩
  · have hstart := only_issueStartNetwork { ctx with txid := ctx.txid + 2 }
    exact hstart.imp fun r hr => ⟨⟨hr.1.apn, hr.1.dryRun, hr.1.numMuxes, hr.1.fullUl⟩, hr.2⟩

end WdsStart

theorem only_callAll {D : Call → Prop} {cs : List Call} (h : ∀ c ∈ cs, D c) :
    Only D (fun _ => True) (callAll cs) := by
  induction cs with
  | nil => exact trivial
  | cons c cs ih =>
    apply only_ask_bind (h c List.mem_cons_self)
    exact fun _ => ih fun c' hc' => h c' (List.mem_cons_of_mem c hc')

/-- The calls of `post_tune`. -/
def tuning (ctx : ViCtx) : List Call :=
  createChild ++ setMtu ctx.bearerMtu ++ setFlags ctx.fullUl ++ tune ctx.fullUl

theorem calls_tuning (ctx : ViCtx) : ∀ c ∈ tuning ctx, StageName.postTune.Calls c := by
  have hcreate : ∀ c ∈ createChild, StageName.postTune.Calls c := by
    simp [createChild, StageName.Calls]
  have hmtu : ∀ c ∈ setMtu ctx.bearerMtu, StageName.postTune.Calls c := by
    unfold setMtu
    split
    · simp [StageName.Calls]
    · simp
  have hflags : ∀ c ∈ setFlags ctx.fullUl, StageName.postTune.Calls c := by
    simp [setFlags, StageName.Calls, StageName.files]
  have htune : ∀ c ∈ tune ctx.fullUl, StageName.postTune.Calls c := by
    simp [tune, StageName.Calls, StageName.files]
  intro c hc
  simp only [tuning, List.mem_append] at hc
  rcases hc with ((hc | hc) | hc) | hc
  · exact hcreate c hc
  · exact hmtu c hc
  · exact hflags c hc
  · exact htune c hc

/-- The context is left as it is. -/
theorem only_postTune (ctx : ViCtx) :
    Only StageName.postTune.Calls (fun r => r = (0, ctx)) (stagePostTune ctx) := by
  unfold stagePostTune
  split
  · exact rfl
  · exact only_bind (only_callAll (calls_tuning ctx)) fun _ _ => rfl

section Main

/-- The calls that `main` makes itself, but for the write of READY and the close at its
end. -/
def Call.ofMain : Call → Bool
  | .gStop | .pause => true
  | .writeFile .state value => value ≠ .result .ready
  | .writeFile file _ => file ∈ [.stage, .apn, .numMuxes, .dryRun]
  | _ => false

variable {σ α : Type} {M : Monitor Call Answer σ} {I : σ → Prop} {s : σ}

/-- One round of the stage loop, for an account that does not mind what `main` does. -/
theorem wp_runStages_cons {name : StageName} {fn : ViCtx → Vi (ℕ × ViCtx)}
    {rest : List (StageName × (ViCtx → Vi (ℕ × ViCtx)))} {ctx : ViCtx}
    {Q : ℕ × ViCtx → σ → Prop} (hmain : ∀ c : Call, c.ofMain = true → M.Silent I c) (hs : I s)
    (hstop : Q (130, ctx) s)
    (hfn : M.wp (fn ctx) (fun r s' => I s' ∧ (r.1 ≠ 0 → Q r s') ∧
      (r.1 = 0 → M.wp (runStages rest r.2) Q s')) s) :
    M.wp (runStages ((name, fn) :: rest) ctx) Q s := by
  apply (hmain .gStop rfl).wp_ask_bind hs
  intro stop
  split
  · apply (hmain (.writeFile .state (.result .interrupted)) rfl).wp_ask_bind hs
    exact fun _ => hstop
  apply (hmain (.writeFile .stage (.stage name)) rfl).wp_ask_bind hs
  intro _
  apply wp_bind.mpr
  apply wp_mono hfn
  rintro r s' ⟨hs', hfail, hrest⟩
  split
  · rename_i hrc
    apply (hmain (.writeFile .state (.result (.failed name))) rfl).wp_ask_bind hs'
    exact fun _ => hfail hrc
  · rename_i hrc
    exact hrest (not_not.mp hrc)

/-- A round that keeps `E`, whatever comes of the stage, and leads on to `J`. -/
theorem wp_runStages_keep {name : StageName} {fn : ViCtx → Vi (ℕ × ViCtx)}
    {rest : List (StageName × (ViCtx → Vi (ℕ × ViCtx)))} {ctx : ViCtx}
    {E J : ViCtx → σ → Prop} (hmain : ∀ c : Call, c.ofMain = true → M.Silent I c) (hs : I s)
    (hE : E ctx s) (hfn : M.wp (fn ctx) (fun r s' => I s' ∧ E r.2 s' ∧ (r.1 = 0 → J r.2 s')) s)
    (hrest : ∀ ctx' s', I s' → E ctx' s' → J ctx' s' →
      M.wp (runStages rest ctx') (fun r s'' => I s'' ∧ E r.2 s'') s') :
    M.wp (runStages ((name, fn) :: rest) ctx) (fun r s' => I s' ∧ E r.2 s') s := by
  apply wp_runStages_cons hmain hs ⟨hs, hE⟩
  apply wp_mono hfn
  rintro r s' ⟨hs', hE', hJ⟩
  exact ⟨hs', fun _ => ⟨hs', hE'⟩, fun hrc => hrest r.2 s' hs' hE' (hJ hrc)⟩

/-- The end of `main`. -/
def lastClose (ctx : ViCtx) (rc : ℕ) : Vi ℕ :=
  if 0 ≤ ctx.fd then do
    close ctx.fd
    return rc
  else return rc

/-- What follows the stage loop. -/
def finish (r : ℕ × ViCtx) : Vi ℕ :=
  if r.1 = 0 then do
    let _ ← stateSetResult .ready
    hold
    lastClose r.2 r.1
  else lastClose r.2 r.1

/-- The last close, for an account that does not mind it. -/
theorem wp_lastClose_of_silent {ctx : ViCtx} {rc : ℕ} {Q : ℕ → σ → Prop}
    (hclose : M.Silent I (.close ctx.fd)) (hs : I s) (h : Q rc s) :
    M.wp (lastClose ctx rc) Q s := by
  unfold lastClose
  split
  · exact hclose.wp_ask_bind hs fun _ => h
  · exact h

/-- The socket is held until a signal. -/
theorem wp_hold {f : Unit → Vi α} {Q : α → σ → Prop}
    (hmain : ∀ c : Call, c.ofMain = true → M.Silent I c) (hs : I s) (h : M.wp (f ()) Q s) :
    M.wp (hold >>= f) Q s := by
  apply wp_bind.mpr
  apply (hmain .gStop rfl).wp_ask_bind hs
  intro stop
  split
  · exact h
  · obtain ⟨hmay, hnext⟩ := hmain .pause rfl s hs
    refine ⟨hmay, fun r _ => ?_⟩
    rw [hnext r]
    exact h

/-- The end, for an account that does not mind READY either. -/
theorem wp_finish {r : ℕ × ViCtx} {Q : ℕ → σ → Prop}
    (hmain : ∀ c : Call, c.ofMain = true → M.Silent I c)
    (hready : M.Silent I (.writeFile .state (.result .ready))) (hs : I s)
    (h : M.wp (lastClose r.2 r.1) Q s) : M.wp (finish r) Q s := by
  unfold finish
  split
  · apply hready.wp_ask_bind hs
    exact fun _ => wp_hold hmain hs h
  · exact h

theorem wp_mainWith {ctx : ViCtx} {Q : ℕ → σ → Prop}
    (hmain : ∀ c : Call, c.ofMain = true → M.Silent I c) (hs : I s)
    (h : M.wp (runStages stages ctx) (fun r s' => M.wp (finish r) Q s') s) :
    M.wp (mainWith ctx) Q s := by
  apply (hmain (.writeFile .state (.result .starting)) rfl).wp_ask_bind hs
  intro _
  apply (hmain (.writeFile .apn (.arg ctx.apn)) rfl).wp_ask_bind hs
  intro _
  apply (hmain (.writeFile .numMuxes (.int ctx.numMuxes)) rfl).wp_ask_bind hs
  intro _
  apply (hmain (.writeFile .dryRun (.int (if ctx.dryRun then 1 else 0))) rfl).wp_ask_bind hs
  intro _
  apply wp_bind.mpr
  apply wp_mono h
  intro r s' hr
  exact hr

end Main

/-- What each option does to a part of the context, a command line does option by
option. -/
theorem parseOpts_fold {β : Type} {f : ViCtx → β} {g : β → Opt → β}
    (hopt : ∀ ctx opt ctx', parseOpts ctx [opt] = .ok ctx' → f ctx' = g (f ctx) opt)
    {ctx ctx' : ViCtx} {opts : List Opt} (h : parseOpts ctx opts = .ok ctx') :
    f ctx' = opts.foldl g (f ctx) := by
  induction opts generalizing ctx with
  | nil =>
    cases h
    rfl
  | cons opt opts ih =>
    -- one option leaves a context from which the others go on
    have hcons : ∃ next, parseOpts ctx [opt] = .ok next ∧ parseOpts next opts = .ok ctx' := by
      cases opt with
      | help => cases h
      | unknown => cases h
      | _ => exact ⟨_, rfl, h⟩
    obtain ⟨next, hnext, hrest⟩ := hcons
    rw [List.foldl_cons, ← hopt ctx opt next hnext]
    exact ih hrest

end VendorInit
end X00TDCellular
