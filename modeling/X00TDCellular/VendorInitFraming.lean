import X00TDCellular.VendorInitCalls

/-! The framing of `qmapmux0.0` over a sequence of bring-ups: what `post_tune` makes of its
flags, and what the modem has agreed to in its reply to `wda_set`. -/

namespace X00TDCellular
namespace VendorInit
open EnvProgram EnvProgram.Prog EnvProgram.Monitor

abbrev RmnetFlags := RmnetFlag → Bool

/-- `qmapmux0.0`, where it exists, after a call. A command changes the flags that it names
and no others, and does not create a device that exists. -/
def linkStep (dev : Option RmnetFlags) : Call → Option RmnetFlags
  | .system (.ipLinkAddRmnet on) => some (dev.getD fun flag => flag ∈ on)
  | .system (.ipLinkSetRmnet on) => dev.map fun flags flag => flags flag || flag ∈ on
  | _ => dev

def deviceAfter (dev : Option RmnetFlags) (tr : List (Event Call Answer)) : Option RmnetFlags :=
  tr.foldl (fun dev e => linkStep dev e.call) dev

def egressOn (dev : Option RmnetFlags) : Bool := dev.any fun flags => flags .egressMapv4Checksum

def replyStep (reply : Option (List UInt8)) : Event Call Answer → Option (List UInt8)
  | ⟨.qrtrTxn _ _ req _ _, resp⟩ => if req.msg = .wdaSetDataFormat then resp else reply
  | _ => reply

/-- The reply to SET_DATA_FORMAT. -/
def wdaReply (tr : List (Event Call Answer)) : Option (List UInt8) := tr.foldl replyStep none

def Call.isReady : Call → Bool
  | .writeFile .state value => value = .result .ready
  | _ => false

/-- A run of `vendor-init` that has reported READY, and may be ended or not. -/
structure BringUp where
  opts : List Opt
  trace : List (Event Call Answer)
  rest : Vi ℕ
  runs : Runs (main opts) trace rest
  ready : trace.any (fun e => e.call.isReady) = true

namespace BringUp

def reply (r : BringUp) : Option (List UInt8) := wdaReply r.trace

/-- It names the egress flag. -/
def AsksFullUl (r : BringUp) : Prop := Opt.fullUl ∈ r.opts ∧ Opt.dryRun ∉ r.opts

/-- The device after bring-ups, one after the other. -/
def devices (dev : Option RmnetFlags) (runs : List BringUp) : Option RmnetFlags :=
  runs.foldl (fun dev r => deviceAfter dev r.trace) dev

end BringUp

/-- The checksum flags are those of the protocols that the modem has echoed. -/
def Follows (reply : Option (List UInt8)) (dev : Option RmnetFlags) : Prop :=
  ∀ resp, reply = some resp → ∃ flags, dev = some flags ∧
    (flags .ingressMapv4Checksum = true ↔ u32Of resp 0x13 = some 7) ∧
    (flags .egressMapv4Checksum = true ↔ u32Of resp 0x12 = some 7)

structure Framing where
  dev : Option RmnetFlags
  reply : Option (List UInt8) := none
  ready : Bool := false

def Framing.next (s : Framing) (e : Event Call Answer) : Framing where
  dev := linkStep s.dev e.call
  reply := replyStep s.reply e
  ready := s.ready || e.call.isReady

/-- What a bring-up has made of the device `dev` when it reports READY. -/
structure Framing.Tuned (dev : Option RmnetFlags) (s : Framing) (full : Bool) : Prop where
  answered : s.reply.isSome = true
  tuned : ∃ flags, s.dev = some flags ∧ flags .ingressMapv4Checksum = true ∧
    flags .egressMapv4Checksum = (egressOn dev || full)

/-- A dry run leaves the device alone and the modem too. -/
def Framing.Done (dev : Option RmnetFlags) (dry full : Bool) (s : Framing) : Prop :=
  if dry then s.dev = dev ∧ s.reply = none else s.Tuned dev full

/-- READY is reported when all is done, and nothing is done to the framing after it. -/
def framing (dev : Option RmnetFlags) (dry full : Bool) : Monitor Call Answer Framing where
  next := Framing.next
  may s c := match c with
    | .writeFile .state value => value = .result .ready → s.Done dev dry full
    | .system _ => s.ready = false
    | .qrtrTxn _ _ req _ _ => req.msg = .wdaSetDataFormat → s.ready = false
    | _ => True
  allows _ _ := True

section Stages

variable {dev : Option RmnetFlags} {dry full : Bool} {s : Framing} {ctx : ViCtx} {α : Type}

/-- The calls that have nothing to do with the framing. -/
def Call.unframed : Call → Bool
  | .qrtrTxn _ _ req _ _ => req.msg ≠ .wdaSetDataFormat
  | .writeFile .state value => value ≠ .result .ready
  | .system _ => false
  | _ => true

theorem Framing.next_unframed {c : Call} (hc : c.unframed = true) (r : Answer c) :
    s.next ⟨c, r⟩ = s := by
  obtain ⟨dev, reply, ready⟩ := s
  cases c with
  | qrtrTxn fd port req respSz timeoutMs =>
    have hmsg : req.msg ≠ .wdaSetDataFormat := of_decide_eq_true hc
    have hreply : replyStep reply ⟨.qrtrTxn fd port req respSz timeoutMs, r⟩ = reply :=
      if_neg hmsg
    simp only [next, linkStep, hreply, Call.isReady, Bool.or_false]
  | writeFile file value =>
    have hready : (Call.writeFile file value).isReady = false := by
      cases file with
      | state => exact decide_eq_false (of_decide_eq_true hc)
      | _ => rfl
    simp only [next, linkStep, replyStep, hready, Bool.or_false]
  | system cmd => cases hc
  | _ => simp only [next, linkStep, replyStep, Call.isReady, Bool.or_false]

theorem Call.silent_of_unframed {c : Call} (hc : c.unframed = true) :
    (framing dev dry full).Silent (fun _ => True) c := by
  intro s _
  refine ⟨?_, Framing.next_unframed hc⟩
  cases c with
  | qrtrTxn fd port req respSz timeoutMs =>
    intro hmsg
    exact absurd hmsg (of_decide_eq_true hc)
  | writeFile file value =>
    cases file with
    | state =>
      intro hvalue
      exact absurd hvalue (of_decide_eq_true hc)
    | _ => exact trivial
  | system cmd => cases hc
  | _ => exact trivial

theorem Call.unframed_of_ofMain {c : Call} (hc : c.ofMain = true) : c.unframed = true := by
  cases c with
  | writeFile file value =>
    cases file with
    | state => exact hc
    | _ => rfl
  | gStop => rfl
  | pause => rfl
  | _ => cases hc

theorem unframed_of_calls {name : StageName} (hname : name ≠ .wdaSet ∧ name ≠ .postTune)
    {c : Call} (hc : name.Calls c) : c.unframed = true := by
  cases c with
  | qrtrTxn fd port req respSz timeoutMs =>
    apply decide_eq_true
    intro hmsg
    have hmem : req.msg ∈ name.messages := hc
    rw [hmsg] at hmem
    cases name with
    | wdaSet => exact hname.1 rfl
    | _ => exact absurd hmem (by decide)
  | writeFile file value =>
    cases file with
    | state =>
      have hmem : StateFile.state ∈ name.files := hc
      cases name with
      | _ => exact absurd hmem (by decide)
    | _ => rfl
  | system cmd => exact absurd hc hname.2
  | _ => rfl

/-- The stages but for `wda_set` and `post_tune`. -/
theorem framing_otherStage {name : StageName} {p : Vi α} {R : α → Prop}
    (h : Only name.Calls R p) (hname : name ≠ .wdaSet ∧ name ≠ .postTune) :
    (framing dev dry full).wp p (fun r s' => R r ∧ s' = s) s := by
  have honly : Only ((framing dev dry full).Silent fun _ => True) R p :=
    h.mono fun c hc => Call.silent_of_unframed (unframed_of_calls hname hc)
  exact honly.wp trivial fun r hr => ⟨hr, rfl⟩

/-- Up to the tuning the device is as it was, and the modem has answered. -/
structure Framing.Heard (dev : Option RmnetFlags) (dry : Bool) (s : Framing) : Prop where
  dev : s.dev = dev
  ready : s.ready = false
  reply : if dry then s.reply = none else s.reply.isSome = true

theorem framing_wdaSet (hdev : s.dev = dev) (hready : s.ready = false) (hreply : s.reply = none)
    (hdry : ctx.dryRun = dry) :
    (framing dev dry full).wp (stageWdaSet ctx)
      (fun r s' => r.1 = 0 → s'.Heard dev dry) s := by
  have hsilent {c : Call} (hc : c.unframed = true) :
      (framing dev dry full).Silent (fun _ => True) c := Call.silent_of_unframed hc
  have hfail (ctx' : ViCtx) (rc : ℕ) (hrc : rc ≠ 0) (s' : Framing) :
      ((rc, ctx') : ℕ × ViCtx).1 = 0 → s'.Heard dev dry := fun h => absurd h hrc
  unfold stageWdaSet
  split
  · rename_i htrue
    intro _
    refine ⟨hdev, hready, ?_⟩
    rw [← hdry, htrue]
    exact hreply
  rename_i hwet
  apply (hsilent (c := .qrtrOpen) rfl).wp_ask_bind trivial
  intro fd
  split
  · exact hfail ctx 1 one_ne_zero s
  apply (hsilent (c := .qrtrLookup fd .wda) rfl).wp_ask_bind trivial
  intro port
  dsimp only
  split
  · apply (hsilent (c := .close fd) rfl).wp_ask_bind trivial
    exact fun _ => hfail _ 1 one_ne_zero s
  apply (hsilent (c := .writeFile _ _) rfl).wp_ask_bind trivial
  intro _
  -- the one call that the account has an eye on
  apply wp_ask_bind (fun _ => hready)
  intro resp _
  cases resp with
  | none =>
    apply (hsilent (c := .close fd) rfl).wp_ask_bind trivial
    exact fun _ => hfail _ 2 two_ne_zero _
  | some resp =>
    apply (hsilent (c := .close fd) rfl).wp_ask_bind trivial
    intro _
    split
    · exact hfail _ 3 three_ne_zero _
    apply (hsilent (c := .writeFile _ _) rfl).wp_ask_bind trivial
    intro _
    apply (hsilent (c := .writeFile _ _) rfl).wp_ask_bind trivial
    intro _
    apply (hsilent (c := .writeFile _ _) rfl).wp_ask_bind trivial
    intro _
    apply (hsilent (c := .writeFile _ _) rfl).wp_ask_bind trivial
    intro _ _
    refine ⟨hdev, ?_, ?_⟩
    · exact (Bool.or_false _).trans hready
    · rw [← hdry, if_neg hwet]
      rfl

/-- The calls of the tuning: they only change the device. -/
def Call.tunes : Call → Bool
  | .system _ | .tryWrite _ _ => true
  | .writeFile file _ => file ≠ .state
  | _ => false

theorem framing_callAll {cs : List Call} (hcs : cs.all Call.tunes = true)
    (hready : s.ready = false) :
    (framing dev dry full).wp (callAll cs)
      (fun _ s' => s' = { s with dev := cs.foldl linkStep s.dev }) s := by
  induction cs generalizing s with
  | nil => exact rfl
  | cons c cs ih =>
    obtain ⟨hc, hrest⟩ := Bool.and_eq_true_iff.mp hcs
    have hnext (r : Answer c) : s.next ⟨c, r⟩ = { s with dev := linkStep s.dev c } := by
      cases c with
      | system cmd => simp only [Framing.next, replyStep, Call.isReady, Bool.or_false]
      | tryWrite path value =>
        simp only [Framing.next, replyStep, linkStep, Call.isReady, Bool.or_false]
      | writeFile file value =>
        cases file with
        | state => cases hc
        | _ => simp only [Framing.next, replyStep, linkStep, Call.isReady, Bool.or_false]
      | _ => cases hc
    apply wp_ask_bind
    · cases c with
      | system cmd => exact hready
      | writeFile file value =>
        cases file with
        | state => cases hc
        | _ => exact trivial
      | tryWrite path value => exact trivial
      | _ => cases hc
    · intro r _
      show (framing dev dry full).wp (callAll cs) _ (s.next ⟨c, r⟩)
      rw [hnext r]
      exact @ih { s with dev := linkStep s.dev c } hrest hready

theorem tuning_tunes (ctx : ViCtx) : (tuning ctx).all Call.tunes = true := by
  have hmtu : (setMtu ctx.bearerMtu).all Call.tunes = true := by
    unfold setMtu
    split
    · rfl
    · rfl
  have hrest : ∀ full, (setFlags full ++ tune full).all Call.tunes = true := by decide
  unfold tuning
  rw [List.append_assoc _ (setFlags ctx.fullUl), List.all_append, List.all_append, hmtu,
    hrest ctx.fullUl]
  rfl

/-- All that the commands of `post_tune` do to the flags. -/
theorem linkStep_tuning (ctx : ViCtx) (dev : Option RmnetFlags) :
    (tuning ctx).foldl linkStep dev = some fun flag =>
      (dev.getD fun flag => flag ∈ [.ingressDeaggregation, .ingressMapv4Checksum]) flag ||
        flag ∈ rmnetFlags ctx.fullUl := by
  have hcreate : createChild.foldl linkStep dev =
      some (dev.getD fun flag => flag ∈ [.ingressDeaggregation, .ingressMapv4Checksum]) := rfl
  have hmtu (dev : Option RmnetFlags) : (setMtu ctx.bearerMtu).foldl linkStep dev = dev := by
    unfold setMtu
    split
    · rfl
    · rfl
  have htune (dev : Option RmnetFlags) : (tune ctx.fullUl).foldl linkStep dev = dev := rfl
  unfold tuning
  rw [List.foldl_append, List.foldl_append, List.foldl_append, hcreate, hmtu, htune]
  rfl

theorem framing_postTune (hs : s.Heard dev dry) (hdry : ctx.dryRun = dry)
    (hfull : ctx.fullUl = full) :
    (framing dev dry full).wp (stagePostTune ctx) (fun _ s' => s'.Done dev dry full) s := by
  have hreply := hs.reply
  unfold stagePostTune Framing.Done
  split
  · rename_i htrue
    rw [← hdry, htrue] at hreply ⊢
    exact ⟨hs.dev, hreply⟩
  · rename_i hwet
    rw [← hdry, if_neg hwet] at hreply
    apply wp_bind.mpr
    apply wp_mono (framing_callAll (tuning_tunes ctx) hs.ready)
    rintro _ s' rfl
    have hgoal : Framing.Tuned dev { s with dev := (tuning ctx).foldl linkStep s.dev } full := by
      refine ⟨hreply, _, linkStep_tuning ctx s.dev, ?_, ?_⟩
      · have hnamed : RmnetFlag.ingressMapv4Checksum ∈ rmnetFlags ctx.fullUl := by
          cases ctx.fullUl <;> decide
        rw [decide_eq_true hnamed, Bool.or_true]
      · have hnamed : decide (RmnetFlag.egressMapv4Checksum ∈ rmnetFlags ctx.fullUl) = full := by
          rw [← hfull]
          cases ctx.fullUl <;> rfl
        rw [hnamed, hs.dev]
        cases dev with
        | none => rfl
        | some flags => rfl
    rw [← hdry]
    exact (if_neg hwet).mpr hgoal

end Stages

section Main

variable {dev : Option RmnetFlags} {dry full : Bool} {s : Framing} {ctx : ViCtx}

/-- The options that matter here. -/
def Framed (dry full : Bool) (ctx : ViCtx) : Prop := ctx.dryRun = dry ∧ ctx.fullUl = full

theorem Framed.keep {ctx' : ViCtx} (h : Framed dry full ctx) (hkeeps : KeepsOpts ctx ctx') :
    Framed dry full ctx' :=
  ⟨hkeeps.dryRun.trans h.1, hkeeps.fullUl.trans h.2⟩

theorem framing_ofMain (c : Call) (hc : c.ofMain = true) :
    (framing dev dry full).Silent (fun _ => True) c :=
  Call.silent_of_unframed (Call.unframed_of_ofMain hc)

/-- A round of the loop, where the stage is neither of the two that matter. -/
theorem framing_cons {name : StageName} {fn : ViCtx → Vi (ℕ × ViCtx)}
    {rest : List (StageName × (ViCtx → Vi (ℕ × ViCtx)))} {R : ViCtx → ℕ × ViCtx → Prop}
    (hfn : ∀ ctx, Only name.Calls (R ctx) (fn ctx)) (hR : ∀ ctx r, R ctx r → KeepsOpts ctx r.2)
    (hname : name ≠ .wdaSet ∧ name ≠ .postTune)
    (hrest : ∀ ctx', Framed dry full ctx' → (framing dev dry full).wp (runStages rest ctx')
      (fun r s' => r.1 = 0 → s'.Done dev dry full) s)
    (hctx : Framed dry full ctx) :
    (framing dev dry full).wp (runStages ((name, fn) :: rest) ctx)
      (fun r s' => r.1 = 0 → s'.Done dev dry full) s := by
  apply wp_runStages_cons framing_ofMain trivial
  · intro hrc
    cases hrc
  apply wp_mono (framing_otherStage (hfn ctx) hname)
  rintro r s' ⟨hr, rfl⟩
  refine ⟨trivial, fun hrc h => absurd h hrc, fun _ => ?_⟩
  exact hrest r.2 (hctx.keep (hR ctx r hr))

/-- `post_tune` is the last stage. -/
theorem framing_lastStage (hs : s.Heard dev dry) (hctx : Framed dry full ctx) :
    (framing dev dry full).wp (runStages [(.postTune, stagePostTune)] ctx)
      (fun r s' => r.1 = 0 → s'.Done dev dry full) s := by
  apply wp_runStages_cons framing_ofMain trivial
  · intro hrc
    cases hrc
  apply wp_mono (framing_postTune hs hctx.1 hctx.2)
  intro r s' hdone
  exact ⟨trivial, fun _ _ => hdone, fun _ _ => hdone⟩

theorem framing_stages (hctx : Framed dry full ctx) :
    (framing dev dry full).wp (runStages stages ctx)
      (fun r s' => r.1 = 0 → s'.Done dev dry full) { dev := dev } := by
  apply framing_cons only_dmsOnline (fun _ _ h => h.1) (by decide) _ hctx
  intro ctx₁ hctx
  apply framing_cons only_nasRat (fun _ _ h => h.1) (by decide) _ hctx
  intro ctx₂ hctx
  apply framing_cons only_dpmOpen (fun _ _ h => h.1) (by decide) _ hctx
  intro ctx₃ hctx
  apply wp_runStages_cons framing_ofMain trivial
  · intro hrc
    cases hrc
  have hwda : (framing dev dry full).wp (stageWdaSet ctx₃) (fun r s' => r.1 = 0 →
      s'.Heard dev dry) { dev := dev } := framing_wdaSet rfl rfl rfl hctx.1
  apply wp_mono ((only_wdaSet ctx₃).and_wp hwda)
  rintro r s ⟨hr, hheard⟩
  refine ⟨trivial, fun hrc h => absurd h hrc, fun hrc => ?_⟩
  have hctx₄ := hctx.keep hr.1
  have hs := hheard hrc
  -- from here on the modem has answered
  apply framing_cons only_dsd (fun _ _ h => h.1) (by decide) _ hctx₄
  intro ctx₅ hctx
  apply framing_cons only_bindMux (fun _ _ h => h.1) (by decide) _ hctx
  intro ctx₆ hctx
  apply framing_cons only_wdsStart (fun _ _ h => h.1) (by decide) _ hctx
  exact fun ctx₇ hctx => framing_lastStage hs hctx

theorem framing_mainWith (hctx : Framed dry full ctx) :
    (framing dev dry full).wp (mainWith ctx) (fun _ _ => True) { dev := dev } := by
  have hclose (ctx : ViCtx) (rc : ℕ) (s : Framing) :
      (framing dev dry full).wp (lastClose ctx rc) (fun _ _ => True) s := by
    have hunframed : (Call.close ctx.fd).unframed = true := rfl
    exact wp_lastClose_of_silent (Call.silent_of_unframed hunframed) trivial trivial
  apply wp_mainWith framing_ofMain trivial
  apply wp_mono (framing_stages hctx)
  intro r s' hdone
  unfold finish
  split
  · rename_i hrc
    apply wp_ask_bind (fun _ => hdone hrc)
    intro _ _
    exact wp_hold framing_ofMain trivial (hclose r.2 r.1 _)
  · exact hclose r.2 r.1 s'

theorem parseOpts_flags {ctx ctx' : ViCtx} {opts : List Opt} (h : parseOpts ctx opts = .ok ctx') :
    ctx'.dryRun = (ctx.dryRun || decide (Opt.dryRun ∈ opts)) ∧
      ctx'.fullUl = (ctx.fullUl || decide (Opt.fullUl ∈ opts)) := by
  induction opts generalizing ctx with
  | nil =>
    cases h
    exact ⟨(Bool.or_false _).symm, (Bool.or_false _).symm⟩
  | cons opt opts ih =>
    cases opt with
    | help => cases h
    | unknown => cases h
    | apn name => simpa using @ih { ctx with apn := name } h
    | numMuxes n => simpa using @ih { ctx with numMuxes := n } h
    | skipMm => simpa using @ih { ctx with skipMm := true } h
    | dryRun => simpa using @ih { ctx with dryRun := true } h
    | logFile path => simpa using ih h
    | simpleWds => simpa using @ih { ctx with simpleWds := true } h
    | fullWds => simpa using @ih { ctx with simpleWds := false } h
    | fullUl => simpa using @ih { ctx with fullUl := true } h
    | verbose => simpa using ih h

theorem framing_main (dev : Option RmnetFlags) (opts : List Opt) :
    (framing dev (decide (Opt.dryRun ∈ opts)) (decide (Opt.fullUl ∈ opts))).wp (main opts)
      (fun _ _ => True) { dev := dev } := by
  unfold main
  cases hparse : parseOpts { apn := defaultApn } opts with
  | error rc => exact trivial
  | ok ctx =>
    obtain ⟨hdry, hfull⟩ := parseOpts_flags hparse
    exact framing_mainWith ⟨hdry.trans (Bool.false_or _), hfull.trans (Bool.false_or _)⟩

end Main

section Traces

variable {dev : Option RmnetFlags} {dry full : Bool}

theorem Framing.Done.congr {s s' : Framing} (h : s.Done dev dry full) (hdev : s'.dev = s.dev)
    (hreply : s'.reply = s.reply) : s'.Done dev dry full := by
  unfold Done at h ⊢
  cases dry with
  | true => exact ⟨hdev.trans h.1, hreply.trans h.2⟩
  | false =>
    obtain ⟨hanswered, htuned⟩ := h
    rw [← hreply] at hanswered
    rw [← hdev] at htuned
    exact ⟨hanswered, htuned⟩

theorem Framing.next_of_ready {s : Framing} {e : Event Call Answer} (hready : s.ready = true)
    (hmay : (framing dev dry full).may s e.call) :
    (s.next e).dev = s.dev ∧ (s.next e).reply = s.reply := by
  have hnot (h : s.ready = false) : False := absurd (h.symm.trans hready) Bool.false_ne_true
  obtain ⟨c, r⟩ := e
  cases c with
  | system cmd => exact (hnot hmay).elim
  | qrtrTxn fd port req respSz timeoutMs =>
    refine ⟨rfl, if_neg ?_⟩
    exact fun hmsg => hnot (hmay hmsg)
  | _ => exact ⟨rfl, rfl⟩

theorem Framing.done_of_isReady {s : Framing} {e : Event Call Answer}
    (hready : e.call.isReady = true) (hmay : (framing dev dry full).may s e.call) :
    (s.next e).Done dev dry full := by
  obtain ⟨c, r⟩ := e
  cases c with
  | writeFile file value =>
    cases file with
    | state =>
      have hdone : s.Done dev dry full := hmay (of_decide_eq_true hready)
      exact hdone.congr rfl rfl
    | _ => cases hready
  | _ => cases hready

/-- Once READY is reported all is done, and it stays done. -/
theorem done_of_ready {tr : List (Event Call Answer)}
    (h : (framing dev dry full).Obeyed { dev := dev } tr) :
    ((framing dev dry full).after { dev := dev } tr).ready = true →
      ((framing dev dry full).after { dev := dev } tr).Done dev dry full := by
  apply Obeyed.induction (P := fun tr => ((framing dev dry full).after { dev := dev } tr).ready =
    true → ((framing dev dry full).after { dev := dev } tr).Done dev dry full) _ _ h
  · intro hready
    cases hready
  · intro tr e _ hmay ih hready
    rw [(framing dev dry full).after_concat] at hready ⊢
    rcases Bool.or_eq_true_iff.mp hready with hbefore | hnow
    · obtain ⟨hdev, hreply⟩ := Framing.next_of_ready hbefore hmay
      exact (ih hbefore).congr hdev hreply
    · exact Framing.done_of_isReady hnow hmay

theorem framing_after (s : Framing) (tr : List (Event Call Answer)) :
    (framing dev dry full).after s tr =
      { dev := deviceAfter s.dev tr
        reply := tr.foldl replyStep s.reply
        ready := s.ready || tr.any fun e => e.call.isReady } := by
  induction tr generalizing s with
  | nil =>
    rw [List.any_nil, Bool.or_false]
    rfl
  | cons e tr ih =>
    rw [List.any_cons, ← Bool.or_assoc]
    exact ih (s.next e)

end Traces

namespace BringUp

variable {r : BringUp}

theorem done (dev : Option RmnetFlags) (r : BringUp) :
    Framing.Done dev (decide (Opt.dryRun ∈ r.opts)) (decide (Opt.fullUl ∈ r.opts))
      { dev := deviceAfter dev r.trace, reply := r.reply, ready := true } := by
  have hallowed : (framing dev (decide (Opt.dryRun ∈ r.opts))
      (decide (Opt.fullUl ∈ r.opts))).Allowed { dev := dev } r.trace :=
    allowed_iff.mpr fun _ _ _ _ => trivial
  have hobeyed := (wp_runs r.runs (framing_main dev r.opts) hallowed).1
  have hdone := done_of_ready hobeyed
  rw [framing_after] at hdone
  have hready : (false || r.trace.any fun e => e.call.isReady) = true :=
    (Bool.false_or _).trans r.ready
  exact (hdone hready).congr rfl rfl

/-- A dry run changes nothing, and is not answered. -/
theorem of_dryRun (dev : Option RmnetFlags) (h : Opt.dryRun ∈ r.opts) :
    deviceAfter dev r.trace = dev ∧ r.reply = none := by
  have hdone := r.done dev
  rw [decide_eq_true h] at hdone
  exact hdone

theorem tuned (dev : Option RmnetFlags) (h : Opt.dryRun ∉ r.opts) :
    r.reply.isSome = true ∧ ∃ flags, deviceAfter dev r.trace = some flags ∧
      flags .ingressMapv4Checksum = true ∧
      flags .egressMapv4Checksum = (egressOn dev || decide (Opt.fullUl ∈ r.opts)) := by
  have hdone := r.done dev
  rw [decide_eq_false h] at hdone
  obtain ⟨hanswered, htuned⟩ : Framing.Tuned dev _ _ := hdone
  exact ⟨hanswered, htuned⟩

theorem egressOn_deviceAfter (dev : Option RmnetFlags) (r : BringUp) :
    egressOn (deviceAfter dev r.trace) = true ↔ egressOn dev = true ∨ r.AsksFullUl := by
  unfold AsksFullUl
  by_cases hdry : Opt.dryRun ∈ r.opts
  · rw [(of_dryRun dev hdry).1]
    simp [hdry]
  · obtain ⟨_, flags, hflags, _, hegress⟩ := tuned dev hdry
    rw [hflags]
    show flags .egressMapv4Checksum = true ↔ _
    rw [hegress]
    simp [hdry]

/-- The egress flag is never taken back. -/
theorem egressOn_devices (dev : Option RmnetFlags) (runs : List BringUp) :
    egressOn (devices dev runs) = true ↔ egressOn dev = true ∨ ∃ r ∈ runs, r.AsksFullUl := by
  induction runs generalizing dev with
  | nil => simp [devices]
  | cons r runs ih =>
    have hcons : devices dev (r :: runs) = devices (deviceAfter dev r.trace) runs := rfl
    rw [hcons, ih, egressOn_deviceAfter, or_assoc]
    simp

theorem devices_concat (dev : Option RmnetFlags) (runs : List BringUp) (r : BringUp) :
    devices dev (runs ++ [r]) = deviceAfter (devices dev runs) r.trace :=
  List.foldl_append

end BringUp

/-- The modem takes QMAPv3 down, and up exactly when this bring-up or one before it has
asked for it, or the device had the egress flag to begin with. -/
def Agreed (dev : Option RmnetFlags) (earlier : List BringUp) (r : BringUp) : Prop :=
  ∀ resp, r.reply = some resp → u32Of resp 0x13 = some 7 ∧
    (u32Of resp 0x12 = some 7 ↔
      egressOn dev = true ∨ ∃ r' ∈ earlier ++ [r], r'.AsksFullUl)

theorem follows_last_iff (dev : Option RmnetFlags) (earlier : List BringUp) (r : BringUp) :
    Follows r.reply (BringUp.devices dev (earlier ++ [r])) ↔ Agreed dev earlier r := by
  unfold Follows Agreed
  by_cases hdry : Opt.dryRun ∈ r.opts
  · have hnone := (BringUp.of_dryRun dev hdry).2
    rw [hnone]
    constructor
    · intro _ resp h
      cases h
    · intro _ resp h
      cases h
  have hegress := BringUp.egressOn_devices dev (earlier ++ [r])
  obtain ⟨_, flags, hflags, hingress, _⟩ :=
    BringUp.tuned (BringUp.devices dev earlier) hdry
  rw [BringUp.devices_concat, hflags] at hegress ⊢
  have hegress' : flags .egressMapv4Checksum = true ↔
      egressOn dev = true ∨ ∃ r' ∈ earlier ++ [r], r'.AsksFullUl := hegress
  constructor
  · intro h resp hresp
    obtain ⟨_, hsome, hdl, hul⟩ := h resp hresp
    cases hsome
    exact ⟨hdl.mp hingress, hul.symm.trans hegress'⟩
  · intro h resp hresp
    obtain ⟨hdl, hul⟩ := h resp hresp
    exact ⟨flags, rfl, iff_of_true hingress hdl, hegress'.trans hul.symm⟩

/-- In a sequence of bring-ups the framing of the device follows what the modem has
accepted, after each of them, exactly when the modem has agreed to what is asked for. -/
theorem framing_follows_iff (dev : Option RmnetFlags) (runs : List BringUp) :
    (∀ pre r post, runs = pre ++ r :: post →
        Follows r.reply (BringUp.devices dev (pre ++ [r]))) ↔
      ∀ pre r post, runs = pre ++ r :: post → Agreed dev pre r := by
  constructor
  · intro h pre r post hruns
    exact (follows_last_iff dev pre r).mp (h pre r post hruns)
  · intro h pre r post hruns
    exact (follows_last_iff dev pre r).mpr (h pre r post hruns)

/-- A modem that takes every request and echoes these protocols for the two directions. -/
def echoingModem (ul dl : UInt8) : (c : Call) → Answer c
  | .qrtrOpen => (3 : ℤ)
  | .qrtrLookup _ _ => (1 : UInt32)
  | .qrtrTxn _ _ req _ _ =>
    if req.msg = .wdaSetDataFormat then
      some [2, 1, 0, 0x20, 0, 21, 0, 0x02, 4, 0, 0, 0, 0, 0,
        0x12, 4, 0, ul, 0, 0, 0, 0x13, 4, 0, dl, 0, 0, 0]
    else some [2, 1, 0, 0, 0, 7, 0, 0x02, 4, 0, 0, 0, 0, 0]
  | .close _ => ()
  | .writeFile _ _ => true
  | .system _ => (0 : ℤ)
  | .tryWrite _ _ => true
  | .lteRounds => (0 : ℕ)
  | .gStop => false
  | .pause => ()

/-- The modem goes down to QMAPv1 in both directions. -/
def downgraded : BringUp where
  opts := []
  trace := (main []).events (echoingModem 5 5)
  rest := .ret ((main []).outcome (echoingModem 5 5))
  runs := ends_events _ _
  ready := by decide +kernel

theorem not_follows_downgraded :
    ¬ Follows downgraded.reply (BringUp.devices none [downgraded]) := by
  intro h
  have hreply : downgraded.reply = some [2, 1, 0, 0x20, 0, 21, 0, 0x02, 4, 0, 0, 0, 0, 0,
      0x12, 4, 0, 5, 0, 0, 0, 0x13, 4, 0, 5, 0, 0, 0] := by decide +kernel
  have hingress : (BringUp.devices none [downgraded]).map
      (fun flags => flags .ingressMapv4Checksum) = some true := by decide +kernel
  obtain ⟨flags, hflags, hdl, _⟩ := h _ hreply
  rw [hflags] at hingress
  have hecho := hdl.mp (Option.some.inj hingress)
  exact absurd hecho (by decide +kernel)

end VendorInit
end X00TDCellular
