import X00TDCellular.Transition
import X00TDCellular.VendorInitCalls

/-! The bearer parameters that are published under `/run/vendor-init`, over a sequence of
runs that share the directory. -/

namespace X00TDCellular
namespace VendorInit
open EnvProgram EnvProgram.Prog EnvProgram.Monitor

def bearerFiles : List StateFile := [.bearerIpv4, .bearerGw, .bearerPrefix, .bearerMtu]

/-- What a reply to GET_CURRENT_SETTINGS says for a file, if it says anything. -/
def decoded (file : StateFile) (resp : List UInt8) : Option StateValue :=
  match file with
  | .bearerIpv4 => (u32Of resp 0x1E).map .dotted
  | .bearerGw => (u32Of resp 0x20).map .dotted
  | .bearerPrefix => (u32Of resp 0x21).map fun mask => .int (prefixLength mask)
  | .bearerMtu => (u32Of resp 0x29).map fun mtu => .int mtu.toNat
  | _ => none

def settingsStep (reply : Option (List UInt8)) : Event Call Answer → Option (List UInt8)
  | ⟨.qrtrTxn _ _ req _ _, resp⟩ => if req.msg = .getSettings then resp else reply
  | _ => reply

/-- The settings are asked for once, and what is written is from the reply. -/
def permits (reply : Option (List UInt8)) : Call → Bool
  | .writeFile file value => file ∈ bearerFiles → reply.bind (decoded file) = some value
  | .qrtrTxn _ _ req _ _ => req.msg = .getSettings → reply = none
  | _ => true

def settings : Monitor Call Answer (Option (List UInt8)) where
  next := settingsStep
  may reply c := permits reply c = true
  allows _ _ := True

section Stages

variable {reply : Option (List UInt8)} {ctx : ViCtx} {α : Type}

/-- The calls that have nothing to do with the settings. -/
def Call.unsettled : Call → Bool
  | .writeFile file _ => file ∉ bearerFiles
  | .qrtrTxn _ _ req _ _ => req.msg ≠ .getSettings
  | _ => true

theorem Call.silent_of_unsettled {c : Call} (hc : c.unsettled = true) :
    settings.Silent (fun _ => True) c := by
  intro reply _
  cases c with
  | writeFile file value =>
    have hfile : file ∉ bearerFiles := of_decide_eq_true hc
    exact ⟨decide_eq_true fun h => absurd h hfile, fun _ => rfl⟩
  | qrtrTxn fd port req respSz timeoutMs =>
    have hmsg : req.msg ≠ .getSettings := of_decide_eq_true hc
    exact ⟨decide_eq_true fun h => absurd h hmsg, fun _ => if_neg hmsg⟩
  | _ => exact ⟨rfl, fun _ => rfl⟩

theorem settings_ofMain (c : Call) (hc : c.ofMain = true) :
    settings.Silent (fun _ => True) c := by
  apply Call.silent_of_unsettled
  cases c with
  | writeFile file value =>
    cases file with
    | state => rfl
    | stage => rfl
    | apn => rfl
    | numMuxes => rfl
    | dryRun => rfl
    | _ => cases hc
  | gStop => rfl
  | pause => rfl
  | _ => cases hc

theorem unsettled_of_calls {name : StageName} (hname : name ≠ .wdsStart) {c : Call}
    (hc : name.Calls c) : c.unsettled = true := by
  cases c with
  | writeFile file value =>
    apply decide_eq_true
    intro hbearer
    have hfiles : file ∈ name.files := hc
    simp only [bearerFiles, List.mem_cons, List.not_mem_nil, or_false] at hbearer
    rcases hbearer with rfl | rfl | rfl | rfl <;> cases name <;>
      first | exact hname rfl | exact absurd hfiles (by decide)
  | qrtrTxn fd port req respSz timeoutMs =>
    apply decide_eq_true
    intro hmsg
    have hmem : req.msg ∈ name.messages := hc
    rw [hmsg] at hmem
    cases name with
    | wdsStart => exact hname rfl
    | _ => exact absurd hmem (by decide)
  | _ => rfl

/-- The stages but for `wds_start`. -/
theorem settings_otherStage {name : StageName} {p : Vi α} {R : α → Prop}
    (h : Only name.Calls R p) (hname : name ≠ .wdsStart) :
    settings.wp p (fun _ reply' => reply' = reply) reply := by
  have honly : Only (settings.Silent fun _ => True) R p :=
    h.mono fun c hc => Call.silent_of_unsettled (unsettled_of_calls hname hc)
  exact honly.wp trivial fun _ _ => rfl

/-- A value is recorded under the file that it is decoded for. -/
theorem settings_recordU32 {resp : List UInt8} {type : UInt8} {key : StateFile}
    {value : UInt32 → StateValue} {f : Unit → Vi α} {Q : α → Option (List UInt8) → Prop}
    (hkey : key ∈ bearerFiles → decoded key resp = (u32Of resp type).map value)
    (h : settings.wp (f ()) Q (some resp)) :
    settings.wp (recordU32 resp type key value >>= f) Q (some resp) := by
  apply wp_bind.mpr
  unfold recordU32
  cases hu32 : u32Of resp type with
  | none => exact h
  | some v =>
    have hpermits : permits (some resp) (.writeFile key (value v)) = true := by
      apply decide_eq_true
      intro hbearer
      rw [Option.bind_some, hkey hbearer, hu32]
      rfl
    exact wp_ask_bind hpermits fun _ _ => h

theorem settings_issueGetSettings (ctx : ViCtx) :
    settings.wp (issueGetSettings ctx) (fun _ _ => True) none := by
  have hunasked : (getCurrentSettings ctx.txid).msg = .getSettings →
      (none : Option (List UInt8)) = none := fun _ => rfl
  have hpermits : permits none (.qrtrTxn ctx.fd ctx.wdsPort (getCurrentSettings ctx.txid)
      1024 2000) = true := decide_eq_true hunasked
  apply wp_ask_bind hpermits
  intro resp _
  cases resp with
  | none => exact trivial
  | some resp =>
    have hkept : settings.next none ⟨.qrtrTxn ctx.fd ctx.wdsPort (getCurrentSettings ctx.txid)
        1024 2000, some resp⟩ = some resp := rfl
    rw [hkept]
    apply settings_recordU32 (fun _ => rfl)
    apply settings_recordU32 (fun _ => rfl)
    apply settings_recordU32 (fun _ => rfl)
    apply settings_recordU32 (fun _ => rfl)
    exact trivial

theorem settings_issueStartNetwork (ctx : ViCtx) :
    settings.wp (issueStartNetwork ctx) (fun _ _ => True) none := by
  have hsilent {c : Call} (hc : c.unsettled = true) : settings.Silent (fun _ => True) c :=
    Call.silent_of_unsettled hc
  apply (hsilent (c := .qrtrTxn ctx.fd ctx.wdsPort (startNetwork ctx) 512 10000) rfl).wp_ask_bind
    trivial
  intro resp
  cases resp with
  | none => exact trivial
  | some resp =>
    dsimp only
    split
    · apply (hsilent (c := .writeFile _ _) rfl).wp_ask_bind trivial
      exact fun _ => trivial
    · apply wp_bind.mpr
      have hpdh : Only (settings.Silent fun _ => True) (fun _ => True)
          (recordU32 resp 0x01 .bearerPdh .hex) := by
        unfold recordU32
        split
        · exact only_ask_bind (hsilent rfl) fun _ => trivial
        · exact trivial
      apply hpdh.wp trivial
      intro _ _
      apply (hsilent (c := .writeFile _ _) rfl).wp_ask_bind trivial
      intro _
      apply wp_bind.mpr
      apply wp_mono (settings_issueGetSettings _)
      exact fun _ _ _ => trivial

theorem settings_wdsStart (ctx : ViCtx) :
    settings.wp (stageWdsStart ctx) (fun _ _ => True) none := by
  have hsilent {c : Call} (hc : c.unsettled = true) : settings.Silent (fun _ => True) c :=
    Call.silent_of_unsettled hc
  unfold stageWdsStart
  split
  · exact trivial
  split
  · exact trivial
  split
  · exact settings_issueStartNetwork ctx
  apply (hsilent (c := .qrtrTxn _ _ (afSetMode ctx.txid) _ _) rfl).wp_ask_bind trivial
  intro af
  split
  · exact trivial
  apply (hsilent (c := .qrtrTxn _ _ (setIpFamily (ctx.txid + 1)) _ _) rfl).wp_ask_bind trivial
  intro family
  split
  · exact trivial
  · exact settings_issueStartNetwork _

end Stages

section Main

variable {ctx : ViCtx}

/-- A round of the loop up to `wds_start`. -/
theorem settings_cons {name : StageName} {fn : ViCtx → Vi (ℕ × ViCtx)}
    {rest : List (StageName × (ViCtx → Vi (ℕ × ViCtx)))} {R : ViCtx → ℕ × ViCtx → Prop}
    (hfn : ∀ ctx, Only name.Calls (R ctx) (fn ctx)) (hname : name ≠ .wdsStart)
    (hrest : ∀ ctx, settings.wp (runStages rest ctx) (fun _ _ => True) none) (ctx : ViCtx) :
    settings.wp (runStages ((name, fn) :: rest) ctx) (fun _ _ => True) none := by
  apply wp_runStages_cons settings_ofMain trivial trivial
  apply wp_mono (settings_otherStage (hfn ctx) hname)
  rintro r _ rfl
  exact ⟨trivial, fun _ => trivial, fun _ => hrest r.2⟩

theorem settings_fromWdsStart (ctx : ViCtx) :
    settings.wp (runStages [(.wdsStart, stageWdsStart), (.postTune, stagePostTune)] ctx)
      (fun _ _ => True) none := by
  apply wp_runStages_cons settings_ofMain trivial trivial
  apply wp_mono (settings_wdsStart ctx)
  intro r reply _
  refine ⟨trivial, fun _ => trivial, fun _ => ?_⟩
  apply wp_runStages_cons settings_ofMain trivial trivial
  apply wp_mono (settings_otherStage (only_postTune r.2) (by decide))
  exact fun _ _ _ => ⟨trivial, fun _ => trivial, fun _ => trivial⟩

theorem settings_stages (ctx : ViCtx) :
    settings.wp (runStages stages ctx) (fun _ _ => True) none := by
  apply settings_cons only_dmsOnline (by decide)
  apply settings_cons only_nasRat (by decide)
  apply settings_cons only_dpmOpen (by decide)
  apply settings_cons only_wdaSet (by decide)
  apply settings_cons only_dsd (by decide)
  apply settings_cons only_bindMux (by decide)
  exact settings_fromWdsStart

theorem settings_main (opts : List Opt) : settings.wp (main opts) (fun _ _ => True) none := by
  unfold main
  split
  · exact trivial
  rename_i ctx _
  apply wp_mainWith settings_ofMain trivial
  apply wp_mono (settings_stages ctx)
  intro r reply _
  apply wp_finish settings_ofMain (Call.silent_of_unsettled rfl) trivial
  have hclose : (Call.close r.2.fd).unsettled = true := rfl
  exact wp_lastClose_of_silent (Call.silent_of_unsettled hclose) trivial trivial

end Main

/-- A run of `vendor-init`, as far as it got. -/
structure VendorRun where
  opts : List Opt
  trace : List (Event Call Answer)
  rest : Vi ℕ
  runs : Runs (main opts) trace rest

/-- The directory that the runs share, and what is known of the current run and of the one
that wrote READY: the reply to GET_CURRENT_SETTINGS, and for the current one the files that
it has written. -/
structure StateDir where
  files : StateFile → Option StateValue := fun _ => none
  reply : Option (List UInt8) := none
  written : List StateFile := []
  owner : Option (List UInt8) := none

inductive DirAction
  | begin
  | call (e : Event Call Answer)

namespace StateDir
open Transition

variable {s s' : StateDir}

/-- A write that has gone through. -/
def write (s : StateDir) (file : StateFile) (value : StateValue) : StateDir where
  files := Function.update s.files file (some value)
  reply := s.reply
  written := file :: s.written
  owner := if file = .state ∧ value = .result .ready then s.reply else s.owner

@[simp] theorem write_self (s : StateDir) (file : StateFile) (value : StateValue) :
    (s.write file value).files file = some value := by
  apply Function.update_self

theorem write_of_ne {file other : StateFile} (s : StateDir) (value : StateValue)
    (h : other ≠ file) : (s.write file value).files other = s.files other := by
  apply Function.update_of_ne h

theorem owner_ready (s : StateDir) : (s.write .state (.result .ready)).owner = s.reply := by
  simp only [write, and_self, if_true]

theorem owner_of_not {file : StateFile} {value : StateValue} (s : StateDir)
    (h : ¬ (file = .state ∧ value = .result .ready)) : (s.write file value).owner = s.owner := by
  unfold write
  exact if_neg h

def next (s : StateDir) : Event Call Answer → StateDir
  | ⟨.writeFile file value, ok⟩ => if ok then s.write file value else s
  | ⟨.qrtrTxn fd port req respSz timeoutMs, resp⟩ =>
    { s with reply := settingsStep s.reply ⟨.qrtrTxn fd port req respSz timeoutMs, resp⟩ }
  | _ => s

/-- A run begins, or makes a call that is in order. -/
def step (s : StateDir) : DirAction → Option StateDir
  | .begin => some { s with reply := none, written := [] }
  | .call e => if permits s.reply e.call then some (s.next e) else none

/-- While the state file reads READY, each bearer file holds what the run that wrote it was
told by the modem. -/
def Published (s : StateDir) : Prop :=
  s.files .state = some (.result .ready) → ∀ file ∈ bearerFiles, ∀ value,
    s.files file = some value → s.owner.bind (decoded file) = some value

/-- No bearer file is written with another value while the state file still reads READY,
and READY is not written while a bearer file that the run has not written holds another
value than its reply has. -/
def Rewrites (s : StateDir) : DirAction → Prop
  | .call ⟨.writeFile file value, ok⟩ => ok = true →
    (file ∈ bearerFiles → s.files .state = some (.result .ready) →
      s.owner.bind (decoded file) = some value) ∧
    (file = .state → value = .result .ready → ∀ other ∈ bearerFiles, other ∉ s.written →
      ∀ old, s.files other = some old → s.reply.bind (decoded other) = some old)
  | _ => True

/-- What the current run has written is from its reply. -/
def FromReply (s : StateDir) : Prop :=
  ∀ file ∈ bearerFiles, file ∈ s.written → ∃ value, s.files file = some value ∧
    s.reply.bind (decoded file) = some value

theorem state_not_bearer {file : StateFile} (h : file ∈ bearerFiles) : file ≠ .state := by
  rintro rfl
  exact absurd h (by decide)

theorem fromReply_write {file : StateFile} {value : StateValue} (hs : s.FromReply)
    (h : permits s.reply (.writeFile file value) = true) : (s.write file value).FromReply := by
  intro other hother hwritten
  by_cases heq : other = file
  · rw [heq] at hother ⊢
    exact ⟨value, write_self s file value, of_decide_eq_true h hother⟩
  · have hbefore : other ∈ s.written := (List.mem_cons.mp hwritten).resolve_left heq
    obtain ⟨v, hv, hdecoded⟩ := hs other hother hbefore
    exact ⟨v, (write_of_ne s value heq).trans hv, hdecoded⟩

theorem FromReply.step {a : DirAction} (hs : s.FromReply) (h : s.step a = some s') :
    s'.FromReply := by
  cases a with
  | begin =>
    cases h
    intro file _ hwritten
    cases hwritten
  | call e =>
    obtain ⟨hpermits, hnext⟩ := Option.ite_none_right_eq_some.mp h
    cases hnext
    obtain ⟨c, r⟩ := e
    cases c with
    | writeFile file value =>
      cases r with
      | true => exact fromReply_write hs hpermits
      | false => exact hs
    | qrtrTxn fd port req respSz timeoutMs =>
      by_cases hmsg : req.msg = .getSettings
      · -- nothing can have been written before the reply
        have hnone : s.reply = none := of_decide_eq_true hpermits hmsg
        intro file hfile hwritten
        obtain ⟨v, _, hdecoded⟩ := hs file hfile hwritten
        rw [hnone] at hdecoded
        cases hdecoded
      · have hreply : settingsStep s.reply ⟨.qrtrTxn fd port req respSz timeoutMs, r⟩ =
            s.reply := if_neg hmsg
        show ({ s with reply := settingsStep s.reply _ } : StateDir).FromReply
        rw [hreply]
        exact hs
    | _ => exact hs

/-- READY is published with what is there then. -/
theorem published_ready_iff (hs : s.FromReply) :
    (s.write .state (.result .ready)).Published ↔ ∀ other ∈ bearerFiles, other ∉ s.written →
      ∀ old, s.files other = some old → s.reply.bind (decoded other) = some old := by
  have hfile {other : StateFile} (h : other ∈ bearerFiles) :
      (s.write .state (.result .ready)).files other = s.files other :=
    write_of_ne s _ (state_not_bearer h)
  constructor
  · intro h other hother _ old hold
    have hpublished := h (write_self s _ _) other hother old
    rw [hfile hother, owner_ready] at hpublished
    exact hpublished hold
  · intro h _ other hother value hvalue
    rw [hfile hother] at hvalue
    rw [owner_ready]
    by_cases hwritten : other ∈ s.written
    · obtain ⟨v, hv, hdecoded⟩ := hs other hother hwritten
      rw [hv] at hvalue
      rw [← hvalue]
      exact hdecoded
    · exact h other hother hwritten value hvalue

theorem published_bearer_iff {file : StateFile} {value : StateValue} (hs : s.Published)
    (hfile : file ∈ bearerFiles) :
    (s.write file value).Published ↔ (s.files .state = some (.result .ready) →
      s.owner.bind (decoded file) = some value) := by
  have hne := state_not_bearer hfile
  have hstate : (s.write file value).files .state = s.files .state :=
    write_of_ne s value hne.symm
  have howner : (s.write file value).owner = s.owner := owner_of_not s fun h => hne h.1
  constructor
  · intro h hready
    have hpublished := h (hstate.trans hready) file hfile value (write_self s file value)
    rw [howner] at hpublished
    exact hpublished
  · intro h hready other hother v hv
    rw [hstate] at hready
    rw [howner]
    by_cases heq : other = file
    · rw [heq] at hv ⊢
      have hvalue : some value = some v := (write_self s file value).symm.trans hv
      rw [← hvalue]
      exact h hready
    · have hbefore : s.files other = some v := (write_of_ne s value heq).symm.trans hv
      exact hs hready other hother v hbefore

/-- Another write does not matter, if it is not to the state file. -/
theorem published_other {file : StateFile} {value : StateValue} (hs : s.Published)
    (hfile : file ∉ bearerFiles) (hvalue : ¬ (file = .state ∧ value = .result .ready)) :
    (s.write file value).Published := by
  intro hready other hother v hv
  have hne : other ≠ file := by
    rintro rfl
    exact hfile hother
  have hbefore : s.files other = some v := (write_of_ne s value hne).symm.trans hv
  rw [owner_of_not s hvalue]
  by_cases hstate : file = .state
  · -- the state file reads something else now
    rw [hstate] at hready hvalue
    have hnow : some value = some (.result .ready) := (write_self s _ value).symm.trans hready
    exact absurd ⟨rfl, Option.some.inj hnow⟩ hvalue
  · have hkept : s.files .state = some (.result .ready) :=
      (write_of_ne s value (Ne.symm hstate)).symm.trans hready
    exact hs hkept other hother v hbefore

theorem rewrites_iff {a : DirAction} (hs : s.FromReply) (hpublished : s.Published)
    (h : s.step a = some s') : s.Rewrites a ↔ s'.Published := by
  cases a with
  | begin =>
    cases h
    exact iff_of_true trivial hpublished
  | call e =>
    obtain ⟨_, hnext⟩ := Option.ite_none_right_eq_some.mp h
    cases hnext
    obtain ⟨c, r⟩ := e
    cases c with
    | writeFile file value =>
      cases r with
      | false => exact iff_of_true (fun h => absurd h Bool.false_ne_true) hpublished
      | true =>
        show (_ → _) ↔ (s.write file value).Published
        rw [forall_prop_of_true rfl]
        by_cases hfile : file ∈ bearerFiles
        · rw [published_bearer_iff hpublished hfile]
          have hne := state_not_bearer hfile
          exact ⟨fun h => h.1 hfile, fun h => ⟨fun _ => h, fun heq => absurd heq hne⟩⟩
        · by_cases hvalue : file = .state ∧ value = .result .ready
          · obtain ⟨rfl, rfl⟩ := hvalue
            rw [published_ready_iff hs]
            exact ⟨fun h => h.2 rfl rfl, fun h => ⟨fun hmem => absurd hmem hfile, fun _ _ => h⟩⟩
          · refine iff_of_true ⟨fun hmem => absurd hmem hfile, ?_⟩
              (published_other hpublished hfile hvalue)
            exact fun heq hready => absurd ⟨heq, hready⟩ hvalue
    | _ => exact iff_of_true trivial hpublished

/-- All that the runs do, in their order. -/
def actions (runs : List VendorRun) : List DirAction :=
  runs.flatMap fun r => .begin :: r.trace.map .call

theorem run_calls {tr : List (Event Call Answer)} (h : settings.Obeyed s.reply tr) :
    ∃ t, run step s (tr.map .call) = some t := by
  induction tr generalizing s with
  | nil => exact ⟨s, rfl⟩
  | cons e tr ih =>
    obtain ⟨hmay, hrest⟩ := h
    have hpermits : permits s.reply e.call = true := hmay
    have hstep : s.step (.call e) = some (s.next e) := if_pos hpermits
    have hreply : (s.next e).reply = settingsStep s.reply e := by
      obtain ⟨c, r⟩ := e
      cases c with
      | writeFile file value =>
        cases r with
        | true => rfl
        | false => rfl
      | _ => rfl
    have hrest' : settings.Obeyed (s.next e).reply tr := by
      rw [hreply]
      exact hrest
    obtain ⟨t, ht⟩ := ih hrest'
    exact ⟨t, run_cons_eq_some.mpr ⟨_, hstep, ht⟩⟩

/-- Every sequence of runs keeps to what the program may do. -/
theorem run_actions (s : StateDir) (runs : List VendorRun) :
    ∃ t, run step s (actions runs) = some t := by
  induction runs generalizing s with
  | nil => exact ⟨s, rfl⟩
  | cons r runs ih =>
    have hallowed : settings.Allowed none r.trace := allowed_iff.mpr fun _ _ _ _ => trivial
    have hobeyed := (wp_runs r.runs (settings_main r.opts) hallowed).1
    obtain ⟨t, ht⟩ := run_calls (s := { s with reply := none, written := [] }) hobeyed
    obtain ⟨u, hu⟩ := ih t
    refine ⟨u, run_cons_eq_some.mpr ⟨_, rfl, ?_⟩⟩
    show run step _ (r.trace.map .call ++ actions runs) = some u
    rw [run_append, ht]
    exact hu

/-- The directory is empty before the first of the runs. Its bearer parameters belong to
the bearer that is published at each point of them exactly when the runs rewrite what they
find. -/
theorem published_iff_rewrites (runs : List VendorRun) :
    (∃ t, run step {} (actions runs) = some t) ∧
      (Guarded step Rewrites {} (actions runs) ↔
        ∀ pre post u, actions runs = pre ++ post → run step {} pre = some u → u.Published) := by
  obtain ⟨t, ht⟩ := run_actions {} runs
  refine ⟨⟨t, ht⟩, ?_⟩
  have hfrom : FromReply {} := by
    intro file _ hwritten
    cases hwritten
  have hempty : Published {} := by
    intro hready
    cases hready
  have hstep : ∀ s a s', FromReply s → step s a = some s' → FromReply s' :=
    fun _ _ _ hs h => hs.step h
  have hiff : ∀ s a s', FromReply s → Published s → step s a = some s' →
      (Rewrites s a ↔ Published s') := fun _ _ _ hs hpublished h => rewrites_iff hs hpublished h
  exact guarded_iff_always hstep hiff ht hfrom hempty

/-- A modem that takes every request and gives these settings. -/
def settlingModem (reply : Option (List UInt8)) : (c : Call) → Answer c
  | .qrtrOpen => (3 : ℤ)
  | .qrtrLookup _ _ => (1 : UInt32)
  | .qrtrTxn _ _ req _ _ =>
    if req.msg = .getSettings then reply
    else some [2, 1, 0, 0, 0, 7, 0, 0x02, 4, 0, 0, 0, 0, 0]
  | .close _ => ()
  | .writeFile _ _ => true
  | .system _ => (0 : ℤ)
  | .tryWrite _ _ => true
  | .lteRounds => (0 : ℕ)
  | .gStop => false
  | .pause => ()

def runWith (reply : Option (List UInt8)) : VendorRun where
  opts := []
  trace := (main []).events (settlingModem reply)
  rest := .ret ((main []).outcome (settlingModem reply))
  runs := ends_events _ _

/-- The address 10.0.0.1. -/
def addressReply : List UInt8 :=
  [2, 3, 0, 0x2D, 0, 14, 0, 0x02, 4, 0, 0, 0, 0, 0, 0x1E, 4, 0, 1, 0, 0, 10]

/-- The second run is not told its settings, and the address of the first one stays. -/
theorem not_published_unanswered : ∃ t,
    run step {} (actions [runWith (some addressReply), runWith none]) = some t ∧
      ¬ t.Published := by
  obtain ⟨t, ht⟩ := run_actions {} [runWith (some addressReply), runWith none]
  refine ⟨t, ht, ?_⟩
  have hstate : (run step {} (actions [runWith (some addressReply), runWith none])).map
      (fun t => t.files .state) = some (some (.result .ready)) := by decide +kernel
  have haddress : (run step {} (actions [runWith (some addressReply), runWith none])).map
      (fun t => t.files .bearerIpv4) = some (some (.dotted 0x0A000001)) := by decide +kernel
  have howner : (run step {} (actions [runWith (some addressReply), runWith none])).map
      (fun t => t.owner) = some none := by decide +kernel
  rw [ht] at hstate haddress howner
  intro h
  have hdecoded := h (Option.some.inj hstate) .bearerIpv4 (by decide) _
    (Option.some.inj haddress)
  have hnone : t.owner = none := Option.some.inj howner
  rw [hnone] at hdecoded
  cases hdecoded

end StateDir

end VendorInit
end X00TDCellular
