import X00TDCellular.VendorInitCalls

/-! The requests that only an LTE modem takes, and what they depend on: the form that the
command line asks for, and the last poll of the serving system. -/

namespace X00TDCellular
namespace VendorInit
open EnvProgram EnvProgram.Prog EnvProgram.Monitor

/-- 0x00AF and 0x004D, and a START_NETWORK with one of the TLVs of the full form. -/
def QmiRequest.lteOnly (req : QmiRequest) : Bool :=
  match req.msg with
  | .afSetMode | .ipFamily4D => true
  | .startNetwork => req.tlvs.any fun t => t.type = 0x31 || t.type = 0x35 || t.type = 0x39
  | _ => false

def Call.lteOnly : Call → Bool
  | .qrtrTxn _ _ req _ _ => req.lteOnly
  | _ => false

/-- Whether the full form is asked for after an option, if it was or not before. -/
def Opt.form (full : Bool) : Opt → Bool
  | .simpleWds => false
  | .fullWds => true
  | _ => full

/-- The last of `--simple-wds` and `--full-wds` is `--full-wds`. -/
def lastFormFull (opts : List Opt) : Bool := opts.foldl Opt.form false

def pollStep (last : Option UInt8) : Event Call Answer → Option UInt8
  | ⟨.qrtrTxn _ _ req _ _, resp⟩ =>
    if req.msg = .nasGetServingSystem then some (polledInterface resp) else last
  | _ => last

/-- What the last poll of a run has reported, if there was one. -/
def lastPoll (tr : List (Event Call Answer)) : Option UInt8 := tr.foldl pollStep none

/-- The account of the polls; an LTE-only request asks for the full form and for LTE in
the last of them. -/
def polls (full : Bool) : Monitor Call Answer (Option UInt8) where
  next := pollStep
  may last c := match c with
    | .qrtrTxn _ _ req _ _ => req.lteOnly = true → full = true ∧ last = some radioIfLte
    | _ => True
  allows _ _ := True

section Stages

variable {full : Bool} {last : Option UInt8} {ctx : ViCtx} {α : Type}

/-- The calls that the account does not mind. -/
def Call.plain : Call → Bool
  | .qrtrTxn _ _ req _ _ => req.msg ≠ .nasGetServingSystem ∧ req.lteOnly = false
  | _ => true

theorem Call.silent_of_plain {c : Call} (hc : c.plain = true) :
    (polls full).Silent (fun _ => True) c := by
  intro last _
  cases c with
  | qrtrTxn fd port req respSz timeoutMs =>
    obtain ⟨hpoll, hlte⟩ := of_decide_eq_true hc
    refine ⟨fun hreq => absurd (hlte.symm.trans hreq) Bool.false_ne_true, fun resp => ?_⟩
    exact if_neg hpoll
  | qrtrOpen => exact ⟨trivial, fun _ => rfl⟩
  | qrtrLookup => exact ⟨trivial, fun _ => rfl⟩
  | close => exact ⟨trivial, fun _ => rfl⟩
  | writeFile => exact ⟨trivial, fun _ => rfl⟩
  | system => exact ⟨trivial, fun _ => rfl⟩
  | tryWrite => exact ⟨trivial, fun _ => rfl⟩
  | lteRounds => exact ⟨trivial, fun _ => rfl⟩
  | gStop => exact ⟨trivial, fun _ => rfl⟩
  | pause => exact ⟨trivial, fun _ => rfl⟩

/-- Only a transaction can be a call that is not plain. -/
theorem Call.plain_or_txn (c : Call) :
    c.plain = true ∨ ∃ fd port req respSz timeoutMs, c = .qrtrTxn fd port req respSz timeoutMs := by
  cases c with
  | qrtrTxn fd port req respSz timeoutMs => exact Or.inr ⟨fd, port, req, respSz, timeoutMs, rfl⟩
  | qrtrOpen => exact Or.inl rfl
  | qrtrLookup => exact Or.inl rfl
  | close => exact Or.inl rfl
  | writeFile => exact Or.inl rfl
  | system => exact Or.inl rfl
  | tryWrite => exact Or.inl rfl
  | lteRounds => exact Or.inl rfl
  | gStop => exact Or.inl rfl
  | pause => exact Or.inl rfl

theorem Call.plain_of_main {c : Call} (hc : c.ofMain = true) : c.plain = true := by
  rcases c.plain_or_txn with hplain | ⟨fd, port, req, respSz, timeoutMs, rfl⟩
  · exact hplain
  · cases hc

theorem plain_of_messages {name : StageName}
    (hname : ∀ m ∈ name.messages, m ∉ [.nasGetServingSystem, .afSetMode, .ipFamily4D,
      .startNetwork]) {c : Call} (hc : name.Calls c) : c.plain = true := by
  rcases c.plain_or_txn with hplain | ⟨fd, port, req, respSz, timeoutMs, rfl⟩
  · exact hplain
  · have hmsg := hname req.msg hc
    simp only [List.mem_cons, List.not_mem_nil, or_false, not_or] at hmsg
    apply decide_eq_true
    refine ⟨hmsg.1, ?_⟩
    unfold QmiRequest.lteOnly
    split
    · rename_i heq
      exact absurd heq hmsg.2.1
    · rename_i heq
      exact absurd heq hmsg.2.2.1
    · rename_i heq
      exact absurd heq hmsg.2.2.2
    · rfl

/-- A stage that neither polls nor sends anything for LTE only. -/
theorem polls_plainStage {name : StageName} {p : Vi α} {R : α → Prop}
    (h : Only name.Calls R p)
    (hname : ∀ m ∈ name.messages, m ∉ [.nasGetServingSystem, .afSetMode, .ipFamily4D,
      .startNetwork]) :
    (polls full).wp p (fun r last' => R r ∧ last' = last) last := by
  have honly : Only ((polls full).Silent fun _ => True) R p :=
    h.mono fun c hc => Call.silent_of_plain (plain_of_messages hname hc)
  exact honly.wp trivial fun r hr => ⟨hr, rfl⟩

/-- A poll of `nas_rat`: the account has what it reports. -/
theorem polls_poll {fd : ℤ} {port : UInt32} {txid : UInt16} {f : UInt8 → Vi α}
    {Q : α → Option UInt8 → Prop} (h : ∀ r, (polls full).wp (f r) Q (some r)) :
    (polls full).wp (pollServingSystem fd port txid >>= f) Q last := by
  apply wp_bind.mpr
  have hmay : (polls full).may last (.qrtrTxn fd port (getServingSystem txid) 1024 2000) := by
    intro hlte
    cases hlte
  apply wp_ask_bind hmay
  intro resp _
  exact h (polledInterface resp)

theorem polls_waitForLte (fd : ℤ) (port : UInt32) (rounds : ℕ) (txid : UInt16)
    (lastRat : UInt8) :
    (polls full).wp (waitForLte fd port rounds txid lastRat)
      (fun waited last' => waited.1 = true → last' = some radioIfLte) last := by
  induction rounds generalizing txid lastRat last with
  | zero =>
    intro hseen
    cases hseen
  | succ rounds ih =>
    apply polls_poll
    intro r
    split
    · rename_i hr
      exact fun _ => congrArg some hr
    · exact ih (txid+1) r

/-- One of the two requests whose failure `nas_rat` tolerates. -/
theorem polls_issueRequest {fd : ℤ} {port : UInt32} {req : QmiRequest} {key : StateFile}
    {f : ℤ → Vi α} {Q : α → Option UInt8 → Prop} (hpoll : req.msg ≠ .nasGetServingSystem)
    (hlte : req.lteOnly = false) (h : ∀ rc, (polls full).wp (f rc) Q last) :
    (polls full).wp (issueRequest fd port req key >>= f) Q last := by
  apply wp_bind.mpr
  have hplain (respSz timeoutMs : ℕ) :
      (Call.qrtrTxn fd port req respSz timeoutMs).plain = true :=
    decide_eq_true ⟨hpoll, hlte⟩
  apply (Call.silent_of_plain (hplain 256 5000)).wp_ask_bind trivial
  intro resp
  cases resp with
  | none => exact h (-1)
  | some resp =>
    have hrecord : (Call.writeFile key (.int (resultOf resp))).plain = true := rfl
    apply (Call.silent_of_plain hrecord).wp_ask_bind trivial
    exact fun _ => h _

/-- `nas_rat` leaves the full form on only after a poll that has reported LTE, which is
its last. -/
theorem polls_nasRat (ctx : ViCtx) :
    (polls full).wp (stageNasRat ctx)
      (fun r last' => r.1 = 0 → ctx.dryRun = false → r.2.simpleWds = false →
        last' = some radioIfLte) last := by
  have hplain {c : Call} (hc : c.plain = true) : (polls full).Silent (fun _ => True) c :=
    Call.silent_of_plain hc
  have hfail (ctx' : ViCtx) (last' : Option UInt8) : (1 : ℕ) = 0 → ctx.dryRun = false →
      ctx'.simpleWds = false → last' = some radioIfLte := by
    intro hrc
    omega
  unfold stageNasRat
  split
  · rename_i hdry
    intro _ hwet
    exact absurd (hwet.symm.trans hdry) Bool.false_ne_true
  apply (hplain (c := .qrtrOpen) rfl).wp_ask_bind trivial
  intro fd
  split
  · exact hfail ctx last
  apply (hplain (c := .qrtrLookup fd .nas) rfl).wp_ask_bind trivial
  intro port
  split
  · apply (hplain (c := .close fd) rfl).wp_ask_bind trivial
    exact fun _ => hfail ctx last
  apply (hplain (c := .writeFile _ _) rfl).wp_ask_bind trivial
  intro _
  apply polls_poll
  intro currentRat
  apply (hplain (c := .writeFile _ _) rfl).wp_ask_bind trivial
  intro _
  split
  · rename_i hlte
    apply (hplain (c := .close fd) rfl).wp_ask_bind trivial
    exact fun _ _ _ _ => congrArg some hlte
  apply polls_issueRequest (by decide) rfl
  intro _
  apply polls_issueRequest (by decide) rfl
  intro _
  apply (hplain (c := .lteRounds) rfl).wp_ask_bind trivial
  intro rounds
  apply wp_bind.mpr
  apply wp_mono (polls_waitForLte fd port rounds 4 currentRat)
  intro waited last' hwaited
  apply (hplain (c := .writeFile _ _) rfl).wp_ask_bind trivial
  intro _
  apply (hplain (c := .close fd) rfl).wp_ask_bind trivial
  intro _
  split
  · rename_i hseen
    exact fun _ _ _ => hwaited hseen
  · -- the fallback has put the simple form in its place
    intro _ _ hfull
    cases hfull

section WdsStart

theorem silent_of_lte {c : Call} (hc : StageName.wdsStart.Calls c) :
    (polls full).Silent (fun last => full = true ∧ last = some radioIfLte) c := by
  intro last hlte
  rcases c.plain_or_txn with hplain | ⟨fd, port, req, respSz, timeoutMs, rfl⟩
  · exact Call.silent_of_plain hplain last trivial
  · refine ⟨fun _ => hlte, fun resp => if_neg ?_⟩
    intro hpoll
    have hmsg : req.msg ∈ StageName.wdsStart.messages := hc
    rw [hpoll] at hmsg
    exact absurd hmsg (by decide)

theorem plain_ask_bind {c : Call} {f : Answer c → Vi α} {R : α → Prop} (hc : c.plain = true)
    (h : ∀ r, Only (fun c => c.plain = true) R (f r)) :
    Only (fun c => c.plain = true) R (ask c >>= f) :=
  ⟨hc, h⟩

theorem only_plainRecord {resp : List UInt8} {type : UInt8} {key : StateFile}
    {value : UInt32 → StateValue} {f : Unit → Vi α} {R : α → Prop}
    (h : Only (fun c => c.plain = true) R (f ())) :
    Only (fun c => c.plain = true) R (recordU32 resp type key value >>= f) := by
  apply only_bind (R := fun _ => True)
  · unfold recordU32
    split
    · exact plain_ask_bind rfl fun _ => trivial
    · exact trivial
  · exact fun _ _ => h

theorem only_plainGetSettings (ctx : ViCtx) :
    Only (fun c => c.plain = true) (fun _ => True) (issueGetSettings ctx) := by
  refine plain_ask_bind rfl ?_
  intro resp
  cases resp with
  | none => exact trivial
  | some resp =>
    apply only_plainRecord
    apply only_plainRecord
    apply only_plainRecord
    apply only_plainRecord
    exact trivial

/-- The simple form has none of the TLVs that ask for LTE. -/
theorem startNetwork_plain (hform : ctx.simpleWds = true) : (startNetwork ctx).lteOnly = false := by
  have htlvs : (startNetwork ctx).tlvs = [apnTlv ctx.apn, .u8 0x19 0x04] := if_pos hform
  show ((startNetwork ctx).tlvs.any fun t => t.type = 0x31 || t.type = 0x35 || t.type = 0x39) =
    false
  rw [htlvs]
  rfl

theorem only_plainStartNetwork (hform : ctx.simpleWds = true) :
    Only (fun c => c.plain = true) (fun _ => True) (issueStartNetwork ctx) := by
  have hplain : (startNetwork ctx).msg ≠ .nasGetServingSystem ∧
      (startNetwork ctx).lteOnly = false := ⟨nofun, startNetwork_plain hform⟩
  refine plain_ask_bind (decide_eq_true hplain) ?_
  intro resp
  cases resp with
  | none => exact trivial
  | some resp =>
    dsimp only
    split
    · exact plain_ask_bind rfl fun _ => trivial
    · apply only_plainRecord
      refine plain_ask_bind rfl ?_
      intro _
      exact only_bind (only_plainGetSettings _) fun _ _ => trivial

/-- What the options and the polls leave for `wds_start`. -/
def FormChosen (full : Bool) (ctx : ViCtx) (last : Option UInt8) : Prop :=
  ctx.simpleWds = false → full = true ∧ (ctx.dryRun = false → last = some radioIfLte)

theorem polls_wdsStart (h : FormChosen full ctx last) :
    (polls full).wp (stageWdsStart ctx) (fun _ _ => True) last := by
  rcases Bool.eq_false_or_eq_true ctx.dryRun with hdry | hwet
  · have hnone : stageWdsStart ctx = pure (0, ctx) := if_pos hdry
    rw [hnone]
    exact trivial
  rcases Bool.eq_false_or_eq_true ctx.simpleWds with hsimple | hfull
  · have hstart : stageWdsStart ctx =
        if ctx.wdsPort = 0 then pure (1, ctx) else issueStartNetwork ctx := by
      simp only [stageWdsStart, hwet, hsimple, if_true, Bool.false_eq_true, if_false]
    rw [hstart]
    split
    · exact trivial
    · have honly := only_plainStartNetwork hsimple
      exact (honly.mono fun c hc => Call.silent_of_plain hc).wp trivial fun _ _ => trivial
  · -- all of the stage's requests are in order now
    obtain ⟨hasked, hlte⟩ := h hfull
    have honly : Only ((polls full).Silent fun last => full = true ∧ last = some radioIfLte)
        (KeepsForm ctx) (stageWdsStart ctx) :=
      (only_wdsStart ctx).mono fun c hc => silent_of_lte hc
    exact honly.wp ⟨hasked, hlte hwet⟩ fun _ _ => trivial

end WdsStart

end Stages

section Main

variable {full : Bool} {last : Option UInt8} {ctx : ViCtx}

theorem FormChosen.keep {r : ℕ × ViCtx} (h : FormChosen full ctx last) (hr : KeepsForm ctx r) :
    FormChosen full r.2 last := by
  intro hfull
  rw [hr.2] at hfull
  rw [hr.1.dryRun]
  exact h hfull

/-- A round of the loop for a plain stage after `nas_rat`. -/
theorem polls_afterRat {name : StageName} {fn : ViCtx → Vi (ℕ × ViCtx)}
    {rest : List (StageName × (ViCtx → Vi (ℕ × ViCtx)))}
    (hfn : ∀ ctx, Only name.Calls (KeepsForm ctx) (fn ctx))
    (hname : ∀ m ∈ name.messages, m ∉ [.nasGetServingSystem, .afSetMode, .ipFamily4D,
      .startNetwork])
    (hrest : ∀ ctx last, FormChosen full ctx last →
      (polls full).wp (runStages rest ctx) (fun _ _ => True ∧ True) last)
    (h : FormChosen full ctx last) :
    (polls full).wp (runStages ((name, fn) :: rest) ctx) (fun _ _ => True ∧ True) last := by
  apply wp_runStages_keep (I := fun _ => True) (E := fun _ _ => True) (J := FormChosen full)
    (fun c hc => Call.silent_of_plain (Call.plain_of_main hc)) trivial trivial
  · apply wp_mono (polls_plainStage (hfn ctx) hname)
    rintro r last' ⟨hr, rfl⟩
    exact ⟨trivial, trivial, fun _ => h.keep hr⟩
  · exact fun ctx' last' _ _ hJ => hrest ctx' last' hJ

/-- The stages from `wds_start` on. -/
theorem polls_fromWdsStart (h : FormChosen full ctx last) :
    (polls full).wp (runStages [(.wdsStart, stageWdsStart), (.postTune, stagePostTune)] ctx)
      (fun _ _ => True ∧ True) last := by
  have hmain (c : Call) (hc : c.ofMain = true) : (polls full).Silent (fun _ => True) c :=
    Call.silent_of_plain (Call.plain_of_main hc)
  apply wp_runStages_keep (I := fun _ => True) (E := fun _ _ => True) (J := fun _ _ => True)
    hmain trivial trivial
  · apply wp_mono (polls_wdsStart h)
    exact fun _ _ _ => ⟨trivial, trivial, fun _ => trivial⟩
  · intro ctx' last' _ _ _
    apply wp_runStages_keep (I := fun _ => True) (E := fun _ _ => True) (J := fun _ _ => True)
      hmain trivial trivial
    · apply wp_mono (polls_plainStage (only_postTune ctx') (by decide))
      exact fun _ _ _ => ⟨trivial, trivial, fun _ => trivial⟩
    · exact fun _ _ _ _ _ => ⟨trivial, trivial⟩

theorem polls_stages (h : ctx.simpleWds = false → full = true) :
    (polls full).wp (runStages stages ctx) (fun _ _ => True ∧ True) last := by
  have hmain (c : Call) (hc : c.ofMain = true) : (polls full).Silent (fun _ => True) c :=
    Call.silent_of_plain (Call.plain_of_main hc)
  apply wp_runStages_keep (I := fun _ => True) (E := fun _ _ => True)
    (J := fun ctx _ => ctx.simpleWds = false → full = true) hmain trivial trivial
  · apply wp_mono (polls_plainStage (only_dmsOnline ctx) (by decide))
    rintro r last' ⟨hr, rfl⟩
    refine ⟨trivial, trivial, fun _ hfull => h ?_⟩
    rw [← hr.2]
    exact hfull
  intro ctx₁ last₁ _ _ hasked
  apply wp_runStages_keep (I := fun _ => True) (E := fun _ _ => True) (J := FormChosen full)
    hmain trivial trivial
  · apply wp_mono ((only_nasRat ctx₁).and_wp (polls_nasRat ctx₁))
    rintro r last' ⟨hr, hpoll⟩
    refine ⟨trivial, trivial, fun hrc hfull => ⟨hasked (hr.2 hfull), fun hwet => ?_⟩⟩
    rw [hr.1.dryRun] at hwet
    exact hpoll hrc hwet hfull
  intro ctx₂ last₂ _ _ hchosen
  -- neither changes the form any more, up to `wds_start`
  apply polls_afterRat only_dpmOpen (by decide) _ hchosen
  intro ctx₃ last₃ hchosen
  apply polls_afterRat only_wdaSet (by decide) _ hchosen
  intro ctx₄ last₄ hchosen
  apply polls_afterRat only_dsd (by decide) _ hchosen
  intro ctx₅ last₅ hchosen
  apply polls_afterRat only_bindMux (by decide) _ hchosen
  intro ctx₆ last₆ hchosen
  exact polls_fromWdsStart hchosen

theorem parseOpts_form {ctx ctx' : ViCtx} {opts : List Opt} (h : parseOpts ctx opts = .ok ctx') :
    (!ctx'.simpleWds) = opts.foldl Opt.form (!ctx.simpleWds) := by
  apply parseOpts_fold (f := fun ctx : ViCtx => !ctx.simpleWds) _ h
  intro ctx opt ctx' hopt
  cases opt with
  | help => cases hopt
  | unknown => cases hopt
  | _ =>
    cases hopt
    rfl

theorem polls_main (opts : List Opt) :
    (polls (lastFormFull opts)).wp (main opts) (fun _ _ => True) none := by
  unfold main
  cases hparse : parseOpts { apn := defaultApn } opts with
  | error rc => exact trivial
  | ok ctx =>
    have hform : (!ctx.simpleWds) = lastFormFull opts := parseOpts_form hparse
    have hmain (c : Call) (hc : c.ofMain = true) :
        (polls (lastFormFull opts)).Silent (fun _ => True) c :=
      Call.silent_of_plain (Call.plain_of_main hc)
    apply wp_mainWith hmain trivial
    apply wp_mono (polls_stages (fun hfull => ?_))
    · intro r last' _
      have hready : (Call.writeFile .state (.result .ready)).plain = true := rfl
      apply wp_finish hmain (Call.silent_of_plain hready) trivial
      have hclose : (Call.close r.2.fd).plain = true := rfl
      exact wp_lastClose_of_silent (Call.silent_of_plain hclose) trivial trivial
    · rw [hfull] at hform
      simpa using hform

end Main

/-- In every run, as far as it gets: a request that only an LTE modem takes is sent when the
command line has last asked for the full form and the last poll has reported LTE. -/
theorem lteOnly_confined (opts : List Opt) {tr : List (Event Call Answer)} {p : Vi ℕ}
    (hrun : Runs (main opts) tr p) {pre post : List (Event Call Answer)} {fd : ℤ}
    {port : UInt32} {req : QmiRequest} {respSz timeoutMs : ℕ} {resp : Option (List UInt8)}
    (htr : tr = pre ++ ⟨.qrtrTxn fd port req respSz timeoutMs, resp⟩ :: post)
    (hreq : req.lteOnly = true) :
    lastFormFull opts = true ∧ lastPoll pre = some radioIfLte := by
  have hallowed : (polls (lastFormFull opts)).Allowed none tr :=
    allowed_iff.mpr fun _ _ _ _ => trivial
  have hobeyed := (wp_runs hrun (polls_main opts) hallowed).1
  rw [htr] at hobeyed
  exact hobeyed.may hreq

/-- A modem on LTE that takes every request. -/
def lteModem : (c : Call) → Answer c
  | .qrtrOpen => (3 : ℤ)
  | .qrtrLookup _ _ => (1 : UInt32)
  | .qrtrTxn _ _ req _ _ =>
    -- a result without error, and to a poll a tracking area code too
    if req.msg = .nasGetServingSystem then
      some [2, 1, 0, 0x24, 0, 11, 0, 0x02, 4, 0, 0, 0, 0, 0, 0x15, 1, 0, 0]
    else some [2, 1, 0, 0, 0, 7, 0, 0x02, 4, 0, 0, 0, 0, 0]
  | .close _ => ()
  | .writeFile _ _ => true
  | .system _ => (0 : ℤ)
  | .tryWrite _ _ => true
  | .lteRounds => (0 : ℕ)
  | .gStop => false
  | .pause => ()

/-- Up to 0x00AF, with the full form asked for. -/
theorem lteOnly_confined_lteModem :
    lastFormFull [.fullWds] = true ∧
      lastPoll (((main [.fullWds]).events lteModem).take 56) = some radioIfLte := by
  have hcall : (((main [.fullWds]).events lteModem).drop 56).head?.any
      (fun e => e.call.lteOnly) = true := by decide +kernel
  have hsplit := List.take_append_drop 56 ((main [.fullWds]).events lteModem)
  cases hdrop : ((main [.fullWds]).events lteModem).drop 56 with
  | nil =>
    rw [hdrop] at hcall
    cases hcall
  | cons e post =>
    rw [hdrop] at hcall hsplit
    obtain ⟨c, resp⟩ := e
    cases c with
    | qrtrTxn fd port req respSz timeoutMs =>
      exact lteOnly_confined [.fullWds] (ends_events lteModem _) hsplit.symm hcall
    | qrtrOpen => cases hcall
    | qrtrLookup => cases hcall
    | close => cases hcall
    | writeFile => cases hcall
    | system => cases hcall
    | tryWrite => cases hcall
    | lteRounds => cases hcall
    | gStop => cases hcall
    | pause => cases hcall

end VendorInit
end X00TDCellular
