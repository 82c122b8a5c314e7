import X00TDCellular.MuxDuplicates

/-! The delayed work and the modem that it talks to. The done flag lives as long as the
driver does, and what it records belongs to one incarnation of the modem. -/

namespace X00TDCellular
open Transition

/-- Where a run of the work is. -/
inductive WorkPhase
  | idle
  /-- past the check of the done flag -/
  | started
  /-- past INSTALL_FILTER_RULE; whether all calls up to there have succeeded -/
  | notified (ok : Bool)
  deriving DecidableEq, Repr

structure ModemSystem where
  driver : DriverState
  modemUp : Bool
  /-- history: this incarnation of the modem has completed its handshake -/
  handshook : Bool
  work : WorkPhase
  /-- history: the last run of the work has ended, and all its calls had succeeded -/
  lastRunOk : Bool
  /-- history: INSTALL_FILTER_RULE has been sent to this incarnation of the modem -/
  installSent : Bool

inductive ModemAction
  | powerup
  /-- `BEFORE_SHUTDOWN`, as ported: the driver stays registered and keeps its state -/
  | shutdown
  | q6HandshakeComplete
  | workBegin
  | workNotify (o : AutoOutcome)
  | workEnd (o : AutoOutcome)

namespace DriverState

/-- INSTALL_FILTER_RULE leaves the driver, whatever the answer is. -/
def sendsInstall (d : DriverState) (o : AutoOutcome) : Bool :=
  .installFilterRule wanDlFilterReq ∈
    (d.installWanDlQmiFilterNotify o).qmiSent.drop d.qmiSent.length

/-- The end of the work, from FILTER_INSTALLED_NOTIF on. -/
def afterNotify (d : DriverState) (o : AutoOutcome) : DriverState :=
  (d.installWanDlQmiFilterInstalledNotif o).autoIngressMux o

/-- A request that succeeds has been sent, and a modem has answered it. -/
theorem sendsInstall_of_failures {d : DriverState} {o : AutoOutcome}
    (hok : (d.installWanDlQmiFilterNotify o).failures = d.failures) :
    d.sendsInstall o = true ∧ o.install = .accepted := by
  have hvalid := d.filterRequestValid_wanDlFilterReq
  have hfail {d' : DriverState} (hd' : d'.failures = d.failures) :
      (d'.note false).failures ≠ d.failures := by
    have hnote : (d'.note false).failures = d'.failures + 1 := rfl
    omega
  unfold sendsInstall
  unfold installWanDlQmiFilterNotify qmiFilterRequestSend at hok ⊢
  by_cases hreq : o.reqOk = true
  · rw [if_neg (not_not.mpr hreq), if_neg (not_not.mpr hvalid)] at hok ⊢
    cases hinstall : o.install with
    | notSent =>
      rw [hinstall] at hok
      exact absurd hok (hfail rfl)
    | failed =>
      rw [hinstall] at hok
      exact absurd hok (hfail rfl)
    | accepted =>
      refine ⟨?_, rfl⟩
      dsimp only
      rw [List.drop_left]
      exact decide_eq_true (List.mem_singleton_self _)
  · rw [if_pos hreq] at hok
    exact absurd hok (hfail rfl)

/-- The same for the whole of the work up to the request. -/
theorem sendsInstall_of_beforeNotif {d : DriverState} {o : AutoOutcome}
    (hok : (d.beforeNotif o).failures = d.failures) :
    ((d.autoEgress o).1.autoWanDlRules o).sendsInstall o = true ∧ o.install = .accepted := by
  have hegress := (d.autoEgress_installs o).failures
  have hrules := ((d.autoEgress o).1.autoWanDlRules_installs o).failures
  have hnotify :=
    (((d.autoEgress o).1.autoWanDlRules o).installWanDlQmiFilterNotify_installs o).failures
  apply sendsInstall_of_failures
  unfold beforeNotif at hok
  omega

theorem initDone_beforeNotif (d : DriverState) (o : AutoOutcome) :
    (d.beforeNotif o).autoIpacmInitDone = d.autoIpacmInitDone := by
  have hegress := (d.autoEgress_installs o).initDone
  have hrules := ((d.autoEgress o).1.autoWanDlRules_installs o).initDone
  have hnotify :=
    (((d.autoEgress o).1.autoWanDlRules o).installWanDlQmiFilterNotify_installs o).initDone
  exact hnotify.trans (hrules.trans hegress)

/-- What the table of channels has no part in. -/
structure KeepsWork (d d' : DriverState) : Prop where
  work : d'.autoIpacmInitWork = d.autoIpacmInitWork
  done : d'.autoIpacmInitDone = d.autoIpacmInitDone

theorem KeepsWork.refl (d : DriverState) : d.KeepsWork d := ⟨rfl, rfl⟩

theorem KeepsWork.trans {d d' d'' : DriverState} (h : d.KeepsWork d') (h' : d'.KeepsWork d'') :
    d.KeepsWork d'' :=
  ⟨h'.work.trans h.work, h'.done.trans h.done⟩

theorem addQmapHdr_keepsWork (d : DriverState) (index : Fin maxNumOfMuxChannel) (ok : Bool) :
    d.KeepsWork (d.addQmapHdr index ok).1 := by
  unfold addQmapHdr
  dsimp only
  split
  · exact KeepsWork.refl d
  split
  · exact ⟨rfl, rfl⟩
  · exact ⟨rfl, rfl⟩

theorem registerIntfExt_keepsWork (d : DriverState) (index : Fin maxNumOfMuxChannel)
    (o : RegisterOutcome) : d.KeepsWork (d.registerIntfExt index o).1 := by
  unfold registerIntfExt
  dsimp only
  split
  · exact ⟨rfl, rfl⟩
  · exact ⟨rfl, rfl⟩

theorem registerMuxEntry_keepsWork (d : DriverState) (index : Fin maxNumOfMuxChannel)
    (o : RegisterOutcome) : d.KeepsWork (d.registerMuxEntry index o).1 := by
  have hhdr := d.addQmapHdr_keepsWork index o.hdrOk
  unfold registerMuxEntry wwanRegisterToIpa
  dsimp only
  split
  · split
    · exact hhdr.trans (registerIntfExt_keepsWork _ index o)
    · exact hhdr
  · exact KeepsWork.refl d

/-- The channel is added where its entry can be registered. -/
theorem addMuxEntry_spec (d : DriverState) (muxId : ℕ) (name : IfName)
    (h : d.rmnetIndex.val < maxNumOfMuxChannel) (o : RegisterOutcome) :
    d.KeepsWork (d.addMuxEntry muxId name h o).1 ∧
      (d.addMuxEntry muxId name h o).2 = d.canRegister ⟨d.rmnetIndex.val, h⟩ o := by
  let index : Fin maxNumOfMuxChannel := ⟨d.rmnetIndex.val, h⟩
  have hcached : d.KeepsWork (d.cacheMuxEntry index muxId name) := ⟨rfl, rfl⟩
  have hregister := hcached.trans (registerMuxEntry_keepsWork _ index o)
  have hcan : ((d.cacheMuxEntry index muxId name).registerMuxEntry index o).2 =
      d.canRegister index o :=
    (registerMuxEntry_snd _ index o).trans (d.canRegister_cacheMuxEntry index muxId name o)
  unfold addMuxEntry
  dsimp only
  split
  · rename_i hadded
    exact ⟨⟨hregister.work, hregister.done⟩, hadded.symm.trans hcan⟩
  · exact ⟨hregister, hcan⟩

/-- Whether steps 2 and 3 succeed: the format can be set, and there is room for the channel,
which gets registered. -/
def ingressMuxOk (d : DriverState) (o : AutoOutcome) : Bool :=
  o.ingressOk && if h : d.rmnetIndex.val < maxNumOfMuxChannel then
    d.canRegister ⟨d.rmnetIndex.val, h⟩ o.register else false

/-- Work that is scheduled meanwhile stays so, and success sets the flag. -/
theorem autoIngressMux_spec (d : DriverState) (o : AutoOutcome) :
    (d.autoIngressMux o).autoIpacmInitWork = d.autoIpacmInitWork ∧
      (d.autoIngressMux o).autoIpacmInitDone =
        (d.autoIpacmInitDone || d.ingressMuxOk o) := by
  unfold autoIngressMux ingressMuxOk
  by_cases hingress : o.ingressOk = true
  · rw [if_neg (not_not.mpr hingress), hingress, Bool.true_and]
    by_cases h : d.rmnetIndex.val < maxNumOfMuxChannel
    · rw [dif_pos h, dif_pos h]
      obtain ⟨hkeeps, hadded⟩ := d.addMuxEntry_spec 1 qmapmux h o.register
      dsimp only
      rw [hadded]
      by_cases hcan : d.canRegister ⟨d.rmnetIndex.val, h⟩ o.register = true
      · rw [if_pos hcan, hcan, Bool.or_true]
        exact ⟨hkeeps.work, rfl⟩
      · rw [if_neg hcan, Bool.eq_false_of_not_eq_true hcan, Bool.or_false]
        exact ⟨hkeeps.work, hkeeps.done⟩
    · rw [dif_neg h, dif_neg h, Bool.or_false]
      exact ⟨rfl, rfl⟩
  · rw [if_pos hingress, Bool.eq_false_of_not_eq_true hingress, Bool.false_and, Bool.or_false]
    exact ⟨rfl, rfl⟩

theorem initWork_installedNotif (d : DriverState) (o : AutoOutcome) :
    (d.installWanDlQmiFilterInstalledNotif o).autoIpacmInitWork = d.autoIpacmInitWork := by
  unfold installWanDlQmiFilterInstalledNotif qmiFilterNotifySend
  repeat' split
  all_goals rfl

/-- Work that is scheduled while it runs is still scheduled when it ends. -/
theorem initWork_afterNotify (d : DriverState) (o : AutoOutcome) :
    (d.afterNotify o).autoIpacmInitWork = d.autoIpacmInitWork :=
  (autoIngressMux_spec _ o).1.trans (d.initWork_installedNotif o)

theorem Installs.ingressMuxOk {d d' : DriverState} {rs : List WanDlRule}
    {pending : FltTblKey → List FltRule} (h : d.Installs d' rs pending) (o : AutoOutcome) :
    d'.ingressMuxOk o = d.ingressMuxOk o := by
  have hindex := congrArg Fin.val h.rmnetIndex
  unfold DriverState.ingressMuxOk
  congr 1
  simp only [hindex, h.canRegister]

/-- The work sets the done flag at its end when its last two steps succeed. -/
theorem initDone_afterNotify (d : DriverState) (o : AutoOutcome) :
    (d.afterNotify o).autoIpacmInitDone = (d.autoIpacmInitDone || d.ingressMuxOk o) := by
  have hinst := installWanDlQmiFilterInstalledNotif_installs d o
  unfold afterNotify
  rw [(autoIngressMux_spec _ o).2, hinst.initDone, hinst.ingressMuxOk]

end DriverState

namespace ModemSystem

/-- A run of the work is in three parts, between which a modem may go down, come up or
complete its handshake. -/
def step (s : ModemSystem) : ModemAction → Option ModemSystem
  | .powerup =>
    if s.modemUp then none else some { s with modemUp := true }
  | .shutdown =>
    if s.modemUp then
      some { s with modemUp := false, handshook := false, installSent := false }
    else none
  | .q6HandshakeComplete =>
    if s.modemUp then
      some { s with driver := s.driver.q6HandshakeComplete, handshook := true }
    else none
  | .workBegin =>
    if s.work = .idle ∧ s.driver.autoIpacmInitWork then
      if s.driver.autoIpacmInitDone then
        some { s with driver := s.driver.takeWork, lastRunOk := true }
      -- without a netdev the work is put off
      else if ¬ s.driver.netdev then some { s with lastRunOk := true }
      else some { s with driver := s.driver.takeWork, work := .started }
    else none
  | .workNotify o =>
    -- only a modem that is up answers
    if s.work = .started ∧ (o.install = .accepted → s.modemUp) then
      if ¬ (s.driver.autoEgress o).2 then
        some { s with driver := (s.driver.autoEgress o).1, work := .idle, lastRunOk := false }
      else
        let rules := (s.driver.autoEgress o).1.autoWanDlRules o
        some { s with
          driver := s.driver.beforeNotif o
          work := .notified ((s.driver.beforeNotif o).failures = s.driver.failures)
          installSent := s.installSent || (s.modemUp && rules.sendsInstall o) }
    else none
  | .workEnd o =>
    match s.work with
    | .notified ok =>
      some { s with
        driver := s.driver.afterNotify o
        work := .idle
        lastRunOk := ok && (s.driver.afterNotify o).failures = s.driver.failures }
    | _ => none

/-- The modem that is up has its filter specs, once a run of the work without an error is
over. -/
def HandshakeKept (s : ModemSystem) : Prop :=
  s.modemUp = true → s.handshook = true → s.driver.autoIpacmInitWork = false →
    s.work = .idle → s.lastRunOk = true → s.installSent = true

/-- A modem that has not come up for the first time, and work that has not run. -/
structure Initial (s : ModemSystem) : Prop where
  handshook : s.handshook = false
  work : s.work = .idle
  initDone : s.driver.autoIpacmInitDone = false

/-- The modem goes down only while the done flag is not set, and the last two steps of a
run, which set the flag, do not succeed while the modem of now has not been sent
INSTALL_FILTER_RULE. -/
def KeepsFlag (s : ModemSystem) : ModemAction → Prop
  | .shutdown => s.driver.autoIpacmInitDone = false
  | .workEnd o => s.driver.ingressMuxOk o = true → s.installSent = true
  | _ => True

instance (s : ModemSystem) : ∀ a, Decidable (s.KeepsFlag a)
  | .powerup | .q6HandshakeComplete | .workBegin | .workNotify _ => isTrue trivial
  | .shutdown => inferInstanceAs (Decidable (_ = _))
  | .workEnd _ => inferInstanceAs (Decidable (_ = _ → _ = _))

/-- What a step does, by its action and by where the work has got. -/
inductive Stepped (s : ModemSystem) : ModemAction → ModemSystem → Prop
  | powerup (hdown : s.modemUp = false) : s.Stepped .powerup { s with modemUp := true }
  | shutdown (hup : s.modemUp = true) :
    s.Stepped .shutdown { s with modemUp := false, handshook := false, installSent := false }
  | handshake (hup : s.modemUp = true) :
    s.Stepped .q6HandshakeComplete
      { s with driver := s.driver.q6HandshakeComplete, handshook := true }
  | alreadyDone (hidle : s.work = .idle) (hdone : s.driver.autoIpacmInitDone = true) :
    s.Stepped .workBegin { s with driver := s.driver.takeWork, lastRunOk := true }
  | putOff (hidle : s.work = .idle) (hwork : s.driver.autoIpacmInitWork = true)
    (hdone : s.driver.autoIpacmInitDone = false) :
    s.Stepped .workBegin { s with lastRunOk := true }
  | started (hidle : s.work = .idle) (hdone : s.driver.autoIpacmInitDone = false) :
    s.Stepped .workBegin { s with driver := s.driver.takeWork, work := .started }
  | noPipe (o : AutoOutcome) (hstarted : s.work = .started) :
    s.Stepped (.workNotify o)
      { s with driver := (s.driver.autoEgress o).1, work := .idle, lastRunOk := false }
  | notified (o : AutoOutcome) (hstarted : s.work = .started)
    (hanswer : o.install = .accepted → s.modemUp = true) :
    s.Stepped (.workNotify o) { s with
      driver := s.driver.beforeNotif o
      work := .notified ((s.driver.beforeNotif o).failures = s.driver.failures)
      installSent := s.installSent ||
        (s.modemUp && ((s.driver.autoEgress o).1.autoWanDlRules o).sendsInstall o) }
  | ended (o : AutoOutcome) (ok : Bool) (hnotified : s.work = .notified ok) :
    s.Stepped (.workEnd o) { s with
      driver := s.driver.afterNotify o
      work := .idle
      lastRunOk := ok && (s.driver.afterNotify o).failures = s.driver.failures }

theorem stepped {s s' : ModemSystem} {a : ModemAction} (h : s.step a = some s') :
    s.Stepped a s' := by
  cases a with
  | powerup =>
    obtain ⟨hdown, h⟩ := Option.ite_none_left_eq_some.mp h
    cases h
    exact .powerup (Bool.eq_false_of_not_eq_true hdown)
  | shutdown =>
    obtain ⟨hup, h⟩ := Option.ite_none_right_eq_some.mp h
    cases h
    exact .shutdown hup
  | q6HandshakeComplete =>
    obtain ⟨hup, h⟩ := Option.ite_none_right_eq_some.mp h
    cases h
    exact .handshake hup
  | workBegin =>
    obtain ⟨⟨hidle, hwork⟩, h⟩ := Option.ite_none_right_eq_some.mp h
    by_cases hdone : s.driver.autoIpacmInitDone = true
    · rw [if_pos hdone] at h
      cases h
      exact .alreadyDone hidle hdone
    · rw [if_neg hdone] at h
      have hclear := Bool.eq_false_of_not_eq_true hdone
      split at h
      · cases h
        exact .putOff hidle hwork hclear
      · cases h
        exact .started hidle hclear
  | workNotify o =>
    obtain ⟨⟨hstarted, hanswer⟩, h⟩ := Option.ite_none_right_eq_some.mp h
    split at h
    · cases h
      exact .noPipe o hstarted
    · cases h
      exact .notified o hstarted hanswer
  | workEnd o =>
    unfold ModemSystem.step at h
    dsimp only at h
    split at h
    · rename_i ok hnotified
      cases h
      exact .ended o ok hnotified
    · cases h

section Work

variable {s : ModemSystem} {o : AutoOutcome}

theorem step_workBegin (hidle : s.work = .idle) (hwork : s.driver.autoIpacmInitWork = true) :
    s.step .workBegin = if s.driver.autoIpacmInitDone then
        some { s with driver := s.driver.takeWork, lastRunOk := true }
      else if ¬ s.driver.netdev then some { s with lastRunOk := true }
      else some { s with driver := s.driver.takeWork, work := .started } :=
  if_pos ⟨hidle, hwork⟩

theorem step_workNotify (hstarted : s.work = .started)
    (hanswer : o.install = .accepted → s.modemUp = true) :
    s.step (.workNotify o) = if ¬ (s.driver.autoEgress o).2 then
        some { s with driver := (s.driver.autoEgress o).1, work := .idle, lastRunOk := false }
      else some { s with
        driver := s.driver.beforeNotif o
        work := .notified ((s.driver.beforeNotif o).failures = s.driver.failures)
        installSent := s.installSent ||
          (s.modemUp && ((s.driver.autoEgress o).1.autoWanDlRules o).sendsInstall o) } :=
  if_pos ⟨hstarted, hanswer⟩

/-- The parts after the check are the sequence of the work. -/
theorem run_sequence (hstarted : s.work = .started)
    (hanswer : o.install = .accepted → s.modemUp = true) :
    ∃ as t, run step s as = some t ∧ t.work = .idle ∧ t.driver = s.driver.autoSequence o := by
  have hnotify := step_workNotify hstarted hanswer
  unfold DriverState.autoSequence
  by_cases hpipe : (s.driver.autoEgress o).2 = true
  · rw [if_neg (not_not.mpr hpipe)] at hnotify ⊢
    exact ⟨[.workNotify o, .workEnd o], _, run_cons_eq_some.mpr ⟨_, hnotify, rfl⟩, rfl, rfl⟩
  · rw [if_pos hpipe] at hnotify ⊢
    exact ⟨[.workNotify o], _, run_cons_eq_some.mpr ⟨_, hnotify, rfl⟩, rfl, rfl⟩

/-- The three parts of the work are the whole of it, when nothing comes between them. -/
theorem run_work (hidle : s.work = .idle) (hwork : s.driver.autoIpacmInitWork = true)
    (hanswer : o.install = .accepted → s.modemUp = true) :
    ∃ as t, run step s as = some t ∧ t.work = .idle ∧
      t.driver = s.driver.vendorAutoIpacmInitFn o := by
  have hbegin := step_workBegin hidle hwork
  unfold DriverState.vendorAutoIpacmInitFn
  by_cases hdone : s.driver.autoIpacmInitDone = true
  · rw [if_pos hdone] at hbegin ⊢
    exact ⟨[.workBegin], _, run_cons_eq_some.mpr ⟨_, hbegin, rfl⟩, hidle, rfl⟩
  · rw [if_neg hdone] at hbegin ⊢
    by_cases hdev : s.driver.netdev = true
    · rw [if_neg (not_not.mpr hdev)] at hbegin ⊢
      obtain ⟨as, t, hrun, hend, hdriver⟩ := run_sequence (o := o)
        (s := { s with driver := s.driver.takeWork, work := .started }) rfl hanswer
      exact ⟨.workBegin :: as, t, run_cons_eq_some.mpr ⟨_, hbegin, hrun⟩, hend, hdriver⟩
    · rw [if_pos hdev] at hbegin ⊢
      refine ⟨[.workBegin], _, run_cons_eq_some.mpr ⟨_, hbegin, rfl⟩, hidle, ?_⟩
      rw [← hwork]

end Work

/-- Only the last part of the work sets the flag. -/
def FlagAtEnd (s : ModemSystem) : Prop :=
  s.work ≠ .idle → s.driver.autoIpacmInitDone = false

/-- The flag stands for the modem of now. -/
def FlagCurrent (s : ModemSystem) : Prop :=
  s.driver.autoIpacmInitDone = true → s.installSent = true

/-- What a part of the work has to show for itself: its requests have been sent, or it is
due again, or a call has failed. -/
def Accounted (s : ModemSystem) (ok : Bool) : Prop :=
  s.driver.autoIpacmInitWork = true ∨ s.installSent = true ∨ ok = false

/-- A modem that has completed its handshake is not forgotten by the work. -/
def Served (s : ModemSystem) : Prop :=
  s.handshook = true →
    match s.work with
    | .idle => s.Accounted s.lastRunOk
    | .started => True
    | .notified ok => s.Accounted ok

theorem FlagAtEnd.step {s s' : ModemSystem} {a : ModemAction} (hs : s.FlagAtEnd)
    (h : s.step a = some s') : s'.FlagAtEnd := by
  cases stepped h with
  | powerup => exact hs
  | shutdown => exact hs
  | handshake => exact hs
  | alreadyDone => exact hs
  | putOff => exact hs
  | started _ hdone => exact fun _ => hdone
  | noPipe => exact fun hne => absurd rfl hne
  | notified o hstarted =>
    intro _
    have hclear : s.driver.autoIpacmInitDone = false := hs (by rw [hstarted]; decide)
    exact (s.driver.initDone_beforeNotif o).trans hclear
  | ended => exact fun hne => absurd rfl hne

/-- The condition on a step says that the flag is current after it. -/
theorem keepsFlag_iff {s s' : ModemSystem} {a : ModemAction} (hs : s.FlagAtEnd)
    (hflag : s.FlagCurrent) (h : s.step a = some s') : s.KeepsFlag a ↔ s'.FlagCurrent := by
  -- most steps ask for nothing and change neither the flag nor the history
  have htrue {P : Prop} (hP : P) : True ↔ P := ⟨fun _ => hP, fun _ => trivial⟩
  cases stepped h with
  | powerup => exact htrue hflag
  | shutdown =>
    constructor
    · intro hclear hdone
      exact absurd (hclear.symm.trans hdone) Bool.false_ne_true
    · intro hcurrent
      apply Bool.eq_false_of_not_eq_true
      intro hdone
      exact absurd (hcurrent hdone) Bool.false_ne_true
  | handshake => exact htrue hflag
  | alreadyDone => exact htrue hflag
  | putOff => exact htrue hflag
  | started => exact htrue hflag
  | noPipe o hstarted =>
    have hclear : s.driver.autoIpacmInitDone = false := hs (by rw [hstarted]; decide)
    have hegress := (s.driver.autoEgress_installs o).initDone
    apply htrue
    intro hdone
    exact absurd ((hegress.trans hclear).symm.trans hdone) Bool.false_ne_true
  | notified o hstarted =>
    have hclear : s.driver.autoIpacmInitDone = false := hs (by rw [hstarted]; decide)
    have hnotify := s.driver.initDone_beforeNotif o
    apply htrue
    intro hdone
    exact absurd ((hnotify.trans hclear).symm.trans hdone) Bool.false_ne_true
  | ended o ok hnotified =>
    have hclear : s.driver.autoIpacmInitDone = false := hs (by rw [hnotified]; simp)
    have hset := s.driver.initDone_afterNotify o
    rw [hclear, Bool.false_or] at hset
    show (s.driver.ingressMuxOk o = true → s.installSent = true) ↔
      ((s.driver.afterNotify o).autoIpacmInitDone = true → s.installSent = true)
    rw [hset]

theorem Served.step {s s' : ModemSystem} {a : ModemAction} (hs : s.Served)
    (hflag : s.FlagCurrent) (h : s.step a = some s') : s'.Served := by
  cases stepped h with
  | powerup => exact hs
  | shutdown =>
    intro hshook
    cases hshook
  | handshake hup =>
    intro _
    -- the handshake schedules the work unless the flag is set
    have haccounted (ok : Bool) : Accounted
        { s with driver := s.driver.q6HandshakeComplete, handshook := true } ok := by
      by_cases hdone : s.driver.autoIpacmInitDone = true
      · exact Or.inr (Or.inl (hflag hdone))
      · left
        have hclear := Bool.eq_false_of_not_eq_true hdone
        show (s.driver.autoIpacmInitWork || !s.driver.autoIpacmInitDone) = true
        rw [hclear, Bool.not_false, Bool.or_true]
    dsimp only
    split
    · exact haccounted _
    · trivial
    · exact haccounted _
  | alreadyDone hidle hdone =>
    intro _
    dsimp only
    rw [hidle]
    exact Or.inr (Or.inl (hflag hdone))
  | putOff hidle hwork =>
    intro _
    dsimp only
    rw [hidle]
    exact Or.inl hwork
  | started => exact fun _ => trivial
  | noPipe => exact fun _ => Or.inr (Or.inr rfl)
  | notified o hstarted hanswer =>
    intro _
    right
    by_cases hok : (s.driver.beforeNotif o).failures = s.driver.failures
    · left
      obtain ⟨hsent, haccepted⟩ := DriverState.sendsInstall_of_beforeNotif hok
      dsimp only
      rw [hsent, hanswer haccepted, Bool.and_true, Bool.or_true]
    · exact Or.inr (decide_eq_false hok)
  | ended o ok hnotified =>
    intro hshook
    have hbefore := hs hshook
    rw [hnotified] at hbefore
    rcases hbefore with hwork | hsent | hfailed
    · exact Or.inl ((s.driver.initWork_afterNotify o).trans hwork)
    · exact Or.inr (Or.inl hsent)
    · right
      right
      dsimp only
      rw [hfailed, Bool.false_and]

theorem Served.handshakeKept {s : ModemSystem} (hs : s.Served) : s.HandshakeKept := by
  intro _ hshook hwork hidle hok
  have haccounted := hs hshook
  rw [hidle] at haccounted
  rcases haccounted with hdue | hsent | hfailed
  · exact absurd (hwork.symm.trans hdue) Bool.false_ne_true
  · exact hsent
  · exact absurd (hfailed.symm.trans hok) Bool.false_ne_true

/-- The invariant of a run that keeps the flag with its modem. -/
structure Inv (s : ModemSystem) : Prop where
  flagAtEnd : s.FlagAtEnd
  flagCurrent : s.FlagCurrent
  served : s.Served

theorem Initial.inv {s : ModemSystem} (hinit : s.Initial) : s.Inv := by
  refine ⟨fun _ => hinit.initDone, ?_, ?_⟩
  · intro hdone
    exact absurd (hinit.initDone.symm.trans hdone) Bool.false_ne_true
  · intro hshook
    exact absurd (hinit.handshook.symm.trans hshook) Bool.false_ne_true

theorem Inv.step {s s' : ModemSystem} {a : ModemAction} (hs : s.Inv) (ha : s.KeepsFlag a)
    (h : s.step a = some s') : s'.Inv :=
  ⟨hs.flagAtEnd.step h, (keepsFlag_iff hs.flagAtEnd hs.flagCurrent h).mp ha,
    hs.served.step hs.flagCurrent h⟩

/-- Each run that keeps the flag with its modem, however the work and the modem take
turns in it, ends with the handshake done. -/
theorem handshakeKept_of_keepsFlag {s t : ModemSystem} {as : List ModemAction}
    (hinit : s.Initial) (hrun : run step s as = some t) (hkeeps : Guarded step KeepsFlag s as) :
    t.HandshakeKept := by
  have hinv : t.Inv :=
    Guarded.inv (fun _ _ _ hs ha h => Inv.step hs ha h) hkeeps hrun hinit.inv
  exact hinv.served.handshakeKept

/-- A driver that has found the modem for the first time. -/
def coldBoot : ModemSystem where
  driver := DriverState.atHandshake [DriverState.q6Wildcard]
  modemUp := false
  handshook := false
  work := .idle
  lastRunOk := false
  installSent := false

theorem coldBoot_initial : coldBoot.Initial := ⟨rfl, rfl, rfl⟩

def firstBoot : List ModemAction :=
  [.powerup, .q6HandshakeComplete, .workBegin, .workNotify {}, .workEnd {}]

/-- The modem restarts while the first run of the work is under way, and that run does not
get to the flag. The next one is for the new incarnation. -/
def restartDuringWork : List ModemAction :=
  [.powerup, .q6HandshakeComplete, .workBegin, .workNotify {}, .shutdown, .powerup,
    .q6HandshakeComplete, .workEnd { ingressOk := false }, .workBegin, .workNotify {},
    .workEnd {}]

theorem handshakeKept_restartDuringWork : ∃ t, run step coldBoot restartDuringWork = some t ∧
    t.driver.autoIpacmInitDone = true ∧ t.lastRunOk = true ∧ t.HandshakeKept := by
  have hkeeps : Guarded step KeepsFlag coldBoot restartDuringWork := by decide
  exact ⟨_, rfl, rfl, by decide, handshakeKept_of_keepsFlag coldBoot_initial rfl hkeeps⟩

/-- The modem restarts once, and its new incarnation is not sent the request. -/
theorem not_handshakeKept_restart : ∃ t, run step coldBoot
    (firstBoot ++ [.shutdown, .powerup, .q6HandshakeComplete]) = some t ∧
      ¬ t.HandshakeKept := by
  refine ⟨_, rfl, ?_⟩
  intro hkept
  have hsent := hkept rfl rfl (by decide) rfl (by decide)
  cases hsent

/-- A run is one that keeps the flag with its modem exactly when the flag is current at
each of its points. -/
theorem keepsFlag_iff_always {s t : ModemSystem} {as : List ModemAction} (hinit : s.Initial)
    (hrun : run step s as = some t) :
    Guarded step KeepsFlag s as ↔
      ∀ pre post u, as = pre ++ post → run step s pre = some u → u.FlagCurrent :=
  have hstep : ∀ s a s', FlagAtEnd s → step s a = some s' → FlagAtEnd s' :=
    fun _ _ _ hs h => hs.step h
  guarded_iff_always hstep (fun _ _ _ hs hflag h => keepsFlag_iff hs hflag h) hrun
    hinit.inv.flagAtEnd hinit.inv.flagCurrent

/-- A flag that is not current stays so: no later incarnation is sent the request. -/
theorem not_flagCurrent_of_run {s t : ModemSystem} {as : List ModemAction}
    (hrun : run step s as = some t) (hs : s.FlagAtEnd) (hlost : ¬ s.FlagCurrent) :
    ¬ t.FlagCurrent := by
  have hstep : ∀ s a s', FlagAtEnd s ∧ ¬ FlagCurrent s → step s a = some s' →
      FlagAtEnd s' ∧ ¬ FlagCurrent s' := by
    rintro s a s' ⟨hend, hlost⟩ h
    refine ⟨hend.step h, ?_⟩
    have hdone : s.driver.autoIpacmInitDone = true := by
      by_contra hclear
      exact hlost fun hdone => absurd hdone hclear
    -- the flag is set, so no part of the work beyond the check can be under way
    have hidle : s.work = .idle := by
      by_contra hne
      exact absurd ((hend hne).symm.trans hdone) Bool.false_ne_true
    cases stepped h with
    | powerup => exact hlost
    | shutdown =>
      intro hcurrent
      exact absurd (hcurrent hdone) Bool.false_ne_true
    | handshake => exact hlost
    | alreadyDone => exact hlost
    | putOff => exact hlost
    | started _ hclear => exact absurd (hclear.symm.trans hdone) Bool.false_ne_true
    | noPipe o hstarted => exact absurd (hidle.symm.trans hstarted) (by decide)
    | notified o hstarted => exact absurd (hidle.symm.trans hstarted) (by decide)
    | ended o ok hnotified => exact absurd (hidle.symm.trans hnotified) (by simp)
  exact (run_inv hstep hrun ⟨hs, hlost⟩).2

end ModemSystem
end X00TDCellular
