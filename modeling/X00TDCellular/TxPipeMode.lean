import Mathlib.Data.List.InsertIdx
import X00TDCellular.TxPipe

namespace X00TDCellular
open Transition

/-- The worker runs and has yet to clear the flag. -/
def WorkerPc.beforeClear : WorkerPc → Bool
  | .readFlag (.poll _) _ => true
  | .getIovec (.poll _) _ => true
  | .callback (.poll _) _ _ => true
  | .switchRead => true
  | .switchConfig => true
  | .switchClear => true
  | _ => false

namespace TxState

def pcs (s : TxState) : List HandlerPc := s.handlers.map Handler.pc

/-- Some handler has seen the flag clear and has yet to set it. -/
def committed (s : TxState) : Prop := .setConfig ∈ s.pcs ∨ .setFlag ∈ s.pcs

instance (s : TxState) : Decidable s.committed :=
  inferInstanceAs (Decidable (_ ∨ _))

/-- The flag is set only in POLL mode, or where the worker is going to clear it or
another handler to configure POLL; it is cleared only in EOT mode, or where a
handler is going to set it. -/
def ModeGuard (s : TxState) : TxAction → Prop
  | .handler i => s.pcs[i]? = some .setFlag →
      s.mode = .poll ∨ s.worker.beforeClear ∨ .setConfig ∈ s.pcs
  | .worker => s.worker = .switchClear → s.mode = .eot ∨ s.committed
  | _ => True

instance (s : TxState) : ∀ a, Decidable (s.ModeGuard a)
  | .handler _ => inferInstanceAs (Decidable (_ → _))
  | .worker => inferInstanceAs (Decidable (_ → _))
  | .kick | .eotIrq | .startWork | .startSwitchWork | .complete => isTrue trivial
  | .xmit _ | .transfer _ | .inc _ => isTrue trivial

/-- Where the flag and the pipe mode disagree, an agent in flight has a step ahead
that settles it; while the flag is set, a harvest is on its way. -/
structure ModeInv (s : TxState) : Prop where
  polling : s.currPollingState = true →
    s.mode = .poll ∨ s.worker.beforeClear ∨ s.committed
  interrupt : s.currPollingState = false → s.mode = .eot ∨ s.committed
  armed : s.currPollingState = true →
    (s.workPending ∨ s.switchPending) ∨ s.worker.beforeClear ∨ s.worker = .switchFail ∨
      .queueWork ∈ s.pcs

@[simp] theorem pcs_setPc (s : TxState) (i : ℕ) (h : Handler) (pc : HandlerPc) :
    (s.setPc i h pc).pcs = s.pcs.set i pc := by
  simp [setPc, pcs, List.map_set]

@[simp] theorem pcs_finish (s : TxState) (i : ℕ) (h : Handler) (ret : ℤ) :
    (s.finish i h ret).pcs = s.pcs.eraseIdx i := by
  unfold finish pcs
  cases h.kind <;> simp [List.eraseIdx_map]

/-- The fields of the handshake, the worker's position apart. -/
structure SameHandshake (s s' : TxState) : Prop where
  flag : s'.currPollingState = s.currPollingState
  mode : s'.mode = s.mode
  pcs : s'.pcs = s.pcs
  work : s'.workPending = s.workPending
  switch : s'.switchPending = s.switchPending

/-- Those fields, to compare them at once. -/
def handshake (s : TxState) :=
  (s.currPollingState, s.mode, s.pcs, s.workPending, s.switchPending)

theorem SameHandshake.of_eq {s s' : TxState} (h : s'.handshake = s.handshake) :
    SameHandshake s s' := by
  simp only [handshake, Prod.mk.injEq] at h
  obtain ⟨hflag, hmode, hpcs, hwork, hswitch⟩ := h
  exact ⟨hflag, hmode, hpcs, hwork, hswitch⟩

theorem sameHandshake_coreReturn (s : TxState) (call : CoreCall) (cnt : ℕ) :
    SameHandshake s (s.coreReturn call cnt) := by
  cases call <;> exact .of_eq rfl

theorem sameHandshake_getIovec (s : TxState) (call : CoreCall) (cnt : ℕ) :
    SameHandshake s (s.getIovec call cnt) := by
  unfold getIovec
  split
  · exact sameHandshake_coreReturn s call cnt
  · dsimp only
    split
    all_goals exact .of_eq rfl

theorem sameHandshake_finish (s : TxState) (i : ℕ) (h : Handler) (ret : ℤ) :
    (s.finish i h ret).currPollingState = s.currPollingState ∧
      (s.finish i h ret).mode = s.mode ∧ (s.finish i h ret).workPending = s.workPending ∧
      (s.finish i h ret).switchPending = s.switchPending ∧
      (s.finish i h ret).worker = s.worker := by
  unfold finish
  cases h.kind <;> exact ⟨rfl, rfl, rfl, rfl, rfl⟩

theorem beforeClear_coreReturn (s : TxState) (inactive cnt : ℕ) :
    (s.coreReturn (.poll inactive) cnt).worker.beforeClear = true := by
  show (pollNext inactive cnt).beforeClear = true
  rcases pollNext_cases inactive cnt with ⟨cycles, h⟩ | h
  · rw [h]
    rfl
  · rw [h]
    rfl

theorem beforeClear_getIovec (s : TxState) (inactive cnt : ℕ) :
    (s.getIovec (.poll inactive) cnt).worker.beforeClear = true := by
  unfold getIovec
  split
  · exact beforeClear_coreReturn s inactive cnt
  · dsimp only
    split <;> rfl

/-- Where the flag and the mode stay as they are, the invariant holds as long as no
agent in flight drops the step it has ahead. -/
theorem ModeInv.frame {s s' : TxState} (hs : ModeInv s)
    (hflag : s'.currPollingState = s.currPollingState) (hmode : s'.mode = s.mode)
    (hcommitted : s.committed → s'.committed)
    (hclear : s.currPollingState = true → s.worker.beforeClear → s'.worker.beforeClear)
    (hpending : s.workPending ∨ s.switchPending → s'.workPending ∨ s'.switchPending)
    (harmed : s.worker = .switchFail ∨ .queueWork ∈ s.pcs →
      (s'.workPending ∨ s'.switchPending) ∨ s'.worker = .switchFail ∨ .queueWork ∈ s'.pcs) :
    ModeInv s' := by
  constructor
  · intro hf
    rw [hflag] at hf
    rw [hmode]
    exact (hs.polling hf).imp_right (Or.imp (hclear hf) hcommitted)
  · intro hf
    rw [hflag] at hf
    rw [hmode]
    exact (hs.interrupt hf).imp_right hcommitted
  · intro hf
    rw [hflag] at hf
    rcases hs.armed hf with hp | hb | hrest
    · exact Or.inl (hpending hp)
    · exact Or.inr (Or.inl (hclear hf hb))
    · exact (harmed hrest).imp_right Or.inr

/-- A step that leaves the handshake alone keeps the invariant as long as the
worker does not get past its clear with the flag set. -/
theorem ModeInv.of_same {s s' : TxState} (hs : ModeInv s) (h : SameHandshake s s')
    (hclear : s.currPollingState = true → s.worker.beforeClear → s'.worker.beforeClear)
    (hfail : s.worker = .switchFail → s'.worker = .switchFail) : ModeInv s' := by
  apply hs.frame h.flag h.mode _ hclear
  · intro hp
    rwa [h.work, h.switch]
  · intro hrest
    rw [h.pcs]
    exact Or.inr (hrest.imp_left hfail)
  · intro hc
    rwa [committed, h.pcs]

theorem ModeInv.workerStep {s s' : TxState} (hs : ModeInv s)
    (hg : s.worker = .switchClear → s.mode = .eot ∨ s.committed)
    (hstep : s.workerStep = some s') : ModeInv s' := by
  unfold TxState.workerStep at hstep
  split at hstep
  case h_1 hw => cases hstep
  case h_2 call cnt hw =>
    -- the loop condition: what the flag says is where the worker goes
    split at hstep
    · cases hstep
      refine hs.of_same (.of_eq rfl) ?_ (by simp [hw])
      intro _ hb
      rw [hw] at hb
      cases call with
      | poll inactive => rfl
      | intr => cases hb
    · cases hstep
      refine hs.of_same (sameHandshake_coreReturn s call cnt) ?_ (by simp [hw])
      intro _ hb
      rw [hw] at hb
      cases call with
      | poll inactive => exact beforeClear_coreReturn s inactive cnt
      | intr => cases hb
  case h_3 call cnt hw =>
    cases hstep
    refine hs.of_same (sameHandshake_getIovec s call cnt) ?_ (by simp [hw])
    intro _ hb
    rw [hw] at hb
    cases call with
    | poll inactive => exact beforeClear_getIovec s inactive cnt
    | intr => cases hb
  case h_4 call cnt pkt hw =>
    cases hstep
    refine hs.of_same (.of_eq rfl) ?_ (by simp [hw])
    intro _ hb
    rw [hw] at hb
    cases call with
    | poll inactive => rfl
    | intr => cases hb
  case h_5 hw =>
    split at hstep
    · cases hstep
      exact hs.of_same (.of_eq rfl) (fun _ _ => rfl) (by simp [hw])
    · rename_i hflag
      cases hstep
      exact hs.of_same (.of_eq rfl) (fun hf _ => absurd hf hflag) (fun _ => rfl)
  case h_6 hw =>
    -- EOT is configured, the clear is still ahead
    cases hstep
    exact ⟨fun _ => Or.inr (Or.inl rfl), fun _ => Or.inl rfl, fun _ => Or.inr (Or.inl rfl)⟩
  case h_7 hw =>
    cases hstep
    constructor
    · intro hflag
      cases hflag
    · intro _
      exact hg hw
    · intro hflag
      cases hflag
  case h_8 hw =>
    -- the delayed work is queued in place of the worker
    cases hstep
    refine ⟨fun hf => ?_, hs.interrupt, fun _ => Or.inl (Or.inr rfl)⟩
    rcases hs.polling hf with hm | hb | hc
    · exact Or.inl hm
    · rw [hw] at hb
      cases hb
    · exact Or.inr (Or.inr hc)

/-- A handler that leaves had nothing ahead, or has queued the work. -/
theorem ModeInv.leave {s : TxState} {i : ℕ} {h : Handler} (hs : ModeInv s)
    (hpc : s.pcs[i]? = some h.pc) (hconfig : .setConfig ≠ h.pc) (hset : .setFlag ≠ h.pc)
    (hqueue : .queueWork = h.pc → s.workPending = true) (ret : ℤ) :
    ModeInv (s.finish i h ret) := by
  obtain ⟨hf, hm, hw, hsw, hwk⟩ := sameHandshake_finish s i h ret
  have hkept {pc : HandlerPc} (hne : pc ≠ h.pc) (hin : pc ∈ s.pcs) :
      pc ∈ (s.finish i h ret).pcs := by
    rw [pcs_finish]
    exact mem_eraseIdx_of_ne hpc hin hne
  apply hs.frame hf hm
  · exact Or.imp (hkept hconfig) (hkept hset)
  · intro _ hb
    rwa [hwk]
  · intro hp
    rwa [hw, hsw]
  · rw [hw, hsw, hwk]
    rintro (hfail | hq)
    · exact Or.inr (Or.inl hfail)
    · by_cases hown : .queueWork = h.pc
      · exact Or.inl (Or.inl (hqueue hown))
      · exact Or.inr (Or.inr (hkept hown hq))

theorem ModeInv.handlerStep {s : TxState} {i : ℕ} {h : Handler} (hs : ModeInv s)
    (hi : s.handlers[i]? = some h)
    (hg : h.pc = .setFlag → s.mode = .poll ∨ s.worker.beforeClear ∨ .setConfig ∈ s.pcs) :
    ModeInv (s.handlerStep i h) := by
  have hpc : s.pcs[i]? = some h.pc := by
    rw [pcs, List.getElem?_map, hi]
    rfl
  unfold TxState.handlerStep
  split
  case h_1 hr =>
    split
    · -- the handler found the flag set and returns
      apply hs.leave hpc
      · rw [hr]
        decide
      · rw [hr]
        decide
      · intro hq
        rw [hr] at hq
        cases hq
    · -- the flag was clear: the handler is committed
      rename_i hflag
      have hnew : HandlerPc.setConfig ∈ (s.setPc i h .setConfig).pcs := by
        rw [pcs_setPc]
        exact mem_set_self hpc
      constructor
      · intro hf
        exact absurd hf hflag
      · intro _
        exact Or.inr (Or.inl hnew)
      · intro hf
        exact absurd hf hflag
  case h_2 hr =>
    rw [hr] at hpc
    have hnew : HandlerPc.setFlag ∈ ({ s with mode := .poll }.setPc i h .setFlag).pcs := by
      rw [pcs_setPc]
      exact mem_set_self hpc
    constructor
    · intro _
      exact Or.inl rfl
    · intro _
      exact Or.inr (Or.inr hnew)
    · intro hf
      rw [pcs_setPc]
      rcases hs.armed hf with hp | hb | hfl | hq
      · exact Or.inl hp
      · exact Or.inr (Or.inl hb)
      · exact Or.inr (Or.inr (Or.inl hfl))
      · exact Or.inr (Or.inr (Or.inr (mem_set_of_ne hpc hq (by decide))))
  case h_3 hr =>
    -- the guarded step: the mode is POLL or somebody still settles it
    rw [hr] at hpc
    have hnew : HandlerPc.queueWork ∈
        ({ s with currPollingState := true }.setPc i h .queueWork).pcs := by
      rw [pcs_setPc]
      exact mem_set_self hpc
    constructor
    · intro _
      rw [committed, pcs_setPc]
      rcases hg hr with hm | hb | hc
      · exact Or.inl hm
      · exact Or.inr (Or.inl hb)
      · exact Or.inr (Or.inr (Or.inl (mem_set_of_ne hpc hc (by decide))))
    · intro hf
      cases hf
    · intro _
      exact Or.inr (Or.inr (Or.inr hnew))
  case h_4 hr =>
    -- the work is queued first, then the handler leaves
    have hqueued : ModeInv { s with workPending := true } :=
      ⟨hs.polling, hs.interrupt, fun _ => Or.inl (Or.inl rfl)⟩
    apply hqueued.leave hpc
    · rw [hr]
      decide
    · rw [hr]
      decide
    · exact fun _ => rfl

/-- A kick or an interrupt that enters has read nothing yet. -/
theorem ModeInv.enter {s s' : TxState} (hs : ModeInv s)
    (hflag : s'.currPollingState = s.currPollingState) (hmode : s'.mode = s.mode)
    (hwork : s'.workPending = s.workPending) (hswitch : s'.switchPending = s.switchPending)
    (hworker : s'.worker = s.worker) (hpcs : s'.pcs = s.pcs ++ [.readFlag]) :
    ModeInv s' := by
  have hin (pc : HandlerPc) (h : pc ∈ s.pcs) : pc ∈ s'.pcs := by
    rw [hpcs]
    exact List.mem_append_left _ h
  apply hs.frame hflag hmode
  · exact Or.imp (hin _) (hin _)
  · intro _ hb
    rwa [hworker]
  · intro hp
    rwa [hwork, hswitch]
  · intro hrest
    rw [hworker]
    exact Or.inr (hrest.imp_right (hin _))

/-- The workqueue hands an item to the idle worker. -/
theorem ModeInv.handleTx {s s' : TxState} (hs : ModeInv s)
    (hflag : s'.currPollingState = s.currPollingState) (hmode : s'.mode = s.mode)
    (hpcs : s'.pcs = s.pcs) (hworker : s'.worker = .readFlag (.poll 0) 0) : ModeInv s' := by
  have hbusy : s'.worker.beforeClear = true := by rw [hworker]; rfl
  constructor
  · intro _
    exact Or.inr (Or.inl hbusy)
  · intro hf
    rw [hflag] at hf
    rw [hmode, committed, hpcs]
    exact hs.interrupt hf
  · intro _
    exact Or.inr (Or.inl hbusy)

theorem ModeInv.step (s : TxState) (a : TxAction) (s' : TxState) (hs : ModeInv s)
    (hg : s.ModeGuard a) (hstep : s.step a = some s') : ModeInv s' := by
  have hsame {t : TxState} (h : SameHandshake s t) (hw : t.worker = s.worker) : ModeInv t := by
    refine hs.of_same h ?_ ?_
    · intro _ hb
      rwa [hw]
    · intro hf
      rwa [hw]
  cases a with
  | kick =>
    cases hstep
    exact hs.enter rfl rfl rfl rfl rfl (List.map_append ..)
  | eotIrq =>
    cases hstep
    exact hs.enter rfl rfl rfl rfl rfl (List.map_append ..)
  | handler i =>
    obtain ⟨h, hi, rfl⟩ := step_handler hstep
    apply hs.handlerStep hi
    intro hpc
    apply hg
    rw [pcs, List.getElem?_map, hi, ← hpc]
    rfl
  | startWork =>
    obtain ⟨_, rfl⟩ := step_startWork hstep
    exact hs.handleTx rfl rfl rfl rfl
  | startSwitchWork =>
    obtain ⟨_, rfl⟩ := step_startSwitchWork hstep
    exact hs.handleTx rfl rfl rfl rfl
  | worker => exact hs.workerStep hg hstep
  -- the rest are steps of the transmitter and of the hardware
  | complete =>
    obtain ⟨_, rfl⟩ := step_complete hstep
    exact hsame (.of_eq rfl) rfl
  | xmit rm =>
    cases hstep
    unfold TxState.xmit
    split
    all_goals exact hsame (.of_eq rfl) rfl
  | transfer ok =>
    rw [step_transfer hstep]
    cases ok <;> exact hsame (.of_eq rfl) rfl
  | inc pkt =>
    obtain ⟨_, rfl⟩ := step_inc hstep
    exact hsame (.of_eq rfl) rfl

/-- The flag is clear, the pipe in EOT mode and nobody in its steps. -/
structure ModeInitial (s : TxState) : Prop where
  flag : s.currPollingState = false
  mode : s.mode = .eot
  quiescent : s.Quiescent

instance (s : TxState) : Decidable s.ModeInitial :=
  decidable_of_iff (s.currPollingState = false ∧ s.mode = .eot ∧ s.Quiescent)
    ⟨fun h => ⟨h.1, h.2.1, h.2.2⟩, fun h => ⟨h.flag, h.mode, h.quiescent⟩⟩

theorem ModeInitial.inv {s : TxState} (h : s.ModeInitial) : ModeInv s := by
  have hfalse : ¬ s.currPollingState = true := by
    rw [h.flag]
    decide
  constructor
  · intro hf
    exact absurd hf hfalse
  · intro _
    exact Or.inl h.mode
  · intro hf
    exact absurd hf hfalse

/-- What the completion handshake is for: with the flag clear the next completion
raises an interrupt, with the flag set a harvest is pending. -/
def Agrees (s : TxState) : Prop :=
  (s.currPollingState = false → s.mode = .eot) ∧
    (s.currPollingState = true → s.mode = .poll ∧ (s.workPending ∨ s.switchPending))

instance (s : TxState) : Decidable s.Agrees :=
  inferInstanceAs (Decidable (_ ∧ _))

theorem ModeInv.agrees {s : TxState} (hs : ModeInv s) (hq : s.Quiescent) : s.Agrees := by
  obtain ⟨hnone, hidle⟩ := hq
  have hpcs : s.pcs = [] := by rw [pcs, hnone, List.map_nil]
  have hcommitted : ¬ s.committed := by simp [committed, hpcs]
  have hclear : ¬ s.worker.beforeClear = true := by simp [hidle, WorkerPc.beforeClear]
  constructor
  · intro hf
    exact (hs.interrupt hf).resolve_right hcommitted
  · intro hf
    have hmode := (hs.polling hf).resolve_right (not_or.mpr ⟨hclear, hcommitted⟩)
    refine ⟨hmode, (hs.armed hf).resolve_right ?_⟩
    simp [hidle, hpcs, WorkerPc.beforeClear]

end TxState

open TxState

/-- Along an interleaving whose flag updates are guarded, flag, pipe mode and
pending harvest agree wherever nobody is part-way through its steps. -/
theorem kick_eot_worker_agree (s t : TxState) (as : List TxAction) (hs : s.ModeInitial)
    (hg : Guarded TxState.step ModeGuard s as) (hrun : run TxState.step s as = some t)
    (hq : t.Quiescent) : t.Agrees :=
  (hg.inv ModeInv.step hrun hs.inv).agrees hq

/-- The kick has read the flag clear when an interrupt runs its four steps and the
worker harvests for 41 idle cycles and configures EOT. The kick then configures
POLL, sets the flag and queues the work before the worker clears the flag. -/
def kickDuringSwitch : List TxAction :=
  [.kick, .handler 0, .eotIrq, .handler 1, .handler 1, .handler 1, .handler 1, .startWork] ++
    List.replicate 84 .worker ++ [.handler 0, .handler 0, .handler 0] ++
    List.replicate 3 .worker

theorem kick_eot_worker_disagree :
    ¬ ∀ (s t : TxState) (as : List TxAction), s.ModeInitial →
      run TxState.step s as = some t → t.Quiescent → t.Agrees := by
  intro h
  let t : TxState := { idleTxState with mode := .poll, workPending := true, kickResults := [1] }
  have hrun : run TxState.step idleTxState kickDuringSwitch = some t := by decide +kernel
  have hagree := h idleTxState t kickDuringSwitch (by decide) hrun (by decide)
  -- the flag is clear and the pipe stays in POLL mode
  exact absurd hagree (by decide)

/-- A packet completes while a kick and an interrupt take turns: both read the flag clear,
the interrupt arms the worker, and the kick sets the flag again and queues the work while the
worker polls. The worker switches to interrupts and is started once more by the kick. -/
def kickBesideInterrupt : List TxAction :=
  [.xmit .granted, .transfer true, .kick, .handler 0, .complete, .inc 0, .eotIrq, .handler 1,
    .handler 1, .handler 1, .handler 0, .handler 1, .startWork] ++
    List.replicate 20 .worker ++ [.handler 0, .handler 0] ++ List.replicate 72 .worker ++
    [.startWork] ++ List.replicate 43 .worker

theorem kick_eot_worker_agree_besideInterrupt :
    ∃ t, run TxState.step idleTxState kickBesideInterrupt = some t ∧ t.callbacks = [0] ∧
      t.kickResults = [1] ∧ t.Quiescent ∧ t.Agrees := by
  have hend : (run TxState.step idleTxState kickBesideInterrupt).map
      (fun t => (t.callbacks, t.kickResults, decide t.Quiescent)) = some ([0], [1], true) := by
    decide +kernel
  obtain ⟨t, hrun, hfields⟩ := Option.map_eq_some_iff.mp hend
  obtain ⟨hcallbacks, hrest⟩ := Prod.mk.inj hfields
  obtain ⟨hresults, hquiet⟩ := Prod.mk.inj hrest
  have hq : t.Quiescent := of_decide_eq_true hquiet
  have hg : Guarded TxState.step ModeGuard idleTxState kickBesideInterrupt := by decide +kernel
  exact ⟨t, hrun, hcallbacks, hresults, hq,
    kick_eot_worker_agree idleTxState t kickBesideInterrupt (by decide) hg hrun hq⟩

end X00TDCellular
