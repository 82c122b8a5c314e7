import Mathlib.Logic.Function.Iterate
import X00TDCellular.TxPipe

/-! A stall kick after a lost end-of-transfer interrupt: what the handler and the worker
it starts do when they are alone with the pipe. -/

namespace X00TDCellular
open Transition

/-- The steps of handlers and of the worker; the others are the hardware, new packets and
new kicks. -/
def TxAction.harvests : TxAction → Prop
  | .handler _ | .startWork | .startSwitchWork | .worker => True
  | _ => False

namespace TxState

/-- Which of these steps can be taken. -/
theorem harvests_cases {s : TxState} {a : TxAction} (ha : a.harvests) (h : s.step a ≠ none) :
    (∃ i, a = .handler i ∧ i < s.handlers.length) ∨
      (a = .startWork ∧ s.worker = .idle ∧ s.workPending) ∨
      (a = .startSwitchWork ∧ s.worker = .idle ∧ s.switchPending) ∨
      (a = .worker ∧ s.worker ≠ .idle) := by
  obtain ⟨s', hs'⟩ := Option.ne_none_iff_exists'.mp h
  cases a with
  | handler i =>
    obtain ⟨_, hi, _⟩ := step_handler hs'
    exact Or.inl ⟨i, rfl, (List.getElem?_eq_some_iff.mp hi).1⟩
  | startWork =>
    obtain ⟨hcond, _⟩ := Option.ite_none_right_eq_some.mp hs'
    exact Or.inr (Or.inl ⟨rfl, hcond⟩)
  | startSwitchWork =>
    obtain ⟨hcond, _⟩ := Option.ite_none_right_eq_some.mp hs'
    exact Or.inr (Or.inr (Or.inl ⟨rfl, hcond⟩))
  | worker =>
    refine Or.inr (Or.inr (Or.inr ⟨rfl, fun hidle => h ?_⟩))
    simp only [step, workerStep, hidle]
  | kick => exact ha.elim
  | eotIrq => exact ha.elim
  | complete => exact ha.elim
  | xmit _ => exact ha.elim
  | transfer _ => exact ha.elim
  | inc _ => exact ha.elim

/-- Runs in which there is no choice. -/
abbrev Forces (s : TxState) (as : List TxAction) (t : TxState) : Prop :=
  Forced step TxAction.harvests s as t

theorem forces_handler {s : TxState} {hd : Handler} (hhandlers : s.handlers = [hd])
    (hidle : s.worker = .idle) (hwork : s.workPending = false)
    (hswitch : s.switchPending = false) : s.Forces [.handler 0] (s.handlerStep 0 hd) := by
  refine .cons trivial ?_ ?_ (.nil _)
  · simp only [step, hhandlers, List.getElem?_cons_zero, Option.map_some]
  · intro b hb h
    rcases harvests_cases hb h with ⟨i, rfl, hi⟩ | ⟨_, _, hpend⟩ | ⟨_, _, hpend⟩ | ⟨_, hbusy⟩
    · rw [hhandlers, List.length_singleton, Nat.lt_one_iff] at hi
      rw [hi]
    · exact absurd hpend (by simp [hwork])
    · exact absurd hpend (by simp [hswitch])
    · exact absurd hidle hbusy

theorem forces_startWork {s : TxState} (hhandlers : s.handlers = []) (hidle : s.worker = .idle)
    (hwork : s.workPending = true) (hswitch : s.switchPending = false) :
    s.Forces [.startWork] { s with workPending := false }.handleTx := by
  refine .cons trivial ?_ ?_ (.nil _)
  · exact if_pos ⟨hidle, hwork⟩
  · intro b hb h
    rcases harvests_cases hb h with ⟨_, _, hi⟩ | ⟨rfl, _⟩ | ⟨_, _, hpend⟩ | ⟨_, hbusy⟩
    · exact absurd hi (by simp [hhandlers])
    · rfl
    · exact absurd hpend (by simp [hswitch])
    · exact absurd hidle hbusy

theorem forces_worker {s s' : TxState} (hhandlers : s.handlers = [])
    (hstep : s.workerStep = some s') : s.Forces [.worker] s' := by
  have hbusy : s.worker ≠ .idle := by
    intro hidle
    simp only [workerStep, hidle] at hstep
    cases hstep
  refine .cons trivial hstep ?_ (.nil _)
  intro b hb h
  rcases harvests_cases hb h with ⟨_, _, hi⟩ | ⟨_, hidle, _⟩ | ⟨_, hidle, _⟩ | ⟨rfl, _⟩
  · exact absurd hi (by simp [hhandlers])
  · exact absurd hidle hbusy
  · exact absurd hidle hbusy
  · rfl

/-- Nothing to do: no handler, no work queued, no worker. -/
structure AtRest (s : TxState) : Prop where
  quiescent : s.Quiescent
  workPending : s.workPending = false
  switchPending : s.switchPending = false

theorem AtRest.step_eq_none {s : TxState} (hs : s.AtRest) (a : TxAction) (ha : a.harvests) :
    s.step a = none := by
  by_contra h
  obtain ⟨hhandlers, hidle⟩ := hs.quiescent
  rcases harvests_cases ha h with ⟨_, _, hi⟩ | ⟨_, _, hpend⟩ | ⟨_, _, hpend⟩ | ⟨_, hbusy⟩
  · exact absurd hi (by simp [hhandlers])
  · exact absurd hpend (by simp [hs.workPending])
  · exact absurd hpend (by simp [hs.switchPending])
  · exact hbusy hidle

/-- The pipe where `ipa2_tx_dp_kick_stalled_pipe` leaves it. -/
def armed (s : TxState) : TxState :=
  { s with
    mode := .poll
    currPollingState := true
    workPending := true
    kickResults := s.kickResults ++ [1] }

/-- The pipe during the kick. -/
def kicked (s : TxState) (pc : HandlerPc) (mode : PipeMode) (flag : Bool) : TxState :=
  { s with
    mode := mode
    currPollingState := flag
    handlers := [⟨.kick, pc⟩]
    activeClients := s.activeClients+1 }

theorem forces_kicked {s t : TxState} (hs : s.AtRest) {pc : HandlerPc} {mode : PipeMode}
    {flag : Bool} (ht : (s.kicked pc mode flag).handlerStep 0 ⟨.kick, pc⟩ = t) :
    (s.kicked pc mode flag).Forces [.handler 0] t := by
  rw [← ht]
  exact forces_handler rfl hs.quiescent.2 hs.workPending hs.switchPending

/-- The kick finds the flag clear and goes through all of its steps. -/
theorem forces_kick {s : TxState} (hs : s.AtRest) :
    (s.kicked .readFlag s.mode false).Forces
      [.handler 0, .handler 0, .handler 0, .handler 0] s.armed := by
  have hread : (s.kicked .readFlag s.mode false).Forces [.handler 0]
      (s.kicked .setConfig s.mode false) := forces_kicked hs rfl
  have hconfig : (s.kicked .setConfig s.mode false).Forces [.handler 0]
      (s.kicked .setFlag .poll false) := forces_kicked hs rfl
  have hset : (s.kicked .setFlag .poll false).Forces [.handler 0]
      (s.kicked .queueWork .poll true) := forces_kicked hs rfl
  have hqueue : (s.kicked .queueWork .poll true).Forces [.handler 0] s.armed := by
    apply forces_kicked hs
    -- the handler leaves, and with it its vote
    have hvotes : s.activeClients+1-1 = s.activeClients := Int.add_sub_cancel _ _
    simp only [handlerStep, finish, kicked, armed, List.eraseIdx_zero, List.tail_cons, hvotes,
      hs.quiescent.1]
  exact ((hread.append hconfig).append hset).append hqueue

section Harvest

variable {s : TxState}

/-- The pipe after `taken` descriptors and `called` callbacks of the harvest loop. -/
def harvested (s : TxState) (taken called : ℕ) (pc : WorkerPc) : TxState :=
  { s with
    fifo := s.fifo.drop taken
    completed := s.completed-taken
    headDescList := s.headDescList.drop taken
    callbacks := s.callbacks ++ s.headDescList.take called
    dev := txCompleteNotify^[called] s.dev
    worker := pc }

/-- One descriptor: the flag, `sps_get_iovec`, the callback. -/
theorem forces_callback (hhandlers : s.handlers = []) (hflag : s.currPollingState = true)
    (hlen : s.completed ≤ s.headDescList.length) {j : ℕ} (hj : j < s.completed) (inactive : ℕ) :
    (s.harvested j j (.readFlag (.poll inactive) j)).Forces [.worker, .worker, .worker]
      (s.harvested (j+1) (j+1) (.readFlag (.poll inactive) (j+1))) := by
  have hpkt : j < s.headDescList.length := by omega
  have hleft : s.completed-j ≠ 0 := by omega
  have hread : (s.harvested j j (.readFlag (.poll inactive) j)).Forces [.worker]
      (s.harvested j j (.getIovec (.poll inactive) j)) := by
    refine forces_worker hhandlers ?_
    exact if_pos hflag
  have hiovec : (s.harvested j j (.getIovec (.poll inactive) j)).Forces [.worker]
      (s.harvested (j+1) j (.callback (.poll inactive) j s.headDescList[j])) := by
    refine forces_worker hhandlers ?_
    simp only [workerStep, getIovec, harvested, List.drop_eq_getElem_cons hpkt, List.tail_drop,
      if_neg hleft, Nat.sub_sub]
  have hcallback : (s.harvested (j+1) j (.callback (.poll inactive) j s.headDescList[j])).Forces
      [.worker] (s.harvested (j+1) (j+1) (.readFlag (.poll inactive) (j+1))) := by
    refine forces_worker hhandlers ?_
    simp only [workerStep, harvested, Function.iterate_succ_apply', List.append_assoc,
      List.take_append_getElem hpkt]
  exact (hread.append hiovec).append hcallback

/-- The completed descriptors, one after the other. -/
theorem forces_harvest (hhandlers : s.handlers = []) (hflag : s.currPollingState = true)
    (hlen : s.completed ≤ s.headDescList.length) (inactive : ℕ) :
    ∃ as, (s.harvested 0 0 (.readFlag (.poll inactive) 0)).Forces as
      (s.harvested s.completed s.completed (.readFlag (.poll inactive) s.completed)) := by
  have hloop := Forced.iterate (A := TxAction.harvests)
    (I := fun j => s.harvested j j (.readFlag (.poll inactive) j)) s.completed
    fun j hj => forces_callback hhandlers hflag hlen hj inactive
  exact ⟨_, hloop⟩

def workerAt (s : TxState) (pc : WorkerPc) : TxState := { s with worker := pc }

/-- A call that finds nothing more returns what it has counted. -/
theorem forces_return (hhandlers : s.handlers = []) (hflag : s.currPollingState = true)
    (hdone : s.completed = 0) (inactive cnt : ℕ) :
    (s.workerAt (.readFlag (.poll inactive) cnt)).Forces [.worker, .worker]
      (s.workerAt (pollNext inactive cnt)) := by
  have hread : (s.workerAt (.readFlag (.poll inactive) cnt)).Forces [.worker]
      (s.workerAt (.getIovec (.poll inactive) cnt)) := by
    refine forces_worker hhandlers ?_
    exact if_pos hflag
  have hiovec : (s.workerAt (.getIovec (.poll inactive) cnt)).Forces [.worker]
      (s.workerAt (pollNext inactive cnt)) := by
    refine forces_worker hhandlers ?_
    simp only [workerStep, getIovec, workerAt, hdone, if_true, coreReturn]
  exact hread.append hiovec

/-- The idle cycles, and then the switch. -/
theorem forces_idleCycles (hhandlers : s.handlers = []) (hflag : s.currPollingState = true)
    (hdone : s.completed = 0) :
    ∃ as, (s.workerAt (.readFlag (.poll 0) 0)).Forces as (s.workerAt .switchRead) := by
  have hcycle : ∀ j, (s.workerAt (.readFlag (.poll j) 0)).Forces [.worker, .worker]
      (s.workerAt (pollNext j 0)) := fun j => forces_return hhandlers hflag hdone j 0
  have hloop := Forced.iterate (A := TxAction.harvests)
    (I := fun j => s.workerAt (.readFlag (.poll j) 0)) pollingInactivityTx fun j hj => by
      have hnext : pollNext j 0 = .readFlag (.poll (j+1)) 0 := if_pos hj
      exact hnext ▸ hcycle j
  exact ⟨_, hloop.append (hcycle pollingInactivityTx)⟩

/-- The pipe where the worker leaves it. -/
def rearmed (s : TxState) : TxState :=
  { s with
    mode := .eot
    currPollingState := false
    worker := .idle
    activeClients := s.activeClients-1 }

/-- Back to interrupts, and one more look at the pipe. -/
theorem forces_switch (hhandlers : s.handlers = []) (hflag : s.currPollingState = true)
    (hdone : s.completed = 0) :
    (s.workerAt .switchRead).Forces [.worker, .worker, .worker, .worker, .worker] s.rearmed := by
  have hread : (s.workerAt .switchRead).Forces [.worker] (s.workerAt .switchConfig) := by
    refine forces_worker hhandlers ?_
    exact if_pos hflag
  have hconfig : (s.workerAt .switchConfig).Forces [.worker]
      { s with mode := .eot, worker := .switchClear } := by
    refine forces_worker ?_ rfl
    exact hhandlers
  have hclear : Forces { s with mode := .eot, worker := .switchClear } [.worker]
      { s with mode := .eot, currPollingState := false, worker := .readFlag .intr 0 } := by
    refine forces_worker ?_ rfl
    exact hhandlers
  have hlook : Forces
      { s with mode := .eot, currPollingState := false, worker := .readFlag .intr 0 } [.worker]
      { s with mode := .eot, currPollingState := false, worker := .getIovec .intr 0 } := by
    refine forces_worker ?_ rfl
    exact hhandlers
  have hleave : Forces
      { s with mode := .eot, currPollingState := false, worker := .getIovec .intr 0 } [.worker]
      s.rearmed := by
    refine forces_worker ?_ ?_
    · exact hhandlers
    · simp only [workerStep, getIovec, hdone, if_true, coreReturn, rearmed]
  exact (((hread.append hconfig).append hclear).append hlook).append hleave

end Harvest

section Recovery

/-- A stall with the oldest `completed` packets done by the hardware, and no interrupt for
them. -/
structure Stalled (s : TxState) : Prop where
  atRest : s.AtRest
  flag : s.currPollingState = false
  queueStopped : s.dev.queueStopped = true
  isSsr : s.dev.isSsr = false
  /-- each packet has one descriptor -/
  descriptors : s.fifo = s.headDescList
  completed : s.completed ≤ s.headDescList.length
  outstanding : s.dev.outstandingPkts = s.headDescList.length

/-- What the recovery of `s` comes to. -/
structure Recovered (s t : TxState) : Prop where
  kick : t.kickResults = s.kickResults ++ [1]
  callbacks : t.callbacks = s.callbacks ++ s.headDescList.take s.completed
  left : t.headDescList = s.headDescList.drop s.completed ∧ t.fifo = t.headDescList
  outstanding : t.dev.outstandingPkts = s.headDescList.length-s.completed
  awake : t.dev.queueStopped = false ↔
    1 ≤ s.completed ∧ (s.headDescList.length : ℤ)-s.completed < outstandingLow
  fails : 1 ≤ s.completed → t.dev.txStallFails = 0
  mode : t.mode = .eot ∧ t.currPollingState = false
  votes : t.activeClients = s.activeClients
  atRest : t.AtRest

/-- The worker starts on what the kick has armed. -/
def polling (s : TxState) : TxState :=
  { s.armed with workPending := false, activeClients := s.activeClients+1 }

/-- The pipe after the harvest and the switch back. -/
def recovered (s : TxState) : TxState :=
  (s.polling.harvested s.completed s.completed .idle).rearmed

theorem forces_recovered {s : TxState} (hs : s.Stalled) :
    ∃ as, (s.kicked .readFlag s.mode false).Forces as s.recovered := by
  obtain ⟨⟨hhandlers, hidle⟩, hwork, hswitch⟩ := hs.atRest
  have hstart : s.armed.Forces [.startWork]
      (s.polling.harvested 0 0 (.readFlag (.poll 0) 0)) := by
    have h := forces_startWork (s := s.armed) hhandlers hidle rfl hswitch
    have hsame : (s.polling.harvested 0 0 (.readFlag (.poll 0) 0)) =
        { s.armed with workPending := false }.handleTx := by
      simp [harvested, polling, handleTx, armed]
    rw [hsame]
    exact h
  obtain ⟨as, hharvest⟩ := forces_harvest (s := s.polling) hhandlers rfl hs.completed 0
  -- what is left of the harvest does not depend on where the worker is
  have hdone : (s.polling.harvested s.completed s.completed .idle).completed = 0 :=
    Nat.sub_self s.completed
  have hreturn : ∃ bs, (s.polling.harvested s.completed s.completed
      (.readFlag (.poll 0) s.completed)).Forces bs
      (s.polling.harvested s.completed s.completed (.readFlag (.poll 0) 0)) := by
    rcases Nat.eq_zero_or_pos s.completed with hzero | hpos
    · rw [hzero]
      exact ⟨[], .nil _⟩
    · have hnext : pollNext 0 s.completed = .readFlag (.poll 0) 0 := by
        simp only [pollNext, if_neg (Nat.pos_iff_ne_zero.mp hpos), Nat.zero_le, if_true]
      have h := forces_return (s := s.polling.harvested s.completed s.completed .idle)
        hhandlers rfl hdone 0 s.completed
      rw [hnext] at h
      exact ⟨_, h⟩
  obtain ⟨bs, hreturn⟩ := hreturn
  obtain ⟨cs, hcycles⟩ := forces_idleCycles
    (s := s.polling.harvested s.completed s.completed .idle) hhandlers rfl hdone
  have hback := forces_switch
    (s := s.polling.harvested s.completed s.completed .idle) hhandlers rfl hdone
  exact ⟨_, (forces_kick hs.atRest).append <| hstart.append <| hharvest.append <|
    hreturn.append <| hcycles.append hback⟩

theorem recovered_of_stalled {s : TxState} (hs : s.Stalled) : Recovered s s.recovered := by
  obtain ⟨⟨hhandlers, _⟩, _, hswitch⟩ := hs.atRest
  have hdev : s.recovered.dev = txCompleteNotify^[s.completed] s.dev := rfl
  rw [iterate_txCompleteNotify hs.isSsr] at hdev
  refine ⟨rfl, rfl, ⟨rfl, ?_⟩, ?_, ?_, ?_, ⟨rfl, rfl⟩, ?_, ⟨⟨hhandlers, rfl⟩, rfl, hswitch⟩⟩
  · show s.fifo.drop s.completed = s.headDescList.drop s.completed
    rw [hs.descriptors]
  · rw [hdev, ← hs.outstanding]
  · rw [hdev, ← hs.outstanding]
    simp [hs.queueStopped]
    omega
  · intro hpos
    rw [hdev]
    exact if_neg (Nat.pos_iff_ne_zero.mp hpos)
  · exact Int.add_sub_cancel _ _

/-- A stall kick brings a pipe back that has lost its interrupt: there is one way on from it,
and it ends in the recovered pipe. -/
theorem lostEot_recovers {s : TxState} (hs : s.Stalled) :
    ∃ as t, (∀ a ∈ as, a.harvests) ∧ run step s (.kick :: as) = some t ∧ Recovered s t ∧
      ∀ bs u, (∀ b ∈ bs, b.harvests) → run step s (.kick :: bs) = some u → bs <+: as := by
  obtain ⟨as, hforces⟩ := forces_recovered hs
  have hkick : s.step .kick = some (s.kicked .readFlag s.mode false) := by
    simp only [step, kicked, hs.atRest.quiescent.1, hs.flag, List.nil_append]
  refine ⟨as, s.recovered, hforces.forall_mem, ?_, recovered_of_stalled hs, ?_⟩
  · exact run_cons_eq_some.mpr ⟨_, hkick, hforces.run_eq⟩
  · intro bs u hbs hrun
    obtain ⟨s', hs', hrun'⟩ := run_cons_eq_some.mp hrun
    obtain rfl := Option.some.inj (hkick.symm.trans hs')
    exact hforces.isPrefix (recovered_of_stalled hs).atRest.step_eq_none hbs hrun'

/-- Three packets out, and the interrupt of the first two lost. -/
def lostEot : TxState :=
  { idleTxState with
    fifo := [0, 1, 2]
    headDescList := [0, 1, 2]
    completed := 2
    accepted := 3
    dev := ⟨3, true, false, 7, 3⟩ }

theorem lostEot_recovers_twoOfThree :
    ∃ as t, run step lostEot (.kick :: as) = some t ∧ t.callbacks = [0, 1] ∧
      t.dev.outstandingPkts = 1 ∧ t.dev.queueStopped = false := by
  have hs : lostEot.Stalled :=
    ⟨⟨⟨rfl, rfl⟩, rfl, rfl⟩, rfl, rfl, rfl, rfl, by decide, rfl⟩
  obtain ⟨as, t, _, hrun, hrec, _⟩ := lostEot_recovers hs
  exact ⟨as, t, hrun, hrec.callbacks, hrec.outstanding, hrec.awake.mpr (by decide)⟩

end Recovery

end TxState
end X00TDCellular
