import X00TDCellular.VendorInitRat
import X00TDCellular.VendorInitSockets

/-! What the account of the sockets says about the calls of a run. -/

namespace X00TDCellular
namespace VendorInit
open EnvProgram EnvProgram.Prog EnvProgram.Monitor

section Traces

/-- The socket that a call uses, or closes. -/
def Call.uses : Call → Option ℤ
  | .qrtrLookup fd _ => some fd
  | .qrtrTxn fd _ _ _ _ => some fd
  | .close fd => some fd
  | _ => none

/-- The socket of a message of the bearer, and the message. -/
def Call.bearerMsg : Call → Option (ℤ × MsgId)
  | .qrtrTxn fd _ req _ _ => if req.msg.onBearer then some (fd, req.msg) else none
  | _ => none

/-- The sockets that have been opened and not closed. -/
def openAfter (tr : Trace) : List ℤ := (tr.foldl Sockets.next {}).isOpen

def openings (fd : ℤ) (tr : Trace) : ℕ :=
  tr.countP fun e => match e with
    | ⟨.qrtrOpen, fd'⟩ => 0 ≤ fd' ∧ fd' = fd
    | _ => false

def closings (fd : ℤ) (tr : Trace) : ℕ :=
  tr.countP fun e => match e with
    | ⟨.close fd', _⟩ => fd' = fd
    | _ => false

/-- The life of the sockets in a run up to some point. -/
structure LifeCycle (tr : Trace) : Prop where
  /-- what is looked up on, sent on or closed is open -/
  uses : ∀ pre e post, tr = pre ++ e :: post → ∀ fd ∈ e.call.uses, fd ∈ openAfter pre
  /-- as many closings as openings, but for what is open -/
  closed : ∀ fd, openings fd tr = closings fd tr + (openAfter tr).count fd
  /-- all messages of the bearer are sent on one socket -/
  oneBearer : ∀ e ∈ tr, ∀ e' ∈ tr, ∀ m ∈ e.call.bearerMsg, ∀ m' ∈ e'.call.bearerMsg, m.1 = m'.1
  /-- nothing is done after its socket is closed -/
  held : ∀ pre e post, tr = pre ++ e :: post → ∀ fd, e.call = .close fd →
    (∃ e' ∈ pre, ∃ m ∈ e'.call.bearerMsg, m.1 = fd) → post = []

/-- The other messages of the bearer are sent on a socket on which BIND_MUX was sent. -/
def BindFirst (tr : Trace) : Prop :=
  ∀ pre e post, tr = pre ++ e :: post → ∀ m ∈ e.call.bearerMsg, m.2 ≠ .bindMux →
    ∃ e' ∈ pre, e'.call.bearerMsg = some (m.1, .bindMux)

variable {numMuxes : ℤ} {tr : Trace}

theorem openings_concat (fd : ℤ) (tr : Trace) (e : Event Call Answer) :
    openings fd (tr ++ [e]) = openings fd tr + openings fd [e] := List.countP_append

theorem closings_concat (fd : ℤ) (tr : Trace) (e : Event Call Answer) :
    closings fd (tr ++ [e]) = closings fd tr + closings fd [e] := List.countP_append

/-- One call and the number of times that a descriptor is open. -/
theorem count_next {s : Sockets} {e : Event Call Answer} (hmay : s.may numMuxes e.call)
    (fd : ℤ) : s.isOpen.count fd + openings fd [e] =
      closings fd [e] + (s.next e).isOpen.count fd := by
  obtain ⟨c, r⟩ := e
  cases c with
  | qrtrOpen =>
    have hopen : openings fd [⟨.qrtrOpen, r⟩] = if 0 ≤ r ∧ r = fd then 1 else 0 := by
      simp [openings, List.countP_cons]
    have hclose : closings fd [⟨.qrtrOpen, r⟩] = 0 := rfl
    have hnext : s.next ⟨.qrtrOpen, r⟩ = if 0 ≤ r then s.opened r else s := rfl
    rw [hopen, hclose, hnext, Nat.zero_add]
    by_cases hpos : 0 ≤ r
    · rw [if_pos hpos]
      by_cases heq : r = fd
      · rw [if_pos ⟨hpos, heq⟩, heq]
        exact List.count_cons_self.symm
      · rw [if_neg (fun h => heq h.2)]
        exact (List.count_cons_of_ne heq).symm
    · rw [if_neg (fun h => hpos h.1), if_neg hpos]
      rfl
  | close fd' =>
    have hopen : openings fd [⟨.close fd', r⟩] = 0 := rfl
    have hclose : closings fd [⟨.close fd', r⟩] = if fd' = fd then 1 else 0 := by
      simp [closings, List.countP_cons]
    have hnext : (s.next ⟨.close fd', r⟩).isOpen = s.isOpen.erase fd' := rfl
    rw [hopen, hclose, hnext, Nat.add_zero]
    by_cases heq : fd' = fd
    · have hmem : fd ∈ s.isOpen := heq ▸ hmay.2
      have hpos : 0 < s.isOpen.count fd := List.count_pos_iff.mpr hmem
      rw [if_pos heq, heq, List.count_erase_self]
      omega
    · rw [if_neg heq, List.count_erase_of_ne (Ne.symm heq), Nat.zero_add]
  | qrtrTxn fd' port req respSz timeoutMs =>
    have hopen : openings fd [⟨.qrtrTxn fd' port req respSz timeoutMs, r⟩] = 0 := rfl
    have hclose : closings fd [⟨.qrtrTxn fd' port req respSz timeoutMs, r⟩] = 0 := rfl
    have hnext : (s.next ⟨.qrtrTxn fd' port req respSz timeoutMs, r⟩).isOpen = s.isOpen := by
      unfold Sockets.next
      dsimp only
      split
      · rfl
      · rfl
    rw [hopen, hclose, hnext, Nat.zero_add, Nat.add_zero]
  | qrtrLookup => exact (Nat.zero_add _).symm
  | writeFile => exact (Nat.zero_add _).symm
  | system => exact (Nat.zero_add _).symm
  | tryWrite => exact (Nat.zero_add _).symm
  | lteRounds => exact (Nat.zero_add _).symm
  | gStop => exact (Nat.zero_add _).symm
  | pause => exact (Nat.zero_add _).symm

theorem openings_eq (h : (sockets numMuxes).Obeyed {} tr) (fd : ℤ) :
    openings fd tr = closings fd tr + (openAfter tr).count fd := by
  refine Obeyed.induction (P := fun tr => openings fd tr =
    closings fd tr + (openAfter tr).count fd) rfl ?_ h
  intro tr e _ hmay ih
  have hstep := count_next hmay fd
  have hafter : openAfter (tr ++ [e]) =
      (((sockets numMuxes).after {} tr).next e).isOpen :=
    congrArg Sockets.isOpen ((sockets numMuxes).after_concat {} tr e)
  have hopen : openAfter tr = ((sockets numMuxes).after {} tr).isOpen := rfl
  rw [hopen] at ih
  rw [openings_concat, closings_concat, hafter]
  omega

theorem uses_open {s : Sockets} {c : Call} (hmay : s.may numMuxes c) :
    ∀ fd ∈ c.uses, fd ∈ s.isOpen := by
  intro fd hfd
  obtain ⟨_, hcall⟩ := hmay
  cases c with
  | qrtrLookup fd' svc =>
    cases hfd
    exact hcall
  | qrtrTxn fd' port req respSz timeoutMs =>
    cases hfd
    exact hcall.1
  | close fd' =>
    cases hfd
    exact hcall
  | qrtrOpen => cases hfd
  | writeFile => cases hfd
  | system => cases hfd
  | tryWrite => cases hfd
  | lteRounds => cases hfd
  | gStop => cases hfd
  | pause => cases hfd

/-- What a message of the bearer does to the account, and what it could count on. -/
theorem next_of_bearerMsg {s : Sockets} {e : Event Call Answer} {m : ℤ × MsgId}
    (hmay : s.may numMuxes e.call) (hm : e.call.bearerMsg = some m) :
    (s.bearer = none ∨ s.bearer = some m.1) ∧
      (m.2 = .bindMux ∧ 0 < numMuxes ∨ m.2 ≠ .bindMux ∧ (s.bound = true ∨ numMuxes ≤ 0)) ∧
      (s.next e).bearer = some m.1 := by
  obtain ⟨c, r⟩ := e
  cases c with
  | qrtrTxn fd port req respSz timeoutMs =>
    obtain ⟨hon, heq⟩ := Option.ite_none_right_eq_some.mp hm
    cases heq
    obtain ⟨hbearer, hbound⟩ := hmay.2.2 hon
    refine ⟨hbearer, hbound, ?_⟩
    have hnext : s.next ⟨.qrtrTxn fd port req respSz timeoutMs, r⟩ =
        { s with bearer := some fd, bound := s.bound || req.msg = .bindMux } := if_pos hon
    rw [hnext]
  | qrtrOpen => cases hm
  | qrtrLookup => cases hm
  | close => cases hm
  | writeFile => cases hm
  | system => cases hm
  | tryWrite => cases hm
  | lteRounds => cases hm
  | gStop => cases hm
  | pause => cases hm

/-- Any other call leaves that part of the account as it is. -/
theorem next_of_not_bearerMsg {s : Sockets} {e : Event Call Answer}
    (hm : e.call.bearerMsg = none) :
    (s.next e).bearer = s.bearer ∧ (s.next e).bound = s.bound := by
  obtain ⟨c, r⟩ := e
  cases c with
  | qrtrTxn fd port req respSz timeoutMs =>
    have hoff : ¬ req.msg.onBearer = true := fun hon => by
      have hsome : (Call.qrtrTxn fd port req respSz timeoutMs).bearerMsg = some (fd, req.msg) :=
        if_pos hon
      rw [hsome] at hm
      cases hm
    have hnext : s.next ⟨.qrtrTxn fd port req respSz timeoutMs, r⟩ = s := if_neg hoff
    rw [hnext]
    exact ⟨rfl, rfl⟩
  | qrtrOpen =>
    have hnext : s.next ⟨.qrtrOpen, r⟩ = if 0 ≤ r then s.opened r else s := rfl
    rw [hnext]
    split
    · exact ⟨rfl, rfl⟩
    · exact ⟨rfl, rfl⟩
  | qrtrLookup => exact ⟨rfl, rfl⟩
  | close => exact ⟨rfl, rfl⟩
  | writeFile => exact ⟨rfl, rfl⟩
  | system => exact ⟨rfl, rfl⟩
  | tryWrite => exact ⟨rfl, rfl⟩
  | lteRounds => exact ⟨rfl, rfl⟩
  | gStop => exact ⟨rfl, rfl⟩
  | pause => exact ⟨rfl, rfl⟩

/-- The account has the socket that the messages of the bearer have been sent on. -/
theorem bearer_after (h : (sockets numMuxes).Obeyed {} tr) :
    ∀ e ∈ tr, ∀ m ∈ e.call.bearerMsg, ((sockets numMuxes).after {} tr).bearer = some m.1 := by
  refine Obeyed.induction (P := fun tr => ∀ e ∈ tr, ∀ m ∈ e.call.bearerMsg,
    ((sockets numMuxes).after {} tr).bearer = some m.1) ?_ ?_ h
  · intro e he
    cases he
  intro tr e _ hmay ih e' he' m hm
  rw [(sockets numMuxes).after_concat]
  show (((sockets numMuxes).after {} tr).next e).bearer = some m.1
  rcases List.mem_append.mp he' with hbefore | hlast
  · have hold := ih e' hbefore m hm
    cases hlastMsg : e.call.bearerMsg with
    | none => rw [(next_of_not_bearerMsg hlastMsg).1, hold]
    | some m' =>
      obtain ⟨hbearer, _, hnew⟩ := next_of_bearerMsg hmay hlastMsg
      rcases hbearer with hnone | hsame
      · rw [hnone] at hold
        cases hold
      · rw [hnew, ← hsame, hold]
  · rw [List.mem_singleton.mp hlast] at hm
    exact (next_of_bearerMsg hmay hm).2.2

/-- What `bound` stands for. -/
theorem bind_of_bound (h : (sockets numMuxes).Obeyed {} tr)
    (hbound : ((sockets numMuxes).after {} tr).bound = true) :
    ∃ e ∈ tr, ∃ fd, e.call.bearerMsg = some (fd, .bindMux) := by
  revert hbound
  refine Obeyed.induction (P := fun tr => ((sockets numMuxes).after {} tr).bound = true →
    ∃ e ∈ tr, ∃ fd, e.call.bearerMsg = some (fd, .bindMux)) ?_ ?_ h
  · intro hbound
    cases hbound
  intro tr e _ _ ih hbound
  have hearlier (hbefore : ((sockets numMuxes).after {} tr).bound = true) :
      ∃ e' ∈ tr ++ [e], ∃ fd, e'.call.bearerMsg = some (fd, .bindMux) := by
    obtain ⟨e', he', hmsg⟩ := ih hbefore
    exact ⟨e', List.mem_append_left _ he', hmsg⟩
  rw [(sockets numMuxes).after_concat] at hbound
  have hbound' : (((sockets numMuxes).after {} tr).next e).bound = true := hbound
  cases hmsg : e.call.bearerMsg with
  | none =>
    rw [(next_of_not_bearerMsg hmsg).2] at hbound'
    exact hearlier hbound'
  | some m =>
    obtain ⟨c, r⟩ := e
    cases c with
    | qrtrTxn fd port req respSz timeoutMs =>
      obtain ⟨hon, heq⟩ := Option.ite_none_right_eq_some.mp hmsg
      have hnext : ((sockets numMuxes).after {} tr).next
          ⟨.qrtrTxn fd port req respSz timeoutMs, r⟩ =
        { (sockets numMuxes).after {} tr with
          bearer := some fd
          bound := ((sockets numMuxes).after {} tr).bound || req.msg = .bindMux } := if_pos hon
      rw [hnext] at hbound'
      rcases Bool.or_eq_true_iff.mp hbound' with hbefore | hnow
      · exact hearlier hbefore
      · refine ⟨_, List.mem_append_right _ (List.mem_singleton_self _), fd, ?_⟩
        rw [hmsg, ← heq, of_decide_eq_true hnow]
    | qrtrOpen => cases hmsg
    | qrtrLookup => cases hmsg
    | close => cases hmsg
    | writeFile => cases hmsg
    | system => cases hmsg
    | tryWrite => cases hmsg
    | lteRounds => cases hmsg
    | gStop => cases hmsg
    | pause => cases hmsg

/-- A run whose account is in order has the life of its sockets in order. -/
theorem lifeCycle_of_obeyed (h : (sockets numMuxes).Obeyed {} tr) : LifeCycle tr := by
  refine ⟨?_, openings_eq h, ?_, ?_⟩
  · rintro pre e post rfl
    exact uses_open h.may
  · intro e he e' he' m hm m' hm'
    have hone := bearer_after h e he m hm
    rw [bearer_after h e' he' m' hm'] at hone
    exact (Option.some.inj hone).symm
  · rintro pre e post rfl fd hclose ⟨e', he', m, hm, rfl⟩
    cases post with
    | nil => rfl
    | cons e'' post =>
      have hpre := (obeyed_append.mp h).1
      have hbearer := bearer_after hpre e' he' m hm
      have hsplit : pre ++ e :: e'' :: post = (pre ++ [e]) ++ e'' :: post := by
        rw [List.append_assoc, List.singleton_append]
      rw [hsplit] at h
      have hreleased := h.may.1
      rw [(sockets numMuxes).after_concat] at hreleased
      obtain ⟨c, r⟩ := e
      cases hclose
      have hset : (((sockets numMuxes).after {} pre).released ||
          decide (((sockets numMuxes).after {} pre).bearer = some m.1)) = false := hreleased
      rw [hbearer, decide_eq_true rfl, Bool.or_true] at hset
      cases hset

/-- BIND_MUX is sent only when there is a mux to bind. -/
theorem numMuxes_pos_of_bindMux (h : (sockets numMuxes).Obeyed {} tr) {e : Event Call Answer}
    (he : e ∈ tr) {fd : ℤ} (hbind : e.call.bearerMsg = some (fd, .bindMux)) : 0 < numMuxes := by
  obtain ⟨pre, post, rfl⟩ := List.append_of_mem he
  obtain ⟨_, hkind, _⟩ := next_of_bearerMsg h.may hbind
  rcases hkind with ⟨_, hpos⟩ | ⟨hother, _⟩
  · exact hpos
  · exact absurd rfl hother

/-- With a mux to bind, BIND_MUX comes first. With none it is not sent at all, and any other
message of the bearer is one too many. -/
theorem bindFirst_iff (h : (sockets numMuxes).Obeyed {} tr) :
    BindFirst tr ↔ 0 < numMuxes ∨ ∀ e ∈ tr, e.call.bearerMsg = none := by
  constructor
  · intro hfirst
    by_contra hno
    obtain ⟨hmuxes, hsome⟩ := not_or.mp hno
    apply hsome
    intro e he
    cases hmsg : e.call.bearerMsg with
    | none => rfl
    | some m =>
      obtain ⟨pre, post, rfl⟩ := List.append_of_mem he
      by_cases hbind : m.2 = .bindMux
      · exact absurd (numMuxes_pos_of_bindMux h he (hmsg.trans (by rw [← hbind]))) hmuxes
      · obtain ⟨e', he', hbound⟩ := hfirst pre e post rfl m hmsg hbind
        exact absurd (numMuxes_pos_of_bindMux h (List.mem_append_left _ he') hbound) hmuxes
  · rintro hcase pre e post rfl m hm hne
    rcases hcase with hpos | hnone
    · have hpre := (obeyed_append.mp h).1
      obtain ⟨_, hkind, _⟩ := next_of_bearerMsg h.may hm
      have hset : ((sockets numMuxes).after {} pre).bound = true := by
        rcases hkind with ⟨hbind, _⟩ | ⟨_, hset | hzero⟩
        · exact absurd hbind hne
        · exact hset
        · omega
      obtain ⟨e', he', fd, hmsg⟩ := bind_of_bound hpre hset
      refine ⟨e', he', ?_⟩
      -- both are messages of the bearer, so they are on the same socket
      have hone := bearer_after h e' (List.mem_append_left _ he') _ hmsg
      rw [bearer_after h e (List.mem_append_right _ List.mem_cons_self) m hm] at hone
      rw [hmsg, Option.some.inj hone]
    · rw [hnone e (List.mem_append_right _ List.mem_cons_self)] at hm
      cases hm

end Traces

/-- A run of a one-shot stage, from the start of the program or from anywhere else, leaves
open what was open. -/
def ClosesOwn (fn : ViCtx → Vi (ℕ × ViCtx)) : Prop :=
  ∀ (ctx : ViCtx) (s : Sockets) (tr : Trace) (r : ℕ × ViCtx), s.Sound → (fn ctx).Ends tr r →
    (sockets 0).Allowed s tr → (tr.foldl Sockets.next s).isOpen = s.isOpen

theorem OneShot.closesOwn {fn : ViCtx → Vi (ℕ × ViCtx)} (h : OneShot fn) : ClosesOwn fn := by
  intro ctx s tr r hs hend hallowed
  have hdone := (wp_ends hend (h 0 ctx s hs) hallowed).2
  exact congrArg Sockets.isOpen hdone.1

/-- The stages that have a socket for themselves. -/
def oneShotStages : List (ViCtx → Vi (ℕ × ViCtx)) :=
  [stageDmsOnline, stageNasRat, stageDpmOpen, stageWdaSet, stageDsd]

theorem oneShot_of_mem {fn : ViCtx → Vi (ℕ × ViCtx)} (h : fn ∈ oneShotStages) : OneShot fn := by
  simp only [oneShotStages, List.mem_cons, List.not_mem_nil, or_false] at h
  rcases h with rfl | rfl | rfl | rfl | rfl
  · exact oneShot_dmsOnline
  · exact oneShot_nasRat
  · exact oneShot_dpmOpen
  · exact oneShot_wdaSet
  · exact oneShot_dsd

/-- The sockets of every run of `main`, as far as it gets: whatever the modem answers and
whenever signals come, if a new socket is one that was not open. The messages that need
BIND_MUX before them have it when `num_muxes` is 1 or more; otherwise only a run that does
not get as far as the first of them is in order. -/
theorem sockets_lifeCycle (opts : List Opt) {tr : Trace} {p : Vi ℕ}
    (hrun : Runs (main opts) tr p)
    (hnew : ∀ pre fd post, tr = pre ++ ⟨.qrtrOpen, fd⟩ :: post → fd ∉ openAfter pre) :
    LifeCycle tr ∧
      (BindFirst tr ↔ 0 < muxesOf opts ∨ ∀ e ∈ tr, e.call.bearerMsg = none) ∧
      (∀ rc, (main opts).Ends tr rc → openAfter tr = []) ∧
      ∀ fn ∈ oneShotStages, ClosesOwn fn := by
  have hallowed : (sockets (muxesOf opts)).Allowed {} tr := by
    apply allowed_iff.mpr
    rintro pre ⟨c, r⟩ post htr
    cases c with
    | qrtrOpen => exact hnew pre r post htr
    | qrtrLookup => exact trivial
    | qrtrTxn => exact trivial
    | close => exact trivial
    | writeFile => exact trivial
    | system => exact trivial
    | tryWrite => exact trivial
    | lteRounds => exact trivial
    | gStop => exact trivial
    | pause => exact trivial
  have hobeyed := (wp_runs hrun (wp_main opts) hallowed).1
  refine ⟨lifeCycle_of_obeyed hobeyed, bindFirst_iff hobeyed, ?_,
    fun fn hfn => (oneShot_of_mem hfn).closesOwn⟩
  intro rc hend
  exact (wp_ends hend (wp_main opts) hallowed).2

/-- The full form with two muxes, against a modem that takes every request. -/
def twoMuxRun : Trace := (main [.fullWds, .numMuxes 2]).events lteModem

/-- All eight stages run, and the bearer's socket is the last to be closed. -/
theorem sockets_lifeCycle_twoMux :
    (twoMuxRun.filterMap fun e => e.call.bearerMsg) =
        [(3, .bindMux), (3, .bindMux), (3, .afSetMode), (3, .ipFamily4D), (3, .startNetwork),
          (3, .getSettings)] ∧
      LifeCycle twoMuxRun ∧ BindFirst twoMuxRun ∧ openAfter twoMuxRun = [] := by
  have hallowed : (sockets 2).Allowed {} twoMuxRun := by decide +kernel
  have hend := ends_events lteModem (main [.fullWds, .numMuxes 2])
  obtain ⟨hlife, hfirst, hclosed, _⟩ := sockets_lifeCycle [.fullWds, .numMuxes 2] hend
    fun pre fd post htr => allowed_iff.mp hallowed pre ⟨.qrtrOpen, fd⟩ post htr
  exact ⟨by decide +kernel, hlife, hfirst.mpr (Or.inl (by decide)), hclosed _ hend⟩

/-- The same modem, and no mux to bind. -/
def noMuxRun : Trace := (main [.numMuxes 0]).events lteModem

/-- The network is started and its settings are read on a socket without BIND_MUX. -/
theorem not_bindFirst_noMux :
    (∃ rc, (main [.numMuxes 0]).Ends noMuxRun rc) ∧
      (∀ pre fd post, noMuxRun = pre ++ ⟨.qrtrOpen, fd⟩ :: post → fd ∉ openAfter pre) ∧
      (noMuxRun.filterMap fun e => e.call.bearerMsg) = [(3, .startNetwork), (3, .getSettings)] ∧
      ¬ BindFirst noMuxRun := by
  have hallowed : (sockets 0).Allowed {} noMuxRun := by decide +kernel
  have hend := ends_events lteModem (main [.numMuxes 0])
  have hmsgs : (noMuxRun.filterMap fun e => e.call.bearerMsg) =
      [(3, .startNetwork), (3, .getSettings)] := by decide +kernel
  refine ⟨⟨_, hend⟩, fun pre fd post htr => allowed_iff.mp hallowed pre ⟨.qrtrOpen, fd⟩ post htr,
    hmsgs, fun hfirst => ?_⟩
  have hstart : ((3 : ℤ), MsgId.startNetwork) ∈ noMuxRun.filterMap fun e => e.call.bearerMsg := by
    simp [hmsgs]
  obtain ⟨e, he, hmsg⟩ := List.mem_filterMap.mp hstart
  obtain ⟨pre, post, hsplit⟩ := List.append_of_mem he
  obtain ⟨e', he', hbind⟩ := hfirst pre e post hsplit _ hmsg (by decide)
  -- a BIND_MUX among the messages, of which there are but two
  have hmem : ((3 : ℤ), MsgId.bindMux) ∈ noMuxRun.filterMap fun e => e.call.bearerMsg :=
    List.mem_filterMap.mpr ⟨e', hsplit ▸ List.mem_append_left _ he', hbind⟩
  rw [hmsgs] at hmem
  exact absurd hmem (by decide)

end VendorInit
end X00TDCellular
