import X00TDCellular.IpaRmRuns
import X00TDCellular.IpaRmWrites

/-! Nobody who waits is forgotten: a consumer that is being requested has its work on the queue,
or its driver has promised an answer. -/

namespace X00TDCellular
open Function Tally

/-- The last answer of the consumer's driver to a request. -/
def lastAnswer (calls : List RmCall) (c : RmCons) : Option ℤ :=
  calls.findSome? fun
    | .requestResource c' result => if c' = c then some result else none
    | _ => none

namespace Rm

variable {s s' : Rm} {p : RmProd} {c : RmCons} {q : RmProdRes} {k : RmConsRes}

/-- The consumer's driver will still be called, or has said -EINPROGRESS. -/
def Owed (s : Rm) (c : RmCons) : Prop :=
  (∃ prev bw inc, .resume c prev bw inc ∈ s.wq) ∨ lastAnswer s.calls c = some eInProgress

def Awaited (s : Rm) (c : RmCons) : Prop :=
  ∀ k, s.conss c = some k → k.state = .requestInProgress → s.Owed c

theorem Owed.push (h : s.Owed c) (w : RmWork) : (s.push w).Owed c := by
  refine h.imp_left fun ⟨prev, bw, inc, hmem⟩ => ⟨prev, bw, inc, ?_⟩
  exact List.mem_append_left _ hmem

theorem Awaited.push (h : s.Awaited c) (w : RmWork) : (s.push w).Awaited c :=
  fun k hk hstate => (h k hk hstate).push w

/-- Calls that request nothing are no answers. -/
theorem Awaited.call (h : s.Awaited c) {x : RmCall}
    (hx : ∀ c result, x ≠ .requestResource c result) :
    (s.call x).Awaited c := by
  have hlast : lastAnswer (s.call x).calls c = lastAnswer s.calls c := by
    cases x with
    | requestResource c' result => exact absurd rfl (hx c' result)
    | _ => rfl
  exact fun k hk hstate => (h k hk hstate).imp_right hlast.trans

theorem awaited_perf (h : s.Awaited c) (name : RmName) :
    (ipaRmPerfProfileChange s name).Awaited c := by
  unfold ipaRmPerfProfileChange
  split
  · exact h
  · dsimp only
    split_ifs
    · exact h
    · exact Awaited.push (s := { s with vote := _ }) h _

/-- The answers for one consumer say nothing of another. -/
theorem lastAnswer_cons_of_ne (calls : List RmCall) {c c' : RmCons} (hc : c' ≠ c) (result : ℤ) :
    lastAnswer (.requestResource c result :: calls) c' = lastAnswer calls c' := by
  simp [lastAnswer, Ne.symm hc]

theorem awaited_asked (h : ∀ c', c' ≠ c → s.Awaited c') (k' : RmConsRes) {result : ℤ}
    (hstate : k'.state = .requestInProgress → result = eInProgress) (c' : RmCons) :
    ((s.call (.requestResource c result)).setCons c k').Awaited c' := by
  intro k hk hk'
  by_cases hc : c' = c
  · subst hc
    have hself : ((s.call (.requestResource c' result)).setCons c' k').conss c' = some k' :=
      update_self _ _ _
    obtain rfl := Option.some.inj (hself.symm.trans hk)
    have hprog := hstate hk'
    right
    simp [lastAnswer, setCons, call, hprog]
  · have hother : s.conss c' = some k := by
      rw [← hk]
      exact (update_of_ne hc _ _).symm
    refine (h c' hc k hother hk').imp_right fun hlast => ?_
    exact (lastAnswer_cons_of_ne s.calls hc result).trans hlast

/-- A record of one consumer is replaced. -/
theorem awaited_setCons (h : ∀ c, s.Awaited c) (k' : RmConsRes)
    (hstate : k'.state = .requestInProgress → s.Owed c) (c' : RmCons) :
    (s.setCons c k').Awaited c' := by
  intro k hk hk'
  by_cases hc : c' = c
  · subst hc
    have hself : (s.setCons c' k').conss c' = some k' := update_self _ _ _
    obtain rfl := Option.some.inj (hself.symm.trans hk)
    exact hstate hk'
  · refine h c' k ?_ hk'
    rw [← hk]
    exact (update_of_ne hc _ _).symm

theorem Write.awaited (h : Write False s s') (hs : ∀ c, s.Awaited c) (c : RmCons) :
    s'.Awaited c := by
  cases h
  case prod => exact hs c
  case cons hk k' _ hstate =>
    exact awaited_setCons hs k' (fun h => hs _ _ hk ((hstate h).resolve_right id)) c
  case resume c' _ hk k' _ prev _ bw inc =>
    intro k₁ hk₁ hstate
    by_cases hc : c = c'
    · exact .inl ⟨prev, bw, inc, by simp [hc, push]⟩
    · have hother : s.conss c = some k₁ := by
        rw [← hk₁]
        exact (update_of_ne hc _ _).symm
      exact (hs c k₁ hother hstate).push (.resume c' prev bw inc)
  case asked hk k' _ result hstate =>
    exact awaited_asked (fun c' _ => hs c') k' (fun h => (hstate h).resolve_right id) c
  case perf name => exact awaited_perf (hs c) name
  case notifyProd => exact (hs c).push _
  case resourceCb => exact (hs c).push _
  case suspend => exact (hs c).push _
  case released => exact (hs c).call (by simp)
  case notified => exact (hs c).call (by simp)
  case delayed => exact hs c

theorem Writes.awaited (h : Writes False s s') (hs : ∀ c, s.Awaited c) : ∀ c, s'.Awaited c := by
  induction h with
  | refl => exact hs
  | tail _ hw ih => exact hw.awaited ih

theorem awaited_setPeers (hs : ∀ c, s.Awaited c) (hk : s.conss c = some k) (p : RmProd)
    (dep : Option Bool) (c' : RmCons) : (s.setPeers p c dep).Awaited c' := by
  have hk' : (s.modifyProd p fun q => { q with peers := update q.peers c dep }).conss c =
    some k := hk
  have hs' (c : RmCons) :
      (s.modifyProd p fun q => { q with peers := update q.peers c dep }).Awaited c := hs c
  rw [setPeers, modifyCons_eq hk']
  refine awaited_setCons hs' _ (fun hstate => ?_) c'
  exact hs c k hk hstate

theorem Edits.awaited {K : Prop} (h : Edits False K s s') (hs : ∀ c, s.Awaited c) :
    ∀ c, s'.Awaited c := by
  induction h with
  | refl => exact hs
  | tail _ hedit ih =>
    cases hedit with
    | write hw => exact hw.awaited ih
    | peers _ hk dep _ => exact awaited_setPeers ih hk _ dep

/-- The item taken from the queue was owed to nobody but its own consumer. -/
theorem awaited_popped (hs : ∀ c, s.Awaited c) {w : RmWork} {wq : List RmWork}
    (hwq : s.wq = w :: wq) (hw : ∀ prev bw inc, w ≠ .resume c prev bw inc) :
    Rm.Awaited { s with wq := wq } c := by
  intro k hk hstate
  refine (hs c k hk hstate).imp_left fun ⟨prev, bw, inc, hmem⟩ => ⟨prev, bw, inc, ?_⟩
  rw [hwq] at hmem
  exact (List.mem_cons.mp hmem).resolve_left fun h => hw prev bw inc h.symm

/-- A queued request puts its consumer back to another state, should its driver refuse. -/
def ResumesOk (s : Rm) : Prop :=
  ∀ c prev bw inc, .resume c prev bw inc ∈ s.wq → prev ≠ .requestInProgress

theorem ResumesOk.push (h : s.ResumesOk) {w : RmWork}
    (hw : ∀ c bw inc, w ≠ .resume c .requestInProgress bw inc) : (s.push w).ResumesOk := by
  intro c prev bw inc hmem
  obtain hmem | hlast := List.mem_append.mp hmem
  · exact h c prev bw inc hmem
  · rintro rfl
    exact hw c bw inc (List.mem_singleton.mp hlast).symm

theorem Write.resumesOk {L : Prop} (h : Write L s s') (hs : s.ResumesOk) :
    s'.ResumesOk := by
  cases h
  case resume hprev _ _ =>
    refine ResumesOk.push (s := s.setCons _ _) hs fun _ _ _ h => ?_
    cases h
    exact hprev rfl
  case perf name =>
    unfold ipaRmPerfProfileChange
    split
    · exact hs
    · dsimp only
      split_ifs
      · exact hs
      · exact ResumesOk.push (s := { s with vote := _ }) hs (by simp)
  case notifyProd => exact hs.push (by simp)
  case resourceCb => exact hs.push (by simp)
  case suspend => exact hs.push (by simp)
  all_goals exact hs

theorem Edits.resumesOk {L K : Prop} (h : Edits L K s s') (hs : s.ResumesOk) :
    s'.ResumesOk := by
  induction h with
  | refl => exact hs
  | tail _ hedit ih =>
    cases hedit with
    | write hw => exact hw.resumesOk ih
    | peers => exact ih

/-- Memory is there for the work items, and no driver refuses to release a consumer that was
being requested when it was let go. -/
def keepsWaiters (s : Rm) (a : RmAction) : Bool :=
  a.allocated &&
    match a with
    | .work reply =>
      match s.wq with
      | .suspend _ .requestInProgress _ :: _ => reply.Answered
      | _ => true
    | _ => true

theorem awaited_handleWork (hs : ∀ c, s.Awaited c) (hresumes : s.ResumesOk) {w : RmWork}
    {wq : List RmWork} (hwq : s.wq = w :: wq) {reply : RmReply}
    (hok : s.keepsWaiters (.work reply) = true) :
    (∀ c, (handleWork { s with wq := wq } reply w).Awaited c) ∧
      (handleWork { s with wq := wq } reply w).ResumesOk := by
  have hresumes' : Rm.ResumesOk { s with wq := wq } :=
    fun c prev bw inc hmem => hresumes c prev bw inc (hwq ▸ List.mem_cons_of_mem _ hmem)
  have hdriver (h : w.fromRequest = true) :
      reply.driver = 0 ∨ reply.driver = eInProgress ∨ False := by
    unfold RmWork.fromRequest at h
    split at h
    · rename_i c bw inc
      exact absurd rfl (hresumes c _ bw inc (hwq ▸ List.mem_cons_self))
    · rw [keepsWaiters, hwq] at hok
      have hanswered : reply.Answered := by simpa using (Bool.and_eq_true_iff.mp hok).2
      exact hanswered.imp_right .inl
    · exact absurd h (by decide)
  cases w with
  | resume c' prev bw inc =>
    have hothers (c : RmCons) (hc : c ≠ c') : Rm.Awaited { s with wq := wq } c :=
      awaited_popped hs hwq fun _ _ _ h => hc (by cases h; rfl)
    simp only [handleWork]
    split_ifs with hsome
    · obtain ⟨k, hk⟩ := Option.isSome_iff_exists.mp hsome
      obtain ⟨k', hpeers, hstate, hwrites⟩ := writes_consumerRequestWork (L := False)
        (s := { s with wq := wq }) hk prev bw true inc reply.driver
        fun h => hdriver (by rw [h]; rfl)
      refine ⟨hwrites.awaited (awaited_asked hothers k' fun h => (hstate h).resolve_right id), ?_⟩
      exact (hwrites.edits (K := False)).resumesOk hresumes'
    · refine ⟨fun c => ?_, hresumes'⟩
      by_cases hc : c = c'
      · intro k hk _
        rw [hc] at hk
        exact absurd (Option.isSome_of_eq_some hk) hsome
      · exact hothers c hc
  | notifyIpa volt bw =>
    have hpopped (c : RmCons) : Rm.Awaited { s with wq := wq } c := awaited_popped hs hwq (by simp)
    exact ⟨fun c => (hpopped c).call (by simp), hresumes'⟩
  | _ =>
    have hwrites := writes_handleWork { s with wq := wq } reply (by simp) hdriver
    exact ⟨hwrites.awaited fun c => awaited_popped hs hwq (by simp),
      (hwrites.edits (K := False)).resumesOk hresumes'⟩

/-- Every action that keeps the waiters leaves each of them something to wait for. -/
theorem awaited_step (hs : (∀ c, s.Awaited c) ∧ s.ResumesOk) {a : RmAction}
    (ha : s.keepsWaiters a = true) (hstep : s.step a = some s') :
    (∀ c, s'.Awaited c) ∧ s'.ResumesOk := by
  obtain ⟨hawaited, hresumes⟩ := hs
  have halloc : a.allocated = true := (Bool.and_eq_true_iff.mp ha).1
  have hcases := step_cases (L := False) (K := True) (.inl halloc) (fun _ => trivial) hstep
  cases hcases with
  | edits h => exact ⟨h.awaited hawaited, h.resumesOk hresumes⟩
  | createProd => exact ⟨hawaited, hresumes⟩
  | createCons => exact ⟨awaited_setCons hawaited _ (by simp), hresumes⟩
  | removeProd _ _ h => exact ⟨h.awaited hawaited, h.resumesOk hresumes⟩
  | removeCons _ _ h =>
    rename_i s₁ c₁
    have hawaited₁ := h.awaited hawaited
    refine ⟨fun c k hk hstate => hawaited₁ c k ?_ hstate, h.resumesOk hresumes⟩
    by_cases hc : c = c₁
    · subst hc
      simp at hk
    · simpa [hc] using hk
  | work hwq reply => exact awaited_handleWork hawaited hresumes hwq ha

theorem awaited_of_run {as : List RmAction} {t : Rm}
    (hg : Transition.Guarded step (fun s a => s.keepsWaiters a = true) {} as)
    (hrun : Transition.run step {} as = some t) (c : RmCons) : t.Awaited c := by
  have h : (∀ c, t.Awaited c) ∧ t.ResumesOk := hg.inv
    (fun _ _ _ hs ha hstep => awaited_step hs ha hstep) hrun
    ⟨fun _ _ h => (nomatch h), fun _ _ _ _ h => (nomatch h)⟩
  exact h.1 c

/-- No wake-up is lost: a consumer that is being requested is owed an answer, and so is every
producer that waits, by a consumer it depends on. -/
theorem waiters_owed {as : List RmAction} {t : Rm}
    (hg : Transition.Guarded step (fun s a => s.keepsWaiters a = true) {} as)
    (hrun : Transition.run step {} as = some t) :
    (∀ c k, t.conss c = some k → k.state = .requestInProgress → t.Owed c) ∧
      (Transition.Guarded step (fun s a => s.orderly a = true) {} as →
        ∀ p q, t.prods p = some q → q.state = .requestInProgress →
          ∃ c, (q.peers c).isSome ∧ t.asking c ∧ t.Owed c) := by
  have hawaited := awaited_of_run hg hrun
  refine ⟨hawaited, fun horderly p q hq hstate => ?_⟩
  have h := inv_run horderly hrun
  have hwait := (h.prods p q hq).waiting hstate
  rw [(h.prods p q hq).pending (by simp [RmProdRes.active, hstate]), count_pos_iff] at hwait
  obtain ⟨c, hc⟩ := hwait
  obtain ⟨hpeer, hasking⟩ := Bool.and_eq_true_iff.mp hc
  obtain ⟨k, hk, hk'⟩ := (Option.any_eq_true _ _).mp hasking
  exact ⟨c, hpeer, hasking, hawaited c k hk (by simpa using hk')⟩

/-- The one producer gives up while its consumer's driver is still at work, the other comes. -/
def rerequest : List RmAction :=
  [.createResource 12 1 7 0, .createResource 14 1 8 0, .createResource 1 2 0 0,
    .addDependency 12 1 false fun _ _ => {}, .addDependency 14 1 false fun _ _ => {},
    .requestResource 12 fun _ _ => { driver := eInProgress }, .releaseResource 12 fun _ _ => {},
    .requestResource 14 fun _ _ => {}]

theorem waiters_owed_rerequest :
    ∃ t q, Transition.run step {} rerequest = some t ∧ t.prods .wlanProd = some q ∧
      q.state = .requestInProgress ∧ ∃ c, (q.peers c).isSome ∧ t.asking c ∧ t.Owed c := by
  obtain ⟨t, hrun, hwaiting⟩ := (Option.any_eq_true _ _).mp (show (Transition.run step {}
    rerequest).any (fun t => (t.prods .wlanProd).any (·.state = .requestInProgress)) = true by
      decide)
  obtain ⟨q, hq, hstate⟩ := (Option.any_eq_true _ _).mp hwaiting
  rw [decide_eq_true_eq] at hstate
  obtain ⟨-, howed⟩ := waiters_owed (by decide) hrun
  exact ⟨t, q, hrun, hq, hstate, howed (by decide) _ q hq hstate⟩

end Rm

end X00TDCellular
