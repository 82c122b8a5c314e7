import Mathlib.Data.List.Chain
import X00TDCellular.IpaRmWrites

/-! The bandwidth and voltage vote of the resource manager, and what the IPA driver is told of
it. -/

namespace X00TDCellular
open Function

def RmWork.vote : RmWork → Option (ℕ × BitVec 32)
  | .notifyIpa volt bw => some (volt, bw)
  | _ => none

def RmCall.vote : RmCall → Option (ℕ × BitVec 32)
  | .setRequiredPerfProfile volt bw => some (volt, bw)
  | _ => none

namespace RmProfVote

def current (v : RmProfVote) : ℕ × BitVec 32 := (v.currVolt, v.currBw)

/-- The voltage is the highest any resource asks for, the bandwidth the smaller of what the
producers and the consumers ask for. -/
def Summed (v : RmProfVote) : Prop :=
  v.currVolt = (RmProd.all.map (fun p => v.volt (.inl p)) ++
    RmCons.all.map fun c => v.volt (.inr c)).foldl max 0 ∧
  v.currBw = u32Min (RmProd.all.map fun p => v.bwResources (.inl p)).sum
    (RmCons.all.map fun c => v.bwResources (.inr c)).sum

theorem summed_change (v : RmProfVote) (r : RmName) (bw : BitVec 32) (volt : ℕ) :
    (v.change r bw volt).Summed := ⟨rfl, rfl⟩

end RmProfVote

namespace Rm

variable {s s' : Rm} {p : RmProd} {c : RmCons} {q : RmProdRes} {k : RmConsRes}

/-- The votes that the IPA driver has been told, and then those it will be. -/
def told (s : Rm) : List (ℕ × BitVec 32) :=
  s.calls.reverse.filterMap RmCall.vote ++ s.wq.filterMap RmWork.vote

/-- No vote is told twice in a row, and the last one is the vote there is. -/
structure ToldOk (s : Rm) : Prop where
  changes : ((0, 0) :: s.told).IsChain (· ≠ ·)
  last : ((0, 0) :: s.told).getLast? = some s.vote.current
  summed : s.vote.Summed

theorem ToldOk.frame (h : s.ToldOk) (htold : s'.told = s.told) (hvote : s'.vote = s.vote) :
    s'.ToldOk := by
  refine ⟨?_, ?_, ?_⟩
  · rw [htold]
    exact h.changes
  · rw [htold, hvote]
    exact h.last
  · rw [hvote]
    exact h.summed

theorem told_push (s : Rm) {w : RmWork} (hw : w.vote = none) : (s.push w).told = s.told := by
  simp [told, push, hw]

theorem told_call (s : Rm) {x : RmCall} (hx : x.vote = none) : (s.call x).told = s.told := by
  simp [told, call, hx]

theorem told_perf (h : s.ToldOk) (name : RmName) : (ipaRmPerfProfileChange s name).ToldOk := by
  unfold ipaRmPerfProfileChange
  cases hr : s.getResource name with
  | none => exact h
  | some r =>
    dsimp only
    generalize hv : s.vote.change name r.share.1 r.share.2 = v
    have hsummed : v.Summed := by
      rw [← hv]
      exact s.vote.summed_change _ _ _
    by_cases hsame : v.currVolt = s.vote.currVolt ∧ v.currBw = s.vote.currBw
    · rw [if_pos hsame]
      have hcurrent : v.current = s.vote.current := Prod.ext hsame.1 hsame.2
      exact ⟨h.changes, h.last.trans (by rw [hcurrent]), hsummed⟩
    · rw [if_neg hsame]
      have htold : told (push { s with vote := v } (.notifyIpa v.currVolt v.currBw)) =
          s.told ++ [v.current] := by
        simp [told, push, RmWork.vote, RmProfVote.current]
      refine ⟨?_, ?_, hsummed⟩
      · rw [htold, ← List.cons_append, List.isChain_append]
        refine ⟨h.changes, List.isChain_singleton _, ?_⟩
        rintro x hx y hy hxy
        rw [h.last] at hx
        obtain rfl := Option.some.inj hx
        obtain rfl := Option.some.inj hy
        exact hsame ⟨(congrArg Prod.fst hxy).symm, (congrArg Prod.snd hxy).symm⟩
      · rw [htold, ← List.cons_append, List.getLast?_append]
        rfl

theorem Write.told {L : Prop} (h : Write L s s') (hs : s.ToldOk) : s'.ToldOk := by
  cases h
  case perf name => exact told_perf hs name
  case resume => exact hs.frame (told_push _ rfl) rfl
  case asked => exact hs.frame (told_call s rfl) rfl
  case notifyProd => exact hs.frame (told_push s rfl) rfl
  case resourceCb => exact hs.frame (told_push s rfl) rfl
  case suspend => exact hs.frame (told_push s rfl) rfl
  case released => exact hs.frame (told_call s rfl) rfl
  case notified => exact hs.frame (told_call s rfl) rfl
  all_goals exact hs.frame rfl rfl

theorem Edits.told {L K : Prop} (h : Edits L K s s') (hs : s.ToldOk) :
    s'.ToldOk := by
  induction h with
  | refl => exact hs
  | tail _ hedit ih =>
    cases hedit with
    | write hw => exact hw.told ih
    | peers => exact ih.frame rfl rfl

/-- The worker takes an item from the head of the queue; a vote that it tells stays in its place
among the votes told. -/
theorem told_handleWork (hs : s.ToldOk) {w : RmWork} {wq : List RmWork} (hwq : s.wq = w :: wq)
    (reply : RmReply) : (handleWork { s with wq := wq } reply w).ToldOk := by
  cases hw : w.vote with
  | none =>
    have hpopped : Rm.ToldOk { s with wq := wq } := hs.frame (by simp [told, hwq, hw]) rfl
    have hwrites := writes_handleWork (L := True) { s with wq := wq } reply
      (w := w) (by rintro volt bw rfl; cases hw) fun _ => .inr (.inr trivial)
    exact (hwrites.edits (K := True)).told hpopped
  | some vote =>
    cases w with
    | notifyIpa volt bw =>
      exact hs.frame (by simp [told, handleWork, call, hwq, RmWork.vote, RmCall.vote]) rfl
    | _ => cases hw

theorem told_step (hs : s.ToldOk) {a : RmAction} (hstep : s.step a = some s') : s'.ToldOk := by
  have hcases := step_cases (L := True) (K := True) (.inr trivial) (fun _ => trivial) hstep
  cases hcases with
  | edits h => exact h.told hs
  | createProd => exact hs.frame rfl rfl
  | createCons => exact hs.frame rfl rfl
  | removeProd _ _ h => exact (h.told hs).frame rfl rfl
  | removeCons _ _ h => exact (h.told hs).frame rfl rfl
  | work hwq reply => exact told_handleWork hs hwq reply

theorem told_init : ToldOk {} := by
  refine ⟨List.isChain_singleton _, rfl, ?_⟩
  constructor <;> decide

theorem toldOk_of_run {as : List RmAction} {t : Rm} (hrun : Transition.run step {} as = some t) :
    t.ToldOk :=
  Transition.run_inv (fun _ _ _ hs hstep => told_step hs hstep) hrun told_init

/-- The votes told and still to be told end with the vote there is, each one new, and it
adds up what the resources vote for. -/
theorem told_of_run {as : List RmAction} {t : Rm} (hrun : Transition.run step {} as = some t) :
    ((0, 0) :: t.told).IsChain (· ≠ ·) ∧ ((0, 0) :: t.told).getLast? = some t.vote.current ∧
      t.vote.Summed := by
  have h := toldOk_of_run hrun
  exact ⟨h.changes, h.last, h.summed⟩

/-- A producer is granted, and released again; the worker has told the first vote. -/
def grantAndRelease : List RmAction :=
  [.createResource 12 1 7 0, .createResource 1 2 0 0, .setPerfProfile 12 100,
    .setPerfProfile 1 200, .addDependency 12 1 false fun _ _ => {},
    .requestResource 12 fun _ _ => {}, .work {}, .releaseResource 12 fun _ _ => {}]

theorem told_of_run_grantAndRelease :
    ∃ t, Transition.run step {} grantAndRelease = some t ∧
      t.told = [(2, 0), (2, 100), (1, 0), (0, 0)] ∧ t.vote.current = (0, 0) := by
  obtain ⟨t, hrun, htold⟩ := (Option.any_eq_true _ _).mp (show (Transition.run step {}
    grantAndRelease).any (fun t => t.told = [(2, 0), (2, 100), (1, 0), (0, 0)]) = true by
      decide)
  rw [decide_eq_true_eq] at htold
  obtain ⟨-, hlast, -⟩ := told_of_run hrun
  rw [htold] at hlast
  exact ⟨t, hrun, htold, (Option.some.inj hlast).symm⟩

/-- The part of the vote that is a producer's. -/
def prodVote (s : Rm) (p : RmProd) : BitVec 32 × ℕ :=
  (s.vote.bwResources (.inl p), s.vote.volt (.inl p))

/-- A producer that waits for nothing votes for its share, one that is not there for nothing. -/
def Voted (s : Rm) (p : RmProd) : Prop :=
  match s.prods p with
  | none => s.prodVote p = (0, 0)
  | some q => q.state ≠ .releaseInProgress ∧
      (q.state ≠ .requestInProgress → s.prodVote p = q.share)

theorem voted_iff (hq : s.prods p = some q) : s.Voted p ↔
    q.state ≠ .releaseInProgress ∧ (q.state ≠ .requestInProgress → s.prodVote p = q.share) := by
  rw [Voted, hq]

@[simp] theorem prodVote_perfCons (s : Rm) (c : RmCons) :
    (ipaRmPerfProfileChange s (.inr c)).prodVote = s.prodVote := by
  unfold ipaRmPerfProfileChange
  split
  · rfl
  · funext p
    dsimp only
    split_ifs <;> simp [prodVote, RmProfVote.change, push]

theorem prodVote_perfProd (hq : s.prods p = some q) :
    (ipaRmPerfProfileChange s (.inl p)).prodVote = update s.prodVote p q.share := by
  have hr : s.getResource (.inl p) = some q.toRmResource := by
    rw [RmDepGraph.getResource, hq, Option.map_some]
  unfold ipaRmPerfProfileChange
  rw [hr]
  funext p'
  by_cases hp : p' = p
  · subst hp
    dsimp only
    split_ifs <;> simp [prodVote, RmProfVote.change, push]
  · dsimp only
    split_ifs <;> simp [prodVote, RmProfVote.change, push, hp]

/-- Nothing of the producers changes, votes included. -/
structure SameProds (s s' : Rm) : Prop where
  prods : s'.prods = s.prods
  votes : s'.prodVote = s.prodVote

theorem SameProds.refl (s : Rm) : SameProds s s := ⟨rfl, rfl⟩

theorem SameProds.trans {s₁ s₂ s₃ : Rm} (h : SameProds s₁ s₂) (h' : SameProds s₂ s₃) :
    SameProds s₁ s₃ := ⟨h'.prods.trans h.prods, h'.votes.trans h.votes⟩

theorem SameProds.after {s₁ s₂ s₃ : Rm} (h : SameProds s₂ s₃) (h' : SameProds s₁ s₂) :
    SameProds s₁ s₃ := h'.trans h

theorem SameProds.voted (h : SameProds s s') (hs : ∀ p, s.Voted p) (p : RmProd) : s'.Voted p := by
  unfold Voted
  rw [h.prods, h.votes]
  exact hs p

theorem SameProds.perf (s : Rm) (c : RmCons) : SameProds s (ipaRmPerfProfileChange s (.inr c)) :=
  ⟨by rw [perfProfileChange_graph], prodVote_perfCons s c⟩

theorem sameProds_requestWork (s : Rm) (c : RmCons) (prev : RmState) (bw : BitVec 32) (dec : Bool)
    (driver : ℤ) :
    SameProds s (ipaRmResourceConsumerRequestWork s c prev bw false dec driver).1 := by
  unfold ipaRmResourceConsumerRequestWork
  dsimp only
  by_cases h0 : driver = 0
  · rw [if_pos h0, if_neg (by decide)]
    exact (SameProds.perf _ c).after ⟨rfl, rfl⟩
  · rw [if_neg h0]
    by_cases hprog : driver = eInProgress
    · rw [if_neg (not_not.mpr hprog)]
      exact ⟨rfl, rfl⟩
    · rw [if_pos hprog]
      exact ⟨rfl, rfl⟩

theorem sameProds_request (s : Rm) (c : RmCons) (bw : BitVec 32) (inc wake : Bool)
    (reply : RmReply) : SameProds s (ipaRmResourceConsumerRequest s c bw inc wake reply).1 := by
  have hstate (s : Rm) (prev : RmState) :
      SameProds s (consumerRequestState s c prev bw inc wake reply).1 := by
    unfold consumerRequestState
    cases prev
    case released =>
      by_cases hlate : RmState.released = .releaseInProgress ∨ reply.clksNoBlock = false
      · dsimp only
        rw [if_pos hlate]
        cases reply.alloc <;> exact ⟨rfl, rfl⟩
      · dsimp only
        rw [if_neg hlate]
        exact (sameProds_requestWork _ c _ bw inc _).after ⟨rfl, rfl⟩
    case releaseInProgress =>
      dsimp only
      rw [if_pos (.inl rfl)]
      cases reply.alloc <;> exact ⟨rfl, rfl⟩
    case granted =>
      cases wake
      · exact .perf s c
      · exact sameProds_requestWork _ c _ bw inc _
    case requestInProgress => exact .refl s
  unfold ipaRmResourceConsumerRequest
  cases hk : s.conss c with
  | none => exact .refl s
  | some k =>
    have h : SameProds s (consumerRequestState (s.setCons c { k with neededBw := k.neededBw + bw })
      c k.state bw inc wake reply).1 := (hstate _ k.state).after ⟨rfl, rfl⟩
    cases inc
    · exact h
    · exact h.trans ⟨rfl, rfl⟩

theorem sameProds_release (s : Rm) (c : RmCons) (bw : BitVec 32) (dec : Bool) (reply : RmReply) :
    SameProds s (ipaRmResourceConsumerRelease s c bw dec reply).1 := by
  have hwork (s : Rm) (prev : RmState) (driver : ℤ) :
      SameProds s (ipaRmResourceConsumerReleaseWork s c prev false driver).1 := by
    unfold ipaRmResourceConsumerReleaseWork
    dsimp only
    generalize (if driver = eInProgress then 0 else driver) = result
    by_cases h0 : result = 0
    · rw [if_neg (not_not.mpr h0)]
      exact (SameProds.perf _ c).after ⟨rfl, rfl⟩
    · rw [if_pos h0]
      exact ⟨rfl, rfl⟩
  unfold ipaRmResourceConsumerRelease
  cases hk : s.conss c with
  | none => exact .refl s
  | some k =>
    dsimp only
    generalize (if dec = true ∧ k.usageCount > 0 then k.usageCount-1 else k.usageCount) = usage
    have hneeded : SameProds s (s.setCons c { k with neededBw := k.neededBw - bw }) := ⟨rfl, rfl⟩
    generalize s.setCons c { k with neededBw := k.neededBw - bw } = s₁ at hneeded ⊢
    have hclosing (s₂ : Rm) (h₂ : SameProds s₁ s₂) (prev : RmState) : SameProds s
        (if prev = .requestInProgress ∨ reply.suspendNoBlock = false then
          (if reply.alloc = true then s₂.push (.suspend c prev bw) else s₂, eInProgress)
        else ipaRmResourceConsumerReleaseWork s₂ c prev false reply.driver).1 := by
      refine (hneeded.trans h₂).trans ?_
      split_ifs
      · exact ⟨rfl, rfl⟩
      · exact .refl s₂
      · exact hwork s₂ _ _
    cases hstate : k.state
    case released => exact hneeded
    case releaseInProgress => exact hneeded.trans ⟨rfl, rfl⟩
    case granted =>
      by_cases hzero : usage = 0
      · simp only [hzero, if_true]
        refine hclosing (s₁.modifyCons c _ |>.modifyCons c _) ⟨rfl, rfl⟩ .granted
      · simp only [hzero, if_false, if_true]
        exact (SameProds.perf _ c).after (hneeded.trans ⟨rfl, rfl⟩)
    case requestInProgress =>
      by_cases hzero : usage = 0
      · simp only [hzero, if_true]
        refine hclosing (s₁.modifyCons c _ |>.modifyCons c _) ⟨rfl, rfl⟩ .requestInProgress
      · simp only [hzero, if_false, reduceCtorEq]
        exact hneeded.trans ⟨rfl, rfl⟩

/-- Nothing of the other producers changes, votes included. -/
def Touches (p : RmProd) (s s' : Rm) : Prop :=
  ∀ p', p' ≠ p → s'.prods p' = s.prods p' ∧ s'.prodVote p' = s.prodVote p'

theorem Touches.trans {s₁ s₂ s₃ : Rm} (h : Touches p s₁ s₂) (h' : Touches p s₂ s₃) :
    Touches p s₁ s₃ :=
  fun p' hp => ⟨(h' p' hp).1.trans (h p' hp).1, (h' p' hp).2.trans (h p' hp).2⟩

theorem SameProds.touches (h : SameProds s s') (p : RmProd) : Touches p s s' :=
  fun p' _ => ⟨congrFun h.prods p', congrFun h.votes p'⟩

theorem touches_setProd (s : Rm) (p : RmProd) (q : RmProdRes) : Touches p s (s.setProd p q) :=
  fun p' hp => ⟨by simp [setProd, hp], rfl⟩

theorem touches_modifyProd (s : Rm) (p : RmProd) (f : RmProdRes → RmProdRes) :
    Touches p s (s.modifyProd p f) :=
  fun p' hp => ⟨by simp [modifyProd, RmDepGraph.modifyProd, hp], rfl⟩

theorem touches_perf (s : Rm) (p : RmProd) : Touches p s (ipaRmPerfProfileChange s (.inl p)) := by
  intro p' hp
  refine ⟨by rw [perfProfileChange_graph], ?_⟩
  cases hq : s.prods p with
  | none =>
    have hr : s.getResource (.inl p) = none := by rw [RmDepGraph.getResource, hq, Option.map_none]
    rw [ipaRmPerfProfileChange, hr]
  | some q => rw [prodVote_perfProd hq, update_of_ne hp]

theorem voted_of_touches (hs : ∀ p, s.Voted p) (h : Touches p s s') (hp : s'.Voted p)
    (p' : RmProd) : s'.Voted p' := by
  by_cases hp' : p' = p
  · exact hp' ▸ hp
  · have hs' := hs p'
    unfold Voted at hs' ⊢
    rwa [(h p' hp').1, (h p' hp').2]

theorem voted_perf (hq : s.prods p = some q) (hsettled : q.state ≠ .releaseInProgress) :
    (ipaRmPerfProfileChange s (.inl p)).Voted p := by
  have hq' : (ipaRmPerfProfileChange s (.inl p)).prods p = some q := by
    rw [perfProfileChange_graph, hq]
  rw [voted_iff hq', prodVote_perfProd hq, update_self]
  exact ⟨hsettled, fun _ => rfl⟩

theorem voted_waiting (hq : s.prods p = some q) (hstate : q.state = .requestInProgress) :
    s.Voted p :=
  (voted_iff hq).mpr ⟨by rw [hstate]; decide, fun h => absurd hstate h⟩

theorem Voted.settled (h : s.Voted p) (hq : s.prods p = some q) :
    q.state ≠ .releaseInProgress :=
  ((voted_iff hq).mp h).1

/-- A released producer votes for nothing, whatever its bandwidths. -/
theorem voted_released (h : s.Voted p) (hq : s.prods p = some q) (hstate : q.state = .released)
    {q' : RmProdRes} (hq' : s'.prods p = some q') (hstate' : q'.state = .released)
    (hvote : s'.prodVote p = s.prodVote p) : s'.Voted p := by
  have hzero (r : RmResource) (hr : r.state = .released) : r.share = (0, 0) := by
    rw [RmResource.share, hr]
  have hshare := ((voted_iff hq).mp h).2 (by rw [hstate]; decide)
  refine (voted_iff hq').mpr ⟨by rw [hstate']; decide, fun _ => ?_⟩
  rw [hvote, hshare, hzero _ hstate, hzero _ hstate']

theorem setProd_prods_self (s : Rm) (p : RmProd) (q : RmProdRes) :
    (s.setProd p q).prods p = some q := update_self _ _ _

theorem modifyProd_prods_self (hq : s.prods p = some q) (f : RmProdRes → RmProdRes) :
    (s.modifyProd p f).prods p = some (f q) := by
  rw [modifyProd_eq hq, setProd_prods_self]

/-- A producer settles and votes, wherever it was. -/
theorem voted_settle (hs : ∀ p, s.Voted p) {s₁ : Rm} (h : Touches p s s₁) (hq : s₁.prods p = some q)
    (state : RmState) (hstate : state ≠ .releaseInProgress) (p' : RmProd) :
    (ipaRmPerfProfileChange (s₁.setProdState p state) (.inl p)).Voted p' :=
  voted_of_touches hs (h.trans ((touches_modifyProd s₁ p _).trans (touches_perf _ p)))
    (voted_perf (modifyProd_prods_self hq _) hstate) p'

theorem sameProds_notifyClients (s : Rm) (p : RmProd) (event : RmEvent) (reg : Bool) :
    SameProds s (ipaRmResourceProducerNotifyClients s p event reg) := by
  refine ⟨by rw [notifyClients_graph], ?_⟩
  unfold ipaRmResourceProducerNotifyClients
  split
  · rfl
  · apply PointwiseFold.proj_foldl Rm.prodVote
    intro s l
    split_ifs <;> rfl

theorem voted_producerHandleCb (hs : ∀ p, s.Voted p) (p : RmProd) (event : RmEvent)
    (p' : RmProd) : (ipaRmResourceProducerHandleCb s p event).Voted p' := by
  unfold ipaRmResourceProducerHandleCb
  cases hq : s.prods p with
  | none => exact hs p'
  | some q =>
    have hsettled := (hs p).settled hq
    cases hstate : q.state <;> cases event <;> simp only [hstate]
    case requestInProgress.granted =>
      split_ifs
      · refine (sameProds_notifyClients _ p _ _).voted (fun p' => ?_) p'
        exact voted_settle hs (touches_setProd s p _) (setProd_prods_self s p _) .granted
          (by decide) p'
      · refine voted_of_touches hs (touches_setProd s p _)
          (voted_waiting (setProd_prods_self s p _) ?_) p'
        exact hstate
      · exact hs p'
    case releaseInProgress.released => exact absurd hstate hsettled
    all_goals exact hs p'

theorem voted_foldl {κ : Type} {f : Rm → κ → Rm}
    (h : ∀ s i, (∀ p, s.Voted p) → ∀ p, (f s i).Voted p) (hs : ∀ p, s.Voted p) (is : List κ)
    (p : RmProd) : (is.foldl f s).Voted p := by
  induction is generalizing s with
  | nil => exact hs p
  | cons i is ih => exact ih (h s i hs)

theorem voted_consumerHandleCb (hs : ∀ p, s.Voted p) (c : RmCons) (event : RmEvent)
    (p : RmProd) : (ipaRmResourceConsumerHandleCb s c event).Voted p := by
  have hpeers (peers : RmProd → Option Bool) (event : RmEvent) {s : Rm} (hs : ∀ p, s.Voted p)
      (p : RmProd) : (handleCbPeers peers event s).Voted p := by
    refine voted_foldl (fun s p' hs p => ?_) hs _ p
    split_ifs
    · exact voted_producerHandleCb hs p' event p
    · exact hs p
  unfold ipaRmResourceConsumerHandleCb
  cases hk : s.conss c with
  | none => exact hs p
  | some k =>
    cases hstate : k.state <;> cases event <;> simp only [hstate]
    case requestInProgress.granted =>
      have hset : SameProds s (ipaRmPerfProfileChange (s.setCons c { k with state := .granted })
        (.inr c)) := (SameProds.perf _ c).after ⟨rfl, rfl⟩
      exact hpeers _ _ (hset.voted hs) p
    case releaseInProgress.released =>
      have hset : SameProds s (s.setCons c { k with state := .released }) := ⟨rfl, rfl⟩
      exact hpeers _ _ (hset.voted hs) p
    all_goals exact hs p

theorem setPeers_prods (hq : s.prods p = some q) (c : RmCons) (dep : Option Bool) :
    (s.setPeers p c dep).prods p = some { q with peers := update q.peers c dep } :=
  modifyProd_prods_self hq _

theorem touches_setPeers (s : Rm) (p : RmProd) (c : RmCons) (dep : Option Bool) :
    Touches p s (s.setPeers p c dep) :=
  touches_modifyProd s p _

theorem voted_addDependency (hs : ∀ p, s.Voted p) (p : RmProd) (c : RmCons) (user : Bool)
    (reply : RmReply) (p' : RmProd) :
    (ipaRmResourceAddDependency s p c user reply).1.Voted p' := by
  unfold ipaRmResourceAddDependency
  cases hq : s.prods p with
  | none => exact hs p'
  | some q =>
    cases hk : s.conss c with
    | none => exact hs p'
    | some k =>
      dsimp only
      by_cases hcheck : (ipaRmPeersListCheckDependency q p k c).isSome = true
      · rw [if_pos hcheck]
        exact hs p'
      rw [if_neg hcheck]
      have hsettled := (hs p).settled hq
      obtain ⟨q₁, hq₁, hstate₁⟩ : ∃ q₁, ((s.setPeers p c (some user)).modifyProd p
          fun q => { q with neededBw := q.neededBw + k.maxBw }).prods p = some q₁ ∧
            q₁.state = q.state :=
        ⟨_, modifyProd_prods_self (setPeers_prods hq c _) _, rfl⟩
      have htouches : Touches p s ((s.setPeers p c (some user)).modifyProd p
          fun q => { q with neededBw := q.neededBw + k.maxBw }) :=
        (touches_setPeers s p c _).trans (touches_modifyProd _ p _)
      have hvote : ((s.setPeers p c (some user)).modifyProd p
          fun q => { q with neededBw := q.neededBw + k.maxBw }).prodVote = s.prodVote := rfl
      generalize (s.setPeers p c (some user)).modifyProd p
        (fun q => { q with neededBw := q.neededBw + k.maxBw }) = s₁ at hq₁ htouches hvote ⊢
      -- while the consumer is asked, the producer waits
      have hsame := sameProds_request
        ((s₁.setProdState p .requestInProgress).addPendingRequest p 1) c q.maxBw true false reply
      obtain ⟨q₂, hq₂, hstate₂⟩ : ∃ q₂,
          ((s₁.setProdState p .requestInProgress).addPendingRequest p 1).prods p = some q₂ ∧
            q₂.state = .requestInProgress :=
        ⟨_, modifyProd_prods_self (modifyProd_prods_self hq₁ _) _, rfl⟩
      have ht := (htouches.trans (touches_modifyProd s₁ p _)).trans
        ((touches_modifyProd _ p _).trans (hsame.touches p))
      rw [← hsame.prods] at hq₂
      cases hstate : q.state
      case released =>
        exact voted_of_touches hs htouches (voted_released (hs p) hq hstate hq₁
          (hstate₁.trans hstate) (congrFun hvote p)) p'
      case releaseInProgress => exact absurd hstate hsettled
      all_goals
        dsimp only
        split_ifs
        · refine voted_of_touches hs (ht.trans ((touches_modifyProd _ p _).trans
            ((touches_modifyProd _ p _).trans (touches_perf _ p)))) (voted_perf
              (modifyProd_prods_self (modifyProd_prods_self hq₂ _) _) ?_) p'
          simp
        · exact voted_of_touches hs ht (voted_waiting hq₂ hstate₂) p'

theorem voted_deleteDependency (hs : ∀ p, s.Voted p) (p : RmProd) (c : RmCons) (user : Bool)
    (reply : RmReply) (p' : RmProd) :
    (ipaRmResourceDeleteDependency s p c user reply).1.Voted p' := by
  unfold ipaRmResourceDeleteDependency
  cases hq : s.prods p with
  | none => exact hs p'
  | some q =>
    cases hk : s.conss c with
    | none => exact hs p'
    | some k =>
      dsimp only
      split
      · exact hs p'
      rename_i addDepByUserspace _
      by_cases huser : addDepByUserspace ≠ user
      · rw [if_pos huser]
        exact hs p'
      rw [if_neg huser]
      have hsettled := (hs p).settled hq
      obtain ⟨q₁, hq₁, hstate₁⟩ : ∃ q₁, (s.modifyProd p fun q =>
          { q with neededBw := q.neededBw - k.maxBw }).prods p = some q₁ ∧ q₁.state = q.state :=
        ⟨_, modifyProd_prods_self hq _, rfl⟩
      have ht : Touches p s (s.modifyProd p fun q => { q with neededBw := q.neededBw - k.maxBw }) :=
        touches_modifyProd s p _
      have hvote : (s.modifyProd p fun q => { q with neededBw := q.neededBw - k.maxBw }).prodVote =
          s.prodVote := rfl
      generalize s.modifyProd p (fun q => { q with neededBw := q.neededBw - k.maxBw }) = s₁
        at hq₁ ht hvote ⊢
      have hcut (p' : RmProd) : (deleteDependencyState s₁ p q k).1.Voted p' ∧
          ∃ q₁, (deleteDependencyState s₁ p q k).1.prods p = some q₁ := by
        unfold deleteDependencyState
        cases hstate : q.state
        case released =>
          exact ⟨voted_of_touches hs ht (voted_released (hs p) hq hstate hq₁
            (hstate₁.trans hstate) (congrFun hvote p)) p', q₁, hq₁⟩
        case granted =>
          refine ⟨voted_of_touches hs (ht.trans (touches_perf s₁ p)) (voted_perf hq₁ ?_) p', q₁, ?_⟩
          · rw [hstate₁, hstate]
            decide
          · rw [perfProfileChange_graph, hq₁]
        case releaseInProgress => exact absurd hstate hsettled
        case requestInProgress =>
          dsimp only
          generalize (if q.pendingRequest > 0 then q.pendingRequest-1 else q.pendingRequest) = n
          have hq₂ : (s₁.modifyProd p fun q => { q with pendingRequest := n }).prods p =
              some { q₁ with pendingRequest := n } := modifyProd_prods_self hq₁ _
          have ht₂ := ht.trans (touches_modifyProd s₁ p fun q => { q with pendingRequest := n })
          split_ifs
          · have hgranted := voted_settle hs ht₂ hq₂ .granted (by decide) p'
            refine ⟨hgranted, { q₁ with pendingRequest := n, state := .granted }, ?_⟩
            dsimp only [push]
            rw [perfProfileChange_graph]
            exact modifyProd_prods_self hq₂ _
          · exact ⟨voted_of_touches hs ht₂ (voted_waiting hq₂ (hstate₁.trans hstate)) p', _, hq₂⟩
      generalize deleteDependencyState s₁ p q k = out at hcut ⊢
      obtain ⟨s₂, release⟩ := out
      have hs₂ (p' : RmProd) : s₂.Voted p' := (hcut p').1
      obtain ⟨q₂, hq₂⟩ := (hcut p).2
      -- the peers list is no part of the vote
      have hpeers : ∀ p', (s₂.setPeers p c none).Voted p' := by
        refine voted_of_touches hs₂ (touches_setPeers s₂ p c none) ?_
        obtain ⟨hsettled₂, hshare⟩ := (voted_iff hq₂).mp (hs₂ p)
        exact (voted_iff (setPeers_prods hq₂ c none)).mpr ⟨hsettled₂, hshare⟩
      cases release
      · exact hpeers p'
      · exact (sameProds_release _ c q.maxBw true reply).voted hpeers p'

theorem touches_producerRequestPeers (p : RmProd) (q : RmProdRes) (env : RmCons → RmReply)
    (cs : List RmCons) {s : Rm} {q₁ : RmProdRes} (hq : s.prods p = some q₁)
    (hstate : q₁.state = .requestInProgress) (result : ℤ) :
    Touches p s (producerRequestPeers p q env cs s result).1 ∧
      ∃ q₂, (producerRequestPeers p q env cs s result).1.prods p = some q₂ ∧
        q₂.state = .requestInProgress := by
  induction cs generalizing s q₁ result with
  | nil => exact ⟨fun _ _ => ⟨rfl, rfl⟩, q₁, hq, hstate⟩
  | cons c cs ih =>
    rw [producerRequestPeers]
    have hsame := sameProds_request (s.addPendingRequest p 1) c q.maxBw true false (env c)
    have ht : Touches p s _ := (touches_modifyProd s p _).trans (hsame.touches p)
    have hq₂ : (s.addPendingRequest p 1).prods p = some _ := modifyProd_prods_self hq _
    rw [← hsame.prods] at hq₂
    dsimp only
    generalize ipaRmResourceConsumerRequest (s.addPendingRequest p 1) c q.maxBw true false (env c) =
      out at ht hq₂ ⊢
    have hback : (out.1.addPendingRequest p (-1)).prods p = some _ := modifyProd_prods_self hq₂ _
    have htback : Touches p s (out.1.addPendingRequest p (-1)) :=
      ht.trans (touches_modifyProd out.1 p _)
    split_ifs
    · obtain ⟨hrest, hlast⟩ := ih hq₂ hstate eInProgress
      exact ⟨ht.trans hrest, hlast⟩
    · exact ⟨htback, _, hback, hstate⟩
    · obtain ⟨hrest, hlast⟩ := ih hback hstate result
      exact ⟨htback.trans hrest, hlast⟩
    · exact ih hq hstate result

theorem voted_producerRequest (hs : ∀ p, s.Voted p) (p : RmProd) (env : RmCons → RmReply)
    (p' : RmProd) : (ipaRmResourceProducerRequest s p env).1.Voted p' := by
  unfold ipaRmResourceProducerRequest
  cases hq : s.prods p with
  | none => exact hs p'
  | some q =>
    obtain ⟨hrest, q₂, hq₂, hstate₂⟩ := touches_producerRequestPeers p q env RmCons.all
      (setProd_prods_self s p { q with state := .requestInProgress, pendingRequest := 0 }) rfl 0
    have ht := (touches_setProd s p _).trans hrest
    dsimp only
    cases hstate : q.state
    case granted => exact hs p'
    case requestInProgress => exact hs p'
    all_goals
      dsimp only
      generalize producerRequestPeers p q env RmCons.all _ 0 = out at ht hq₂ ⊢
      obtain ⟨s₂, result, bail⟩ := out
      have hwaiting := voted_of_touches hs ht (voted_waiting hq₂ hstate₂) p'
      cases bail
      case true => exact hwaiting
      case false =>
        dsimp only
        split_ifs
        · exact voted_settle hs ht hq₂ .granted (by decide) p'
        · exact hwaiting

theorem sameProds_producerReleasePeers (p : RmProd) (q : RmProdRes) (env : RmCons → RmReply)
    (s : Rm) (cs : List RmCons) : SameProds s (cs.foldl (producerReleasePeer p q env) s) := by
  have hpeer (s : Rm) (c : RmCons) : SameProds s (producerReleasePeer p q env s c) := by
    unfold producerReleasePeer
    dsimp only
    split_ifs
    · have hsame := sameProds_release (s.addPendingRelease p 1) c q.maxBw true (env c)
      generalize (ipaRmResourceConsumerRelease (s.addPendingRelease p 1) c q.maxBw true (env c)).1 =
        s₁ at hsame ⊢
      refine ⟨?_, hsame.votes⟩
      -- what is added to the count is taken off again
      funext p'
      by_cases hp : p' = p
      · subst hp
        cases hq : s.prods p' <;>
          simp [addPendingRelease, modifyProd, RmDepGraph.modifyProd, hsame.prods, hq]
      · simp [addPendingRelease, modifyProd, RmDepGraph.modifyProd, hsame.prods, hp]
    · exact .refl s
  induction cs generalizing s with
  | nil => exact .refl s
  | cons c cs ih => exact (hpeer s c).trans (ih _)

/-- A release is not left half done. -/
theorem voted_producerRelease (hs : ∀ p, s.Voted p) (p : RmProd) (env : RmCons → RmReply) :
    (∀ p', (ipaRmResourceProducerRelease s p env).1.Voted p') ∧
      ∀ q, (ipaRmResourceProducerRelease s p env).1.prods p = some q → q.state = .released := by
  unfold ipaRmResourceProducerRelease
  cases hq : s.prods p with
  | none => exact ⟨hs, fun q h => by simp [hq] at h⟩
  | some q =>
    have hsettled := (hs p).settled hq
    dsimp only
    cases hstate : q.state
    case released =>
      refine ⟨hs, fun q₁ hq₁ => ?_⟩
      rw [← Option.some.inj (hq.symm.trans hq₁), hstate]
    case releaseInProgress => exact absurd hstate hsettled
    all_goals
      dsimp only
      have hpeers := sameProds_producerReleasePeers p q env
        (s.setProd p { q with state := .releaseInProgress, pendingRelease := 0 }) RmCons.all
      have hq₂ := (congrFun hpeers.prods p).trans (setProd_prods_self s p _)
      have ht := (touches_setProd s p _).trans (hpeers.touches p)
      generalize RmCons.all.foldl (producerReleasePeer p q env) _ = s₂ at hq₂ ht ⊢
      rw [if_pos (by simp [hq₂])]
      refine ⟨fun p' => voted_settle hs ht hq₂ .released (by decide) p', fun q₃ hq₃ => ?_⟩
      dsimp only [push] at hq₃
      rw [perfProfileChange_graph, show (s₂.setProdState p .released).prods p = some _ from
        modifyProd_prods_self hq₂ _] at hq₃
      rw [← Option.some.inj hq₃]

/-- A producer's bandwidth is written; where it is granted it votes again. -/
theorem voted_setBw (hs : ∀ p, s.Voted p) (hq : s.prods p = some q) {f : RmProdRes → RmProdRes}
    (hf : (f q).state = q.state) (p' : RmProd) :
    (if q.state = .granted then ipaRmPerfProfileChange (s.modifyProd p f) (.inl p)
      else s.modifyProd p f).Voted p' := by
  have hq' := modifyProd_prods_self hq f
  have ht := touches_modifyProd s p f
  cases hstate : q.state
  case released =>
    rw [if_neg (by decide)]
    exact voted_of_touches hs ht (voted_released (hs p) hq hstate hq' (hf.trans hstate) rfl) p'
  case requestInProgress =>
    rw [if_neg (by decide)]
    exact voted_of_touches hs ht (voted_waiting hq' (hf.trans hstate)) p'
  case granted =>
    rw [if_pos rfl]
    refine voted_of_touches hs (ht.trans (touches_perf _ p)) (voted_perf hq' ?_) p'
    rw [hf, hstate]
    decide
  case releaseInProgress => exact absurd hstate ((hs p).settled hq)

theorem voted_setPerfProfile (hs : ∀ p, s.Voted p) (name : RmName) (bw : BitVec 32)
    (p' : RmProd) : (ipaRmResourceSetPerfProfile s name bw).Voted p' := by
  unfold ipaRmResourceSetPerfProfile
  cases name with
  | inl p =>
    dsimp only
    cases hq : s.prods p with
    | none => exact hs p'
    | some q =>
      have hpeer (s : Rm) (c : RmCons) : SameProds s (profilePeerOfProd q bw s c) := by
        unfold profilePeerOfProd
        dsimp only
        split_ifs
        · exact (SameProds.perf _ c).after ⟨rfl, rfl⟩
        · exact ⟨rfl, rfl⟩
        · exact .refl s
      have hpeers : SameProds s (RmCons.all.foldl (profilePeerOfProd q bw) s) :=
        ⟨PointwiseFold.proj_foldl (fun s : Rm => s.prods) (fun s c => (hpeer s c).prods) s _,
          PointwiseFold.proj_foldl Rm.prodVote (fun s c => (hpeer s c).votes) s _⟩
      dsimp only
      by_cases hbw : bw = q.maxBw
      · rw [if_pos hbw]
        exact hs p'
      · rw [if_neg hbw]
        have hfold : SameProds s (if q.state = .granted ∨ q.state = .requestInProgress then
            RmCons.all.foldl (profilePeerOfProd q bw) s else s) := by
          split_ifs
          · exact hpeers
          · exact .refl s
        generalize (if q.state = .granted ∨ q.state = .requestInProgress then
          RmCons.all.foldl (profilePeerOfProd q bw) s else s) = s₁ at hfold ⊢
        have hq₁ := (congrFun hfold.prods p).trans hq
        exact voted_setBw (hfold.voted hs) hq₁ rfl p'
  | inr c =>
    dsimp only
    cases hk : s.conss c with
    | none => exact hs p'
    | some k =>
      have hpeers : ∀ p', (RmProd.all.foldl (profilePeerOfCons k bw) s).Voted p' := by
        refine voted_foldl (fun s p hs p' => ?_) hs _
        unfold profilePeerOfCons
        dsimp only
        cases hq : s.prods p with
        | none =>
          have hnone := modifyProd_none hq
            fun q => { q with neededBw := q.neededBw - k.maxBw + bw }
          rw [hnone, hq]
          simpa using hs p'
        | some q =>
          have hself := modifyProd_prods_self hq
            fun q => { q with neededBw := q.neededBw - k.maxBw + bw }
          rw [hself, Option.any_some]
          by_cases hpeer : (k.peers p).isSome = true
          · rw [if_pos hpeer]
            simpa only [decide_eq_true_eq] using voted_setBw hs hq (f := fun q => { q with
              neededBw := q.neededBw - k.maxBw + bw }) rfl p'
          · rw [if_neg hpeer]
            exact hs p'
      dsimp only
      generalize RmProd.all.foldl (profilePeerOfCons k bw) s = s₁ at hpeers ⊢
      have hmax : SameProds s₁ (s₁.modifyCons c fun k => { k with maxBw := bw }) := ⟨rfl, rfl⟩
      split_ifs
      · exact hs p'
      · exact (hmax.trans (.perf _ c)).voted hpeers p'
      · exact hmax.voted hpeers p'

theorem voted_deleteProducer (hs : ∀ p, s.Voted p) (p : RmProd) (env : RmEnv) (p' : RmProd) :
    (deleteProducer s p env).Voted p' := by
  have hcut : ∀ p', (RmCons.all.foldl (deletePeerOfProd p env) s).Voted p' := by
    refine voted_foldl (fun s c hs p' => ?_) hs _
    unfold deletePeerOfProd
    split
    · exact hs p'
    · exact voted_deleteDependency hs p c _ _ p'
  obtain ⟨hend, hreleased⟩ := voted_producerRelease hcut p (env p)
  have hgone {s₂ : Rm} (hs₂ : ∀ p', s₂.Voted p')
      (hreleased : ∀ q, s₂.prods p = some q → q.state = .released) :
      Voted { s₂ with prods := update s₂.prods p none } p' := by
    have ht : Touches p s₂ { s₂ with prods := update s₂.prods p none } :=
      fun p' hp => ⟨update_of_ne hp _ _, rfl⟩
    refine voted_of_touches hs₂ ht ?_ p'
    have hzero : s₂.prodVote p = (0, 0) := by
      have hp := hs₂ p
      cases hq : s₂.prods p with
      | none => rwa [Voted, hq] at hp
      | some q =>
        have hstate := hreleased q hq
        rw [((voted_iff hq).mp hp).2 (by rw [hstate]; decide), RmResource.share, hstate]
    have hself : update s₂.prods p none p = none := update_self _ _ _
    simp only [Voted, hself]
    exact hzero
  exact hgone hend hreleased

theorem voted_deleteConsumer (hs : ∀ p, s.Voted p) (c : RmCons) (env : RmEnv) (p' : RmProd) :
    (deleteConsumer s c env).Voted p' := by
  have hcut : ∀ p', (RmProd.all.foldl (deletePeerOfCons c env) s).Voted p' := by
    refine voted_foldl (fun s p hs p' => ?_) hs _
    unfold deletePeerOfCons
    split
    · exact hs p'
    · exact voted_deleteDependency hs p c _ _ p'
  have hgone {s₂ : Rm} (hs₂ : ∀ p', s₂.Voted p') :
      Voted { s₂ with conss := update s₂.conss c none } p' :=
    SameProds.voted (s := s₂) ⟨rfl, rfl⟩ hs₂ p'
  exact hgone hcut

theorem voted_handleWork (hs : ∀ p, s.Voted p) (reply : RmReply) (w : RmWork) (p : RmProd) :
    (handleWork s reply w).Voted p := by
  cases w with
  | notifyProd p' event reg => exact (sameProds_notifyClients s p' event reg).voted hs p
  | resourceCb name event =>
    simp only [handleWork]
    split
    · exact voted_consumerHandleCb hs _ _ p
    · exact hs p
  | resume c prev bw inc =>
    have hcalled (x : RmCall) : SameProds s (s.call x) := ⟨rfl, rfl⟩
    simp only [handleWork]
    split_ifs
    · unfold ipaRmResourceConsumerRequestWork
      dsimp only
      by_cases h0 : reply.driver = 0
      · rw [if_pos h0, if_pos rfl]
        exact voted_consumerHandleCb ((hcalled _).voted hs) c .granted p
      · rw [if_neg h0]
        by_cases hprog : reply.driver = eInProgress
        · rw [if_neg (not_not.mpr hprog)]
          exact (hcalled _).voted hs p
        · rw [if_pos hprog]
          exact ((hcalled _).trans ⟨rfl, rfl⟩).voted hs p
    · exact hs p
  | suspend c prev bw =>
    have hcalled (x : RmCall) : SameProds s (s.call x) := ⟨rfl, rfl⟩
    simp only [handleWork]
    split_ifs
    · unfold ipaRmResourceConsumerReleaseWork
      dsimp only
      generalize (if reply.driver = eInProgress then 0 else reply.driver) = result
      by_cases h0 : result = 0
      · rw [if_neg (not_not.mpr h0), if_pos rfl]
        exact (SameProds.perf _ c).voted
          (voted_consumerHandleCb ((hcalled _).voted hs) c .released) p
      · rw [if_pos h0]
        exact ((hcalled _).trans ⟨rfl, rfl⟩).voted hs p
    · exact hs p
  | notifyIpa volt bw => exact SameProds.voted ⟨rfl, rfl⟩ hs p

theorem voted_setListeners (hs : ∀ p, s.Voted p) (hq : s.prods p = some q) (ls : List RmListener)
    (p' : RmProd) : (s.setProd p { q with eventListeners := ls }).Voted p' := by
  refine voted_of_touches hs (touches_setProd s p _) ?_ p'
  exact (voted_iff (setProd_prods_self s p _)).mpr ((voted_iff hq).mp (hs p))

theorem voted_step (hs : ∀ p, s.Voted p) {a : RmAction} (hstep : s.step a = some s')
    (p : RmProd) : s'.Voted p := by
  cases a with
  | createResource name volt cb userData =>
    cases hstep
    unfold ipaRmCreateResource
    by_cases hvolt : volt < 0 ∨ volt ≥ ipaVoltageMax
    · rw [if_pos hvolt]
      exact hs p
    · rw [if_neg hvolt]
      split
      · rename_i p₁ _
        split_ifs with hsome
        · exact hs p
        · refine voted_of_touches hs (touches_setProd s p₁ _) ?_ p
          have hzero := hs p₁
          have hnone : s.prods p₁ = none := by simpa using hsome
          rw [Voted, hnone] at hzero
          exact (voted_iff (setProd_prods_self s p₁ _)).mpr ⟨by simp, fun _ => hzero⟩
      · split_ifs
        · exact hs p
        · exact SameProds.voted ⟨rfl, rfl⟩ hs p
      · split_ifs <;> exact hs p
  | deleteResource name env =>
    cases hstep
    unfold ipaRmDeleteResource
    split
    · split_ifs
      · exact voted_deleteProducer hs _ env p
      · exact hs p
    · split_ifs
      · exact voted_deleteConsumer hs _ env p
      · exact hs p
    · exact hs p
  | addDependency name dependsOn user env =>
    cases hstep
    unfold ipaRmAddDependency
    split
    · exact voted_addDependency hs _ _ _ _ p
    · exact hs p
  | deleteDependency name dependsOn user env =>
    cases hstep
    unfold ipaRmDeleteDependency
    split
    · exact voted_deleteDependency hs _ _ _ _ p
    · exact hs p
  | requestResource name env =>
    cases hstep
    unfold ipaRmRequestResource
    split
    · split_ifs
      · exact voted_producerRequest hs _ _ p
      · exact hs p
    · exact hs p
  | releaseResource name env =>
    cases hstep
    unfold ipaRmReleaseResource
    split
    · split_ifs
      · exact (voted_producerRelease hs _ _).1 p
      · exact hs p
    · exact hs p
  | requestResourceWithTimer name reply workAlloc =>
    cases hstep
    unfold ipaRmRequestResourceWithTimer
    by_cases hcons : ipaRmResorceIsCons name = true
    · rw [if_pos hcons]
      split
      · rename_i c hname
        have hasked := (sameProds_request s c 0 false true reply).voted hs p
        by_cases hsome : (s.conss c).isSome = true
        · rw [if_pos hsome]
          dsimp only
          split_ifs <;> exact hasked
        · rw [if_neg hsome]
          exact hs p
      · exact hs p
    · rw [if_neg hcons]
      exact hs p
  | delayedRelease c reply =>
    simp only [step] at hstep
    split_ifs at hstep
    cases hstep
    have hfired : SameProds s { s with delayed := s.delayed.erase c } := ⟨rfl, rfl⟩
    exact (sameProds_release _ c 0 false reply).voted (hfired.voted hs) p
  | register name cb userData =>
    cases hstep
    unfold ipaRmRegister
    split
    · split
      · exact hs p
      · rename_i q hq
        unfold ipaRmResourceProducerRegister
        split_ifs
        · exact hs p
        · exact voted_setListeners hs hq _ p
    · exact hs p
  | deregister name cb =>
    cases hstep
    unfold ipaRmDeregister
    split
    · split
      · exact hs p
      · rename_i q hq
        unfold ipaRmResourceProducerDeregister
        split_ifs
        · exact voted_setListeners hs hq _ p
        · exact hs p
    · exact hs p
  | setPerfProfile name bw =>
    cases hstep
    unfold ipaRmSetPerfProfile
    split
    · exact hs p
    · split_ifs
      · exact voted_setPerfProfile hs _ bw p
      · exact hs p
  | notifyCompletion event name =>
    cases hstep
    unfold ipaRmNotifyCompletion
    split_ifs <;> exact hs p
  | work reply =>
    simp only [step] at hstep
    cases hwq : s.wq with
    | nil => simp [hwq] at hstep
    | cons w wq =>
      rw [hwq] at hstep
      cases hstep
      have hpopped : SameProds s { s with wq := wq } := ⟨rfl, rfl⟩
      exact voted_handleWork (hpopped.voted hs) reply w p

/-- Errors and lost work items included: a granted producer votes for its share, a producer that
is released or gone for nothing, and without any other there is no bandwidth. -/
theorem votes_of_run {as : List RmAction} {t : Rm} (hrun : Transition.run step {} as = some t) :
    (∀ p q, t.prods p = some q → q.state = .granted →
      t.prodVote p = (u32Min q.maxBw q.neededBw, q.floorVoltage)) ∧
    (∀ p, (∀ q, t.prods p = some q → q.state = .released) → t.prodVote p = (0, 0)) ∧
    ((∀ p q, t.prods p = some q → q.state = .released) → t.vote.currBw = 0) := by
  have h : ∀ p, t.Voted p := Transition.run_inv (fun _ _ _ hs hstep => voted_step hs hstep) hrun
    fun p => (rfl : prodVote {} p = (0, 0))
  have hnone (p : RmProd) (hp : ∀ q, t.prods p = some q → q.state = .released) :
      t.prodVote p = (0, 0) := by
    have hvoted := h p
    cases hq : t.prods p with
    | none => rwa [Voted, hq] at hvoted
    | some q =>
      rw [((voted_iff hq).mp hvoted).2 (by rw [hp q hq]; decide), RmResource.share, hp q hq]
  refine ⟨fun p q hq hgranted => ?_, hnone, fun hall => ?_⟩
  · rw [((voted_iff hq).mp (h p)).2 (by rw [hgranted]; decide), RmResource.share, hgranted]
  · rw [(toldOk_of_run hrun).summed.2]
    have hzero : RmProd.all.map (fun p => t.vote.bwResources (.inl p)) =
        RmProd.all.map fun _ => 0 :=
      List.map_congr_left fun p _ => congrArg Prod.fst (hnone p (hall p))
    have hsum : (RmProd.all.map fun _ => (0 : BitVec 32)).sum = 0 := by decide
    rw [hzero, hsum, u32Min]
    split_ifs
    · rfl
    · bv_omega

/-- Two producers get the same consumer, with less bandwidth than the one may have and more than
the other, and the second is released. -/
def twoGrants : List RmAction :=
  [.createResource 12 1 7 0, .createResource 14 1 8 0, .createResource 1 2 0 0,
    .setPerfProfile 12 100, .setPerfProfile 14 60, .setPerfProfile 1 80,
    .addDependency 12 1 false fun _ _ => {}, .addDependency 14 1 false fun _ _ => {},
    .requestResource 12 fun _ _ => {}, .requestResource 14 fun _ _ => {}, .work {},
    .releaseResource 14 fun _ _ => {}]

theorem votes_of_run_twoGrants :
    (∃ t, Transition.run step {} twoGrants = some t ∧
      t.prodVote .wwan0Prod = (80, 1) ∧ t.prodVote .wlanProd = (0, 0)) ∧
    ∃ t, Transition.run step {} (twoGrants ++ [.releaseResource 12 fun _ _ => {}]) = some t ∧
      t.vote.currBw = 0 := by
  constructor
  · obtain ⟨t, hrun, hstates⟩ := (Option.any_eq_true _ _).mp (show (Transition.run step {}
      twoGrants).any (fun t => (t.prods .wwan0Prod).any (fun q => q.state = .granted &&
        q.maxBw = 100 && q.neededBw = 80 && q.floorVoltage = 1) &&
          (t.prods .wlanProd).all (·.state = .released)) = true by decide)
    obtain ⟨hgranted, hreleased⟩ := Bool.and_eq_true_iff.mp hstates
    obtain ⟨q, hq, hfields⟩ := (Option.any_eq_true _ _).mp hgranted
    simp only [Bool.and_eq_true, decide_eq_true_eq] at hfields
    obtain ⟨⟨⟨hstate, hmax⟩, hneeded⟩, hvolt⟩ := hfields
    obtain ⟨hshare, hnone, -⟩ := votes_of_run hrun
    refine ⟨t, hrun, ?_, hnone .wlanProd fun q' hq' => ?_⟩
    · rw [hshare .wwan0Prod q hq hstate, hmax, hneeded, hvolt]
      rfl
    · rw [hq'] at hreleased
      simpa using hreleased
  · obtain ⟨t, hrun, hreleased⟩ := (Option.any_eq_true _ _).mp (show (Transition.run step {}
      (twoGrants ++ [.releaseResource 12 fun _ _ => {}])).any (fun t => RmProd.all.all fun p =>
        (t.prods p).all (·.state = .released)) = true by decide)
    obtain ⟨-, -, hzero⟩ := votes_of_run hrun
    refine ⟨t, hrun, hzero fun p q hq => ?_⟩
    have hp := List.all_eq_true.mp hreleased p (RmProd.mem_all p)
    rw [hq] at hp
    simpa using hp

end Rm

end X00TDCellular
