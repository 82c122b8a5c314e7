import Mathlib.Logic.Relation
import X00TDCellular.IpaRmSpec

/-! The single writes that the operations of the resource manager are made of, errors and
failed allocations included. What every write keeps holds in every run. -/

namespace X00TDCellular
open Function

namespace Rm

variable {s s' : Rm} {p : RmProd} {c : RmCons} {q : RmProdRes} {k : RmConsRes} {L K : Prop}

/-- One write, the peers lists apart. Only where `L` holds does it leave a consumer in
REQUEST_IN_PROGRESS with neither its work on the queue nor an answer to come. -/
inductive Write (L : Prop) (s : Rm) : Rm → Prop
  | prod {p : RmProd} {q : RmProdRes} (hq : s.prods p = some q) (q' : RmProdRes)
      (hpeers : q'.peers = q.peers) : Write L s (s.setProd p q')
  | cons {c : RmCons} {k : RmConsRes} (hk : s.conss c = some k) (k' : RmConsRes)
      (hpeers : k'.peers = k.peers)
      (hstate : k'.state = .requestInProgress → k.state = .requestInProgress ∨ L) :
      Write L s (s.setCons c k')
  | resume {c : RmCons} {k : RmConsRes} (hk : s.conss c = some k) (k' : RmConsRes)
      (hpeers : k'.peers = k.peers) {prev : RmState} (hprev : prev ≠ .requestInProgress)
      (bw : BitVec 32) (inc : Bool) :
      Write L s ((s.setCons c k').push (.resume c prev bw inc))
  | asked {c : RmCons} {k : RmConsRes} (hk : s.conss c = some k) (k' : RmConsRes)
      (hpeers : k'.peers = k.peers) (result : ℤ)
      (hstate : k'.state = .requestInProgress → result = eInProgress ∨ L) :
      Write L s ((s.call (.requestResource c result)).setCons c k')
  | perf (name : RmName) : Write L s (ipaRmPerfProfileChange s name)
  | notifyProd (p : RmProd) (event : RmEvent) (reg : Bool) :
      Write L s (s.push (.notifyProd p event reg))
  | resourceCb (name : ℕ) (event : RmEvent) : Write L s (s.push (.resourceCb name event))
  | suspend (c : RmCons) (prev : RmState) (bw : BitVec 32) :
      Write L s (s.push (.suspend c prev bw))
  | released (c : RmCons) (result : ℤ) : Write L s (s.call (.releaseResource c result))
  | notified (p : RmProd) (l : RmListener) (event : RmEvent) :
      Write L s (s.call (.notifyCb p l event))
  | delayed (ds : List RmCons) : Write L s { s with delayed := ds }

abbrev Writes (L : Prop) : Rm → Rm → Prop := Relation.ReflTransGen (Write L)

theorem Write.writes (h : Write L s s') : Writes L s s' := .single h

theorem writes_foldl {κ : Type} {f : Rm → κ → Rm} (h : ∀ s i, Writes L s (f s i)) (s : Rm)
    (is : List κ) : Writes L s (is.foldl f s) := by
  induction is generalizing s with
  | nil => exact .refl
  | cons i is ih => exact (h s i).trans (ih (f s i))

theorem modifyCons_eq (hk : s.conss c = some k) (f : RmConsRes → RmConsRes) :
    s.modifyCons c f = s.setCons c (f k) := by
  rw [modifyCons, RmDepGraph.modifyCons_eq _ c hk, setCons]

theorem modifyProd_eq (hq : s.prods p = some q) (f : RmProdRes → RmProdRes) :
    s.modifyProd p f = s.setProd p (f q) := by
  rw [modifyProd, RmDepGraph.modifyProd_eq _ p hq, setProd]

theorem modifyCons_none (hk : s.conss c = none) (f : RmConsRes → RmConsRes) :
    s.modifyCons c f = s := by
  rw [modifyCons, RmDepGraph.modifyCons, hk, Option.map_none, ← hk, update_eq_self]

theorem modifyProd_none (hq : s.prods p = none) (f : RmProdRes → RmProdRes) :
    s.modifyProd p f = s := by
  rw [modifyProd, RmDepGraph.modifyProd, hq, Option.map_none, ← hq, update_eq_self]

theorem writes_setProd (hq : s.prods p = some q) {q' : RmProdRes} (hpeers : q'.peers = q.peers) :
    Writes L s (s.setProd p q') :=
  (Write.prod hq q' hpeers).writes

theorem writes_setCons (hk : s.conss c = some k) {k' : RmConsRes} (hpeers : k'.peers = k.peers)
    (hstate : k'.state = .requestInProgress → k.state = .requestInProgress ∨ L) :
    Writes L s (s.setCons c k') :=
  (Write.cons hk k' hpeers hstate).writes

theorem writes_modifyProd (s : Rm) (p : RmProd) {f : RmProdRes → RmProdRes}
    (hpeers : ∀ q, (f q).peers = q.peers) : Writes L s (s.modifyProd p f) := by
  cases hq : s.prods p with
  | none => rw [modifyProd_none hq]
  | some q =>
    rw [modifyProd_eq hq]
    exact writes_setProd hq (hpeers q)

theorem writes_modifyCons (s : Rm) (c : RmCons) {f : RmConsRes → RmConsRes}
    (hpeers : ∀ k, (f k).peers = k.peers)
    (hstate : ∀ k, (f k).state = .requestInProgress → k.state = .requestInProgress ∨ L) :
    Writes L s (s.modifyCons c f) := by
  cases hk : s.conss c with
  | none => rw [modifyCons_none hk]
  | some k =>
    rw [modifyCons_eq hk]
    exact writes_setCons hk (hpeers k) (hstate k)

theorem writes_setProdState (s : Rm) (p : RmProd) (state : RmState) :
    Writes L s (s.setProdState p state) :=
  writes_modifyProd s p fun _ => rfl

/-- A producer settles in a state, and votes. -/
theorem writes_settle (s : Rm) (p : RmProd) (state : RmState) :
    Writes L s (ipaRmPerfProfileChange (s.setProdState p state) (.inl p)) :=
  (writes_setProdState s p state).tail (.perf _)

theorem writes_notifyClients (s : Rm) (p : RmProd) (event : RmEvent) (reg : Bool) :
    Writes L s (ipaRmResourceProducerNotifyClients s p event reg) := by
  unfold ipaRmResourceProducerNotifyClients
  split
  · exact .refl
  · apply writes_foldl
    intro s l
    split_ifs
    · exact .refl
    · exact (Write.notified p l event).writes

theorem writes_producerHandleCb (s : Rm) (p : RmProd) (event : RmEvent) :
    Writes L s (ipaRmResourceProducerHandleCb s p event) := by
  unfold ipaRmResourceProducerHandleCb
  cases hq : s.prods p with
  | none => exact .refl
  | some q =>
    have hcount (q' : RmProdRes) (hpeers : q'.peers = q.peers) (state : RmState) (event : RmEvent) :
        Writes L s (ipaRmResourceProducerNotifyClients (ipaRmPerfProfileChange
          ((s.setProd p q').modifyProd p fun q => { q with state := state }) (.inl p))
            p event false) :=
      (writes_setProd hq hpeers).trans <| (writes_settle _ p state).trans
        (writes_notifyClients _ p event false)
    cases hstate : q.state <;> cases event <;> simp only [hstate]
    case requestInProgress.granted =>
      split_ifs
      · exact hcount _ (by rfl) _ _
      · exact writes_setProd hq rfl
      · exact .refl
    case releaseInProgress.released =>
      split_ifs
      · exact hcount _ (by rfl) _ _
      · exact writes_setProd hq rfl
      · exact .refl
    all_goals exact .refl

theorem writes_handleCbPeers (peers : RmProd → Option Bool) (event : RmEvent) (s : Rm) :
    Writes L s (handleCbPeers peers event s) := by
  apply writes_foldl
  intro s p
  split_ifs
  · exact writes_producerHandleCb s p event
  · exact .refl

theorem writes_consumerHandleCb (s : Rm) (c : RmCons) (event : RmEvent) :
    Writes L s (ipaRmResourceConsumerHandleCb s c event) := by
  unfold ipaRmResourceConsumerHandleCb
  cases hk : s.conss c with
  | none => exact .refl
  | some k =>
    cases hstate : k.state <;> cases event <;> simp only [hstate]
    case requestInProgress.granted =>
      refine (Write.cons hk { k with state := .granted } rfl (by simp)).writes.trans ?_
      exact (Write.perf _).writes.trans (writes_handleCbPeers _ _ _)
    case releaseInProgress.released =>
      refine (Write.cons hk { k with state := .released } rfl (by simp)).writes.trans ?_
      exact writes_handleCbPeers _ _ _
    all_goals exact .refl

/-- A consumer's driver is called and answers; its record is written at once. -/
theorem writes_consumerRequestWork (hk : s.conss c = some k) (prev : RmState)
    (bw : BitVec 32) (notify dec : Bool) (driver : ℤ)
    (hprev : prev = .requestInProgress → driver = 0 ∨ driver = eInProgress ∨ L) :
    ∃ k', k'.peers = k.peers ∧
      (k'.state = .requestInProgress → driver = eInProgress ∨ L) ∧
      Writes L ((s.call (.requestResource c driver)).setCons c k')
        (ipaRmResourceConsumerRequestWork s c prev bw notify dec driver).1 := by
  have hk' : (s.call (.requestResource c driver)).conss c = some k := hk
  have hself : (s.call (.requestResource c driver)).setCons c k =
      s.call (.requestResource c driver) := by
    rw [setCons, RmDepGraph.setCons_eq_self _ c hk']
  unfold ipaRmResourceConsumerRequestWork
  dsimp only
  by_cases h0 : driver = 0
  · rw [if_pos h0]
    cases notify
    case true =>
      unfold ipaRmResourceConsumerHandleCb
      rw [if_pos rfl, hk']
      cases hstate : k.state <;> simp only [hstate]
      case requestInProgress =>
        refine ⟨{ k with state := .granted }, rfl, by simp, ?_⟩
        exact (Write.perf _).writes.trans (writes_handleCbPeers _ _ _)
      all_goals
        refine ⟨k, rfl, by simp [hstate], ?_⟩
        rw [hself]
    case false =>
      rw [if_neg (by decide), modifyCons_eq hk']
      exact ⟨{ k with state := .granted }, rfl, by simp, (Write.perf _).writes⟩
  · rw [if_neg h0]
    by_cases hprog : driver = eInProgress
    · rw [if_neg (not_not.mpr hprog)]
      exact ⟨k, rfl, fun _ => .inl hprog, by rw [hself]⟩
    · rw [if_pos hprog]
      dsimp only
      rw [modifyCons_eq hk']
      exact ⟨_, by rfl, fun h => (hprev h).resolve_left h0, .refl⟩

theorem setCons_setCons (s : Rm) (c : RmCons) (k k' : RmConsRes) :
    (s.setCons c k).setCons c k' = s.setCons c k' := by
  simp [setCons]

/-- The consumer is set to REQUEST_IN_PROGRESS for the call of its driver. -/
theorem writes_started (hk : s.conss c = some k) {prev : RmState}
    (hprev : prev ≠ .requestInProgress) (bw : BitVec 32) (inc : Bool) (driver : ℤ) :
    Writes L s (ipaRmResourceConsumerRequestWork
      (s.modifyCons c fun k => { k with state := .requestInProgress }) c prev bw false inc
        driver).1 := by
  have hk' : (s.setCons c { k with state := .requestInProgress }).conss c =
      some { k with state := .requestInProgress } := update_self _ _ _
  obtain ⟨k', hpeers, hstate, hwrites⟩ :=
    writes_consumerRequestWork (L := L) hk' prev bw false inc driver
      fun h => absurd h hprev
  have hcall : ((s.setCons c { k with state := .requestInProgress }).call
      (.requestResource c driver)).setCons c k' =
        (s.call (.requestResource c driver)).setCons c k' :=
    setCons_setCons (s.call (.requestResource c driver)) c _ k'
  rw [hcall] at hwrites
  rw [modifyCons_eq hk]
  exact (Write.asked hk k' hpeers driver hstate).writes.trans hwrites

theorem writes_consumerRequestState (hk : s.conss c = some k) (bw : BitVec 32)
    (inc wake : Bool) {reply : RmReply} (halloc : reply.alloc = true ∨ L) :
    Writes L s (consumerRequestState s c k.state bw inc wake reply).1 := by
  have hlater {prev : RmState} (hprev : prev ≠ .requestInProgress) : Writes L s (if reply.alloc then
      (s.modifyCons c fun k => { k with state := .requestInProgress }).push (.resume c prev bw inc)
        else s.modifyCons c fun k => { k with state := .requestInProgress }) := by
    rw [modifyCons_eq hk]
    obtain halloc | hL := halloc
    · rw [if_pos halloc]
      exact (Write.resume hk _ (by rfl) hprev bw inc).writes
    · split_ifs
      · exact (Write.resume hk _ (by rfl) hprev bw inc).writes
      · exact writes_setCons hk rfl fun _ => .inr hL
  unfold consumerRequestState
  cases hstate : k.state
  case released =>
    by_cases hlate : RmState.released = .releaseInProgress ∨ reply.clksNoBlock = false
    · dsimp only
      rw [if_pos hlate]
      exact hlater (by decide)
    · dsimp only
      rw [if_neg hlate]
      exact writes_started hk (by decide) bw inc _
  case releaseInProgress =>
    dsimp only
    rw [if_pos (.inl rfl)]
    exact hlater (by decide)
  case granted =>
    cases wake
    case false => exact (Write.perf _).writes
    case true =>
      obtain ⟨k', hpeers, hstate', hwrites⟩ :=
        writes_consumerRequestWork (L := L) hk .granted bw false inc reply.driver
          fun h => absurd h (by decide)
      exact (Write.asked hk k' hpeers _ hstate').writes.trans hwrites
  case requestInProgress => exact .refl

theorem writes_consumerRequest (s : Rm) (c : RmCons) (bw : BitVec 32) (inc wake : Bool)
    {reply : RmReply} (halloc : reply.alloc = true ∨ L) :
    Writes L s (ipaRmResourceConsumerRequest s c bw inc wake reply).1 := by
  unfold ipaRmResourceConsumerRequest
  cases hk : s.conss c with
  | none => exact .refl
  | some k =>
    dsimp only
    have hcounted : Writes L s (s.setCons c { k with neededBw := k.neededBw + bw }) :=
      writes_setCons hk rfl fun h => .inl h
    have hk' : (s.setCons c { k with neededBw := k.neededBw + bw }).conss c =
      some { k with neededBw := k.neededBw + bw } := update_self _ _ _
    have hstate := hcounted.trans (writes_consumerRequestState hk' bw inc wake halloc)
    split_ifs
    · exact hstate.trans (writes_modifyCons _ c (fun _ => rfl) fun _ h => .inl h)
    · exact hstate

theorem writes_consumerReleaseWork (s : Rm) (c : RmCons) {prev : RmState} (notify : Bool)
    {driver : ℤ} (hprev : prev = .requestInProgress → driver = 0 ∨ driver = eInProgress ∨ L) :
    Writes L s (ipaRmResourceConsumerReleaseWork s c prev notify driver).1 := by
  unfold ipaRmResourceConsumerReleaseWork
  dsimp only
  refine (Write.released c driver).writes.trans ?_
  by_cases hok : (if driver = eInProgress then 0 else driver) = 0
  · rw [if_neg (not_not.mpr hok)]
    refine .tail ?_ (Write.perf _)
    split_ifs
    · exact writes_consumerHandleCb _ c .released
    · exact writes_modifyCons _ c (fun _ => rfl) (by simp)
  · rw [if_pos hok]
    refine writes_modifyCons _ c (fun _ => rfl) fun _ h => ?_
    obtain h0 | hprog | hL := hprev h
    · simp [h0] at hok
    · simp [hprog] at hok
    · exact .inr hL

theorem writes_consumerRelease (s : Rm) (c : RmCons) (bw : BitVec 32) (dec : Bool)
    (reply : RmReply) : Writes L s (ipaRmResourceConsumerRelease s c bw dec reply).1 := by
  unfold ipaRmResourceConsumerRelease
  cases hk : s.conss c with
  | none => exact .refl
  | some k =>
    dsimp only
    generalize (if dec = true ∧ k.usageCount > 0 then k.usageCount-1 else k.usageCount) = usage
    have hcounted : Writes L s (s.setCons c { k with neededBw := k.neededBw - bw }) :=
      writes_setCons hk rfl fun h => .inl h
    generalize s.setCons c { k with neededBw := k.neededBw - bw } = s₁ at hcounted ⊢
    have hused := hcounted.trans (writes_modifyCons (L := L) _ c
      (f := fun k => { k with usageCount := usage }) (fun _ => rfl) fun _ h => .inl h)
    have hclosing := hused.trans (writes_modifyCons (L := L) _ c
      (f := fun k => { k with state := .releaseInProgress }) (fun _ => rfl) (by simp))
    cases hstate : k.state <;> dsimp only
    case released => exact hcounted
    case releaseInProgress => exact hused
    case granted =>
      by_cases hzero : usage = 0
      · simp only [hzero, if_true, reduceCtorEq, false_or] at hclosing ⊢
        split_ifs
        · exact hclosing.tail (.suspend _ _ _)
        · exact hclosing
        · exact hclosing.trans (writes_consumerReleaseWork _ c false fun h => absurd h (by decide))
      · simp only [hzero, if_false, if_true]
        exact hused.tail (.perf _)
    case requestInProgress =>
      by_cases hzero : usage = 0
      · simp only [hzero, if_true, true_or] at hclosing ⊢
        split_ifs
        · exact hclosing.tail (.suspend _ _ _)
        · exact hclosing
      · simpa only [hzero, if_false, reduceCtorEq] using hused

theorem writes_addPendingRequest (s : Rm) (p : RmProd) (n : ℤ) :
    Writes L s (s.addPendingRequest p n) :=
  writes_modifyProd s p fun _ => rfl

theorem writes_addPendingRelease (s : Rm) (p : RmProd) (n : ℤ) :
    Writes L s (s.addPendingRelease p n) :=
  writes_modifyProd s p fun _ => rfl

/-- A new dependency is entered first; all that follows are writes. -/
theorem writes_addDependency (s : Rm) (p : RmProd) (c : RmCons) (user : Bool) (reply : RmReply)
    (halloc : reply.alloc = true ∨ L) :
    ((∀ q k, s.prods p = some q → s.conss c = some k →
        ipaRmPeersListCheckDependency q p k c ≠ none) ∧
      (ipaRmResourceAddDependency s p c user reply).1 = s) ∨
      ∃ q k, s.prods p = some q ∧ s.conss c = some k ∧
        ipaRmPeersListCheckDependency q p k c = none ∧
        Writes L (s.setPeers p c (some user)) (ipaRmResourceAddDependency s p c user reply).1 := by
  unfold ipaRmResourceAddDependency
  cases hq : s.prods p with
  | none => exact .inl ⟨fun _ _ h => (nomatch h), rfl⟩
  | some q =>
    cases hk : s.conss c with
    | none => exact .inl ⟨fun _ _ _ h => (nomatch h), rfl⟩
    | some k =>
      by_cases hcheck : (ipaRmPeersListCheckDependency q p k c).isSome = true
      · refine .inl ⟨fun q' k' hq' hk' => ?_, by simp only [hcheck, if_true]⟩
        obtain rfl := Option.some.inj hq'
        obtain rfl := Option.some.inj hk'
        exact Option.isSome_iff_ne_none.mp hcheck
      · refine .inr ⟨q, k, rfl, rfl, by simpa using hcheck, ?_⟩
        dsimp only
        rw [if_neg hcheck]
        have hneeded := writes_modifyProd (L := L) (s.setPeers p c (some user)) p
          (f := fun q => { q with neededBw := q.neededBw + k.maxBw }) fun _ => rfl
        generalize ((s.setPeers p c (some user)).modifyProd p
          fun q => { q with neededBw := q.neededBw + k.maxBw }) = s₁ at hneeded
        have hactive : Writes L (s.setPeers p c (some user))
            (ipaRmResourceConsumerRequest ((s₁.setProdState p .requestInProgress).addPendingRequest
              p 1) c q.maxBw true false reply).1 :=
          hneeded.trans <| (writes_setProdState _ p _).trans <|
            (writes_addPendingRequest _ p 1).trans (writes_consumerRequest _ c _ _ _ halloc)
        cases q.state
        case released => exact hneeded
        case releaseInProgress => exact hneeded
        all_goals
          dsimp only
          split_ifs
          · exact hactive.trans <| (writes_setProdState _ p _).trans <|
              (writes_addPendingRequest _ p (-1)).tail (.perf _)
          · exact hactive

theorem writes_deleteDependencyState (s : Rm) (p : RmProd) (q : RmProdRes) (k : RmConsRes) :
    Writes L s (deleteDependencyState s p q k).1 := by
  unfold deleteDependencyState
  cases q.state
  case released => exact .refl
  case granted => exact (Write.perf _).writes
  case releaseInProgress =>
    dsimp only
    generalize (if q.pendingRelease > 0 then q.pendingRelease-1 else q.pendingRelease) = n
    have hpending := writes_modifyProd (L := L) s p
      (f := fun q => { q with pendingRelease := n }) fun _ => rfl
    split_ifs
    · exact (hpending.trans (writes_settle _ p .released)).tail (.notifyProd _ _ _)
    · exact hpending
  case requestInProgress =>
    dsimp only
    generalize (if q.pendingRequest > 0 then q.pendingRequest-1 else q.pendingRequest) = n
    have hpending := writes_modifyProd (L := L) s p
      (f := fun q => { q with pendingRequest := n }) fun _ => rfl
    split_ifs
    · exact (hpending.trans (writes_settle _ p .granted)).tail (.notifyProd _ _ _)
    · exact hpending

/-- A dependency is taken out by the call that names who added it, and by no other. -/
theorem writes_deleteDependency (s : Rm) (p : RmProd) (c : RmCons) (user : Bool)
    (reply : RmReply) :
    ((∀ q k, s.prods p = some q → s.conss c = some k →
        ipaRmPeersListCheckDependency q p k c ≠ some user) ∧
      (ipaRmResourceDeleteDependency s p c user reply).1 = s) ∨
      ∃ q k, s.prods p = some q ∧ s.conss c = some k ∧
        ipaRmPeersListCheckDependency q p k c = some user ∧
        ∃ s₁, Writes L s s₁ ∧
          Writes L (s₁.setPeers p c none) (ipaRmResourceDeleteDependency s p c user reply).1 := by
  unfold ipaRmResourceDeleteDependency
  cases hq : s.prods p with
  | none => exact .inl ⟨fun _ _ h => (nomatch h), rfl⟩
  | some q =>
    cases hk : s.conss c with
    | none => exact .inl ⟨fun _ _ _ h => (nomatch h), rfl⟩
    | some k =>
      dsimp only
      cases hcheck : ipaRmPeersListCheckDependency q p k c with
      | none =>
        refine .inl ⟨fun q' k' hq' hk' => ?_, rfl⟩
        obtain rfl := Option.some.inj hq'
        obtain rfl := Option.some.inj hk'
        simp [hcheck]
      | some user' =>
        by_cases huser : user' = user
        · subst huser
          refine .inr ⟨q, k, rfl, rfl, hcheck, _, .trans (writes_modifyProd s p
            (f := fun q => { q with neededBw := q.neededBw - k.maxBw }) fun _ => rfl)
              (writes_deleteDependencyState _ p q k), ?_⟩
          simp only [ne_eq, not_true_eq_false, if_false]
          split_ifs
          · exact writes_consumerRelease _ c _ _ _
          · exact .refl
        · refine .inl ⟨fun q' k' hq' hk' => ?_, by dsimp only; rw [if_pos huser]⟩
          obtain rfl := Option.some.inj hq'
          obtain rfl := Option.some.inj hk'
          simpa [hcheck] using huser

theorem writes_producerRequestPeers (p : RmProd) (q : RmProdRes) {env : RmCons → RmReply}
    (halloc : ∀ c, (env c).alloc = true ∨ L) (cs : List RmCons) (s : Rm) (result : ℤ) :
    Writes L s (producerRequestPeers p q env cs s result).1 := by
  induction cs generalizing s result with
  | nil => exact .refl
  | cons c cs ih =>
    have hasked : Writes L s
        (ipaRmResourceConsumerRequest (s.addPendingRequest p 1) c q.maxBw true false (env c)).1 :=
      (writes_addPendingRequest s p 1).trans (writes_consumerRequest _ c _ _ _ (halloc c))
    have hback := hasked.trans (writes_addPendingRequest (L := L) _ p (-1))
    rw [producerRequestPeers]
    dsimp only
    split_ifs
    · exact hasked.trans (ih _ _)
    · exact hback
    · exact hback.trans (ih _ _)
    · exact ih _ _

theorem writes_producerRequest (s : Rm) (p : RmProd) {env : RmCons → RmReply}
    (halloc : ∀ c, (env c).alloc = true ∨ L) :
    Writes L s (ipaRmResourceProducerRequest s p env).1 := by
  unfold ipaRmResourceProducerRequest
  cases hq : s.prods p with
  | none => exact .refl
  | some q =>
    have hstarted : Writes L s
        (s.setProd p { q with state := .requestInProgress, pendingRequest := 0 }) :=
      writes_setProd hq rfl
    have hpeers := hstarted.trans (writes_producerRequestPeers p q halloc RmCons.all _ 0)
    dsimp only
    cases hstate : q.state
    case granted => exact .refl
    case requestInProgress => exact .refl
    all_goals
      dsimp only
      generalize producerRequestPeers p q env RmCons.all _ 0 = out at hpeers ⊢
      obtain ⟨s', result, bail⟩ := out
      cases bail
      case true => exact hpeers
      case false =>
        dsimp only
        split_ifs
        · exact (hpeers.trans (writes_settle s' p .granted)).tail (.notifyProd _ _ _)
        · exact hpeers

theorem writes_producerReleasePeer (p : RmProd) (q : RmProdRes) (env : RmCons → RmReply) (s : Rm)
    (c : RmCons) : Writes L s (producerReleasePeer p q env s c) := by
  unfold producerReleasePeer
  split_ifs
  · exact (writes_addPendingRelease s p 1).trans <| (writes_consumerRelease _ c _ _ _).trans <|
      writes_addPendingRelease _ p (-1)
  · exact .refl

theorem writes_producerRelease (s : Rm) (p : RmProd) (env : RmCons → RmReply) :
    Writes L s (ipaRmResourceProducerRelease s p env).1 := by
  unfold ipaRmResourceProducerRelease
  cases hq : s.prods p with
  | none => exact .refl
  | some q =>
    have hstarted : Writes L s
        (s.setProd p { q with state := .releaseInProgress, pendingRelease := 0 }) :=
      writes_setProd hq rfl
    have hpeers := hstarted.trans (writes_foldl (writes_producerReleasePeer p q env) _ RmCons.all)
    dsimp only
    cases hstate : q.state
    case released => exact .refl
    case releaseInProgress => exact .refl
    all_goals
      dsimp only
      split_ifs
      · exact (hpeers.trans (writes_settle _ p .released)).tail (.notifyProd _ _ _)
      · exact hpeers

theorem writes_setPerfProfile (s : Rm) (name : RmName) (bw : BitVec 32) :
    Writes L s (ipaRmResourceSetPerfProfile s name bw) := by
  unfold ipaRmResourceSetPerfProfile
  cases name with
  | inl p =>
    dsimp only
    cases hq : s.prods p with
    | none => exact .refl
    | some q =>
      have hpeer (s : Rm) (c : RmCons) : Writes L s (profilePeerOfProd q bw s c) := by
        unfold profilePeerOfProd
        dsimp only
        have hneeded := writes_modifyCons (L := L) s c
          (f := fun k => { k with neededBw := k.neededBw - q.maxBw + bw })
          (fun _ => rfl) fun _ h => .inl h
        split_ifs
        · exact hneeded.tail (.perf _)
        · exact hneeded
        · exact .refl
      have hmax (s : Rm) : Writes L s (s.modifyProd p fun q => { q with maxBw := bw }) :=
        writes_modifyProd s p fun _ => rfl
      have hpeers : Writes L s (if q.state = .granted ∨ q.state = .requestInProgress then
          RmCons.all.foldl (profilePeerOfProd q bw) s else s) := by
        split_ifs
        · exact writes_foldl hpeer s _
        · exact .refl
      dsimp only
      by_cases hbw : bw = q.maxBw
      · rw [if_pos hbw]
      · rw [if_neg hbw]
        generalize (if q.state = .granted ∨ q.state = .requestInProgress then
          RmCons.all.foldl (profilePeerOfProd q bw) s else s) = s₁ at hpeers ⊢
        split_ifs
        · exact (hpeers.trans (hmax _)).tail (.perf _)
        · exact hpeers.trans (hmax _)
  | inr c =>
    dsimp only
    cases hk : s.conss c with
    | none => exact .refl
    | some k =>
      have hpeer (s : Rm) (p : RmProd) : Writes L s (profilePeerOfCons k bw s p) := by
        unfold profilePeerOfCons
        dsimp only
        have hneeded := writes_modifyProd (L := L) s p
          (f := fun q => { q with neededBw := q.neededBw - k.maxBw + bw }) fun _ => rfl
        split_ifs
        · exact hneeded.tail (.perf _)
        · exact hneeded
        · exact .refl
      have hmax := (writes_foldl hpeer s RmProd.all).trans (writes_modifyCons (L := L) _ c
        (f := fun k => { k with maxBw := bw }) (fun _ => rfl) fun _ h => .inl h)
      dsimp only
      split_ifs
      · exact .refl
      · exact hmax.tail (.perf _)
      · exact hmax

/-- A write, or where `K` holds a dependency that is put into the peers lists or taken out. -/
inductive Edit (L K : Prop) (s : Rm) : Rm → Prop
  | write {s' : Rm} (h : Write L s s') : Edit L K s s'
  | peers {p : RmProd} {c : RmCons} {q : RmProdRes} {k : RmConsRes} (hq : s.prods p = some q)
      (hk : s.conss c = some k) (dep : Option Bool) (hK : K) :
      Edit L K s (s.setPeers p c dep)

abbrev Edits (L K : Prop) : Rm → Rm → Prop := Relation.ReflTransGen (Edit L K)

theorem Writes.edits (h : Writes L s s') : Edits L K s s' :=
  Relation.ReflTransGen.mono (fun _ _ => .write) _ _ h

theorem Edits.writes (h : Edits L False s s') : Writes L s s' := by
  refine Relation.ReflTransGen.mono (fun _ _ hedit => ?_) _ _ h
  cases hedit with
  | write h => exact h
  | peers _ _ _ hK => exact hK.elim

/-- No write puts a resource into the table or takes one out of it. -/
theorem Write.isSome (h : Write L s s') :
    (∀ p, (s'.prods p).isSome = (s.prods p).isSome) ∧
      ∀ c, (s'.conss c).isSome = (s.conss c).isSome := by
  have hupdate {ι κ : Type} [DecidableEq ι] {f : ι → Option κ} {i : ι} {x : κ} (hx : f i = some x)
      (y : κ) (j : ι) : (update f i (some y) j).isSome = (f j).isSome := by
    by_cases hj : j = i
    · rw [hj, update_self, hx]
      rfl
    · rw [update_of_ne hj]
  cases h
  case prod hq q' _ => exact ⟨hupdate hq q', fun _ => rfl⟩
  case cons hk k' _ _ => exact ⟨fun _ => rfl, hupdate hk k'⟩
  case resume hk k' _ _ _ _ _ => exact ⟨fun _ => rfl, hupdate hk k'⟩
  case asked hk k' _ _ _ => exact ⟨fun _ => rfl, hupdate hk k'⟩
  case perf => simp
  all_goals exact ⟨fun _ => rfl, fun _ => rfl⟩

theorem Writes.isSome (h : Writes L s s') :
    (∀ p, (s'.prods p).isSome = (s.prods p).isSome) ∧
      ∀ c, (s'.conss c).isSome = (s.conss c).isSome := by
  induction h with
  | refl => exact ⟨fun _ => rfl, fun _ => rfl⟩
  | tail _ hw ih => exact ⟨fun p => (hw.isSome.1 p).trans (ih.1 p),
      fun c => (hw.isSome.2 c).trans (ih.2 c)⟩

theorem edits_addDependency (s : Rm) (p : RmProd) (c : RmCons) (user : Bool) {reply : RmReply}
    (halloc : reply.alloc = true ∨ L) (hK : K) :
    Edits L K s (ipaRmResourceAddDependency s p c user reply).1 := by
  obtain ⟨-, h⟩ | ⟨q, k, hq, hk, -, hwrites⟩ := writes_addDependency s p c user reply halloc
  · rw [h]
  · exact hwrites.edits.head (.peers hq hk _ hK)

theorem edits_deleteDependency (s : Rm) (p : RmProd) (c : RmCons) (user : Bool)
    (reply : RmReply) (hK : K) :
    Edits L K s (ipaRmResourceDeleteDependency s p c user reply).1 := by
  obtain ⟨-, h⟩ | ⟨q, k, hq, hk, -, s₁, hbefore, hafter⟩ :=
    writes_deleteDependency (L := L) s p c user reply
  · rw [h]
  · have hq₁ := hbefore.isSome.1 p
    have hk₁ := hbefore.isSome.2 c
    rw [hq, Option.isSome_some, Option.isSome_iff_exists] at hq₁
    rw [hk, Option.isSome_some, Option.isSome_iff_exists] at hk₁
    obtain ⟨q₁, hq₁⟩ := hq₁
    obtain ⟨k₁, hk₁⟩ := hk₁
    exact hbefore.edits.trans (hafter.edits.head (.peers hq₁ hk₁ none hK))

theorem edits_foldl {κ : Type} {f : Rm → κ → Rm} (h : ∀ s i, Edits L K s (f s i)) (s : Rm)
    (is : List κ) : Edits L K s (is.foldl f s) := by
  induction is generalizing s with
  | nil => exact .refl
  | cons i is ih => exact (h s i).trans (ih (f s i))

/-- What an action of the manager is made of. -/
inductive Stepped (L K : Prop) (s : Rm) : RmAction → Rm → Prop
  | edits {a : RmAction} {s' : Rm} (h : Edits L K s s') : Stepped L K s a s'
  | createProd (name : ℕ) (volt : ℤ) (cb userData : ℕ) {p : RmProd} (hp : s.prods p = none) :
      Stepped L K s (.createResource name volt cb userData)
        (s.setProd p { floorVoltage := volt.toNat, eventListeners := [⟨cb, userData, false⟩] })
  | createCons (name : ℕ) (volt : ℤ) (cb userData : ℕ) {c : RmCons} (hc : s.conss c = none) :
      Stepped L K s (.createResource name volt cb userData)
        (s.setCons c { floorVoltage := volt.toNat })
  | removeProd {s' : Rm} (name : ℕ) (env : RmEnv) {p : RmProd} (h : Edits L K s s') :
      Stepped L K s (.deleteResource name env) { s' with prods := update s'.prods p none }
  | removeCons {s' : Rm} (name : ℕ) (env : RmEnv) {c : RmCons} (h : Edits L K s s') :
      Stepped L K s (.deleteResource name env) { s' with conss := update s'.conss c none }
  | work {w : RmWork} {wq : List RmWork} (hwq : s.wq = w :: wq) (reply : RmReply) :
      Stepped L K s (.work reply) (handleWork { s with wq := wq } reply w)

end Rm

/-- Memory is there for every work item that the action may need. -/
def RmAction.allocated : RmAction → Bool
  | .addDependency _ _ _ env | .requestResource _ env =>
    RmProd.all.all fun p => RmCons.all.all fun c => (env p c).alloc
  | .requestResourceWithTimer _ reply _ => reply.alloc
  | _ => true

/-- The action is about the table or the dependencies. -/
def RmAction.links : RmAction → Bool
  | .createResource .. | .deleteResource .. | .addDependency .. | .deleteDependency .. => true
  | _ => false

/-- An error of its driver would put the item's consumer back to REQUEST_IN_PROGRESS. -/
def RmWork.fromRequest : RmWork → Bool
  | .resume _ .requestInProgress _ _ | .suspend _ .requestInProgress _ => true
  | _ => false

theorem alloc_of_all {env : RmEnv}
    (h : (RmProd.all.all fun p => RmCons.all.all fun c => (env p c).alloc) = true)
    (p : RmProd) (c : RmCons) : (env p c).alloc = true := by
  simp only [List.all_eq_true] at h
  exact h p (RmProd.mem_all p) c (RmCons.mem_all c)

namespace Rm

variable {s s' : Rm} {L K : Prop}

theorem step_cases {a : RmAction} (ha : a.allocated = true ∨ L)
    (hlinks : a.links = true → K) (hstep : s.step a = some s') :
    Stepped L K s a s' := by
  cases a with
  | createResource name volt cb userData =>
    cases hstep
    unfold ipaRmCreateResource
    by_cases hvolt : volt < 0 ∨ volt ≥ ipaVoltageMax
    · rw [if_pos hvolt]
      exact .edits .refl
    · rw [if_neg hvolt]
      split
      · rename_i p _
        split_ifs with hsome
        · exact .edits .refl
        · exact .createProd name volt cb userData (by simpa using hsome)
      · rename_i c _
        split_ifs with hsome
        · exact .edits .refl
        · exact .createCons name volt cb userData (by simpa using hsome)
      · split_ifs <;> exact .edits .refl
  | deleteResource name env =>
    cases hstep
    unfold ipaRmDeleteResource
    split
    · split_ifs
      · refine .removeProd name env (.trans (edits_foldl (fun s c => ?_) s _)
          (writes_producerRelease _ _ _).edits)
        unfold deletePeerOfProd
        split
        · exact .refl
        · exact edits_deleteDependency _ _ _ _ _ (hlinks rfl)
      · exact .edits .refl
    · split_ifs
      · refine .removeCons name env (edits_foldl (fun s p => ?_) s _)
        unfold deletePeerOfCons
        split
        · exact .refl
        · exact edits_deleteDependency _ _ _ _ _ (hlinks rfl)
      · exact .edits .refl
    · exact .edits .refl
  | addDependency name dependsOn user env =>
    cases hstep
    unfold ipaRmAddDependency
    split
    · exact .edits (edits_addDependency _ _ _ _
        (ha.imp_left fun h => alloc_of_all h _ _) (hlinks rfl))
    · exact .edits .refl
  | deleteDependency name dependsOn user env =>
    cases hstep
    unfold ipaRmDeleteDependency
    split
    · exact .edits (edits_deleteDependency _ _ _ _ _ (hlinks rfl))
    · exact .edits .refl
  | requestResource name env =>
    cases hstep
    unfold ipaRmRequestResource
    split
    · split_ifs
      · exact .edits (writes_producerRequest _ _
          fun c => ha.imp_left fun h => alloc_of_all h _ c).edits
      · exact .edits .refl
    · exact .edits .refl
  | releaseResource name env =>
    cases hstep
    unfold ipaRmReleaseResource
    split
    · split_ifs
      · exact .edits (writes_producerRelease _ _ _).edits
      · exact .edits .refl
    · exact .edits .refl
  | requestResourceWithTimer name reply workAlloc =>
    cases hstep
    unfold ipaRmRequestResourceWithTimer
    by_cases hcons : ipaRmResorceIsCons name = true
    · rw [if_pos hcons]
      split
      · rename_i c hname
        by_cases hsome : (s.conss c).isSome = true
        · rw [if_pos hsome]
          have hasked := writes_consumerRequest (L := L) s c 0 false true ha
          dsimp only
          split_ifs
          · exact .edits hasked.edits
          · exact .edits (hasked.edits.trans (Write.delayed _).writes.edits)
          · exact .edits hasked.edits
        · rw [if_neg hsome]
          exact .edits .refl
      · exact .edits .refl
    · rw [if_neg hcons]
      exact .edits .refl
  | delayedRelease c reply =>
    simp only [step] at hstep
    split_ifs at hstep
    cases hstep
    have hfired : Writes L s { s with delayed := s.delayed.erase c } := (Write.delayed _).writes
    exact .edits (hfired.edits.trans (writes_consumerRelease _ c 0 false reply).edits)
  | register name cb userData =>
    cases hstep
    unfold ipaRmRegister
    split
    · split
      · exact .edits .refl
      · rename_i q hq
        unfold ipaRmResourceProducerRegister
        split_ifs
        · exact .edits .refl
        · exact .edits (Write.prod hq _ (by rfl)).writes.edits
    · exact .edits .refl
  | deregister name cb =>
    cases hstep
    unfold ipaRmDeregister
    split
    · split
      · exact .edits .refl
      · rename_i q hq
        unfold ipaRmResourceProducerDeregister
        split_ifs
        · exact .edits (Write.prod hq _ (by rfl)).writes.edits
        · exact .edits .refl
    · exact .edits .refl
  | setPerfProfile name bw =>
    cases hstep
    unfold ipaRmSetPerfProfile
    split
    · exact .edits .refl
    · split_ifs
      · exact .edits (writes_setPerfProfile _ _ _).edits
      · exact .edits .refl
  | notifyCompletion event name =>
    cases hstep
    unfold ipaRmNotifyCompletion
    split_ifs
    · exact .edits (Write.resourceCb name event).writes.edits
    · exact .edits .refl
  | work reply =>
    simp only [step] at hstep
    cases hwq : s.wq with
    | nil => simp [hwq] at hstep
    | cons w wq =>
      rw [hwq] at hstep
      cases hstep
      exact .work hwq reply

/-- What the worker does with an item that is not a vote. -/
theorem writes_handleWork (s : Rm) (reply : RmReply) {w : RmWork}
    (hw : ∀ volt bw, w ≠ .notifyIpa volt bw)
    (hreply : w.fromRequest = true → reply.driver = 0 ∨ reply.driver = eInProgress ∨ L) :
    Writes L s (handleWork s reply w) := by
  cases w with
  | notifyProd p event reg => exact writes_notifyClients _ _ _ _
  | resourceCb name event =>
    simp only [handleWork]
    split
    · exact writes_consumerHandleCb _ _ _
    · exact .refl
  | resume c prev bw inc =>
    simp only [handleWork]
    split_ifs with hsome
    · obtain ⟨k, hk⟩ := Option.isSome_iff_exists.mp hsome
      obtain ⟨k', hpeers, hstate, hwrites⟩ :=
        writes_consumerRequestWork hk prev bw true inc reply.driver fun h => hreply (by rw [h]; rfl)
      exact (Write.asked hk k' hpeers _ hstate).writes.trans hwrites
    · exact .refl
  | suspend c prev bw =>
    simp only [handleWork]
    split_ifs
    · exact writes_consumerReleaseWork _ _ _ fun h => hreply (by rw [h]; rfl)
    · exact .refl
  | notifyIpa volt bw => exact absurd rfl (hw volt bw)

end Rm

end X00TDCellular
