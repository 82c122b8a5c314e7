import X00TDCellular.MsmBusHandles

/-! The votes that a client's requests leave on its paths: what a usecase has for a path, and
what stays from the usecases before. -/

namespace X00TDCellular
open Transition

/-- What a usecase asks for on a path of the handle: its last vector counts. -/
def lastVote (h : MsmBusCompatHandle) (p : ℕ) : List MsmBusVectors → Option (UInt32 × UInt32)
  | [] => none
  | v :: vs =>
    match lastVote h p vs with
    | some bw => some bw
    | none => if findPath h v.src v.dst = some p then some v.kbps else none

/-- The votes after a usecase. -/
def applyVotes (h : MsmBusCompatHandle) (vs : List MsmBusVectors) (votes : Votes) : Votes :=
  fun p => (lastVote h p vs).getD (votes p)

namespace MsmBusCompat

variable {s t : MsmBusCompat} {h : MsmBusCompatHandle} {rcs : ℕ → ℤ} {cl index : UInt32}

/-- An error that is noted is returned. -/
theorem updateVectors_error (i : ℕ) (vs : List MsmBusVectors) (votes : Votes) {ret : ℤ}
    (hret : ret ≠ 0) : (updateVectors h rcs i vs votes ret).2 = ret := by
  induction vs generalizing i votes with
  | nil => rfl
  | cons v vs ih =>
    unfold updateVectors
    split
    · exact ih (i+1) votes
    · have hkept : ¬ (rcs i ≠ 0 ∧ ret = 0) := fun hboth => hret hboth.2
      show (updateVectors h rcs (i+1) vs _ (if rcs i ≠ 0 ∧ ret = 0 then rcs i else ret)).2 = ret
      rw [if_neg hkept]
      exact ih (i+1) _

theorem applyVotes_skip {v : MsmBusVectors} {vs : List MsmBusVectors} {votes : Votes}
    (hskip : findPath h v.src v.dst = none) :
    applyVotes h (v :: vs) votes = applyVotes h vs votes := by
  funext p
  unfold applyVotes
  rw [lastVote, hskip]
  cases lastVote h p vs with
  | none => rfl
  | some bw => rfl

theorem applyVotes_vote {v : MsmBusVectors} {vs : List MsmBusVectors} {votes : Votes} {q : ℕ}
    (hvote : findPath h v.src v.dst = some q) :
    applyVotes h (v :: vs) votes = applyVotes h vs (Function.update votes q v.kbps) := by
  funext p
  unfold applyVotes
  rw [lastVote, hvote]
  cases lastVote h p vs with
  | some bw => rfl
  | none =>
    by_cases hp : p = q
    · rw [hp]
      simp
    · have hq : ¬ some q = some p := fun heq => hp (Option.some.inj heq).symm
      simp [hp, hq]

/-- A walk without errors. -/
theorem updateVectors_eq (i : ℕ) (vs : List MsmBusVectors) (votes : Votes)
    (hok : (updateVectors h rcs i vs votes 0).2 = 0) :
    (updateVectors h rcs i vs votes 0).1 = applyVotes h vs votes := by
  induction vs generalizing i votes with
  | nil => rfl
  | cons v vs ih =>
    cases hpath : findPath h v.src v.dst with
    | none =>
      have hskip : updateVectors h rcs i (v :: vs) votes 0 =
          updateVectors h rcs (i+1) vs votes 0 := by
        rw [updateVectors, hpath]
      rw [hskip] at hok ⊢
      rw [applyVotes_skip hpath]
      exact ih (i+1) votes hok
    | some q =>
      have hvote : updateVectors h rcs i (v :: vs) votes 0 =
          updateVectors h rcs (i+1) vs
            (if rcs i = 0 then Function.update votes q v.kbps else votes)
            (if rcs i ≠ 0 ∧ (0 : ℤ) = 0 then rcs i else 0) := by
        rw [updateVectors, hpath]
        rfl
      rw [hvote] at hok ⊢
      by_cases hrc : rcs i = 0
      · rw [if_pos hrc, if_neg (fun hboth => hboth.1 hrc)] at hok ⊢
        rw [applyVotes_vote hpath]
        exact ih (i+1) _ hok
      -- the error is noted, and returned at the end of the walk
      · have hnoted : (if rcs i ≠ 0 ∧ (0 : ℤ) = 0 then rcs i else 0) = rcs i :=
          if_pos ⟨hrc, rfl⟩
        rw [hnoted, updateVectors_error _ _ _ hrc] at hok
        exact absurd hok hrc

theorem updateVectors_taken (i : ℕ) (vs : List MsmBusVectors) (votes : Votes) :
    (updateVectors h (fun _ => 0) i vs votes 0).2 = 0 := by
  induction vs generalizing i votes with
  | nil => rfl
  | cons v vs ih =>
    unfold updateVectors
    split
    · exact ih (i+1) votes
    · exact ih (i+1) _

/-- The handle of a client. -/
def client (s : MsmBusCompat) (cl : UInt32) : MsmBusCompatHandle :=
  (slotOf cl).elim {} s.handles

/-- The paths that a client holds. -/
def pathsOf (s : MsmBusCompat) (cl : UInt32) : List ℕ :=
  (s.client cl).paths.filterMap MsmBusCompatPath.path

/-- A client whose data has these usecases. -/
structure Serves (s : MsmBusCompat) (cl : UInt32) (usecases : List MsmBusPaths) : Prop where
  live : (s.client cl).inUse = true
  pdata : (s.client cl).pdata.map (fun p => p.usecase.getD []) = some usecases
  bound : usecases.length < 2^31

theorem Serves.exists_slot {usecases : List MsmBusPaths} (hs : s.Serves cl usecases) :
    ∃ slot, slotOf cl = some slot ∧ s.client cl = s.handles slot := by
  cases hslot : slotOf cl with
  | none =>
    have hlive := hs.live
    unfold client at hlive
    rw [hslot] at hlive
    cases hlive
  | some slot =>
    refine ⟨slot, rfl, ?_⟩
    unfold client
    rw [hslot]
    rfl

theorem toInt32_of_lower (h : index.toNat < 2^31) : index.toInt32.toInt = index.toNat := by
  have hbv : index.toInt32.toInt = index.toBitVec.toInt := rfl
  rw [hbv, BitVec.toInt_eq_toNat_of_lt]
  · rfl
  · show 2 * index.toNat < 2^32
    omega

/-- An index in range is so as a signed number too. -/
theorem toInt32_of_lt {n : ℕ} (hn : n < 2^31) (h : index.toNat < n) :
    ¬ (n : ℤ) ≤ index.toInt32.toInt := by
  rw [toInt32_of_lower (h.trans hn)]
  omega

/-- A request in range, whatever the framework makes of its votes. -/
theorem Serves.request {usecases : List MsmBusPaths} (hs : s.Serves cl usecases)
    {uc : MsmBusPaths} (huc : usecases[index.toNat]? = some uc) (rcs : ℕ → ℤ) :
    s.clientUpdateRequest cl index rcs =
      some ({ s with votes := (updateVectors (s.client cl) rcs 0 uc.vectors s.votes 0).1 },
        (updateVectors (s.client cl) rcs 0 uc.vectors s.votes 0).2) := by
  obtain ⟨slot, hslot, hclient⟩ := hs.exists_slot
  obtain ⟨hlive, hpdata, hbound⟩ := hs
  rw [hclient] at hlive hpdata ⊢
  obtain ⟨pdata, hp, husecases⟩ := Option.map_eq_some_iff.mp hpdata
  have hlt : index.toNat < usecases.length := (List.getElem?_eq_some_iff.mp huc).1
  have hnum : pdata.numUsecases = usecases.length := congrArg List.length husecases
  unfold clientUpdateRequest
  rw [hslot]
  dsimp only
  rw [hlive, hp]
  dsimp only
  rw [hnum, if_neg (toInt32_of_lt hbound hlt), husecases, huc]
  rfl

theorem Serves.request_ok {usecases : List MsmBusPaths} (hs : s.Serves cl usecases)
    {uc : MsmBusPaths} (huc : usecases[index.toNat]? = some uc)
    (h : s.clientUpdateRequest cl index rcs = some (t, 0)) :
    t = { s with votes := applyVotes (s.client cl) uc.vectors s.votes } := by
  rw [hs.request huc] at h
  obtain ⟨rfl, hret⟩ := Prod.mk.inj (Option.some.inj h)
  rw [updateVectors_eq _ _ _ hret]

/-- It does not change what the clients hold. -/
theorem Serves.with_votes {usecases : List MsmBusPaths} (hs : s.Serves cl usecases)
    (votes : Votes) : Serves { s with votes := votes } cl usecases :=
  ⟨hs.live, hs.pdata, hs.bound⟩

theorem Serves.exists_usecase {usecases : List MsmBusPaths} (hs : s.Serves cl usecases)
    (h : s.clientUpdateRequest cl index rcs = some (t, 0)) :
    ∃ uc, usecases[index.toNat]? = some uc := by
  obtain ⟨slot, hslot, hclient⟩ := hs.exists_slot
  obtain ⟨hlive, hpdata, _⟩ := hs
  rw [hclient] at hlive hpdata
  obtain ⟨pdata, hp, husecases⟩ := Option.map_eq_some_iff.mp hpdata
  unfold clientUpdateRequest at h
  rw [hslot] at h
  dsimp only at h
  rw [hlive, hp] at h
  dsimp only at h
  split at h
  · cases h
  · rw [husecases] at h
    obtain ⟨uc, huc, _⟩ := Option.map_eq_some_iff.mp h
    exact ⟨uc, huc⟩

/-- Requests of one client that all return 0. -/
inductive Requests (cl : UInt32) : MsmBusCompat → List UInt32 → MsmBusCompat → Prop
  | nil (s : MsmBusCompat) : Requests cl s [] s
  | cons {s s' t : MsmBusCompat} {index : UInt32} {rest : List UInt32} {rcs : ℕ → ℤ}
      (h : s.clientUpdateRequest cl index rcs = some (s', 0)) (hrest : Requests cl s' rest t) :
      Requests cl s (index :: rest) t

/-- The vectors of a usecase, none for an index out of range. -/
def vectorsOf (usecases : List MsmBusPaths) (index : UInt32) : List MsmBusVectors :=
  (usecases[index.toNat]?).elim [] MsmBusPaths.vectors

def heldAfter (h : MsmBusCompatHandle) (usecases : List MsmBusPaths) (hist : List UInt32)
    (votes : Votes) : Votes :=
  hist.foldl (fun votes index => applyVotes h (vectorsOf usecases index) votes) votes

theorem heldAfter_concat (h : MsmBusCompatHandle) (usecases : List MsmBusPaths)
    (hist : List UInt32) (index : UInt32) (votes : Votes) (p : ℕ) :
    heldAfter h usecases (hist ++ [index]) votes p =
      (lastVote h p (vectorsOf usecases index)).getD (heldAfter h usecases hist votes p) := by
  unfold heldAfter
  rw [List.foldl_append]
  rfl

/-- All that successful requests change. -/
theorem Requests.eq {usecases : List MsmBusPaths} {hist : List UInt32} (h : Requests cl s hist t)
    (hs : s.Serves cl usecases) :
    t = { s with votes := heldAfter (s.client cl) usecases hist s.votes } := by
  induction h with
  | nil s => rfl
  | cons hreq _ ih =>
    obtain ⟨uc, huc⟩ := hs.exists_usecase hreq
    have hvotes := hs.request_ok huc hreq
    rw [hvotes] at ih
    rw [ih (hs.with_votes _)]
    unfold heldAfter vectorsOf
    rw [List.foldl_cons, huc]
    rfl

theorem exists_requests {usecases : List MsmBusPaths} (hs : s.Serves cl usecases)
    (hist : List UInt32) (hrange : ∀ index ∈ hist, index.toNat < usecases.length) :
    ∃ t, Requests cl s hist t := by
  induction hist generalizing s with
  | nil => exact ⟨s, .nil s⟩
  | cons index rest ih =>
    have hlt := hrange index List.mem_cons_self
    have hreq := hs.request (List.getElem?_eq_getElem hlt) (fun _ => 0)
    rw [updateVectors_taken] at hreq
    obtain ⟨t, ht⟩ := ih (hs.with_votes _) fun i hi => hrange i (List.mem_cons_of_mem _ hi)
    exact ⟨t, .cons hreq ht⟩

/-- The usecase has a vote for the path, or no usecase has one that is not zero. -/
def Overrides (h : MsmBusCompatHandle) (usecases : List MsmBusPaths) (index : UInt32) (p : ℕ) :
    Prop :=
  (lastVote h p (vectorsOf usecases index)).isSome = true ∨
    ∀ other bw, lastVote h p (vectorsOf usecases other) = some bw → bw = (0, 0)

theorem heldAfter_zero {usecases : List MsmBusPaths} {votes : Votes} {p : ℕ}
    (hzero : ∀ other bw, lastVote h p (vectorsOf usecases other) = some bw → bw = (0, 0))
    (hp : votes p = (0, 0)) (hist : List UInt32) : heldAfter h usecases hist votes p = (0, 0) := by
  induction hist using List.reverseRecOn with
  | nil => exact hp
  | append_singleton hist index ih =>
    rw [heldAfter_concat]
    cases hlast : lastVote h p (vectorsOf usecases index) with
    | none => exact ih
    | some bw => exact hzero index bw hlast

theorem vectorsOf_range {usecases : List MsmBusPaths} {other : UInt32} {bw : UInt32 × UInt32}
    {p : ℕ} (hvote : lastVote h p (vectorsOf usecases other) = some bw) :
    other.toNat < usecases.length := by
  by_contra hout
  have hnone : usecases[other.toNat]? = none := List.getElem?_eq_none (not_lt.mp hout)
  unfold vectorsOf at hvote
  rw [hnone] at hvote
  cases hvote

/-- From votes of zero, the histories before a request leave the same votes exactly where
the request overrides them. -/
theorem agree_iff {usecases : List MsmBusPaths} (hs : s.Serves cl usecases)
    (hzero : ∀ p ∈ s.pathsOf cl, s.votes p = (0, 0)) (hindex : index.toNat < usecases.length) :
    (∀ hist₁ hist₂ t₁ t₂, Requests cl s (hist₁ ++ [index]) t₁ →
        Requests cl s (hist₂ ++ [index]) t₂ → ∀ p ∈ s.pathsOf cl, t₁.votes p = t₂.votes p) ↔
      ∀ p ∈ s.pathsOf cl, Overrides (s.client cl) usecases index p := by
  constructor
  · intro hagree p hp
    by_contra hnot
    obtain ⟨hnone, hnonzero⟩ := not_or.mp hnot
    push Not at hnonzero
    obtain ⟨other, bw, hvote, hbw⟩ := hnonzero
    have hlast : lastVote (s.client cl) p (vectorsOf usecases index) = none := by
      simpa using hnone
    -- the request alone, and after the usecase that has a vote
    obtain ⟨t₁, ht₁⟩ := exists_requests hs [index] (by simpa using hindex)
    obtain ⟨t₂, ht₂⟩ := exists_requests hs [other, index]
      (by simpa using ⟨vectorsOf_range hvote, hindex⟩)
    have heq := hagree [] [other] t₁ t₂ ht₁ ht₂ p hp
    have hfirst : heldAfter (s.client cl) usecases [index] s.votes p = (0, 0) := by
      have h := heldAfter_concat (s.client cl) usecases [] index s.votes p
      rw [hlast] at h
      exact h.trans (hzero p hp)
    have hsecond : heldAfter (s.client cl) usecases [other, index] s.votes p = bw := by
      have h := heldAfter_concat (s.client cl) usecases [other] index s.votes p
      have h' := heldAfter_concat (s.client cl) usecases [] other s.votes p
      rw [hlast] at h
      rw [hvote] at h'
      exact h.trans h'
    rw [ht₁.eq hs, ht₂.eq hs] at heq
    exact hbw (hsecond.symm.trans (heq.symm.trans hfirst))
  · intro hoverrides hist₁ hist₂ t₁ t₂ ht₁ ht₂ p hp
    rw [ht₁.eq hs, ht₂.eq hs]
    show heldAfter _ _ _ _ p = heldAfter _ _ _ _ p
    rw [heldAfter_concat, heldAfter_concat]
    rcases hoverrides p hp with hsome | hnone
    · obtain ⟨bw, hbw⟩ := Option.isSome_iff_exists.mp hsome
      rw [hbw]
      rfl
    · rw [heldAfter_zero hnone (hzero p hp), heldAfter_zero hnone (hzero p hp)]

/-- A path that has not been made yet has no vote, and the clients hold none of these. -/
structure Fresh (s : MsmBusCompat) : Prop where
  votes : ∀ p, s.allocated ≤ p → s.votes p = (0, 0)
  made : ∀ slot, ∀ e ∈ (s.handles slot).paths, ∀ p, e.path = some p → p < s.allocated

/-- The paths of the walk are new ones. -/
theorem acquirePaths_paths {icc : ℕ → IccGet} {base : ℕ} (i : ℕ) (vs : List MsmBusVectors)
    (h : MsmBusCompatHandle) : ∀ e ∈ (acquirePaths icc base i vs h).paths,
      e ∈ h.paths ∨ ∀ p, e.path = some p → base ≤ p ∧ p < base + i + vs.length := by
  induction vs generalizing i h with
  | nil => exact fun e he => Or.inl he
  | cons v vs ih =>
    have hlater : ∀ h : MsmBusCompatHandle, ∀ e ∈ (acquirePaths icc base (i+1) vs h).paths,
        e ∈ h.paths ∨ ∀ p, e.path = some p → base ≤ p ∧ p < base + i + (v :: vs).length := by
      intro h e he
      apply (ih (i+1) h e he).imp_right
      intro hnew p hp
      have hrange := hnew p hp
      rw [List.length_cons]
      omega
    have hpush (o : Option ℕ) (ho : ∀ p, o = some p → p = base + i) :
        ∀ e ∈ (acquirePaths icc base (i+1) vs
          { h with paths := h.paths ++ [⟨v.src, v.dst, o⟩] }).paths,
        e ∈ h.paths ∨ ∀ p, e.path = some p → base ≤ p ∧ p < base + i + (v :: vs).length := by
      intro e he
      rcases hlater _ e he with hmem | hnew
      · rcases List.mem_append.mp hmem with hbefore | hnow
        · exact Or.inl hbefore
        · right
          intro p hp
          rw [List.mem_singleton.mp hnow] at hp
          have hpos := ho p hp
          rw [List.length_cons]
          omega
      · exact Or.inr hnew
    unfold acquirePaths
    split
    · exact hlater h
    split
    · exact hlater h
    -- without room for another path the walk ends
    split
    · exact fun e he => Or.inl he
    -- an error, a null pointer, or a path
    split
    · exact hlater h
    · exact hpush none (fun p hp => by cases hp)
    · exact hpush (some (base + i)) (fun p hp => (Option.some.inj hp).symm)

theorem acquired_paths {pdata : MsmBusScalePdata} {vs : List MsmBusVectors} {icc : ℕ → IccGet}
    {e : MsmBusCompatPath} (he : e ∈ (s.acquired pdata vs icc).paths) {p : ℕ}
    (hp : e.path = some p) : s.allocated ≤ p ∧ p < s.allocated + vs.length := by
  rcases acquirePaths_paths 0 vs _ e he with hbefore | hnew
  · cases hbefore
  · have hrange := hnew p hp
    omega

theorem Fresh.put {pdata : MsmBusScalePdata} {vs : List MsmBusVectors} {icc : ℕ → IccGet}
    {slot : Fin msmBusCompatMaxHandles} {h : MsmBusCompatHandle} (hs : s.Fresh)
    (hpaths : h.paths = (s.acquired pdata vs icc).paths) :
    Fresh { s with
      handles := Function.update s.handles slot h
      allocated := s.allocated + vs.length } := by
  refine ⟨?_, ?_⟩
  · intro p hp
    exact hs.votes p (le_trans (Nat.le_add_right _ _) hp)
  -- the slot that is written has the new paths, the others have the old ones
  · intro other e he p hp
    by_cases hne : other = slot
    · rw [hne] at he
      simp only [Function.update_self, hpaths] at he
      exact (acquired_paths he hp).2
    · simp only [Function.update_of_ne hne] at he
      exact lt_of_lt_of_le (hs.made other e he p hp) (Nat.le_add_right _ _)

theorem dropVotes_zero {votes : Votes} {p : ℕ} (hp : votes p = (0, 0)) (rcs : ℕ → ℤ) (i : ℕ)
    (ps : List MsmBusCompatPath) : dropVotes rcs i ps votes p = (0, 0) := by
  induction ps generalizing i votes with
  | nil => exact hp
  | cons e ps ih =>
    apply ih
    unfold iccSetBw
    split
    · exact hp
    · dsimp only
      split
      · rename_i q _ _
        by_cases hq : p = q
        · rw [hq, Function.update_self]
        · rw [Function.update_of_ne hq]
          exact hp
      · exact hp

theorem findPath_mem {src dst : ℤ} {p : ℕ} (hp : findPath h src dst = some p) :
    ∃ e ∈ h.paths, e.path = some p := by
  obtain ⟨e, hfind, hpath⟩ := Option.bind_eq_some_iff.mp hp
  exact ⟨e, List.mem_of_find?_eq_some hfind, hpath⟩

/-- A walk votes on paths of its handle only. -/
theorem updateVectors_other {p : ℕ} (hother : ∀ e ∈ h.paths, e.path ≠ some p) (i : ℕ)
    (vs : List MsmBusVectors) (votes : Votes) (ret : ℤ) :
    (updateVectors h rcs i vs votes ret).1 p = votes p := by
  induction vs generalizing i votes ret with
  | nil => rfl
  | cons v vs ih =>
    unfold updateVectors
    split
    · exact ih (i+1) votes ret
    · rename_i q hq
      obtain ⟨e, he, hpath⟩ := findPath_mem hq
      have hne : p ≠ q := by
        rintro rfl
        exact hother e he hpath
      rw [ih]
      unfold iccSetBw
      dsimp only
      split
      · rw [Function.update_of_ne hne]
      · rfl

theorem Fresh.update {bus : MsmBusCompat} {ret : ℤ} (hs : s.Fresh)
    (h : s.clientUpdateRequest cl index rcs = some (bus, ret)) : bus.Fresh := by
  unfold clientUpdateRequest at h
  split at h
  · cases h
    exact hs
  split at h
  · cases h
    exact hs
  · cases h
    exact hs
  split at h
  · cases h
    exact hs
  · rename_i slot _ _ _ _ _ _ _
    obtain ⟨uc, _, hdone⟩ := Option.map_eq_some_iff.mp h
    cases hdone
    -- a path that is not made yet is none of the handle's
    refine ⟨?_, hs.made⟩
    intro p hp
    have hother : ∀ e ∈ (s.handles slot).paths, e.path ≠ some p := by
      intro e he hpath
      have hmade := hs.made slot e he p hpath
      have hp' : s.allocated ≤ p := hp
      omega
    show (updateVectors _ _ _ _ _ _).1 p = (0, 0)
    rw [updateVectors_other hother]
    exact hs.votes p hp

theorem Fresh.unregister (hs : s.Fresh) (cl : UInt32) (rcs : ℕ → ℤ) :
    (s.unregisterClient cl rcs).Fresh := by
  unfold unregisterClient
  split
  · exact hs
  · rename_i slot _
    split
    · refine ⟨fun p hp => dropVotes_zero (hs.votes p hp) rcs 0 _, ?_⟩
      intro other e he
      by_cases hne : other = slot
      · rw [hne] at he
        simp only [Function.update_self] at he
        cases he
      · simp only [Function.update_of_ne hne] at he
        exact hs.made other e he
    · exact hs

theorem fresh_step {s s' : MsmBusClients} {a : MsmBusAction} (hs : s.bus.Fresh)
    (h : s.step a = some s') : s'.bus.Fresh := by
  cases a with
  | setDevice dev =>
    cases h
    exact ⟨hs.votes, hs.made⟩
  | register pdata icc =>
    obtain ⟨r, hcases, rfl⟩ := MsmBusClients.step_register h
    cases hcases with
    | refused hwalk => exact hs
    | noPaths hwalk hnone => exact hs.put rfl
    | done hwalk hsome => exact hs.put rfl
  | unregister cl rcs =>
    cases h
    exact hs.unregister cl rcs
  | update cl index rcs =>
    obtain ⟨⟨bus, ret⟩, hupdate, hs'⟩ := Option.map_eq_some_iff.mp h
    cases hs'
    exact hs.update hupdate

/-- What a client gets from a registration: its usecases are served, from votes of zero. -/
theorem serves_of_register {pdata : MsmBusScalePdata} {icc : ℕ → IccGet} (hs : s.Fresh)
    (hreg : s.registerClient (some pdata) icc = (t, cl)) (hcl : cl ≠ 0) :
    t.Serves cl (pdata.usecase.getD []) ∧ ∀ p ∈ t.pathsOf cl, t.votes p = (0, 0) := by
  have hcases := registered s (some pdata) icc
  rw [hreg] at hcases
  cases hcases with
  | refused hwalk => exact absurd rfl hcl
  | noPaths hwalk hnone => exact absurd rfl hcl
  | @done slot p vs hwalk hsome =>
    have hp : p = pdata := by
      unfold walk at hwalk
      dsimp only at hwalk
      split at hwalk
      · cases hwalk
      · cases hwalk
      split at hwalk
      · cases hwalk
      · obtain ⟨slot', _, heq⟩ := Option.map_eq_some_iff.mp hwalk
        cases heq
        rfl
    have hclient (bus : MsmBusCompat) : bus.client (handleOf slot) = bus.handles slot := by
      unfold client
      rw [MsmBusClients.slotOf_handleOf]
      rfl
    refine ⟨⟨?_, ?_, pdata.numUsecases_lt⟩, ?_⟩
    · rw [hclient]
      simp only [Function.update_self]
    · rw [hclient]
      simp only [Function.update_self, acquired_pdata, Option.map_some, hp]
    · intro q hq
      unfold pathsOf at hq
      rw [hclient] at hq
      simp only [Function.update_self] at hq
      obtain ⟨e, he, hpath⟩ := List.mem_filterMap.mp hq
      exact hs.votes q (acquired_paths he hpath).1

/-- After requests that have all returned 0 a path holds what the last usecase asks for on it,
or else what it held before. The votes do not depend on the requests before the last one
exactly when, on each of the client's paths, that usecase has a vote or none has one that is
not zero. -/
theorem votes_of_requests {as : List MsmBusAction} {u : MsmBusClients}
    (hrun : run MsmBusClients.step {} as = some u) {pdata : MsmBusScalePdata} {icc : ℕ → IccGet}
    (hreg : u.bus.registerClient (some pdata) icc = (s, cl)) (hcl : cl ≠ 0)
    (hindex : index.toNat < pdata.numUsecases) :
    (∀ hist t₀ rcs t, Requests cl s hist t₀ → t₀.clientUpdateRequest cl index rcs = some (t, 0) →
        ∀ p, t.votes p =
          (lastVote (s.client cl) p (vectorsOf (pdata.usecase.getD []) index)).getD (t₀.votes p)) ∧
      ((∀ hist₁ hist₂ t₁ t₂, Requests cl s (hist₁ ++ [index]) t₁ →
          Requests cl s (hist₂ ++ [index]) t₂ → ∀ p ∈ s.pathsOf cl, t₁.votes p = t₂.votes p) ↔
        ∀ p ∈ s.pathsOf cl, Overrides (s.client cl) (pdata.usecase.getD []) index p) := by
  have hempty : Fresh {} := by
    refine ⟨fun _ _ => rfl, ?_⟩
    intro slot e he
    cases he
  have hfresh : u.bus.Fresh :=
    run_inv (fun _ _ _ (hs : Fresh _) h => fresh_step hs h) hrun hempty
  obtain ⟨hserves, hzero⟩ := serves_of_register hfresh hreg hcl
  refine ⟨?_, agree_iff hserves hzero hindex⟩
  intro hist t₀ rcs t hhist hreq p
  have ht₀ := hhist.eq hserves
  have hserves₀ : t₀.Serves cl (pdata.usecase.getD []) := by
    rw [ht₀]
    exact hserves.with_votes _
  have hclient : t₀.client cl = s.client cl := by
    rw [ht₀]
    rfl
  obtain ⟨uc, huc⟩ := hserves₀.exists_usecase hreq
  rw [hserves₀.request_ok huc hreq, hclient]
  unfold applyVotes vectorsOf
  rw [huc]
  rfl

/-- The driver's own table, registered first. -/
def defaultBus : MsmBusCompat :=
  (registerClient { dev := some 1 } (some compatDefaultPdata) fun _ => .path).1

/-- Its nominal usecase has a vote for both paths. -/
theorem votes_of_requests_default : defaultBus.pathsOf 1 = [0, 1] ∧
    ∀ hist₁ hist₂ t₁ t₂, Requests 1 defaultBus (hist₁ ++ [1]) t₁ →
      Requests 1 defaultBus (hist₂ ++ [1]) t₂ →
        ∀ p ∈ defaultBus.pathsOf 1, t₁.votes p = t₂.votes p := by
  refine ⟨by decide, ?_⟩
  have hrun : run MsmBusClients.step {} [.setDevice (some 1)] =
      some { bus := { dev := some 1 } } := rfl
  have hreg : registerClient { dev := some 1 } (some compatDefaultPdata) (fun _ => .path) =
      (defaultBus, 1) := rfl
  apply (votes_of_requests hrun hreg (by decide) (by decide)).2.mpr
  intro p hp
  left
  revert p
  decide

/-- An idle usecase with both paths, and one for each of them alone. -/
def singlesPdata : MsmBusScalePdata where
  usecase := some [⟨compatInitVectors⟩,
    ⟨[⟨msmBusMasterIpa, msmBusSlaveEbiCh0, 100000000, 1300000000⟩]⟩,
    ⟨[⟨msmBusMasterIpa, msmBusSlaveOcimem, 100000000, 1300000000⟩]⟩]
  numUsecases_lt := by decide

def singlesBus : MsmBusCompat :=
  (registerClient { dev := some 1 } (some singlesPdata) fun _ => .path).1

/-- Usecase 1 alone, and after usecase 2, whose vote stays. -/
theorem not_agree_singles : ¬ ∀ hist₁ hist₂ t₁ t₂,
    Requests 1 singlesBus (hist₁ ++ [1]) t₁ → Requests 1 singlesBus (hist₂ ++ [1]) t₂ →
      ∀ p ∈ singlesBus.pathsOf 1, t₁.votes p = t₂.votes p := by
  intro h
  have hone : ∀ s : MsmBusCompat, ∀ i t, s.clientUpdateRequest 1 i (fun _ => 0) = some (t, 0) →
      Requests 1 s [i] t := fun _ _ t hreq => .cons hreq (.nil t)
  have htwo : ∀ s : MsmBusCompat, ∀ i j u t,
      s.clientUpdateRequest 1 i (fun _ => 0) = some (u, 0) →
      u.clientUpdateRequest 1 j (fun _ => 0) = some (t, 0) → Requests 1 s [i, j] t :=
    fun _ _ _ _ t hreq hreq' => .cons hreq (.cons hreq' (.nil t))
  have hagree := h [] [2] _ _ (hone singlesBus 1 _ rfl) (htwo singlesBus 2 1 _ _ rfl rfl) 1
    (by decide)
  exact absurd hagree (by decide)

end MsmBusCompat

end X00TDCellular
