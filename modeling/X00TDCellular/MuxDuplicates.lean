import X00TDCellular.WanDlInstalled

/-! The table of mux channels and the modem's uplink rules over all orders of ioctls,
runs of the work and handshakes. The ioctl looks a mux id up before it adds it, the work
does not, and a run of the work that is repeated adds its rules again. -/

namespace X00TDCellular
open Function Transition
namespace DriverState

def MuxDistinct (d : DriverState) : Prop :=
  ∀ i j : Fin maxNumOfMuxChannel, i.val < d.rmnetIndex.val → j.val < d.rmnetIndex.val →
    (d.muxChannel i).muxId = (d.muxChannel j).muxId → i = j

/-- No cached rule stands in a table more than once. -/
def UlOnce (d : DriverState) : Prop :=
  ∀ q ∈ d.q6UlFilterRule, ∀ ip ∈ [IpaIpType.v4, .v6],
    d.ipa.ruleCount (lanWanTbl ip) (ulFltRule q) ≤ 1

structure NoDuplicates (d : DriverState) : Prop where
  mux : d.MuxDistinct
  rules : d.UlOnce

/-- Whether the entry gets registered, where there are rules of the modem to register. -/
def canRegister (d : DriverState) (index : Fin maxNumOfMuxChannel) (o : RegisterOutcome) :
    Bool :=
  d.q6UlFilterRule = [] ||
    ((d.muxChannel index).muxHdrSet || o.hdrOk) && (o.propOk &&
      d.q6UlFilterRule.length ≤ ipaNumPropsMax && o.intfOk)

/-- A run that goes past step 1 adds no second copy of a cached rule, and no second
channel with mux id 1 if it gets as far as counting one. -/
def AddsOnce (d : DriverState) : DriverAction → Prop
  | .autoIpacmInit o => d.autoIpacmInitDone = false → d.netdev = true → o.setup.ok = true →
      (∀ q ∈ d.q6UlFilterRule, ∀ ip ∈ [IpaIpType.v4, .v6],
        (d.autoPending o (lanWanTbl ip)).count (ulFltRule q) +
          d.ipa.ruleCount (lanWanTbl ip) (ulFltRule q) ≤ 1) ∧
      (o.ingressOk = true → ∀ h : d.rmnetIndex.val < maxNumOfMuxChannel,
        d.canRegister ⟨d.rmnetIndex.val, h⟩ o.register = true →
          ∀ i : Fin maxNumOfMuxChannel, i.val < d.rmnetIndex.val →
            (d.muxChannel i).muxId ≠ 1)
  | _ => True

section Mux

/-- The mux ids and their number are as before. -/
structure SameMux (d d' : DriverState) : Prop where
  muxId : ∀ j, (d'.muxChannel j).muxId = (d.muxChannel j).muxId
  rmnetIndex : d'.rmnetIndex = d.rmnetIndex

theorem SameMux.refl (d : DriverState) : d.SameMux d := ⟨fun _ => rfl, rfl⟩

theorem SameMux.trans {d d' d'' : DriverState} (h : d.SameMux d') (h' : d'.SameMux d'') :
    d.SameMux d'' :=
  ⟨fun j => (h'.muxId j).trans (h.muxId j), h'.rmnetIndex.trans h.rmnetIndex⟩

theorem Installs.sameMux {d d' : DriverState} {rs : List WanDlRule}
    {pending : FltTblKey → List FltRule} (h : d.Installs d' rs pending) : d.SameMux d' :=
  ⟨fun j => by rw [h.muxChannel], h.rmnetIndex⟩

theorem Installs.canRegister {d d' : DriverState} {rs : List WanDlRule}
    {pending : FltTblKey → List FltRule} (h : d.Installs d' rs pending)
    (index : Fin maxNumOfMuxChannel) (o : RegisterOutcome) :
    d'.canRegister index o = d.canRegister index o := by
  unfold DriverState.canRegister
  rw [h.q6UlFilterRule, h.muxChannel]

theorem MuxDistinct.of_same {d d' : DriverState} (hd : d.MuxDistinct) (h : d.SameMux d') :
    d'.MuxDistinct := by
  intro i j hi hj hid
  rw [h.rmnetIndex] at hi hj
  rw [h.muxId, h.muxId] at hid
  exact hd i j hi hj hid

theorem muxId_update {f : Fin maxNumOfMuxChannel → MuxChannel} {i : Fin maxNumOfMuxChannel}
    {ch : MuxChannel} (hch : ch.muxId = (f i).muxId) (j : Fin maxNumOfMuxChannel) :
    (update f i ch j).muxId = (f j).muxId := by
  by_cases hj : j = i
  · rw [hj, update_self, hch]
  · rw [update_of_ne hj]

theorem wwanRegisterToIpa_sameMux (d : DriverState) (index : Fin maxNumOfMuxChannel)
    (o : RegisterOutcome) : d.SameMux (d.wwanRegisterToIpa index o).1 := by
  have hhdr : d.SameMux (d.addQmapHdr index o.hdrOk).1 := by
    unfold addQmapHdr
    dsimp only
    split
    · exact SameMux.refl d
    · split
      · exact ⟨fun _ => rfl, rfl⟩
      · exact ⟨muxId_update rfl, rfl⟩
  have hintf (d' : DriverState) : d'.SameMux (d'.registerIntfExt index o).1 := by
    unfold registerIntfExt
    dsimp only
    split
    · exact ⟨fun _ => rfl, rfl⟩
    · exact ⟨muxId_update rfl, rfl⟩
  unfold wwanRegisterToIpa
  dsimp only
  split
  · exact hhdr.trans (hintf _)
  · exact hhdr

theorem registerMuxEntry_sameMux (d : DriverState) (index : Fin maxNumOfMuxChannel)
    (o : RegisterOutcome) : d.SameMux (d.registerMuxEntry index o).1 := by
  unfold registerMuxEntry
  split
  · exact d.wwanRegisterToIpa_sameMux index o
  · exact SameMux.refl d

theorem addQmapHdr_snd (d : DriverState) (index : Fin maxNumOfMuxChannel) (ok : Bool) :
    (d.addQmapHdr index ok).2 = ((d.muxChannel index).muxHdrSet || ok) := by
  unfold addQmapHdr
  cases hset : (d.muxChannel index).muxHdrSet with
  | true => simp [hset]
  | false => cases ok <;> simp [hset]

theorem registerIntfExt_snd (d : DriverState) (index : Fin maxNumOfMuxChannel)
    (o : RegisterOutcome) : (d.registerIntfExt index o).2 =
      (o.propOk && d.q6UlFilterRule.length ≤ ipaNumPropsMax && o.intfOk) := by
  unfold registerIntfExt
  by_cases hlen : d.q6UlFilterRule.length ≤ ipaNumPropsMax
  · have hfits : ¬ ipaNumPropsMax < d.q6UlFilterRule.length := Nat.not_lt.mpr hlen
    cases o.propOk <;> cases o.intfOk <;> simp [hfits, hlen]
  · simp [hlen, Nat.lt_of_not_le hlen]

theorem registerMuxEntry_snd (d : DriverState) (index : Fin maxNumOfMuxChannel)
    (o : RegisterOutcome) : (d.registerMuxEntry index o).2 = d.canRegister index o := by
  have hkeep := (d.addQmapHdr_keepsRules index o.hdrOk).q6UlFilterRule
  have hhdr := d.addQmapHdr_snd index o.hdrOk
  unfold registerMuxEntry canRegister
  by_cases hq : d.q6UlFilterRule = []
  · simp [hq]
  · rw [if_pos hq]
    unfold wwanRegisterToIpa
    dsimp only
    by_cases hset : (d.addQmapHdr index o.hdrOk).2 = true
    · rw [if_pos hset, registerIntfExt_snd, hkeep, ← hhdr, hset]
      simp [hq]
    · rw [if_neg hset, ← hhdr]
      simp [hq, hset]

theorem muxId_cacheMuxEntry (d : DriverState) (index j : Fin maxNumOfMuxChannel) (muxId : ℕ)
    (name : IfName) : ((d.cacheMuxEntry index muxId name).muxChannel j).muxId =
      if j = index then muxId else (d.muxChannel j).muxId := by
  unfold cacheMuxEntry
  split
  · rename_i hj
    rw [hj]
    simp only [update_self]
  · rename_i hj
    simp only [update_of_ne hj]

theorem muxId_countMuxEntry (d : DriverState) (index j : Fin maxNumOfMuxChannel) :
    ((d.countMuxEntry index).muxChannel j).muxId = (d.muxChannel j).muxId := by
  apply muxId_update
  rfl

theorem canRegister_cacheMuxEntry (d : DriverState) (index : Fin maxNumOfMuxChannel)
    (muxId : ℕ) (name : IfName) (o : RegisterOutcome) :
    (d.cacheMuxEntry index muxId name).canRegister index o = d.canRegister index o := by
  simp only [canRegister, cacheMuxEntry, update_self]
  rfl

/-- A new entry keeps the table free of duplicates if, where it is counted, its id is
not that of a counted entry. -/
theorem MuxDistinct.addMuxEntry {d : DriverState} (hd : d.MuxDistinct) {muxId : ℕ}
    {name : IfName} {h : d.rmnetIndex.val < maxNumOfMuxChannel} {o : RegisterOutcome}
    (hnew : d.canRegister ⟨d.rmnetIndex.val, h⟩ o = true →
      ∀ i : Fin maxNumOfMuxChannel, i.val < d.rmnetIndex.val →
        (d.muxChannel i).muxId ≠ muxId) :
    (d.addMuxEntry muxId name h o).1.MuxDistinct := by
  let index : Fin maxNumOfMuxChannel := ⟨d.rmnetIndex.val, h⟩
  have hreg := (d.cacheMuxEntry index muxId name).registerMuxEntry_sameMux index o
  have hflag := (d.cacheMuxEntry index muxId name).registerMuxEntry_snd index o
  have hcan := d.canRegister_cacheMuxEntry index muxId name o
  -- the ids once the entry is there
  have hid (j : Fin maxNumOfMuxChannel) :
      (((d.cacheMuxEntry index muxId name).registerMuxEntry index o).1.muxChannel j).muxId =
        if j = index then muxId else (d.muxChannel j).muxId := by
    rw [hreg.muxId, muxId_cacheMuxEntry]
  have hold (j : Fin maxNumOfMuxChannel) (hj : j.val < d.rmnetIndex.val) : j ≠ index := by
    intro heq
    rw [heq] at hj
    exact Nat.lt_irrefl _ hj
  unfold DriverState.addMuxEntry
  dsimp only
  rw [hflag, hcan]
  by_cases hok : d.canRegister index o = true
  · rw [if_pos hok]
    intro i j hi hj heq
    have hmux (k : Fin maxNumOfMuxChannel) :
        ((((d.cacheMuxEntry index muxId name).registerMuxEntry index o).1.countMuxEntry
          index).muxChannel k).muxId = if k = index then muxId else (d.muxChannel k).muxId :=
      (muxId_countMuxEntry _ index k).trans (hid k)
    rw [hmux, hmux] at heq
    have hlast (k : Fin maxNumOfMuxChannel) (hk : k.val < d.rmnetIndex.val+1) (hne : k ≠ index) :
        k.val < d.rmnetIndex.val := by
      have hval : k.val ≠ d.rmnetIndex.val := fun hv => hne (Fin.ext hv)
      omega
    -- two counted entries, of which the new one may be one
    by_cases hi' : i = index
    · by_cases hj' : j = index
      · rw [hi', hj']
      · rw [if_pos hi', if_neg hj'] at heq
        exact absurd heq.symm (hnew hok j (hlast j hj hj'))
    · by_cases hj' : j = index
      · rw [if_neg hi', if_pos hj'] at heq
        exact absurd heq (hnew hok i (hlast i hi hi'))
      · rw [if_neg hi', if_neg hj'] at heq
        exact hd i j (hlast i hi hi') (hlast j hj hj') heq
  · -- the entry is cached but not counted
    rw [if_neg hok]
    intro i j hi hj heq
    have hcount : ((d.cacheMuxEntry index muxId name).registerMuxEntry index o).1.rmnetIndex =
        d.rmnetIndex := hreg.rmnetIndex
    rw [hcount] at hi hj
    rw [hid, hid, if_neg (hold i hi), if_neg (hold j hj)] at heq
    exact hd i j hi hj heq

theorem MuxDistinct.addMuxChannel {d : DriverState} (hd : d.MuxDistinct) (muxId : ℕ)
    (name : IfName) (o : RegisterOutcome) : (d.addMuxChannel muxId name o).1.MuxDistinct := by
  unfold DriverState.addMuxChannel
  split
  · exact hd
  · rename_i hfree
    split
    · apply hd.addMuxEntry
      intro _ i _ hi
      apply hfree
      unfold findMuxChannelIndex
      rw [List.find?_isSome]
      exact ⟨i, List.mem_finRange i, by simpa using hi⟩
    · exact hd

theorem MuxDistinct.autoIngressMux {d : DriverState} (hd : d.MuxDistinct) {o : AutoOutcome}
    (hnew : o.ingressOk = true → ∀ h : d.rmnetIndex.val < maxNumOfMuxChannel,
      d.canRegister ⟨d.rmnetIndex.val, h⟩ o.register = true →
        ∀ i : Fin maxNumOfMuxChannel, i.val < d.rmnetIndex.val → (d.muxChannel i).muxId ≠ 1) :
    (d.autoIngressMux o).MuxDistinct := by
  unfold DriverState.autoIngressMux
  by_cases hok : o.ingressOk = true
  · rw [if_neg (not_not.mpr hok)]
    split
    · rename_i h
      have hadd : (d.addMuxEntry 1 qmapmux h o.register).1.MuxDistinct :=
        hd.addMuxEntry (hnew hok h)
      dsimp only
      split
      · exact hadd
      · exact hadd
    · exact hd
  · rw [if_pos hok]
    exact hd

end Mux

section Rules

theorem UlOnce.of_keepsRules {d d' : DriverState} (hd : d.UlOnce) (h : d.KeepsRules d') :
    d'.UlOnce := by
  intro q hq ip hip
  rw [h.q6UlFilterRule] at hq
  have hle := h.grows.ruleCount_le (lanWanTbl ip) (ulFltRule q)
  have honce := hd q hq ip hip
  rw [List.count_nil] at hle
  omega

theorem UlOnce.of_installs {d d' : DriverState} {rs : List WanDlRule}
    {pending : FltTblKey → List FltRule} (h : d.Installs d' rs pending)
    (hroom : ∀ q ∈ d.q6UlFilterRule, ∀ ip ∈ [IpaIpType.v4, .v6],
      (pending (lanWanTbl ip)).count (ulFltRule q) +
        d.ipa.ruleCount (lanWanTbl ip) (ulFltRule q) ≤ 1) : d'.UlOnce := by
  intro q hq ip hip
  rw [h.q6UlFilterRule] at hq
  have hle := h.grows.ruleCount_le (lanWanTbl ip) (ulFltRule q)
  exact Nat.le_trans hle (hroom q hq ip hip)

end Rules

/-- One step, whatever it is. -/
theorem NoDuplicates.step {d d' : DriverState} {a : DriverAction} (hd : d.NoDuplicates)
    (hguard : d.AddsOnce a) (hstep : d.step a = some d') : d'.NoDuplicates := by
  cases a with
  | q6HandshakeComplete =>
    cases hstep
    exact ⟨hd.mux, hd.rules⟩
  | addMuxChannel muxId name o =>
    cases hstep
    exact ⟨hd.mux.addMuxChannel muxId name o,
      hd.rules.of_keepsRules (d.addMuxChannel_keepsRules muxId name o)⟩
  | autoIpacmInit o =>
    have hrun : d' = d.vendorAutoIpacmInitFn o := by
      unfold DriverState.step at hstep
      dsimp only at hstep
      split at hstep
      · exact (Option.some.inj hstep).symm
      · cases hstep
    rcases d.vendorAutoIpacmInitFn_cases o with
      ⟨_, work, heq⟩ | ⟨_, _, _, heq⟩ | ⟨hdone, hnetdev, hok, heq⟩
    · rw [hrun, heq]
      exact ⟨hd.mux, hd.rules⟩
    · rw [hrun, heq]
      exact ⟨hd.mux, hd.rules⟩
    · rw [hrun, heq]
      obtain ⟨hroom, hnew⟩ := hguard hdone hnetdev hok
      have hinst := (d.takeWork.beforeNotif_installs o).then
        (installWanDlQmiFilterInstalledNotif_installs _ o)
      constructor
      · have hmux : d.takeWork.MuxDistinct := hd.mux
        apply (hmux.of_same hinst.sameMux).autoIngressMux
        -- the rules have left the table of channels as it was
        intro hingress h
        have hidx := congrArg Fin.val hinst.rmnetIndex
        have h' : d.rmnetIndex.val < maxNumOfMuxChannel := by
          rw [hidx] at h
          exact h
        rw [hinst.canRegister, hinst.muxChannel]
        simp only [hidx]
        exact hnew hingress h'
      · exact (UlOnce.of_installs hinst hroom).of_keepsRules (autoIngressMux_keepsRules _ o)

instance (d : DriverState) : ∀ a, Decidable (d.AddsOnce a)
  | .q6HandshakeComplete => isTrue trivial
  | .addMuxChannel _ _ _ => isTrue trivial
  | .autoIpacmInit _ => inferInstanceAs (Decidable (_ → _ → _ → _ ∧ _))

instance (d : DriverState) : Decidable d.MuxDistinct :=
  inferInstanceAs (Decidable (∀ _ _, _ → _ → _ → _))

instance (d : DriverState) : Decidable d.UlOnce :=
  inferInstanceAs (Decidable (∀ _ ∈ _, _))

/-- In every order of handshakes, ioctls and runs of the work whose runs add nothing
twice, no mux id and no rule of the modem is there twice. -/
theorem noDuplicates_of_addsOnce {d d' : DriverState} {as : List DriverAction}
    (hd : d.NoDuplicates) (hrun : run step d as = some d')
    (hguard : Guarded step AddsOnce d as) : d'.NoDuplicates :=
  hguard.inv (fun _ _ _ hs hg hstep => hs.step hg hstep) hrun hd

/-- The ingress format fails, and the next handshake has the work done again: the rule
of the modem is there twice. With a channel for mux id 1 from the ioctl, one run is
enough to have the id twice. -/
theorem duplicates_after_retry :
    (atHandshake [q6Wildcard]).NoDuplicates ∧
      (∃ d, run step (atHandshake [q6Wildcard])
          [.autoIpacmInit { ingressOk := false }, .q6HandshakeComplete, .autoIpacmInit {}] =
            some d ∧ ¬ d.UlOnce) ∧
      ∃ d, run step (atHandshake [q6Wildcard])
          [.addMuxChannel 1 qmapmux {}, .autoIpacmInit {}] = some d ∧ ¬ d.MuxDistinct := by
  refine ⟨⟨by decide, by decide⟩, ⟨_, rfl, by decide⟩, ⟨_, rfl, by decide⟩⟩

/-- A run, and then a channel for another mux id. -/
theorem noDuplicates_secondChannel :
    ∃ d, run step (atHandshake [q6Wildcard])
        [.autoIpacmInit {}, .addMuxChannel 2 qmapmux {}] = some d ∧ d.NoDuplicates := by
  have hstart : (atHandshake [q6Wildcard]).NoDuplicates := ⟨by decide, by decide⟩
  have hguard : Guarded step AddsOnce (atHandshake [q6Wildcard])
      [.autoIpacmInit {}, .addMuxChannel 2 qmapmux {}] := by
    decide
  exact ⟨_, rfl, noDuplicates_of_addsOnce hstart rfl hguard⟩

end DriverState
end X00TDCellular
