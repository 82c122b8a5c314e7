import X00TDCellular.IpaRmWrites

/-! The two peers lists of a dependency against what their callers mean: one relation between
the producers and the consumers that are there. -/

namespace X00TDCellular
open Function

/-- The resources there are, and for each dependency whether userspace added it. -/
structure DependencyMap where
  prods : RmProd → Bool := fun _ => false
  conss : RmCons → Bool := fun _ => false
  deps : RmProd → RmCons → Option Bool := fun _ _ => none

namespace DependencyMap

def set (m : DependencyMap) (p : RmProd) (c : RmCons) (dep : Option Bool) : DependencyMap :=
  { m with deps := update m.deps p (update (m.deps p) c dep) }

/-- What an action means for the dependencies, whatever it does to the resources. -/
def apply (m : DependencyMap) : RmAction → DependencyMap
  | .createResource name volt _ _ =>
    if volt < 0 ∨ volt ≥ ipaVoltageMax then m
    else
      match ipaRmDepGetIndex name with
      | some (.inl p) => { m with prods := update m.prods p true }
      | some (.inr c) => { m with conss := update m.conss c true }
      | none => m
  | .deleteResource name _ =>
    match ipaRmDepGetIndex name with
    | some (.inl p) =>
      { m with prods := update m.prods p false, deps := update m.deps p fun _ => none }
    | some (.inr c) =>
      { m with conss := update m.conss c false, deps := fun p => update (m.deps p) c none }
    | none => m
  | .addDependency name dependsOn user _ =>
    match ipaRmDepGetIndex name, ipaRmDepGetIndex dependsOn with
    | some (.inl p), some (.inr c) =>
      if m.prods p ∧ m.conss c ∧ m.deps p c = none then m.set p c (some user) else m
    | _, _ => m
  | .deleteDependency name dependsOn user _ =>
    match ipaRmDepGetIndex name, ipaRmDepGetIndex dependsOn with
    | some (.inl p), some (.inr c) => if m.deps p c = some user then m.set p c none else m
    | _, _ => m
  | _ => m

theorem set_deps (m : DependencyMap) (p p' : RmProd) (c c' : RmCons) (dep : Option Bool) :
    (m.set p c dep).deps p' c' = if p' = p ∧ c' = c then dep else m.deps p' c' := by
  by_cases hp : p' = p
  · subst hp
    by_cases hc : c' = c
    · simp [set, hc]
    · simp [set, hc]
  · simp [set, hp]

end DependencyMap

namespace Rm

variable {s s' : Rm} {p : RmProd} {c : RmCons} {q : RmProdRes} {k : RmConsRes}

/-- The entry of a producer's peers list, and that of a consumer's. -/
def prodPeer (s : Rm) (p : RmProd) (c : RmCons) : Option Bool := (s.prods p).bind (·.peers c)

def consPeer (s : Rm) (p : RmProd) (c : RmCons) : Option Bool := (s.conss c).bind (·.peers p)

def dependencyMap (s : Rm) : DependencyMap where
  prods p := (s.prods p).isSome
  conss c := (s.conss c).isSome
  deps := s.prodPeer

/-- Each dependency is in both lists, with one origin. -/
def Linked (s : Rm) : Prop := s.consPeer = s.prodPeer

theorem Write.peers (h : Write True s s') :
    s'.prodPeer = s.prodPeer ∧ s'.consPeer = s.consPeer := by
  have hprods {p : RmProd} {q : RmProdRes} (hq : s.prods p = some q) {q' : RmProdRes}
      (hpeers : q'.peers = q.peers) (p' : RmProd) (c : RmCons) :
      (update s.prods p (some q') p').bind (·.peers c) = (s.prods p').bind (·.peers c) := by
    by_cases hp : p' = p
    · rw [hp, update_self, hq, Option.bind_some, Option.bind_some, hpeers]
    · rw [update_of_ne hp]
  have hconss {c : RmCons} {k : RmConsRes} (hk : s.conss c = some k) {k' : RmConsRes}
      (hpeers : k'.peers = k.peers) (p : RmProd) (c' : RmCons) :
      (update s.conss c (some k') c').bind (·.peers p) = (s.conss c').bind (·.peers p) := by
    by_cases hc : c' = c
    · rw [hc, update_self, hk, Option.bind_some, Option.bind_some, hpeers]
    · rw [update_of_ne hc]
  cases h
  case prod hq _ hpeers => exact ⟨funext₂ (hprods hq hpeers), rfl⟩
  case cons hk _ hpeers _ => exact ⟨rfl, funext₂ (hconss hk hpeers)⟩
  case resume hk _ hpeers _ _ _ _ => exact ⟨rfl, funext₂ (hconss hk hpeers)⟩
  case asked hk _ hpeers _ _ => exact ⟨rfl, funext₂ (hconss hk hpeers)⟩
  case perf name =>
    have hgraph := perfProfileChange_graph s name
    refine ⟨funext₂ fun p c => ?_, funext₂ fun p c => ?_⟩
    · rw [prodPeer, hgraph, prodPeer]
    · rw [consPeer, hgraph, consPeer]
  all_goals exact ⟨rfl, rfl⟩

theorem Writes.dependencyMap (h : Writes True s s') :
    s'.dependencyMap = s.dependencyMap ∧ s'.consPeer = s.consPeer := by
  induction h with
  | refl => exact ⟨rfl, rfl⟩
  | tail _ hw ih =>
    obtain ⟨hprods, hconss⟩ := hw.isSome
    obtain ⟨hprodPeer, hconsPeer⟩ := hw.peers
    refine ⟨?_, hconsPeer.trans ih.2⟩
    rw [← ih.1]
    simp only [Rm.dependencyMap, hprods, hconss, hprodPeer]

theorem Writes.linked (h : Writes True s s') (hs : s.Linked) : s'.Linked := by
  obtain ⟨hmap, hpeer⟩ := h.dependencyMap
  exact hpeer.trans (hs.trans (congrArg DependencyMap.deps hmap).symm)

/-- An entry is put into both lists or taken out of both. -/
theorem setPeers_linked (hs : s.Linked) (hq : s.prods p = some q) (hk : s.conss c = some k)
    (dep : Option Bool) :
    (s.setPeers p c dep).Linked ∧
      (s.setPeers p c dep).dependencyMap = s.dependencyMap.set p c dep := by
  have heq : s.setPeers p c dep = (s.setProd p { q with peers := update q.peers c dep }).setCons c
      { k with peers := update k.peers p dep } := by
    have hk' : (s.setProd p { q with peers := update q.peers c dep }).conss c = some k := hk
    rw [setPeers, modifyProd_eq hq, modifyCons_eq hk']
  have hprod : (s.setPeers p c dep).prodPeer = (s.dependencyMap.set p c dep).deps := by
    funext p' c'
    rw [heq, DependencyMap.set_deps]
    by_cases hp : p' = p
    · subst hp
      by_cases hc : c' = c
      · simp [prodPeer, setCons, setProd, hc]
      · simp [prodPeer, setCons, setProd, dependencyMap, hc, hq]
    · simp [prodPeer, setCons, setProd, dependencyMap, hp]
  have hcons : (s.setPeers p c dep).consPeer = (s.dependencyMap.set p c dep).deps := by
    funext p' c'
    have hsc := congrFun (congrFun hs p') c'
    rw [heq, DependencyMap.set_deps]
    by_cases hc : c' = c
    · subst hc
      by_cases hp : p' = p
      · simp [consPeer, setCons, hp]
      · rw [consPeer, hk, Option.bind_some] at hsc
        simp [consPeer, setCons, dependencyMap, hp, hsc]
    · rw [consPeer] at hsc
      simp [consPeer, setCons, setProd, dependencyMap, hc, hsc]
  refine ⟨hcons.trans hprod.symm, ?_⟩
  have hprods (p' : RmProd) : ((s.setPeers p c dep).prods p').isSome = (s.prods p').isSome := by
    rw [heq]
    by_cases hp : p' = p
    · simp [setCons, setProd, hp, hq]
    · simp [setCons, setProd, hp]
  have hconss (c' : RmCons) : ((s.setPeers p c dep).conss c').isSome = (s.conss c').isSome := by
    rw [heq]
    by_cases hc : c' = c
    · simp [setCons, hc, hk]
    · simp [setCons, setProd, hc]
  rw [dependencyMap, hprod]
  simp only [hprods, hconss]
  rfl

theorem Linked.check (hs : s.Linked) (hq : s.prods p = some q) (hk : s.conss c = some k) :
    ipaRmPeersListCheckDependency q p k c = s.prodPeer p c := by
  have hsc := congrFun (congrFun hs p) c
  rw [consPeer, hk, Option.bind_some] at hsc
  rw [ipaRmPeersListCheckDependency, hsc]
  cases hpeer : s.prodPeer p c with
  | none => simpa [prodPeer, hq] using hpeer
  | some user => rfl

theorem dependencyMap_add (hs : s.Linked) (p : RmProd) (c : RmCons) (user : Bool)
    (reply : RmReply) :
    (ipaRmResourceAddDependency s p c user reply).1.Linked ∧
      (ipaRmResourceAddDependency s p c user reply).1.dependencyMap =
        if (s.prods p).isSome ∧ (s.conss c).isSome ∧ s.prodPeer p c = none then
          s.dependencyMap.set p c (some user) else s.dependencyMap := by
  obtain ⟨hno, hsame⟩ | ⟨q, k, hq, hk, hcheck, hwrites⟩ :=
    writes_addDependency (L := True) s p c user reply (.inr trivial)
  · rw [hsame, if_neg]
    · exact ⟨hs, rfl⟩
    · rintro ⟨hq, hk, hnone⟩
      obtain ⟨q, hq⟩ := Option.isSome_iff_exists.mp hq
      obtain ⟨k, hk⟩ := Option.isSome_iff_exists.mp hk
      exact hno q k hq hk ((hs.check hq hk).trans hnone)
  · rw [hs.check hq hk] at hcheck
    obtain ⟨hlinked, hmap⟩ := setPeers_linked hs hq hk (some user)
    rw [if_pos ⟨by simp [hq], by simp [hk], hcheck⟩]
    exact ⟨hwrites.linked hlinked, hwrites.dependencyMap.1.trans hmap⟩

/-- Whoever is in a peers list is there. -/
theorem Linked.exists_of_peer (hs : s.Linked) {user : Bool} (h : s.prodPeer p c = some user) :
    ∃ q k, s.prods p = some q ∧ s.conss c = some k := by
  have hcons : s.consPeer p c = some user := (congrFun (congrFun hs p) c).trans h
  obtain ⟨q, hq, -⟩ := Option.bind_eq_some_iff.mp h
  obtain ⟨k, hk, -⟩ := Option.bind_eq_some_iff.mp hcons
  exact ⟨q, k, hq, hk⟩

theorem dependencyMap_delete (hs : s.Linked) (p : RmProd) (c : RmCons) (user : Bool)
    (reply : RmReply) :
    (ipaRmResourceDeleteDependency s p c user reply).1.Linked ∧
      (ipaRmResourceDeleteDependency s p c user reply).1.dependencyMap =
        if s.prodPeer p c = some user then s.dependencyMap.set p c none else s.dependencyMap := by
  obtain ⟨hno, hsame⟩ | ⟨q, k, hq, hk, hcheck, s₁, hbefore, hafter⟩ :=
    writes_deleteDependency (L := True) s p c user reply
  · rw [hsame, if_neg]
    · exact ⟨hs, rfl⟩
    · intro hpeer
      obtain ⟨q, k, hq, hk⟩ := hs.exists_of_peer hpeer
      exact hno q k hq hk ((hs.check hq hk).trans hpeer)
  · rw [hs.check hq hk] at hcheck
    have hs₁ := hbefore.linked hs
    have hmap₁ := hbefore.dependencyMap.1
    obtain ⟨q₁, k₁, hq₁, hk₁⟩ := hs₁.exists_of_peer
      ((congrFun (congrFun (congrArg DependencyMap.deps hmap₁) p) c).trans hcheck)
    obtain ⟨hlinked, hmap⟩ := setPeers_linked hs₁ hq₁ hk₁ none
    rw [if_pos hcheck]
    exact ⟨hafter.linked hlinked, hafter.dependencyMap.1.trans (hmap.trans (by rw [hmap₁]))⟩

/-- A loop that cuts one dependency after the other, each in the name of who added it. -/
theorem dependencyMap_cutAll {κ : Type} {f : Rm → κ → Rm} {e : κ → RmProd × RmCons}
    (hf : ∀ s i, s.Linked → (f s i).Linked ∧
      (f s i).dependencyMap = s.dependencyMap.set (e i).1 (e i).2 none)
    (hs : s.Linked) (is : List κ) :
    (is.foldl f s).Linked ∧ (is.foldl f s).dependencyMap = { s.dependencyMap with
      deps := fun p c => if (p, c) ∈ is.map e then none else s.prodPeer p c } := by
  induction is generalizing s with
  | nil => exact ⟨hs, by simp [dependencyMap]⟩
  | cons i is ih =>
    obtain ⟨hlinked, hmap⟩ := hf s i hs
    obtain ⟨hlinked', hmap'⟩ := ih hlinked
    have hpeer (p : RmProd) (c : RmCons) : (f s i).prodPeer p c =
        if p = (e i).1 ∧ c = (e i).2 then none else s.prodPeer p c := by
      have h := congrFun (congrFun (congrArg DependencyMap.deps hmap) p) c
      rwa [DependencyMap.set_deps] at h
    refine ⟨hlinked', hmap'.trans ?_⟩
    rw [hmap]
    simp only [DependencyMap.set, DependencyMap.mk.injEq, true_and]
    funext p c
    rw [hpeer]
    by_cases hmem : (p, c) ∈ is.map e
    · simp only [List.map_cons, List.mem_cons, hmem, or_true, if_true]
    · simp only [List.map_cons, List.mem_cons, hmem, or_false, if_false, Prod.ext_iff]

theorem dependencyMap_deletePeerOfProd (hs : s.Linked) (p : RmProd) (env : RmEnv) (c : RmCons) :
    (deletePeerOfProd p env s c).Linked ∧
      (deletePeerOfProd p env s c).dependencyMap = s.dependencyMap.set p c none := by
  have hdep : (s.prods p).bind (·.peers c) = s.prodPeer p c := rfl
  unfold deletePeerOfProd
  rw [hdep]
  cases hpeer : s.prodPeer p c with
  | none =>
    refine ⟨hs, ?_⟩
    have hself : update (s.prodPeer p) c none = s.prodPeer p := by
      rw [← hpeer, update_eq_self]
    simp only [DependencyMap.set, dependencyMap, hself, update_eq_self]
  | some user =>
    have h := dependencyMap_delete hs p c user (env p c)
    rwa [if_pos hpeer] at h

/-- Both ends cut the same dependency. -/
theorem deletePeerOfCons_eq (hs : s.Linked) (c : RmCons) (env : RmEnv) (p : RmProd) :
    deletePeerOfCons c env s p = deletePeerOfProd p env s c := by
  have hdep : (s.conss c).bind (·.peers p) = (s.prods p).bind (·.peers c) :=
    congrFun (congrFun hs p) c
  unfold deletePeerOfCons deletePeerOfProd
  rw [hdep]

/-- A producer without dependencies is taken out of the table. -/
theorem dependencyMap_removeProd (hs : s.Linked) (hnone : ∀ c, s.prodPeer p c = none) :
    Linked { s with prods := update s.prods p none } ∧
      Rm.dependencyMap { s with prods := update s.prods p none } =
        { s.dependencyMap with prods := update s.dependencyMap.prods p false } := by
  have hpeers : Rm.prodPeer { s with prods := update s.prods p none } = s.prodPeer := by
    funext p' c
    by_cases hp : p' = p
    · subst hp
      rw [hnone]
      simp [prodPeer]
    · simp [prodPeer, hp]
  have hprods : (fun p' => (update s.prods p none p').isSome) =
      update (fun p' => (s.prods p').isSome) p false := by
    funext p'
    by_cases hp : p' = p
    · simp [hp]
    · simp [hp]
  refine ⟨hs.trans hpeers.symm, ?_⟩
  simp only [dependencyMap, hprods, hpeers]

theorem dependencyMap_removeCons (hs : s.Linked) (hnone : ∀ p, s.prodPeer p c = none) :
    Linked { s with conss := update s.conss c none } ∧
      Rm.dependencyMap { s with conss := update s.conss c none } =
        { s.dependencyMap with conss := update s.dependencyMap.conss c false } := by
  have hpeers : Rm.consPeer { s with conss := update s.conss c none } = s.consPeer := by
    funext p c'
    by_cases hc : c' = c
    · subst hc
      have hsc := congrFun (congrFun hs p) c'
      rw [hsc, hnone]
      simp [consPeer]
    · simp [consPeer, hc]
  have hconss : (fun c' => (update s.conss c none c').isSome) =
      update (fun c' => (s.conss c').isSome) c false := by
    funext c'
    by_cases hc : c' = c
    · simp [hc]
    · simp [hc]
  have hprodPeer : Rm.prodPeer { s with conss := update s.conss c none } = s.prodPeer := rfl
  refine ⟨hpeers.trans hs, ?_⟩
  simp only [dependencyMap, hconss, hprodPeer]

theorem dependencyMap_deleteProducer (hs : s.Linked) (p : RmProd) (env : RmEnv) :
    (deleteProducer s p env).Linked ∧ (deleteProducer s p env).dependencyMap =
      { s.dependencyMap with
        prods := update s.dependencyMap.prods p false
        deps := update s.dependencyMap.deps p fun _ => none } := by
  have hend {s₁ : Rm} (hcut : s₁.Linked) (hmap : s₁.dependencyMap = { s.dependencyMap with
      deps := update s.dependencyMap.deps p fun _ => none }) :
      let s₂ := (ipaRmResourceProducerRelease s₁ p (env p)).1
      Linked { s₂ with prods := update s₂.prods p none } ∧
        Rm.dependencyMap { s₂ with prods := update s₂.prods p none } = { s.dependencyMap with
          prods := update s.dependencyMap.prods p false
          deps := update s.dependencyMap.deps p fun _ => none } := by
    intro s₂
    have hwrites : Writes True s₁ s₂ := writes_producerRelease s₁ p (env p)
    have hmap₂ := hwrites.dependencyMap.1.trans hmap
    have hnone (c : RmCons) : s₂.prodPeer p c = none :=
      (congrFun (congrFun (congrArg DependencyMap.deps hmap₂) p) c).trans
        (congrFun (update_self p (fun _ => none) s.dependencyMap.deps) c)
    obtain ⟨hlinked, hmap₃⟩ := dependencyMap_removeProd (hwrites.linked hcut) hnone
    exact ⟨hlinked, hmap₃.trans (by rw [hmap₂])⟩
  obtain ⟨hcut, hcutMap⟩ := dependencyMap_cutAll (e := fun c => (p, c))
    (fun s c hs => dependencyMap_deletePeerOfProd hs p env c) hs RmCons.all
  refine hend hcut (hcutMap.trans ?_)
  simp only [DependencyMap.mk.injEq, true_and]
  funext p' c
  by_cases hp : p' = p
  · subst hp
    simp [RmCons.mem_all]
  · simp [dependencyMap, hp, Ne.symm hp]

theorem dependencyMap_deleteConsumer (hs : s.Linked) (c : RmCons) (env : RmEnv) :
    (deleteConsumer s c env).Linked ∧ (deleteConsumer s c env).dependencyMap =
      { s.dependencyMap with
        conss := update s.dependencyMap.conss c false
        deps := fun p => update (s.dependencyMap.deps p) c none } := by
  have hend {s₁ : Rm} (hcut : s₁.Linked) (hmap : s₁.dependencyMap = { s.dependencyMap with
      deps := fun p => update (s.dependencyMap.deps p) c none }) :
      Linked { s₁ with conss := update s₁.conss c none } ∧
        Rm.dependencyMap { s₁ with conss := update s₁.conss c none } = { s.dependencyMap with
          conss := update s.dependencyMap.conss c false
          deps := fun p => update (s.dependencyMap.deps p) c none } := by
    have hnone (p : RmProd) : s₁.prodPeer p c = none :=
      (congrFun (congrFun (congrArg DependencyMap.deps hmap) p) c).trans (update_self _ _ _)
    obtain ⟨hlinked, hmap₂⟩ := dependencyMap_removeCons hcut hnone
    exact ⟨hlinked, hmap₂.trans (by rw [hmap])⟩
  obtain ⟨hcut, hcutMap⟩ := dependencyMap_cutAll (e := fun p => (p, c))
    (fun s p hs => deletePeerOfCons_eq hs c env p ▸ dependencyMap_deletePeerOfProd hs p env c)
    hs RmProd.all
  refine hend hcut (hcutMap.trans ?_)
  simp only [DependencyMap.mk.injEq, true_and]
  funext p c'
  by_cases hc : c' = c
  · subst hc
    simp [RmProd.mem_all]
  · simp [dependencyMap, hc, Ne.symm hc]

theorem dependencyMap_createProd (hs : s.Linked) (hp : s.prods p = none) (q : RmProdRes)
    (hq : ∀ c, q.peers c = none) :
    (s.setProd p q).Linked ∧ (s.setProd p q).dependencyMap =
      { s.dependencyMap with prods := update s.dependencyMap.prods p true } := by
  have hpeers : (s.setProd p q).prodPeer = s.prodPeer := by
    funext p' c
    by_cases h : p' = p
    · subst h
      simp [prodPeer, setProd, hp, hq]
    · simp [prodPeer, setProd, h]
  have hprods : (fun p' => ((s.setProd p q).prods p').isSome) =
      update (fun p' => (s.prods p').isSome) p true := by
    funext p'
    by_cases h : p' = p
    · simp [setProd, h]
    · simp [setProd, h]
  refine ⟨hs.trans hpeers.symm, ?_⟩
  simp only [dependencyMap, hprods, hpeers]
  rfl

theorem dependencyMap_createCons (hs : s.Linked) (hc : s.conss c = none) (k : RmConsRes)
    (hk : ∀ p, k.peers p = none) :
    (s.setCons c k).Linked ∧ (s.setCons c k).dependencyMap =
      { s.dependencyMap with conss := update s.dependencyMap.conss c true } := by
  have hpeers : (s.setCons c k).consPeer = s.consPeer := by
    funext p c'
    by_cases h : c' = c
    · subst h
      simp [consPeer, setCons, hc, hk]
    · simp [consPeer, setCons, h]
  have hconss : (fun c' => ((s.setCons c k).conss c').isSome) =
      update (fun c' => (s.conss c').isSome) c true := by
    funext c'
    by_cases h : c' = c
    · simp [setCons, h]
    · simp [setCons, h]
  refine ⟨hpeers.trans hs, ?_⟩
  simp only [dependencyMap, hconss]
  rfl

/-- An action that is not about the dependencies leaves them as they are. -/
theorem dependencyMap_of_not_links {a : RmAction} (ha : a.links = false)
    (hstep : s.step a = some s') :
    s'.dependencyMap = s.dependencyMap ∧ s'.consPeer = s.consPeer := by
  have hcases := step_cases (L := True) (K := False) (.inr trivial)
    (fun h => by rw [ha] at h; exact absurd h (by decide)) hstep
  cases hcases with
  | edits h => exact h.writes.dependencyMap
  | createProd | createCons | removeProd | removeCons => cases ha
  | work hwq reply =>
    rename_i w wq
    cases w with
    | notifyIpa volt bw => exact ⟨rfl, rfl⟩
    | _ => exact (writes_handleWork { s with wq := wq } reply (by simp)
        fun _ => .inr (.inr trivial)).dependencyMap

theorem dependencyMap_step (hs : s.Linked) {a : RmAction} (hstep : s.step a = some s') :
    s'.Linked ∧ s'.dependencyMap = s.dependencyMap.apply a := by
  have hframe (ha : a.links = false) (hsame : s.dependencyMap.apply a = s.dependencyMap) :
      s'.Linked ∧ s'.dependencyMap = s.dependencyMap.apply a := by
    obtain ⟨hmap, hcons⟩ := dependencyMap_of_not_links ha hstep
    exact ⟨hcons.trans (hs.trans (congrArg DependencyMap.deps hmap).symm), hmap.trans hsame.symm⟩
  cases a with
  | createResource name volt cb userData =>
    cases hstep
    unfold ipaRmCreateResource
    by_cases hvolt : volt < 0 ∨ volt ≥ ipaVoltageMax
    · exact ⟨by rwa [if_pos hvolt], by rw [if_pos hvolt, DependencyMap.apply, if_pos hvolt]⟩
    · rw [if_neg hvolt, DependencyMap.apply, if_neg hvolt]
      have hsame (m : DependencyMap) (h : m = s.dependencyMap) : s.Linked ∧ s.dependencyMap = m :=
        ⟨hs, h.symm⟩
      cases hname : ipaRmDepGetIndex name with
      | none =>
        dsimp only
        split_ifs <;> exact ⟨hs, rfl⟩
      | some r =>
        cases r with
        | inl p =>
          dsimp only
          split_ifs with hsome
          · refine hsame _ ?_
            have hself : update s.dependencyMap.prods p true = s.dependencyMap.prods := by
              rw [← hsome]
              exact update_eq_self _ _
            rw [hself]
          · exact dependencyMap_createProd hs (by simpa using hsome) _ fun _ => rfl
        | inr c =>
          dsimp only
          split_ifs with hsome
          · refine hsame _ ?_
            have hself : update s.dependencyMap.conss c true = s.dependencyMap.conss := by
              rw [← hsome]
              exact update_eq_self _ _
            rw [hself]
          · exact dependencyMap_createCons hs (by simpa using hsome) _ fun _ => rfl
  | deleteResource name env =>
    cases hstep
    unfold ipaRmDeleteResource
    simp only [DependencyMap.apply]
    cases hname : ipaRmDepGetIndex name with
    | none => exact ⟨hs, rfl⟩
    | some r =>
      cases r with
      | inl p =>
        dsimp only
        split_ifs with hsome
        · exact dependencyMap_deleteProducer hs p env
        · have hp : s.prods p = none := by simpa using hsome
          refine ⟨hs, ?_⟩
          have hprods : update s.dependencyMap.prods p false = s.dependencyMap.prods :=
            update_eq_self_iff.mpr (by simp [dependencyMap, hp])
          have hdeps : (update s.dependencyMap.deps p fun _ => none) = s.dependencyMap.deps :=
            update_eq_self_iff.mpr (by funext c; simp [dependencyMap, prodPeer, hp])
          rw [hprods, hdeps]
      | inr c =>
        dsimp only
        split_ifs with hsome
        · exact dependencyMap_deleteConsumer hs c env
        · have hc : s.conss c = none := by simpa using hsome
          refine ⟨hs, ?_⟩
          have hconss : update s.dependencyMap.conss c false = s.dependencyMap.conss :=
            update_eq_self_iff.mpr (by simp [dependencyMap, hc])
          have hdeps : (fun p => update (s.dependencyMap.deps p) c none) =
              s.dependencyMap.deps := by
            funext p
            have hsc := congrFun (congrFun hs p) c
            rw [consPeer, hc, Option.bind_none] at hsc
            exact update_eq_self_iff.mpr hsc
          rw [hconss, hdeps]
  | addDependency name dependsOn user env =>
    cases hstep
    by_cases hpair : ∃ p c, ipaRmDepGetIndex name = some (.inl p) ∧
        ipaRmDepGetIndex dependsOn = some (.inr c)
    · obtain ⟨p, c, hp, hc⟩ := hpair
      simp only [ipaRmAddDependency, DependencyMap.apply, hp, hc]
      exact dependencyMap_add hs p c user (env p c)
    · have hsame : (ipaRmAddDependency s name dependsOn user env).1 = s := by
        unfold ipaRmAddDependency
        split
        · exact absurd ⟨_, _, ‹_›, ‹_›⟩ hpair
        · rfl
      have hmap : s.dependencyMap.apply (.addDependency name dependsOn user env) =
          s.dependencyMap := by
        simp only [DependencyMap.apply]
        split
        · exact absurd ⟨_, _, ‹_›, ‹_›⟩ hpair
        · rfl
      rw [hsame, hmap]
      exact ⟨hs, rfl⟩
  | deleteDependency name dependsOn user env =>
    cases hstep
    by_cases hpair : ∃ p c, ipaRmDepGetIndex name = some (.inl p) ∧
        ipaRmDepGetIndex dependsOn = some (.inr c)
    · obtain ⟨p, c, hp, hc⟩ := hpair
      simp only [ipaRmDeleteDependency, DependencyMap.apply, hp, hc]
      exact dependencyMap_delete hs p c user (env p c)
    · have hsame : (ipaRmDeleteDependency s name dependsOn user env).1 = s := by
        unfold ipaRmDeleteDependency
        split
        · exact absurd ⟨_, _, ‹_›, ‹_›⟩ hpair
        · rfl
      have hmap : s.dependencyMap.apply (.deleteDependency name dependsOn user env) =
          s.dependencyMap := by
        simp only [DependencyMap.apply]
        split
        · exact absurd ⟨_, _, ‹_›, ‹_›⟩ hpair
        · rfl
      rw [hsame, hmap]
      exact ⟨hs, rfl⟩
  | _ => exact hframe rfl rfl

theorem dependencyMap_run (hs : s.Linked) {as : List RmAction} {t : Rm}
    (hrun : Transition.run step s as = some t) :
    t.Linked ∧ t.dependencyMap = as.foldl DependencyMap.apply s.dependencyMap := by
  induction as generalizing s with
  | nil =>
    cases hrun
    exact ⟨hs, rfl⟩
  | cons a as ih =>
    obtain ⟨s', hstep, hrest⟩ := Transition.run_cons_eq_some.mp hrun
    obtain ⟨hs', hmap⟩ := dependencyMap_step hs hstep
    rw [List.foldl_cons, ← hmap]
    exact ih hs' hrest

/-- Whatever the callers and the drivers do: the peers lists are one relation between resources
that are there, and it is what the calls make of it. -/
theorem dependencies_of_run {as : List RmAction} {t : Rm}
    (hrun : Transition.run step {} as = some t) :
    t.consPeer = t.prodPeer ∧ t.dependencyMap = as.foldl DependencyMap.apply {} := by
  have hinit : Linked {} := rfl
  exact dependencyMap_run hinit hrun

theorem dependencies_of_run_deleted :
    ∃ t, Transition.run step {} [.createResource 12 1 7 0, .createResource 1 2 0 0,
        .addDependency 12 1 true fun _ _ => {}, .requestResource 12 fun _ _ => {},
        .deleteResource 1 fun _ _ => {}] = some t ∧
      t.prodPeer .wwan0Prod .q6Cons = none ∧ t.consPeer = t.prodPeer := by
  obtain ⟨t, hrun⟩ := Option.isSome_iff_exists.mp (show (Transition.run step {}
    [.createResource 12 1 7 0, .createResource 1 2 0 0, .addDependency 12 1 true fun _ _ => {},
      .requestResource 12 fun _ _ => {}, .deleteResource 1 fun _ _ => {}]).isSome by decide)
  obtain ⟨hlinked, hmap⟩ := dependencies_of_run hrun
  refine ⟨t, hrun, ?_, hlinked⟩
  have h := congrFun (congrFun (congrArg DependencyMap.deps hmap) .wwan0Prod) .q6Cons
  exact h

end Rm

end X00TDCellular
