import Mathlib.Data.List.Induction
import Mathlib.Data.List.Nodup
import Mathlib.Tactic.Common

/-! Tables of bounded length that are searched by key before an entry is added, where the
search gives the value and an entry may be without one. -/

namespace NullableTable

variable {K V : Type*}

def keys (t : List (K × Option V)) : List K := t.map Prod.fst

/-- A key that comes without a value, and has not come with one before, does not come
again. -/
def ComesOnce (es : List (K × Option V)) : Prop :=
  ∀ pre k post, es = pre ++ (k, none) :: post → (∃ v, (k, some v) ∈ pre) ∨ k ∉ keys post

theorem keys_concat (t : List (K × Option V)) (e : K × Option V) :
    keys (t ++ [e]) = keys t ++ [e.1] :=
  List.map_append

theorem mem_keys {t : List (K × Option V)} {k : K} : k ∈ keys t ↔ ∃ o, (k, o) ∈ t := by
  simp [keys]

theorem comesOnce_concat_iff {es : List (K × Option V)} {k : K} {o : Option V} :
    ComesOnce (es ++ [(k, o)]) ↔
      ComesOnce es ∧ (k ∈ keys es → ∃ v, (k, some v) ∈ es) := by
  constructor
  · intro h
    refine ⟨?_, ?_⟩
    · intro pre q post hes
      have hsplit : es ++ [(k, o)] = pre ++ (q, none) :: (post ++ [(k, o)]) := by
        rw [hes, List.append_assoc, List.cons_append]
      apply (h pre q _ hsplit).imp_right
      intro hlater hmem
      apply hlater
      rw [keys_concat]
      exact List.mem_append_left _ hmem
    · intro hk
      obtain ⟨o', hmem⟩ := mem_keys.mp hk
      cases o' with
      | some v => exact ⟨v, hmem⟩
      -- it has come without a value, so a value must have come before
      | none =>
        obtain ⟨pre, post, hes⟩ := List.append_of_mem hmem
        have hsplit : es ++ [(k, o)] = pre ++ (k, none) :: (post ++ [(k, o)]) := by
          rw [hes, List.append_assoc, List.cons_append]
        rcases h pre k _ hsplit with ⟨v, hv⟩ | hlater
        · refine ⟨v, ?_⟩
          rw [hes]
          exact List.mem_append_left _ hv
        · exfalso
          apply hlater
          rw [keys_concat]
          exact List.mem_append_right _ List.mem_cons_self
  · rintro ⟨h, hk⟩ pre q post hsplit
    rcases List.eq_nil_or_concat post with rfl | ⟨post', e, rfl⟩
    · exact Or.inr List.not_mem_nil
    · rw [List.concat_eq_append] at hsplit ⊢
      rw [← List.cons_append, ← List.append_assoc] at hsplit
      obtain ⟨hes, hlast⟩ := List.append_inj' hsplit rfl
      have he : (k, o) = e := List.singleton_injective hlast
      rcases h pre q post' hes with hpre | hpost
      · exact Or.inl hpre
      · rw [keys_concat, ← he]
        by_cases hqk : q = k
        · -- its value comes before, as it does not come after
          have hmem : q ∈ keys es := mem_keys.mpr ⟨none, by rw [hes]; simp⟩
          rw [hqk] at hmem hpost ⊢
          obtain ⟨v, hv⟩ := hk hmem
          rw [hes, hqk] at hv
          rcases List.mem_append.mp hv with hbefore | hafter
          · exact Or.inl ⟨v, hbefore⟩
          · rcases List.mem_cons.mp hafter with heq | hlater
            · cases congrArg Prod.snd heq
            · exact absurd (mem_keys.mpr ⟨_, hlater⟩) hpost
        · right
          intro hmem
          rcases List.mem_append.mp hmem with hbefore | hnow
          · exact hpost hbefore
          · exact hqk (List.mem_singleton.mp hnow)

/-- What becomes of entries that are added to an empty table which has room for all of
their keys. -/
structure Collected (t es : List (K × Option V)) : Prop where
  subset : ∀ k ∈ keys t, k ∈ keys es
  nodup_iff : (keys t).Nodup ↔ ComesOnce es
  complete : (keys t).Nodup → ∀ k ∈ keys es, k ∈ keys t
  value : (keys t).Nodup → ∀ k, (∃ v, (k, some v) ∈ t) ↔ ∃ v, (k, some v) ∈ es

theorem Collected.not_nodup {t t' es : List (K × Option V)} {e : K × Option V}
    (h : Collected t es) (hnodup : ¬ (keys t).Nodup) (ht : t' = t ∨ t' = t ++ [e]) :
    Collected t' (es ++ [e]) := by
  have hsub : (keys t).Sublist (keys t') := by
    rcases ht with rfl | rfl
    · exact List.Sublist.refl _
    · rw [keys_concat]
      exact List.sublist_append_left _ _
  have hnodup' : ¬ (keys t').Nodup := fun hn => hnodup (hn.sublist hsub)
  refine ⟨?_, ?_, fun hn => absurd hn hnodup', fun hn => absurd hn hnodup'⟩
  · intro q hq
    rw [keys_concat]
    rcases ht with rfl | rfl
    · exact List.mem_append_left _ (h.subset q hq)
    · rw [keys_concat] at hq
      rcases List.mem_append.mp hq with hbefore | hnow
      · exact List.mem_append_left _ (h.subset q hbefore)
      · exact List.mem_append_right _ hnow
  · obtain ⟨k, o⟩ := e
    rw [comesOnce_concat_iff, ← h.nodup_iff]
    exact ⟨fun hn => absurd hn hnodup', fun hn => absurd hn.1 hnodup⟩

variable [DecidableEq K]

/-- The value of the first entry for the key. -/
def lookup (t : List (K × Option V)) (k : K) : Option V :=
  (t.find? fun e => e.1 = k).bind Prod.snd

/-- Nothing is added when a value is found, or when the table is full. -/
def add (cap : ℕ) (t : List (K × Option V)) (e : K × Option V) : List (K × Option V) :=
  if (lookup t e.1).isSome then t else if cap ≤ t.length then t else t ++ [e]

def addAll (cap : ℕ) (t es : List (K × Option V)) : List (K × Option V) := es.foldl (add cap) t

theorem addAll_concat (cap : ℕ) (t es : List (K × Option V)) (e : K × Option V) :
    addAll cap t (es ++ [e]) = add cap (addAll cap t es) e :=
  List.foldl_append

theorem add_cases (cap : ℕ) (t : List (K × Option V)) (e : K × Option V) :
    (((lookup t e.1).isSome = true ∨ cap ≤ t.length) ∧ add cap t e = t) ∨
      (¬ (lookup t e.1).isSome = true ∧ t.length < cap ∧ add cap t e = t ++ [e]) := by
  unfold add
  by_cases hfound : (lookup t e.1).isSome = true
  · exact Or.inl ⟨Or.inl hfound, if_pos hfound⟩
  · rw [if_neg hfound]
    by_cases hfull : cap ≤ t.length
    · exact Or.inl ⟨Or.inr hfull, if_pos hfull⟩
    · exact Or.inr ⟨hfound, Nat.lt_of_not_le hfull, if_neg hfull⟩

/-- Where the keys are distinct, no entry hides another one. -/
theorem lookup_isSome_iff {t : List (K × Option V)} {k : K} (h : (keys t).Nodup) :
    (lookup t k).isSome = true ↔ ∃ v, (k, some v) ∈ t := by
  induction t with
  | nil => simp [lookup]
  | cons e t ih =>
    obtain ⟨hfresh, hrest⟩ := List.nodup_cons.mp h
    by_cases he : e.1 = k
    · have hlookup : lookup (e :: t) k = e.2 := by
        unfold lookup
        rw [List.find?_cons_of_pos (by simpa using he)]
        rfl
      have hnot : ∀ v, (k, some v) ∉ t := by
        intro v hmem
        rw [← he] at hmem
        exact hfresh (mem_keys.mpr ⟨_, hmem⟩)
      obtain ⟨k', o⟩ := e
      have hk : k' = k := he
      rw [hlookup, hk]
      constructor
      · intro hsome
        obtain ⟨v, hv⟩ := Option.isSome_iff_exists.mp hsome
        have hval : o = some v := hv
        exact ⟨v, List.mem_cons.mpr (Or.inl (by rw [hval]))⟩
      · rintro ⟨v, hmem⟩
        rcases List.mem_cons.mp hmem with heq | htail
        · have hval : some v = o := congrArg Prod.snd heq
          rw [← hval]
          rfl
        · exact absurd htail (hnot v)
    · have hlookup : lookup (e :: t) k = lookup t k := by
        unfold lookup
        rw [List.find?_cons_of_neg (by simpa using he)]
      rw [hlookup, ih hrest]
      constructor
      · rintro ⟨v, hmem⟩
        exact ⟨v, List.mem_cons_of_mem e hmem⟩
      · rintro ⟨v, hmem⟩
        rcases List.mem_cons.mp hmem with heq | htail
        · exact absurd (congrArg Prod.fst heq).symm he
        · exact ⟨v, htail⟩

theorem Collected.add_found {t es : List (K × Option V)} {e : K × Option V}
    (h : Collected t es) (hnodup : (keys t).Nodup) (hfound : (lookup t e.1).isSome = true) :
    Collected t (es ++ [e]) := by
  obtain ⟨k, o⟩ := e
  have hvalue : ∃ v, (k, some v) ∈ es :=
    (h.value hnodup k).mp ((lookup_isSome_iff hnodup).mp hfound)
  have hkey : k ∈ keys es := by
    obtain ⟨v, hv⟩ := hvalue
    exact mem_keys.mpr ⟨_, hv⟩
  refine ⟨?_, ?_, ?_, ?_⟩
  · intro q hq
    rw [keys_concat]
    exact List.mem_append_left _ (h.subset q hq)
  · rw [comesOnce_concat_iff, ← h.nodup_iff]
    exact ⟨fun hn => ⟨hn, fun _ => hvalue⟩, fun hn => hn.1⟩
  · intro hn q hq
    rw [keys_concat] at hq
    rcases List.mem_append.mp hq with hbefore | hnow
    · exact h.complete hn q hbefore
    · rw [List.mem_singleton.mp hnow]
      exact h.complete hn k hkey
  · intro hn q
    rw [h.value hn q]
    constructor
    · rintro ⟨v, hv⟩
      exact ⟨v, List.mem_append_left _ hv⟩
    · rintro ⟨v, hv⟩
      rcases List.mem_append.mp hv with hbefore | hnow
      · exact ⟨v, hbefore⟩
      · have hq : q = k := congrArg Prod.fst (List.mem_singleton.mp hnow)
        rw [hq]
        exact hvalue

theorem Collected.add_new {t es : List (K × Option V)} {e : K × Option V}
    (h : Collected t es) (hnodup : (keys t).Nodup) (hmissing : ¬ (lookup t e.1).isSome = true) :
    Collected (t ++ [e]) (es ++ [e]) := by
  obtain ⟨k, o⟩ := e
  have hnone : ¬ ∃ v, (k, some v) ∈ es := by
    rw [← h.value hnodup k, ← lookup_isSome_iff hnodup]
    exact hmissing
  refine ⟨?_, ?_, ?_, ?_⟩
  · intro q hq
    rw [keys_concat] at hq ⊢
    rcases List.mem_append.mp hq with hbefore | hnow
    · exact List.mem_append_left _ (h.subset q hbefore)
    · exact List.mem_append_right _ hnow
  · rw [comesOnce_concat_iff, ← h.nodup_iff, keys_concat, List.nodup_append]
    constructor
    · rintro ⟨hn, _, hdisjoint⟩
      refine ⟨hn, fun hk => ?_⟩
      exact absurd rfl (hdisjoint k (h.complete hn k hk) k List.mem_cons_self)
    · rintro ⟨hn, hfresh⟩
      refine ⟨hn, List.nodup_singleton k, ?_⟩
      intro q hq k' hk' heq
      rw [heq, List.mem_singleton.mp hk'] at hq
      exact hnone (hfresh (h.subset k hq))
  · intro _ q hq
    rw [keys_concat] at hq ⊢
    rcases List.mem_append.mp hq with hbefore | hnow
    · exact List.mem_append_left _ (h.complete hnodup q hbefore)
    · exact List.mem_append_right _ hnow
  · intro _ q
    simp only [List.mem_append, exists_or, h.value hnodup q]

theorem collected_addAll {cap : ℕ} {es : List (K × Option V)}
    (hcap : ∀ ks : List K, ks.Nodup → (∀ k ∈ ks, k ∈ keys es) → ks.length < cap) :
    Collected (addAll cap [] es) es := by
  induction es using List.reverseRecOn with
  | nil =>
    refine ⟨fun k hk => hk, ?_, fun _ k hk => hk, fun _ k => Iff.rfl⟩
    refine iff_of_true List.nodup_nil ?_
    intro pre k post h
    cases pre <;> cases h
  | append_singleton es e ih =>
    have hcap' : ∀ ks : List K, ks.Nodup → (∀ k ∈ ks, k ∈ keys es) → ks.length < cap := by
      intro ks hks hsub
      apply hcap ks hks
      intro k hk
      rw [keys_concat]
      exact List.mem_append_left _ (hsub k hk)
    have h := ih hcap'
    rw [addAll_concat]
    by_cases hnodup : (keys (addAll cap [] es)).Nodup
    · have hroom : (addAll cap [] es).length < cap := by
        have hlen := hcap' _ hnodup h.subset
        rw [keys, List.length_map] at hlen
        exact hlen
      rcases add_cases cap (addAll cap [] es) e with ⟨hfound, hadd⟩ | ⟨hmissing, -, hadd⟩
      · rw [hadd]
        exact h.add_found hnodup (hfound.resolve_right (Nat.not_le.mpr hroom))
      · rw [hadd]
        exact h.add_new hnodup hmissing
    -- a key that is there twice stays there twice
    · apply h.not_nodup hnodup
      rcases add_cases cap (addAll cap [] es) e with ⟨-, hadd⟩ | ⟨-, -, hadd⟩
      · exact Or.inl hadd
      · exact Or.inr hadd

/-- The keys of the table are distinct exactly when no key comes again after it has come
without a value. -/
theorem nodup_addAll_iff {cap : ℕ} {es : List (K × Option V)}
    (hcap : ∀ ks : List K, ks.Nodup → (∀ k ∈ ks, k ∈ keys es) → ks.length < cap) :
    (keys (addAll cap [] es)).Nodup ↔ ComesOnce es :=
  (collected_addAll hcap).nodup_iff

theorem mem_keys_addAll {cap : ℕ} {es : List (K × Option V)} {k : K}
    (h : k ∈ keys (addAll cap [] es)) : k ∈ keys es := by
  induction es using List.reverseRecOn with
  | nil => exact h
  | append_singleton es e ih =>
    rw [addAll_concat] at h
    rw [keys_concat]
    rcases add_cases cap (addAll cap [] es) e with ⟨-, hadd⟩ | ⟨-, -, hadd⟩
    · rw [hadd] at h
      exact List.mem_append_left _ (ih h)
    · rw [hadd, keys_concat] at h
      rcases List.mem_append.mp h with hbefore | hnow
      · exact List.mem_append_left _ (ih hbefore)
      · exact List.mem_append_right _ hnow

theorem addAll_full {cap : ℕ} {t : List (K × Option V)} (es : List (K × Option V))
    (h : cap ≤ t.length) : addAll cap t es = t := by
  induction es with
  | nil => rfl
  | cons e es ih =>
    have hadd : add cap t e = t := by
      unfold add
      rw [if_pos h, ite_self]
    show addAll cap (add cap t e) es = t
    rw [hadd, ih]

theorem length_addAll_le {cap : ℕ} {t : List (K × Option V)} (es : List (K × Option V))
    (h : t.length ≤ cap) : (addAll cap t es).length ≤ cap := by
  induction es generalizing t with
  | nil => exact h
  | cons e es ih =>
    apply ih
    rcases add_cases cap t e with ⟨-, hadd⟩ | ⟨-, hroom, hadd⟩
    · rw [hadd]
      exact h
    · rw [hadd, List.length_append, List.length_singleton]
      omega

end NullableTable
