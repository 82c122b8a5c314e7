import Mathlib.Data.List.Basic
import Mathlib.Tactic.Common

/-! Runs of a deterministic step function with partial actions. An interleaving
of several agents is a list of actions, each naming the agent that steps. -/

namespace Transition

variable {σ α : Type*}

/-- The state after the actions, if each of them can be taken in its turn. -/
def run (step : σ → α → Option σ) (s : σ) : List α → Option σ
  | [] => some s
  | a :: as => (step s a).bind fun s' => run step s' as

/-- Each action of the run that is taken from `s` meets `C` in the state it is
taken in. -/
def Guarded (step : σ → α → Option σ) (C : σ → α → Prop) (s : σ) : List α → Prop
  | [] => True
  | a :: as => C s a ∧ ∀ s', step s a = some s' → Guarded step C s' as

variable {step : σ → α → Option σ}

instance decidableGuarded (C : σ → α → Prop) [∀ s a, Decidable (C s a)] :
    ∀ (s : σ) (as : List α), Decidable (Guarded step C s as)
  | _, [] => isTrue trivial
  | s, a :: as =>
    match h : step s a with
    | none => decidable_of_iff (C s a) (by simp [Guarded, h])
    | some s' =>
      have := decidableGuarded C s' as
      decidable_of_iff (C s a ∧ Guarded step C s' as) (by simp [Guarded, h])

@[simp] theorem run_nil (s : σ) : run step s [] = some s := rfl

theorem run_cons_eq_some {s t : σ} {a : α} {as : List α} :
    run step s (a :: as) = some t ↔ ∃ s', step s a = some s' ∧ run step s' as = some t :=
  Option.bind_eq_some_iff

theorem run_append (s : σ) (as bs : List α) :
    run step s (as ++ bs) = (run step s as).bind fun t => run step t bs := by
  induction as generalizing s with
  | nil => rfl
  | cons a as ih =>
    rw [List.cons_append, run, run, Option.bind_assoc]
    apply Option.bind_congr
    intro s' _
    exact ih s'

/-- What each guarded step preserves holds after a guarded run. -/
theorem Guarded.inv {C : σ → α → Prop} {Inv : σ → Prop}
    (hstep : ∀ s a s', Inv s → C s a → step s a = some s' → Inv s')
    {s t : σ} {as : List α} (hg : Guarded step C s as) (hrun : run step s as = some t)
    (hs : Inv s) : Inv t := by
  induction as generalizing s with
  | nil =>
    cases hrun
    exact hs
  | cons a as ih =>
    obtain ⟨s', hs', hrun'⟩ := run_cons_eq_some.mp hrun
    obtain ⟨ha, hrest⟩ := hg
    exact ih (hrest s' hs') hrun' (hstep s a s' hs ha hs')

theorem Guarded.mono {C C' : σ → α → Prop} (hCC' : ∀ s a, C s a → C' s a) {s : σ}
    {as : List α} (hg : Guarded step C s as) : Guarded step C' s as := by
  induction as generalizing s with
  | nil => exact True.intro
  | cons a as ih => exact ⟨hCC' s a hg.1, fun s' hs' => ih (hg.2 s' hs')⟩

/-- What is known of each action can be added to its guard. -/
theorem Guarded.and_mem {C : σ → α → Prop} {D : α → Prop} {s : σ} {as : List α}
    (hg : Guarded step C s as) (hD : ∀ a ∈ as, D a) :
    Guarded step (fun s a => C s a ∧ D a) s as := by
  induction as generalizing s with
  | nil => exact True.intro
  | cons a as ih =>
    obtain ⟨ha, has⟩ := List.forall_mem_cons.mp hD
    exact ⟨⟨hg.1, ha⟩, fun s' hs' => ih (hg.2 s' hs') has⟩

theorem Guarded.trivial (s : σ) (as : List α) : Guarded step (fun _ _ => True) s as := by
  induction as generalizing s with
  | nil => exact True.intro
  | cons a as ih => exact ⟨True.intro, fun s' _ => ih s'⟩

/-- What every step preserves holds after every run. -/
theorem run_inv {Inv : σ → Prop} (hstep : ∀ s a s', Inv s → step s a = some s' → Inv s')
    {s t : σ} {as : List α} (hrun : run step s as = some t) (hs : Inv s) : Inv t :=
  Guarded.inv (fun s a s' hi _ hs' => hstep s a s' hi hs') (Guarded.trivial s as) hrun hs

/-- Where the guard of a step is just that the step reaches `P`, a run that can be
taken is guarded exactly when `P` holds at each of its points. -/
theorem guarded_iff_always {C : σ → α → Prop} {Inv P : σ → Prop}
    (hstep : ∀ s a s', Inv s → step s a = some s' → Inv s')
    (hiff : ∀ s a s', Inv s → P s → step s a = some s' → (C s a ↔ P s'))
    {s t : σ} {as : List α} (hrun : run step s as = some t) (hs : Inv s) (hP : P s) :
    Guarded step C s as ↔
      ∀ pre post u, as = pre ++ post → run step s pre = some u → P u := by
  induction as generalizing s with
  | nil =>
    constructor
    · intro _ pre post u hsplit hu
      have hpre : pre = [] := (List.append_eq_nil_iff.mp hsplit.symm).1
      rw [hpre] at hu
      cases hu
      exact hP
    · intro _
      exact True.intro
  | cons a as ih =>
    obtain ⟨s', hs', hrun'⟩ := run_cons_eq_some.mp hrun
    constructor
    · rintro ⟨ha, hrest⟩ pre post u hsplit hu
      have hP' : P s' := (hiff s a s' hs hP hs').mp ha
      cases pre with
      | nil =>
        cases hu
        exact hP
      | cons b pre =>
        obtain ⟨rfl, htail⟩ := List.cons_eq_cons.mp hsplit
        obtain ⟨s'', hs'', hu'⟩ := run_cons_eq_some.mp hu
        rw [hs'] at hs''
        cases hs''
        exact (ih hrun' (hstep s a s' hs hs') hP').mp (hrest s' hs') pre post u htail hu'
    · intro hall
      have hP' : P s' := hall [a] as s' rfl (run_cons_eq_some.mpr ⟨s', hs', rfl⟩)
      refine ⟨(hiff s a s' hs hP hs').mpr hP', ?_⟩
      intro s'' hs''
      rw [hs'] at hs''
      cases hs''
      apply (ih hrun' (hstep s a s' hs hs') hP').mpr
      intro pre post u hsplit hu
      exact hall (a :: pre) post u (by rw [hsplit, List.cons_append])
        (run_cons_eq_some.mpr ⟨s', hs', hu⟩)

section Forced

/-- A run in which no other action of `A` could have been taken at any point. -/
inductive Forced (step : σ → α → Option σ) (A : α → Prop) : σ → List α → σ → Prop
  | nil (s : σ) : Forced step A s [] s
  | cons {s s' t : σ} {a : α} {as : List α} (ha : A a) (hs : step s a = some s')
      (honly : ∀ b, A b → step s b ≠ none → b = a) (h : Forced step A s' as t) :
    Forced step A s (a :: as) t

variable {A : α → Prop}

theorem Forced.append {s t u : σ} {as bs : List α} (h : Forced step A s as t)
    (h' : Forced step A t bs u) : Forced step A s (as ++ bs) u := by
  induction h with
  | nil => exact h'
  | cons ha hs honly _ ih => exact .cons ha hs honly (ih h')

/-- A loop, its states numbered by the rounds it has made. -/
theorem Forced.iterate {I : ℕ → σ} {body : List α} (n : ℕ)
    (h : ∀ i < n, Forced step A (I i) body (I (i+1))) :
    Forced step A (I 0) (List.replicate n body).flatten (I n) := by
  induction n with
  | zero => exact .nil _
  | succ n ih =>
    rw [List.replicate_succ', List.flatten_concat]
    have hinit := ih fun i hi => h i (Nat.lt_succ_of_lt hi)
    exact hinit.append (h n (Nat.lt_succ_self n))

theorem Forced.run_eq {s t : σ} {as : List α} (h : Forced step A s as t) :
    run step s as = some t := by
  induction h with
  | nil => rfl
  | cons _ hs _ _ ih => exact run_cons_eq_some.mpr ⟨_, hs, ih⟩

theorem Forced.forall_mem {s t : σ} {as : List α} (h : Forced step A s as t) :
    ∀ a ∈ as, A a := by
  induction h with
  | nil => exact List.forall_mem_nil _
  | cons ha _ _ _ ih => exact List.forall_mem_cons.mpr ⟨ha, ih⟩

/-- Where it leads to a state that has no way on, every other run is a part of it. -/
theorem Forced.isPrefix {s t u : σ} {as bs : List α} (h : Forced step A s as t)
    (hend : ∀ a, A a → step t a = none) (hbs : ∀ b ∈ bs, A b)
    (hrun : run step s bs = some u) : bs <+: as := by
  induction h generalizing bs with
  | nil =>
    cases bs with
    | nil => exact List.nil_prefix
    | cons b bs =>
      obtain ⟨_, hs', _⟩ := run_cons_eq_some.mp hrun
      rw [hend b (hbs b List.mem_cons_self)] at hs'
      cases hs'
  | cons _ hs honly _ ih =>
    cases bs with
    | nil => exact List.nil_prefix
    | cons b bs =>
      obtain ⟨hb, hrest⟩ := List.forall_mem_cons.mp hbs
      obtain ⟨s'', hs', hrun'⟩ := run_cons_eq_some.mp hrun
      have hsame := honly b hb (Option.ne_none_iff_exists'.mpr ⟨_, hs'⟩)
      subst hsame
      obtain rfl := Option.some.inj (hs.symm.trans hs')
      exact List.cons_prefix_cons.mpr ⟨rfl, ih hend hrest hrun'⟩

end Forced

section Agents

/-! A list holds the agents in flight, one entry each. An agent takes a step in
place or leaves the list; the others keep their entries. -/

variable {β : Type*}

theorem mem_set_of_ne {l : List β} {i : ℕ} {a b c : β} (hi : l[i]? = some a) (hc : c ∈ l)
    (hne : c ≠ a) : c ∈ l.set i b := by
  obtain ⟨j, hj⟩ := List.getElem?_of_mem hc
  have hij : i ≠ j := by
    intro h
    rw [h, hj] at hi
    exact hne (Option.some.inj hi)
  apply List.mem_of_getElem? (i := j)
  rw [List.getElem?_set_ne hij, hj]

theorem mem_eraseIdx_of_ne {l : List β} {i : ℕ} {a c : β} (hi : l[i]? = some a) (hc : c ∈ l)
    (hne : c ≠ a) : c ∈ l.eraseIdx i := by
  obtain ⟨j, hj⟩ := List.getElem?_of_mem hc
  refine List.mem_eraseIdx_iff_getElem?.mpr ⟨j, ?_, hj⟩
  intro h
  rw [← h, hj] at hi
  exact hne (Option.some.inj hi)

theorem mem_set_self {l : List β} {i : ℕ} {a b : β} (hi : l[i]? = some a) : b ∈ l.set i b := by
  obtain ⟨hlt, _⟩ := List.getElem?_eq_some_iff.mp hi
  exact List.mem_set hlt b

end Agents

end Transition
