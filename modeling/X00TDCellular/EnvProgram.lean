import Mathlib.Data.List.Basic
import Mathlib.Data.List.Induction
import Mathlib.Tactic.Common

/-! Programs whose effects are calls of an environment that may answer anything. A monitor
keeps account of the calls and says which of them the program may make and which answers
it may count on; `wp` are the rules by which a program is seen to comply, over all of its
runs, finished or not. -/

namespace EnvProgram

/-- A program is its result, or a call and what follows each answer. -/
inductive Prog (C : Type) (A : C → Type) (α : Type)
  | ret (a : α)
  | call (c : C) (next : A c → Prog C A α)

/-- A call and its answer. -/
structure Event (C : Type) (A : C → Type) where
  call : C
  answer : A call

variable {C : Type} {A : C → Type} {α β σ : Type}

namespace Prog

def bind : Prog C A α → (α → Prog C A β) → Prog C A β
  | ret a, f => f a
  | call c next, f => call c fun r => (next r).bind f

instance : Monad (Prog C A) where
  pure := ret
  bind := bind

def ask (c : C) : Prog C A (A c) := call c ret

/-- A run up to some point: the calls and answers so far, and what is left to do. -/
inductive Runs : Prog C A α → List (Event C A) → Prog C A α → Prop
  | stop (p : Prog C A α) : Runs p [] p
  | step {c : C} {next : A c → Prog C A α} {r : A c} {tr : List (Event C A)}
      {p : Prog C A α} (h : Runs (next r) tr p) : Runs (call c next) (⟨c, r⟩ :: tr) p

/-- A run to the end. -/
def Ends (p : Prog C A α) (tr : List (Event C A)) (a : α) : Prop := Runs p tr (ret a)

theorem Runs.append {p p' p'' : Prog C A α} {tr₁ tr₂ : List (Event C A)}
    (h : Runs p tr₁ p') (h' : Runs p' tr₂ p'') : Runs p (tr₁ ++ tr₂) p'' := by
  induction h with
  | stop => exact h'
  | step _ ih => exact .step (ih h')

/-- The runs to the end, by the shape of the program. -/
theorem ends_ret {a b : α} {tr : List (Event C A)} :
    (ret a : Prog C A α).Ends tr b ↔ tr = [] ∧ b = a := by
  constructor
  · intro h
    cases h
    exact ⟨rfl, rfl⟩
  · rintro ⟨rfl, rfl⟩
    exact .stop _

theorem ends_call {c : C} {next : A c → Prog C A α} {tr : List (Event C A)} {b : α} :
    (call c next).Ends tr b ↔ ∃ r tr', tr = ⟨c, r⟩ :: tr' ∧ (next r).Ends tr' b := by
  constructor
  · intro h
    cases h with
    | step h => exact ⟨_, _, rfl, h⟩
  · rintro ⟨r, tr', rfl, h⟩
    exact .step h

theorem ends_ask_bind {c : C} {f : A c → Prog C A β} {tr : List (Event C A)} {b : β} :
    (ask c >>= f).Ends tr b ↔ ∃ r tr', tr = ⟨c, r⟩ :: tr' ∧ (f r).Ends tr' b :=
  ends_call

theorem ends_bind {p : Prog C A α} {f : α → Prog C A β} {tr : List (Event C A)} {b : β} :
    (p >>= f).Ends tr b ↔ ∃ a tr₁ tr₂, tr = tr₁ ++ tr₂ ∧ p.Ends tr₁ a ∧ (f a).Ends tr₂ b := by
  induction p generalizing tr with
  | ret a =>
    constructor
    · intro h
      exact ⟨a, [], tr, rfl, .stop _, h⟩
    · rintro ⟨a', tr₁, tr₂, rfl, hp, hf⟩
      obtain ⟨rfl, rfl⟩ := ends_ret.mp hp
      exact hf
  | call c next ih =>
    constructor
    · intro h
      obtain ⟨r, tr', rfl, hnext⟩ := ends_call.mp h
      obtain ⟨a, tr₁, tr₂, rfl, hp, hf⟩ := (ih r).mp hnext
      exact ⟨a, ⟨c, r⟩ :: tr₁, tr₂, rfl, .step hp, hf⟩
    · rintro ⟨a, tr₁, tr₂, rfl, hp, hf⟩
      obtain ⟨r, tr', rfl, hnext⟩ := ends_call.mp hp
      exact .step ((ih r).mpr ⟨a, tr', tr₂, rfl, hnext, hf⟩)

theorem bind_bind {γ : Type} (p : Prog C A α) (f : α → Prog C A β) (g : β → Prog C A γ) :
    (p >>= f) >>= g = p >>= fun a => f a >>= g := by
  induction p with
  | ret a => rfl
  | call c next ih => exact congrArg (call c) (funext ih)

/-- The calls in an environment that answers each of them in one way. -/
def events (env : ∀ c, A c) : Prog C A α → List (Event C A)
  | ret _ => []
  | call c next => ⟨c, env c⟩ :: (next (env c)).events env

/-- The result in such an environment. -/
def outcome (env : ∀ c, A c) : Prog C A α → α
  | ret a => a
  | call c next => (next (env c)).outcome env

theorem outcome_pure (env : ∀ c, A c) (a : α) : (pure a : Prog C A α).outcome env = a := rfl

theorem outcome_ask (env : ∀ c, A c) (c : C) : (ask c).outcome env = env c := rfl

theorem outcome_bind (env : ∀ c, A c) (p : Prog C A α) (f : α → Prog C A β) :
    (p >>= f).outcome env = (f (p.outcome env)).outcome env := by
  induction p with
  | ret a => rfl
  | call c next ih => exact ih (env c)

theorem ends_events (env : ∀ c, A c) (p : Prog C A α) :
    p.Ends (p.events env) (p.outcome env) := by
  induction p with
  | ret a => exact .stop _
  | call c next ih => exact .step (ih (env c))

/-- The calls in an environment that changes with the number of calls made. -/
def eventsFrom (env : ℕ → ∀ c, A c) (n : ℕ) : Prog C A α → List (Event C A)
  | ret _ => []
  | call c next => ⟨c, env n c⟩ :: (next (env n c)).eventsFrom env (n+1)

def outcomeFrom (env : ℕ → ∀ c, A c) (n : ℕ) : Prog C A α → α
  | ret a => a
  | call c next => (next (env n c)).outcomeFrom env (n+1)

theorem ends_eventsFrom (env : ℕ → ∀ c, A c) (n : ℕ) (p : Prog C A α) :
    p.Ends (p.eventsFrom env n) (p.outcomeFrom env n) := by
  induction p generalizing n with
  | ret a => exact .stop _
  | call c next ih => exact .step (ih (env n c) (n+1))

end Prog

/-- An account of the calls: its state after each of them, which calls the program may
make, and which answers the environment gives. -/
structure Monitor (C : Type) (A : C → Type) (σ : Type) where
  next : σ → Event C A → σ
  may : σ → C → Prop
  allows : σ → Event C A → Prop

namespace Monitor
open Prog

variable {M : Monitor C A σ}

def after (M : Monitor C A σ) (s : σ) (tr : List (Event C A)) : σ := tr.foldl M.next s

/-- The environment has kept to its part. -/
def Allowed (M : Monitor C A σ) (s : σ) : List (Event C A) → Prop
  | [] => True
  | e :: tr => M.allows s e ∧ M.Allowed (M.next s e) tr

instance decidableAllowed [∀ s e, Decidable (M.allows s e)] (s : σ) :
    (tr : List (Event C A)) → Decidable (M.Allowed s tr)
  | [] => inferInstanceAs (Decidable True)
  | e :: tr =>
    have := decidableAllowed (M.next s e) tr
    inferInstanceAs (Decidable (M.allows s e ∧ M.Allowed (M.next s e) tr))

/-- The program has kept to its part. -/
def Obeyed (M : Monitor C A σ) (s : σ) : List (Event C A) → Prop
  | [] => True
  | e :: tr => M.may s e.call ∧ M.Obeyed (M.next s e) tr

/-- From `s` on the program keeps to its part, and where it ends, `Q` holds of the result
and the account. -/
def wp (M : Monitor C A σ) : Prog C A α → (α → σ → Prop) → σ → Prop
  | .ret a, Q, s => Q a s
  | .call c next, Q, s => M.may s c ∧ ∀ r, M.allows s ⟨c, r⟩ → M.wp (next r) Q (M.next s ⟨c, r⟩)

theorem wp_bind {p : Prog C A α} {f : α → Prog C A β} {Q : β → σ → Prop} {s : σ} :
    M.wp (p >>= f) Q s ↔ M.wp p (fun a => M.wp (f a) Q) s := by
  induction p generalizing s with
  | ret a => exact Iff.rfl
  | call c next ih =>
    constructor
    · rintro ⟨hmay, hnext⟩
      exact ⟨hmay, fun r hr => (ih r).mp (hnext r hr)⟩
    · rintro ⟨hmay, hnext⟩
      exact ⟨hmay, fun r hr => (ih r).mpr (hnext r hr)⟩

theorem wp_mono {p : Prog C A α} {Q Q' : α → σ → Prop} {s : σ} (h : M.wp p Q s)
    (hQ : ∀ a s', Q a s' → Q' a s') : M.wp p Q' s := by
  induction p generalizing s with
  | ret a => exact hQ a s h
  | call c next ih => exact ⟨h.1, fun r hr => ih r (h.2 r hr)⟩

/-- A call and what follows it. -/
theorem wp_ask_bind {c : C} {f : A c → Prog C A β} {Q : β → σ → Prop} {s : σ}
    (hmay : M.may s c) (hnext : ∀ r, M.allows s ⟨c, r⟩ → M.wp (f r) Q (M.next s ⟨c, r⟩)) :
    M.wp (ask c >>= f) Q s :=
  wp_bind.mpr ⟨hmay, hnext⟩

/-- The rules are sound for all runs: the calls so far have been in order, and so will be
the others. -/
theorem wp_runs {p p' : Prog C A α} {tr : List (Event C A)} (hrun : Runs p tr p')
    {Q : α → σ → Prop} {s : σ} (h : M.wp p Q s) (hallowed : M.Allowed s tr) :
    M.Obeyed s tr ∧ M.wp p' Q (M.after s tr) := by
  induction hrun generalizing s with
  | stop => exact ⟨trivial, h⟩
  | step _ ih =>
    obtain ⟨hnow, hlater⟩ := hallowed
    obtain ⟨hobeyed, hrest⟩ := ih (h.2 _ hnow) hlater
    exact ⟨⟨h.1, hobeyed⟩, hrest⟩

theorem wp_ends {p : Prog C A α} {tr : List (Event C A)} {a : α} (hend : p.Ends tr a)
    {Q : α → σ → Prop} {s : σ} (h : M.wp p Q s) (hallowed : M.Allowed s tr) :
    M.Obeyed s tr ∧ Q a (M.after s tr) :=
  wp_runs hend h hallowed

theorem obeyed_append {s : σ} {tr₁ tr₂ : List (Event C A)} :
    M.Obeyed s (tr₁ ++ tr₂) ↔ M.Obeyed s tr₁ ∧ M.Obeyed (M.after s tr₁) tr₂ := by
  induction tr₁ generalizing s with
  | nil => exact ⟨fun h => ⟨trivial, h⟩, fun h => h.2⟩
  | cons e tr₁ ih =>
    rw [List.cons_append, Obeyed, Obeyed, ih, and_assoc]
    rfl

theorem after_append (M : Monitor C A σ) (s : σ) (tr₁ tr₂ : List (Event C A)) :
    M.after s (tr₁ ++ tr₂) = M.after (M.after s tr₁) tr₂ :=
  List.foldl_append

/-- Where the account is as in `I`, the call is in order and leaves it as it is. -/
def Silent (M : Monitor C A σ) (I : σ → Prop) (c : C) : Prop :=
  ∀ s, I s → M.may s c ∧ ∀ r, M.next s ⟨c, r⟩ = s

theorem Silent.wp_ask_bind {I : σ → Prop} {c : C} (hc : M.Silent I c) {s : σ} (hs : I s)
    {f : A c → Prog C A β} {Q : β → σ → Prop} (h : ∀ r, M.wp (f r) Q s) :
    M.wp (ask c >>= f) Q s := by
  obtain ⟨hmay, hnext⟩ := hc s hs
  apply Monitor.wp_ask_bind hmay
  intro r _
  rw [hnext r]
  exact h r

/-- Both parts of the account, read off at any call of a run. -/
theorem allowed_iff {s : σ} {tr : List (Event C A)} :
    M.Allowed s tr ↔ ∀ pre e post, tr = pre ++ e :: post → M.allows (M.after s pre) e := by
  induction tr generalizing s with
  | nil =>
    constructor
    · intro _ pre e post h
      cases pre <;> cases h
    · exact fun _ => trivial
  | cons e tr ih =>
    constructor
    · rintro ⟨hnow, hlater⟩ pre e' post h
      cases pre with
      | nil =>
        cases h
        exact hnow
      | cons e₀ pre =>
        cases h
        exact ih.mp hlater pre e' post rfl
    · intro h
      refine ⟨h [] e tr rfl, ih.mpr ?_⟩
      intro pre e' post htr
      exact h (e :: pre) e' post (by rw [htr, List.cons_append])

/-- What each call in its turn keeps holds of the calls of a run. -/
theorem Obeyed.induction {s : σ} {P : List (Event C A) → Prop} (hnil : P [])
    (hconcat : ∀ tr e, M.Obeyed s tr → M.may (M.after s tr) e.call → P tr → P (tr ++ [e]))
    {tr : List (Event C A)} (h : M.Obeyed s tr) : P tr := by
  induction tr using List.reverseRecOn with
  | nil => exact hnil
  | append_singleton tr e ih =>
    obtain ⟨hbefore, hmay, _⟩ := obeyed_append.mp h
    exact hconcat tr e hbefore hmay (ih hbefore)

theorem after_concat (M : Monitor C A σ) (s : σ) (tr : List (Event C A)) (e : Event C A) :
    M.after s (tr ++ [e]) = M.next (M.after s tr) e :=
  M.after_append s tr [e]

theorem Obeyed.may {s : σ} {pre post : List (Event C A)} {e : Event C A}
    (h : M.Obeyed s (pre ++ e :: post)) : M.may (M.after s pre) e.call :=
  (obeyed_append.mp h).2.1

end Monitor

open Prog in
/-- Whatever the answers, the program makes calls of a kind only, and its result is one of
`R`. -/
def Only (D : C → Prop) (R : α → Prop) : Prog C A α → Prop
  | .ret a => R a
  | .call c next => D c ∧ ∀ r, Only D R (next r)

section Only
open Prog

variable {D D' : C → Prop} {R : α → Prop} {M : Monitor C A σ}

theorem only_bind {p : Prog C A α} {f : α → Prog C A β} {R' : β → Prop} (hp : Only D R p)
    (hf : ∀ a, R a → Only D R' (f a)) : Only D R' (p >>= f) := by
  induction p with
  | ret a => exact hf a hp
  | call c next ih => exact ⟨hp.1, fun r => ih r (hp.2 r)⟩

theorem only_ask_bind {c : C} {f : A c → Prog C A β} {R' : β → Prop} (hc : D c)
    (hf : ∀ r, Only D R' (f r)) : Only D R' (ask c >>= f) :=
  ⟨hc, hf⟩

theorem Only.mono {p : Prog C A α} (h : Only D R p) (hD : ∀ c, D c → D' c) : Only D' R p := by
  induction p with
  | ret a => exact h
  | call c next ih => exact ⟨hD c h.1, fun r => ih r (h.2 r)⟩

theorem Only.imp {R' : α → Prop} {p : Prog C A α} (h : Only D R p) (hR : ∀ a, R a → R' a) :
    Only D R' p := by
  induction p with
  | ret a => exact hR a h
  | call c next ih => exact ⟨h.1, fun r => ih r (h.2 r)⟩

theorem Only.runs {p p' : Prog C A α} {tr : List (Event C A)} (h : Only D R p)
    (hrun : Runs p tr p') : (∀ e ∈ tr, D e.call) ∧ Only D R p' := by
  induction hrun with
  | stop => exact ⟨by simp, h⟩
  | step _ ih =>
    obtain ⟨hcalls, hrest⟩ := ih (h.2 _)
    exact ⟨List.forall_mem_cons.mpr ⟨h.1, hcalls⟩, hrest⟩

/-- A program that makes silent calls only need not be followed. -/
theorem Only.wp {I : σ → Prop} {p : Prog C A α} (h : Only (M.Silent I) R p) {s : σ}
    (hs : I s) {Q : α → σ → Prop} (hQ : ∀ a, R a → Q a s) : M.wp p Q s := by
  induction p with
  | ret a => exact hQ a h
  | call c next ih =>
    obtain ⟨hmay, hnext⟩ := h.1 s hs
    refine ⟨hmay, fun r _ => ?_⟩
    rw [hnext r]
    exact ih r (h.2 r)

/-- What is known of the results for any answers can be added to what is known of the
account. -/
theorem Only.and_wp {p : Prog C A α} (h : Only D R p) {Q : α → σ → Prop} {s : σ}
    (hp : M.wp p Q s) : M.wp p (fun a s' => R a ∧ Q a s') s := by
  induction p generalizing s with
  | ret a => exact ⟨h, hp⟩
  | call c next ih => exact ⟨hp.1, fun r hr => ih r (h.2 r) (hp.2 r hr)⟩

end Only

end EnvProgram
