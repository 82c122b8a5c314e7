import Mathlib.Data.List.Nodup
import Mathlib.Tactic.Common

/-! Loops that visit each key once and change the entry of that key only. -/

namespace PointwiseFold

variable {σ κ ν : Type*}

theorem proj_foldl (proj : σ → ν) {f : σ → κ → σ} (h : ∀ s k, proj (f s k) = proj s) (s : σ)
    (ks : List κ) : proj (ks.foldl f s) = proj s := by
  induction ks generalizing s with
  | nil => rfl
  | cons k ks ih => rw [List.foldl_cons, ih, h]

/-- The entries after the loop, when a step takes the entry of its key through `g`. -/
theorem get_foldl [DecidableEq κ] (get : σ → κ → ν) (f : σ → κ → σ) (g : κ → ν → ν)
    (hself : ∀ s k, get (f s k) k = g k (get s k))
    (hother : ∀ s k k', k' ≠ k → get (f s k) k' = get s k') (s : σ) {ks : List κ}
    (hks : ks.Nodup) (k : κ) :
    get (ks.foldl f s) k = if k ∈ ks then g k (get s k) else get s k := by
  induction ks generalizing s with
  | nil => rfl
  | cons k₀ ks ih =>
    obtain ⟨hk₀, hks⟩ := List.nodup_cons.mp hks
    rw [List.foldl_cons, ih (f s k₀) hks]
    by_cases hk : k = k₀
    · subst hk
      rw [if_neg hk₀, if_pos List.mem_cons_self, hself]
    · rw [hother s k₀ k hk]
      simp only [List.mem_cons, hk, false_or]

/-- What each step keeps, for as long as its key is still ahead, holds after the loop. -/
theorem foldl_inv (f : σ → κ → σ) (Inv : σ → List κ → Prop)
    (hstep : ∀ s k ks, Inv s (k :: ks) → Inv (f s k) ks) (s : σ) (ks : List κ)
    (h : Inv s ks) : Inv (ks.foldl f s) [] := by
  induction ks generalizing s with
  | nil => exact h
  | cons k ks ih => exact ih (f s k) (hstep s k ks h)

end PointwiseFold
