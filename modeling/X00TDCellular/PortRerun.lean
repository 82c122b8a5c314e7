import X00TDCellular.ApplyEdit
import X00TDCellular.Transition

/-! Running a port script a second time. An edit sees that it has been applied by
its `GUARD`, or by `NEW` being there and `OLD` not; the edits that come after it
work on the same text. -/

namespace X00TDCellular

open Occurrences Transition

/-- An edit written as the scripts ask for: something to look for, a `GUARD` where
the new text still shows the old one, and a `GUARD` the new text shows. -/
structure CheckedEdit extends PortEdit where
  old_ne : OLD ≠ []
  guarded : OLD <:+: NEW → GUARD ≠ []
  guard_new : GUARD <:+: NEW

/-- A script in the middle of its run, with the edits it has got through. -/
structure PortSession where
  tree : PortTree
  done : List CheckedEdit

/-- The edits as a script runs them. -/
def script (es : List CheckedEdit) : List PortEdit := es.map CheckedEdit.toPortEdit

/-- If the script gets through, running it again gets through too, skips every edit
and leaves the files as they are. -/
def RerunSafe (srcRoot : String) (files : String → Option (List UInt8))
    (es : List CheckedEdit) : Prop :=
  ∀ t, applyEdits srcRoot (.start files) (script es) = .ok t →
    applyEdits srcRoot (.start t.files) (script es) = .ok ⟨t.files, 0, es.length⟩

section Runs

variable {srcRoot : String} {t t' : PortTree} {e : PortEdit} {es : List PortEdit}

theorem applyEdits_cons :
    applyEdits srcRoot t (e :: es) = .ok t' ↔
      ∃ u, applyEdit srcRoot t e = .ok u ∧ applyEdits srcRoot u es = .ok t' := by
  unfold applyEdits
  rw [List.foldlM_cons]
  cases h : applyEdit srcRoot t e with
  | error f =>
    constructor
    · intro h
      cases h
    · rintro ⟨u, hu, -⟩
      cases hu
  | ok u =>
    constructor
    · intro h'
      exact ⟨u, rfl, h'⟩
    · rintro ⟨_, hu, h'⟩
      cases hu
      exact h'

theorem applied_le_applyEdits (h : applyEdits srcRoot t es = .ok t') :
    t.applied ≤ t'.applied := by
  induction es generalizing t with
  | nil =>
    cases h
    exact le_rfl
  | cons e es ih =>
    obtain ⟨u, hu, hrest⟩ := applyEdits_cons.mp h
    have hle := ih hrest
    obtain ⟨_, -, ⟨-, rfl⟩ | ⟨-, -, -, A, B, -, rfl⟩⟩ := applyEdit_cases hu
    · exact hle
    · exact Nat.le_of_succ_le hle

/-- A run skips everything exactly when the files show every edit as applied. -/
theorem applyEdits_skips_iff :
    applyEdits srcRoot t es = .ok ⟨t.files, t.applied, t.skipped + es.length⟩ ↔
      ∀ e ∈ es, ∃ text, t.files e.file = some text ∧ e.Recognised text := by
  induction es generalizing t with
  | nil =>
    constructor
    · intro _ e he
      cases he
    · intro _
      rfl
  | cons e es ih =>
    have hlen : t.skipped + (e :: es).length = t.skip.skipped + es.length := by
      simp only [List.length_cons, PortTree.skip]
      omega
    rw [applyEdits_cons, List.forall_mem_cons, hlen]
    constructor
    · rintro ⟨u, hu, hrest⟩
      obtain ⟨text, hf, ⟨hrec, rfl⟩ | ⟨-, -, -, A, B, -, rfl⟩⟩ := applyEdit_cases hu
      · exact ⟨⟨text, hf, hrec⟩, (ih (t := t.skip)).mp hrest⟩
      · -- an edit that is applied is counted for good
        have hle := applied_le_applyEdits hrest
        simp only [PortTree.write] at hle
        omega
    · rintro ⟨⟨text, hf, hrec⟩, hrest⟩
      exact ⟨t.skip, applyEdit_recognised hf hrec, (ih (t := t.skip)).mpr hrest⟩

end Runs

namespace PortSession

variable {srcRoot : String}

def step (srcRoot : String) (s : PortSession) (e : CheckedEdit) : Option PortSession :=
  match applyEdit srcRoot s.tree e.toPortEdit with
  | .ok t => some ⟨t, s.done ++ [e]⟩
  | .error _ => none

/-- An edit applied to `A OLD B` does no harm. Without a `GUARD` it leaves no `OLD`,
neither in `NEW` nor across its ends. The edits made before in the same file still show in
`A`, `NEW` and `B` or across an end of `NEW`: the `GUARD`, or the text put in and not the
one looked for. -/
structure Harmless (s : PortSession) (e : CheckedEdit) (A B : List UInt8) : Prop where
  own : e.GUARD = [] → ¬ e.old <:+: e.new ∧ ¬ Straddles e.old A e.new B
  others : ∀ f ∈ s.done, f.file = e.file →
    f.GUARD ≠ [] ∧ InParts f.GUARD A e.new B ∨
      ¬ InParts f.old A e.new B ∧ InParts f.new A e.new B

/-- The edit does no harm if it comes to be applied. -/
def Careful (s : PortSession) (e : CheckedEdit) : Prop :=
  ∀ A B, s.tree.files e.file = some (A ++ e.old ++ B) → ¬ e.GuardIn (A ++ e.old ++ B) →
    s.Harmless e A B

/-- Every edit made so far is recognised. -/
def Settled (s : PortSession) : Prop :=
  ∀ f ∈ s.done, ∃ text, s.tree.files f.file = some text ∧ f.Recognised text

theorem step_eq_some {s s' : PortSession} {e : CheckedEdit} :
    step srcRoot s e = some s' ↔
      applyEdit srcRoot s.tree e.toPortEdit = .ok s'.tree ∧ s'.done = s.done ++ [e] := by
  unfold step
  split
  · rename_i t ht
    rw [ht, Option.some.injEq]
    constructor
    · rintro rfl
      exact ⟨rfl, rfl⟩
    · rintro ⟨ht, hdone⟩
      cases ht
      rw [← hdone]
  · rename_i ht
    rw [ht]
    constructor
    · intro h
      cases h
    · rintro ⟨h, -⟩
      cases h

theorem run_eq_some {s s' : PortSession} {es : List CheckedEdit} :
    run (step srcRoot) s es = some s' ↔
      applyEdits srcRoot s.tree (script es) = .ok s'.tree ∧ s'.done = s.done ++ es := by
  induction es generalizing s with
  | nil =>
    rw [run_nil, Option.some.injEq, List.append_nil]
    constructor
    · rintro rfl
      exact ⟨rfl, rfl⟩
    · intro h
      obtain ⟨t, done⟩ := s'
      obtain ⟨ht, rfl⟩ := h
      cases ht
      rfl
  | cons e es ih =>
    rw [run_cons_eq_some, script, List.map_cons, applyEdits_cons]
    constructor
    · rintro ⟨u, hu, hrest⟩
      obtain ⟨hu, hdone⟩ := step_eq_some.mp hu
      obtain ⟨hrest, hdone'⟩ := ih.mp hrest
      refine ⟨⟨u.tree, hu, hrest⟩, ?_⟩
      rw [hdone', hdone, List.append_assoc, List.singleton_append]
    · rintro ⟨⟨t, ht, hrest⟩, hdone⟩
      refine ⟨⟨t, s.done ++ [e]⟩, step_eq_some.mpr ⟨ht, rfl⟩, ih.mpr ⟨hrest, ?_⟩⟩
      rw [hdone, List.append_assoc, List.singleton_append]

/-- An edit made before is recognised in the new text by what its parts show. -/
theorem recognised_parts_iff {f : PortEdit} {A new B : List UInt8} :
    f.Recognised (A ++ new ++ B) ↔
      f.GUARD ≠ [] ∧ InParts f.GUARD A new B ∨
        ¬ InParts f.old A new B ∧ InParts f.new A new B := by
  rw [inParts_iff, inParts_iff, inParts_iff]
  rfl

/-- In the text an edit puts in, it recognises itself by its `GUARD`, or by `OLD`
being gone from it. -/
theorem recognised_replaced_iff {e : CheckedEdit} {A B : List UInt8} (hold : e.old ≠ [])
    (h : count e.old (A ++ e.old ++ B) = 1) :
    e.Recognised (A ++ e.new ++ B) ↔
      (e.GUARD = [] → ¬ e.old <:+: e.new ∧ ¬ Straddles e.old A e.new B) := by
  have hnew : e.new <:+: A ++ e.new ++ B := List.infix_append A e.new B
  rw [← not_or, ← infix_replaced_iff hold h]
  constructor
  · rintro (⟨hne, -⟩ | ⟨hgone, -⟩) hnone
    · exact absurd hnone hne
    · exact hgone
  · intro hown
    by_cases hnone : e.GUARD = []
    · exact Or.inr ⟨hown hnone, hnew⟩
    · have hguard : e.GUARD <:+: e.new := infix_stripNewline e.guard_line e.guard_new
      exact Or.inl ⟨hnone, hguard.trans hnew⟩

theorem harmless_iff_recognised {s : PortSession} {e : CheckedEdit} {A B : List UInt8}
    (hold : e.old ≠ []) (h : count e.old (A ++ e.old ++ B) = 1) :
    s.Harmless e A B ↔ e.Recognised (A ++ e.new ++ B) ∧
      ∀ f ∈ s.done, f.file = e.file → f.Recognised (A ++ e.new ++ B) := by
  constructor
  · rintro ⟨hown, hothers⟩
    refine ⟨(recognised_replaced_iff hold h).mpr hown, ?_⟩
    exact fun f hf hfile => recognised_parts_iff.mpr (hothers f hf hfile)
  · rintro ⟨hown, hothers⟩
    refine ⟨(recognised_replaced_iff hold h).mp hown, ?_⟩
    exact fun f hf hfile => recognised_parts_iff.mp (hothers f hf hfile)

/-- The one place at which an edit is applied decides. -/
theorem careful_iff_harmless {s : PortSession} {e : CheckedEdit} {A B : List UInt8}
    (hf : s.tree.files e.file = some (A ++ e.old ++ B))
    (hone : count e.old (A ++ e.old ++ B) = 1) (hguard : ¬ e.GuardIn (A ++ e.old ++ B)) :
    s.Careful e ↔ s.Harmless e A B := by
  constructor
  · exact fun hc => hc A B hf hguard
  · intro hharmless A' B' hAB _
    rw [hf, Option.some.injEq] at hAB
    obtain ⟨rfl, rfl⟩ := split_unique hone hAB
    exact hharmless

/-- One edit after the others: everything is recognised afterwards if and only if the
edit did no harm where it was applied. -/
theorem settled_step {s s' : PortSession} {e : CheckedEdit} (hs : s.Settled)
    (hstep : step srcRoot s e = some s') : s.Careful e ↔ s'.Settled := by
  obtain ⟨happly, hdone⟩ := step_eq_some.mp hstep
  unfold Settled
  rw [hdone, List.forall_mem_append, List.forall_mem_singleton]
  obtain ⟨text, hf, ⟨hrec, htree⟩ | ⟨hguard, hold, hone, A, B, rfl, htree⟩⟩ :=
    applyEdit_cases happly
  · rw [htree]
    constructor
    · intro _
      exact ⟨hs, text, hf, hrec⟩
    · -- a skipped edit is not applied
      intro _ A B hAB hguard
      rw [hf, Option.some.injEq] at hAB
      rw [hAB] at hrec
      rcases hrec with hrec | ⟨hgone, -⟩
      · exact absurd hrec hguard
      · exact absurd (List.infix_append A e.old B) hgone
  · have hnow : s'.tree.files e.file = some (A ++ e.new ++ B) := by
      rw [htree]
      exact Function.update_self e.file _ s.tree.files
    have helse : ∀ f : CheckedEdit, f.file ≠ e.file →
        s'.tree.files f.file = s.tree.files f.file := by
      intro f hne
      rw [htree]
      exact Function.update_of_ne hne _ s.tree.files
    rw [careful_iff_harmless hf hone hguard, harmless_iff_recognised hold hone]
    -- what its file holds now decides for the edits made before in it
    constructor
    · rintro ⟨hown, hothers⟩
      refine ⟨?_, _, hnow, hown⟩
      intro f hmem
      by_cases hfile : f.file = e.file
      · exact ⟨_, hfile ▸ hnow, hothers f hmem hfile⟩
      · rw [helse f hfile]
        exact hs f hmem
    · rintro ⟨hdone, text, htext, hrec⟩
      rw [hnow, Option.some.injEq] at htext
      subst htext
      refine ⟨hrec, ?_⟩
      intro f hmem hfile
      obtain ⟨text, htext, hrec⟩ := hdone f hmem
      rw [hfile, hnow, Option.some.injEq] at htext
      exact htext ▸ hrec

theorem rerunSafe_iff_settled {files : String → Option (List UInt8)} {es : List CheckedEdit} :
    RerunSafe srcRoot files es ↔
      ∀ s, run (step srcRoot) ⟨.start files, []⟩ es = some s → s.Settled := by
  have hsecond : ∀ t : PortTree, applyEdits srcRoot (.start t.files) (script es) =
      .ok ⟨t.files, 0, es.length⟩ ↔ Settled ⟨t, es⟩ := by
    intro t
    have hlen : es.length = 0 + (script es).length := by
      rw [script, List.length_map, Nat.zero_add]
    rw [hlen]
    apply (applyEdits_skips_iff (t := .start t.files)).trans
    rw [script, List.forall_mem_map]
    rfl
  constructor
  · rintro h ⟨t, done⟩ hs
    obtain ⟨ht, rfl⟩ := run_eq_some.mp hs
    exact (hsecond t).mp (h t ht)
  · intro h t ht
    exact (hsecond t).mpr (h ⟨t, es⟩ (run_eq_some.mpr ⟨ht, rfl⟩))

end PortSession

open PortSession in
/-- Every initial part of a script that gets through is safe to run again if and only
if each of its edits does no harm where it is applied. -/
theorem rerunSafe_iff_careful {srcRoot : String} {files : String → Option (List UInt8)}
    {es : List CheckedEdit} {t : PortTree}
    (hrun : applyEdits srcRoot (.start files) (script es) = .ok t) :
    Guarded (step srcRoot) Careful ⟨.start files, []⟩ es ↔
      ∀ pre post, es = pre ++ post → RerunSafe srcRoot files pre := by
  have hrun' : run (step srcRoot) ⟨.start files, []⟩ es = some ⟨t, es⟩ :=
    run_eq_some.mpr ⟨hrun, rfl⟩
  have hstart : Settled ⟨.start files, []⟩ := by
    intro f hf
    cases hf
  have hkeep : ∀ (s : PortSession) (e : CheckedEdit) (s' : PortSession), True →
      step srcRoot s e = some s' → True := fun _ _ _ _ _ => trivial
  have halways := guarded_iff_always hkeep (fun _ _ _ _ hs h => settled_step hs h) hrun'
    trivial hstart
  rw [halways]
  constructor
  · intro h pre post hsplit
    exact rerunSafe_iff_settled.mpr fun s hs => h pre post s hsplit hs
  · intro h pre post s hsplit hs
    exact rerunSafe_iff_settled.mp (h pre post hsplit) s hs

/-- A line put in after another one, with the new line as its `GUARD`. -/
def includeEdit : CheckedEdit where
  file := "f"
  desc := "b after a"
  OLD := [97, 10]
  NEW := [97, 10, 98, 10]
  GUARD := [98]
  guard_line := by decide
  old_ne := by decide
  guarded := by decide
  guard_new := by decide

/-- A word for another one. -/
def replaceEdit : CheckedEdit where
  file := "f"
  desc := "c to d"
  OLD := [99]
  NEW := [100]
  GUARD := []
  guard_line := by decide
  old_ne := by decide
  guarded := by decide
  guard_new := by decide

/-- A line after the one that the last edit has changed. -/
def appendEdit : CheckedEdit where
  file := "f"
  desc := "e after d"
  OLD := [100, 10]
  NEW := [100, 10, 101, 10]
  GUARD := [101]
  guard_line := by decide
  old_ne := by decide
  guarded := by decide
  guard_new := by decide

/-- A tree with one file. -/
def oneFile (text : List UInt8) : String → Option (List UInt8) :=
  fun f => if f = "f" then some text else none

open PortSession in
theorem rerunSafe_threeEdits :
    (∃ t, applyEdits "." (.start (oneFile [97, 10, 99, 10]))
        (script [includeEdit, replaceEdit, appendEdit]) = .ok t ∧
      t.files "f" = some [97, 10, 98, 10, 100, 10, 101, 10] ∧ t.applied = 3) ∧
    RerunSafe "." (oneFile [97, 10, 99, 10]) [includeEdit, replaceEdit, appendEdit] := by
  let t₁ := (PortTree.start (oneFile [97, 10, 99, 10])).write "f" [97, 10, 98, 10, 99, 10]
  let t₂ := t₁.write "f" [97, 10, 98, 10, 100, 10]
  let t₃ := t₂.write "f" [97, 10, 98, 10, 100, 10, 101, 10]
  have hrun : applyEdits "." (.start (oneFile [97, 10, 99, 10]))
      (script [includeEdit, replaceEdit, appendEdit]) = .ok t₃ := rfl
  have hcareful {s : PortSession} {e : CheckedEdit} (A B : List UInt8)
      (hf : s.tree.files e.file = some (A ++ e.old ++ B)) (hold : e.old ≠ [])
      (hone : count e.old (A ++ e.old ++ B) = 1) (hguard : ¬ e.GuardIn (A ++ e.old ++ B))
      (hown : e.Recognised (A ++ e.new ++ B))
      (hothers : ∀ f ∈ s.done, f.Recognised (A ++ e.new ++ B)) : s.Careful e :=
    (careful_iff_harmless hf hone hguard).mpr
      ((harmless_iff_recognised hold hone).mpr ⟨hown, fun f hf _ => hothers f hf⟩)
  refine ⟨⟨_, hrun, rfl, rfl⟩, ?_⟩
  apply (rerunSafe_iff_careful hrun).mp _ _ [] rfl
  refine ⟨hcareful [] [10, 99, 10] rfl (by decide) (by decide) (by decide) (by decide)
    (by decide), ?_⟩
  rintro _ ⟨⟩
  refine ⟨hcareful [97, 10, 98, 10] [10] rfl (by decide) (by decide) (by decide) (by decide)
    (by decide), ?_⟩
  rintro _ ⟨⟩
  exact ⟨hcareful [97, 10, 98, 10] [10] rfl (by decide) (by decide) (by decide) (by decide)
    (by decide), fun _ _ => trivial⟩

/-- An `OLD` whose first half is put in before its second half. -/
def shortenEdit : CheckedEdit where
  file := "f"
  desc := "ab to a"
  OLD := [97, 98]
  NEW := [97]
  GUARD := []
  guard_line := by decide
  old_ne := by decide
  guarded := by decide
  guard_new := by decide

theorem not_rerunSafe_shortenEdit :
    (∃ t, applyEdits "." (.start (oneFile [97, 98, 98])) (script [shortenEdit]) = .ok t) ∧
    ¬ RerunSafe "." (oneFile [97, 98, 98]) [shortenEdit] := by
  have hrun : applyEdits "." (.start (oneFile [97, 98, 98])) (script [shortenEdit]) =
      .ok ((PortTree.start (oneFile [97, 98, 98])).write "f" [97, 98]) := rfl
  refine ⟨⟨_, hrun⟩, ?_⟩
  intro hsafe
  have hskip := hsafe _ hrun
  have hagain : applyEdits "." (.start (Function.update (oneFile [97, 98, 98]) "f"
      (some [97, 98]))) (script [shortenEdit]) =
      .ok ((PortTree.start (Function.update (oneFile [97, 98, 98]) "f"
        (some [97, 98]))).write "f" [97]) := rfl
  have hcounts := hagain.symm.trans hskip
  injection hcounts with h
  exact absurd (congrArg PortTree.applied h) (by decide)

end X00TDCellular
