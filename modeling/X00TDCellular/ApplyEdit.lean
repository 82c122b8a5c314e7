import Mathlib.Logic.Function.Basic
import X00TDCellular.Occurrences

/-! The edit engine of the port scripts: `apply_edit` puts one text in place of
another in a file of the kernel tree, or finds that this has been done before. -/

namespace X00TDCellular

open Occurrences

/-- The variables `apply_edit` reads when the script calls it. An empty `GUARD` is
an unset one; a nonempty one is a single line, since `grep -F` looks for the lines
of its pattern one by one. -/
structure PortEdit where
  file : String
  desc : String
  OLD : List UInt8
  NEW : List UInt8
  GUARD : List UInt8
  guard_line : 10 ∉ GUARD

/-- The files under `$SRC_ROOT` by their paths, and the counts a script reports. -/
structure PortTree where
  files : String → Option (List UInt8)
  applied : ℕ
  skipped : ℕ

/-- How a call ends: the report on stdout, or `exit 1` after some lines on stderr. -/
inductive EditReport
  | ok
  | skip
  | error (lines : List String)
  /-- The counting loop does not come to its end. -/
  | endless
  deriving DecidableEq

/-- `${v%$'\n'}` -/
def stripNewline (v : List UInt8) : List UInt8 :=
  if v.getLast? = some 10 then v.dropLast else v

namespace PortEdit

/-- `$OLD` after its last newline is taken off, the text that is looked for -/
def old (e : PortEdit) : List UInt8 := stripNewline e.OLD

/-- `$NEW` after its last newline is taken off, the text that is put in -/
def new (e : PortEdit) : List UInt8 := stripNewline e.NEW

/-- A `GUARD` is set and the text shows it. -/
def GuardIn (e : PortEdit) (text : List UInt8) : Prop :=
  e.GUARD ≠ [] ∧ e.GUARD <:+: text

/-- The text shows the edit as one that has been applied. -/
def Recognised (e : PortEdit) (text : List UInt8) : Prop :=
  e.GuardIn text ∨ ¬ e.old <:+: text ∧ e.new <:+: text

instance (e : PortEdit) (text : List UInt8) : Decidable (e.GuardIn text) :=
  inferInstanceAs (Decidable (_ ∧ _))

instance (e : PortEdit) (text : List UInt8) : Decidable (e.Recognised text) :=
  inferInstanceAs (Decidable (_ ∨ _))

end PortEdit

/-- `while (($i = index($_, $ENV{OLD}, $i)) >= 0) { $c++; $i++ }`, cut off after
the given number of rounds -/
def countLoop (text old : List UInt8) : ℕ → ℕ → ℕ → Option ℕ
  | 0, _, _ => none
  | rounds + 1, c, i =>
    match index text old i with
    | none => some c
    | some i => countLoop text old rounds (c + 1) (i + 1)

def PortTree.skip (t : PortTree) : PortTree :=
  { t with skipped := t.skipped + 1 }

def PortTree.write (t : PortTree) (f : String) (text : List UInt8) : PortTree :=
  { t with files := Function.update t.files f (some text), applied := t.applied + 1 }

/-- One call of `apply_edit`: the tree it leaves and the way it ends. -/
def runEdit (srcRoot : String) (t : PortTree) (e : PortEdit) : PortTree × EditReport :=
  match t.files e.file with
  | none =>
    (t, .error ["ERROR: " ++ srcRoot ++ "/" ++ e.file ++
      " not found (run from kernel root or use --root)"])
  | some text =>
    if e.GuardIn text then (t.skip, .skip)
    else
      -- more rounds than the text has positions are only made for an empty `$OLD`
      match countLoop text e.old (text.length + 1) 0 0 with
      | none => (t, .endless)
      | some 0 =>
        if (index text e.new 0).isSome then (t.skip, .skip)
        else (t, .error ["ERROR: pattern not found: " ++ e.desc, "       file: " ++ e.file])
      | some 1 =>
        match index text e.old 0 with
        | some i => (t.write e.file (splice text i e.old.length e.new), .ok)
        | none => (t.write e.file text, .ok)
      | some n =>
        (t, .error ["ERROR: pattern matches " ++ toString n ++ "x (must be unique): " ++ e.desc])

/-- A call as a step of its script, which `exit 1` ends. -/
def applyEdit (srcRoot : String) (t : PortTree) (e : PortEdit) : Except EditReport PortTree :=
  match runEdit srcRoot t e with
  | (t, .ok) | (t, .skip) => .ok t
  | (_, report) => .error report

/-- The edits of a script in their order; the first that fails ends it. -/
def applyEdits (srcRoot : String) (t : PortTree) (es : List PortEdit) :
    Except EditReport PortTree :=
  es.foldlM (applyEdit srcRoot) t

/-- What a script finds: the files, with nothing counted yet. -/
def PortTree.start (files : String → Option (List UInt8)) : PortTree := ⟨files, 0, 0⟩

section CountLoop

variable {text old : List UInt8}

/-- The loop counts the positions at which a nonempty text starts. -/
theorem countLoop_eq (hold : old ≠ []) {rounds c i : ℕ} (hi : i ≤ text.length)
    (hrounds : text.length < i + rounds) (hc : c = Nat.count (OccursAt old text) i) :
    countLoop text old rounds c i = some (count old text) := by
  induction rounds generalizing c i with
  | zero => omega
  | succ rounds ih =>
    unfold countLoop
    cases hidx : index text old i with
    | none =>
      have hrest : count old text = Nat.count (OccursAt old text) i :=
        count_eq_of_forall_not (Nat.le_succ_of_le hi) fun q hq _ => index_eq_none hidx hq
      rw [hrest, hc]
    | some p =>
      obtain ⟨hip, hocc, hfirst⟩ := index_eq_some hold hidx
      have hlt : p < text.length := hocc.lt hold
      have hbelow : Nat.count (OccursAt old text) p = Nat.count (OccursAt old text) i :=
        count_eq_of_forall_not hip hfirst
      apply ih hlt (by omega)
      rw [Nat.count_succ, if_pos hocc, hbelow, hc]

theorem countLoop_nil (text : List UInt8) (rounds c i : ℕ) :
    countLoop text [] rounds c i = none := by
  induction rounds generalizing c i with
  | zero => rfl
  | succ rounds ih =>
    unfold countLoop
    rw [index_nil]
    exact ih _ _

end CountLoop

/-- A text with no newline in it is not lost with the last newline. -/
theorem infix_stripNewline {line v : List UInt8} (hline : 10 ∉ line) (h : line <:+: v) :
    line <:+: stripNewline v := by
  unfold stripNewline
  split
  · rename_i hlast
    obtain ⟨s, t, rfl⟩ := h
    rcases List.eq_nil_or_concat t with rfl | ⟨t, b, rfl⟩
    · rw [List.append_nil] at hlast ⊢
      by_cases hnil : line = []
      · rw [hnil]
        exact List.nil_infix
      · rw [List.getLast?_append_of_ne_nil s hnil] at hlast
        exact absurd (List.mem_of_getLast? hlast) hline
    · rw [List.concat_eq_append, ← List.append_assoc, List.dropLast_concat]
      exact List.infix_append s line t
  · exact h

section Spec

variable {srcRoot : String} {t t' : PortTree} {e : PortEdit} {text : List UInt8}

theorem countLoop_start (text : List UInt8) {old : List UInt8} (hold : old ≠ []) :
    countLoop text old (text.length + 1) 0 0 = some (count old text) := by
  apply countLoop_eq hold (Nat.zero_le _)
  · omega
  · rw [Nat.count_zero]

theorem runEdit_guard (hf : t.files e.file = some text) (hguard : e.GuardIn text) :
    runEdit srcRoot t e = (t.skip, .skip) := by
  unfold runEdit
  rw [hf]
  exact if_pos hguard

/-- An empty text is found over and over. -/
theorem runEdit_endless (hf : t.files e.file = some text) (hguard : ¬ e.GuardIn text)
    (hold : e.old = []) : runEdit srcRoot t e = (t, .endless) := by
  unfold runEdit
  rw [hf]
  dsimp only
  rw [if_neg hguard, hold, countLoop_nil]

/-- Behind the `GUARD` the number of places decides. -/
theorem runEdit_count (srcRoot : String) (hf : t.files e.file = some text)
    (hguard : ¬ e.GuardIn text) (hold : e.old ≠ []) :
    (count e.old text = 0 ∧ e.new <:+: text ∧ runEdit srcRoot t e = (t.skip, .skip)) ∨
    (count e.old text = 0 ∧ ¬ e.new <:+: text ∧ ∃ lines, runEdit srcRoot t e = (t, .error lines)) ∨
    (count e.old text = 1 ∧ ∃ A B, text = A ++ e.old ++ B ∧
      runEdit srcRoot t e = (t.write e.file (A ++ e.new ++ B), .ok)) ∨
    (2 ≤ count e.old text ∧ ∃ lines, runEdit srcRoot t e = (t, .error lines)) := by
  unfold runEdit
  rw [hf]
  dsimp only
  rw [if_neg hguard, countLoop_start text hold]
  match hn : count e.old text with
  | 0 =>
    by_cases hnew : e.new <:+: text
    · rw [if_pos (index_zero_isSome.mpr hnew)]
      exact Or.inl ⟨rfl, hnew, rfl⟩
    · rw [if_neg (fun h => hnew (index_zero_isSome.mp h))]
      exact Or.inr (Or.inl ⟨rfl, hnew, _, rfl⟩)
  | 1 =>
    -- the program that replaces finds the place that the loop has counted
    obtain ⟨p, hp, _⟩ := count_eq_one.mp hn
    cases hidx : index text e.old 0 with
    | none => exact absurd hp (index_eq_none hidx (Nat.zero_le p))
    | some i =>
      refine Or.inr (Or.inr (Or.inl ⟨rfl, text.take i, text.drop (i + e.old.length), ?_, rfl⟩))
      exact (index_occursAt hidx).split
  | n + 2 => exact Or.inr (Or.inr (Or.inr ⟨by omega, _, rfl⟩))

/-- A recognised edit is skipped. -/
theorem applyEdit_recognised (hf : t.files e.file = some text) (h : e.Recognised text) :
    applyEdit srcRoot t e = .ok t.skip := by
  have hskip : runEdit srcRoot t e = (t.skip, .skip) := by
    by_cases hguard : e.GuardIn text
    · exact runEdit_guard hf hguard
    obtain ⟨hold, hnew⟩ := h.resolve_left hguard
    have hne : e.old ≠ [] := by
      intro hnil
      rw [hnil] at hold
      exact hold List.nil_infix
    have hzero : count e.old text = 0 := count_eq_zero.mpr hold
    rcases runEdit_count srcRoot hf hguard hne with
      ⟨_, _, hrun⟩ | ⟨_, hno, _⟩ | ⟨hone, _⟩ | ⟨htwo, _⟩
    · exact hrun
    · exact absurd hnew hno
    · omega
    · omega
  unfold applyEdit
  rw [hskip]

/-- An edit that succeeds is recognised and skipped, or its text is found once and
replaced. -/
theorem applyEdit_cases (h : applyEdit srcRoot t e = .ok t') :
    ∃ text, t.files e.file = some text ∧
      (e.Recognised text ∧ t' = t.skip ∨
        ¬ e.GuardIn text ∧ e.old ≠ [] ∧ count e.old text = 1 ∧
          ∃ A B, text = A ++ e.old ++ B ∧ t' = t.write e.file (A ++ e.new ++ B)) := by
  unfold applyEdit at h
  cases hf : t.files e.file with
  | none =>
    unfold runEdit at h
    rw [hf] at h
    cases h
  | some text =>
    refine ⟨text, rfl, ?_⟩
    by_cases hguard : e.GuardIn text
    · rw [runEdit_guard hf hguard] at h
      cases h
      exact Or.inl ⟨Or.inl hguard, rfl⟩
    by_cases hold : e.old = []
    · rw [runEdit_endless hf hguard hold] at h
      cases h
    rcases runEdit_count srcRoot hf hguard hold with
      ⟨hzero, hnew, hrun⟩ | ⟨_, _, lines, hrun⟩ | ⟨hone, A, B, hsplit, hrun⟩ | ⟨_, lines, hrun⟩
    · rw [hrun] at h
      cases h
      exact Or.inl ⟨Or.inr ⟨count_eq_zero.mp hzero, hnew⟩, rfl⟩
    · rw [hrun] at h
      cases h
    · rw [hrun] at h
      cases h
      exact Or.inr ⟨hguard, hold, hone, A, B, hsplit, rfl⟩
    · rw [hrun] at h
      cases h

end Spec

end X00TDCellular
