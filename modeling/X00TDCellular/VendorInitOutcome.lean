import X00TDCellular.VendorInitRat
import X00TDCellular.VendorInitRequests
import X00TDCellular.VendorInitSockets

/-! What `main` publishes about its stages: which of them it has run, the two files that
say so, and the exit code. -/

namespace X00TDCellular
namespace VendorInit
open EnvProgram EnvProgram.Prog EnvProgram.Monitor

/-- A stage, under its name. -/
abbrev Stage := StageName × (ViCtx → Vi (ℕ × ViCtx))

section Files

/-- The files that `main` keeps for itself. -/
def Call.publishes : Call → Bool
  | .writeFile .state _ | .writeFile .stage _ => true
  | _ => false

def writtenStep (file : StateFile) (last : Option StateValue) :
    Event Call Answer → Option StateValue
  | ⟨.writeFile file' value, _⟩ => if file' = file then some value else last
  | _ => last

/-- The value that a file was last to be given. -/
def written (file : StateFile) (tr : Trace) : Option StateValue :=
  tr.foldl (writtenStep file) none

def contentsStep (file : StateFile) (content : Option StateValue) :
    Event Call Answer → Option StateValue
  | ⟨.writeFile file' value, true⟩ => if file' = file then some value else content
  | _ => content

/-- What is in a file that held `old` before: a write is lost when the file cannot be
opened. -/
def contents (old : Option StateValue) (file : StateFile) (tr : Trace) : Option StateValue :=
  tr.foldl (contentsStep file) old

/-- If the call writes a file that `main` keeps, that file could be opened. -/
def EventOpened : Event Call Answer → Prop
  | ⟨.writeFile file _, ok⟩ => file ∈ [StateFile.state, .stage] → ok = true
  | _ => True

/-- The files that `main` keeps could be opened each time. -/
def Opened (tr : Trace) : Prop := ∀ e ∈ tr, EventOpened e

variable {file : StateFile} {tr tr₁ tr₂ : Trace}

theorem contentsStep_eq_written (hfile : file ∈ [StateFile.state, .stage])
    {e : Event Call Answer} (he : EventOpened e) (content : Option StateValue) :
    contentsStep file content e = writtenStep file content e := by
  obtain ⟨c, r⟩ := e
  cases c with
  | writeFile file' value =>
    by_cases hsame : file' = file
    · obtain rfl : r = true := he (hsame ▸ hfile)
      rfl
    · cases r with
      | true => rfl
      | false => exact (if_neg hsame).symm
  | _ => rfl

theorem writtenStep_or (e : Event Call Answer) (last old : Option StateValue) :
    writtenStep file (last.or old) e = (writtenStep file last e).or old := by
  obtain ⟨c, r⟩ := e
  cases c with
  | writeFile file' value =>
    by_cases hsame : file' = file
    · simp [writtenStep, hsame]
    · simp [writtenStep, hsame]
  | _ => rfl

theorem contents_eq_written (hfile : file ∈ [StateFile.state, .stage]) (h : Opened tr)
    (old : Option StateValue) : contents old file tr = (written file tr).or old := by
  unfold contents written
  -- the last value given so far, over what the file held before
  have hall : ∀ last : Option StateValue, tr.foldl (contentsStep file) (last.or old) =
      (tr.foldl (writtenStep file) last).or old := by
    induction tr with
    | nil => exact fun _ => rfl
    | cons e tr ih =>
      intro last
      obtain ⟨he, htr⟩ := List.forall_mem_cons.mp h
      rw [List.foldl_cons, List.foldl_cons, contentsStep_eq_written hfile he, writtenStep_or]
      exact ih htr _
  exact hall none

/-- Calls that leave both files alone. -/
def Quiet (tr : Trace) : Prop := ∀ e ∈ tr, e.call.publishes = false ∧ e.call ≠ .gStop

theorem foldl_written_of_silent (hfile : file ∈ [StateFile.state, .stage])
    (h : ∀ e ∈ tr, e.call.publishes = false) (last : Option StateValue) :
    tr.foldl (writtenStep file) last = last := by
  induction tr generalizing last with
  | nil => rfl
  | cons e tr ih =>
    obtain ⟨he, htr⟩ := List.forall_mem_cons.mp h
    have hstep : writtenStep file last e = last := by
      obtain ⟨c, r⟩ := e
      cases c with
      | writeFile file' value =>
        apply if_neg
        rintro rfl
        simp only [List.mem_cons, List.not_mem_nil, or_false] at hfile
        rcases hfile with rfl | rfl
        · cases he
        · cases he
      | _ => rfl
    rw [List.foldl_cons, hstep]
    exact ih htr last

end Files

/-- How the stage loop comes to its end. -/
inductive LoopEnd
  | all
  /-- `g_stop` was found set before a stage -/
  | seen
  | fails (stage : StageName) (rc : ℕ)
  deriving DecidableEq, Repr

def LoopEnd.code : LoopEnd → ℕ
  | .all => 0
  | .seen => 130
  | .fails _ rc => rc

/-- A run of the stage loop to its end, with the stages that were called and what each of
them returned. -/
inductive LoopRun : List Stage → ViCtx → Trace → List (StageName × ℕ) → LoopEnd → ViCtx → Prop
  | all {ctx} : LoopRun [] ctx [] [] .all ctx
  | seen {name fn rest ctx ok} :
    LoopRun ((name, fn) :: rest) ctx
      [⟨.gStop, true⟩, ⟨.writeFile .state (.result .interrupted), ok⟩] [] .seen ctx
  | fails {name fn rest ctx ok tr rc ctx' ok'} (hfn : (fn ctx).Ends tr (rc, ctx'))
      (hrc : rc ≠ 0) :
    LoopRun ((name, fn) :: rest) ctx
      (⟨.gStop, false⟩ :: ⟨.writeFile .stage (.stage name), ok⟩ :: tr ++
        [⟨.writeFile .state (.result (.failed name)), ok'⟩]) [(name, rc)] (.fails name rc) ctx'
  | goes {name fn rest ctx ok tr ctx' tr' called fin ctx''}
      (hfn : (fn ctx).Ends tr (0, ctx')) (hrest : LoopRun rest ctx' tr' called fin ctx'') :
    LoopRun ((name, fn) :: rest) ctx
      (⟨.gStop, false⟩ :: ⟨.writeFile .stage (.stage name), ok⟩ :: tr ++ tr')
      ((name, 0) :: called) fin ctx''

/-- Every run of the loop is one of these. -/
theorem loopRun_of_ends {tbl : List Stage} {ctx : ViCtx} {tr : Trace} {r : ℕ × ViCtx}
    (h : (runStages tbl ctx).Ends tr r) :
    ∃ called fin, LoopRun tbl ctx tr called fin r.2 ∧ r.1 = fin.code := by
  induction tbl generalizing ctx tr with
  | nil =>
    obtain ⟨rfl, rfl⟩ := ends_ret.mp h
    exact ⟨[], .all, .all, rfl⟩
  | cons stage tbl ih =>
    obtain ⟨name, fn⟩ := stage
    obtain ⟨stop, tr₁, rfl, hstop⟩ := ends_ask_bind.mp h
    cases stop with
    | true =>
      obtain ⟨ok, tr₂, rfl, hret⟩ := ends_ask_bind.mp hstop
      obtain ⟨rfl, rfl⟩ := ends_ret.mp hret
      exact ⟨[], .seen, .seen, rfl⟩
    | false =>
      obtain ⟨ok, tr₂, rfl, hstage⟩ := ends_ask_bind.mp hstop
      obtain ⟨⟨rc, ctx'⟩, tr₃, tr₄, rfl, hfn, hdone⟩ := ends_bind.mp hstage
      dsimp only at hdone
      split at hdone
      · rename_i hrc
        obtain ⟨ok', tr₅, rfl, hret⟩ := ends_ask_bind.mp hdone
        obtain ⟨rfl, rfl⟩ := ends_ret.mp hret
        exact ⟨[(name, rc)], .fails name rc, .fails hfn hrc, rfl⟩
      · rename_i hrc
        obtain rfl : rc = 0 := not_not.mp hrc
        obtain ⟨called, fin, hrun, hcode⟩ := ih hdone
        exact ⟨(name, 0) :: called, fin, .goes hfn hrun, hcode⟩

section Loop

variable {tbl : List Stage} {ctx ctx' : ViCtx} {tr : Trace} {called : List (StageName × ℕ)}
  {fin : LoopEnd}

theorem LoopRun.isPrefix (h : LoopRun tbl ctx tr called fin ctx') :
    called.map Prod.fst <+: tbl.map Prod.fst := by
  induction h with
  | all => exact List.nil_prefix
  | seen => exact List.nil_prefix
  | fails _ _ => exact List.cons_prefix_cons.mpr ⟨rfl, List.nil_prefix⟩
  | goes _ _ ih => exact List.cons_prefix_cons.mpr ⟨rfl, ih⟩

/-- What each end says about the results. -/
def LoopEnd.Fits (tbl : List Stage) (called : List (StageName × ℕ)) : LoopEnd → Prop
  | .all => called.map Prod.fst = tbl.map Prod.fst ∧ ∀ x ∈ called, x.2 = 0
  | .seen => called.length < tbl.length ∧ ∀ x ∈ called, x.2 = 0
  | .fails s rc => ∃ init, called = init ++ [(s, rc)] ∧ (∀ x ∈ init, x.2 = 0) ∧ rc ≠ 0

theorem LoopRun.fits (h : LoopRun tbl ctx tr called fin ctx') : fin.Fits tbl called := by
  induction h with
  | all => exact ⟨rfl, by simp⟩
  | seen => exact ⟨Nat.succ_pos _, by simp⟩
  | fails _ hrc => exact ⟨[], rfl, by simp, hrc⟩
  | @goes name fn rest ctx ok tr ctx' tr' called fin ctx'' _ _ ih =>
    -- a stage that returned 0 is put in front of the others
    cases fin with
    | all =>
      refine ⟨?_, List.forall_mem_cons.mpr ⟨rfl, ih.2⟩⟩
      rw [List.map_cons, List.map_cons, ih.1]
    | seen => exact ⟨Nat.succ_lt_succ ih.1, List.forall_mem_cons.mpr ⟨rfl, ih.2⟩⟩
    | fails s rc =>
      obtain ⟨init, rfl, hinit, hrc⟩ := ih
      exact ⟨(name, 0) :: init, rfl, List.forall_mem_cons.mpr ⟨rfl, hinit⟩, hrc⟩

/-- The stages leave the two files alone and do not look at `g_stop`. -/
def QuietStages (tbl : List Stage) : Prop :=
  ∀ s ∈ tbl, ∀ ctx tr r, (s.2 ctx).Ends tr r → Quiet tr

theorem QuietStages.head {s : Stage} {r : ℕ × ViCtx} (h : QuietStages (s :: tbl))
    (hend : (s.2 ctx).Ends tr r) : Quiet tr := h s List.mem_cons_self ctx tr r hend

theorem QuietStages.tail {s : Stage} (h : QuietStages (s :: tbl)) : QuietStages tbl :=
  fun s' hs' => h s' (List.mem_cons_of_mem s hs')

theorem Quiet.gStop_notMem (h : Quiet tr) (stop : Bool) :
    (⟨.gStop, stop⟩ : Event Call Answer) ∉ tr := fun hmem => (h _ hmem).2 rfl

theorem Quiet.foldl_written {file : StateFile} (h : Quiet tr)
    (hfile : file ∈ [StateFile.state, .stage]) (last : Option StateValue) :
    tr.foldl (writtenStep file) last = last :=
  foldl_written_of_silent hfile (fun e he => (h e he).1) last

theorem LoopRun.sawStop (h : LoopRun tbl ctx tr called fin ctx') (hquiet : QuietStages tbl) :
    (⟨.gStop, true⟩ : Event Call Answer) ∈ tr ↔ fin = .seen := by
  induction h with
  | all => simp
  | seen => simp
  | fails hfn _ =>
    have hstage := (hquiet.head hfn).gStop_notMem true
    simp [hstage]
  | goes hfn _ ih =>
    have hstage := (hquiet.head hfn).gStop_notMem true
    have hrest := ih hquiet.tail
    simp [hstage, hrest]

theorem foldl_stageFile (h : LoopRun tbl ctx tr called fin ctx') (hquiet : QuietStages tbl)
    (last : Option StateValue) :
    tr.foldl (writtenStep .stage) last =
      ((called.getLast?).map fun x => StateValue.stage x.1).or last := by
  induction h generalizing last with
  | all => rfl
  | seen => rfl
  | fails hfn _ =>
    have hstage := (hquiet.head hfn).foldl_written (show StateFile.stage ∈ _ by simp)
    simp [writtenStep, hstage]
  | @goes name fn rest ctx ok tr ctx' tr' called fin ctx'' hfn _ ih =>
    have hstage := (hquiet.head hfn).foldl_written (show StateFile.stage ∈ _ by simp)
    have hrest := ih hquiet.tail
    simp only [List.cons_append, List.foldl_cons, List.foldl_append, hstage, hrest]
    cases called with
    | nil => simp [writtenStep]
    | cons x called =>
      -- the last stage is among those of the rest
      obtain ⟨y, hy⟩ : ∃ y, (x :: called).getLast? = some y :=
        ⟨_, List.getLast?_eq_some_getLast (List.cons_ne_nil x called)⟩
      rw [List.getLast?_cons_cons, hy]
      rfl

/-- What the loop writes as the result: nothing when all stages have returned 0. -/
def LoopEnd.result : LoopEnd → Option RunResult
  | .all => none
  | .seen => some .interrupted
  | .fails s _ => some (.failed s)

theorem foldl_stateFile (h : LoopRun tbl ctx tr called fin ctx') (hquiet : QuietStages tbl)
    (last : Option StateValue) :
    tr.foldl (writtenStep .state) last = (fin.result.map StateValue.result).or last := by
  induction h generalizing last with
  | all => rfl
  | seen => rfl
  | fails hfn _ =>
    have hstage := (hquiet.head hfn).foldl_written (show StateFile.state ∈ _ by simp)
    simp [writtenStep, hstage, LoopEnd.result]
  | goes hfn _ ih =>
    have hstage := (hquiet.head hfn).foldl_written (show StateFile.state ∈ _ by simp)
    have hrest := ih hquiet.tail
    simp only [List.cons_append, List.foldl_cons, List.foldl_append, hstage, hrest]
    rfl

end Loop

section Stages

/-- No stage touches what `main` publishes, or asks whether a signal has come. -/
theorem Call.quiet_of_stage {name : StageName} {c : Call} (hc : name.Calls c) :
    c.publishes = false ∧ c ≠ .gStop := by
  cases c with
  | writeFile file value =>
    refine ⟨?_, fun h => by cases h⟩
    cases file with
    | state => exact absurd hc (by cases name <;> simp [StageName.Calls, StageName.files])
    | stage => exact absurd hc (by cases name <;> simp [StageName.Calls, StageName.files])
    | _ => rfl
  | gStop => exact hc.elim
  | _ => exact ⟨rfl, fun h => by cases h⟩

theorem quiet_of_only {α : Type} {name : StageName} {R : α → Prop} {p : Vi α} {tr : Trace}
    {a : α} (h : Only name.Calls R p) (hend : p.Ends tr a) : Quiet tr :=
  fun e he => Call.quiet_of_stage ((h.runs hend).1 e he)

theorem quietStages : QuietStages stages := by
  intro s hs ctx tr r hend
  simp only [stages, List.mem_cons, List.not_mem_nil, or_false] at hs
  rcases hs with rfl | rfl | rfl | rfl | rfl | rfl | rfl | rfl
  · exact quiet_of_only (only_dmsOnline ctx) hend
  · exact quiet_of_only (only_nasRat ctx) hend
  · exact quiet_of_only (only_dpmOpen ctx) hend
  · exact quiet_of_only (only_wdaSet ctx) hend
  · exact quiet_of_only (only_dsd ctx) hend
  · exact quiet_of_only (only_bindMux ctx) hend
  · exact quiet_of_only (only_wdsStart ctx) hend
  · exact quiet_of_only (only_postTune ctx) hend

end Stages

section Main

/-- `main` up to where it leaves the stages. -/
def stagePhase (ctx : ViCtx) : Vi (ℕ × ViCtx) := do
  let _ ← stateSetResult .starting
  let _ ← stateRecord .apn (.arg ctx.apn)
  let _ ← stateRecord .numMuxes (.int ctx.numMuxes)
  let _ ← stateRecord .dryRun (.int (if ctx.dryRun then 1 else 0))
  let r ← runStages stages ctx
  if r.1 = 0 then
    let _ ← stateSetResult .ready
    return r
  else return r

/-- `main` from there on. -/
def leave (r : ℕ × ViCtx) : Vi ℕ :=
  if r.1 = 0 then do
    hold
    lastClose r.2 r.1
  else lastClose r.2 r.1

theorem mainWith_eq (ctx : ViCtx) : mainWith ctx = stagePhase ctx >>= leave := by
  have hfinish : ∀ r : ℕ × ViCtx, finish r =
      ((if r.1 = 0 then do
        let _ ← stateSetResult .ready
        return r
      else return r) : Vi (ℕ × ViCtx)) >>= leave := by
    intro r
    unfold finish
    split
    · rename_i hrc
      apply congrArg (Prog.call _)
      funext _
      exact (if_pos hrc).symm
    · rename_i hrc
      exact (if_neg hrc).symm
  have hstages : (runStages stages ctx >>= finish) = (runStages stages ctx >>= fun r =>
      if r.1 = 0 then do
        let _ ← stateSetResult .ready
        return r
      else return r) >>= leave := by
    rw [bind_bind]
    exact congrArg _ (funext hfinish)
  -- the four writes before the stages are the same on both sides
  have hwhole : ∀ p q : Vi ℕ, p = q →
      (stateSetResult .starting >>= fun _ => stateRecord .apn (.arg ctx.apn) >>= fun _ =>
        stateRecord .numMuxes (.int ctx.numMuxes) >>= fun _ =>
        stateRecord .dryRun (.int (if ctx.dryRun then 1 else 0)) >>= fun _ => p) =
      (stateSetResult .starting >>= fun _ => stateRecord .apn (.arg ctx.apn) >>= fun _ =>
        stateRecord .numMuxes (.int ctx.numMuxes) >>= fun _ =>
        stateRecord .dryRun (.int (if ctx.dryRun then 1 else 0)) >>= fun _ => q) := by
    rintro p _ rfl
    rfl
  exact hwhole _ _ hstages

/-- The writes before the first stage, each with its answer. -/
def prologue (ctx : ViCtx) (ok₁ ok₂ ok₃ ok₄ : Bool) : Trace :=
  [⟨.writeFile .state (.result .starting), ok₁⟩, ⟨.writeFile .apn (.arg ctx.apn), ok₂⟩,
    ⟨.writeFile .numMuxes (.int ctx.numMuxes), ok₃⟩,
    ⟨.writeFile .dryRun (.int (if ctx.dryRun then 1 else 0)), ok₄⟩]

/-- A run of `main` up to where it leaves the stages. -/
inductive PhaseRun (ctx : ViCtx) :
    Trace → List (StageName × ℕ) → LoopEnd → ViCtx → Prop
  | ready {ok₁ ok₂ ok₃ ok₄ ok tr called ctx'} (hloop : LoopRun stages ctx tr called .all ctx') :
    PhaseRun ctx (prologue ctx ok₁ ok₂ ok₃ ok₄ ++ tr ++
      [⟨.writeFile .state (.result .ready), ok⟩]) called .all ctx'
  | stopped {ok₁ ok₂ ok₃ ok₄ tr called fin ctx'} (hloop : LoopRun stages ctx tr called fin ctx')
      (hfin : fin.code ≠ 0) :
    PhaseRun ctx (prologue ctx ok₁ ok₂ ok₃ ok₄ ++ tr) called fin ctx'

theorem LoopEnd.eq_all {tbl : List Stage} {called : List (StageName × ℕ)} {fin : LoopEnd}
    (h : fin.Fits tbl called) (hcode : fin.code = 0) : fin = .all := by
  cases fin with
  | all => rfl
  | seen => cases hcode
  | fails s rc =>
    obtain ⟨_, _, _, hrc⟩ := h
    exact absurd hcode hrc

variable {ctx ctx' : ViCtx} {tr : Trace} {called : List (StageName × ℕ)} {fin : LoopEnd}

theorem phaseRun_of_ends {r : ℕ × ViCtx} (h : (stagePhase ctx).Ends tr r) :
    ∃ called fin, PhaseRun ctx tr called fin r.2 ∧ r.1 = fin.code := by
  obtain ⟨ok₁, _, rfl, h₁⟩ := ends_ask_bind.mp h
  obtain ⟨ok₂, _, rfl, h₂⟩ := ends_ask_bind.mp h₁
  obtain ⟨ok₃, _, rfl, h₃⟩ := ends_ask_bind.mp h₂
  obtain ⟨ok₄, _, rfl, h₄⟩ := ends_ask_bind.mp h₃
  obtain ⟨r', tr₁, tr₂, rfl, hloop, hend⟩ := ends_bind.mp h₄
  obtain ⟨called, fin, hrun, hcode⟩ := loopRun_of_ends hloop
  split at hend
  · rename_i hrc
    obtain rfl := LoopEnd.eq_all hrun.fits (hcode.symm.trans hrc)
    obtain ⟨ok, tr₃, rfl, hret⟩ := ends_ask_bind.mp hend
    obtain ⟨rfl, rfl⟩ := ends_ret.mp hret
    refine ⟨called, .all, ?_, hcode⟩
    show PhaseRun ctx (prologue ctx ok₁ ok₂ ok₃ ok₄ ++ (tr₁ ++ _)) called .all _
    rw [← List.append_assoc]
    exact .ready hrun
  · rename_i hrc
    obtain ⟨rfl, rfl⟩ := ends_ret.mp hend
    refine ⟨called, fin, ?_, hcode⟩
    rw [List.append_nil]
    exact .stopped hrun fun hzero => hrc (hcode.trans hzero)

/-- What the state file is given last. -/
def LoopEnd.published : LoopEnd → RunResult
  | .all => .ready
  | .seen => .interrupted
  | .fails s _ => .failed s

theorem PhaseRun.fits (h : PhaseRun ctx tr called fin ctx') : fin.Fits stages called := by
  cases h with
  | ready hloop => exact hloop.fits
  | stopped hloop _ => exact hloop.fits

theorem PhaseRun.isPrefix (h : PhaseRun ctx tr called fin ctx') :
    called.map Prod.fst <+: stages.map Prod.fst := by
  cases h with
  | ready hloop => exact hloop.isPrefix
  | stopped hloop _ => exact hloop.isPrefix

theorem PhaseRun.stateFile (h : PhaseRun ctx tr called fin ctx') :
    written .state tr = some (.result fin.published) := by
  cases h with
  | ready hloop => simp [written, prologue, writtenStep, LoopEnd.published]
  | stopped hloop hfin =>
    simp only [written, List.foldl_append, foldl_stateFile hloop quietStages]
    -- the loop has written the result itself
    cases fin with
    | all => exact absurd rfl hfin
    | seen => rfl
    | fails s rc => rfl

theorem PhaseRun.stageFile (h : PhaseRun ctx tr called fin ctx') :
    written .stage tr = (called.getLast?).map fun x => StateValue.stage x.1 := by
  cases h with
  | ready hloop =>
    simp [written, prologue, writtenStep, foldl_stageFile hloop quietStages]
  | stopped hloop _ =>
    simp [written, prologue, writtenStep, foldl_stageFile hloop quietStages]

theorem PhaseRun.sawStop (h : PhaseRun ctx tr called fin ctx') :
    (⟨.gStop, true⟩ : Event Call Answer) ∈ tr ↔ fin = .seen := by
  cases h with
  | ready hloop => simp [prologue, hloop.sawStop quietStages]
  | stopped hloop _ => simp [prologue, hloop.sawStop quietStages]

/-- The stages that were called, the two files and the exit code agree. -/
structure Agrees (tr : Trace) (called : List (StageName × ℕ)) (rc : ℕ) : Prop where
  inOrder : called.map Prod.fst <+:
    [.dmsOnline, .nasRat, .dpmOpen, .wdaSet, .dsd, .bindMux, .wdsStart, .postTune]
  allButLast : ∀ x ∈ called.dropLast, x.2 = 0
  ready : written .state tr = some (.result .ready) ↔
    called.map Prod.fst =
      [.dmsOnline, .nasRat, .dpmOpen, .wdaSet, .dsd, .bindMux, .wdsStart, .postTune] ∧
      ∀ x ∈ called, x.2 = 0
  failed : ∀ s, written .state tr = some (.result (.failed s)) ↔
    (called.find? fun x => x.2 ≠ 0).map Prod.fst = some s
  interrupted : written .state tr = some (.result .interrupted) ↔
    ⟨.gStop, true⟩ ∈ tr ∧ called.length < 8
  exit : rc = 0 ↔ written .state tr = some (.result .ready)
  stage : written .stage tr = (called.getLast?).map fun x => .stage x.1

theorem LoopEnd.Fits.allButLast {tbl : List Stage} (h : fin.Fits tbl called) :
    ∀ x ∈ called.dropLast, x.2 = 0 := by
  cases fin with
  | all => exact fun x hx => h.2 x (List.dropLast_subset _ hx)
  | seen => exact fun x hx => h.2 x (List.dropLast_subset _ hx)
  | fails s rc =>
    obtain ⟨init, rfl, hinit, _⟩ := h
    rw [List.dropLast_concat]
    exact hinit

theorem LoopEnd.Fits.ready_iff {tbl : List Stage} (h : fin.Fits tbl called) :
    fin = .all ↔ called.map Prod.fst = tbl.map Prod.fst ∧ ∀ x ∈ called, x.2 = 0 := by
  cases fin with
  | all => exact iff_of_true rfl h
  | seen =>
    apply iff_of_false (fun h => by cases h)
    rintro ⟨hall, _⟩
    have hlen : called.length = tbl.length := by simpa using congrArg List.length hall
    exact absurd h.1 (by omega)
  | fails s rc =>
    obtain ⟨init, rfl, _, hrc⟩ := h
    apply iff_of_false (fun h => by cases h)
    rintro ⟨_, hzero⟩
    exact hrc (hzero (s, rc) (by simp))

/-- The first stage that returned something else than 0. -/
theorem LoopEnd.Fits.find? {tbl : List Stage} (h : fin.Fits tbl called) :
    (called.find? fun x => x.2 ≠ 0) = match fin with
      | .fails s rc => some (s, rc)
      | _ => none := by
  cases fin with
  | all => exact List.find?_eq_none.mpr fun x hx => by simp [h.2 x hx]
  | seen => exact List.find?_eq_none.mpr fun x hx => by simp [h.2 x hx]
  | fails s rc =>
    obtain ⟨init, rfl, hinit, hrc⟩ := h
    have hnone : (init.find? fun x => x.2 ≠ 0) = none :=
      List.find?_eq_none.mpr fun x hx => by simp [hinit x hx]
    rw [List.find?_append, hnone]
    simp [hrc]

theorem PhaseRun.agrees (h : PhaseRun ctx tr called fin ctx') : Agrees tr called fin.code := by
  have hready : written .state tr = some (.result .ready) ↔ fin = .all := by
    rw [h.stateFile]
    cases fin <;> simp [LoopEnd.published]
  refine ⟨h.isPrefix, h.fits.allButLast, hready.trans h.fits.ready_iff, ?_, ?_, ?_, h.stageFile⟩
  · intro s
    rw [h.stateFile, h.fits.find?]
    cases fin <;> simp [LoopEnd.published]
  · rw [h.stateFile, h.sawStop]
    have hfits := h.fits
    cases fin with
    | all => simp [LoopEnd.published]
    | seen => simpa [LoopEnd.published] using show called.length < 8 from hfits.1
    | fails s rc => simp [LoopEnd.published]
  · rw [hready]
    exact ⟨LoopEnd.eq_all h.fits, fun hall => hall ▸ rfl⟩

/-- After the stages `main` only waits for a signal and closes its socket. -/
theorem only_leave (r : ℕ × ViCtx) :
    Only (fun c => c.publishes = false) (fun code => code = r.1) (leave r) := by
  have hclose : Only (fun c => c.publishes = false) (fun code => code = r.1)
      (lastClose r.2 r.1) := by
    unfold lastClose
    split
    · exact only_ask_bind rfl fun _ => rfl
    · exact rfl
  unfold leave
  split
  · apply only_bind (R := fun _ => True)
    · refine ⟨rfl, fun stop => ?_⟩
      cases stop with
      | true => exact trivial
      | false => exact ⟨rfl, fun _ => trivial⟩
    · exact fun _ _ => hclose
  · exact hclose

theorem written_append_of_silent {file : StateFile} {tr' : Trace}
    (hfile : file ∈ [StateFile.state, .stage]) (h : ∀ e ∈ tr', e.call.publishes = false) :
    written file (tr ++ tr') = written file tr := by
  unfold written
  rw [List.foldl_append, foldl_written_of_silent hfile h]

/-- In every run of `main` that leaves its eight stages, the stages called, the two files
and the exit code agree, and the files stay as they are while the bearer is held. -/
theorem outcome_agrees {opts : List Opt} {ctx : ViCtx}
    (hopts : parseOpts { apn := defaultApn } opts = .ok ctx) :
    stages = [(.dmsOnline, stageDmsOnline), (.nasRat, stageNasRat), (.dpmOpen, stageDpmOpen),
        (.wdaSet, stageWdaSet), (.dsd, stageDsd), (.bindMux, stageBindMux),
        (.wdsStart, stageWdsStart), (.postTune, stagePostTune)] ∧
      main opts = stagePhase ctx >>= leave ∧
      ∀ tr r, (stagePhase ctx).Ends tr r →
        ∃ called fin, PhaseRun ctx tr called fin r.2 ∧ Agrees tr called r.1 ∧
          ∀ tr' p, Runs (leave r) tr' p →
            (∀ file ∈ [StateFile.state, .stage], written file (tr ++ tr') = written file tr ∧
              ∀ old, Opened (tr ++ tr') →
                contents old file (tr ++ tr') = (written file tr).or old) ∧
            ∀ code, p = .ret code → code = r.1 := by
  refine ⟨rfl, ?_, ?_⟩
  · unfold main
    rw [hopts]
    exact mainWith_eq ctx
  intro tr r hend
  obtain ⟨called, fin, hrun, hcode⟩ := phaseRun_of_ends hend
  refine ⟨called, fin, hrun, hcode ▸ hrun.agrees, ?_⟩
  intro tr' p hleave
  obtain ⟨hsilent, honly⟩ := (only_leave r).runs hleave
  refine ⟨fun file hfile => ?_, ?_⟩
  · have hwritten : written file (tr ++ tr') = written file tr :=
      written_append_of_silent hfile hsilent
    refine ⟨hwritten, fun old hopened => ?_⟩
    rw [contents_eq_written hfile hopened old, hwritten]
  · rintro code rfl
    exact honly

/-- A modem on LTE that takes all requests but START_NETWORK, for which it has error 14. -/
def refusingModem : (c : Call) → Answer c
  | .qrtrTxn fd port req respSz timeoutMs =>
    if req.msg = .startNetwork then some [2, 1, 0, 0x20, 0, 7, 0, 0x02, 4, 0, 1, 0, 14, 0]
    else lteModem (.qrtrTxn fd port req respSz timeoutMs)
  | c => lteModem c

/-- A signal that comes after so many calls. -/
def signalAfter (calls : ℕ) (modem : (c : Call) → Answer c) (n : ℕ) : (c : Call) → Answer c
  | .gStop => decide (calls ≤ n)
  | c => modem c

/-- A run with the default options that the seventh stage ends. -/
def refusedTrace : Trace := (stagePhase { apn := defaultApn }).events refusingModem

/-- A run in which the signal comes while the third stage is on. -/
def signalTrace : Trace :=
  (stagePhase { apn := defaultApn }).eventsFrom (signalAfter 30 lteModem) 0

theorem outcome_agrees_refusedAndSignal :
    (written .state refusedTrace = some (.result (.failed .wdsStart)) ∧
        written .stage refusedTrace = some (.stage .wdsStart) ∧
        ∃ called, Agrees refusedTrace called 3) ∧
      written .state signalTrace = some (.result .interrupted) ∧
        written .stage signalTrace = some (.stage .dpmOpen) ∧
        ∃ called, Agrees signalTrace called 130 := by
  have hopts : parseOpts { apn := defaultApn } [] = .ok { apn := defaultApn } := rfl
  obtain ⟨_, _, hall⟩ := outcome_agrees hopts
  have hrefused := ends_events refusingModem (stagePhase { apn := defaultApn })
  have hsignal := ends_eventsFrom (signalAfter 30 lteModem) 0 (stagePhase { apn := defaultApn })
  obtain ⟨called, _, _, hagrees, _⟩ := hall _ _ hrefused
  obtain ⟨called', _, _, hagrees', _⟩ := hall _ _ hsignal
  have hcode : ((stagePhase { apn := defaultApn }).outcome refusingModem).1 = 3 := by
    decide +kernel
  have hcode' : ((stagePhase { apn := defaultApn }).outcomeFrom
      (signalAfter 30 lteModem) 0).1 = 130 := by decide +kernel
  rw [hcode] at hagrees
  rw [hcode'] at hagrees'
  exact ⟨⟨by decide +kernel, by decide +kernel, called, hagrees⟩, by decide +kernel,
    by decide +kernel, called', hagrees'⟩

end Main

end VendorInit
end X00TDCellular
