import PipTestsuite.TestSh.Run

/-! The order of events in a run of test.sh, as a function of the tree of lists, the modes and the
outcomes alone, and the simulation: a run leaves exactly what its events leave, whatever goes
through the summary file on the way. -/
namespace PipTestsuite.TestSh
open RotatingLog

/-- start: a test.sh removes the error log. rotate: it rotates the test.log of the directory it is
started in. exec: a pair is executed. leave: a nested test.sh closes its list. -/
inductive Event (Dir : Type*) where
  | start
  | rotate (cwd : Dir)
  | exec (e : Exec Dir)
  | leave (dir : Dir)

namespace Event
variable {Dir : Type*}

def exec? : Event Dir → Option (Exec Dir)
  | exec e => some e
  | _ => none

def apply [DecidableEq Dir] (f : Files Dir) : Event Dir → Files Dir
  | start => f.rmErrorLog
  | rotate d => f.rotateLog d
  | exec e => f.record e
  | leave d => f.appendLog d (.tail none)

end Event

variable {Dir : Type*}

/-- The executions among some events, in order. -/
def execs (es : List (Event Dir)) : List (Exec Dir) := es.filterMap Event.exec?

@[simp] lemma execs_nil : execs ([] : List (Event Dir)) = [] := rfl
@[simp] lemma execs_start (es : List (Event Dir)) : execs (.start :: es) = execs es := rfl
@[simp] lemma execs_rotate (d : Dir) (es : List (Event Dir)) : execs (.rotate d :: es) = execs es := rfl
@[simp] lemma execs_leave (d : Dir) (es : List (Event Dir)) : execs (.leave d :: es) = execs es := rfl
@[simp] lemma execs_exec (e : Exec Dir) (es : List (Event Dir)) :
    execs (.exec e :: es) = e :: execs es := rfl
@[simp] lemma execs_append (es es' : List (Event Dir)) : execs (es ++ es') = execs es ++ execs es' :=
  List.filterMap_append

@[simp] lemma execs_map_exec (es : List (Exec Dir)) : execs (es.map .exec) = es := by
  induction es with
  | nil => rfl
  | cons e es ih => simp [ih]

/-- A file name that a nested test.sh takes for its list, not for an option. -/
def IsListName (ifile : Word) : Prop := ifile ≠ [] ∧ ifile.head? ≠ some '-'

instance (ifile : Word) : Decidable (IsListName ifile) :=
  inferInstanceAs (Decidable (ifile ≠ [] ∧ ifile.head? ≠ some '-'))

/-- A line that the main loop executes as a test command. -/
def IsCommand (words : List Word) : Prop :=
  words ≠ [] ∧ words.head? ≠ some percentInclude ∧ (words.head?.bind List.head?) ≠ some '#'

instance (words : List Word) : Decidable (IsCommand words) :=
  inferInstanceAs (Decidable (words ≠ [] ∧ words.head? ≠ some percentInclude ∧
    (words.head?.bind List.head?) ≠ some '#'))

/-- One command under its modes from execution k on, up to the first killed one. -/
def walkModes (outcome : ℕ → Outcome) (dir : Dir) (incFn : Word) (words : List Word) :
    List PipMode → ℕ → List (Exec Dir)
  | [], _ => []
  | m :: modes, k =>
    let e : Exec Dir := ⟨k, dir, incFn, words, m, outcome k⟩
    if (outcome k).exitStatus = exitKilled then [e] else e :: walkModes outcome dir incFn words modes (k+1)

/-- One of the n executions from k on is killed. -/
def KilledIn (outcome : ℕ → Outcome) (k n : ℕ) : Prop := ∃ i < n, (outcome (k+i)).exitStatus = exitKilled

instance (outcome : ℕ → Outcome) (k n : ℕ) : Decidable (KilledIn outcome k n) :=
  inferInstanceAs (Decidable (∃ i < n, (outcome (k+i)).exitStatus = exitKilled))

/-- The events of a list that lies in dir, from execution k on. -/
def walk (outcome : ℕ → Outcome) (modes : List PipMode) :
    ListFile Dir → Dir → Word → ℕ → List (Event Dir)
  | .eof, _, _, _ => []
  | .line words rest, dir, incFn, k =>
    if IsCommand words then
      (walkModes outcome dir incFn words modes k).map .exec ++
        if KilledIn outcome k modes.length then [] else walk outcome modes rest dir incFn (k + modes.length)
    else if words = [percentInclude] then .start :: walk outcome modes rest dir incFn k
    else walk outcome modes rest dir incFn k
  | .incl ifile sub body rest, dir, incFn, k =>
    if IsListName ifile then
      let es := walk outcome modes body sub (incFnOf ifile) k
      .start :: .rotate dir :: (es ++ .leave sub :: walk outcome modes rest dir incFn (k + (execs es).length))
    else .start :: walk outcome modes rest dir incFn k

def Summary.accountAll (s : Summary) (es : List (Exec Dir)) : Summary := es.foldl Summary.account s

section Files
variable [DecidableEq Dir]

def Files.applyAll (f : Files Dir) (es : List (Event Dir)) : Files Dir := es.foldl Event.apply f

@[simp] lemma Files.applyAll_nil (f : Files Dir) : f.applyAll [] = f := rfl
@[simp] lemma Files.applyAll_cons (f : Files Dir) (e : Event Dir) (es : List (Event Dir)) :
    f.applyAll (e :: es) = (e.apply f).applyAll es := rfl
@[simp] lemma Files.applyAll_append (f : Files Dir) (es es' : List (Event Dir)) :
    f.applyAll (es ++ es') = (f.applyAll es).applyAll es' := List.foldl_append

@[simp] lemma Files.executed_record (f : Files Dir) (e : Exec Dir) :
    (f.record e).executed = f.executed ++ [e] := by
  unfold Files.record
  cases e.status <;> rfl

/-- Only executions are seen from outside. -/
theorem Files.executed_applyAll (f : Files Dir) (es : List (Event Dir)) :
    (f.applyAll es).executed = f.executed ++ execs es := by
  induction es generalizing f with
  | nil => simp
  | cons e es ih =>
    rw [Files.applyAll_cons, ih]
    cases e <;> simp [Event.apply, Files.rmErrorLog, Files.rotateLog, Files.appendLog]

end Files

@[simp] lemma Summary.accountAll_nil (s : Summary) : s.accountAll ([] : List (Exec Dir)) = s := rfl
@[simp] lemma Summary.accountAll_cons (s : Summary) (e : Exec Dir) (es : List (Exec Dir)) :
    s.accountAll (e :: es) = (s.account e).accountAll es := rfl
@[simp] lemma Summary.accountAll_append (s : Summary) (es es' : List (Exec Dir)) :
    s.accountAll (es ++ es') = (s.accountAll es).accountAll es' := List.foldl_append

lemma killedIn_succ (outcome : ℕ → Outcome) (k n : ℕ) :
    KilledIn outcome k (n+1) ↔ (outcome k).exitStatus = exitKilled ∨ KilledIn outcome (k+1) n := by
  constructor
  · rintro ⟨i, hi, h⟩
    cases i with
    | zero => exact .inl h
    | succ i => exact .inr ⟨i, by omega, by rwa [show k+1+i = k+(i+1) by omega]⟩
  · rintro (h | ⟨i, hi, h⟩)
    · exact ⟨0, by omega, h⟩
    · exact ⟨i+1, by omega, by rwa [show k+(i+1) = k+1+i by omega]⟩

lemma length_walkModes (outcome : ℕ → Outcome) (dir : Dir) (incFn : Word) (words : List Word)
    (modes : List PipMode) (k : ℕ) (h : ¬ KilledIn outcome k modes.length) :
    (walkModes outcome dir incFn words modes k).length = modes.length := by
  induction modes generalizing k with
  | nil => rfl
  | cons m modes ih =>
    rw [List.length_cons, killedIn_succ, not_or] at h
    simp [walkModes, h.1, ih (k+1) h.2]

lemma walkModes_stamps (outcome : ℕ → Outcome) (dir : Dir) (incFn : Word) (words : List Word)
    (modes : List PipMode) (k : ℕ) :
    (walkModes outcome dir incFn words modes k).map Exec.stamp =
      List.range' k (walkModes outcome dir incFn words modes k).length := by
  induction modes generalizing k with
  | nil => rfl
  | cons m modes ih =>
    simp only [walkModes]
    split_ifs
    · rfl
    · simp [ih (k+1), List.range'_succ]

/-- The executions of a list are numbered on from k. -/
theorem walk_stamps (outcome : ℕ → Outcome) (modes : List PipMode) (file : ListFile Dir) (dir : Dir)
    (incFn : Word) (k : ℕ) :
    (execs (walk outcome modes file dir incFn k)).map Exec.stamp =
      List.range' k (execs (walk outcome modes file dir incFn k)).length := by
  induction file generalizing dir incFn k with
  | eof => rfl
  | line words rest ih =>
    simp only [walk]
    split_ifs with hcmd hk
    · simp [walkModes_stamps]
    · have hlen := length_walkModes outcome dir incFn words modes k hk
      have hstamps := walkModes_stamps outcome dir incFn words modes k
      rw [hlen] at hstamps
      simp [hstamps, ih dir incFn (k + modes.length), hlen, List.range'_append_1]
    · simpa using ih dir incFn k
    · exact ih dir incFn k
  | incl ifile sub body rest ihb ihr =>
    simp only [walk]
    split_ifs
    · simp [ihb sub (incFnOf ifile) k, ihr dir incFn, List.range'_append_1]
    · simpa using ihr dir incFn k

lemma walkModes_outcome (outcome : ℕ → Outcome) (dir : Dir) (incFn : Word) (words : List Word)
    (modes : List PipMode) (k : ℕ) (e : Exec Dir) (he : e ∈ walkModes outcome dir incFn words modes k) :
    e.outcome = outcome e.stamp := by
  induction modes generalizing k with
  | nil => simp [walkModes] at he
  | cons m modes ih =>
    simp only [walkModes] at he
    split_ifs at he
    · simp [List.mem_singleton.mp he]
    · rcases List.mem_cons.mp he with rfl | he
      · rfl
      · exact ih (k+1) he

theorem walk_outcome (outcome : ℕ → Outcome) (modes : List PipMode) (file : ListFile Dir) (dir : Dir)
    (incFn : Word) (k : ℕ) (e : Exec Dir) (he : e ∈ execs (walk outcome modes file dir incFn k)) :
    e.outcome = outcome e.stamp := by
  induction file generalizing dir incFn k with
  | eof => simp [walk] at he
  | line words rest ih =>
    simp only [walk] at he
    split_ifs at he
    · simp only [List.append_nil, execs_map_exec] at he
      exact walkModes_outcome outcome dir incFn words modes k e he
    · simp only [execs_append, execs_map_exec, List.mem_append] at he
      rcases he with he | he
      · exact walkModes_outcome outcome dir incFn words modes k e he
      · exact ih dir incFn _ he
    · exact ih dir incFn k he
    · exact ih dir incFn k he
  | incl ifile sub body rest ihb ihr =>
    simp only [walk] at he
    split_ifs at he
    · simp only [execs_start, execs_rotate, execs_append, execs_leave, List.mem_append] at he
      rcases he with he | he
      · exact ihb sub (incFnOf ifile) k he
      · exact ihr dir incFn _ he
    · exact ihr dir incFn k he

section Simulation
variable [DecidableEq Dir]

/-- The per-mode loop executes what walkModes says, and breaks where a pair is killed. -/
lemma modeLoop_eq (env : Env) (words : List Word) (modes : List PipMode) (sh : Shell Dir) (w : World Dir) :
    let es := walkModes env.outcome sh.cwd sh.incFn words modes w.files.executed.length
    modeLoop env words modes sh w =
      ({ sh with sum := sh.sum.accountAll es }, { w with files := w.files.applyAll (es.map .exec) },
        decide (KilledIn env.outcome w.files.executed.length modes.length)) := by
  induction modes generalizing sh w with
  | nil => simp [modeLoop, walkModes, KilledIn]
  | cons m modes ih =>
    simp only [modeLoop, runTest, walkModes]
    by_cases hk : (env.outcome w.files.executed.length).exitStatus = exitKilled
    · simp [hk, killedIn_succ, Event.apply]
    · simp [hk, ih, killedIn_succ, Event.apply]

/-- A nested test.sh that has a list starts with the modes and the variables of its parent. -/
lemma spawn_eq (env : Env) (sh : Shell Dir) (hM : env.Testable sh.run) (ifile : Word)
    (hname : IsListName ifile) (w : World Dir) :
    spawn env sh ifile w =
      (⟨some sh.sum, w.files.applyAll [.start, .rotate sh.cwd]⟩,
        some ⟨true, incFnOf ifile, sh.cwd, sh.run, sh.sum⟩) := by
  obtain ⟨hne, hcheck⟩ := checkModes_pipModeList env.toMachine sh.run hM
  simp [spawn, start, hname.1, parseArgs_options sh.run ifile hname.1 hname.2, hne, hcheck, hM.nonempty,
    fileSummary, Event.apply]

/-- Without a list, all that a nested test.sh does is to remove the error log. -/
lemma spawn_none (env : Env) (sh : Shell Dir) (ifile : Word) (hname : ¬ IsListName ifile) (w : World Dir) :
    spawn env sh ifile w = (⟨some sh.sum, w.files.applyAll [.start]⟩, none) := by
  have hargs : parseArgs {} (sh.run.options ++ if ifile = [] then [] else [ifile]) = none := by
    apply parseArgs_of_dash
    intro o ho
    rcases List.mem_append.mp ho with h | h
    · exact head_of_mem_options sh.run o h
    · by_cases he : ifile = []
      · simp [he] at h
      · have hd : ifile.head? = some '-' := by simpa [IsListName, he] using hname
        simp only [he, if_false, List.mem_singleton] at h
        rw [h, hd]
  simp [spawn, start, hargs, fileSummary, Event.apply]

/-- The main loop leaves the files and the variables that the events of its list leave. -/
theorem mainLoop_walk (env : Env) (file : ListFile Dir) (sh : Shell Dir) (hM : env.Testable sh.run)
    (w : World Dir) :
    let es := walk env.outcome sh.run.modeList file sh.cwd sh.incFn w.files.executed.length
    (mainLoop env file sh w).1 = { sh with sum := sh.sum.accountAll (execs es) } ∧
    (mainLoop env file sh w).2.files = w.files.applyAll es := by
  induction file generalizing sh w with
  | eof => simp [mainLoop, walk]
  | line words rest ih =>
    simp only [walk]
    by_cases hcmd : IsCommand words
    · obtain ⟨first, args, rfl⟩ := List.exists_cons_of_ne_nil hcmd.1
      have hinc : first ≠ percentInclude := fun h => hcmd.2.1 (by simp [h])
      have hhash : first.head? ≠ some '#' := fun h => hcmd.2.2 (by simp [h])
      simp only [mainLoop, hinc, hhash, if_false, modeLoop_eq, hcmd, if_true]
      by_cases hk : KilledIn env.outcome w.files.executed.length sh.run.modeList.length
      · simp [hk]
      · have hlen := length_walkModes env.outcome sh.cwd sh.incFn (first :: args) _ _ hk
        generalize walkModes env.outcome sh.cwd sh.incFn (first :: args) sh.run.modeList
          w.files.executed.length = es at hlen ⊢
        have hrest := ih { sh with sum := sh.sum.accountAll es } hM ⟨w.sumFile, w.files.applyAll (es.map .exec)⟩
        simpa [hk, Files.executed_applyAll, hlen] using hrest
    · simp only [hcmd, if_false]
      cases words with
      | nil => simpa [mainLoop] using ih sh hM w
      | cons first args =>
        by_cases hinc : first = percentInclude
        · subst hinc
          cases args with
          | nil =>
            have hnone := spawn_none env sh [] (by simp [IsListName]) w
            simpa [mainLoop, hnone, sourceSummary, Event.apply, Files.rmErrorLog] using
              ih sh hM ⟨some sh.sum, w.files.applyAll [.start]⟩
          | cons a args => simpa [mainLoop] using ih sh hM w
        · have hhash : first.head? = some '#' := by simpa [IsCommand, hinc] using hcmd
          simpa [mainLoop, hinc, hhash] using ih sh hM w
  | incl ifile dir body rest ihb ihr =>
    simp only [walk]
    by_cases hname : IsListName ifile
    · simp only [mainLoop, spawn_eq env sh hM ifile hname w, hname, if_true]
      -- the child counts on from the saved counters, and its closing file_summary saves the sum
      obtain ⟨hsh, hfiles⟩ := ihb ⟨true, incFnOf ifile, dir, sh.run, sh.sum⟩ hM
        ⟨some sh.sum, w.files.applyAll [.start, .rotate sh.cwd]⟩
      have hk : (w.files.applyAll [.start, .rotate sh.cwd]).executed = w.files.executed := rfl
      simp only [hk] at hsh hfiles
      generalize walk env.outcome sh.run.modeList body dir (incFnOf ifile) w.files.executed.length = es
        at hsh hfiles ⊢
      generalize mainLoop env body _ _ = r at hsh hfiles ⊢
      obtain ⟨sh', w'⟩ := r
      subst hsh
      let inner : List (Event Dir) := .start :: .rotate sh.cwd :: (es ++ [.leave dir])
      have hw : w'.files = (w.files.applyAll [.start, .rotate sh.cwd]).applyAll es := hfiles
      have hclose : closeFiles (⟨true, incFnOf ifile, dir, sh.run, sh.sum.accountAll (execs es)⟩ : Shell Dir) w' =
          ⟨some (sh.sum.accountAll (execs es)), w.files.applyAll inner⟩ := by
        simp [closeFiles, fileSummary, Event.apply, hw, inner]
      have hlen : (w.files.applyAll inner).executed.length = w.files.executed.length + (execs es).length := by
        rw [Files.executed_applyAll, List.length_append]
        simp [inner]
      have hrest := ihr { sh with sum := sh.sum.accountAll (execs es) } hM
        ⟨some (sh.sum.accountAll (execs es)), w.files.applyAll inner⟩
      simp only [hlen] at hrest
      simpa [hclose, sourceSummary, inner] using hrest
    · have hnone := spawn_none env sh ifile hname w
      simpa [mainLoop, hnone, hname, sourceSummary, Event.apply, Files.rmErrorLog] using
        ihr sh hM ⟨some sh.sum, w.files.applyAll [.start]⟩

/-- The modes that a top-level test.sh tests, where its command line and the machine leave any. -/
def selectedModes (env : Env) (args : List Word) : Option RunTest :=
  match parseArgs {} args with
  | none => none
  | some (r, _) =>
    let run := env.checkModes (env.pipModeList r)
    if run.modeList = [] then none else some run

lemma selectedModes_testable (env : Env) (args : List Word) (run : RunTest)
    (h : selectedModes env args = some run) : env.Testable run := by
  unfold selectedModes at h
  cases hp : parseArgs {} args with
  | none => simp [hp] at h
  | some p =>
    simp only [hp] at h
    split_ifs at h with hne
    rw [← Option.some.inj h]
    exact testable_checkModes env.toMachine p.1 hne

/-- A top level that tests some modes starts with new counters. -/
lemma start_of_selectedModes {env : Env} {args : List Word} {run : RunTest} (h : selectedModes env args = some run)
    (cwd : Dir) (w : World Dir) : start env none cwd args w =
      (⟨some (resetSummary env), (w.files.applyAll [.start, .rotate cwd]).openXml⟩,
        some ⟨false, [], cwd, run, resetSummary env⟩) := by
  unfold selectedModes at h
  cases hp : parseArgs {} args with
  | none => simp [hp] at h
  | some p =>
    simp only [hp] at h
    split_ifs at h with hne
    have hrun := Option.some.inj h
    have hlist : env.pipModeList p.1 ≠ [] := fun he => hne (by rw [he]; rfl)
    simp [start, hp, hlist, hne, ← hrun, Event.apply]

lemma start_of_selectedModes_none {env : Env} {args : List Word} (h : selectedModes env args = none) (cwd : Dir)
    (w : World Dir) : (start env none cwd args w).2 = none := by
  unfold selectedModes at h
  cases hp : parseArgs {} args with
  | none => simp [start, hp]
  | some p =>
    simp only [hp] at h
    split_ifs at h with hne
    by_cases hlist : env.pipModeList p.1 = [] <;> simp [start, hp, hlist, hne]

/-- The top level leaves what its own start, the events of its list and its end leave. -/
theorem testSh_walk (env : Env) (cwd dir : Dir) (args : List Word) (file : ListFile Dir) (run : RunTest)
    (h : selectedModes env args = some run) (w : World Dir) :
    let es := walk env.outcome run.modeList file dir [] w.files.executed.length
    let f := (w.files.applyAll [.start, .rotate cwd]).openXml.applyAll es
    let n := ((resetSummary env).accountAll (execs es)).n
    testSh env cwd dir args file w =
      (⟨none, (f.appendXml .endTestsuite).appendLog dir (.tail (some n))⟩,
        some ⟨n, n.total, f.printedLog, exitStatus env false n⟩) := by
  have hM := selectedModes_testable env args run h
  have hstart := start_of_selectedModes h cwd w
  obtain ⟨hsh, hfiles⟩ := mainLoop_walk env file ⟨false, [], dir, run, resetSummary env⟩ hM
    ⟨some (resetSummary env), (w.files.applyAll [.start, .rotate cwd]).openXml⟩
  have hk : (w.files.applyAll [.start, .rotate cwd]).openXml.executed = w.files.executed := rfl
  simp only [hk] at hsh hfiles
  simp only [testSh, hstart]
  generalize mainLoop env file _ _ = r at hsh hfiles ⊢
  obtain ⟨sh', w'⟩ := r
  have hw : w'.files = _ := hfiles
  have hsh' : sh' = _ := hsh
  simp [hsh', closeFiles, hw, Files.appendLog, Files.appendXml, Files.printedLog]

/-- A whole run, from the files f that the start of its top level leaves. -/
theorem testSh_initial (env : Env) (args : List Word) (run : RunTest)
    (hmodes : selectedModes env args = some run) (file : ListFile Dir) (cwd dir : Dir)
    (errorLog : Option (List ErrorEntry)) (old : Dir → Log Word) :
    let es := walk env.outcome run.modeList file dir [] 0
    let n := ((resetSummary env).accountAll (execs es)).n
    ∃ f : Files Dir, f.errorLog = none ∧ (f.applyAll es).executed = execs es ∧
      testSh env cwd dir args file (initial errorLog old) =
        (⟨none, ((f.applyAll es).appendXml .endTestsuite).appendLog dir (.tail (some n))⟩,
          some ⟨n, n.total, (f.applyAll es).printedLog, exitStatus env false n⟩) := by
  refine ⟨((initial errorLog old).files.applyAll [.start, .rotate cwd]).openXml, rfl, ?_,
    testSh_walk env cwd dir args file run hmodes (initial errorLog old)⟩
  rw [Files.executed_applyAll]
  rfl

end Simulation

end PipTestsuite.TestSh
