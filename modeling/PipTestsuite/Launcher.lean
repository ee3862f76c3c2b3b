import PipTestsuite.ExitCode
import PipTestsuite.Lib.Checked

/-! pip_task.c and pip_blt.c: a launcher spawns its tasks, waits for them in the order of their
pipids, and exits with one status for all of them. -/
namespace PipTestsuite.Launcher
open Checked

/-- A spawn with its pipid and core number (none is PIP_CPUCORE_ASIS); a BLT is spawned active or
not, on one of the task queues. -/
inductive Spawn where
  | task (pipid : ℕ) (core : Option ℤ)
  | blt (pipid : ℕ) (core : Option ℤ) (active : Bool) (queue : ℕ)
  deriving DecidableEq

/-- The number of arguments, $NTASKS and PIP_NTASKS_MAX. -/
structure Args where
  argc : ℕ
  ntenv : Option ℤ
  ntasksMax : ℤ

/-- What the calls of the PiP library and of the system return. -/
structure Calls where
  fork : Bool
  pipInit : ℤ
  /-- the number of cores that sched_getaffinity gives, unless it fails -/
  ncpus : Option ℕ
  pipSpawn : Spawn → ℤ
  pipid : Spawn → ℤ
  taskqEmpty : Spawn → Bool
  pipWait : ℕ → ℤ
  pipFin : ℤ
  /-- the signal that ends the forked root of pip_task, if any -/
  rootSignal : Option ℕ

def getNcpus (calls : Calls) : Except ℕ ℤ :=
  match calls.ncpus with
  | some n => .ok n
  | none => .error exitUntested

def extvalOf : WaitStatus → ℕ
  | .exited code => code
  | .signaled _ => exitUnresolved

/-- The wait loop of either launcher, from task i on. -/
def waitTasks (calls : Calls) : ℕ → ℕ → List WaitStatus → Except ℕ ℕ
  | _, err, [] => .ok err
  | i, err, status :: tasks => do
    check (calls.pipWait i ≠ 0) exitFail
    let extval := extvalOf status
    let err := if err = 0 ∧ extval ≠ 0 then extval else err
    waitTasks calls (i + 1) err tasks

/-- The body of the spawn loop of pip_task. -/
def spawnTask (calls : Calls) (nc : ℤ) (i : ℕ) : Except ℕ Unit := do
  let spawn := Spawn.task i (if nc = 0 then none else some ((i : ℤ).tmod nc))
  check (calls.pipSpawn spawn ≠ 0) exitFail
  check (calls.pipid spawn ≠ i) exitFail

def spawnTasks (calls : Calls) (tasks : List WaitStatus) : Except ℕ ℕ := do
  check (calls.pipInit ≠ 0) exitUntested
  let ncpus ← getNcpus calls
  let nc := ncpus - 1
  (List.range tasks.length).foldlM (fun _ i => spawnTask calls nc i) ()
  let err ← waitTasks calls 0 0 tasks
  check (calls.pipFin ≠ 0) exitFail
  return err

/-- The switch of pip_task on the status of spawn_tasks. -/
def codeOrFail (extval : ℕ) : ℕ :=
  if extval ∈ [exitPass, exitFail, exitXpass, exitXfail, exitUnresolved, exitUntested, exitUnsupported,
      exitKilled] then extval
  else exitFail

/-- main of pip_task, for tasks with the given final statuses. -/
def pipTask (args : Args) (calls : Calls) (ntasks : ℤ) (tasks : List WaitStatus) : Except ℕ ℕ := do
  check (args.argc < 3) exitUntested
  check (ntasks ≤ 0 || ntasks > args.ntasksMax) exitUntested
  check (args.ntenv.any (ntasks > ·)) exitUntested
  check (!calls.fork) exitUntested
  match calls.rootSignal with
  | some _ => return exitFail
  | none => return codeOrFail (mainStatus (spawnTasks calls tasks))

/-- The body of the first spawn loop of pip_blt, which hands j on. -/
def spawnInactive (calls : Calls) (nc : ℤ) (nacts j i : ℕ) : Except ℕ ℕ := do
  let j := if j ≥ nacts then 0 else j
  let spawn := Spawn.blt i (if nc = 0 then none else some ((i : ℤ).tmod nc)) false j
  check (calls.pipSpawn spawn ≠ 0) exitFail
  check (calls.taskqEmpty spawn) exitFail
  return j + 1

/-- The body of the second spawn loop. -/
def spawnActive (calls : Calls) (nc : ℤ) (j i : ℕ) : Except ℕ ℕ := do
  let spawn := Spawn.blt i (if nc = 0 then none else some ((i : ℤ).tmod nc + 1)) true j
  check (calls.pipSpawn spawn ≠ 0) exitFail
  check (!calls.taskqEmpty spawn) exitFail
  return j + 1

/-- main of pip_blt, for tasks with the given final statuses. -/
def pipBlt (args : Args) (calls : Calls) (nacts npass : ℤ) (tasks : List WaitStatus) : Except ℕ ℕ := do
  check (args.argc < 4) exitUntested
  check (nacts < 0 || nacts > args.ntasksMax) exitUntested
  check (npass < 0 || npass > args.ntasksMax) exitUntested
  let ntasks := nacts + npass
  check (ntasks ≤ 0 || ntasks > args.ntasksMax) exitUntested
  check (args.ntenv.any (ntasks > ·)) exitUntested
  check (calls.pipInit ≠ 0) exitFail
  let ncpus ← getNcpus calls
  let nc := ncpus - 1
  let _ ← (List.range npass.toNat).foldlM (spawnInactive calls nc nacts.toNat) 0
  let _ ← (List.range' npass.toNat nacts.toNat).foldlM (spawnActive calls nc) 0
  let err ← waitTasks calls 0 0 tasks
  check (calls.pipFin ≠ 0) exitFail
  return err

/-- The arguments ask for ntasks tasks and pass the checks of main. -/
def Args.Accept (args : Args) (argcMin ntasks : ℕ) : Prop :=
  argcMin ≤ args.argc ∧ 0 < ntasks ∧ ntasks ≤ args.ntasksMax ∧ ∀ n ∈ args.ntenv, (ntasks : ℤ) ≤ n

/-- The calls before the first spawn succeed. -/
def Calls.Start (calls : Calls) : Prop :=
  calls.fork = true ∧ calls.pipInit = 0 ∧ calls.ncpus.isSome = true

/-- The calls that follow succeed. -/
def Calls.Succeed (calls : Calls) : Prop :=
  (∀ spawn, calls.pipSpawn spawn = 0) ∧ (∀ i core, calls.pipid (.task i core) = i) ∧
    (∀ i core active j, calls.taskqEmpty (.blt i core active j) = active) ∧
    (∀ i, calls.pipWait i = 0) ∧ calls.pipFin = 0 ∧ calls.rootSignal = none

/-- The task was signalled, or exited with EXIT_FAIL or a status that is not an exit code. -/
def Failed : WaitStatus → Prop
  | .exited code => code.val = exitFail ∨ exitKilled < code.val
  | .signaled _ => True

/-- The task exited with a code that counts neither as a pass nor as a failure. -/
def Masks : WaitStatus → Prop
  | .exited code => code.val ∈ [exitXpass, exitXfail, exitUntested, exitUnsupported, exitKilled]
  | .signaled _ => False

/-- What the exit status of a launcher tells about its tasks: it is a pass when all of them pass, never
a pass beside a failed task, and a failure if no task before a failed one has another code to report. -/
def Reports (calls : Calls) (tasks : List WaitStatus) (exit : ℕ) : Prop :=
  (calls.Succeed → (∀ task ∈ tasks, task = .exitZero) → exit = exitPass) ∧
  ∀ before task after, tasks = before ++ task :: after → Failed task →
    exit ≠ exitPass ∧ ((∀ earlier ∈ before, ¬ Masks earlier) → (Status.ofExit exit).IsFailure)

/-- The first status of a task that is not zero. -/
def firstNonzero (tasks : List WaitStatus) : ℕ := ((tasks.map extvalOf).find? (· ≠ 0)).getD 0

/-- A launcher stops early with EXIT_FAIL only, where a call fails. -/
def CallFailed (calls : Calls) (code : ℕ) : Prop := code = exitFail ∧ ¬ calls.Succeed

section Loops
variable {calls : Calls}

lemma waitTasks_ends (i err : ℕ) (tasks : List WaitStatus) :
    Ends (waitTasks calls i err tasks) (CallFailed calls)
      (· = if err = 0 then firstNonzero tasks else err) := by
  induction tasks generalizing i err with
  | nil =>
    by_cases herr : err = 0 <;> simp [waitTasks, Ends, firstNonzero, herr]
  | cons task tasks ih =>
    refine Ends.check_bind (fun h => ⟨rfl, fun hall => ?_⟩) fun _ => (ih _ _).mono fun e he => ?_
    · simp [hall.2.2.2.1 i] at h
    · rw [he]
      by_cases herr : err = 0 <;> by_cases hval : extvalOf task = 0 <;> simp [firstNonzero, herr, hval]

lemma spawnTask_ends (nc : ℤ) (i : ℕ) : Ends (spawnTask calls nc i) (CallFailed calls) fun _ => True := by
  refine Ends.check_bind (fun h => ⟨rfl, fun hall => ?_⟩) fun _ =>
    (Ends.check fun h => ⟨rfl, fun hall => ?_⟩).mono fun _ _ => trivial
  · simp [hall.1] at h
  · simp [hall.2.1] at h

lemma spawnInactive_ends (nc : ℤ) (nacts j i : ℕ) :
    Ends (spawnInactive calls nc nacts j i) (CallFailed calls) fun _ => True := by
  refine Ends.check_bind (fun h => ⟨rfl, fun hall => ?_⟩) fun _ =>
    Ends.check_bind (fun h => ⟨rfl, fun hall => ?_⟩) fun _ => trivial
  · simp [hall.1] at h
  · simp [hall.2.2.1] at h

lemma spawnActive_ends (nc : ℤ) (j i : ℕ) :
    Ends (spawnActive calls nc j i) (CallFailed calls) fun _ => True := by
  refine Ends.check_bind (fun h => ⟨rfl, fun hall => ?_⟩) fun _ =>
    Ends.check_bind (fun h => ⟨rfl, fun hall => ?_⟩) fun _ => trivial
  · simp [hall.1] at h
  · simp [hall.2.2.1] at h

/-- The wait loop and the pip_fin behind it. -/
lemma waitAndFin_ends (tasks : List WaitStatus) :
    Ends (do
      let err ← waitTasks calls 0 0 tasks
      check (calls.pipFin ≠ 0) exitFail
      return err) (CallFailed calls) (· = firstNonzero tasks) := by
  refine (waitTasks_ends 0 0 tasks).bind fun err herr =>
    Ends.check_bind (fun h => ⟨rfl, fun hall => ?_⟩) fun _ => ?_
  · simp [hall.2.2.2.2.1] at h
  · exact Ends.pure (by simpa using herr)

lemma getNcpus_ends (h : calls.Start) : Ends (getNcpus calls) (CallFailed calls) fun _ => True := by
  obtain ⟨n, hn⟩ := Option.isSome_iff_exists.mp h.2.2
  rw [getNcpus, hn]
  trivial

lemma spawnTasks_ends (h : calls.Start) (tasks : List WaitStatus) :
    Ends (spawnTasks calls tasks) (CallFailed calls) (· = firstNonzero tasks) := by
  refine Ends.check_bind (fun hinit => ?_) fun _ => (getNcpus_ends h).bind fun ncpus _ => ?_
  · simp [h.2.1] at hinit
  · exact (Ends.foldlM _ (fun _ i _ _ => spawnTask_ends _ i) trivial).bind fun _ _ =>
      waitAndFin_ends tasks

lemma any_ntenv {ntenv : Option ℤ} {ntasks : ℤ} (h : ∀ n ∈ ntenv, ntasks ≤ n) :
    ntenv.any (ntasks > ·) = false := by
  cases ntenv with
  | none => rfl
  | some n => simpa using h n rfl

lemma pipTask_ends {args : Args} {tasks : List WaitStatus} (hargs : args.Accept 3 tasks.length)
    (h : calls.Start) :
    Ends (pipTask args calls tasks.length tasks) (CallFailed calls)
      fun code => CallFailed calls code ∨ code = codeOrFail (firstNonzero tasks) := by
  obtain ⟨hargc, hpos, hmax, hntenv⟩ := hargs
  refine Ends.check_bind (fun hc => ?_) fun _ => Ends.check_bind (fun hc => ?_) fun _ =>
    Ends.check_bind (fun hc => ?_) fun _ => Ends.check_bind (fun hc => ?_) fun _ => ?_
  · simp at hc
    omega
  · simp only [Bool.or_eq_true, decide_eq_true_eq] at hc
    omega
  · rw [any_ntenv hntenv] at hc
    contradiction
  · simp [h.1] at hc
  · cases hsignal : calls.rootSignal with
    | some sig => exact .inl ⟨rfl, fun hall => by simp [hall.2.2.2.2.2] at hsignal⟩
    | none =>
      obtain ⟨hfail, hall⟩ | hok := (spawnTasks_ends h tasks).mainStatus
      · exact .inl ⟨by rw [hfail]; rfl, hall⟩
      · exact .inr (by rw [hok])

lemma pipBlt_ends {args : Args} {nacts npass : ℤ} {tasks : List WaitStatus} (hacts : 0 ≤ nacts)
    (hpass : 0 ≤ npass) (hsum : nacts + npass = tasks.length) (hargs : args.Accept 4 tasks.length)
    (h : calls.Start) :
    Ends (pipBlt args calls nacts npass tasks) (CallFailed calls) (· = firstNonzero tasks) := by
  obtain ⟨hargc, hpos, hmax, hntenv⟩ := hargs
  refine Ends.check_bind (fun hc => ?_) fun _ => Ends.check_bind (fun hc => ?_) fun _ =>
    Ends.check_bind (fun hc => ?_) fun _ => Ends.check_bind (fun hc => ?_) fun _ =>
    Ends.check_bind (fun hc => ?_) fun _ => Ends.check_bind (fun hc => ?_) fun _ =>
    (getNcpus_ends h).bind fun ncpus _ => ?_
  · simp at hc
    omega
  · simp at hc
    omega
  · simp at hc
    omega
  · simp at hc
    omega
  · rw [hsum, any_ntenv hntenv] at hc
    contradiction
  · simp [h.2.1] at hc
  · refine (Ends.foldlM _ (fun j i _ _ => spawnInactive_ends _ _ j i) trivial).bind fun _ _ => ?_
    refine (Ends.foldlM _ (fun j i _ _ => spawnActive_ends _ j i) trivial).bind fun _ _ => ?_
    exact waitAndFin_ends tasks

end Loops

lemma Failed.extvalOf_ne_zero {task : WaitStatus} (h : Failed task) : extvalOf task ≠ 0 := by
  cases task with
  | exited code =>
    simp only [Failed, exitFail, exitKilled, extvalOf] at h ⊢
    omega
  | signaled sig => simp [extvalOf, exitUnresolved]

lemma Failed.not_masks {task : WaitStatus} (h : Failed task) : ¬ Masks task := by
  cases task with
  | exited code =>
    simp only [Failed, Masks, exitFail, exitKilled, exitXpass, exitXfail, exitUntested, exitUnsupported,
      List.mem_cons, List.not_mem_nil, or_false] at h ⊢
    omega
  | signaled sig => exact id

/-- A status that is not zero and masks nothing counts as a failure. -/
lemma isFailure_extvalOf {task : WaitStatus} (hne : extvalOf task ≠ 0) (h : ¬ Masks task) :
    (Status.ofExit (extvalOf task)).IsFailure := by
  rw [Status.isFailure_ofExit_iff]
  cases task with
  | exited code =>
    simp only [Masks, extvalOf, exitFail, exitKilled, exitXpass, exitXfail, exitUntested, exitUnsupported,
      exitUnresolved, List.mem_cons, List.not_mem_nil, or_false] at h hne ⊢
    omega
  | signaled sig => exact .inr (.inl rfl)

lemma firstNonzero_eq_zero {tasks : List WaitStatus} (h : ∀ task ∈ tasks, task = .exitZero) :
    firstNonzero tasks = 0 := by
  have hnone : (tasks.map extvalOf).find? (· ≠ 0) = none := by
    rw [List.find?_eq_none]
    intro v hv
    obtain ⟨task, htask, rfl⟩ := List.mem_map.mp hv
    simp [h task htask, extvalOf]
  simp only [firstNonzero, hnone, Option.getD_none]

/-- Where a task has a status that is not zero, the first one is that of this task or of an earlier one. -/
lemma firstNonzero_split {before after : List WaitStatus} {task : WaitStatus} (h : extvalOf task ≠ 0) :
    ∃ first ∈ before ++ [task], extvalOf first ≠ 0 ∧
      firstNonzero (before ++ task :: after) = extvalOf first := by
  induction before with
  | nil => exact ⟨task, by simp, h, by simp [firstNonzero, h]⟩
  | cons b before ih =>
    by_cases hb : extvalOf b = 0
    · obtain ⟨first, hmem, hne, heq⟩ := ih
      exact ⟨first, by rw [List.cons_append]; exact List.mem_cons_of_mem b hmem, hne, by simpa [firstNonzero, hb] using heq⟩
    · exact ⟨b, by simp, hb, by simp [firstNonzero, hb]⟩

lemma codeOrFail_cases (v : ℕ) : (v ≤ exitKilled ∧ codeOrFail v = v) ∨ (exitKilled < v ∧ codeOrFail v = exitFail) := by
  have hmem : v ∈ [exitPass, exitFail, exitXpass, exitXfail, exitUnresolved, exitUntested, exitUnsupported,
      exitKilled] ↔ v ≤ exitKilled := by
    simp only [exitPass, exitFail, exitXpass, exitXfail, exitUnresolved, exitUntested, exitUnsupported,
      exitKilled, List.mem_cons, List.not_mem_nil, or_false]
    omega
  by_cases h : v ≤ exitKilled
  · exact .inl ⟨h, by rw [codeOrFail, if_pos (hmem.mpr h)]⟩
  · exact .inr ⟨by omega, by rw [codeOrFail, if_neg (h ∘ hmem.mp)]⟩

/-- The switch of pip_task changes neither a pass nor a failure into anything else. -/
lemma reports_code {calls : Calls} {tasks : List WaitStatus} {exit : ℕ}
    (h : CallFailed calls exit ∨ exit = firstNonzero tasks ∨ exit = codeOrFail (firstNonzero tasks)) :
    Reports calls tasks exit := by
  constructor
  · intro hall hpass
    have hzero := firstNonzero_eq_zero hpass
    obtain ⟨-, hnot⟩ | h | h := h
    · exact absurd hall hnot
    · rw [h, hzero]
      rfl
    · rw [h, hzero]
      rfl
  · rintro before task after rfl hfailed
    obtain ⟨first, hmem, hne, hfirst⟩ := @firstNonzero_split before after task hfailed.extvalOf_ne_zero
    have hfail : (Status.ofExit exitFail).IsFailure := .inl rfl
    rw [hfirst] at h
    have hclear : (∀ earlier ∈ before, ¬ Masks earlier) → (Status.ofExit (extvalOf first)).IsFailure := by
      intro hbefore
      refine isFailure_extvalOf hne ?_
      obtain hmem | hmem := List.mem_append.mp hmem
      · exact hbefore first hmem
      · rw [List.mem_singleton.mp hmem]
        exact hfailed.not_masks
    obtain ⟨rfl, -⟩ | rfl | rfl := h
    · exact ⟨by decide, fun _ => hfail⟩
    · exact ⟨hne, hclear⟩
    · obtain ⟨-, hcode⟩ | ⟨-, hcode⟩ := codeOrFail_cases (extvalOf first)
      · rw [hcode]
        exact ⟨hne, hclear⟩
      · rw [hcode]
        exact ⟨by decide, fun _ => hfail⟩

/-- Either launcher, with the command line checks passed and the first spawn reached. -/
theorem launchers_report (args : Args) (calls : Calls) (tasks : List WaitStatus) (hstart : calls.Start) :
    (args.Accept 3 tasks.length → Reports calls tasks (mainStatus (pipTask args calls tasks.length tasks))) ∧
    ∀ nacts npass : ℤ, 0 ≤ nacts → 0 ≤ npass → nacts + npass = tasks.length →
      args.Accept 4 tasks.length → Reports calls tasks (mainStatus (pipBlt args calls nacts npass tasks)) := by
  constructor
  · intro hargs
    obtain h | h | h := (pipTask_ends hargs hstart).mainStatus
    · exact reports_code (.inl h)
    · exact reports_code (.inl h)
    · exact reports_code (.inr (.inr h))
  · intro nacts npass hacts hpass hsum hargs
    obtain h | h := (pipBlt_ends hacts hpass hsum hargs hstart).mainStatus
    · exact reports_code (.inl h)
    · exact reports_code (.inr (.inl h))

/-- All calls of a launcher with two cores succeed. -/
def plainCalls : Calls where
  fork := true
  pipInit := 0
  ncpus := some 2
  pipSpawn _ := 0
  pipid
    | .task i _ => i
    | .blt i _ _ _ => i
  taskqEmpty
    | .task _ _ => true
    | .blt _ _ active _ => active
  pipWait _ := 0
  pipFin := 0
  rootSignal := none

theorem launchers_report_three :
    Reports plainCalls [.exited 0, .signaled 11, .exited 200]
        (mainStatus (pipTask ⟨3, none, 300⟩ plainCalls 3 [.exited 0, .signaled 11, .exited 200])) ∧
      Reports plainCalls [.exited 0, .signaled 11, .exited 200]
        (mainStatus (pipBlt ⟨4, none, 300⟩ plainCalls 1 2 [.exited 0, .signaled 11, .exited 200])) := by
  have hstart : plainCalls.Start := ⟨rfl, rfl, rfl⟩
  have hargs : ∀ argc : ℕ, Args.Accept ⟨argc, none, 300⟩ argc 3 := fun argc =>
    ⟨le_refl argc, by omega, by norm_num, by simp⟩
  constructor
  · exact (launchers_report ⟨3, none, 300⟩ plainCalls _ hstart).1 (hargs 3)
  · exact (launchers_report ⟨4, none, 300⟩ plainCalls _ hstart).2 1 2 (by omega) (by omega) rfl (hargs 4)

/-- The first task is untested and the second one fails: both launchers exit with EXIT_UNTESTED. -/
theorem untested_masks_failed :
    Failed (.exited 1) ∧
      mainStatus (pipTask ⟨3, none, 300⟩ plainCalls 2 [.exited 5, .exited 1]) = exitUntested ∧
      mainStatus (pipBlt ⟨4, none, 300⟩ plainCalls 1 1 [.exited 5, .exited 1]) = exitUntested := by
  refine ⟨.inl rfl, ?_, ?_⟩ <;> decide

/-- Both launchers end with one and the same exit code. -/
def Agree (task blt : ℕ) : Prop := task = blt ∧ task ≤ exitKilled ∧ blt ≤ exitKilled

/-- The first task that does not exit with 0, if it exits at all, exits with an exit code. -/
def FirstIsCode (tasks : List WaitStatus) : Prop :=
  ∀ before code after, tasks = before ++ .exited code :: after → (∀ task ∈ before, task = .exitZero) →
    code.val ≤ exitKilled

lemma extvalOf_eq_zero {task : WaitStatus} : extvalOf task = 0 ↔ task = .exitZero := by
  cases task with
  | exited code =>
    simp only [extvalOf, WaitStatus.exited.injEq]
    exact ⟨fun h => Fin.ext h, fun h => by rw [h]; rfl⟩
  | signaled sig => simp [extvalOf, exitUnresolved]

/-- A task that exits with 0 does not count. -/
lemma firstIsCode_zero_cons (tasks : List WaitStatus) : FirstIsCode (.exitZero :: tasks) ↔ FirstIsCode tasks := by
  constructor
  · rintro h before code after rfl hzero
    refine h (.exitZero :: before) code after rfl fun task htask => ?_
    obtain rfl | htask := List.mem_cons.mp htask
    · rfl
    · exact hzero task htask
  · intro h before code after hsplit hzero
    cases before with
    | nil =>
      have hcode : code = 0 := WaitStatus.exited.inj (List.cons.inj hsplit).1.symm
      rw [hcode]
      exact Nat.zero_le _
    | cons b before =>
      exact h before code after (List.cons.inj hsplit).2 fun task htask => hzero task (List.mem_cons_of_mem b htask)

/-- A task that does not exit with 0 is the first one to count. -/
lemma firstIsCode_cons {task : WaitStatus} (hne : task ≠ .exitZero) (tasks : List WaitStatus) :
    FirstIsCode (task :: tasks) ↔ extvalOf task ≤ exitKilled := by
  constructor
  · intro h
    cases task with
    | exited code => exact h [] code tasks rfl (by simp)
    | signaled sig => exact (by decide : exitUnresolved ≤ exitKilled)
  · intro h before code after hsplit hzero
    cases before with
    | nil =>
      rw [(List.cons.inj hsplit).1] at h
      exact h
    | cons b before =>
      obtain rfl := (List.cons.inj hsplit).1
      exact absurd (hzero task List.mem_cons_self) hne

lemma firstNonzero_le_iff (tasks : List WaitStatus) : firstNonzero tasks ≤ exitKilled ↔ FirstIsCode tasks := by
  induction tasks with
  | nil => simp [firstNonzero, FirstIsCode]
  | cons task tasks ih =>
    by_cases hzero : extvalOf task = 0
    · have hfirst : firstNonzero (task :: tasks) = firstNonzero tasks := by simp [firstNonzero, hzero]
      rw [hfirst, extvalOf_eq_zero.mp hzero, firstIsCode_zero_cons, ih]
    · have hfirst : firstNonzero (task :: tasks) = extvalOf task := by simp [firstNonzero, hzero]
      rw [hfirst, firstIsCode_cons fun h => hzero (extvalOf_eq_zero.mpr h)]

/-- Where all calls succeed, exactly when the status that pip_blt hands on is a code. -/
theorem launchers_agree_iff (args args' : Args) (calls calls' : Calls) (tasks : List WaitStatus) (nacts npass : ℤ)
    (hacts : 0 ≤ nacts) (hpass : 0 ≤ npass) (hsum : nacts + npass = tasks.length)
    (hargs : args.Accept 3 tasks.length) (hargs' : args'.Accept 4 tasks.length) (hstart : calls.Start)
    (hstart' : calls'.Start) (hcalls : calls.Succeed) (hcalls' : calls'.Succeed) :
    Agree (mainStatus (pipTask args calls tasks.length tasks)) (mainStatus (pipBlt args' calls' nacts npass tasks)) ↔
      FirstIsCode tasks := by
  have htask : mainStatus (pipTask args calls tasks.length tasks) = codeOrFail (firstNonzero tasks) := by
    obtain ⟨-, h⟩ | ⟨-, h⟩ | h := (pipTask_ends hargs hstart).mainStatus
    · exact absurd hcalls h
    · exact absurd hcalls h
    · exact h
  have hblt : mainStatus (pipBlt args' calls' nacts npass tasks) = firstNonzero tasks := by
    obtain ⟨-, h⟩ | h := (pipBlt_ends hacts hpass hsum hargs' hstart').mainStatus
    · exact absurd hcalls' h
    · exact h
  rw [htask, hblt, ← firstNonzero_le_iff]
  obtain ⟨hle, hcode⟩ | ⟨hlt, hcode⟩ := codeOrFail_cases (firstNonzero tasks)
  · exact iff_of_true ⟨hcode, by rw [hcode]; exact hle, hle⟩ hle
  · refine iff_of_false (fun h => ?_) (by omega)
    have hle := h.2.2
    omega

lemma plainCalls_succeed : plainCalls.Succeed := ⟨fun _ => rfl, fun _ _ => rfl, fun _ _ _ _ => rfl, fun _ => rfl, rfl, rfl⟩

theorem launchers_agree_three :
    Agree (mainStatus (pipTask ⟨3, none, 300⟩ plainCalls 3 [.exited 0, .signaled 11, .exited 200]))
      (mainStatus (pipBlt ⟨4, none, 300⟩ plainCalls 1 2 [.exited 0, .signaled 11, .exited 200])) := by
  have hargs : ∀ argc : ℕ, Args.Accept ⟨argc, none, 300⟩ argc 3 := fun argc =>
    ⟨le_refl argc, by omega, by norm_num, by simp⟩
  refine (launchers_agree_iff ⟨3, none, 300⟩ ⟨4, none, 300⟩ plainCalls plainCalls
    [.exited 0, .signaled 11, .exited 200] 1 2 (by omega) (by omega) rfl (hargs 3) (hargs 4) ⟨rfl, rfl, rfl⟩
    ⟨rfl, rfl, rfl⟩ plainCalls_succeed plainCalls_succeed).mpr ?_
  rw [← firstNonzero_le_iff]
  decide

/-- One task that exits with 9: pip_task makes EXIT_FAIL of it, pip_blt hands it on. -/
theorem launchers_differ : plainCalls.Succeed ∧
    ¬ Agree (mainStatus (pipTask ⟨3, none, 300⟩ plainCalls 1 [.exited 9]))
      (mainStatus (pipBlt ⟨4, none, 300⟩ plainCalls 1 0 [.exited 9])) := by
  have htask : mainStatus (pipTask ⟨3, none, 300⟩ plainCalls 1 [.exited 9]) = exitFail := by decide
  have hblt : mainStatus (pipBlt ⟨4, none, 300⟩ plainCalls 1 0 [.exited 9]) = 9 := by decide
  rw [htask, hblt]
  exact ⟨plainCalls_succeed, fun h => absurd h.1 (by decide)⟩

end PipTestsuite.Launcher
