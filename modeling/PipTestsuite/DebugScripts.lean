import PipTestsuite.ExitCode
import PipTestsuite.Lib.Checked

/-! debug/debug_on_signal.sh and debug/stop_on_start.sh: scripts that decide whether to launch a program, and
make a verdict of the status with which it ends. -/
namespace PipTestsuite.DebugScripts
open Checked

/-- What comes of launching a program: its file is not found or not executable, or it ends with a status. -/
inductive Launch where
  | notFound
  | notExecutable
  | ended (status : Fin 256)
  deriving DecidableEq

/-- The status that the shell has of it. -/
def Launch.status : Launch → ℕ
  | notFound => 127
  | notExecutable => 126
  | ended status => status

/-- The variables that the scripts read, and what the files and commands of the system are. -/
structure Env where
  ptraceEnable : Word
  /-- EXIT_UNTESTED as the environment has it, where exit_code.sh.inc is not yet read -/
  exitUntested : Option (Fin 256)
  /-- what PIP_MODE_CMD prints -/
  pipMode : Word
  pipGdb : Word
  pipGdbPath : Word
  pipBindir : Word
  /-- whether check_ptrace succeeds -/
  checkPtrace : Bool
  /-- whether a word succeeds as a command -/
  succeeds : Word → Bool
  /-- whether type -P finds a word -/
  typeP : Word → Bool
  /-- test -x -/
  executable : Word → Bool
  launch : Launch

/-- A word of a variable as a command; the empty one succeeds. -/
def Env.runs (env : Env) (word : Word) : Bool := word = [] || env.succeeds word

def pthread : Word := "pthread".toList

/-- PIP_GDB_PATH as check_gdb.sh.inc sets it. -/
def pipGdbPath (env : Env) : Word :=
  if env.pipGdb ≠ [] ∧ env.executable env.pipGdb then env.pipGdb
  else if env.pipGdbPath ≠ [] ∧ env.executable env.pipGdbPath then env.pipGdbPath
  else if env.executable (env.pipBindir ++ "/pip-gdb".toList) then env.pipBindir ++ "/pip-gdb".toList
  else env.pipGdbPath

def checkGdb (env : Env) : Except ℕ Unit :=
  check (pipGdbPath env = [] || !env.executable (pipGdbPath env)) exitUntested

/-- The status of a script, and the launch if it comes to one. -/
structure Outcome where
  exit : ℕ
  launch : Option Launch
  deriving DecidableEq

/-- The test numbers. -/
def testNumbers : List Word := [['0'], ['1'], ['2'], ['3'], ['4'], ['5'], ['6'], ['7']]

/-- debug_on_signal.sh up to the launch. EXIT_UNTESTED is used before it is set, and EXIT_SUPPORETD never is; an
exit without a number gives the status of what came before. -/
def debugGuards (env : Env) (tst : Word) : Except ℕ Unit := do
  check (!env.runs env.ptraceEnable) (env.exitUntested.elim 0 Fin.val)
  check (env.pipMode = pthread) exitUnsupported
  check (tst = []) exitUntested
  check (!env.checkPtrace) exitUntested
  check (env.pipMode = pthread) 0
  checkGdb env
  check (!testNumbers.contains tst) exitFail

def debugOnSignal (env : Env) (tst : Word) : Outcome :=
  match debugGuards env tst with
  | .error code => ⟨code, none⟩
  | .ok () =>
    let extval := env.launch.status
    ⟨if extval = 0 then exitFail else exitPass, some env.launch⟩

/-- The commands that need ptrace. -/
def ptraceCommands : List Word := ["pip-gdb".toList, "ltrace".toList, "strace".toList, "perf".toList]

/-- stop_on_start.sh up to the launch. -/
def stopGuards (env : Env) (flagPipgdb command : Word) : Except ℕ Unit := do
  check (env.pipMode = pthread) exitUnsupported
  check (command ≠ [] && !env.typeP command) exitUntested
  let flagPtrace := ptraceCommands.contains command
  check ((env.runs flagPipgdb || flagPtrace) && !env.checkPtrace) exitUntested
  if env.runs flagPipgdb then checkGdb env

/-- Under set -e the script ends with the status of wait where it is not 0. -/
def stopOnStart (env : Env) (flagPipgdb command : Word) : Outcome :=
  match stopGuards env flagPipgdb command with
  | .error code => ⟨code, none⟩
  | .ok () =>
    if env.launch.status ≠ 0 then ⟨env.launch.status, some env.launch⟩
    else
      let extval := env.launch.status
      ⟨if extval > 0 then exitFail else exitPass, some env.launch⟩

/-- The verdict of a script is one that it has earned, if the launched program is to end as expected. Where none has
run, as it was not launched or could not be started, the verdict says so or is a failure. -/
structure Earned (expected : ℕ → Prop) (o : Outcome) : Prop where
  pass : o.exit = exitPass → ∃ status, o.launch = some (.ended status) ∧ expected status
  fail : ∀ status, o.launch = some (.ended status) → ¬ expected status → o.exit = exitFail
  notRun : (∀ status, o.launch ≠ some (.ended status)) → o.exit ∈ [exitUntested, exitUnsupported, exitFail]
  notRaw : ∀ status, o.launch = some (.ended status) → o.exit = exitPass ∨ o.exit = exitFail

/-- pip-gdb is found. -/
def GdbFound (env : Env) : Prop := pipGdbPath env ≠ [] ∧ env.executable (pipGdbPath env) = true

/-- debug_on_signal.sh comes to the launch. -/
structure DebugLaunches (env : Env) (tst : Word) : Prop where
  ptrace : env.runs env.ptraceEnable = true
  mode : env.pipMode ≠ pthread
  checkPtrace : env.checkPtrace = true
  gdb : GdbFound env
  number : tst ∈ testNumbers

/-- stop_on_start.sh comes to the launch. -/
structure StopLaunches (env : Env) (flagPipgdb command : Word) : Prop where
  mode : env.pipMode ≠ pthread
  found : command = [] ∨ env.typeP command = true
  checkPtrace : env.runs flagPipgdb = true ∨ command ∈ ptraceCommands → env.checkPtrace = true
  gdb : env.runs flagPipgdb = true → GdbFound env

section Guards
variable {env : Env}

lemma checkGdb_eq_ok : checkGdb env = .ok () ↔ GdbFound env := by
  simp [checkGdb, GdbFound]

lemma debugGuards_eq_ok {tst : Word} : debugGuards env tst = .ok () ↔ DebugLaunches env tst := by
  have hempty : [] ∉ testNumbers := by decide
  simp only [debugGuards, bind_eq_ok, check_eq_ok, checkGdb_eq_ok, Bool.not_eq_false', decide_eq_false_iff_not,
    List.contains_iff_mem]
  constructor
  · rintro ⟨hptrace, hmode, -, hcheck, -, hgdb, hnumber⟩
    exact ⟨hptrace, hmode, hcheck, hgdb, hnumber⟩
  · intro h
    exact ⟨h.ptrace, h.mode, fun hnil => hempty (hnil ▸ h.number), h.checkPtrace, h.mode, h.gdb, h.number⟩

lemma stopGuards_eq_ok {flagPipgdb command : Word} :
    stopGuards env flagPipgdb command = .ok () ↔ StopLaunches env flagPipgdb command := by
  have hgdb : (if env.runs flagPipgdb = true then checkGdb env else pure ()) = .ok () ↔
      (env.runs flagPipgdb = true → GdbFound env) := by
    split <;> rename_i hflag
    · rw [checkGdb_eq_ok, forall_prop_of_true hflag]
    · simp [hflag, pure_eq_ok]
  simp only [stopGuards, bind_eq_ok, check_eq_ok, hgdb, decide_eq_false_iff_not, List.contains_eq_mem]
  constructor
  · rintro ⟨hmode, hfound, hcheck, hgdb⟩
    exact ⟨hmode, by grind, by grind, hgdb⟩
  · intro h
    exact ⟨h.mode, by grind [h.found], by grind [h.checkPtrace], h.gdb⟩

/-- The codes of a script that has decided not to launch anything. -/
def Declines (code : ℕ) : Prop := code ∈ [exitUntested, exitUnsupported, exitFail]

instance (code : ℕ) : Decidable (Declines code) :=
  inferInstanceAs (Decidable (code ∈ [exitUntested, exitUnsupported, exitFail]))

lemma checkGdb_ends : Ends (checkGdb env) Declines fun _ => True :=
  (Ends.check fun _ => by decide).mono fun _ _ => trivial

/-- Where ptrace is enabled; the second look at the mode, with the unset code, finds what the first has found. -/
lemma debugGuards_ends {tst : Word} (hptrace : env.runs env.ptraceEnable = true) :
    Ends (debugGuards env tst) Declines fun _ => True := by
  refine Ends.check_bind (fun hnot => ?_) fun _ => ?_
  · simp [hptrace] at hnot
  refine Ends.check_bind (fun _ => by decide) fun hmode => ?_
  refine Ends.check_bind (fun _ => by decide) fun _ => Ends.check_bind (fun _ => by decide) fun _ => ?_
  refine Ends.check_bind (fun hagain => ?_) fun _ => checkGdb_ends.bind fun _ _ => ?_
  · rw [hmode] at hagain
    cases hagain
  · exact (Ends.check fun _ => by decide).mono fun _ _ => trivial

lemma stopGuards_ends (flagPipgdb command : Word) :
    Ends (stopGuards env flagPipgdb command) Declines fun _ => True := by
  refine Ends.check_bind (fun _ => by decide) fun _ => Ends.check_bind (fun _ => by decide) fun _ => ?_
  refine Ends.check_bind (fun _ => by decide) fun _ => ?_
  split
  · exact checkGdb_ends
  · exact Ends.pure trivial

end Guards

section Verdicts
variable {expected : ℕ → Prop} {env : Env}

/-- A verdict where no program has run. -/
lemma earned_notRun {code : ℕ} {launch : Option Launch} (hlaunch : ∀ status, launch ≠ some (.ended status)) :
    Earned expected ⟨code, launch⟩ ↔ Declines code := by
  constructor
  · intro h
    exact h.notRun hlaunch
  · intro h
    have hpass : ¬ Declines exitPass := by decide
    refine ⟨fun hcode => ?_, fun status hs => absurd hs (hlaunch status), fun _ => h,
      fun status hs => absurd hs (hlaunch status)⟩
    subst hcode
    exact absurd h hpass

lemma earned_none {code : ℕ} : Earned expected ⟨code, none⟩ ↔ Declines code := earned_notRun (by simp)

/-- A verdict on a program that ends with a status. -/
lemma earned_ended {code : ℕ} {status : Fin 256} : Earned expected ⟨code, some (.ended status)⟩ ↔
    (code = exitPass ∧ expected status) ∨ code = exitFail := by
  constructor
  · intro h
    rcases h.notRaw status rfl with hpass | hfail
    · obtain ⟨status', hs, hexp⟩ := h.pass hpass
      cases hs
      exact .inl ⟨hpass, hexp⟩
    · exact .inr hfail
  · intro h
    have hne : exitFail ≠ exitPass := by decide
    refine ⟨fun hcode => ⟨status, rfl, ?_⟩, fun status' hs hnot => ?_, fun hnot => ?_, fun _ _ => ?_⟩
    · exact (h.resolve_right fun hfail => hne (hfail.symm.trans hcode)).2
    · cases hs
      exact h.resolve_left fun hpass => hnot hpass.2
    · exact absurd rfl (hnot status)
    · exact h.imp_left And.left

/-- debug_on_signal.sh earns its verdict on each status, and on none where nothing has run. -/
lemma earned_debug_launch :
    Earned (· ≠ 0) ⟨if env.launch.status = 0 then exitFail else exitPass, some env.launch⟩ ↔
      ∃ status, env.launch = .ended status := by
  cases hlaunch : env.launch with
  | notFound | notExecutable =>
    exact iff_of_false (fun h => absurd ((earned_notRun (by simp)).mp h) (by decide)) (by simp)
  | ended status =>
    rw [Launch.status, earned_ended, iff_true_intro (⟨status, rfl⟩ : ∃ s, Launch.ended status = .ended s), iff_true]
    by_cases hzero : (status : ℕ) = 0
    · exact .inr (if_pos hzero)
    · exact .inl ⟨if_neg hzero, hzero⟩

/-- Under errexit stop_on_start.sh ends with the status of the program, or with that of the shell where it cannot be
started, which is a verdict only where it happens to be 0 or that of a failure. -/
lemma earned_stop_launch :
    Earned (· = 0) ⟨if env.launch.status ≠ 0 then env.launch.status else
      if env.launch.status > 0 then exitFail else exitPass, some env.launch⟩ ↔
      ∃ status, env.launch = .ended status ∧ ((status : ℕ) = 0 ∨ (status : ℕ) = exitFail) := by
  cases hlaunch : env.launch with
  | notFound | notExecutable =>
    exact iff_of_false (fun h => absurd ((earned_notRun (by simp)).mp h) (by decide)) (by simp)
  | ended status =>
    rw [Launch.status, earned_ended]
    constructor
    · intro h
      refine ⟨status, rfl, ?_⟩
      by_cases hzero : (status : ℕ) = 0
      · exact .inl hzero
      · rw [if_pos hzero] at h
        exact h.imp_left And.right
    · rintro ⟨status', hs, hverdict⟩
      cases hs
      by_cases hzero : (status : ℕ) = 0
      · exact .inl ⟨by simp [hzero], hzero⟩
      · exact .inr (by simpa [hzero] using hverdict)

lemma stopOnStart_launch {flagPipgdb command : Word} (hok : stopGuards env flagPipgdb command = .ok ()) :
    stopOnStart env flagPipgdb command = ⟨if env.launch.status ≠ 0 then env.launch.status else
      if env.launch.status > 0 then exitFail else exitPass, some env.launch⟩ := by
  simp only [stopOnStart, hok]
  split <;> rfl

/-- A script whose checks stop it with codes for a launch declined earns its verdict if it does where they let it
launch. -/
lemma earned_iff_of_ends {guards : Except ℕ Unit} {launches earns : Prop} {o : Outcome}
    (hends : Ends guards Declines fun _ => True) (hok : guards = .ok () ↔ launches)
    (hstopped : ∀ code, guards = .error code → o = ⟨code, none⟩)
    (hlaunched : guards = .ok () → (Earned expected o ↔ earns)) : Earned expected o ↔ (launches → earns) := by
  cases hguards : guards with
  | error code =>
    have hnot : ¬ launches := fun h => by simp [hok.mpr h] at hguards
    rw [hguards] at hends
    rw [hstopped code hguards, earned_none]
    exact iff_of_true hends fun h => absurd h hnot
  | ok =>
    rw [forall_prop_of_true (hok.mp hguards)]
    exact hlaunched hguards

lemma earned_debugOnSignal {tst : Word} : Earned (· ≠ 0) (debugOnSignal env tst) ↔
    (env.runs env.ptraceEnable = false → ∃ v ∈ env.exitUntested, Declines v) ∧
    (DebugLaunches env tst → ∃ status, env.launch = .ended status) := by
  cases hptrace : env.runs env.ptraceEnable with
  | false =>
    have hguards : debugGuards env tst = .error (env.exitUntested.elim 0 Fin.val) := by
      simp [debugGuards, hptrace, check, bind, Except.bind]
    have hlaunch : ¬ DebugLaunches env tst := fun h => by simpa [hptrace] using h.ptrace
    rw [and_iff_left fun h => absurd h hlaunch, forall_prop_of_true rfl]
    simp only [debugOnSignal, hguards, earned_none]
    cases env.exitUntested with
    | none => exact iff_of_false (by decide) (by simp)
    | some v => simp
  | true =>
    rw [and_iff_right (by simp)]
    apply earned_iff_of_ends (debugGuards_ends hptrace) debugGuards_eq_ok
    · intro code hguards
      rw [debugOnSignal, hguards]
    · intro hguards
      simp only [debugOnSignal, hguards]
      exact earned_debug_launch

lemma earned_stopOnStart {flagPipgdb command : Word} : Earned (· = 0) (stopOnStart env flagPipgdb command) ↔
    (StopLaunches env flagPipgdb command →
      ∃ status, env.launch = .ended status ∧ ((status : ℕ) = 0 ∨ (status : ℕ) = exitFail)) := by
  apply earned_iff_of_ends (stopGuards_ends flagPipgdb command) stopGuards_eq_ok
  · intro code hguards
    rw [stopOnStart, hguards]
  · intro hguards
    rw [stopOnStart_launch hguards]
    exact earned_stop_launch

end Verdicts

/-- debug_on_signal.sh earns its verdict just where ptrace is enabled or the environment happens to have a code for
the early exit, and the program can be started if it is to be launched; stop_on_start.sh does where the program, if
it is to be launched, can be started and ends with 0 or the status of a failure. -/
theorem earned_iff (env : Env) (tst flagPipgdb command : Word) :
    (Earned (· ≠ 0) (debugOnSignal env tst) ↔
      (env.runs env.ptraceEnable = false → ∃ v ∈ env.exitUntested, Declines v) ∧
      (DebugLaunches env tst → ∃ status, env.launch = .ended status)) ∧
    (Earned (· = 0) (stopOnStart env flagPipgdb command) ↔
      (StopLaunches env flagPipgdb command →
        ∃ status, env.launch = .ended status ∧ ((status : ℕ) = 0 ∨ (status : ℕ) = exitFail))) :=
  ⟨earned_debugOnSignal, earned_stopOnStart⟩

/-- Ptrace is disabled and EXIT_UNTESTED is not in the environment; the program ends with 3. -/
def noPtrace : Env where
  ptraceEnable := "false".toList
  exitUntested := none
  pipMode := "process".toList
  pipGdb := []
  pipGdbPath := []
  pipBindir := []
  checkPtrace := false
  succeeds word := word = "true".toList
  typeP _ := true
  executable _ := false
  launch := .ended ⟨3, by decide⟩

/-- debug_on_signal.sh passes without a launch, and the status of the program becomes that of stop_on_start.sh. -/
theorem not_earned_noPtrace : debugOnSignal noPtrace ['0'] = ⟨exitPass, none⟩ ∧
    ¬ Earned (· ≠ 0) (debugOnSignal noPtrace ['0']) ∧
    stopOnStart noPtrace "false".toList "kill".toList = ⟨3, some (.ended 3)⟩ ∧
    ¬ Earned (· = 0) (stopOnStart noPtrace "false".toList "kill".toList) := by
  have hdebug : debugOnSignal noPtrace ['0'] = ⟨exitPass, none⟩ := by decide
  have hstop : stopOnStart noPtrace "false".toList "kill".toList = ⟨3, some (.ended 3)⟩ := by decide
  refine ⟨hdebug, fun h => ?_, hstop, fun h => ?_⟩
  · rw [hdebug, earned_none] at h
    revert h
    decide
  · rw [hstop, earned_ended] at h
    revert h
    decide

end PipTestsuite.DebugScripts
