import PipTestsuite.TestSh.Options
import PipTestsuite.Lib.RotatingLog

/-! One run of test.sh over a tree of test lists. A process has its shell variables; all processes
of a run share the summary file, the error log, the XML log and the test.log of each directory.
The commands under test are outside: the k-th command that a run executes has the k-th outcome. -/
namespace PipTestsuite.TestSh
open RotatingLog

/-- What the execution of a test command leaves: $?, $SECONDS and the three TEST_OUT files. -/
structure Outcome where
  exitStatus : ℕ
  seconds : ℕ := 0
  stdout : List UInt8 := []
  stderr : List UInt8 := []
  time : List UInt8 := []
  deriving DecidableEq

/-- The variables n_PASS, ..., n_KILLED. -/
structure Counters where
  nPass : ℕ := 0
  nFail : ℕ := 0
  nXpass : ℕ := 0
  nXfail : ℕ := 0
  nUnresolved : ℕ := 0
  nUntested : ℕ := 0
  nUnsupported : ℕ := 0
  nKilled : ℕ := 0
  deriving DecidableEq, Repr

namespace Counters

/-- The value of n_$status. -/
def get (n : Counters) : Status → ℕ
  | .pass => n.nPass
  | .fail => n.nFail
  | .xpass => n.nXpass
  | .xfail => n.nXfail
  | .unresolved => n.nUnresolved
  | .untested => n.nUntested
  | .unsupported => n.nUnsupported
  | .killed => n.nKilled

/-- eval "((n_$status=n_$status + 1))" -/
def incr (n : Counters) : Status → Counters
  | .pass => { n with nPass := n.nPass + 1 }
  | .fail => { n with nFail := n.nFail + 1 }
  | .xpass => { n with nXpass := n.nXpass + 1 }
  | .xfail => { n with nXfail := n.nXfail + 1 }
  | .unresolved => { n with nUnresolved := n.nUnresolved + 1 }
  | .untested => { n with nUntested := n.nUntested + 1 }
  | .unsupported => { n with nUnsupported := n.nUnsupported + 1 }
  | .killed => { n with nKilled := n.nKilled + 1 }

/-- The number that print_summary shows as "Total test". -/
def total (n : Counters) : ℕ :=
  n.nPass + n.nFail + n.nXpass + n.nXfail + n.nUnresolved + n.nUntested + n.nUnsupported + n.nKilled

theorem get_incr (n : Counters) (s t : Status) :
    (n.incr s).get t = n.get t + if s = t then 1 else 0 := by
  cases s <;> cases t <;> rfl

theorem total_incr (n : Counters) (s : Status) : (n.incr s).total = n.total + 1 := by
  cases s <;> simp only [incr, total] <;> omega

end Counters

/-- The variables that file_summary saves. -/
structure Summary where
  testLogFile : Word
  testLogXml : Word
  testOutStdout : Word
  testOutStderr : Word
  testOutTime : Word
  n : Counters := {}
  totalTime : ℕ := 0
  deriving DecidableEq

/-- One executed (command, mode) pair. The stamp counts the executions of a run; it stands for the
date lines of the log. -/
structure Exec (Dir : Type*) where
  stamp : ℕ
  dir : Dir
  incFn : Word
  words : List Word
  mode : PipMode
  outcome : Outcome
  deriving DecidableEq

namespace Exec
variable {Dir : Type*}

/-- $CMD: $inc_fn and the words of "$@". -/
def cmd (e : Exec Dir) : Word := e.incFn ++ [' '].intercalate e.words

def status (e : Exec Dir) : Status := Status.ofExit e.outcome.exitStatus

/-- $msg where only the last branch of the case statement sets it. -/
def msg (e : Exec Dir) : Word :=
  if e.outcome.exitStatus ∈ [exitPass, exitFail, exitXpass, exitXfail, exitUnresolved, exitUntested,
      exitUnsupported, exitKilled] then []
  else "exit status ".toList ++ Nat.toDigits 10 e.outcome.exitStatus

/-- $msg after : ${msg:=$status}. -/
def verdict (e : Exec Dir) : Word := if e.msg = [] then e.status.name else e.msg

end Exec

/-- What is appended to a test.log: the lines before and after a test, and the end of a list, with
the printed summary at the top level. -/
inductive LogPart where
  | old (text : Word)
  | start (stamp : ℕ) (cmd modeName : Word)
  | result (stamp : ℕ) (cmd msg : Word) (stdout stderr time : List UInt8)
  | tail (summary : Option Counters)
  deriving DecidableEq

/-- A testcase element of the XML log, and the two lines around all of them. -/
inductive XmlPart where
  | testsuite
  | testcase (cmd modeName : Word) (time : ℕ) (status : Status) (msg : Word) (stdout stderr : List UInt8)
  | endTestsuite
  deriving DecidableEq

/-- The lines of some output, each with its newline. -/
def splitLines : List UInt8 → List (List UInt8)
  | [] => []
  | b :: bs =>
    if b = 10 then [b] :: splitLines bs
    else match splitLines bs with
      | [] => [[b]]
      | l :: ls => (b :: l) :: ls

/-- tail -n -/
def tailLines (n : ℕ) (out : List UInt8) : List UInt8 :=
  ((splitLines out).drop ((splitLines out).length - n)).flatten

/-- An entry of the error log: mode, command, verdict and the ends of the two outputs. -/
structure ErrorEntry where
  mode : PipMode
  words : List Word
  status : Status
  stdout : List UInt8
  stderr : List UInt8
  deriving DecidableEq

def Exec.errorEntry {Dir : Type*} (e : Exec Dir) : ErrorEntry :=
  ⟨e.mode, e.words, e.status, tailLines 100 e.outcome.stdout, tailLines 100 e.outcome.stderr⟩

/-- The files of a run, apart from the summary file. executed is what an observer of the commands
under test sees. -/
structure Files (Dir : Type*) where
  errorLog : Option (List ErrorEntry) := none
  logs : Dir → Log LogPart
  xml : List XmlPart := []
  executed : List (Exec Dir) := []

namespace Files
variable {Dir : Type*} [DecidableEq Dir]

/-- rm -f $ERR_LOG_FILE -/
def rmErrorLog (f : Files Dir) : Files Dir := { f with errorLog := none }

/-- The ERROR LOG, printed where [ -s $ERR_LOG_FILE ] holds. -/
def printedLog (f : Files Dir) : Option (List ErrorEntry) :=
  match f.errorLog with
  | some (e :: es) => some (e :: es)
  | _ => none

def appendError (f : Files Dir) (e : ErrorEntry) : Files Dir :=
  { f with errorLog := some (f.errorLog.getD [] ++ [e]) }

/-- ... >> $TEST_LOG_FILE, a relative name -/
def appendLog (f : Files Dir) (cwd : Dir) (p : LogPart) : Files Dir :=
  { f with logs := Function.update f.logs cwd ((f.logs cwd).append p) }

/-- [ -f ${TEST_LOG_FILE} ] && mv -f ${TEST_LOG_FILE} ${TEST_LOG_FILE}.bak -/
def rotateLog (f : Files Dir) (cwd : Dir) : Files Dir :=
  { f with logs := Function.update f.logs cwd (f.logs cwd).rotate }

/-- echo "<testsuite>" >$TEST_LOG_XML -/
def openXml (f : Files Dir) : Files Dir := { f with xml := [.testsuite] }

def appendXml (f : Files Dir) (p : XmlPart) : Files Dir := { f with xml := f.xml ++ [p] }

/-- All that the body of the per-mode loop writes for one execution, in the order of the script. -/
def record (f : Files Dir) (e : Exec Dir) : Files Dir :=
  let f := f.appendLog e.dir (.start e.stamp e.cmd (pipModeName e.mode))
  let f := { f with executed := f.executed ++ [e] }
  let f := f.appendXml (.testcase e.cmd (pipModeName e.mode) e.outcome.seconds e.status e.msg
    e.outcome.stdout e.outcome.stderr)
  let f := f.appendLog e.dir (.result e.stamp e.cmd e.verdict e.outcome.stdout e.outcome.stderr
    e.outcome.time)
  match e.status with
  | .fail => f.appendError e.errorEntry
  | .unresolved => f.appendError e.errorEntry
  | _ => f

end Files

structure World (Dir : Type*) where
  sumFile : Option Summary := none
  files : Files Dir

/-- The machine, the caller's environment variables and the commands under test. -/
structure Env extends Machine where
  dirReal : Word := []
  /-- TEST_LOG_XML -/
  testLogXml : Word := []
  /-- PIP_TEST_THRESHOLD -/
  pipTestThreshold : Option ℤ := none
  outcome : ℕ → Outcome

/-- The variables of one test.sh process. -/
structure Shell (Dir : Type*) where
  /-- SUMMARY_FILE is set -/
  nested : Bool
  incFn : Word
  cwd : Dir
  run : RunTest
  sum : Summary

/-- A test list. Each line is given by its words; an %include line whose file is there comes with
the name, the directory and the lines of that file. -/
inductive ListFile (Dir : Type*) where
  | eof
  | line (words : List Word) (rest : ListFile Dir)
  | incl (ifile : Word) (dir : Dir) (body rest : ListFile Dir)

section
variable {Dir : Type*} [DecidableEq Dir]

def fileSummary (sh : Shell Dir) (w : World Dir) : World Dir := { w with sumFile := some sh.sum }

/-- . $sum_file, which file_summary has written before any process reads it -/
def sourceSummary (w : World Dir) (sh : Shell Dir) : Shell Dir :=
  match w.sumFile with
  | some s => { sh with sum := s }
  | none => sh

def resetSummary (env : Env) : Summary where
  testLogFile := "test.log".toList
  testLogXml := if env.testLogXml = [] then env.dirReal ++ "/test.log.xml".toList else env.testLogXml
  testOutStdout := "test.out.stdout".toList
  testOutStderr := "test.out.err".toList
  testOutTime := "test.out.time".toList

/-- inc_fn for an INCLUDE_FILE, without a leading ./ -/
def incFnOf (includeFile : Word) : Word :=
  match includeFile ++ ": ".toList with
  | '.' :: '/' :: rest => rest
  | s => s

/-- A test.sh process from its first line to the main loop, in the directory it is started in.
It has no shell where it exits before the loop. -/
def start (env : Env) (includeFile : Option Word) (cwd : Dir) (args : List Word) (w : World Dir) :
    World Dir × Option (Shell Dir) :=
  let w := { w with files := w.files.rmErrorLog }
  match parseArgs {} args with
  | none => (w, none)
  | some (r, _) =>
    let pipModeList := env.pipModeList r
    if pipModeList = [] then (w, none)
    else
      let summary := if includeFile.isSome then w.sumFile else some (resetSummary env)
      match summary with
      | none => (w, none)
      | some sum =>
        let w := if includeFile.isSome then w else { w with sumFile := some sum }
        let w := { w with files := w.files.rotateLog cwd }
        let run := env.checkModes pipModeList
        if run.modeList = [] then (w, none)
        else
          let w := if includeFile.isSome then w else { w with files := w.files.openXml }
          (w, some ⟨includeFile.isSome, (includeFile.map incFnOf).getD [], cwd, run, sum⟩)

/-- TOTAL_TIMME, which the sum of the test times reads and which no line of the script sets. -/
def totalTimme : Option ℕ := none

/-- What one execution adds to the variables. -/
def Summary.account {Dir : Type*} (s : Summary) (e : Exec Dir) : Summary :=
  { s with n := s.n.incr e.status, totalTime := totalTimme.getD 0 + e.outcome.seconds }

/-- The body of the per-mode loop. -/
def runTest (env : Env) (words : List Word) (pipMode : PipMode) (sh : Shell Dir) (w : World Dir) :
    Shell Dir × World Dir × ℕ :=
  let stamp := w.files.executed.length
  let e : Exec Dir := ⟨stamp, sh.cwd, sh.incFn, words, pipMode, env.outcome stamp⟩
  ({ sh with sum := sh.sum.account e }, { w with files := w.files.record e }, e.outcome.exitStatus)

/-- The loop over $pip_mode_list for one command; true where it leaves both loops. -/
def modeLoop (env : Env) (words : List Word) :
    List PipMode → Shell Dir → World Dir → Shell Dir × World Dir × Bool
  | [], sh, w => (sh, w, false)
  | m :: modes, sh, w =>
    match runTest env words m sh w with
    | (sh, w, testExitStatus) =>
      -- stopped by Control-C or something like that
      if testExitStatus = exitKilled then (sh, w, true) else modeLoop env words modes sh w

/-- The end of test.sh from the main loop on, up to its exit. -/
def closeFiles (sh : Shell Dir) (w : World Dir) : World Dir :=
  if sh.nested then
    let w := fileSummary sh w
    -- print_summary, with its output to the log and without, only writes the summary file
    let w := fileSummary sh { w with files := w.files.appendLog sh.cwd (.tail none) }
    fileSummary sh w
  else
    let f := w.files.appendXml .endTestsuite
    { w with sumFile := none, files := f.appendLog sh.cwd (.tail (some sh.sum.n)) }

/-- The start of a nested test.sh for an include line of a running one. -/
def spawn (env : Env) (sh : Shell Dir) (ifile : Word) (w : World Dir) : World Dir × Option (Shell Dir) :=
  start env (some ifile) sh.cwd (sh.run.options ++ if ifile = [] then [] else [ifile]) (fileSummary sh w)

def percentInclude : Word := "%include".toList

/-- The main loop, while read line. -/
def mainLoop (env : Env) : ListFile Dir → Shell Dir → World Dir → Shell Dir × World Dir
  | .eof, sh, w => (sh, w)
  | .line words rest, sh, w =>
    match words with
    | [] => mainLoop env rest sh w
    | first :: args =>
      if first = percentInclude then
        -- without a name, [ -f ] holds and test.sh starts without a list; else the file is missing
        if args = [] then
          let w := (spawn env sh [] w).1
          mainLoop env rest (sourceSummary w sh) w
        else mainLoop env rest sh w
      else if first.head? = some '#' then mainLoop env rest sh w
      else match modeLoop env words sh.run.modeList sh w with
        | (sh, w, stop) => if stop then (sh, w) else mainLoop env rest sh w
  | .incl ifile dir body rest, sh, w =>
    match spawn env sh ifile w with
    | (w, none) => mainLoop env rest (sourceSummary w sh) w
    | (w, some child) =>
      match mainLoop env body { child with cwd := dir } w with
      | (child, w) =>
        let w := closeFiles child w
        mainLoop env rest (sourceSummary w sh) w

/-- The exit status that the counters give. -/
def exitStatus (env : Env) (nested : Bool) (n : Counters) : ℕ :=
  if n.nKilled ≠ 0 then exitKilled
  else if n.nPass = 0 then exitFail
  else if n.nFail = 0 ∧ n.nUnresolved = 0 ∧ n.nPass > 0 then exitPass
  else match env.pipTestThreshold with
    | some threshold =>
      if nested = false ∧ (n.nFail + n.nUnresolved : ℕ) < threshold then exitPass else exitFail
    | none => exitFail

/-- What the top level prints at its end, its counters and its exit status. -/
structure Report where
  n : Counters
  total : ℕ
  errorLog : Option (List ErrorEntry)
  exit : ℕ
  deriving DecidableEq

/-- The files as an earlier run has left them. -/
def initial (errorLog : Option (List ErrorEntry)) (old : Dir → Log Word) : World Dir where
  files := { errorLog := errorLog, logs := fun d => (old d).map .old }

/-- test.sh at the top level, started in cwd with a list that lies in dir. -/
def testSh (env : Env) (cwd dir : Dir) (args : List Word) (file : ListFile Dir) (w : World Dir) :
    World Dir × Option Report :=
  match start env none cwd args w with
  | (w, none) => (w, none)
  | (w, some sh) =>
    match mainLoop env file { sh with cwd := dir } w with
    | (sh, w) =>
      let w := closeFiles sh w
      (w, some ⟨sh.sum.n, sh.sum.n.total, w.files.printedLog, exitStatus env sh.nested sh.sum.n⟩)

end

end PipTestsuite.TestSh
