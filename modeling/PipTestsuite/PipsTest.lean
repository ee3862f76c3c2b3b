import PipTestsuite.ExitCode

/-! pips-test.sh: a run of do_test calls that set one sticky error flag, and the exit at the end. -/
namespace PipTestsuite.PipsTest

/-- The first argument of the script. -/
inductive Mode where
  | check | generate | debug
  deriving DecidableEq, Repr

/-- One line of the script: do_test, the expected flag, the file name and the arguments of pips. -/
structure Call where
  flag : Bool
  pipsFile : Word
  args : List Word
  deriving DecidableEq

/-- What a do_test call meets: the status of pips, which of its three files are there, and whether
the comparison of the .check file with the .output file succeeds. -/
structure Outcome where
  retval : ℕ
  input : Bool
  output : Bool
  check : Bool
  same : Bool
  deriving DecidableEq

/-- check: the new value of flag_error for a flag, a status and a file, if one is given. -/
def check (flag : Bool) (retv : ℕ) (file : Option Word) (same : Bool) (flagError : Bool) : Bool :=
  if retv = 0 then
    if flag then
      if file.isSome then
        if same = false then true else flagError
      else flagError
    else true
  else
    if flag then true
    else if file.isSome then
      if same = false then true else flagError
    else flagError

/-- do_test: the new value of flag_error. -/
def doTest (flagCheck : Bool) (c : Call) (out : Outcome) (flagError : Bool) : Bool :=
  if flagCheck = false then
    let flagError := check c.flag out.retval none out.same flagError
    let flagError := if out.input = false then true else flagError
    if out.output = false then true else flagError
  else
    let nofile := false
    let (flagError, nofile) := if out.input = false then (true, true) else (flagError, nofile)
    let (flagError, nofile) := if out.output = false then (true, true) else (flagError, nofile)
    if nofile = false then
      if out.check = false then true
      else if flagCheck then check c.flag out.retval (some c.pipsFile) out.same flagError
      else flagError
    else flagError

/-- All do_test calls, one after the other. -/
def doTests (flagCheck : Bool) (calls : List (Call × Outcome)) (flagError : Bool) : Bool :=
  calls.foldl (fun flagError c => doTest flagCheck c.1 c.2 flagError) flagError

/-- The codes that exit_code.sh.inc assigns, by name. -/
def exitCodeOf (name : Word) : Option ℕ :=
  if name = "EXIT_PASS".toList then some exitPass
  else if name = "EXIT_FAIL".toList then some exitFail
  else if name = "EXIT_XPASS".toList then some exitXpass
  else if name = "EXIT_XFAIL".toList then some exitXfail
  else if name = "EXIT_UNRESOLVED".toList then some exitUnresolved
  else if name = "EXIT_UNTESTED".toList then some exitUntested
  else if name = "EXIT_UNSUPPORTED".toList then some exitUnsupported
  else if name = "EXIT_KILLED".toList then some exitKilled
  else none

/-- exit $name: where the variable has no value, exit has no argument and keeps the last $?. -/
def exitWith (name : Word) (last : ℕ) : ℕ := (exitCodeOf name).getD last

/-- The script. diff tells whether cmp or diff is there. -/
def script (diff : Bool) (mode : Mode) (calls : List (Call × Outcome)) : ℕ :=
  if diff = false then exitWith "EXIT_UNTESTED".toList 0
  else
    let flagError := doTests (decide (mode = .check)) calls false
    -- both messages are printed by an echo that succeeds
    let last := 0
    if flagError then exitWith "EXIT_FAILED".toList last else exitWith "EXIT_PASS".toList last

/-- The calls of the script. -/
def calls : List Call :=
  let call (flag : Bool) (file : String) (args : List String) : Call := ⟨flag, file.toList, args.map String.toList⟩
  [call true "pips-noop" [], call true "pips-noop-" ["-"], call true "pips-noop-a" ["-", "~a~"],
    call true "pips-noop--" ["--"], call true "pips-noop--b" ["-", "~b~"],
    call true "pips-a" ["a", "~a~"], call true "pips-u" ["u"], call true "pips-x" ["x"],
    call false "pips-x-nosuch" ["x", "nosuchpip"], call true "pips-au" ["au", "~a~", "~b~"],
    call true "pips-ax" ["ax"], call true "pips-ua" ["ua"], call true "pips-ux" ["ux"],
    call true "pips-xa" ["xa"], call true "pips-xu" ["xu"],
    call true "pips-aux" ["aux", "~a~", "~b~", "~c~", "~d~"],
    call true "pips-root" ["au", "--root"], call true "pips-r" ["-r"],
    call true "pips-r-exec" ["-r", "pip-exec"], call false "pips-r-a" ["-r", "~a~"],
    call true "pips-task" ["--task"], call true "pips-au-t" ["au", "-t"],
    call false "pips-t-exec" ["-t", "pip-exec"],
    call true "pips-family" ["--family"], call true "pips-f" ["-f"],
    call true "pips-family-a" ["--family", "~a~"], call true "pips-f-a-c" ["-f", "~a~", "~c~"],
    call false "pips-f-nosuch" ["-f", "nosuchpip"],
    call true "pips-ps" ["--ps"], call false "pips-ps-nosuch" ["--ps", "-", "nosuchpip"],
    call true "pips-P" ["-P"], call true "pips-ps-a" ["--ps", "--", "~a~"],
    call true "pips-P-a-c" ["-P", "-", "~a~", "~c~"], call true "pips-ps-l" ["--ps", "l"],
    call true "pips-P-l" ["-P", "l"], call true "pips-ps-l-a" ["--ps", "l", "-", "~a~"],
    call true "pips-P-l-b-c" ["-P", "l", "--", "~b~", "~c~"],
    call true "pips-m-P" ["-m", "P"], call true "pips-mode-T" ["--mode", "T"],
    call true "pips-m-G" ["-m", "G"], call true "pips-mode-L" ["--mode", "L"],
    call true "pips-m-C" ["-m", "C"], call true "pips-mode-plglc" ["--mode", "plglc"],
    call true "pips-test-kill" ["--kill"], call true "pips-task-k" ["--task", "-k"],
    call true "pips-task-k-a" ["--task", "-k", "~a~"], call false "pips-signal" ["--signal"],
    call false "pips-r-s" ["-r", "-s"], call true "pips-s-hup" ["-s", "hup"],
    call true "pips-signal-sighup" ["--signal", "SIGhup"],
    call true "pips-s-2-verbose" ["-s", "2", "--verbose"], call true "pips-t-s-2-v" ["-t", "-s", "2", "-v"],
    call false "pips-signal-nosuch" ["--signal", "nosuchsig"], call false "pips-s-nosuch" ["-s", "nosuchsig"]]

/-- A required file is missing, the status disagrees with the flag, or in check mode the files differ. -/
def IsError (mode : Mode) (c : Call) (out : Outcome) : Prop :=
  out.input = false ∨ out.output = false ∨ (mode = .check ∧ out.check = false) ∨
    (c.flag = true ∧ out.retval ≠ 0) ∨ (c.flag = false ∧ out.retval = 0) ∨ (mode = .check ∧ out.same = false)

/-- do_test records an error exactly where there is one, and forgets none. -/
theorem doTest_iff (mode : Mode) (c : Call) (out : Outcome) (flagError : Bool) :
    doTest (decide (mode = .check)) c out flagError = true ↔ flagError = true ∨ IsError mode c out := by
  rcases c with ⟨flag, file, args⟩
  rcases out with ⟨retval, input, output, chk, same⟩
  simp only [IsError]
  by_cases hm : mode = .check <;> by_cases hr : retval = 0 <;>
    cases flag <;> cases input <;> cases output <;> cases chk <;> cases same <;>
    simp [doTest, check, hm, hr]

theorem doTests_iff (mode : Mode) (calls : List (Call × Outcome)) (flagError : Bool) :
    doTests (decide (mode = .check)) calls flagError = true ↔
      flagError = true ∨ ∃ c ∈ calls, IsError mode c.1 c.2 := by
  induction calls generalizing flagError with
  | nil => simp [doTests]
  | cons c calls ih =>
    have h := ih (doTest (decide (mode = .check)) c.1 c.2 flagError)
    rw [doTest_iff] at h
    simp only [doTests, List.foldl_cons] at h ⊢
    rw [h]
    simp [or_assoc]

/-- EXIT_FAILED has no value, so the script always exits with 0. -/
theorem script_eq_pass (mode : Mode) (calls : List (Call × Outcome)) : script true mode calls = exitPass := by
  have hfailed : exitCodeOf "EXIT_FAILED".toList = none := by decide
  have hpass : exitCodeOf "EXIT_PASS".toList = some exitPass := by decide
  simp only [script, exitWith, hfailed, hpass]
  split_ifs <;> first | rfl | contradiction

/-- The whole script, with the outcome of each of its calls. -/
def pipsTest (diff : Bool) (mode : Mode) (outcome : Call → Outcome) : ℕ :=
  script diff mode (calls.map fun c => (c, outcome c))

/-- Whether some do_test of the script has recorded an error. -/
def recorded (mode : Mode) (outcome : Call → Outcome) : Bool :=
  doTests (decide (mode = .check)) (calls.map fun c => (c, outcome c)) false

/-- The script passes exactly where no do_test records an error, and a do_test records one exactly where
there is one. -/
def Reports (mode : Mode) (outcome : Call → Outcome) : Prop :=
  (recorded mode outcome = true ↔ ∃ c ∈ calls, IsError mode c (outcome c)) ∧
    (pipsTest true mode outcome = exitPass ↔ recorded mode outcome = false) ∧
    (recorded mode outcome = true → pipsTest true mode outcome ≠ 0)

theorem recorded_iff (mode : Mode) (outcome : Call → Outcome) :
    recorded mode outcome = true ↔ ∃ c ∈ calls, IsError mode c (outcome c) := by
  rw [recorded, doTests_iff]
  simp

/-- The script reports what it has found only as long as it has found nothing. -/
theorem pipsTest_reports_iff (mode : Mode) (outcome : Call → Outcome) :
    Reports mode outcome ↔ ∀ c ∈ calls, ¬ IsError mode c (outcome c) := by
  have hpass : pipsTest true mode outcome = exitPass := script_eq_pass mode _
  have herr := recorded_iff mode outcome
  constructor
  · rintro ⟨-, hiff, -⟩ c hc hbad
    have hnone := hiff.mp hpass
    rw [herr.mpr ⟨c, hc, hbad⟩] at hnone
    contradiction
  · intro hgood
    have hnone : ¬ recorded mode outcome = true := fun h => by
      obtain ⟨c, hc, hbad⟩ := herr.mp h
      exact hgood c hc hbad
    exact ⟨herr, iff_of_true hpass (by simpa using hnone), fun h => absurd h hnone⟩

/-- All files are missing, and the script exits with EXIT_PASS. -/
theorem pipsTest_passes_errors :
    recorded .check (fun _ => ⟨0, false, false, false, false⟩) = true ∧
      pipsTest true .check (fun _ => ⟨0, false, false, false, false⟩) = exitPass ∧
      ¬ Reports .check (fun _ => ⟨0, false, false, false, false⟩) := by
  have hrec : recorded .check (fun _ => ⟨0, false, false, false, false⟩) = true := by decide
  have hpass : pipsTest true .check (fun _ => ⟨0, false, false, false, false⟩) = exitPass := by decide
  exact ⟨hrec, hpass, fun h => h.2.2 hrec hpass⟩

end PipTestsuite.PipsTest
