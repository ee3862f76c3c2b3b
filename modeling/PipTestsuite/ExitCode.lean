import Mathlib.Tactic

/-! The eight exit codes shared by the scripts (exit_code.sh.inc) and the C programs (test.h),
the wait status of a child process, and the verdict that test.sh reads off an exit status. -/
namespace PipTestsuite

/-- A shell word. -/
abbrev Word := List Char

def exitPass : ℕ := 0
def exitFail : ℕ := 1
def exitXpass : ℕ := 2
def exitXfail : ℕ := 3
def exitUnresolved : ℕ := 4
def exitUntested : ℕ := 5
def exitUnsupported : ℕ := 6
def exitKilled : ℕ := 7

/-- The verdicts of test.sh; its counters n_PASS, ..., n_KILLED are named after them. -/
inductive Status where
  | pass | fail | xpass | xfail | unresolved | untested | unsupported | killed
  deriving DecidableEq, Repr

namespace Status

def name : Status → Word
  | pass => "PASS".toList
  | fail => "FAIL".toList
  | xpass => "XPASS".toList
  | xfail => "XFAIL".toList
  | unresolved => "UNRESOLVED".toList
  | untested => "UNTESTED".toList
  | unsupported => "UNSUPPORTED".toList
  | killed => "KILLED".toList

/-- The case statement of test.sh on $test_exit_status. -/
def ofExit (testExitStatus : ℕ) : Status :=
  if testExitStatus = exitPass then pass
  else if testExitStatus = exitFail then fail
  else if testExitStatus = exitXpass then xpass
  else if testExitStatus = exitXfail then xfail
  else if testExitStatus = exitUnresolved then unresolved
  else if testExitStatus = exitUntested then untested
  else if testExitStatus = exitUnsupported then unsupported
  else if testExitStatus = exitKilled then killed
  else unresolved

/-- The verdicts that the error log records and that fail a run. -/
def IsFailure (s : Status) : Prop := s = fail ∨ s = unresolved

instance : DecidablePred IsFailure := fun s => inferInstanceAs (Decidable (s = fail ∨ s = unresolved))

/-- The case statement has one branch for each code and one for all other statuses. -/
lemma ofExit_cases (e : ℕ) :
    (e = 0 ∧ ofExit e = pass) ∨ (e = 1 ∧ ofExit e = fail) ∨ (e = 2 ∧ ofExit e = xpass) ∨
    (e = 3 ∧ ofExit e = xfail) ∨ (e = 4 ∧ ofExit e = unresolved) ∨ (e = 5 ∧ ofExit e = untested) ∨
    (e = 6 ∧ ofExit e = unsupported) ∨ (e = 7 ∧ ofExit e = killed) ∨
    (7 < e ∧ ofExit e = unresolved) := by
  by_cases h : e ≤ 7
  · interval_cases e <;> decide
  · have hne : ∀ k ≤ 7, e ≠ k := fun k hk => by omega
    simp [ofExit, exitPass, exitFail, exitXpass, exitXfail, exitUnresolved, exitUntested,
      exitUnsupported, exitKilled, hne]
    omega

theorem ofExit_eq_killed_iff (e : ℕ) : ofExit e = killed ↔ e = exitKilled := by
  have h := ofExit_cases e
  grind [exitKilled]

/-- A failure is FAIL, UNRESOLVED or a status outside the list of exit codes. -/
theorem isFailure_ofExit_iff (e : ℕ) :
    (ofExit e).IsFailure ↔ e = exitFail ∨ e = exitUnresolved ∨ exitKilled < e := by
  have h := ofExit_cases e
  grind [IsFailure, exitFail, exitUnresolved, exitKilled]

end Status

/-- What wait() reports of an ended child: an exit status in one byte, or a terminating signal. -/
inductive WaitStatus where
  | exited (code : Fin 256)
  | signaled (sig : ℕ)
  deriving DecidableEq, Repr

/-- The status of a child that has ended by exit( 0 ). -/
abbrev WaitStatus.exitZero : WaitStatus := .exited 0

end PipTestsuite
