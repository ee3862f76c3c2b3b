import PipTestsuite.ExitCode
import PipTestsuite.Lib.Checked

/-! The roots of cxx.cc, hook_and_coe.c, pagefault.c and pip_aux.c: each spawns its tasks, waits for all
of them, and returns the verdict of the whole test. -/
namespace PipTestsuite.TestRoot
open Checked

/-- strtol( argv[1] ), if there is one, $NTASKS, and PIP_NTASKS_MAX. -/
structure Args where
  arg : Option ℤ
  ntenv : Option ℤ
  ntasksMax : ℤ

/-- A descriptor: the text file, or one end of pipe i. -/
inductive Fd where
  | file
  | read (i : ℕ)
  | write (i : ℕ)
  deriving DecidableEq

/-- What the calls of a root return; pip_wait also stores the final status of the task. -/
structure Calls where
  malloc : ℕ → Bool
  pipInit : ℤ
  pipSpawn : ℕ → ℤ
  pipWait : ℕ → ℤ × WaitStatus
  pipFin : ℤ
  mmap : Bool
  munmap : ℤ
  barrierInit : ℤ
  barrierWait : ℕ → ℤ
  pipe : ℕ → ℤ
  setCoeFlag : Fd → ℤ
  close : Fd → ℤ
  openFile : ℤ
  /-- the conditions of the CHECKs that the copying loop of hook_and_coe.c comes to, in their order -/
  copying : List Bool

/-- for( i=0; i<ntasks; i++ ) -/
def forTasks (ntasks : ℤ) (f : ℕ → Except ℕ Unit) : Except ℕ Unit := forM (List.range ntasks.toNat) f

/-- pip_wait without a look at the status of the task. -/
def waitOnly (calls : Calls) (i : ℕ) : Except ℕ Unit := check ((calls.pipWait i).1 ≠ 0) exitFail

/-- The number of tasks where no argument, or none above 0, is given. -/
def Args.ntasks (args : Args) (dflt : ℤ) : ℤ :=
  let ntasks := args.arg.getD 0
  if ntasks ≤ 0 then dflt else ntasks

/-- The test of the number of tasks against $NTASKS, or else against the program's own bound. -/
def Args.tooMany (args : Args) (bound ntasks : ℤ) : Bool :=
  match args.ntenv with
  | some ntenv => ntasks > ntenv
  | none => ntasks > bound

/-- cxx.cc takes a negative number of tasks as it is. -/
def cxxNtasks (args : Args) : ℤ :=
  let ntasks := args.arg.getD 0
  if ntasks = 0 then args.ntasksMax else ntasks

def cxx (args : Args) (calls : Calls) : Except ℕ ℕ := do
  let ntasks := cxxNtasks args
  check (!calls.malloc 0) exitUntested
  check (calls.pipInit ≠ 0) exitFail
  forTasks ntasks fun i => check (calls.pipSpawn i ≠ 0) exitFail
  forTasks ntasks (waitOnly calls)
  check (calls.pipFin ≠ 0) exitFail
  return 0

/-- hook_and_coe.c redefines NTASKS. -/
def hookNtasks : ℤ := 16

/-- Task i reads from pipe i and writes to pipe i+1; the root closes both ends. -/
def spawnRelay (calls : Calls) (i : ℕ) : Except ℕ Unit := do
  check (!calls.malloc i) exitFail
  check (calls.pipSpawn i ≠ 0) exitFail
  check (calls.close (.read i) ≠ 0) exitFail
  check (calls.close (.write (i + 1)) ≠ 0) exitFail

/-- The last task, unless it is the first one. -/
def spawnLast (calls : Calls) (n : ℕ) : Except ℕ Unit :=
  if n > 1 then spawnRelay calls (n - 1) else .ok ()

def hookAndCoe (args : Args) (calls : Calls) : Except ℕ ℕ := do
  let ntasks := args.ntasks hookNtasks
  check (args.tooMany hookNtasks ntasks) exitUntested
  check (calls.pipInit ≠ 0) exitFail
  let n := ntasks.toNat
  check (calls.pipe 0 ≠ 0) exitFail
  check (calls.setCoeFlag (.write 0) ≠ 0) exitFail
  forM (List.range' 1 (n - 1)) fun i => check (calls.pipe i ≠ 0) exitFail
  check (calls.pipe n ≠ 0) exitFail
  check (calls.setCoeFlag (.read n) ≠ 0) exitFail
  spawnRelay calls 0
  forM (List.range' 1 (n - 2)) (spawnRelay calls)
  spawnLast calls n
  check (calls.openFile < 0) exitFail
  forM calls.copying fun cond => check cond exitFail
  check (calls.close .file ≠ 0) exitFail
  check (calls.close (.write 0) ≠ 0) exitFail
  check (calls.close (.read n) ≠ 0) exitFail
  forTasks ntasks (waitOnly calls)
  return 0

def pagefault (args : Args) (calls : Calls) : Except ℕ ℕ := do
  let ntasks := args.ntasks args.ntasksMax
  check (args.tooMany args.ntasksMax ntasks) exitUntested
  check (calls.pipInit ≠ 0) exitFail
  check (!calls.mmap) exitFail
  check (calls.barrierInit ≠ 0) exitFail
  forTasks ntasks fun i => check (calls.pipSpawn i ≠ 0) exitFail
  check (calls.barrierWait 0 ≠ 0) exitFail
  check (calls.barrierWait 1 ≠ 0) exitFail
  forTasks ntasks (waitOnly calls)
  check (calls.munmap ≠ 0) exitFail
  check (calls.pipFin ≠ 0) exitFail
  return 0

/-- The body of the wait loop of pip_aux.c. -/
def waitAux (calls : Calls) (i : ℕ) : Except ℕ Unit := do
  waitOnly calls i
  match (calls.pipWait i).2 with
  | .exited extval => check (extval.val ≠ 0) exitFail
  | .signaled _ => check true exitUnresolved

def pipAux (args : Args) (calls : Calls) : Except ℕ ℕ := do
  let ntasks := args.ntasks args.ntasksMax
  check (args.tooMany args.ntasksMax ntasks) exitUntested
  check (calls.pipInit ≠ 0) exitFail
  check (!calls.malloc 0) exitFail
  forTasks ntasks fun i => check (calls.pipSpawn i ≠ 0) exitFail
  forTasks ntasks (waitAux calls)
  check (calls.pipFin ≠ 0) exitFail
  return exitPass

inductive Program where
  | cxx | hookAndCoe | pagefault | pipAux
  deriving DecidableEq

namespace Program

def main : Program → Args → Calls → Except ℕ ℕ
  | cxx => TestRoot.cxx
  | hookAndCoe => TestRoot.hookAndCoe
  | pagefault => TestRoot.pagefault
  | pipAux => TestRoot.pipAux

def ntasks : Program → Args → ℤ
  | cxx, args => cxxNtasks args
  | hookAndCoe, args => args.ntasks hookNtasks
  | pagefault, args => args.ntasks args.ntasksMax
  | pipAux, args => args.ntasks args.ntasksMax

/-- Every call that the root checks succeeds, so that it comes to the end of main. -/
def Succeed : Program → Args → Calls → Prop
  | cxx, args, calls =>
    calls.malloc 0 = true ∧ calls.pipInit = 0 ∧ (∀ i < (cxxNtasks args).toNat, calls.pipSpawn i = 0) ∧
      (∀ i < (cxxNtasks args).toNat, (calls.pipWait i).1 = 0) ∧ calls.pipFin = 0
  | hookAndCoe, args, calls =>
    let n := (args.ntasks hookNtasks).toNat
    args.tooMany hookNtasks (args.ntasks hookNtasks) = false ∧ calls.pipInit = 0 ∧
      (∀ i ≤ n, calls.pipe i = 0) ∧ calls.setCoeFlag (.write 0) = 0 ∧ calls.setCoeFlag (.read n) = 0 ∧
      (∀ i < n, calls.malloc i = true ∧ calls.pipSpawn i = 0 ∧ calls.close (.read i) = 0 ∧
        calls.close (.write (i + 1)) = 0) ∧
      0 ≤ calls.openFile ∧ (∀ cond ∈ calls.copying, cond = false) ∧ calls.close .file = 0 ∧
      calls.close (.write 0) = 0 ∧ calls.close (.read n) = 0 ∧ ∀ i < n, (calls.pipWait i).1 = 0
  | pagefault, args, calls =>
    let n := (args.ntasks args.ntasksMax).toNat
    args.tooMany args.ntasksMax (args.ntasks args.ntasksMax) = false ∧ calls.pipInit = 0 ∧
      calls.mmap = true ∧ calls.barrierInit = 0 ∧ (∀ i < n, calls.pipSpawn i = 0) ∧
      calls.barrierWait 0 = 0 ∧ calls.barrierWait 1 = 0 ∧ (∀ i < n, (calls.pipWait i).1 = 0) ∧
      calls.munmap = 0 ∧ calls.pipFin = 0
  | pipAux, args, calls =>
    let n := (args.ntasks args.ntasksMax).toNat
    args.tooMany args.ntasksMax (args.ntasks args.ntasksMax) = false ∧ calls.pipInit = 0 ∧
      calls.malloc 0 = true ∧ (∀ i < n, calls.pipSpawn i = 0) ∧ (∀ i < n, (calls.pipWait i).1 = 0) ∧
      calls.pipFin = 0

/-- All tasks exit with status 0. -/
def AllExitZero (p : Program) (args : Args) (calls : Calls) : Prop :=
  ∀ i < (p.ntasks args).toNat, (calls.pipWait i).2 = .exitZero

end Program

lemma forTasks_eq_ok {ntasks : ℤ} {f : ℕ → Except ℕ Unit} :
    forTasks ntasks f = .ok () ↔ ∀ i < ntasks.toNat, f i = .ok () := by
  simp [forTasks, forM_eq_ok]

lemma waitOnly_eq_ok {calls : Calls} {i : ℕ} : waitOnly calls i = .ok () ↔ (calls.pipWait i).1 = 0 := by
  simp [waitOnly]

lemma waitAux_eq_ok {calls : Calls} {i : ℕ} :
    waitAux calls i = .ok () ↔ (calls.pipWait i).1 = 0 ∧ (calls.pipWait i).2 = .exitZero := by
  rw [waitAux, bind_eq_ok, waitOnly_eq_ok]
  cases (calls.pipWait i).2 with
  | exited extval => simp
  | signaled sig => simp

lemma spawnRelay_eq_ok {calls : Calls} {i : ℕ} :
    spawnRelay calls i = .ok () ↔ calls.malloc i = true ∧ calls.pipSpawn i = 0 ∧
      calls.close (.read i) = 0 ∧ calls.close (.write (i + 1)) = 0 := by
  simp [spawnRelay, bind_eq_ok]

lemma spawnLast_eq_ok {calls : Calls} {n : ℕ} :
    spawnLast calls n = .ok () ↔ (1 < n → spawnRelay calls (n - 1) = .ok ()) := by
  by_cases hn : 1 < n <;> simp [spawnLast, hn]

lemma Args.ntasks_pos (args : Args) {dflt : ℤ} (h : 0 < dflt) : 0 < args.ntasks dflt := by
  unfold Args.ntasks
  grind

/-- The first, the middle and the last relays are all of them. -/
lemma forall_relays {P : ℕ → Prop} {n : ℕ} (hn : 0 < n) :
    (P 0 ∧ (∀ i ∈ List.range' 1 (n - 2), P i) ∧ (1 < n → P (n - 1))) ↔ ∀ i < n, P i := by
  constructor
  · rintro ⟨h0, hmid, hlast⟩ i hi
    obtain rfl | h | rfl : i = 0 ∨ (1 ≤ i ∧ i < n - 1) ∨ i = n - 1 := by omega
    · exact h0
    · exact hmid i (by simp; omega)
    · by_cases hone : 1 < n
      · exact hlast hone
      · have : n - 1 = 0 := by omega
        rwa [this]
  · intro h
    refine ⟨h 0 hn, fun i hi => h i ?_, fun h1 => h _ (by omega)⟩
    simp at hi
    omega

lemma forall_pipes {P : ℕ → Prop} {n : ℕ} :
    (P 0 ∧ (∀ i ∈ List.range' 1 (n - 1), P i) ∧ P n) ↔ ∀ i ≤ n, P i := by
  constructor
  · rintro ⟨h0, hmid, hlast⟩ i hi
    obtain rfl | h | rfl : i = 0 ∨ (1 ≤ i ∧ i < n) ∨ i = n := by omega
    · exact h0
    · exact hmid i (by simp; omega)
    · exact hlast
  · intro h
    refine ⟨h 0 (by omega), fun i hi => h i ?_, h n le_rfl⟩
    simp at hi
    omega

theorem cxx_eq_ok_iff (args : Args) (calls : Calls) (code : ℕ) :
    cxx args calls = .ok code ↔ Program.cxx.Succeed args calls ∧ code = exitPass := by
  simp only [cxx, bind_eq_ok, forTasks_eq_ok, waitOnly_eq_ok, check_eq_ok, pure_eq_ok, Program.Succeed,
    and_assoc, exitPass, Bool.not_eq_false', decide_eq_false_iff_not, ne_eq, not_not]

theorem hookAndCoe_eq_ok_iff (args : Args) (calls : Calls) (code : ℕ) :
    hookAndCoe args calls = .ok code ↔ Program.hookAndCoe.Succeed args calls ∧ code = exitPass := by
  have hpos : 0 < (args.ntasks hookNtasks).toNat := by
    have h : 0 < args.ntasks hookNtasks := args.ntasks_pos (by decide)
    omega
  simp only [Program.Succeed]
  rw [← forall_pipes, ← forall_relays hpos]
  simp only [hookAndCoe, bind_eq_ok, forTasks_eq_ok, forM_eq_ok, waitOnly_eq_ok, check_eq_ok, pure_eq_ok,
    spawnRelay_eq_ok, spawnLast_eq_ok, and_assoc, exitPass, decide_eq_false_iff_not, ne_eq, not_not, not_lt]
  tauto

theorem pagefault_eq_ok_iff (args : Args) (calls : Calls) (code : ℕ) :
    pagefault args calls = .ok code ↔ Program.pagefault.Succeed args calls ∧ code = exitPass := by
  simp only [pagefault, bind_eq_ok, forTasks_eq_ok, waitOnly_eq_ok, check_eq_ok, pure_eq_ok, Program.Succeed,
    and_assoc, exitPass, Bool.not_eq_false', decide_eq_false_iff_not, ne_eq, not_not]

/-- pip_aux.c comes to its end only if all of its tasks exit with 0. -/
theorem pipAux_eq_ok_iff (args : Args) (calls : Calls) (code : ℕ) :
    pipAux args calls = .ok code ↔
      Program.pipAux.Succeed args calls ∧ Program.pipAux.AllExitZero args calls ∧ code = exitPass := by
  simp only [pipAux, bind_eq_ok, forTasks_eq_ok, waitAux_eq_ok, check_eq_ok, pure_eq_ok, Program.Succeed,
    Program.AllExitZero, Program.ntasks, Bool.not_eq_false', decide_eq_false_iff_not, ne_eq, not_not]
  grind

lemma not_pass_iff {m : Except ℕ ℕ} {succeed allZero : Prop}
    (h : ∀ code, m = .ok code ↔ succeed ∧ code = exitPass) :
    (∀ code, m = .ok code → ¬ allZero → code ≠ exitPass) ↔ ¬ succeed ∨ allZero := by
  constructor
  · intro hclaim
    by_contra hne
    rw [not_or, not_not] at hne
    exact hclaim exitPass ((h exitPass).mpr ⟨hne.1, rfl⟩) hne.2 rfl
  · rintro hor code hm hne hpass
    exact hor.elim (fun hfail => hfail ((h code).mp hm).1) hne

/-- A root that comes to the end of main does not pass over a failed task, if it is that of pip_aux.c, or
one of its calls fails, or no task fails; the other three roots never look at a status. -/
theorem root_not_pass_iff (p : Program) (args : Args) (calls : Calls) :
    (∀ code, p.main args calls = .ok code → ¬ p.AllExitZero args calls → code ≠ exitPass) ↔
      p = .pipAux ∨ ¬ p.Succeed args calls ∨ p.AllExitZero args calls := by
  cases p with
  | cxx => simpa [Program.main] using not_pass_iff (cxx_eq_ok_iff args calls)
  | hookAndCoe => simpa [Program.main] using not_pass_iff (hookAndCoe_eq_ok_iff args calls)
  | pagefault => simpa [Program.main] using not_pass_iff (pagefault_eq_ok_iff args calls)
  | pipAux =>
    refine iff_of_true (fun code hm hne => ?_) (.inl rfl)
    exact absurd ((pipAux_eq_ok_iff args calls code).mp hm).2.1 hne

/-- All calls succeed, and each task has the given final status. -/
def plainCalls (status : WaitStatus) : Calls where
  malloc _ := true
  pipInit := 0
  pipSpawn _ := 0
  pipWait _ := (0, status)
  pipFin := 0
  mmap := true
  munmap := 0
  barrierInit := 0
  barrierWait _ := 0
  pipe _ := 0
  setCoeFlag _ := 0
  close _ := 0
  openFile := 3
  copying := [false, false, false]

/-- The root exits with EXIT_PASS, and one of two tasks not with 0. -/
def Program.PassesOver (p : Program) (status : WaitStatus) : Prop :=
  p.main ⟨some 2, none, 300⟩ (plainCalls status) = .ok exitPass ∧
    ¬ p.AllExitZero ⟨some 2, none, 300⟩ (plainCalls status)

/-- Both tasks exit with EXIT_FAIL. -/
theorem roots_pass_over_failed :
    Program.cxx.PassesOver (.exited 1) ∧ Program.hookAndCoe.PassesOver (.exited 1) ∧
      Program.pagefault.PassesOver (.exited 1) := by
  refine ⟨⟨rfl, fun h => ?_⟩, ⟨rfl, fun h => ?_⟩, ⟨rfl, fun h => ?_⟩⟩ <;>
    exact absurd (h 0 (by decide)) (by decide)

end PipTestsuite.TestRoot
