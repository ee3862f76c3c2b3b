import PipTestsuite.ExitCode

/-! loop.sh: a test program is run again and again, under each mode of a list or under none, until a
run fails or the limit is reached. The status of a run is read from $? behind other statements, so
$? is a variable of the model. -/
namespace PipTestsuite.LoopSh

/-- The options, and which modes pip_mode_check accepts. -/
structure Options where
  modeList : List Word
  usable : Word → Bool
  nomode : Bool
  display : Bool
  ignoreErr : Bool
  iteration : ℕ
  duration : ℕ

/-- The k-th run of the test program has the k-th status and time; elaps belongs to a round. -/
structure Runs where
  status : ℕ → ℕ
  seconds : ℕ → ℕ
  elaps : ℕ → ℕ

structure Vars where
  ext : ℕ := 0
  i : ℕ := 0
  ntimes : ℕ := 0
  timeTotal : ℕ := 0
  timeMin : ℕ := 10000
  timeMax : ℕ := 0
  errCount : ℕ := 0
  /-- $? -/
  last : ℕ := 0
  /-- the number of runs of the test program so far -/
  runs : ℕ := 0
  deriving DecidableEq

namespace Options

/-- The modes of $mlist. -/
def mlist (o : Options) : List Word :=
  if o.nomode then []
  else
    let modeList := if o.modeList = [] then ["-C".toList, "-L".toList, "-G".toList, "-T".toList] else o.modeList
    modeList.filter o.usable

/-- The runs of one round. -/
def perRound (o : Options) : ℕ := if o.nomode then 1 else o.mlist.length

end Options

/-- The status of a pipeline: that of its last command, or under pipefail the last one not zero. -/
def pipeStatus (pipefail : Bool) (statuses : List ℕ) : ℕ :=
  if pipefail then (statuses.filter (· ≠ 0)).getLastD 0 else statuses.getLastD 0

/-- expr succeeds where its value is not zero. -/
def exprStatus (value : ℕ) : ℕ := if value = 0 then 1 else 0

/-- An exit of loop.sh with its status, or the variables it goes on with. -/
abbrev Flow := Except (ℕ × Vars) Vars

/-- The test program under "-s", piped into a tee that succeeds, or with its output in a file. -/
def runProgram (o : Options) (r : Runs) (v : Vars) : Vars :=
  let status := r.status v.runs
  -- set -o pipefail is done for $display only
  { v with last := if o.display then pipeStatus o.display [status, 0] else status, runs := v.runs + 1 }

/-- ext=$? and what follows from it, in both run paths. -/
def checkExt (o : Options) (v : Vars) : Flow :=
  let v := { v with ext := v.last, last := 0 }
  if v.ext ≠ 0 then
    let v := { v with errCount := v.errCount + 1 }
    if o.ignoreErr = false then .error (v.ext, v) else .ok v
  else .ok v

/-- t=$SECONDS and the statements that keep count of the times, each of which sets $?. -/
def keepTimes (t : ℕ) (v : Vars) : Vars :=
  let v := { v with last := 0 }
  let v := { v with ntimes := v.ntimes + 1, last := exprStatus (v.ntimes + 1) }
  let v := { v with timeTotal := v.timeTotal + t, last := exprStatus (v.timeTotal + t) }
  let v := { v with timeMin := if t < v.timeMin then t else v.timeMin, last := 0 }
  { v with timeMax := if t > v.timeMax then t else v.timeMax, last := 0 }

/-- The body of the loop over $mlist. -/
def modeRun (o : Options) (r : Runs) (v : Vars) : Flow :=
  checkExt o (keepTimes (r.seconds v.runs) (runProgram o r v))

def modeLoop (o : Options) (r : Runs) : List Word → Vars → Flow
  | [], v => .ok v
  | _ :: modes, v => modeRun o r v >>= modeLoop o r modes

def nomodeRun (o : Options) (r : Runs) (v : Vars) : Flow := checkExt o (runProgram o r v)

def round (o : Options) (r : Runs) (v : Vars) : Flow :=
  if o.nomode then nomodeRun o r v else modeLoop o r o.mlist v

structure Result where
  exit : ℕ
  vars : Vars
  deriving DecidableEq

/-- while true, for at most fuel rounds -/
def mainLoop (o : Options) (r : Runs) : ℕ → Vars → Option Result
  | 0, _ => none
  | fuel+1, v =>
    match round o r v with
    | .error (code, v) => some ⟨code, v⟩
    | .ok v =>
      let v := { v with i := v.i + 1 }
      if o.iteration > 0 ∧ v.i ≥ o.iteration then some ⟨0, v⟩
      else if o.duration > 0 ∧ r.elaps v.i > o.duration then some ⟨0, v⟩
      else mainLoop o r fuel v

/-- loop.sh reports the failing runs: without "-i" it stops at the first one and exits with its
status, with "-i" it counts them. -/
def Detects (o : Options) (r : Runs) (res : Result) : Prop :=
  let total := o.iteration * o.perRound
  if o.ignoreErr then
    res.exit = 0 ∧ res.vars.i = o.iteration ∧ res.vars.runs = total ∧
      res.vars.errCount = (List.range total).countP fun k => r.status k ≠ 0
  else
    (∀ k < total, (∀ j < k, r.status j = 0) → r.status k ≠ 0 →
      res.exit = r.status k ∧ res.vars.runs = k+1) ∧
    ((∀ k < total, r.status k = 0) → res.exit = 0 ∧ res.vars.i = o.iteration ∧ res.vars.runs = total)

@[simp] lemma pipeStatus_tee (s : ℕ) : pipeStatus true [s, 0] = s := by
  by_cases h : s = 0 <;> simp [pipeStatus, h]

@[simp] lemma runProgram_last (o : Options) (r : Runs) (v : Vars) :
    (runProgram o r v).last = r.status v.runs := by
  cases h : o.display <;> simp [runProgram, h]

/-- Between the run and ext=$? the per-mode path tests its times, so it never sees a failure. -/
theorem modeRun_ok (o : Options) (r : Runs) (v : Vars) :
    ∃ v', modeRun o r v = .ok v' ∧ v'.i = v.i ∧ v'.runs = v.runs + 1 ∧ v'.errCount = v.errCount := by
  exact ⟨_, rfl, rfl, rfl, rfl⟩

lemma modeLoop_ok (o : Options) (r : Runs) (modes : List Word) (v : Vars) :
    ∃ v', modeLoop o r modes v = .ok v' ∧ v'.i = v.i ∧ v'.runs = v.runs + modes.length ∧
      v'.errCount = v.errCount := by
  induction modes generalizing v with
  | nil => exact ⟨v, rfl, rfl, rfl, rfl⟩
  | cons m modes ih =>
    obtain ⟨v₁, h₁, hi₁, hr₁, he₁⟩ := modeRun_ok o r v
    obtain ⟨v₂, h₂, hi₂, hr₂, he₂⟩ := ih v₁
    refine ⟨v₂, ?_, hi₂.trans hi₁, ?_, he₂.trans he₁⟩
    · simp only [modeLoop, h₁]
      exact h₂
    · rw [hr₂, hr₁, List.length_cons]
      omega

/-- The path without modes takes the status of the program itself. -/
lemma nomodeRun_eq (o : Options) (r : Runs) (v : Vars) :
    nomodeRun o r v =
      let v' := { runProgram o r v with ext := r.status v.runs, last := 0 }
      if r.status v.runs = 0 then .ok v'
      else if o.ignoreErr then .ok { v' with errCount := v.errCount + 1 }
      else .error (r.status v.runs, { v' with errCount := v.errCount + 1 }) := by
  unfold nomodeRun checkExt
  rw [runProgram_last]
  cases o.ignoreErr <;> by_cases h : r.status v.runs = 0 <;> simp [h] <;> rfl

/-- All rounds of the per-mode path are performed, and no run counts as an error. -/
lemma mainLoop_mode (o : Options) (r : Runs) (hmode : o.nomode = false) (htime : o.duration = 0) (n : ℕ)
    (hn : 0 < n) (v : Vars) (hv : v.i + n = o.iteration) :
    ∃ v', (∀ fuel ≥ n, mainLoop o r fuel v = some ⟨0, v'⟩) ∧ v'.i = o.iteration ∧
      v'.runs = v.runs + n * o.mlist.length ∧ v'.errCount = v.errCount := by
  induction n, hn using Nat.le_induction generalizing v with
  | base =>
    obtain ⟨v₁, h₁, hi, hr, he⟩ := modeLoop_ok o r o.mlist v
    refine ⟨{ v₁ with i := v₁.i + 1 }, fun fuel hfuel => ?_, by simp; omega, by simp [hr], he⟩
    obtain ⟨fuel, rfl⟩ := Nat.exists_eq_add_of_le' hfuel
    have hstop : 0 < o.iteration ∧ o.iteration ≤ v₁.i + 1 := by omega
    simp [mainLoop, round, hmode, h₁, hstop]
  | succ n hn ih =>
    obtain ⟨v₁, h₁, hi, hr, he⟩ := modeLoop_ok o r o.mlist v
    obtain ⟨v₂, h₂, hi₂, hr₂, he₂⟩ := ih { v₁ with i := v₁.i + 1 } (by simp; omega)
    refine ⟨v₂, fun fuel hfuel => ?_, hi₂, ?_, he₂.trans he⟩
    · obtain ⟨fuel, rfl⟩ := Nat.exists_eq_add_of_le' (Nat.le_of_add_left_le hfuel)
      have hgo : ¬ (0 < o.iteration ∧ o.iteration ≤ v₁.i + 1) := by omega
      simp only [mainLoop, round, hmode, h₁, Bool.false_eq_true, if_false, gt_iff_lt, ge_iff_le, hgo, htime,
        lt_irrefl, false_and]
      exact h₂ fuel (by omega)
    · rw [hr₂, hr, Nat.add_mul]
      omega

/-- One round of the path without modes, where the run does not end loop.sh. -/
lemma mainLoop_nomode_succ (o : Options) (r : Runs) (hno : o.nomode = true) (htime : o.duration = 0)
    (v : Vars) (hgo : r.status v.runs = 0 ∨ o.ignoreErr = true) :
    ∃ v', v'.i = v.i + 1 ∧ v'.runs = v.runs + 1 ∧
      v'.errCount = v.errCount + (if r.status v.runs = 0 then 0 else 1) ∧
      ∀ fuel, mainLoop o r (fuel+1) v =
        if 0 < o.iteration ∧ o.iteration ≤ v.i + 1 then some ⟨0, v'⟩ else mainLoop o r fuel v' := by
  have hrun := nomodeRun_eq o r v
  by_cases h : r.status v.runs = 0
  · simp only [h, if_true] at hrun
    exact ⟨{ runProgram o r v with i := v.i + 1, ext := 0, last := 0 }, rfl, rfl, by simp [h, runProgram],
      fun fuel => by simp [mainLoop, round, hno, hrun, htime]; rfl⟩
  · have hi := hgo.resolve_left h
    simp only [h, if_false, hi, if_true] at hrun
    exact ⟨{ runProgram o r v with i := v.i + 1, ext := r.status v.runs, last := 0, errCount := v.errCount + 1 },
      rfl, rfl, by simp [h], fun fuel => by simp [mainLoop, round, hno, hrun, htime]; rfl⟩

/-- Without "-i" a failing run ends it. -/
lemma mainLoop_nomode_fail (o : Options) (r : Runs) (hno : o.nomode = true) (hign : o.ignoreErr = false)
    (v : Vars) (h : r.status v.runs ≠ 0) :
    ∃ v', v'.runs = v.runs + 1 ∧ ∀ fuel, mainLoop o r (fuel+1) v = some ⟨r.status v.runs, v'⟩ := by
  have hrun := nomodeRun_eq o r v
  simp only [h, if_false, hign, Bool.false_eq_true] at hrun
  exact ⟨{ runProgram o r v with ext := r.status v.runs, last := 0, errCount := v.errCount + 1 }, rfl,
    fun fuel => by simp [mainLoop, round, hno, hrun]⟩

lemma mainLoop_nomode_ignore (o : Options) (r : Runs) (hno : o.nomode = true) (htime : o.duration = 0)
    (hign : o.ignoreErr = true) (n : ℕ) (hn : 0 < n) (v : Vars) (hv : v.i + n = o.iteration) :
    ∃ v', (∀ fuel ≥ n, mainLoop o r fuel v = some ⟨0, v'⟩) ∧ v'.i = o.iteration ∧ v'.runs = v.runs + n ∧
      v'.errCount = v.errCount + (List.range' v.runs n).countP fun k => r.status k ≠ 0 := by
  induction n, hn using Nat.le_induction generalizing v with
  | base =>
    obtain ⟨v₁, hi, hr, he, h₁⟩ := mainLoop_nomode_succ o r hno htime v (.inr hign)
    refine ⟨v₁, fun fuel hfuel => ?_, by omega, hr, ?_⟩
    · obtain ⟨fuel, rfl⟩ := Nat.exists_eq_add_of_le' hfuel
      rw [h₁, if_pos (by omega)]
    · rw [he]
      by_cases h : r.status v.runs = 0 <;> simp [h]
  | succ n hn ih =>
    obtain ⟨v₁, hi, hr, he, h₁⟩ := mainLoop_nomode_succ o r hno htime v (.inr hign)
    obtain ⟨v₂, h₂, hi₂, hr₂, he₂⟩ := ih v₁ (by omega)
    refine ⟨v₂, fun fuel hfuel => ?_, hi₂, by omega, ?_⟩
    · obtain ⟨fuel, rfl⟩ := Nat.exists_eq_add_of_le' (Nat.le_of_add_left_le hfuel)
      rw [h₁, if_neg (by omega)]
      exact h₂ fuel (by omega)
    · rw [he₂, he, hr, List.range'_succ, List.countP_cons]
      by_cases h : r.status v.runs = 0 <;> simp [h]
      omega

lemma mainLoop_nomode_stop (o : Options) (r : Runs) (hno : o.nomode = true) (htime : o.duration = 0)
    (hign : o.ignoreErr = false) (n : ℕ) (hn : 0 < n) (v : Vars) (hv : v.i + n = o.iteration) :
    ∃ res, (∀ fuel ≥ n, mainLoop o r fuel v = some res) ∧
      (∀ k < n, (∀ j < k, r.status (v.runs + j) = 0) → r.status (v.runs + k) ≠ 0 →
        res.exit = r.status (v.runs + k) ∧ res.vars.runs = v.runs + k + 1) ∧
      ((∀ k < n, r.status (v.runs + k) = 0) →
        res.exit = 0 ∧ res.vars.i = o.iteration ∧ res.vars.runs = v.runs + n) := by
  induction n, hn using Nat.le_induction generalizing v with
  | base =>
    by_cases h : r.status v.runs = 0
    · obtain ⟨v₁, hi, hr, -, h₁⟩ := mainLoop_nomode_succ o r hno htime v (.inl h)
      refine ⟨⟨0, v₁⟩, fun fuel hfuel => ?_, fun k hk _ hne => ?_, fun _ => ⟨rfl, by simp; omega, hr⟩⟩
      · obtain ⟨fuel, rfl⟩ := Nat.exists_eq_add_of_le' hfuel
        rw [h₁, if_pos (by omega)]
      · obtain rfl : k = 0 := by omega
        exact absurd h hne
    · obtain ⟨v₁, hr, h₁⟩ := mainLoop_nomode_fail o r hno hign v h
      refine ⟨⟨r.status v.runs, v₁⟩, fun fuel hfuel => ?_, fun k hk _ _ => ?_, fun hall => absurd (hall 0 (by omega)) h⟩
      · obtain ⟨fuel, rfl⟩ := Nat.exists_eq_add_of_le' hfuel
        exact h₁ fuel
      · obtain rfl : k = 0 := by omega
        exact ⟨rfl, hr⟩
  | succ n hn ih =>
    by_cases h : r.status v.runs = 0
    · obtain ⟨v₁, hi, hr, -, h₁⟩ := mainLoop_nomode_succ o r hno htime v (.inl h)
      obtain ⟨res, h₂, hfirst, hall⟩ := ih v₁ (by omega)
      have hshift : ∀ k, v₁.runs + k = v.runs + (k+1) := fun k => by omega
      simp only [hshift] at hfirst hall
      refine ⟨res, fun fuel hfuel => ?_, fun k hk hbefore hne => ?_, fun hz => ?_⟩
      · obtain ⟨fuel, rfl⟩ := Nat.exists_eq_add_of_le' (Nat.le_of_add_left_le hfuel)
        rw [h₁, if_neg (by omega)]
        exact h₂ fuel (by omega)
      · cases k with
        | zero => exact absurd h hne
        | succ k => exact hfirst k (by omega) (fun j hj => hbefore (j+1) (by omega)) hne
      · obtain ⟨he, hi₂, hr₂⟩ := hall fun k hk => hz (k+1) (by omega)
        exact ⟨he, hi₂, by omega⟩
    · obtain ⟨v₁, hr, h₁⟩ := mainLoop_nomode_fail o r hno hign v h
      refine ⟨⟨r.status v.runs, v₁⟩, fun fuel hfuel => ?_, fun k hk hbefore _ => ?_, fun hall => absurd (hall 0 (by omega)) h⟩
      · obtain ⟨fuel, rfl⟩ := Nat.exists_eq_add_of_le' (Nat.le_of_add_left_le hfuel)
        exact h₁ _
      · cases k with
        | zero => exact ⟨rfl, hr⟩
        | succ k => exact absurd (hbefore 0 (by omega)) h

/-- loop.sh comes to its end within its iteration limit, and it reports the failing runs exactly under
"-N", or where no run fails. -/
theorem detects_iff (o : Options) (r : Runs) (hiter : 1 ≤ o.iteration) (htime : o.duration = 0) :
    ∃ res, (∀ fuel ≥ o.iteration, mainLoop o r fuel {} = some res) ∧
      (Detects o r res ↔ o.nomode = true ∨ ∀ k < o.iteration * o.mlist.length, r.status k = 0) := by
  cases hno : o.nomode with
  | true =>
    have hper : o.perRound = 1 := by simp [Options.perRound, hno]
    cases hign : o.ignoreErr with
    | true =>
      obtain ⟨v, hrun, hi, hr, he⟩ := mainLoop_nomode_ignore o r hno htime hign o.iteration hiter {} (by simp)
      refine ⟨⟨0, v⟩, hrun, by simp, fun _ => ?_⟩
      simp only [Detects, hign, if_true, hper, Nat.mul_one, hr, he, List.range_eq_range']
      exact ⟨trivial, hi, by simp, by simp⟩
    | false =>
      obtain ⟨res, hrun, hfirst, hall⟩ := mainLoop_nomode_stop o r hno htime hign o.iteration hiter {} (by simp)
      refine ⟨res, hrun, by simp, fun _ => ?_⟩
      simpa [Detects, hign, hper] using And.intro hfirst hall
  | false =>
    obtain ⟨v, hrun, hi, hr, he⟩ := mainLoop_mode o r hno htime o.iteration hiter {} (by simp)
    have hper : o.perRound = o.mlist.length := by simp [Options.perRound, hno]
    have hr' : v.runs = o.iteration * o.mlist.length := by simpa using hr
    have he' : v.errCount = 0 := he
    refine ⟨⟨0, v⟩, hrun, ?_⟩
    simp only [Bool.false_eq_true, false_or]
    cases hign : o.ignoreErr with
    | true =>
      have hcount : (List.range (o.iteration * o.mlist.length)).countP (fun k => decide (r.status k ≠ 0)) = 0 ↔
          ∀ k < o.iteration * o.mlist.length, r.status k = 0 := by simp [List.countP_eq_zero]
      simp only [Detects, hign, if_true, hper, hi, hr', he', true_and, eq_comm (a := 0), hcount]
    | false =>
      simp only [Detects, hign, Bool.false_eq_true, if_false, hper, hi, hr']
      constructor
      · rintro ⟨hfirst, -⟩ k
        -- the first failing run would have been the exit status, but this path exits with 0
        induction k using Nat.strong_induction_on with
        | _ k ih =>
          intro hk
          by_contra hne
          exact hne (hfirst k hk (fun j hj => ih j hj (by omega)) hne).1.symm
      · intro hz
        exact ⟨fun k hk _ hne => absurd (hz k hk) hne, fun _ => ⟨trivial, trivial, trivial⟩⟩

/-- Two rounds under "-T" of a program that fails in its first run. -/
def failingRun : Options × Runs :=
  (⟨["-T".toList], fun _ => true, false, false, false, 2, 0⟩, ⟨fun k => if k = 0 then 1 else 0, fun _ => 0, fun _ => 0⟩)

theorem detects_iff_failingRun :
    1 ≤ failingRun.1.iteration ∧ failingRun.1.duration = 0 ∧
    ∃ res, (∀ fuel ≥ failingRun.1.iteration, mainLoop failingRun.1 failingRun.2 fuel {} = some res) ∧
      (Detects failingRun.1 failingRun.2 res ↔ failingRun.1.nomode = true ∨
        ∀ k < failingRun.1.iteration * failingRun.1.mlist.length, failingRun.2.status k = 0) :=
  ⟨by decide, rfl, detects_iff _ _ (by decide) rfl⟩

theorem failing_run_exits_zero :
    ∃ v, mainLoop failingRun.1 failingRun.2 2 {} = some ⟨0, v⟩ ∧ v.runs = 2 ∧ v.errCount = 0 ∧
      ¬ Detects failingRun.1 failingRun.2 ⟨0, v⟩ := by
  refine ⟨_, rfl, by decide, by decide, fun h => ?_⟩
  have hfirst := h.1 0 (by decide) (by omega) (by decide)
  exact absurd hfirst.1 (by decide)

end PipTestsuite.LoopSh
