import PipTestsuite.TestSh.Counters

/-! A killed test. The list that executes it stops there; the lists that include that list do not
look at the exit status of the nested test.sh and go on. -/
namespace PipTestsuite.TestSh
open RotatingLog

variable {Dir : Type*}

namespace ListFile

/-- The commands of all lists that a run can read. -/
def commands : ListFile Dir → List (List Word)
  | .eof => []
  | .line words rest => if IsCommand words then words :: rest.commands else rest.commands
  | .incl ifile _ body rest => (if IsListName ifile then body.commands else []) ++ rest.commands

/-- The commands that the enclosing lists still have when the list of command j stops there. -/
def above : ListFile Dir → ℕ → List (List Word)
  | .eof, _ => []
  | .line words rest, j =>
    if IsCommand words then
      match j with
      | 0 => []
      | j+1 => rest.above j
    else rest.above j
  | .incl ifile _ body rest, j =>
    if IsListName ifile then
      if j < body.commands.length then body.above j ++ rest.commands
      else rest.above (j - body.commands.length)
    else rest.above j

end ListFile

/-- The first killed execution from k on is the i-th. -/
def FirstKill (outcome : ℕ → Outcome) (k i : ℕ) : Prop :=
  (outcome (k+i)).exitStatus = exitKilled ∧ ¬ KilledIn outcome k i

lemma FirstKill.killedIn {outcome : ℕ → Outcome} {k i n : ℕ} (h : FirstKill outcome k i) (hn : i < n) :
    KilledIn outcome k n := ⟨i, hn, h.1⟩

lemma FirstKill.not_killedIn {outcome : ℕ → Outcome} {k i n : ℕ} (h : FirstKill outcome k i) (hn : n ≤ i) :
    ¬ KilledIn outcome k n := fun ⟨j, hj, hk⟩ => h.2 ⟨j, by omega, hk⟩

lemma FirstKill.shift {outcome : ℕ → Outcome} {k i n : ℕ} (h : FirstKill outcome k i) (hn : n ≤ i) :
    FirstKill outcome (k+n) (i-n) := by
  refine ⟨by rw [show k+n+(i-n) = k+i by omega]; exact h.1, fun ⟨j, hj, hk⟩ => h.2 ⟨n+j, by omega, ?_⟩⟩
  rwa [show k+(n+j) = k+n+j by omega]

lemma KilledIn.shift {outcome : ℕ → Outcome} {k n m : ℕ} (h : KilledIn outcome (k+n) m) :
    KilledIn outcome k (n+m) := by
  obtain ⟨j, hj, hk⟩ := h
  exact ⟨n+j, by omega, by rwa [show k+(n+j) = k+n+j by omega]⟩

lemma KilledIn.mono {outcome : ℕ → Outcome} {k n m : ℕ} (h : KilledIn outcome k n) (hn : n ≤ m) :
    KilledIn outcome k m := by
  obtain ⟨j, hj, hk⟩ := h
  exact ⟨j, by omega, hk⟩

/-- Some execution is killed first, where one is killed at all. -/
lemma KilledIn.exists_first {outcome : ℕ → Outcome} {k n : ℕ} (h : KilledIn outcome k n) :
    ∃ i < n, FirstKill outcome k i := by
  have hex : ∃ i, (outcome (k+i)).exitStatus = exitKilled := h.imp fun _ hi => hi.2
  obtain ⟨j, hj, hk⟩ := h
  have hle : Nat.find hex ≤ j := Nat.find_min' hex hk
  refine ⟨Nat.find hex, by omega, Nat.find_spec hex, fun ⟨i, hi, hki⟩ => Nat.find_min hex hi hki⟩

lemma length_walkModes_first (outcome : ℕ → Outcome) (dir : Dir) (incFn : Word) (words : List Word)
    (modes : List PipMode) (k i : ℕ) (h : FirstKill outcome k i) (hi : i < modes.length) :
    (walkModes outcome dir incFn words modes k).length = i+1 := by
  induction modes generalizing k i with
  | nil => simp at hi
  | cons m modes ih =>
    cases i with
    | zero =>
      have h0 : (outcome k).exitStatus = exitKilled := h.1
      simp [walkModes, h0]
    | succ i =>
      have h0 : (outcome k).exitStatus ≠ exitKilled := fun hk => h.2 ⟨0, by omega, hk⟩
      have hs : FirstKill outcome (k+1) i := h.shift (Nat.succ_le_succ (Nat.zero_le i))
      simp [walkModes, h0, ih (k+1) i hs (by simpa using hi)]

section Walk
variable (outcome : ℕ → Outcome) (modes : List PipMode)

/-- Without a kill all commands are executed in all modes. -/
theorem length_walk (file : ListFile Dir) (dir : Dir) (incFn : Word) (k : ℕ)
    (h : ¬ KilledIn outcome k (file.commands.length * modes.length)) :
    (execs (walk outcome modes file dir incFn k)).length = file.commands.length * modes.length := by
  induction file generalizing dir incFn k with
  | eof => simp [walk, ListFile.commands]
  | line words rest ih =>
    by_cases hcmd : IsCommand words
    · simp only [ListFile.commands, hcmd, if_true, List.length_cons, Nat.succ_mul] at h ⊢
      have hk : ¬ KilledIn outcome k modes.length := fun hk => h (hk.mono (by omega))
      have hrest : ¬ KilledIn outcome (k + modes.length) (rest.commands.length * modes.length) :=
        fun hr => h (hr.shift.mono (by omega))
      simp only [walk, hcmd, if_true, hk, if_false, execs_append, execs_map_exec, List.length_append,
        length_walkModes _ _ _ _ _ _ hk, ih dir incFn _ hrest]
      omega
    · simp only [ListFile.commands, hcmd, if_false] at h ⊢
      simp only [walk, hcmd, if_false]
      split_ifs <;> simpa using ih dir incFn k h
  | incl ifile sub body rest ihb ihr =>
    by_cases hname : IsListName ifile
    · simp only [ListFile.commands, hname, if_true, List.length_append, Nat.add_mul] at h ⊢
      have hb : ¬ KilledIn outcome k (body.commands.length * modes.length) := fun hk => h (hk.mono (by omega))
      have hr : ¬ KilledIn outcome (k + body.commands.length * modes.length)
          (rest.commands.length * modes.length) := fun hr => h hr.shift
      simp [walk, hname, ihb sub (incFnOf ifile) k hb, ihr dir incFn _ hr]
    · simp only [ListFile.commands, hname, if_false, List.nil_append] at h ⊢
      simpa [walk, hname] using ihr dir incFn k h

/-- A list with a command executes something, whatever is killed. -/
theorem length_walk_eq_zero (hmodes : modes ≠ []) (file : ListFile Dir) (dir : Dir) (incFn : Word) (k : ℕ) :
    (execs (walk outcome modes file dir incFn k)).length = 0 ↔ file.commands = [] := by
  induction file generalizing dir incFn k with
  | eof => simp [walk, ListFile.commands]
  | line words rest ih =>
    by_cases hcmd : IsCommand words
    · obtain ⟨m, ms, rfl⟩ := List.exists_cons_of_ne_nil hmodes
      have hpos : walkModes outcome dir incFn words (m :: ms) k ≠ [] := by
        simp only [walkModes]
        split_ifs <;> simp
      simp [walk, ListFile.commands, hcmd, hpos]
    · simp only [walk, ListFile.commands, hcmd, if_false]
      split_ifs <;> simpa using ih dir incFn k
  | incl ifile sub body rest ihb ihr =>
    by_cases hname : IsListName ifile
    · have hb := ihb sub (incFnOf ifile) k
      have hr := ihr dir incFn (k + (execs (walk outcome modes body sub (incFnOf ifile) k)).length)
      simp only [walk, ListFile.commands, hname, if_true, execs_start, execs_rotate, execs_append,
        execs_leave, List.length_append, List.append_eq_nil_iff, Nat.add_eq_zero_iff, hb, hr]
    · simpa [walk, ListFile.commands, hname] using ihr dir incFn k

/-- The first kill is executed, and something after it exactly where enclosing lists go on. -/
theorem length_walk_first (hmodes : modes ≠ []) (file : ListFile Dir) (dir : Dir) (incFn : Word) (k i : ℕ)
    (h : FirstKill outcome k i) (hi : i < file.commands.length * modes.length) :
    i+1 ≤ (execs (walk outcome modes file dir incFn k)).length ∧
      ((execs (walk outcome modes file dir incFn k)).length = i+1 ↔ file.above (i / modes.length) = []) := by
  have hpos : 0 < modes.length := List.length_pos_iff.mpr hmodes
  induction file generalizing dir incFn k i with
  | eof => simp [ListFile.commands] at hi
  | line words rest ih =>
    by_cases hcmd : IsCommand words
    · simp only [ListFile.commands, hcmd, if_true, List.length_cons, Nat.succ_mul] at hi
      simp only [walk, ListFile.above, hcmd, if_true]
      by_cases him : i < modes.length
      · have hlen := length_walkModes_first outcome dir incFn words modes k i h him
        simp [h.killedIn him, hlen, Nat.div_eq_of_lt him]
      · obtain ⟨hle, hiff⟩ := ih dir incFn (k + modes.length) (i - modes.length) (h.shift (by omega)) (by omega)
        have hk := h.not_killedIn (n := modes.length) (by omega)
        have hdiv : i / modes.length = (i - modes.length) / modes.length + 1 := by
          rw [← Nat.add_div_right _ hpos, Nat.sub_add_cancel (by omega)]
        simp only [hk, if_false, execs_append, execs_map_exec, List.length_append,
          length_walkModes _ _ _ _ _ _ hk, hdiv, ← hiff]
        omega
    · simp only [ListFile.commands, hcmd, if_false] at hi
      simp only [walk, ListFile.above, hcmd, if_false]
      split_ifs <;> simpa using ih dir incFn k i h hi
  | incl ifile sub body rest ihb ihr =>
    by_cases hname : IsListName ifile
    · simp only [ListFile.commands, hname, if_true, List.length_append, Nat.add_mul] at hi
      simp only [walk, ListFile.above, hname, if_true, execs_start, execs_rotate, execs_append, execs_leave,
        List.length_append]
      by_cases hib : i < body.commands.length * modes.length
      · obtain ⟨hle, hiff⟩ := ihb sub (incFnOf ifile) k i h hib
        have hrest := length_walk_eq_zero outcome modes hmodes rest dir incFn
          (k + (execs (walk outcome modes body sub (incFnOf ifile) k)).length)
        have hdiv : i / modes.length < body.commands.length := (Nat.div_lt_iff_lt_mul hpos).mpr hib
        rw [if_pos hdiv, List.append_eq_nil_iff, ← hiff, ← hrest]
        omega
      · have hb := length_walk outcome modes body sub (incFnOf ifile) k (h.not_killedIn (by omega))
        obtain ⟨hle, hiff⟩ := ihr dir incFn (k + body.commands.length * modes.length)
          (i - body.commands.length * modes.length) (h.shift (by omega)) (by omega)
        have hdiv : ¬ i / modes.length < body.commands.length := by
          rwa [Nat.div_lt_iff_lt_mul hpos]
        rw [if_neg hdiv, hb, ← Nat.sub_mul_div, Nat.mul_comm modes.length, ← hiff]
        omega
    · simp only [ListFile.commands, hname, if_false, List.nil_append] at hi
      simpa [walk, ListFile.above, hname] using ihr dir incFn k i h hi

end Walk

lemma status_of_split (outcome : ℕ → Outcome) (modes : List PipMode) (file : ListFile Dir) (dir : Dir)
    (incFn : Word) (before after : List (Exec Dir)) (e : Exec Dir)
    (h : execs (walk outcome modes file dir incFn 0) = before ++ e :: after) :
    e.status = Status.ofExit (outcome before.length).exitStatus := by
  have hstat := walk_statuses outcome modes file dir incFn 0
  rw [h] at hstat
  have hget := congrArg (fun l => l[before.length]?) hstat
  simpa using hget

/-- The first killed pair, if any, belongs to a list under which no enclosing list has a command left. -/
def NothingAbove (outcome : ℕ → Outcome) (modes : List PipMode) (file : ListFile Dir) : Prop :=
  ∀ i < file.commands.length * modes.length, FirstKill outcome 0 i → file.above (i / modes.length) = []

/-- A killed pair is the last one of a run exactly where no enclosing list goes on. -/
theorem walk_kill_last_iff (outcome : ℕ → Outcome) (modes : List PipMode) (hmodes : modes ≠ [])
    (file : ListFile Dir) (dir : Dir) (incFn : Word) :
    (∀ before e after, execs (walk outcome modes file dir incFn 0) = before ++ e :: after →
        e.status = .killed → after = []) ↔ NothingAbove outcome modes file := by
  constructor
  · intro hlast i hi hfirst
    obtain ⟨hle, hiff⟩ := length_walk_first outcome modes hmodes file dir incFn 0 i hfirst hi
    generalize hex : execs (walk outcome modes file dir incFn 0) = ex at hlast hle hiff
    have hsplit : ex = ex.take i ++ ex[i] :: ex.drop (i+1) := by simp
    have hkill : (ex[i]).status = .killed := by
      have hs := status_of_split outcome modes file dir incFn _ _ _ (hex.trans hsplit)
      rw [hs, List.length_take, Nat.min_eq_left (by omega), Status.ofExit_eq_killed_iff]
      simpa using hfirst.1
    have hdrop := hlast _ _ _ hsplit hkill
    rw [List.drop_eq_nil_iff] at hdrop
    exact hiff.mp (by omega)
  · intro habove before e after hex hkill
    have hk : (outcome before.length).exitStatus = exitKilled := by
      rw [← Status.ofExit_eq_killed_iff, ← status_of_split outcome modes file dir incFn _ _ _ hex, hkill]
    have hlen : before.length + 1 + after.length = (execs (walk outcome modes file dir incFn 0)).length := by
      rw [hex]; simp; omega
    have hin : KilledIn outcome 0 (file.commands.length * modes.length) := by
      by_contra hno
      have hall := length_walk outcome modes file dir incFn 0 hno
      exact hno ⟨before.length, by omega, by rwa [Nat.zero_add]⟩
    obtain ⟨i, hi, hfirst⟩ := hin.exists_first
    have hib : i ≤ before.length := by
      by_contra hlt
      exact hfirst.2 ⟨before.length, by omega, by rwa [Nat.zero_add]⟩
    have hlast := (length_walk_first outcome modes hmodes file dir incFn 0 i hfirst hi).2.mpr (habove i hi hfirst)
    exact List.eq_nil_of_length_eq_zero (by omega)

section TopLevel
variable [DecidableEq Dir]

/-- A killed pair stops the run, and the top level exits with EXIT_KILLED, exactly where no enclosing
list has a command left. -/
theorem kill_stops_run_iff (env : Env) (args : List Word) (run : RunTest)
    (hmodes : selectedModes env args = some run) (file : ListFile Dir) (cwd dir : Dir)
    (errorLog : Option (List ErrorEntry)) (old : Dir → Log Word) :
    ∃ w r, testSh env cwd dir args file (initial errorLog old) = (w, some r) ∧
      (((∀ before e after, w.files.executed = before ++ e :: after → e.status = .killed → after = []) ∧
          ((∃ e ∈ w.files.executed, e.status = .killed) → r.exit = exitKilled)) ↔
        NothingAbove env.outcome run.modeList file) := by
  obtain ⟨f, -, hexec, h⟩ := testSh_initial env args run hmodes file cwd dir errorLog old
  refine ⟨_, _, h, ?_⟩
  simp only [Files.appendLog, Files.appendXml, hexec]
  have hne := (selectedModes_testable env args run hmodes).nonempty
  rw [walk_kill_last_iff env.outcome run.modeList hne file dir [], and_iff_left]
  rintro ⟨e, he, hkill⟩
  have hcount := get_accountAll (resetSummary env) (execs (walk env.outcome run.modeList file dir [] 0)) .killed
  have hpos : 0 < ((execs (walk env.outcome run.modeList file dir [] 0)).map Exec.status).count .killed :=
    List.count_pos_iff.mpr (hkill ▸ List.mem_map_of_mem he)
  have hkilled : ((resetSummary env).accountAll
      (execs (walk env.outcome run.modeList file dir [] 0))).n.nKilled ≠ 0 := by
    simp only [Counters.get] at hcount
    omega
  simp [exitStatus, hkilled]

theorem kill_stops_run_iff_nested :
    selectedModes (plainEnv fun _ => 7) ["-T".toList, "a.list".toList] = some { T := true } ∧
    ∃ w r, testSh (plainEnv fun _ => 7) 0 0 ["-T".toList, "a.list".toList]
        (.incl "s.list".toList 0 (.line ["a".toList] .eof) (.line ["b".toList] .eof))
        (initial none fun _ => {}) = (w, some r) ∧
      (((∀ before e after, w.files.executed = before ++ e :: after → e.status = .killed → after = []) ∧
          ((∃ e ∈ w.files.executed, e.status = .killed) → r.exit = exitKilled)) ↔
        NothingAbove (plainEnv fun _ => 7).outcome [.T]
          (.incl "s.list".toList 0 (.line ["a".toList] .eof) (.line ["b".toList] .eof) : ListFile ℕ)) := by
  have hmodes : selectedModes (plainEnv fun _ => 7) ["-T".toList, "a.list".toList] =
      some { T := true } := by decide
  exact ⟨hmodes, kill_stops_run_iff _ _ _ hmodes _ 0 0 none fun _ => {}⟩

/-- The included list is killed in its only test, and its parent executes the next one. -/
theorem kill_in_nested_list_goes_on :
    ∃ e e', (testSh (plainEnv fun k => if k = 0 then 7 else 0) 0 0 ["-T".toList, "a.list".toList]
        (.incl "s.list".toList 0 (.line ["a".toList] .eof) (.line ["b".toList] .eof))
        (initial none fun _ => {})).1.files.executed = [e, e'] ∧
      e.status = .killed ∧ e'.words = ["b".toList] :=
  ⟨_, _, rfl, by decide, rfl⟩

end TopLevel

end PipTestsuite.TestSh
