import PipTestsuite.TestSh.Walk

/-! The counters of a run: a tree of test lists counts like the flat list of its commands. -/
namespace PipTestsuite.TestSh
open RotatingLog

variable {Dir : Type*}

namespace ListFile

/-- The commands of a tree of lists, each list in place of the line that includes it. -/
def flatten : ListFile Dir → List (List Word)
  | .eof => []
  | .line words rest => if IsCommand words then words :: rest.flatten else rest.flatten
  | .incl _ _ body rest => body.flatten ++ rest.flatten

/-- One list with the given lines. -/
def ofLines : List (List Word) → ListFile Dir
  | [] => .eof
  | words :: lines => .line words (ofLines lines)

/-- No include names an option. -/
def AllNamed : ListFile Dir → Prop
  | .eof => True
  | .line _ rest => rest.AllNamed
  | .incl ifile _ body rest => IsListName ifile ∧ body.AllNamed ∧ rest.AllNamed

theorem isCommand_of_mem_flatten (file : ListFile Dir) (words : List Word) (h : words ∈ file.flatten) :
    IsCommand words := by
  induction file with
  | eof => simp [flatten] at h
  | line w rest ih =>
    simp only [flatten] at h
    split_ifs at h with hw
    · rcases List.mem_cons.mp h with rfl | h
      · exact hw
      · exact ih h
    · exact ih h
  | incl _ _ body rest ihb ihr =>
    rcases List.mem_append.mp h with h | h
    · exact ihb h
    · exact ihr h

lemma flatten_ofLines (lines : List (List Word)) (h : ∀ words ∈ lines, IsCommand words) :
    (ofLines lines : ListFile Dir).flatten = lines := by
  induction lines with
  | nil => rfl
  | cons words lines ih =>
    simp [ofLines, flatten, h words (by simp), ih (fun w hw => h w (by simp [hw]))]

lemma allNamed_ofLines (lines : List (List Word)) : (ofLines lines : ListFile Dir).AllNamed := by
  induction lines with
  | nil => trivial
  | cons words lines ih => exact ih

end ListFile

/-- The executed pair of command and mode. -/
def Exec.pair (e : Exec Dir) : List Word × PipMode := (e.words, e.mode)

lemma walkModes_pairs (outcome : ℕ → Outcome) (hkill : ∀ k, (outcome k).exitStatus ≠ exitKilled)
    (dir : Dir) (incFn : Word) (words : List Word) (modes : List PipMode) (k : ℕ) :
    (walkModes outcome dir incFn words modes k).map Exec.pair = modes.map (words, ·) := by
  induction modes generalizing k with
  | nil => rfl
  | cons m modes ih => simp [walkModes, hkill, ih, Exec.pair]

/-- Without a kill, a tree executes the commands of its flattening, each once per mode. -/
theorem walk_pairs (outcome : ℕ → Outcome) (hkill : ∀ k, (outcome k).exitStatus ≠ exitKilled)
    (modes : List PipMode) (file : ListFile Dir) (hnames : file.AllNamed) (dir : Dir) (incFn : Word) (k : ℕ) :
    (execs (walk outcome modes file dir incFn k)).map Exec.pair =
      file.flatten.flatMap fun words => modes.map (words, ·) := by
  have hin : ∀ k n, ¬ KilledIn outcome k n := fun k n ⟨i, _, h⟩ => hkill (k+i) h
  induction file generalizing dir incFn k with
  | eof => rfl
  | line words rest ih =>
    simp only [walk, hin, if_false, ListFile.flatten]
    split_ifs with hcmd hinc
    · simp [walkModes_pairs outcome hkill, ih hnames]
    · simpa using ih hnames dir incFn k
    · exact ih hnames dir incFn k
  | incl ifile sub body rest ihb ihr =>
    obtain ⟨hname, hb, hr⟩ := hnames
    simp [walk, hname, ListFile.flatten, ihb hb, ihr hr]

/-- The summary counts each verdict as often as it occurs. -/
theorem get_accountAll (s : Summary) (es : List (Exec Dir)) (t : Status) :
    (s.accountAll es).n.get t = s.n.get t + (es.map Exec.status).count t := by
  induction es generalizing s with
  | nil => simp
  | cons e es ih =>
    rw [Summary.accountAll_cons, ih, List.map_cons, List.count_cons]
    simp only [Summary.account, Counters.get_incr, beq_iff_eq]
    omega

theorem total_accountAll (s : Summary) (es : List (Exec Dir)) :
    (s.accountAll es).n.total = s.n.total + es.length := by
  induction es generalizing s with
  | nil => simp
  | cons e es ih =>
    rw [Summary.accountAll_cons, ih, List.length_cons]
    simp only [Summary.account, Counters.total_incr]
    omega

lemma Counters.ext_get {n n' : Counters} (h : ∀ t, n.get t = n'.get t) : n = n' := by
  have h1 := h .pass
  have h2 := h .fail
  have h3 := h .xpass
  have h4 := h .xfail
  have h5 := h .unresolved
  have h6 := h .untested
  have h7 := h .unsupported
  have h8 := h .killed
  cases n
  cases n'
  simp_all [Counters.get]

lemma Counters.get_zero (t : Status) : ({} : Counters).get t = 0 := by cases t <;> rfl

lemma Counters.total_zero : ({} : Counters).total = 0 := rfl

lemma resetSummary_n (env : Env) : (resetSummary env).n = {} := rfl

/-- The verdicts of a list are those of the outcomes that its executions are numbered with. -/
theorem walk_statuses (outcome : ℕ → Outcome) (modes : List PipMode) (file : ListFile Dir) (dir : Dir)
    (incFn : Word) (k : ℕ) :
    (execs (walk outcome modes file dir incFn k)).map Exec.status =
      (List.range' k (execs (walk outcome modes file dir incFn k)).length).map
        fun i => Status.ofExit (outcome i).exitStatus := by
  rw [← walk_stamps, List.map_map]
  apply List.map_congr_left
  intro e he
  rw [Exec.status, walk_outcome outcome modes file dir incFn k e he]
  rfl

/-- The exit status of the top level without a threshold. -/
theorem exitStatus_eq_pass_iff (env : Env) (hthr : env.pipTestThreshold = none) (nested : Bool) (n : Counters) :
    exitStatus env nested n = exitPass ↔ n.nKilled = 0 ∧ 0 < n.nPass ∧ n.nFail = 0 ∧ n.nUnresolved = 0 := by
  unfold exitStatus
  rw [hthr]
  split_ifs <;> simp_all [exitKilled, exitFail, exitPass]

section TopLevel
variable [DecidableEq Dir]

/-- What a run without a kill executes and counts, read off the flattening of its tree. -/
lemma testSh_counts (env : Env) (args : List Word) (run : RunTest) (hmodes : selectedModes env args = some run)
    (hkill : ∀ k, (env.outcome k).exitStatus ≠ exitKilled) (file : ListFile Dir) (hnames : file.AllNamed)
    (cwd dir : Dir) (errorLog : Option (List ErrorEntry)) (old : Dir → Log Word) :
    ∃ w r, testSh env cwd dir args file (initial errorLog old) = (w, some r) ∧
      w.files.executed.map Exec.pair = (file.flatten.flatMap fun words => run.modeList.map (words, ·)) ∧
      w.files.executed.map Exec.status = (List.range' 0 w.files.executed.length).map
        (fun i => Status.ofExit (env.outcome i).exitStatus) ∧
      (∀ t, r.n.get t = (w.files.executed.map Exec.status).count t) ∧
      r.total = w.files.executed.length ∧ r.exit = exitStatus env false r.n := by
  obtain ⟨f, -, hexec, h⟩ := testSh_initial env args run hmodes file cwd dir errorLog old
  refine ⟨_, _, h, ?_, ?_, ?_, ?_, rfl⟩
  · simp only [Files.appendLog, Files.appendXml, hexec]
    exact walk_pairs env.outcome hkill run.modeList file hnames dir [] 0
  · simp only [Files.appendLog, Files.appendXml, hexec]
    exact walk_statuses env.outcome run.modeList file dir [] 0
  · intro t
    simp only [Files.appendLog, Files.appendXml, hexec]
    rw [get_accountAll, resetSummary_n, Counters.get_zero, zero_add]
  · simp only [Files.appendLog, Files.appendXml, hexec]
    rw [total_accountAll, resetSummary_n, Counters.total_zero, zero_add]

/-- The recursive run over a tree of lists executes what the flat run over its commands executes, each
command under the modes in the order L G C T, and ends with the counters of the flat run. -/
theorem recursive_run_eq_flat_run (env : Env) (args : List Word) (run : RunTest)
    (hmodes : selectedModes env args = some run) (hkill : ∀ k, (env.outcome k).exitStatus ≠ exitKilled)
    (file : ListFile Dir) (hnames : file.AllNamed) (cwd dir : Dir) (errorLog : Option (List ErrorEntry))
    (old : Dir → Log Word) :
    ∃ w r w' r', testSh env cwd dir args file (initial errorLog old) = (w, some r) ∧
      testSh env cwd dir args (.ofLines file.flatten) (initial errorLog old) = (w', some r') ∧
      w.files.executed.map Exec.pair = (file.flatten.flatMap fun words => run.modeList.map (words, ·)) ∧
      w'.files.executed.map Exec.pair = w.files.executed.map Exec.pair ∧
      r.n = r'.n ∧ r.total = w.files.executed.length ∧
      (env.pipTestThreshold = none → (r.exit = exitPass ↔
        (∃ e ∈ w.files.executed, e.status = .pass) ∧ ∀ e ∈ w.files.executed, ¬ e.status.IsFailure)) := by
  obtain ⟨w, r, hrun, hpairs, hstat, hn, htotal, hexit⟩ :=
    testSh_counts env args run hmodes hkill file hnames cwd dir errorLog old
  obtain ⟨w', r', hrun', hpairs', hstat', hn', -, -⟩ := testSh_counts env args run hmodes hkill
    (.ofLines file.flatten) (ListFile.allNamed_ofLines _) cwd dir errorLog old
  rw [ListFile.flatten_ofLines _ (ListFile.isCommand_of_mem_flatten file)] at hpairs'
  have hlen : w'.files.executed.length = w.files.executed.length := by
    simpa using congrArg List.length (hpairs'.trans hpairs.symm)
  have hsame : w'.files.executed.map Exec.status = w.files.executed.map Exec.status := by
    rw [hstat', hstat, hlen]
  refine ⟨w, r, w', r', hrun, hrun', hpairs, hpairs'.trans hpairs.symm, ?_, htotal, ?_⟩
  · exact Counters.ext_get fun t => by rw [hn, hn', hsame]
  · intro hthr
    have hcount : ∀ t, r.n.get t = 0 ↔ ∀ e ∈ w.files.executed, e.status ≠ t := fun t => by
      rw [hn t, List.count_eq_zero]
      simp
    have hkilled : r.n.nKilled = 0 := (hcount .killed).mpr fun e he hs => by
      have hmem : e.status ∈ w.files.executed.map Exec.status := List.mem_map_of_mem he
      rw [hstat, hs] at hmem
      obtain ⟨i, -, hi⟩ := List.mem_map.mp hmem
      exact hkill i ((Status.ofExit_eq_killed_iff _).mp hi)
    have hpass : r.n.nPass = 0 ↔ _ := hcount .pass
    have hfail : r.n.nFail = 0 ↔ _ := hcount .fail
    have hunres : r.n.nUnresolved = 0 ↔ _ := hcount .unresolved
    rw [hexit, exitStatus_eq_pass_iff env hthr, Nat.pos_iff_ne_zero, Ne, hpass, hfail, hunres]
    simp only [hkilled, true_and, Status.IsFailure, not_or]
    grind

/-- A machine on which all modes are testable, and commands that exit with the given statuses. -/
def plainEnv (status : ℕ → ℕ) : Env where
  cloneReady := true
  modeCheck := pipModeName
  outcome k := { exitStatus := status k }

theorem recursive_run_eq_flat_run_nested :
    selectedModes (plainEnv (· % 7)) ["-LT".toList, "all.list".toList] = some { L := true, T := true } ∧
    ∃ w r w' r', testSh (plainEnv (· % 7)) 0 0 ["-LT".toList, "all.list".toList]
        (.line ["a".toList] (.incl "sub/s.list".toList 1 (.line ["b".toList, "c".toList] .eof) .eof))
        (initial none fun _ => {}) = (w, some r) ∧
      testSh (plainEnv (· % 7)) 0 0 ["-LT".toList, "all.list".toList]
        (.ofLines [["a".toList], ["b".toList, "c".toList]]) (initial none fun _ => {}) = (w', some r') ∧
      r.n = r'.n := by
  have hmodes : selectedModes (plainEnv (· % 7)) ["-LT".toList, "all.list".toList] =
      some { L := true, T := true } := by decide
  have hkill : ∀ k, ((plainEnv (· % 7)).outcome k).exitStatus ≠ exitKilled := fun k => by
    have h : k % 7 < 7 := Nat.mod_lt k (by omega)
    exact ne_of_lt h
  obtain ⟨w, r, w', r', h, h', -, -, hn, -⟩ := recursive_run_eq_flat_run _ _ _ hmodes hkill
    (.line ["a".toList] (.incl "sub/s.list".toList 1 (.line ["b".toList, "c".toList] .eof) .eof) : ListFile ℕ)
    ⟨by decide, trivial, trivial⟩ 0 0 none fun _ => {}
  exact ⟨hmodes, w, r, w', r', h, h', hn⟩

/-- One command passes and one fails: the top level exits with EXIT_FAIL. A list named like an
option is never read. -/
theorem pass_beside_failure_exits_fail :
    (∃ r, (testSh (plainEnv id) 0 0 ["-LG".toList, "all.list".toList] (.line ["a".toList] .eof)
        (initial none fun _ => {})).2 = some r ∧
      ¬ (r.exit = exitPass ↔ 0 < r.n.nPass)) ∧
    (∃ r, (testSh (plainEnv id) 0 0 ["-L".toList, "all.list".toList]
        (.incl "-l".toList 0 (.line ["a".toList] .eof) .eof) (initial none fun _ => {})).2 = some r ∧
      r.total ≠ 1) := by
  refine ⟨⟨_, rfl, ?_⟩, ⟨_, rfl, ?_⟩⟩ <;> decide

end TopLevel

end PipTestsuite.TestSh
