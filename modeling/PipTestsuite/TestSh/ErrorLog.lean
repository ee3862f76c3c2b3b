import PipTestsuite.TestSh.Counters

/-! The error log of a run. Every test.sh of a run, nested or not, starts by removing the one error
log that they share. -/
namespace PipTestsuite.TestSh
open RotatingLog

variable {Dir : Type*}

/-- The executions among some events whose verdict is FAIL or UNRESOLVED. -/
def failures (es : List (Event Dir)) : List (Exec Dir) :=
  (execs es).filter fun e => decide e.status.IsFailure

@[simp] lemma failures_append (es es' : List (Event Dir)) :
    failures (es ++ es') = failures es ++ failures es' := by simp [failures]

@[simp] lemma failures_start (es : List (Event Dir)) : failures (.start :: es) = failures es := rfl

section Files
variable [DecidableEq Dir]

@[simp] lemma Files.errorLog_appendLog (f : Files Dir) (d : Dir) (p : LogPart) :
    (f.appendLog d p).errorLog = f.errorLog := rfl

lemma Files.errorLog_record (f : Files Dir) (e : Exec Dir) :
    (f.record e).errorLog.getD [] =
      f.errorLog.getD [] ++ if e.status.IsFailure then [e.errorEntry] else [] := by
  unfold Files.record Status.IsFailure
  cases e.status <;> simp [Files.appendError, Files.appendXml]

/-- Between two starts the error log collects the failures. -/
theorem errorLog_applyAll (es : List (Event Dir)) (hes : .start ∉ es) (f : Files Dir) :
    (f.applyAll es).errorLog.getD [] = f.errorLog.getD [] ++ (failures es).map Exec.errorEntry := by
  induction es generalizing f with
  | nil => simp [failures]
  | cons e es ih =>
    rw [List.mem_cons, not_or] at hes
    rw [Files.applyAll_cons, ih hes.2]
    cases e with
    | start => exact absurd rfl hes.1
    | rotate d => rfl
    | leave d => rfl
    | exec e =>
      rw [Event.apply, Files.errorLog_record]
      by_cases hf : e.status.IsFailure <;> simp [failures, hf]

/-- A start forgets the failures before it. -/
theorem errorLog_applyAll_start (before after : List (Event Dir)) (hafter : .start ∉ after) (f : Files Dir) :
    (f.applyAll (before ++ .start :: after)).errorLog.getD [] = (failures after).map Exec.errorEntry := by
  rw [Files.applyAll_append, Files.applyAll_cons, errorLog_applyAll after hafter]
  simp [Event.apply, Files.rmErrorLog]

omit [DecidableEq Dir] in
lemma Files.printedLog_eq (f : Files Dir) :
    f.printedLog = if f.errorLog.getD [] = [] then none else some (f.errorLog.getD []) := by
  unfold Files.printedLog
  rcases f.errorLog with _ | _ | _ <;> simp

end Files

/-- An element that occurs has a last occurrence. -/
lemma eq_append_last_of_mem {α : Type*} {a : α} {xs : List α} (h : a ∈ xs) :
    ∃ before after, xs = before ++ a :: after ∧ a ∉ after := by
  obtain ⟨ys, zs, hrev, hys⟩ := List.eq_append_cons_of_mem (List.mem_reverse.mpr h)
  refine ⟨zs.reverse, ys.reverse, ?_, by simpa using hys⟩
  simpa using congrArg List.reverse hrev

/-- Reading the lists in order, no pair fails both before and after the last start of a nested test.sh. -/
def FailuresOnOneSide (es : List (Event Dir)) : Prop :=
  ∀ before after, es = before ++ .start :: after → .start ∉ after →
    failures before = [] ∨ failures after = []

section TopLevel
variable [DecidableEq Dir]

/-- The printed error log has an entry for each failure of the run, and no other, exactly when all
failures lie on one side of the last nested start. -/
theorem errorLog_complete_iff (env : Env) (args : List Word) (run : RunTest)
    (hmodes : selectedModes env args = some run) (file : ListFile Dir) (cwd dir : Dir)
    (errorLog : Option (List ErrorEntry)) (old : Dir → Log Word) :
    ∃ w r, testSh env cwd dir args file (initial errorLog old) = (w, some r) ∧
      ((∀ log, r.errorLog = some log →
          log = (w.files.executed.filter fun e => decide e.status.IsFailure).map Exec.errorEntry) ↔
        FailuresOnOneSide (walk env.outcome run.modeList file dir [] 0)) := by
  obtain ⟨f, herr, hexec, h⟩ := testSh_initial env args run hmodes file cwd dir errorLog old
  refine ⟨_, _, h, ?_⟩
  generalize walk env.outcome run.modeList file dir [] 0 = es at hexec ⊢
  have hfail : (execs es).filter (fun e => decide e.status.IsFailure) = failures es := rfl
  simp only [Files.appendLog, Files.appendXml, hexec, hfail, Files.printedLog_eq]
  constructor
  · intro hlog before after hes hafter
    subst hes
    rw [errorLog_applyAll_start before after hafter] at hlog
    by_cases hne : failures after = []
    · exact .inr hne
    · left
      have heq := hlog _ (if_neg (by simpa using hne))
      simpa using heq
  · intro hside log hlog
    by_cases hstart : Event.start ∈ es
    · obtain ⟨before, after, rfl, hafter⟩ := eq_append_last_of_mem hstart
      rw [errorLog_applyAll_start before after hafter] at hlog
      split_ifs at hlog with hne
      rw [← Option.some.inj hlog]
      rcases hside before after rfl hafter with hb | ha
      · simp [hb]
      · simp [ha] at hne
    · rw [errorLog_applyAll es hstart, herr, Option.getD_none, List.nil_append] at hlog
      split_ifs at hlog
      exact (Option.some.inj hlog).symm

/-- The list a.list fails, includes s.list and fails there again. -/
theorem errorLog_complete_iff_nested :
    selectedModes (plainEnv fun _ => 1) ["-T".toList, "a.list".toList] = some { T := true } ∧
    ∃ w r, testSh (plainEnv fun _ => 1) 0 0 ["-T".toList, "a.list".toList]
        (.line ["a".toList] (.incl "s.list".toList 0 (.line ["b".toList] .eof) .eof))
        (initial none fun _ => {}) = (w, some r) ∧
      ((∀ log, r.errorLog = some log →
          log = (w.files.executed.filter fun e => decide e.status.IsFailure).map Exec.errorEntry) ↔
        FailuresOnOneSide (walk (plainEnv fun _ => 1).outcome [.T]
          (.line ["a".toList] (.incl "s.list".toList 0 (.line ["b".toList] .eof) .eof)) 0 [] 0)) := by
  have hmodes : selectedModes (plainEnv fun _ => 1) ["-T".toList, "a.list".toList] =
      some { T := true } := by decide
  exact ⟨hmodes, errorLog_complete_iff _ _ _ hmodes _ 0 0 none fun _ => {}⟩

/-- Of the two failures of that run, the printed log has one. -/
theorem errorLog_loses_failure :
    ∃ r log, (testSh (plainEnv fun _ => 1) 0 0 ["-T".toList, "a.list".toList]
        (.line ["a".toList] (.incl "s.list".toList 0 (.line ["b".toList] .eof) .eof))
        (initial none fun _ => {})).2 = some r ∧
      r.n.nFail = 2 ∧ r.errorLog = some log ∧ log.map ErrorEntry.words = [["b".toList]] :=
  ⟨_, _, rfl, by decide, rfl, by decide⟩

end TopLevel

end PipTestsuite.TestSh
