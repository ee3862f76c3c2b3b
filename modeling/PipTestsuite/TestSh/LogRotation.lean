import PipTestsuite.TestSh.Counters

/-! The test.log of each directory. Every nested test.sh rotates the log of the directory that it is
started in, which is the directory of the list that includes it. -/
namespace PipTestsuite.TestSh
open RotatingLog

variable {Dir : Type*}

def Exec.startPart (e : Exec Dir) : LogPart := .start e.stamp e.cmd (pipModeName e.mode)

def Exec.resultPart (e : Exec Dir) : LogPart :=
  .result e.stamp e.cmd e.verdict e.outcome.stdout e.outcome.stderr e.outcome.time

section
variable [DecidableEq Dir]

/-- What an event does to the log of a directory. -/
def Event.logOps (d : Dir) : Event Dir → List (Op LogPart)
  | start => []
  | rotate cwd => if cwd = d then [.rotate] else []
  | exec e => if e.dir = d then [.append e.startPart, .append e.resultPart] else []
  | leave dir => if dir = d then [.append (.tail none)] else []

def logOps (d : Dir) (es : List (Event Dir)) : List (Op LogPart) := es.flatMap (Event.logOps d)

@[simp] lemma logOps_cons (d : Dir) (e : Event Dir) (es : List (Event Dir)) :
    logOps d (e :: es) = e.logOps d ++ logOps d es := List.flatMap_cons

@[simp] lemma logOps_append (d : Dir) (es es' : List (Event Dir)) :
    logOps d (es ++ es') = logOps d es ++ logOps d es' := List.flatMap_append

lemma Files.logs_record (f : Files Dir) (e : Exec Dir) (d : Dir) :
    (f.record e).logs d = RotatingLog.run (f.logs d) ((Event.exec e).logOps d) := by
  have h : (f.record e).logs d =
      ((f.appendLog e.dir e.startPart).appendLog e.dir e.resultPart).logs d := by
    unfold Files.record
    cases e.status <;> rfl
  rw [h]
  by_cases hd : e.dir = d
  · subst hd
    simp [Files.appendLog, Event.logOps]
  · simp [Files.appendLog, Event.logOps, hd, Function.update_of_ne (Ne.symm hd)]

lemma Event.logs_apply (f : Files Dir) (e : Event Dir) (d : Dir) :
    (e.apply f).logs d = RotatingLog.run (f.logs d) (e.logOps d) := by
  cases e with
  | start => rfl
  | exec e => exact f.logs_record e d
  | rotate cwd =>
    by_cases hd : cwd = d
    · subst hd
      simp [Event.apply, Files.rotateLog, Event.logOps]
    · simp [Event.apply, Files.rotateLog, Event.logOps, hd, Function.update_of_ne (Ne.symm hd)]
  | leave dir =>
    by_cases hd : dir = d
    · subst hd
      simp [Event.apply, Files.appendLog, Event.logOps]
    · simp [Event.apply, Files.appendLog, Event.logOps, hd, Function.update_of_ne (Ne.symm hd)]

/-- The log of a directory is a rotating log, run on the events of that directory. -/
theorem Files.logs_applyAll (f : Files Dir) (es : List (Event Dir)) (d : Dir) :
    (f.applyAll es).logs d = RotatingLog.run (f.logs d) (logOps d es) := by
  induction es generalizing f with
  | nil => rfl
  | cons e es ih => rw [Files.applyAll_cons, ih, Event.logs_apply, logOps_cons, run_append]

end

lemma mem_execs_iff (es : List (Event Dir)) (e : Exec Dir) :
    e ∈ execs es ↔ ∃ before after, es = before ++ .exec e :: after := by
  constructor
  · intro h
    obtain ⟨ev, hev, he⟩ := List.mem_filterMap.mp h
    cases ev <;> simp [Event.exec?] at he
    subst he
    exact List.append_of_mem hev
  · rintro ⟨before, after, rfl⟩
    simp

section Fresh
variable [DecidableEq Dir]

/-- A part that the events append to a log belongs to one of their executions, or ends a list. -/
lemma mem_logOps (d : Dir) (es : List (Event Dir)) (p : LogPart) (h : Op.append p ∈ logOps d es) :
    p = .tail none ∨ ∃ e ∈ execs es, p = e.startPart ∨ p = e.resultPart := by
  obtain ⟨ev, hev, hp⟩ := List.mem_flatMap.mp h
  cases ev with
  | start => simp [Event.logOps] at hp
  | rotate cwd =>
    simp only [Event.logOps] at hp
    split_ifs at hp <;> simp at hp
  | leave dir =>
    simp only [Event.logOps] at hp
    split_ifs at hp <;> simp at hp
    exact .inl hp
  | exec e =>
    simp only [Event.logOps] at hp
    split_ifs at hp <;> simp at hp
    exact .inr ⟨e, List.mem_filterMap.mpr ⟨_, hev, rfl⟩, hp⟩

/-- The parts of an execution are not written again: the stamps of a walk are distinct. -/
lemma not_mem_logOps_after (outcome : ℕ → Outcome) (modes : List PipMode) (file : ListFile Dir) (dir : Dir)
    (incFn : Word) (k : ℕ) (before after : List (Event Dir)) (e : Exec Dir)
    (h : walk outcome modes file dir incFn k = before ++ .exec e :: after) :
    Op.append e.startPart ∉ logOps e.dir after ∧ Op.append e.resultPart ∉ logOps e.dir after := by
  have hnodup : ((execs (walk outcome modes file dir incFn k)).map Exec.stamp).Nodup := by
    rw [walk_stamps]
    exact List.nodup_range'
  rw [h, execs_append, execs_exec, List.map_append, List.map_cons] at hnodup
  have hne : ∀ e' ∈ execs after, e'.stamp ≠ e.stamp := fun e' he' heq =>
    (List.nodup_cons.mp (List.nodup_append.mp hnodup).2.1).1 (heq ▸ List.mem_map_of_mem he')
  constructor
  · intro hmem
    rcases mem_logOps _ _ _ hmem with htail | ⟨e', he', hs | hr⟩
    · simp [Exec.startPart] at htail
    · exact hne e' he' (by simp [Exec.startPart] at hs; exact hs.1.symm)
    · simp [Exec.startPart, Exec.resultPart] at hr
  · intro hmem
    rcases mem_logOps _ _ _ hmem with htail | ⟨e', he', hs | hr⟩
    · simp [Exec.resultPart] at htail
    · simp [Exec.startPart, Exec.resultPart] at hs
    · exact hne e' he' (by simp [Exec.resultPart] at hr; exact hr.1.symm)

end Fresh

section TopLevel
variable [DecidableEq Dir]

/-- No test is followed by an include read from its directory, then by a test or the end of a list
in that directory, and then by one more include read from it. -/
def KeepsLogs (es : List (Event Dir)) : Prop :=
  ∀ before e after, es = before ++ .exec e :: after → ¬ TwoGenerations (logOps e.dir after)

/-- The two parts that an execution appends to its log share their fate. -/
lemma holds_parts_iff (f : Files Dir) (before after : List (Event Dir)) (e : Exec Dir)
    (hstart : Op.append e.startPart ∉ logOps e.dir after) (hresult : Op.append e.resultPart ∉ logOps e.dir after)
    (dir : Dir) (n : Counters) :
    let logs := ((f.applyAll (before ++ .exec e :: after)).appendLog dir (.tail (some n))).logs e.dir
    (logs.Holds e.startPart ↔ ¬ TwoGenerations (logOps e.dir after)) ∧
      (logs.Holds e.resultPart ↔ ¬ TwoGenerations (logOps e.dir after)) := by
  let tail : List (Op LogPart) := if dir = e.dir then [.append (.tail (some n))] else []
  have hlogs : ((f.applyAll (before ++ .exec e :: after)).appendLog dir (.tail (some n))).logs e.dir =
      RotatingLog.run (f.logs e.dir)
        (logOps e.dir before ++ .append e.startPart :: .append e.resultPart :: (logOps e.dir after ++ tail)) := by
    have hrun := f.logs_applyAll (before ++ .exec e :: after) e.dir
    have hops : (Event.exec e).logOps e.dir = [.append e.startPart, .append e.resultPart] := if_pos rfl
    rw [logOps_append, logOps_cons, hops] at hrun
    by_cases hd : dir = e.dir
    · simp only [Files.appendLog, hd, Function.update_self, hrun]
      simp [tail, hd]
    · simp only [Files.appendLog, Function.update_of_ne (Ne.symm hd), hrun]
      simp [tail, hd]
  have htwo : TwoGenerations (logOps e.dir after ++ tail) ↔ TwoGenerations (logOps e.dir after) := by
    by_cases hd : dir = e.dir
    · simpa [tail, hd] using twoGenerations_concat (logOps e.dir after) (.tail (some n))
    · simp [tail, hd]
  have htail : ∀ p, p ≠ .tail (some n) → Op.append p ∉ tail := fun p hp => by
    by_cases hd : dir = e.dir <;> simp [tail, hd, hp]
  constructor
  · rw [hlogs, holds_run_append_iff _ _ _ _]
    · exact not_congr htwo
    · simp [Exec.startPart, Exec.resultPart] at hstart ⊢
      exact ⟨hstart, htail _ (by simp)⟩
  · rw [hlogs, List.append_cons, holds_run_append_iff _ _ _ _]
    · exact not_congr htwo
    · rw [List.mem_append, not_or]
      exact ⟨hresult, htail _ (by simp [Exec.resultPart])⟩

/-- Every block of the run is in test.log or test.log.bak of its directory at the end, exactly where
no directory sees two generations of logs after one of its tests. -/
theorem logs_kept_iff (env : Env) (args : List Word) (run : RunTest)
    (hmodes : selectedModes env args = some run) (file : ListFile Dir) (cwd dir : Dir)
    (errorLog : Option (List ErrorEntry)) (old : Dir → Log Word) :
    ∃ w r, testSh env cwd dir args file (initial errorLog old) = (w, some r) ∧
      ((∀ e ∈ w.files.executed,
          (w.files.logs e.dir).Holds e.startPart ∧ (w.files.logs e.dir).Holds e.resultPart) ↔
        KeepsLogs (walk env.outcome run.modeList file dir [] 0)) := by
  obtain ⟨f, -, hexec, h⟩ := testSh_initial env args run hmodes file cwd dir errorLog old
  refine ⟨_, _, h, ?_⟩
  have hfresh := not_mem_logOps_after env.outcome run.modeList file dir [] 0
  generalize walk env.outcome run.modeList file dir [] 0 = es at hexec hfresh ⊢
  have hlogs : ∀ d p, (((f.applyAll es).appendXml .endTestsuite).appendLog dir p).logs d =
      ((f.applyAll es).appendLog dir p).logs d := fun _ _ => rfl
  have hfiles : ∀ p, (((f.applyAll es).appendXml .endTestsuite).appendLog dir p).executed = execs es :=
    fun _ => hexec
  simp only [hlogs, hfiles]
  constructor
  · intro hkept before e after hes
    obtain ⟨hs, hr⟩ := hfresh before after e hes
    have hmem : e ∈ execs es := (mem_execs_iff es e).mpr ⟨before, after, hes⟩
    subst hes
    exact (holds_parts_iff f before after e hs hr dir _).1.mp (hkept e hmem).1
  · intro hkeeps e he
    obtain ⟨before, after, hes⟩ := (mem_execs_iff es e).mp he
    obtain ⟨hs, hr⟩ := hfresh before after e hes
    have htwo := hkeeps before e after hes
    subst hes
    have hparts := holds_parts_iff f before after e hs hr dir
    exact ⟨(hparts _).1.mpr htwo, (hparts _).2.mpr htwo⟩

/-- Three lists in one directory, included one after the other. -/
def threeLists : ListFile ℕ :=
  .incl "a.list".toList 0 (.line ["a".toList] .eof)
    (.incl "b.list".toList 0 (.line ["b".toList] .eof)
      (.incl "c.list".toList 0 (.line ["c".toList] .eof) .eof))

theorem logs_kept_iff_threeLists :
    selectedModes (plainEnv fun _ => 0) ["-T".toList, "all.list".toList] = some { T := true } ∧
    ∃ w r, testSh (plainEnv fun _ => 0) 0 0 ["-T".toList, "all.list".toList] threeLists
        (initial none fun _ => {}) = (w, some r) ∧
      ((∀ e ∈ w.files.executed,
          (w.files.logs e.dir).Holds e.startPart ∧ (w.files.logs e.dir).Holds e.resultPart) ↔
        KeepsLogs (walk (plainEnv fun _ => 0).outcome [.T] threeLists 0 [] 0)) := by
  have hmodes : selectedModes (plainEnv fun _ => 0) ["-T".toList, "all.list".toList] =
      some { T := true } := by decide
  exact ⟨hmodes, logs_kept_iff _ _ _ hmodes _ 0 0 none fun _ => {}⟩

/-- The log of the first list is gone when the third one is included. -/
theorem third_include_overwrites_log :
    ∃ e ∈ (testSh (plainEnv fun _ => 0) 0 0 ["-T".toList, "all.list".toList] threeLists
        (initial none fun _ => {})).1.files.executed,
      ¬ ((testSh (plainEnv fun _ => 0) 0 0 ["-T".toList, "all.list".toList] threeLists
        (initial none fun _ => {})).1.files.logs e.dir).Holds e.startPart :=
  ⟨_, List.mem_cons_self, by unfold RotatingLog.Log.Holds; decide⟩

end TopLevel

end PipTestsuite.TestSh
