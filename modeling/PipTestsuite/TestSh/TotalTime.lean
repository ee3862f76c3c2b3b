import PipTestsuite.TestSh.Counters

/-! TOTAL_TIME at each point of a run: after each executed pair, in a nested test.sh that starts, and in its
parent that goes on. -/
namespace PipTestsuite.TestSh
open RotatingLog

variable {Dir : Type*}

/-- What some observations of a run tell: each one is made after some of the executions es, with the variables
accounted for these, and there is one after each execution. -/
structure Observes (ms : List (Shell Dir × World Dir)) (executed : List (Exec Dir)) (sum : Summary)
    (es : List (Exec Dir)) : Prop where
  sound : ∀ m ∈ ms, ∃ l, l <+: es ∧ m.2.files.executed = executed ++ l ∧ m.1.sum = sum.accountAll l
  complete : ∀ l, l <+: es → l ≠ [] → ∃ m ∈ ms, m.2.files.executed = executed ++ l ∧ m.1.sum = sum.accountAll l

section Observes
variable {ms ms' : List (Shell Dir × World Dir)} {m : Shell Dir × World Dir} {executed es es' : List (Exec Dir)}
  {sum : Summary}

lemma observes_nil (executed : List (Exec Dir)) (sum : Summary) :
    Observes ([] : List (Shell Dir × World Dir)) executed sum [] where
  sound := by simp
  complete := by
    intro l hl hne
    exact absurd (List.prefix_nil.mp hl) hne

/-- One more observation before the next execution. -/
lemma Observes.cons (h : Observes ms executed sum es) (hexecuted : m.2.files.executed = executed)
    (hsum : m.1.sum = sum) : Observes (m :: ms) executed sum es where
  sound := by
    intro m' hm'
    obtain rfl | hm' := List.mem_cons.mp hm'
    · exact ⟨[], List.nil_prefix, by simp [hexecuted], by simp [hsum]⟩
    · exact h.sound m' hm'
  complete := by
    intro l hl hne
    obtain ⟨m', hm', hl'⟩ := h.complete l hl hne
    exact ⟨m', List.mem_cons_of_mem m hm', hl'⟩

lemma observes_exec {e : Exec Dir} (hexecuted : m.2.files.executed = executed ++ [e]) (hsum : m.1.sum = sum.account e) :
    Observes [m] executed sum [e] where
  sound := by
    intro m' hm'
    obtain rfl := List.mem_singleton.mp hm'
    exact ⟨[e], List.prefix_refl _, hexecuted, hsum⟩
  complete := by
    intro l hl hne
    have hle := hl.length_le
    have hpos := List.length_pos_of_ne_nil hne
    have hlen : l.length = [e].length := by
      rw [List.length_singleton] at hle ⊢
      omega
    rw [hl.eq_of_length hlen]
    exact ⟨m, List.mem_singleton_self m, hexecuted, hsum⟩

lemma Observes.append (h : Observes ms executed sum es) (h' : Observes ms' (executed ++ es) (sum.accountAll es) es') :
    Observes (ms ++ ms') executed sum (es ++ es') where
  sound := by
    intro m hm
    obtain hm | hm := List.mem_append.mp hm
    · obtain ⟨l, hl, hm⟩ := h.sound m hm
      exact ⟨l, hl.trans (List.prefix_append es es'), hm⟩
    · obtain ⟨l, hl, hexecuted, hsum⟩ := h'.sound m hm
      refine ⟨es ++ l, (List.prefix_append_right_inj es).mpr hl, ?_, ?_⟩
      · rw [hexecuted, List.append_assoc]
      · rw [hsum, Summary.accountAll_append]
  complete := by
    intro l hl hne
    obtain hle | ⟨l, rfl⟩ := List.prefix_or_prefix_of_prefix hl (List.prefix_append es es')
    · obtain ⟨m, hm, hl'⟩ := h.complete l hle hne
      exact ⟨m, List.mem_append_left ms' hm, hl'⟩
    · rw [List.prefix_append_right_inj] at hl
      cases l with
      | nil =>
        rw [List.append_nil] at hne ⊢
        obtain ⟨m, hm, hl'⟩ := h.complete es (List.prefix_refl es) hne
        exact ⟨m, List.mem_append_left ms' hm, hl'⟩
      | cons e l =>
        obtain ⟨m, hm, hexecuted, hsum⟩ := h'.complete (e :: l) hl (by simp)
        refine ⟨m, List.mem_append_right ms hm, ?_, ?_⟩
        · rw [hexecuted, List.append_assoc]
        · rw [hsum, Summary.accountAll_append]

end Observes

section Moments
variable [DecidableEq Dir]

/-- The states that the per-mode loop leaves after each pair. -/
def modeMoments (env : Env) (words : List Word) :
    List PipMode → Shell Dir → World Dir → List (Shell Dir × World Dir)
  | [], _, _ => []
  | m :: modes, sh, w =>
    match runTest env words m sh w with
    | (sh, w, testExitStatus) =>
      (sh, w) :: if testExitStatus = exitKilled then [] else modeMoments env words modes sh w

/-- The states in a main loop: after each pair, at the start of a nested test.sh, in it, and where the summary
that it leaves has been read. -/
def moments (env : Env) : ListFile Dir → Shell Dir → World Dir → List (Shell Dir × World Dir)
  | .eof, _, _ => []
  | .line words rest, sh, w =>
    match words with
    | [] => moments env rest sh w
    | first :: args =>
      if first = percentInclude then
        if args = [] then
          let w := (spawn env sh [] w).1
          (sourceSummary w sh, w) :: moments env rest (sourceSummary w sh) w
        else moments env rest sh w
      else if first.head? = some '#' then moments env rest sh w
      else modeMoments env words sh.run.modeList sh w ++
        match modeLoop env words sh.run.modeList sh w with
        | (sh, w, stop) => if stop then [] else moments env rest sh w
  | .incl ifile dir body rest, sh, w =>
    match spawn env sh ifile w with
    | (w, none) => (sourceSummary w sh, w) :: moments env rest (sourceSummary w sh) w
    | (w, some child) =>
      (child, w) :: moments env body { child with cwd := dir } w ++
        match mainLoop env body { child with cwd := dir } w with
        | (child, w) =>
          let w := closeFiles child w
          (sourceSummary w sh, w) :: moments env rest (sourceSummary w sh) w

/-- The states in a run of the top level. -/
def testMoments (env : Env) (cwd dir : Dir) (args : List Word) (file : ListFile Dir) (w : World Dir) :
    List (Shell Dir × World Dir) :=
  match start env none cwd args w with
  | (_, none) => []
  | (w, some sh) => (sh, w) :: moments env file { sh with cwd := dir } w

lemma modeMoments_observes (env : Env) (words : List Word) (modes : List PipMode) (sh : Shell Dir) (w : World Dir) :
    Observes (modeMoments env words modes sh w) w.files.executed sh.sum
      (walkModes env.outcome sh.cwd sh.incFn words modes w.files.executed.length) := by
  induction modes generalizing sh w with
  | nil => exact observes_nil _ _
  | cons m modes ih =>
    set e : Exec Dir := ⟨w.files.executed.length, sh.cwd, sh.incFn, words, m, env.outcome w.files.executed.length⟩ with he
    have hfirst : Observes [({ sh with sum := sh.sum.account e }, { w with files := w.files.record e })]
        w.files.executed sh.sum [e] := observes_exec (Files.executed_record w.files e) rfl
    have hloop : modeMoments env words (m :: modes) sh w = [({ sh with sum := sh.sum.account e },
        { w with files := w.files.record e })] ++ if e.outcome.exitStatus = exitKilled then [] else
          modeMoments env words modes { sh with sum := sh.sum.account e } { w with files := w.files.record e } := rfl
    have hwalk : walkModes env.outcome sh.cwd sh.incFn words (m :: modes) w.files.executed.length =
        [e] ++ if e.outcome.exitStatus = exitKilled then [] else
          walkModes env.outcome sh.cwd sh.incFn words modes (w.files.executed.length + 1) := by
      rw [walkModes, apply_ite ([e] ++ ·)]
      rfl
    rw [hloop, hwalk]
    split_ifs with hk
    · exact hfirst.append (observes_nil _ _)
    · have hrest := ih { sh with sum := sh.sum.account e } { w with files := w.files.record e }
      simp only [Files.executed_record, List.length_append, List.length_singleton] at hrest
      exact hfirst.append hrest

/-- The observations of a main loop are those of the executions of its list. -/
theorem moments_observes (env : Env) (file : ListFile Dir) (sh : Shell Dir) (hM : env.Testable sh.run) (w : World Dir) :
    Observes (moments env file sh w) w.files.executed sh.sum
      (execs (walk env.outcome sh.run.modeList file sh.cwd sh.incFn w.files.executed.length)) := by
  induction file generalizing sh w with
  | eof => exact observes_nil _ _
  | line words rest ih =>
    simp only [walk]
    by_cases hcmd : IsCommand words
    · obtain ⟨first, args, rfl⟩ := List.exists_cons_of_ne_nil hcmd.1
      have hinc : first ≠ percentInclude := fun h => hcmd.2.1 (by simp [h])
      have hhash : first.head? ≠ some '#' := fun h => hcmd.2.2 (by simp [h])
      have hmodes := modeMoments_observes env (first :: args) sh.run.modeList sh w
      simp only [moments, hinc, hhash, if_false, modeLoop_eq, hcmd, if_true, execs_append, execs_map_exec]
      refine hmodes.append ?_
      by_cases hk : KilledIn env.outcome w.files.executed.length sh.run.modeList.length
      · simpa [hk] using observes_nil _ _
      · have hlen := length_walkModes env.outcome sh.cwd sh.incFn (first :: args) _ _ hk
        generalize walkModes env.outcome sh.cwd sh.incFn (first :: args) sh.run.modeList
          w.files.executed.length = es at hlen ⊢
        have hrest := ih { sh with sum := sh.sum.accountAll es } hM ⟨w.sumFile, w.files.applyAll (es.map .exec)⟩
        simpa [hk, Files.executed_applyAll, hlen] using hrest
    · simp only [hcmd, if_false]
      cases words with
      | nil => simpa [moments] using ih sh hM w
      | cons first args =>
        by_cases hinc : first = percentInclude
        · subst hinc
          cases args with
          | nil =>
            have hnone := spawn_none env sh [] (by simp [IsListName]) w
            have hrest := ih sh hM ⟨some sh.sum, w.files.applyAll [.start]⟩
            simpa [moments, hnone, sourceSummary, Event.apply, Files.rmErrorLog] using hrest.cons rfl rfl
          | cons a args => simpa [moments] using ih sh hM w
        · have hhash : first.head? = some '#' := by simpa [IsCommand, hinc] using hcmd
          simpa [moments, hinc, hhash] using ih sh hM w
  | incl ifile dir body rest ihb ihr =>
    simp only [walk]
    by_cases hname : IsListName ifile
    · simp only [moments, spawn_eq env sh hM ifile hname w, hname, if_true]
      let child : Shell Dir := ⟨true, incFnOf ifile, dir, sh.run, sh.sum⟩
      let w₁ : World Dir := ⟨some sh.sum, w.files.applyAll [.start, .rotate sh.cwd]⟩
      have hk : w₁.files.executed = w.files.executed := rfl
      have hbody := ihb child hM w₁
      obtain ⟨hsh, hfiles⟩ := mainLoop_walk env body child hM w₁
      simp only [hk, child] at hbody hsh hfiles
      generalize walk env.outcome sh.run.modeList body dir (incFnOf ifile) w.files.executed.length = es
        at hbody hsh hfiles ⊢
      -- the parent reads the summary that the child has left
      generalize mainLoop env body _ w₁ = r at hsh hfiles
      obtain ⟨sh', w'⟩ := r
      have hsh' : sh' = { child with sum := sh.sum.accountAll (execs es) } := hsh
      have hw' : w'.files = w₁.files.applyAll es := hfiles
      have hclose : closeFiles sh' w' = ⟨some (sh.sum.accountAll (execs es)),
          (w₁.files.applyAll es).applyAll [.leave dir]⟩ := by
        simp [hsh', child, closeFiles, fileSummary, Event.apply, hw']
      have hrest := ihr { sh with sum := sh.sum.accountAll (execs es) } hM (closeFiles sh' w')
      have hexecuted : (closeFiles sh' w').files.executed = w.files.executed ++ execs es := by
        rw [hclose, Files.executed_applyAll, Files.executed_applyAll, hk]
        simp
      have hsource : sourceSummary (closeFiles sh' w') sh = { sh with sum := sh.sum.accountAll (execs es) } := by
        rw [hclose]
        rfl
      rw [hexecuted, List.length_append] at hrest
      dsimp only
      rw [hsource]
      simp only [execs_start, execs_rotate, execs_append, execs_leave]
      exact (hbody.cons rfl rfl).append (hrest.cons hexecuted rfl)
    · have hnone := spawn_none env sh ifile hname w
      have hrest := ihr sh hM ⟨some sh.sum, w.files.applyAll [.start]⟩
      simpa [moments, hnone, hname, sourceSummary, Event.apply, Files.rmErrorLog] using hrest.cons rfl rfl

/-- The pairs that a run executes from the first one on. -/
def executedPairs (env : Env) (dir : Dir) (args : List Word) (file : ListFile Dir) : List (Exec Dir) :=
  match selectedModes env args with
  | none => []
  | some run => execs (walk env.outcome run.modeList file dir [] 0)

theorem testMoments_observes (env : Env) (cwd dir : Dir) (args : List Word) (file : ListFile Dir)
    (errorLog : Option (List ErrorEntry)) (old : Dir → Log Word) :
    Observes (testMoments env cwd dir args file (initial errorLog old)) [] (resetSummary env)
      (executedPairs env dir args file) := by
  unfold testMoments executedPairs
  cases hmodes : selectedModes env args with
  | none =>
    have hnone := start_of_selectedModes_none hmodes cwd (initial errorLog old)
    generalize start env none cwd args (initial errorLog old) = r at hnone
    obtain ⟨w, sh⟩ := r
    obtain rfl : sh = none := hnone
    exact observes_nil _ _
  | some run =>
    rw [start_of_selectedModes hmodes]
    exact (moments_observes env file _ (selectedModes_testable env args run hmodes) _).cons rfl rfl

end Moments

/-- The durations of some executions. -/
def times (es : List (Exec Dir)) : List ℕ := es.map fun e => e.outcome.seconds

/-- At each point of a run TOTAL_TIME is the sum of the durations so far. -/
def TotalTimeRight [DecidableEq Dir] (env : Env) (cwd dir : Dir) (args : List Word) (file : ListFile Dir)
    (errorLog : Option (List ErrorEntry)) (old : Dir → Log Word) : Prop :=
  ∀ m ∈ testMoments env cwd dir args file (initial errorLog old),
    m.1.sum.totalTime = (times m.2.files.executed).sum

/-- TOTAL_TIME keeps the last duration only. -/
lemma totalTime_accountAll (s : Summary) (es : List (Exec Dir)) (e : Exec Dir) :
    (s.accountAll (es ++ [e])).totalTime = e.outcome.seconds := by
  simp [Summary.account, totalTimme]

/-- Exactly when all pairs but the last one took no second. -/
theorem total_time_right_iff [DecidableEq Dir] (env : Env) (cwd dir : Dir) (args : List Word) (file : ListFile Dir)
    (errorLog : Option (List ErrorEntry)) (old : Dir → Log Word) :
    TotalTimeRight env cwd dir args file errorLog old ↔
      ∀ e ∈ (executedPairs env dir args file).dropLast, e.outcome.seconds = 0 := by
  have hobs := testMoments_observes env cwd dir args file errorLog old
  generalize executedPairs env dir args file = es at hobs ⊢
  constructor
  · intro h e he
    obtain rfl | ⟨es, a, rfl⟩ := es.eq_nil_or_concat'
    · simp at he
    obtain ⟨m, hm, hexecuted, hsum⟩ := hobs.complete (es ++ [a]) (List.prefix_refl _) (by simp)
    have hright := h m hm
    rw [hsum, totalTime_accountAll, hexecuted] at hright
    rw [List.dropLast_concat] at he
    have hzero : (times es).sum = 0 := by
      simp only [times, List.nil_append, List.map_append, List.sum_append, List.map_singleton, List.sum_singleton] at hright ⊢
      omega
    exact List.sum_eq_zero_iff.mp hzero _ (List.mem_map_of_mem he)
  · intro h m hm
    obtain ⟨l, hl, hexecuted, hsum⟩ := hobs.sound m hm
    rw [hexecuted, hsum, List.nil_append]
    obtain rfl | ⟨l, a, rfl⟩ := l.eq_nil_or_concat'
    · rfl
    · have hzero : (times l).sum = 0 := by
        apply List.sum_eq_zero_iff.mpr
        intro x hx
        obtain ⟨e, he, rfl⟩ := List.mem_map.mp hx
        have hbefore : l <+: es.dropLast := by
          rw [List.dropLast_eq_take]
          refine List.prefix_take_iff.mpr ⟨(List.prefix_append l [a]).trans hl, ?_⟩
          have hle := hl.length_le
          rw [List.length_append, List.length_singleton] at hle
          omega
        exact h e (hbefore.subset he)
      rw [totalTime_accountAll]
      simp only [times, List.map_append, List.sum_append, List.map_singleton, List.sum_singleton] at hzero ⊢
      omega

/-- Two commands of one second each, the second one in a list that the first one's list includes. -/
theorem total_time_lost : ¬ ∀ (env : Env) (cwd dir : ℕ) (args : List Word) (file : ListFile ℕ)
    (errorLog : Option (List ErrorEntry)) (old : ℕ → Log Word), TotalTimeRight env cwd dir args file errorLog old := by
  intro h
  have hright := h { plainEnv (fun _ => 0) with outcome := fun _ => { exitStatus := 0, seconds := 1 } } 0 0
    ["-L".toList, "all.list".toList] (.line ["a".toList] (.incl "s.list".toList 0 (.line ["b".toList] .eof) .eof))
    none fun _ => {}
  revert hright
  unfold TotalTimeRight
  decide

end PipTestsuite.TestSh
