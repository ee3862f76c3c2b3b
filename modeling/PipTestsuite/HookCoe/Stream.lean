import PipTestsuite.HookCoe.Wiring
import PipTestsuite.Lib.Relay

/-! No byte is lost, duplicated or overtaken on its way through the tasks of hook_and_coe.c. -/
namespace PipTestsuite.HookCoe
open DescriptorTable

variable {α : Type} {ntasks : ℕ} {s s' : Chain α}

/-- The read() of the task has returned 0. -/
def Pc.seenEof (pc : Pc) : Prop := pc = .closeIn ∨ pc = .closeOut ∨ pc = .leave ∨ pc = .terminated

instance (pc : Pc) : Decidable pc.seenEof := inferInstanceAs (Decidable (_ ∨ _))

/-- What has come to the end of the chain. -/
def Chain.delivered (ntasks : ℕ) (s : Chain α) : List α := s.readBack ++ s.pipe ntasks

/-- What is on its way in the other pipes and the tasks, the oldest byte first. -/
def Chain.inTransit (s : Chain α) : ℕ → List α
  | 0 => []
  | n + 1 => s.buf n ++ Relay.contents s.pipe s.buf n

lemma delivered_append_inTransit (s : Chain α) (ntasks : ℕ) :
    s.delivered ntasks ++ s.inTransit ntasks = s.readBack ++ Relay.contents s.pipe s.buf ntasks := by
  cases ntasks <;> simp [Chain.delivered, Chain.inTransit, Relay.contents]

/-- A pipe at its end of file stays empty, since no one can write to it. -/
structure Flow (ntasks : ℕ) (s : Chain α) : Prop where
  stream : s.readBack ++ Relay.contents s.pipe s.buf ntasks = s.written
  idle : ∀ i < ntasks, s.pc i ≠ .write → s.pc i ≠ .failed → s.buf i = []
  busy : ∀ i < ntasks, s.pc i = .write ∨ s.pc i = .failed → s.buf i ≠ []
  eof : ∀ i < ntasks, (s.pc i).seenEof → s.pipe i = [] ∧ ¬ s.held ntasks (.pipe i .write)

lemma start_flow (T : Table ℕ) : Flow ntasks (start α ntasks T) where
  stream := by
    have hnil : Relay.contents (fun _ => []) (fun _ => []) ntasks = ([] : List α) :=
      Relay.contents_eq_nil.mpr ⟨fun _ _ => rfl, fun _ _ => rfl⟩
    simpa [start] using hnil
  idle i hi _ _ := rfl
  busy i hi hpc := by simp [start] at hpc
  eof i hi heof := by simp [start, Pc.seenEof] at heof

lemma Flow.setup (h : Flow ntasks s) (hmove : SetupMove ntasks s s') : Flow ntasks s' := by
  obtain ⟨hpipe, hbuf, hwritten, hreadBack⟩ := hmove.data
  refine ⟨?_, fun i hi hwrite hfailed => ?_, fun i hi hpc' => ?_, fun i hi heof => ?_⟩
  · rw [hpipe, hbuf, hwritten, hreadBack]
    exact h.stream
  · rw [hbuf]
    obtain hpc | ⟨hpc, -⟩ := hmove.pc i hi
    · exact h.idle i hi (hpc ▸ hwrite) (hpc ▸ hfailed)
    · exact h.idle i hi (by simp [hpc]) (by simp [hpc])
  · rw [hbuf]
    obtain hpc | ⟨-, hpc⟩ := hmove.pc i hi
    · exact h.busy i hi (hpc ▸ hpc')
    · simp [hpc] at hpc'
  · have hpc : s'.pc i = s.pc i := by
      refine (hmove.pc i hi).resolve_right fun hread => ?_
      rw [hread.2] at heof
      simp [Pc.seenEof] at heof
    rw [hpc] at heof
    obtain ⟨hempty, hheld⟩ := h.eof i hi heof
    obtain hunborn | hheld' := hmove.held
    · rw [← hpc, hunborn i hi] at heof
      simp [Pc.seenEof] at heof
    · exact ⟨hpipe ▸ hempty, fun hf => hheld (hheld' _ hf)⟩

section Task
variable {i : ℕ}

/-- The bytes that a task moves stay in the chain. -/
lemma Flow.task_stream (h : Flow ntasks s) (hi : i < ntasks) (hmove : TaskMove ntasks s i s') :
    s'.readBack ++ Relay.contents s'.pipe s'.buf ntasks = s'.written := by
  cases hmove with
  | read n hpc =>
    have hidle := h.idle i hi (by simp [hpc]) (by simp [hpc])
    simp only [Chain.goTo, Relay.contents_pull hi hidle, h.stream]
  | write n => simp only [Chain.goTo, Relay.contents_put hi, h.stream]
  | endOfFile | noReader | closeIn | closeOut | leave => exact h.stream

lemma Flow.task_idle (h : Flow ntasks s) (hi : i < ntasks) (hmove : TaskMove ntasks s i s')
    (hwrite : s'.pc i ≠ .write) (hfailed : s'.pc i ≠ .failed) : s'.buf i = [] := by
  cases hmove with
  | read => simp [Chain.goTo] at hwrite
  | write n =>
    simp only [Chain.goTo, Function.update_self] at hwrite ⊢
    by_contra hne
    rw [if_neg hne] at hwrite
    exact hwrite rfl
  | noReader => simp [Chain.exit, Chain.goTo] at hfailed
  | endOfFile hpc | closeIn hpc | closeOut hpc | leave hpc => exact h.idle i hi (by simp [hpc]) (by simp [hpc])

lemma Flow.task_busy (h : Flow ntasks s) (hi : i < ntasks) (hmove : TaskMove ntasks s i s')
    (hpc' : s'.pc i = .write ∨ s'.pc i = .failed) : s'.buf i ≠ [] := by
  cases hmove with
  | read n hpc hpipe hn =>
    simp only [Chain.goTo, Function.update_self, ne_eq, List.take_eq_nil_iff, not_or]
    exact ⟨hn.ne', hpipe⟩
  | write n =>
    simp only [Chain.goTo, Function.update_self] at hpc' ⊢
    intro hnil
    simp [hnil] at hpc'
  | noReader hpc => exact h.busy i hi (.inl hpc)
  | endOfFile | closeIn | closeOut | leave => simp [Chain.exit, Chain.goTo] at hpc'

/-- A task sees the end of the file only once, and no other task writes to its pipe afterwards. -/
lemma Flow.task_eof {j : ℕ} (h : Flow ntasks s) (hwired : Wired ntasks s) (hi : i < ntasks) (hj : j < ntasks)
    (hmove : TaskMove ntasks s i s') (heof : (s'.pc j).seenEof) :
    s'.pipe j = [] ∧ ¬ s'.held ntasks (.pipe j .write) := by
  suffices hempty : s'.pipe j = [] ∧ ¬ s.held ntasks (.pipe j .write) from
    ⟨hempty.1, fun hf => hempty.2 (hmove.held hf)⟩
  obtain rfl | hne := eq_or_ne j i
  · cases hmove with
    | read => simp [Chain.goTo, Pc.seenEof] at heof
    | endOfFile hpc hpipe hheld => exact ⟨hpipe, hheld⟩
    | write n =>
      simp only [Chain.goTo, Function.update_self] at heof
      split_ifs at heof <;> simp [Pc.seenEof] at heof
    | noReader => simp [Chain.exit, Chain.goTo, Pc.seenEof] at heof
    | closeIn hpc | closeOut hpc | leave hpc => exact h.eof j hj (by simp [Pc.seenEof, hpc])
  · rw [(hmove.other hne).1] at heof
    obtain ⟨hempty, hheld⟩ := h.eof j hj heof
    refine ⟨?_, hheld⟩
    cases hmove with
    | read n => simp [Chain.goTo, hne, hempty]
    | write n hpc =>
      have hentry := (hwired.task i hi).stdout (.inr (.inl hpc))
      have hnext : j ≠ i + 1 := by
        rintro rfl
        exact hheld (.inr ⟨i, hi, Table.has_iff.mpr ⟨1, _, hentry⟩⟩)
      simp [Chain.goTo, hnext, hempty]
    | endOfFile | noReader | closeIn | closeOut | leave => exact hempty

lemma Flow.task (h : Flow ntasks s) (hwired : Wired ntasks s) (hi : i < ntasks) (hmove : TaskMove ntasks s i s') :
    Flow ntasks s' where
  stream := h.task_stream hi hmove
  idle j hj hwrite hfailed := by
    obtain rfl | hne := eq_or_ne j i
    · exact h.task_idle hi hmove hwrite hfailed
    · obtain ⟨hpc, -, hbuf⟩ := hmove.other hne
      rw [hbuf]
      exact h.idle j hj (hpc ▸ hwrite) (hpc ▸ hfailed)
  busy j hj hpc' := by
    obtain rfl | hne := eq_or_ne j i
    · exact h.task_busy hi hmove hpc'
    · obtain ⟨hpc, -, hbuf⟩ := hmove.other hne
      rw [hbuf]
      exact h.busy j hj (hpc ▸ hpc')
  eof j hj heof := h.task_eof hwired hi hj hmove heof

end Task

section Root
variable {cap limit choice : ℕ} {bytes got : List α}

lemma Flow.rootWrite (h : Flow ntasks s) (hwired : Wired ntasks s)
    (hstep : s.rootWrite ntasks cap bytes = some s') : Flow ntasks s' := by
  obtain ⟨-, hhas, rfl⟩ := hwired.rootWrite hstep
  refine ⟨?_, h.idle, h.busy, fun i hi heof => ?_⟩
  · simp only [Relay.contents_push, ← h.stream, List.append_assoc]
  · obtain ⟨hempty, hheld⟩ := h.eof i hi heof
    have hne : i ≠ 0 := by
      rintro rfl
      exact hheld (.inl hhas)
    exact ⟨by simp [hne, hempty], hheld⟩

lemma Flow.rootRead (h : Flow ntasks s) (hwired : Wired ntasks s)
    (hstep : s.rootRead ntasks limit choice = some (s', got)) : Flow ntasks s' := by
  obtain ⟨-, rfl, rfl, -⟩ := hwired.rootRead hstep
  refine ⟨?_, h.idle, h.busy, fun i hi heof => ?_⟩
  · rw [List.append_assoc, Relay.contents_pop, h.stream]
  · obtain ⟨hempty, hheld⟩ := h.eof i hi heof
    exact ⟨by simp [hi.ne, hempty], hheld⟩

lemma Flow.rootClose {p : ℕ} {side : Side} (h : Flow ntasks s) (hstep : s.rootClose p side = some s') :
    Flow ntasks s' := by
  unfold Chain.rootClose at hstep
  split_ifs at hstep
  obtain ⟨T, hclose, rfl⟩ := Option.map_eq_some_iff.mp hstep
  obtain ⟨-, rfl⟩ := Table.close_eq_some.mp hclose
  refine ⟨h.stream, h.idle, h.busy, fun i hi heof => ?_⟩
  obtain ⟨hempty, hheld⟩ := h.eof i hi heof
  exact ⟨hempty, fun hf => hheld (hf.imp_left Table.has_of_set)⟩

end Root

theorem step_flow {cap : ℕ} (a : Event α) (hwired : Wired ntasks s) (h : Flow ntasks s)
    (hstep : step ntasks cap s a = some s') : Flow ntasks s' := by
  cases a with
  | setup => exact h.setup (hwired.setupMove hstep)
  | task i choice =>
    obtain ⟨hi, hmove⟩ := hwired.taskMove hstep
    exact h.task hwired hi hmove
  | write bytes => exact h.rootWrite hwired hstep
  | read limit choice =>
    obtain ⟨⟨s'', got⟩, hread, rfl⟩ := Option.map_eq_some_iff.mp hstep
    exact h.rootRead hwired hread
  | closeOut | closeIn => exact h.rootClose hstep

theorem run_flow (hpos : 0 < ntasks) (cap : ℕ) (T : Table ℕ) (schedule : List (Event α)) :
    Wired ntasks (run ntasks cap T schedule) ∧ Flow ntasks (run ntasks cap T schedule) := by
  refine Interleaving.run_inv (P := fun s => Wired ntasks s ∧ Flow ntasks s)
    ⟨start_wired T, start_flow T⟩ ?_ schedule
  rintro s a s' ⟨hwired, hflow⟩ hstep
  exact ⟨step_wired hpos a hwired hstep, step_flow a hwired hflow hstep⟩

lemma Flow.buf_of_eof {i : ℕ} (h : Flow ntasks s) (hi : i < ntasks) (heof : (s.pc i).seenEof) : s.buf i = [] := by
  apply h.idle i hi
  · intro hpc
    simp [Pc.seenEof, hpc] at heof
  · intro hpc
    simp [Pc.seenEof, hpc] at heof

/-- Only the last pipe can have bytes when all tasks have come to the end of the file. -/
lemma Flow.inTransit_of_eof (h : Flow ntasks s) (heof : ∀ i < ntasks, (s.pc i).seenEof) :
    s.inTransit ntasks = [] := by
  cases ntasks with
  | zero => rfl
  | succ n =>
    have hlt : ∀ i ≤ n, i < n + 1 := fun i hi => Nat.lt_succ_of_le hi
    have hbelow : Relay.contents s.pipe s.buf n = [] := by
      rw [Relay.contents_eq_nil]
      constructor
      · exact fun i hi => (h.eof i (hlt i hi) (heof i (hlt i hi))).1
      · exact fun i hi => h.buf_of_eof (hlt i hi.le) (heof i (hlt i hi.le))
    rw [Chain.inTransit, hbelow, h.buf_of_eof (hlt n le_rfl) (heof n (hlt n le_rfl)), List.append_nil]

/-- Whatever the root writes, however the kernel splits it and in whatever order the tasks run. -/
theorem stream_kept (hpos : 0 < ntasks) (cap : ℕ) (T : Table ℕ) (schedule : List (Event α)) :
    (run ntasks cap T schedule).delivered ntasks ++ (run ntasks cap T schedule).inTransit ntasks =
      (run ntasks cap T schedule).written ∧
    ((∀ i < ntasks, ((run ntasks cap T schedule).pc i).seenEof) →
      (run ntasks cap T schedule).delivered ntasks = (run ntasks cap T schedule).written) := by
  obtain ⟨-, hflow⟩ := run_flow hpos cap T schedule
  have hstream := (delivered_append_inTransit (run ntasks cap T schedule) ntasks).trans hflow.stream
  refine ⟨hstream, fun heof => ?_⟩
  rw [← hstream, hflow.inTransit_of_eof heof, List.append_nil]

/-- The whole setup -/
def setupAll (ntasks : ℕ) : List (Event ℕ) := (setup ntasks).map fun _ => .setup

/-- Three bytes on their way through two tasks. -/
def shortWrites : List (Event ℕ) :=
  setupAll 2 ++ [.write [1, 2, 3], .task 0 1, .task 0 0, .task 0 0, .task 1 0, .task 0 7, .task 1 7]

/-- The rest of it until both tasks have come to the end of the file. -/
def untilEof : List (Event ℕ) :=
  [.closeOut, .task 0 7, .task 0 0, .task 0 0, .task 0 0, .task 0 0, .task 1 7, .task 1 0, .task 1 0, .task 1 0]

theorem stream_kept_two : (run 2 4 Table.empty shortWrites).inTransit 2 = [2, 3] ∧
    (run 2 4 Table.empty shortWrites).delivered 2 ++ (run 2 4 Table.empty shortWrites).inTransit 2 =
      (run 2 4 Table.empty shortWrites).written ∧
    (run 2 4 Table.empty (shortWrites ++ untilEof)).delivered 2 =
      (run 2 4 Table.empty (shortWrites ++ untilEof)).written :=
  ⟨by decide, (stream_kept (by decide) 4 Table.empty shortWrites).1,
    (stream_kept (by decide) 4 Table.empty (shortWrites ++ untilEof)).2 (by decide)⟩

end PipTestsuite.HookCoe
