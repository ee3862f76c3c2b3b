import PipTestsuite.HookCoe.Stream

/-! When the root has got all its bytes back and has closed fd_out, the end of the file goes down the chain
until all tasks have terminated. -/
namespace PipTestsuite.HookCoe
open DescriptorTable

variable {α : Type} {ntasks cap : ℕ} {s s' : Chain α}

/-- The root has read all its data back and has closed fd_out. -/
def Chain.drained (s : Chain α) : Prop := s.todo = [] ∧ ¬ s.root.has (.pipe 0 .write) ∧ s.readBack = s.written

instance [DecidableEq α] (s : Chain α) : Decidable s.drained := inferInstanceAs (Decidable (_ ∧ _))

/-- In a drained chain nothing is left for the tasks to relay. -/
lemma Flow.nil_of_drained (h : Flow ntasks s) (hdrained : s.drained) :
    (∀ i ≤ ntasks, s.pipe i = []) ∧ ∀ i < ntasks, s.buf i = [] := by
  have hstream := h.stream
  rw [← hdrained.2.2, List.append_right_eq_self] at hstream
  exact Relay.contents_eq_nil.mp hstream

lemma Flow.pc_of_drained {i : ℕ} (h : Flow ntasks s) (hdrained : s.drained) (hi : i < ntasks) :
    s.pc i ≠ .write ∧ s.pc i ≠ .failed := by
  have hnil := (h.nil_of_drained hdrained).2 i hi
  constructor
  · exact fun hpc => h.busy i hi (.inl hpc) hnil
  · exact fun hpc => h.busy i hi (.inr hpc) hnil

/-- After the setup the root has no write end but fd_out. -/
lemma Wired.root_not_has (h : Wired ntasks s) (hdrained : s.drained) {i : ℕ} (hi : i < ntasks) :
    ¬ s.root.has (.pipe i .write) := by
  obtain rfl | hne := eq_or_ne i 0
  · exact hdrained.2.1
  · obtain ⟨openOut, openIn, hroot, -⟩ := h.inLoop hdrained.1
    rw [hroot.owns.has_iff (by trivial)]
    simp only [openEnds, if_neg hne]
    omega

/-- The write ends of its own pipe have been inherited by earlier tasks only, and these have terminated. -/
lemma Wired.not_held (h : Wired ntasks s) (hdrained : s.drained) {i : ℕ} (hi : i < ntasks)
    (hbefore : ∀ j < i, s.pc j = .terminated) : ¬ s.held ntasks (.pipe i .write) := by
  rintro (hroot | ⟨j, hj, htask⟩)
  · exact h.root_not_has hdrained hi hroot
  · obtain hlt | hle := Nat.lt_or_ge j i
    · exact (h.task j hj).gone (.inr (.inl (hbefore j hlt))) _ htask
    · exact absurd ((h.task j hj).later i htask) (not_lt.mpr hle)

/-- The first task that has not terminated has a next step. -/
lemma Wired.first_steps (h : Wired ntasks s) (hflow : Flow ntasks s) (hdrained : s.drained) {i : ℕ} (hi : i < ntasks)
    (hpc : s.pc i ≠ .terminated) (hbefore : ∀ j < i, s.pc j = .terminated) (choice : ℕ) :
    ∃ s', s.taskStep ntasks cap i choice = some s' := by
  obtain ⟨-, -, -, hborn⟩ := h.inLoop hdrained.1
  obtain ⟨hwrite, hfailed⟩ := hflow.pc_of_drained hdrained hi
  have hstdin := (h.task i hi).stdin
  have hstdout := (h.task i hi).stdout
  unfold Chain.taskStep
  rw [if_pos hi]
  cases hpc' : s.pc i with
  | unborn => exact absurd hpc' (hborn i hi)
  | read =>
    have hentry := hstdin (.inl hpc')
    have hempty := (hflow.nil_of_drained hdrained).1 i hi.le
    simp only [hentry, hempty, if_true, if_neg (h.not_held hdrained hi hbefore)]
    exact ⟨_, rfl⟩
  | write => exact absurd hpc' hwrite
  | closeIn =>
    have hclose := Table.close_eq_some.mpr ⟨⟨_, hstdin (.inr (.inr hpc'))⟩, rfl⟩
    simp only [hclose]
    exact ⟨_, rfl⟩
  | closeOut =>
    have hclose := Table.close_eq_some.mpr ⟨⟨_, hstdout (.inr (.inr (.inr hpc')))⟩, rfl⟩
    simp only [hclose]
    exact ⟨_, rfl⟩
  | leave => exact ⟨_, rfl⟩
  | terminated => exact absurd hpc' hpc
  | failed => exact absurd hpc' hfailed

/-- How many steps a task has left when there is nothing to relay. -/
def Pc.rank : Pc → ℕ
  | .unborn => 0
  | .read => 4
  | .write => 0
  | .closeIn => 3
  | .closeOut => 2
  | .leave => 1
  | .terminated => 0
  | .failed => 0

def Chain.remaining (ntasks : ℕ) (s : Chain α) : ℕ := ∑ i ∈ Finset.range ntasks, (s.pc i).rank

lemma remaining_lt {i : ℕ} (hi : i < ntasks) (hother : ∀ j ≠ i, s'.pc j = s.pc j)
    (hrank : (s'.pc i).rank < (s.pc i).rank) : s'.remaining ntasks < s.remaining ntasks := by
  apply Finset.sum_lt_sum
  · intro j _
    obtain rfl | hne := eq_or_ne j i
    · exact hrank.le
    · rw [hother j hne]
  · exact ⟨i, Finset.mem_range.mpr hi, hrank⟩

/-- Each step of a task brings the end nearer. -/
lemma TaskMove.drained {i : ℕ} (hmove : TaskMove ntasks s i s') (hflow : Flow ntasks s) (hdrained : s.drained)
    (hi : i < ntasks) : s'.drained ∧ s'.remaining ntasks < s.remaining ntasks := by
  constructor
  · obtain ⟨htodo, hroot, -, hwritten, hreadBack⟩ := hmove.root
    rw [Chain.drained, htodo, hroot, hwritten, hreadBack]
    exact hdrained
  · apply remaining_lt hi fun j hne => (hmove.other hne).1
    obtain ⟨hwrite, -⟩ := hflow.pc_of_drained hdrained hi
    cases hmove with
    | read n hpc hpipe => exact absurd ((hflow.nil_of_drained hdrained).1 i hi.le) hpipe
    | write n hpc => exact absurd hpc hwrite
    | noReader hpc => exact absurd hpc hwrite
    | endOfFile hpc | closeIn hpc | closeOut hpc | leave hpc => simp [Chain.exit, Chain.goTo, hpc, Pc.rank]

/-- Every task gets its two pipes, all calls of the setup succeed, and in each state of each run with the data
read back and fd_out closed no task has failed, the tasks that are left are not stuck, and each of their steps
brings the chain nearer to its end. -/
theorem end_of_file_travels (hpos : 0 < ntasks) (cap : ℕ) (T : Table ℕ) (schedule : List (Event α)) (s : Chain α)
    (hrun : s = run ntasks cap T schedule) :
    (∀ i < ntasks,
      (s.pc i = .read ∨ s.pc i = .write ∨ s.pc i = .closeIn → (s.table i).entry 0 = some (.pipe i .read, false)) ∧
      (s.pc i = .read ∨ s.pc i = .write ∨ s.pc i = .closeIn ∨ s.pc i = .closeOut →
        (s.table i).entry 1 = some (.pipe (i + 1) .write, false))) ∧
    (s.todo ≠ [] → ∃ s', s.setupStep = some s') ∧
    (s.drained → (∀ i < ntasks, s.pc i ≠ .failed) ∧
      ((∃ i < ntasks, s.pc i ≠ .terminated) → ∃ i < ntasks, ∃ choice s', s.taskStep ntasks cap i choice = some s') ∧
      ∀ i choice s', s.taskStep ntasks cap i choice = some s' →
        s'.drained ∧ s'.remaining ntasks < s.remaining ntasks) := by
  subst hrun
  obtain ⟨hwired, hflow⟩ := run_flow hpos cap T schedule
  refine ⟨fun i hi => ⟨(hwired.task i hi).stdin, (hwired.task i hi).stdout⟩, fun htodo => ?_,
    fun hdrained => ⟨fun i hi => (hflow.pc_of_drained hdrained hi).2, fun hleft => ?_, fun i choice s' hstep => ?_⟩⟩
  · obtain ⟨s', q', hstep, -⟩ := hwired.setup_at hpos htodo
    exact ⟨s', hstep⟩
  · -- the least task that has not terminated
    obtain ⟨hi, hpc⟩ := Nat.find_spec hleft
    have hbefore : ∀ j < Nat.find hleft, (run ntasks cap T schedule).pc j = .terminated := by
      intro j hj
      have hmin := Nat.find_min hleft hj
      rw [not_and, not_not] at hmin
      exact hmin (hj.trans hi)
    exact ⟨_, hi, 0, hwired.first_steps hflow hdrained hi hpc hbefore 0⟩
  · obtain ⟨hi, hmove⟩ := hwired.taskMove hstep
    exact hmove.drained hflow hdrained hi

/-- One byte through two tasks and back to the root. -/
def oneByte : List (Event ℕ) :=
  setupAll 2 ++ [.write [1], .task 0 0, .task 0 0, .task 1 0, .task 1 0, .read 1 0, .closeOut]

theorem end_of_file_travels_two :
    (run 2 4 Table.empty oneByte).drained ∧
    ∃ i < 2, ∃ choice s', (run 2 4 Table.empty oneByte).taskStep 2 4 i choice = some s' := by
  have hdrained : (run 2 4 Table.empty oneByte).drained := by decide
  have hleft : ∃ i < 2, (run 2 4 Table.empty oneByte).pc i ≠ .terminated := by decide
  obtain ⟨-, -, hend⟩ := end_of_file_travels Nat.two_pos 4 Table.empty oneByte _ rfl
  exact ⟨hdrained, (hend hdrained).2.1 hleft⟩

end PipTestsuite.HookCoe
