import PipTestsuite.HookCoe.Wiring

/-! As long as the root has fd_out and fd_in open, no task comes to the end of its file or loses its reader. -/
namespace PipTestsuite.HookCoe
open DescriptorTable

variable {α : Type} {ntasks : ℕ} {s s' : Chain α} {q : Progress}

structure Alive (ntasks : ℕ) (s : Chain α) : Prop where
  root : ∃ q, RootAt ntasks s q ∧ q.openOut = true ∧ q.openIn = true
  pc : ∀ i < ntasks, s.pc i = .unborn ∨ s.pc i = .read ∨ s.pc i = .write

lemma Position.bounds {todo : List Instr} (h : Position ntasks todo q) :
    q.readClosed ≤ q.spawned ∧ q.spawned ≤ ntasks ∧ (0 < q.spawned → q.made = ntasks + 1) := by
  cases h with
  | begin | markOut | pipes => exact ⟨le_rfl, Nat.zero_le _, fun hlt => absurd hlt (lt_irrefl 0)⟩
  | spawn i hi => exact ⟨le_rfl, hi, fun _ => rfl⟩
  | closeRead i hi => exact ⟨Nat.le_succ i, hi, fun _ => rfl⟩
  | closeWrite i hi => exact ⟨le_rfl, hi, fun _ => rfl⟩
  | loop => exact ⟨le_rfl, le_rfl, fun _ => rfl⟩

section Ends
variable {i : ℕ}

/-- The next task, or the root, reads what the task writes. -/
lemma Alive.reader (h : Alive ntasks s) (hwired : Wired ntasks s) (hi : i < ntasks) (hborn : s.pc i ≠ .unborn) :
    s.held ntasks (.pipe (i + 1) .read) := by
  obtain ⟨q, hroot, hout, hin⟩ := h.root
  obtain ⟨hread, hspawned, hmade⟩ := hroot.position.bounds
  rw [Ne, hroot.spawned i hi, not_le] at hborn
  have hroot_has : q.readClosed ≤ i + 1 → s.held ntasks (.pipe (i + 1) .read) := by
    intro hle
    refine .inl ((hroot.table.owns.has_iff (by trivial)).mpr ⟨hle, ?_, fun _ => hin⟩)
    rw [hmade (Nat.zero_lt_of_lt hborn)]
    omega
  obtain hlast | hnext := Nat.eq_or_lt_of_le hi
  · exact hroot_has (by omega)
  · obtain hpc | hpc := h.pc (i + 1) hnext
    · have hle := (hroot.spawned (i + 1) hnext).mp hpc
      exact hroot_has (hread.trans hle)
    · have hentry := (hwired.task (i + 1) hnext).stdin (hpc.imp_right .inl)
      exact .inr ⟨i + 1, hnext, Table.has_iff.mpr ⟨0, _, hentry⟩⟩

/-- The task before it, or the root, writes what the task reads. -/
lemma Alive.writer (h : Alive ntasks s) (hwired : Wired ntasks s) (hi : i < ntasks) (hborn : s.pc i ≠ .unborn) :
    s.held ntasks (.pipe i .write) := by
  obtain ⟨q, hroot, hout, hin⟩ := h.root
  obtain ⟨-, hspawned, hmade⟩ := hroot.position.bounds
  rw [Ne, hroot.spawned i hi, not_le] at hborn
  cases i with
  | zero =>
    refine .inl ((hroot.table.owns.has_iff (by trivial)).mpr ⟨?_, by simpa using hout⟩)
    rw [hmade hborn]
    exact Nat.succ_pos ntasks
  | succ k =>
    have hk : k < ntasks := Nat.lt_of_succ_lt hi
    have hpc := (h.pc k hk).resolve_left fun hunborn => by
      have hle := (hroot.spawned k hk).mp hunborn
      omega
    have hentry := (hwired.task k hk).stdout (hpc.imp_right .inl)
    exact .inr ⟨k, hk, Table.has_iff.mpr ⟨1, _, hentry⟩⟩

end Ends

lemma start_alive (T : Table ℕ) : Alive ntasks (start α ntasks T) where
  root := ⟨_, start_rootAt T, rfl, rfl⟩
  pc _ _ := .inl rfl

lemma Alive.setup (h : Alive ntasks s) (hpos : 0 < ntasks) (hwired : Wired ntasks s)
    (hstep : s.setupStep = some s') : Alive ntasks s' where
  root := by
    obtain ⟨s'', q', hstep'', hroot, hopen, -⟩ := hwired.setup_at hpos (todo_ne_nil hstep)
    obtain rfl := Option.some.inj (hstep''.symm.trans hstep)
    exact ⟨q', hroot, hopen⟩
  pc i hi := by
    obtain hpc | ⟨-, hpc⟩ := (hwired.setupMove hstep).pc i hi
    · rw [hpc]
      exact h.pc i hi
    · exact .inr (.inl hpc)

lemma Alive.task {i : ℕ} (h : Alive ntasks s) (hwired : Wired ntasks s) (hi : i < ntasks)
    (hmove : TaskMove ntasks s i s') : Alive ntasks s' where
  root := by
    obtain ⟨q, hroot, hopen⟩ := h.root
    exact ⟨q, hroot.task_step hmove, hopen⟩
  pc j hj := by
    obtain rfl | hne := eq_or_ne j i
    · cases hmove with
      | read => simp [Chain.goTo]
      | write n =>
        simp only [Chain.goTo, Function.update_self]
        split_ifs <;> simp
      | endOfFile hpc hpipe hheld => exact absurd (h.writer hwired hi (by simp [hpc])) hheld
      | noReader hpc hheld => exact absurd (h.reader hwired hi (by simp [hpc])) hheld
      | closeIn hpc | closeOut hpc | leave hpc => simpa [hpc] using h.pc j hi
    · rw [(hmove.other hne).1]
      exact h.pc j hj

/-- What the root writes and reads does not matter. -/
lemma Alive.congr (h : Alive ntasks s) (htodo : s'.todo = s.todo) (hroot : s'.root = s.root)
    (hpipes : s'.pipes = s.pipes) (hpc : s'.pc = s.pc) : Alive ntasks s' where
  root := by
    obtain ⟨q, hq, hopen⟩ := h.root
    exact ⟨q, hq.congr htodo hroot hpipes hpc, hopen⟩
  pc := by
    rw [hpc]
    exact h.pc

/-- A read() of fd_in that returns has got something. -/
lemma Alive.rootRead {limit choice : ℕ} {got : List α} (h : Alive ntasks s) (hpos : 0 < ntasks)
    (hwired : Wired ntasks s) (hstep : s.rootRead ntasks limit choice = some (s', got)) : s.pipe ntasks ≠ [] := by
  obtain ⟨htodo, -, -, hready⟩ := hwired.rootRead hstep
  obtain ⟨-, -, -, hborn⟩ := hwired.inLoop htodo
  have hlast : ntasks - 1 < ntasks := by omega
  have hpc := (h.pc (ntasks - 1) hlast).resolve_left (hborn _ hlast)
  have hentry := (hwired.task _ hlast).stdout (hpc.imp_right .inl)
  have hsucc : ntasks - 1 + 1 = ntasks := by omega
  rw [hsucc] at hentry
  exact hready.resolve_right fun hheld => hheld (.inr ⟨_, hlast, Table.has_iff.mpr ⟨1, _, hentry⟩⟩)

end PipTestsuite.HookCoe
