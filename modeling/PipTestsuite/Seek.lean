import PipTestsuite.Lib.BarrierProgram

/-! seek.c: the root and its tasks take turns at one descriptor. Between two turns everybody waits at the
same barrier, so the programs are cut out of the loops of main up to the first CHECK that fails. -/
namespace PipTestsuite.Seek
open BarrierProgram

/-- argv[1]: the name of a file, "stdin" or "stdout". -/
inductive Mode where
  | file | stdin | stdout
  deriving DecidableEq

/-- An operation on the shared descriptor, together with the CHECKs of its result. -/
inductive Op where
  | write | fsync | read | lseek
  deriving DecidableEq

inductive Party (ntasks : ℕ) where
  | root
  | task (pipid : Fin ntasks)
  deriving DecidableEq, Fintype

/-- for( ii=0; ii<n; ii++ ) pthread_barrier_wait( &expp->barr ) -/
def barrierWaits (n : ℕ) : List (Instr Op) := List.replicate n .wait

/-- The body of a loop of the root. -/
def rootBody (ops : List Op) (ntasks : ℕ) : List (Instr Op) := ops.map .act ++ barrierWaits (ntasks + 1)

/-- The body of a loop of a task. -/
def taskBody (ops : List Op) (ntasks pipid : ℕ) : List (Instr Op) :=
  barrierWaits (pipid + 1) ++ ops.map .act ++ barrierWaits (ntasks + 1 - (pipid + 1))

def rootProg (ntasks niters : ℕ) : Mode → List (Instr Op)
  | .stdin => [.act .read] ++ loop niters (rootBody [] ntasks)
  | .stdout => [.act .write] ++ loop niters (rootBody [] ntasks)
  | .file => loop niters (rootBody [.write, .fsync] ntasks) ++ ([.act .lseek] ++
      loop niters (rootBody [.read] ntasks))

def taskProg (ntasks niters pipid : ℕ) : Mode → List (Instr Op)
  | .stdin => loop niters (taskBody [.read] ntasks pipid)
  | .stdout => loop niters (taskBody [.write] ntasks pipid)
  | .file => loop niters (taskBody [.write, .fsync] ntasks pipid) ++ loop niters (taskBody [.read] ntasks pipid)

def seek (mode : Mode) (ntasks niters : ℕ) : Party ntasks → List (Instr Op)
  | .root => rootProg ntasks niters mode
  | .task pipid => taskProg ntasks niters pipid mode

/-- One iteration: the operations of the root, and then those of each task in the order of the pipids. -/
def iteration (ntasks : ℕ) (rootOps taskOps : List Op) : List (Party ntasks × Op) :=
  rootOps.map (.root, ·) ++ (List.finRange ntasks).flatMap fun pipid => taskOps.map (.task pipid, ·)

def iterations (ntasks niters : ℕ) (rootOps taskOps : List Op) : List (Party ntasks × Op) :=
  (List.replicate niters (iteration ntasks rootOps taskOps)).flatten

/-- The operations of a whole run in the order that the test is about. -/
def expected (ntasks niters : ℕ) : Mode → List (Party ntasks × Op)
  | .stdin => (.root, .read) :: iterations ntasks niters [] [.read]
  | .stdout => (.root, .write) :: iterations ntasks niters [] [.write]
  | .file => iterations ntasks niters [.write, .fsync] [.write, .fsync] ++
      (.root, .lseek) :: iterations ntasks niters [.read] [.read]

/-- Each participant comes to so many waits. -/
def nwaits (ntasks niters : ℕ) : Mode → ℕ
  | .stdin => niters * (ntasks + 1)
  | .stdout => niters * (ntasks + 1)
  | .file => niters * (ntasks + 1) + niters * (ntasks + 1)

/-- Whose turn it is behind barrier wait number k. -/
def owner (ntasks k : ℕ) : Party ntasks :=
  if h : k % (ntasks + 1) = 0 then .root
  else .task ⟨k % (ntasks + 1) - 1, by
    have := Nat.mod_lt k (show 0 < ntasks + 1 by omega)
    omega⟩

section Turns
variable {ntasks : ℕ}

lemma owner_add (k : ℕ) : owner ntasks (k + (ntasks + 1)) = owner ntasks k := by
  simp [owner]

@[simp] lemma owner_zero : owner ntasks 0 = .root := by simp [owner]

lemma owner_task (pipid : Fin ntasks) : owner ntasks (pipid + 1) = .task pipid := by
  have hlt : pipid.val + 1 < ntasks + 1 := by omega
  simp [owner, Nat.mod_eq_of_lt hlt]

/-- The bodies of one loop of the root and of the tasks. -/
def body (ntasks : ℕ) (rootOps taskOps : List Op) : Party ntasks → List (Instr Op)
  | .root => rootBody rootOps ntasks
  | .task pipid => taskBody taskOps ntasks pipid

lemma phase_rootBody (ops : List Op) (k : ℕ) :
    phase (rootBody ops ntasks) k = if k = 0 then ops else [] := by
  simp [rootBody, barrierWaits, phase_append]

lemma phase_taskBody (ops : List Op) (pipid k : ℕ) :
    phase (taskBody ops ntasks pipid) k = if k = pipid + 1 then ops else [] := by
  simp only [taskBody, barrierWaits, phase_append, phase_map_act, phase_replicate_wait, waits_append,
    waits_replicate_wait, waits_map_act]
  split_ifs <;> first | rfl | omega | simp

lemma round_body (rootOps taskOps : List Op) : Round (body ntasks rootOps taskOps) (ntasks + 1) where
  waits i := by
    cases i with
    | root => simp [body, rootBody, barrierWaits]
    | task pipid =>
      simp [body, taskBody, barrierWaits]
      omega
  closed i := by
    cases i with
    | root => simp [body, phase_rootBody]
    | task pipid =>
      rw [body, phase_taskBody, if_neg]
      omega

lemma owned_body (rootOps taskOps : List Op) : Owned (body ntasks rootOps taskOps) (owner ntasks) := by
  intro k i hk
  cases i with
  | root =>
    rw [body, phase_rootBody] at hk
    split_ifs at hk with h0
    · rw [h0, owner_zero]
    · exact absurd rfl hk
  | task pipid =>
    rw [body, phase_taskBody] at hk
    split_ifs at hk with hp
    · rw [hp, owner_task]
    · exact absurd rfl hk

lemma turns_body (rootOps taskOps : List Op) :
    turns (body ntasks rootOps taskOps) (owner ntasks) (ntasks + 1) = iteration ntasks rootOps taskOps := by
  have hrange : List.range ntasks = (List.finRange ntasks).map Fin.val := by simp
  rw [turns, List.range_succ_eq_map, List.flatMap_cons, owner_zero, body, phase_rootBody, if_pos rfl, iteration,
    List.flatMap_map, hrange, List.flatMap_map]
  congr 1
  refine List.flatMap_congr fun pipid _ => ?_
  rw [Nat.succ_eq_add_one, owner_task, body, phase_taskBody, if_pos rfl]

/-- What the root does outside of its loops. -/
def outside (op : Op) : Party ntasks → List Op
  | .root => [op]
  | .task _ => []

lemma outside_ne_nil {op : Op} (i : Party ntasks) (h : outside op i ≠ []) : i = owner ntasks 0 := by
  cases i with
  | root => exact owner_zero.symm
  | task pipid => exact absurd rfl h

/-- The loops of one mode, with what the root does in front of them. -/
def loops (niters : ℕ) (rootOps taskOps : List Op) (i : Party ntasks) : List (Instr Op) :=
  loop niters (body ntasks rootOps taskOps i) ++ []

lemma owned_loops (niters : ℕ) (rootOps taskOps : List Op) :
    Owned (loops niters rootOps taskOps) (owner ntasks) :=
  (round_body rootOps taskOps).owned_loop_append owner_add (owned_body rootOps taskOps)
    (fun _ _ h => absurd rfl h) niters

lemma turns_loops (niters : ℕ) (rootOps taskOps : List Op) :
    turns (loops niters rootOps taskOps) (owner ntasks) (niters * (ntasks + 1) + 1) =
      iterations ntasks niters rootOps taskOps := by
  unfold loops
  rw [(round_body rootOps taskOps).turns_loop_append owner_add, turns_body, iterations]
  simp [turns, phase]

lemma seek_file (niters : ℕ) : seek .file ntasks niters = fun i =>
    loop niters (body ntasks [.write, .fsync] [.write, .fsync] i) ++
      ((outside .lseek i).map .act ++ loops niters [.read] [.read] i) := by
  funext i
  cases i <;> simp [seek, rootProg, taskProg, body, outside, loops]

lemma seek_stdin (niters : ℕ) : seek .stdin ntasks niters = fun i =>
    (outside .read i).map .act ++ loops niters [] [.read] i := by
  funext i
  cases i <;> simp [seek, rootProg, taskProg, body, outside, loops]

lemma seek_stdout (niters : ℕ) : seek .stdout ntasks niters = fun i =>
    (outside .write i).map .act ++ loops niters [] [.write] i := by
  funext i
  cases i <;> simp [seek, rootProg, taskProg, body, outside, loops]

theorem owned_seek (mode : Mode) (niters : ℕ) : Owned (seek mode ntasks niters) (owner ntasks) := by
  cases mode with
  | file =>
    rw [seek_file]
    exact (round_body _ _).owned_loop_append owner_add (owned_body _ _)
      (owned_act_append outside_ne_nil (owned_loops _ _ _)) niters
  | stdin =>
    rw [seek_stdin]
    exact owned_act_append outside_ne_nil (owned_loops _ _ _)
  | stdout =>
    rw [seek_stdout]
    exact owned_act_append outside_ne_nil (owned_loops _ _ _)

/-- Everybody comes to the same number of waits. -/
theorem waits_seek (mode : Mode) (niters : ℕ) (i : Party ntasks) :
    waits (seek mode ntasks niters i) = nwaits ntasks niters mode := by
  have hbody : ∀ rootOps taskOps, waits (body ntasks rootOps taskOps i) = ntasks + 1 :=
    fun rootOps taskOps => (round_body rootOps taskOps).waits i
  cases mode with
  | file => simp [seek_file, loops, hbody, nwaits]
  | stdin => simp [seek_stdin, loops, hbody, nwaits]
  | stdout => simp [seek_stdout, loops, hbody, nwaits]

/-- The turns are those that the test is about. -/
theorem turns_seek (mode : Mode) (niters : ℕ) :
    turns (seek mode ntasks niters) (owner ntasks) (nwaits ntasks niters mode + 1) =
      expected ntasks niters mode := by
  cases mode with
  | file =>
    rw [seek_file, nwaits, Nat.add_assoc, (round_body _ _).turns_loop_append owner_add, turns_body,
      turns_act_append, turns_loops, owner_zero, expected, iterations]
    rfl
  | stdin =>
    rw [seek_stdin, nwaits, turns_act_append, turns_loops, owner_zero, expected]
    rfl
  | stdout =>
    rw [seek_stdout, nwaits, turns_act_append, turns_loops, owner_zero, expected]
    rfl

lemma mem_iterations {niters : ℕ} {rootOps taskOps : List Op} {x : Party ntasks × Op}
    (h : x ∈ iterations ntasks niters rootOps taskOps) : x.2 ∈ rootOps ∨ x.2 ∈ taskOps := by
  obtain ⟨l, hl, hx⟩ := List.mem_flatten.mp h
  rw [List.eq_of_mem_replicate hl, iteration, List.mem_append] at hx
  obtain hx | hx := hx
  · obtain ⟨op, hop, rfl⟩ := List.mem_map.mp hx
    exact .inl hop
  · obtain ⟨pipid, -, hx⟩ := List.mem_flatMap.mp hx
    obtain ⟨op, hop, rfl⟩ := List.mem_map.mp hx
    exact .inr hop

end Turns

/-- The lseek stands behind all writes and in front of all reads. -/
def LseekBetween {ntasks : ℕ} (log : List (Party ntasks × Op)) : Prop :=
  ∀ before x after, log = before ++ x :: after →
    (x.2 = .lseek → x.1 = .root ∧ ∀ y ∈ before, y.2 = .write ∨ y.2 = .fsync) ∧
    (x.2 = .write ∨ x.2 = .fsync → ∀ y ∈ before, y.2 ≠ .lseek) ∧
    (x.2 = .read → (.root, .lseek) ∈ before)

/-- Writes in front of the lseek and reads behind it leave it no other place. -/
lemma lseekBetween_of_log {ntasks : ℕ} {log writes reads : List (Party ntasks × Op)}
    (hw : ∀ y ∈ writes, y.2 = .write ∨ y.2 = .fsync) (hr : ∀ y ∈ reads, y.2 = .read)
    (h : log <+: writes ++ (.root, .lseek) :: reads) : LseekBetween log := by
  rintro before x after rfl
  obtain ⟨rest, hrest⟩ := h
  rw [List.append_assoc, List.cons_append] at hrest
  obtain ⟨pre, hpre, hx⟩ | ⟨pre, hpre, hx⟩ := List.append_eq_append_iff.mp hrest
  · -- x is one of the writes, or the lseek itself
    have hbefore : ∀ y ∈ before, y.2 = .write ∨ y.2 = .fsync := fun y hy => hw y (by simp [hpre, hy])
    cases pre with
    | nil =>
      obtain ⟨rfl, -⟩ := List.cons_eq_cons.mp hx
      exact ⟨fun _ => ⟨rfl, hbefore⟩, by simp, by simp⟩
    | cons y pre =>
      obtain ⟨rfl, -⟩ := List.cons_eq_cons.mp hx
      have hxw := hw x (by simp [hpre])
      refine ⟨fun h => by simp [h] at hxw, fun _ y hy h => ?_, fun h => by simp [h] at hxw⟩
      have := hbefore y hy
      simp [h] at this
  · -- x is the lseek or one of the reads
    cases pre with
    | nil =>
      obtain ⟨rfl, -⟩ := List.cons_eq_cons.mp hx
      refine ⟨fun _ => ⟨rfl, fun y hy => hw y ?_⟩, by simp, by simp⟩
      simpa [hpre] using hy
    | cons y pre =>
      obtain ⟨rfl, hreads⟩ := List.cons_eq_cons.mp hx
      have hxr := hr x (by simp [hreads])
      exact ⟨by simp [hxr], by simp [hxr], fun _ => by simp [hpre]⟩

/-- No two participants are in their turns at once, the operations come in the expected order, and as
long as no CHECK fails everybody goes on to the end, through the same number of waits. -/
structure TurnsKept {ntasks : ℕ} (mode : Mode) (niters : ℕ) (s : State (Party ntasks) Op) : Prop where
  exclusive : ∀ i j, InTurn (seek mode ntasks niters) s i → InTurn (seek mode ntasks niters) s j → i = j
  ordered : s.log <+: expected ntasks niters mode
  lseek : mode = .file → LseekBetween s.log
  waits : ∀ i, waits (seek mode ntasks niters i) = nwaits ntasks niters mode
  goesOn : (∀ i, s.failed i = false) →
    Finished s ∨ ∃ a s', step s a = some s' ∧ ∀ i, s'.failed i = false
  ends : ∀ a s', step s a = some s' → work s' < work s
  complete : (∀ i, s.failed i = false) → Finished s → s.log = expected ntasks niters mode

/-- Every interleaving of the root and the tasks. -/
theorem seek_turns (mode : Mode) (ntasks niters : ℕ) (schedule : List (Action (Party ntasks))) :
    TurnsKept mode niters (run (seek mode ntasks niters) schedule) := by
  have howner := @owned_seek ntasks mode niters
  have hwaits := @waits_seek ntasks mode niters
  have hinv := run_inv howner schedule
  have hlog := @turns_seek ntasks mode niters ▸ hinv.log_of_turns hwaits
  constructor
  · intro i j hi hj
    rw [hinv.inTurn_eq howner hi, hinv.inTurn_eq howner hj]
  · exact hlog
  · rintro rfl
    refine lseekBetween_of_log (fun y hy => ?_) (fun y hy => ?_) hlog
    · simpa using mem_iterations hy
    · simpa using mem_iterations hy
  · exact hwaits
  · intro hok
    obtain hend | ⟨a, s', hstep, hfailed⟩ := hinv.placed.finished_or_step hinv.outside hwaits hok
    · exact .inl hend
    · exact .inr ⟨a, s', hstep, fun i => by rw [hfailed, hok]⟩
  · exact fun a s' => hinv.placed.work_step
  · intro hok hend
    rw [hinv.log_finished hwaits hok hend, turns_seek]

end PipTestsuite.Seek
