import PipTestsuite.ExitCode
import PipTestsuite.Lib.Checked
import PipTestsuite.Lib.Rank

/-! corebind.c: the root spawns its tasks on the usable cores in turn, the first half by the core argument
and the second half by binding itself, and each task checks on which core it runs. -/
namespace PipTestsuite.Corebind
open Checked Rank

/-- CPU_SETSIZE, the number of bits of a cpu_set_t. -/
def cpuSetsize : ℕ := 1024

/-- A set of cores a process may be bound to. -/
abbrev Mask (usable : Finset ℕ) := {mask : Finset ℕ // mask.Nonempty ∧ mask ⊆ usable}

/-- The usable cores, and sched_setaffinity with a cpu_set_t and the current affinity. -/
structure Kernel where
  usable : Finset ℕ
  nonempty : usable.Nonempty
  bound : ∀ i ∈ usable, i < cpuSetsize
  setaffinity : Finset ℕ → Mask usable → Option (Mask usable)
  granted : ∀ mask current : Mask usable, setaffinity mask current = some mask
  refused : ∀ i ∉ usable, ∀ current, setaffinity {i} current = none

/-- Linux binds a process to the usable cores of the set, unless there are none. -/
def Kernel.linux (usable : Finset ℕ) (nonempty : usable.Nonempty) (bound : ∀ i ∈ usable, i < cpuSetsize) : Kernel where
  usable := usable
  nonempty := nonempty
  bound := bound
  setaffinity mask _ :=
    if h : (mask ∩ usable).Nonempty then some ⟨mask ∩ usable, h, Finset.inter_subset_right⟩ else none
  granted mask _ := by
    have hinter : mask.val ∩ usable = mask.val := Finset.inter_eq_left.mpr mask.2.2
    rw [dif_pos (by rw [hinter]; exact mask.2.1)]
    exact congrArg some (Subtype.ext hinter)
  refused i hi _ := by simp [Finset.singleton_inter_of_notMem hi]

/-- CPU_SET on an empty set; a number outside of the set has no effect. -/
def cpuSet (core : ℤ) : Finset ℕ := if 0 ≤ core ∧ core < cpuSetsize then {core.toNat} else ∅

def cpuIsset (core : ℤ) (cpuset : Finset ℕ) : Bool := 0 ≤ core ∧ core.toNat ∈ cpuset

/-- How a process ends before its main returns. -/
inductive Stop where
  | code (exit : ℕ)
  | errno
  | divisionByZero
  deriving DecidableEq

/-- The arguments and what the calls of the PiP library return. -/
structure Calls where
  ntasksMax : ℕ
  ntasksMax_pos : 0 < ntasksMax
  arg : Option ℤ
  ntenv : Option ℤ
  pipInit : ℤ
  pipSpawn : ℕ → ℤ
  pipWaitAny : ℕ → ℤ × WaitStatus
  pipFin : ℤ

section Main
variable (k : Kernel)

/-- The body of the loop of fill_cpuset, with the set and the affinity so far. -/
def probe (found : Finset ℕ × Mask k.usable) (i : ℕ) : Finset ℕ × Mask k.usable :=
  match k.setaffinity (cpuSet i) found.2 with
  | some current => (insert i found.1, current)
  | none => found

/-- The set found and the affinity left behind. -/
def fillCpuset (save : Mask k.usable) : Except Stop (Finset ℕ × Mask k.usable) :=
  let found := (List.range cpuSetsize).foldl (probe k) (∅, save)
  match k.setaffinity save found.2 with
  | some current => .ok (found.1, current)
  | none => .error .errno

/-- The loop of nth_core over the core numbers, with its j. -/
def coreLoop (cpuset : Finset ℕ) (nth : ℕ) : ℕ → List ℕ → ℤ
  | _, [] => -1
  | j, i :: is =>
    if i ∈ cpuset then if j = nth then i else coreLoop cpuset nth (j + 1) is
    else coreLoop cpuset nth j is

def nthCore (nth : ℕ) (cpuset : Finset ℕ) : Except Stop ℤ :=
  let ncores := cpuset.card
  if ncores = 0 then .error .divisionByZero
  else .ok (coreLoop cpuset (nth % ncores) 0 (List.range cpuSetsize))

/-- The number of tasks from the argument, which $NTASKS limits where it is set. -/
def readNtasks (calls : Calls) : Except Stop ℕ := do
  let ntasks := calls.arg.getD 0
  let ntasks : ℤ := if ntasks ≤ 0 then calls.ntasksMax else ntasks
  check (ntasks > calls.ntenv.getD calls.ntasksMax) (.code exitUntested)
  return ntasks.toNat

def hntasks (ntasks : ℕ) : ℕ :=
  let half := ntasks / 2
  if half < 1 then 1 else half

/-- main up to the call of pip_init: the number of tasks, the usable cores and the affinity. -/
def prologue (calls : Calls) (save : Mask k.usable) : Except Stop (ℕ × Finset ℕ × Mask k.usable) := do
  let ntasks ← readNtasks calls
  let (cpufull, mask) ← fillCpuset k save
  check (calls.pipInit ≠ 0) (.code exitFail)
  return (ntasks, cpufull, mask)

/-- A call of pip_spawn with its core argument (none is PIP_CPUCORE_ASIS) and the affinity of the root. -/
structure Task where
  pipid : ℕ
  core : Option ℤ
  rootMask : Mask k.usable

/-- The body of the first spawn loop before pip_spawn. -/
def byArgument (cpufull : Finset ℕ) (mask : Mask k.usable) (i : ℕ) : Except Stop (Task k) := do
  let core ← nthCore i cpufull
  return ⟨i, some core, mask⟩

/-- The body of the second one, which binds the root. -/
def byAffinity (cpufull : Finset ℕ) (mask : Mask k.usable) (i : ℕ) : Except Stop (Task k) := do
  let core ← nthCore i cpufull
  match k.setaffinity (cpuSet core) mask with
  | some mask => return ⟨i, none, mask⟩
  | none => .error (.code exitUnresolved)

variable {k} in
/-- A spawn loop: the calls of pip_spawn that it makes, and the affinity of the root behind it. -/
def spawnLoop (choose : Mask k.usable → ℕ → Except Stop (Task k)) (pipSpawn : ℕ → ℤ) :
    Mask k.usable → List ℕ → List (Task k) × Except Stop (Mask k.usable)
  | mask, [] => ([], .ok mask)
  | mask, i :: is =>
    match choose mask i with
    | .error stop => ([], .error stop)
    | .ok task =>
      if pipSpawn i ≠ 0 then ([task], .error (.code exitFail))
      else
        let (tasks, mask) := spawnLoop choose pipSpawn task.rootMask is
        (task :: tasks, mask)

/-- Both spawn loops of the root. -/
def rootSpawns (calls : Calls) (ntasks : ℕ) (cpufull : Finset ℕ) (mask : Mask k.usable) :
    List (Task k) × Except Stop (Mask k.usable) :=
  let half := hntasks ntasks
  match spawnLoop (byArgument k cpufull) calls.pipSpawn mask (List.range half) with
  | (tasks, .error stop) => (tasks, .error stop)
  | (tasks, .ok mask) =>
    let (tasks', mask) := spawnLoop (byAffinity k cpufull) calls.pipSpawn mask (List.range' half (ntasks - half))
    (tasks ++ tasks', mask)

/-- The wait loop of the root. -/
def waitTasks (calls : Calls) : ℕ → List ℕ → Except Stop ℕ
  | extval, [] => .ok extval
  | _, i :: is => do
    check ((calls.pipWaitAny i).1 ≠ 0) (.code exitFail)
    match (calls.pipWaitAny i).2 with
    | .exited code =>
      check (code.val ≠ 0) (.code exitFail)
      waitTasks calls code is
    | .signaled _ => return exitUnresolved

/-- main of the root: the spawns it makes and its exit status. -/
def mainRoot (calls : Calls) (save : Mask k.usable) : List (Task k) × Except Stop ℕ :=
  match prologue k calls save with
  | .error stop => ([], .error stop)
  | .ok (ntasks, cpufull, mask) =>
    let (tasks, mask) := rootSpawns k calls ntasks cpufull mask
    (tasks, do
      let _ ← mask
      let extval ← waitTasks calls 0 (List.range ntasks)
      check (calls.pipFin ≠ 0) (.code exitFail)
      return extval)

/-- The core that the main of a task computes. -/
def taskCore (own : Mask k.usable) (pipid : ℕ) : Except Stop ℤ := do
  let (cpufull, _) ← fillCpuset k own
  nthCore pipid cpufull

/-- main of a task that starts with its own affinity. -/
def mainTask (calls : Calls) (pipid : ℕ) (own : Mask k.usable) : Except Stop ℕ := do
  let (_, cpufull, mask) ← prologue k calls own
  let core ← nthCore pipid cpufull
  check (!cpuIsset core mask) (.code exitFail)
  check (calls.pipFin ≠ 0) (.code exitFail)
  return 0

end Main

section Cores
variable {k : Kernel}

lemma cpuSet_eq {i : ℕ} (hi : i < cpuSetsize) : cpuSet i = {i} := by
  rw [cpuSet, if_pos ⟨Int.natCast_nonneg i, Int.ofNat_lt.mpr hi⟩, Int.toNat_natCast]

/-- The affinity to one usable core. -/
def single (c : k.usable) : Mask k.usable :=
  ⟨{c.val}, Finset.singleton_nonempty c.val, Finset.singleton_subset_iff.mpr c.property⟩

lemma setaffinity_cpuSet (c : k.usable) (current : Mask k.usable) :
    k.setaffinity (cpuSet c.val) current = some (single c) := by
  rw [cpuSet_eq (k.bound c.val c.property)]
  exact k.granted (single c) current

lemma probe_fst {i : ℕ} (hi : i < cpuSetsize) (found : Finset ℕ × Mask k.usable) :
    (probe k found i).1 = if i ∈ k.usable then insert i found.1 else found.1 := by
  rw [probe]
  by_cases h : i ∈ k.usable
  · rw [setaffinity_cpuSet ⟨i, h⟩, if_pos h]
  · rw [cpuSet_eq hi, k.refused i h, if_neg h]

/-- Whatever the affinity of the caller, the loop finds the usable cores. -/
lemma foldl_probe (save : Mask k.usable) {n : ℕ} (hn : n ≤ cpuSetsize) :
    ((List.range n).foldl (probe k) (∅, save)).1 = k.usable.filter (· < n) := by
  induction n with
  | zero => simp
  | succ n ih =>
    rw [List.range_succ, List.foldl_append, List.foldl_cons, List.foldl_nil, probe_fst (by omega), ih (by omega)]
    ext c
    by_cases h : n ∈ k.usable
    · simp only [if_pos h, Finset.mem_insert, Finset.mem_filter, Order.lt_add_one_iff, le_iff_eq_or_lt, and_or_left]
      exact or_congr_left ⟨fun hc => ⟨hc ▸ h, hc⟩, And.right⟩
    · have hne : c ∈ k.usable → c ≠ n := fun hc heq => h (heq ▸ hc)
      simp only [if_neg h, Finset.mem_filter, Order.lt_add_one_iff]
      exact and_congr_right fun hc => ⟨le_of_lt, fun hle => lt_of_le_of_ne hle (hne hc)⟩

@[simp] theorem fillCpuset_eq (save : Mask k.usable) : fillCpuset k save = .ok (k.usable, save) := by
  have hfound : ((List.range cpuSetsize).foldl (probe k) (∅, save)).1 = k.usable := by
    rw [foldl_probe save le_rfl, Finset.filter_true_of_mem k.bound]
  rw [fillCpuset]
  simp only [k.granted, hfound]

/-- The loop finds the core with the wanted rank, if it starts with the rank of its first core number. -/
lemma coreLoop_eq {S : Finset ℕ} {c : ℕ} (hc : c ∈ S) {n i : ℕ} (hi : i ≤ c) (hn : c < i + n) :
    coreLoop S (rank S c) (rank S i) (List.range' i n) = c := by
  induction n generalizing i with
  | zero => omega
  | succ n ih =>
    rw [List.range'_succ, coreLoop]
    by_cases hmem : i ∈ S
    · by_cases heq : i = c
      · rw [if_pos hmem, if_pos (by rw [heq]), heq]
      · have hne : rank S i ≠ rank S c := fun h => heq (rank_injOn hmem hc h)
        have hrank : rank S i + 1 = rank S (i + 1) := by rw [rank_succ, if_pos hmem]
        rw [if_pos hmem, if_neg hne, hrank, ih (by omega) (by omega)]
    · have hne : i ≠ c := fun h => hmem (h ▸ hc)
      have hrank : rank S i = rank S (i + 1) := by rw [rank_succ, if_neg hmem, Nat.add_zero]
      rw [if_neg hmem, hrank, ih (by omega) (by omega)]

/-- nth_core selects by the remainder of its argument. -/
lemma nthCore_eq_ok_iff (k : Kernel) (nth : ℕ) (core : ℤ) :
    nthCore nth k.usable = .ok core ↔ ∃ c ∈ k.usable, rank k.usable c = nth % k.usable.card ∧ core = c := by
  have hpos := k.nonempty.card_pos
  obtain ⟨c, hc, hrank⟩ := exists_rank_eq (s := k.usable) (Nat.mod_lt nth hpos)
  have hloop : nthCore nth k.usable = .ok (c : ℤ) := by
    have hall := coreLoop_eq hc (Nat.zero_le c) (show c < 0 + cpuSetsize by have := k.bound c hc; omega)
    rw [nthCore, if_neg hpos.ne', ← hrank, List.range_eq_range']
    rw [rank_zero] at hall
    rw [hall]
  rw [hloop]
  constructor
  · intro h
    exact ⟨c, hc, hrank, (Except.ok.inj h).symm⟩
  · rintro ⟨c', hc', hrank', rfl⟩
    rw [rank_injOn hc' hc (hrank'.trans hrank.symm)]

lemma exists_nthCore (k : Kernel) (nth : ℕ) :
    ∃ c ∈ k.usable, rank k.usable c = nth % k.usable.card ∧ nthCore nth k.usable = .ok (c : ℤ) := by
  obtain ⟨c, hc, hrank⟩ := exists_rank_eq (s := k.usable) (Nat.mod_lt nth k.nonempty.card_pos)
  exact ⟨c, hc, hrank, (nthCore_eq_ok_iff k nth c).mpr ⟨c, hc, hrank, rfl⟩⟩

/-- What the root chose for the task: a core by the argument of pip_spawn or by its own affinity. -/
def Task.OnCore (task : Task k) (c : ℕ) : Prop :=
  task.core = some (c : ℤ) ∨ task.core = none ∧ task.rootMask.val = {c}

/-- A pass through the body of the first spawn loop, or of the second one. -/
def Chosen (bound : Prop) (i : ℕ) (task : Task k) : Prop :=
  task.pipid = i ∧ (task.core = none ↔ bound) ∧
    ∃ c ∈ k.usable, rank k.usable c = i % k.usable.card ∧ task.OnCore c

lemma byArgument_ok (mask : Mask k.usable) (i : ℕ) :
    ∃ task, byArgument k k.usable mask i = .ok task ∧ Chosen False i task := by
  obtain ⟨c, hc, hrank, hnth⟩ := exists_nthCore k i
  refine ⟨⟨i, some c, mask⟩, ?_, rfl, by simp, c, hc, hrank, .inl rfl⟩
  rw [byArgument, hnth]
  rfl

lemma byAffinity_ok (mask : Mask k.usable) (i : ℕ) :
    ∃ task, byAffinity k k.usable mask i = .ok task ∧ Chosen True i task := by
  obtain ⟨c, hc, hrank, hnth⟩ := exists_nthCore k i
  refine ⟨⟨i, none, single ⟨c, hc⟩⟩, ?_, rfl, by simp, c, hc, hrank, .inr ⟨rfl, rfl⟩⟩
  rw [byAffinity, hnth]
  simp only [bind, Except.bind, setaffinity_cpuSet ⟨c, hc⟩ mask]
  rfl

/-- The calls of a spawn loop are those of the first of its rounds; of all of them, where pip_spawn succeeds. -/
lemma spawnLoop_spec {choose : Mask k.usable → ℕ → Except Stop (Task k)} {bound : Prop}
    (hchoose : ∀ mask i, ∃ task, choose mask i = .ok task ∧ Chosen bound i task) (pipSpawn : ℕ → ℤ)
    (mask : Mask k.usable) (is : List ℕ) :
    (∀ task ∈ (spawnLoop choose pipSpawn mask is).1, task.pipid ∈ is ∧ Chosen bound task.pipid task) ∧
    ((∀ i, pipSpawn i = 0) → (spawnLoop choose pipSpawn mask is).1.map Task.pipid = is ∧
      ∃ mask', (spawnLoop choose pipSpawn mask is).2 = .ok mask') := by
  induction is generalizing mask with
  | nil => exact ⟨by simp [spawnLoop], fun _ => ⟨rfl, mask, rfl⟩⟩
  | cons i is ih =>
    obtain ⟨task, htask, hchosen⟩ := hchoose mask i
    obtain ⟨hall, hend⟩ := ih task.rootMask
    have hpipid := hchosen.1
    rw [spawnLoop, htask]
    dsimp only
    constructor
    · split
      · intro t ht
        rw [List.mem_singleton.mp ht, hpipid]
        exact ⟨List.mem_cons_self, hchosen⟩
      · intro t ht
        obtain rfl | ht := List.mem_cons.mp ht
        · rw [hpipid]
          exact ⟨List.mem_cons_self, hchosen⟩
        · exact ⟨List.mem_cons_of_mem i (hall t ht).1, (hall t ht).2⟩
    · intro hspawn
      rw [if_neg (not_not.mpr (hspawn i)), List.map_cons, (hend hspawn).1, hpipid]
      exact ⟨rfl, (hend hspawn).2⟩

end Cores

section Root
variable {k : Kernel} {calls : Calls}

lemma readNtasks_pos {ntasks : ℕ} (h : readNtasks calls = .ok ntasks) : 0 < ntasks := by
  have hpos := calls.ntasksMax_pos
  rw [readNtasks] at h
  obtain rfl := pure_eq_ok.mp (bind_eq_ok.mp h).2
  split <;> omega

lemma hntasks_le {ntasks : ℕ} (h : 0 < ntasks) : hntasks ntasks ≤ ntasks := by
  rw [hntasks]
  split <;> omega

lemma Chosen.congr {p q : Prop} {i : ℕ} {task : Task k} (h : Chosen p i task) (hpq : p ↔ q) : Chosen q i task :=
  ⟨h.1, h.2.1.trans hpq, h.2.2⟩

/-- The root spawns each of its tasks on the core of its pipid, the second half by its own affinity. -/
lemma rootSpawns_spec {ntasks : ℕ} (hpos : 0 < ntasks) (mask : Mask k.usable) :
    (∀ task ∈ (rootSpawns k calls ntasks k.usable mask).1,
      task.pipid < ntasks ∧ Chosen (hntasks ntasks ≤ task.pipid) task.pipid task) ∧
    ((∀ i, calls.pipSpawn i = 0) →
      (rootSpawns k calls ntasks k.usable mask).1.map Task.pipid = List.range ntasks ∧
      ∃ mask', (rootSpawns k calls ntasks k.usable mask).2 = .ok mask') := by
  have hhalf := hntasks_le hpos
  have hfirst := spawnLoop_spec (fun mask i => byArgument_ok mask i) calls.pipSpawn mask (List.range (hntasks ntasks))
  have hleft : ∀ task ∈ (spawnLoop (byArgument k k.usable) calls.pipSpawn mask (List.range (hntasks ntasks))).1,
      task.pipid < ntasks ∧ Chosen (hntasks ntasks ≤ task.pipid) task.pipid task := by
    intro task htask
    obtain ⟨hmem, hchosen⟩ := hfirst.1 task htask
    have hlt := List.mem_range.mp hmem
    exact ⟨by omega, hchosen.congr ⟨False.elim, fun h => by omega⟩⟩
  rw [rootSpawns]
  cases hloop : spawnLoop (byArgument k k.usable) calls.pipSpawn mask (List.range (hntasks ntasks)) with
  | mk tasks ended =>
    rw [hloop] at hfirst hleft
    cases ended with
    | error stop =>
      refine ⟨hleft, fun hspawn => ?_⟩
      obtain ⟨mask', hmask'⟩ := (hfirst.2 hspawn).2
      cases hmask'
    | ok mask' =>
      have hsecond := spawnLoop_spec (fun mask i => byAffinity_ok mask i) calls.pipSpawn mask'
        (List.range' (hntasks ntasks) (ntasks - hntasks ntasks))
      constructor
      · intro task htask
        obtain htask | htask := List.mem_append.mp htask
        · exact hleft task htask
        · obtain ⟨hmem, hchosen⟩ := hsecond.1 task htask
          obtain ⟨hge, hlt⟩ := List.mem_range'_1.mp hmem
          exact ⟨by omega, hchosen.congr ⟨fun _ => hge, fun _ => trivial⟩⟩
      · intro hspawn
        have hsplit := List.range'_append_1 (s := 0) (m := hntasks ntasks) (n := ntasks - hntasks ntasks)
        rw [Nat.zero_add, Nat.add_sub_cancel' hhalf] at hsplit
        rw [List.map_append, (hfirst.2 hspawn).1, (hsecond.2 hspawn).1, List.range_eq_range', hsplit,
          List.range_eq_range']
        exact ⟨rfl, (hsecond.2 hspawn).2⟩

/-- The prologue finds the usable cores and leaves the affinity as it is. -/
lemma prologue_eq_ok {save mask : Mask k.usable} {ntasks : ℕ} {cpufull : Finset ℕ} :
    prologue k calls save = .ok (ntasks, cpufull, mask) ↔
      readNtasks calls = .ok ntasks ∧ calls.pipInit = 0 ∧ cpufull = k.usable ∧ mask = save := by
  rw [prologue]
  cases readNtasks calls with
  | error stop => simp [bind, Except.bind]
  | ok n =>
    have hcheck : (do
        check (calls.pipInit ≠ 0) (Stop.code exitFail)
        return (n, k.usable, save)) = Except.ok (ntasks, cpufull, mask) ↔
          calls.pipInit = 0 ∧ (ntasks, cpufull, mask) = (n, k.usable, save) := by
      rw [bind_eq_ok, pure_eq_ok, check_eq_ok]
      simp only [ne_eq, decide_not, Bool.not_eq_false', decide_eq_true_eq]
    simp only [fillCpuset_eq]
    refine hcheck.trans ?_
    simp only [Prod.mk.injEq, Except.ok.injEq, eq_comm (a := n)]
    tauto

lemma mainRoot_fst {save : Mask k.usable} {ntasks : ℕ} (hread : readNtasks calls = .ok ntasks)
    (hinit : calls.pipInit = 0) : (mainRoot k calls save).1 = (rootSpawns k calls ntasks k.usable save).1 := by
  rw [mainRoot, prologue_eq_ok.mpr ⟨hread, hinit, rfl, rfl⟩]

lemma Task.OnCore.inj {task : Task k} {c c' : ℕ} (h : task.OnCore c) (h' : task.OnCore c') : c = c' := by
  obtain h | ⟨hnone, hmask⟩ := h
  · obtain h' | ⟨hnone', -⟩ := h'
    · exact Int.ofNat_inj.mp (Option.some.inj (h.symm.trans h'))
    · exact absurd (hnone'.symm.trans h) (by simp)
  · obtain h' | ⟨-, hmask'⟩ := h'
    · exact absurd (hnone.symm.trans h') (by simp)
    · exact Finset.singleton_injective (hmask.symm.trans hmask')

/-- A task passes exactly if it may run on the core of its pipid. -/
lemma mainTask_eq {ntasks pipid c : ℕ} (own : Mask k.usable) (hread : readNtasks calls = .ok ntasks)
    (hinit : calls.pipInit = 0) (hfin : calls.pipFin = 0) (hcore : nthCore pipid k.usable = .ok (c : ℤ)) :
    mainTask k calls pipid own = if c ∈ own.val then .ok 0 else .error (.code exitFail) := by
  have hisset : cpuIsset c own.val = decide (c ∈ own.val) := by simp [cpuIsset]
  rw [mainTask, prologue_eq_ok.mpr ⟨hread, hinit, rfl, rfl⟩]
  simp only [bind, Except.bind, hcore, hisset, hfin]
  by_cases h : c ∈ own.val
  · simp only [h, if_true]
    rfl
  · simp only [h, if_false]
    rfl

/-- The wait loop ends with 0 unless a task is reported with another status. -/
lemma waitTasks_eq {good : ℕ → Prop} [DecidablePred good] (is : List ℕ)
    (h : ∀ i ∈ is, calls.pipWaitAny i = (0, .exited (if good i then 0 else 1))) :
    waitTasks calls 0 is = if ∀ i ∈ is, good i then .ok 0 else .error (.code exitFail) := by
  induction is with
  | nil => simp [waitTasks]
  | cons i is ih =>
    have ih := ih fun j hj => h j (List.mem_cons_of_mem i hj)
    rw [waitTasks, h i List.mem_cons_self]
    by_cases hgood : good i
    · simp only [hgood, if_true, List.mem_cons, forall_eq_or_imp, true_and]
      exact ih
    · simp only [hgood, if_false, List.mem_cons, forall_eq_or_imp, false_and]
      rfl

lemma taskCore_eq (own : Mask k.usable) (pipid : ℕ) : taskCore k own pipid = nthCore pipid k.usable := by
  rw [taskCore, fillCpuset_eq]
  rfl

end Root

/-- The root and its tasks agree on the core of each pipid, that of its rank among the usable cores; and the root
gets to each pipid where its calls succeed. -/
theorem cores_agree (k : Kernel) :
    (∀ mask, fillCpuset k mask = .ok (k.usable, mask)) ∧
    (∀ pipid, ∃ c ∈ k.usable, rank k.usable c = pipid % k.usable.card ∧ nthCore pipid k.usable = .ok (c : ℤ)) ∧
    (∀ start, ∀ c ∈ k.usable,
      ∃! pipid, pipid ∈ Finset.Ico start (start + k.usable.card) ∧ nthCore pipid k.usable = .ok (c : ℤ)) ∧
    (∀ calls save, ∀ task ∈ (mainRoot k calls save).1, ∃ ntasks, readNtasks calls = .ok ntasks ∧ task.pipid < ntasks ∧
      (task.core = none ↔ hntasks ntasks ≤ task.pipid) ∧
      ∃ c ∈ k.usable, rank k.usable c = task.pipid % k.usable.card ∧ task.OnCore c ∧
        ∀ own, taskCore k own task.pipid = .ok (c : ℤ)) ∧
    ∀ calls save ntasks, readNtasks calls = .ok ntasks → calls.pipInit = 0 → (∀ i, calls.pipSpawn i = 0) →
      (mainRoot k calls save).1.map Task.pipid = List.range ntasks := by
  refine ⟨fillCpuset_eq, exists_nthCore k, fun start c hc => ?_, fun calls save task htask => ?_,
    fun calls save ntasks hread hinit hspawn => ?_⟩
  · have hiff : ∀ pipid, nthCore pipid k.usable = .ok (c : ℤ) ↔ rank k.usable c = pipid % k.usable.card := by
      intro pipid
      rw [nthCore_eq_ok_iff]
      constructor
      · rintro ⟨c', -, hrank, heq⟩
        rwa [Int.ofNat_inj.mp heq]
      · exact fun hrank => ⟨c, hc, hrank, rfl⟩
    simpa only [hiff] using existsUnique_rank hc start
  · rw [mainRoot] at htask
    cases hprologue : prologue k calls save with
    | error stop => simp [hprologue] at htask
    | ok found =>
      obtain ⟨ntasks, cpufull, mask⟩ := found
      obtain ⟨hread, -, rfl, rfl⟩ := prologue_eq_ok.mp hprologue
      simp only [hprologue] at htask
      obtain ⟨hlt, -, hhalf, c, hc, hrank, hcore⟩ := (rootSpawns_spec (readNtasks_pos hread) mask).1 task htask
      refine ⟨ntasks, hread, hlt, hhalf, c, hc, hrank, hcore, fun own => ?_⟩
      rw [taskCore_eq]
      exact (nthCore_eq_ok_iff k _ _).mpr ⟨c, hc, hrank, rfl⟩
  · rw [mainRoot_fst hread hinit]
    exact ((rootSpawns_spec (readNtasks_pos hread) save).2 hspawn).1

/-- How pip_wait_any reports a task whose main ends with a code. -/
def Reported (ended : Except Stop ℕ) (status : WaitStatus) : Prop :=
  ∃ code : Fin 256, (ended = .ok code.val ∨ ended = .error (.code code.val)) ∧ status = .exited code

lemma reported_iff {p : Prop} [Decidable p] {status : WaitStatus} :
    Reported (if p then .ok 0 else .error (.code exitFail)) status ↔ status = .exited (if p then 0 else 1) := by
  by_cases h : p
  · simp only [h, if_true]
    constructor
    · rintro ⟨code, hcode | hcode, rfl⟩
      · rw [show code = 0 from Fin.ext (Except.ok.inj hcode).symm]
      · cases hcode
    · rintro rfl
      exact ⟨0, .inl rfl, rfl⟩
  · simp only [h, if_false]
    constructor
    · rintro ⟨code, hcode | hcode, rfl⟩
      · cases hcode
      · rw [show code = 1 from Fin.ext (Stop.code.inj (Except.error.inj hcode)).symm]
    · rintro rfl
      exact ⟨1, .inr rfl, rfl⟩

/-- Where the calls of the library succeed, the root spawns a task for each pipid, and it passes exactly if each of
them may run on the core that the root chose for it; otherwise it fails. -/
theorem root_passes_iff (k : Kernel) (calls : Calls) (save : Mask k.usable) {ntasks : ℕ}
    (hread : readNtasks calls = .ok ntasks) (hinit : calls.pipInit = 0) (hspawn : ∀ i, calls.pipSpawn i = 0)
    (hfin : calls.pipFin = 0) (own : ℕ → Mask k.usable) (order : Equiv.Perm (Fin ntasks))
    (hwait : ∀ i : Fin ntasks, (calls.pipWaitAny i).1 = 0 ∧
      Reported (mainTask k calls (order i) (own (order i))) (calls.pipWaitAny i).2) :
    (mainRoot k calls save).1.map Task.pipid = List.range ntasks ∧
    ((mainRoot k calls save).2 = .ok 0 ↔
      ∀ task ∈ (mainRoot k calls save).1, ∃ c ∈ (own task.pipid).val, task.OnCore c) ∧
    ((mainRoot k calls save).2 = .ok 0 ∨ (mainRoot k calls save).2 = .error (.code exitFail)) := by
  classical
  obtain ⟨hchosen, hall⟩ := @rootSpawns_spec k calls _ (readNtasks_pos hread) save
  obtain ⟨hpipids, mask, hmask⟩ := hall hspawn
  choose core hcore using fun pipid => exists_nthCore k pipid
  have honcore : ∀ task ∈ (rootSpawns k calls ntasks k.usable save).1, ∀ c,
      task.OnCore c ↔ c = core task.pipid := by
    intro task htask c
    obtain ⟨-, -, -, c', hc', hrank, hon⟩ := hchosen task htask
    rw [← rank_injOn hc' (hcore task.pipid).1 (hrank.trans (hcore task.pipid).2.1.symm)]
    exact ⟨fun h => h.inj hon, fun h => h ▸ hon⟩
  have hwaits : waitTasks calls 0 (List.range ntasks) =
      if ∀ pipid < ntasks, core pipid ∈ (own pipid).val then .ok 0 else .error (.code exitFail) := by
    have hgood : ∀ i ∈ List.range ntasks, calls.pipWaitAny i =
        (0, .exited (if ∃ h : i < ntasks, core (order ⟨i, h⟩) ∈ (own (order ⟨i, h⟩)).val then 0 else 1)) := by
      intro i hi
      have hlt := List.mem_range.mp hi
      obtain ⟨hzero, hreported⟩ := hwait ⟨i, hlt⟩
      rw [mainTask_eq _ hread hinit hfin (hcore _).2.2, reported_iff] at hreported
      simp only [hlt, exists_true_left]
      exact Prod.ext hzero hreported
    rw [waitTasks_eq (List.range ntasks) hgood]
    refine if_congr ⟨fun h pipid hpipid => ?_, fun h i hi => ?_⟩ rfl rfl
    · obtain ⟨_, hmem⟩ := h _ (List.mem_range.mpr (order.symm ⟨pipid, hpipid⟩).isLt)
      simpa using hmem
    · exact ⟨List.mem_range.mp hi, h _ (order _).isLt⟩
  have hpass : (∀ task ∈ (mainRoot k calls save).1, ∃ c ∈ (own task.pipid).val, task.OnCore c) ↔
      ∀ pipid < ntasks, core pipid ∈ (own pipid).val := by
    rw [mainRoot_fst hread hinit]
    constructor
    · intro h pipid hpipid
      obtain ⟨task, htask, rfl⟩ := List.mem_map.mp (hpipids ▸ List.mem_range.mpr hpipid)
      obtain ⟨c, hc, hon⟩ := h task htask
      rwa [← (honcore task htask c).mp hon]
    · intro h task htask
      exact ⟨core task.pipid, h _ (hchosen task htask).1, (honcore task htask _).mpr rfl⟩
  have hends : (mainRoot k calls save).2 = waitTasks calls 0 (List.range ntasks) := by
    rw [mainRoot, prologue_eq_ok.mpr ⟨hread, hinit, rfl, rfl⟩]
    simp only [hmask, hwaits]
    split
    · simp [bind, Except.bind, check, hfin, pure, Except.pure]
    · rfl
  rw [hpass, hends, hwaits, mainRoot_fst hread hinit]
  refine ⟨hpipids, ?_⟩
  split
  case isTrue h => exact ⟨iff_of_true rfl h, .inl rfl⟩
  case isFalse h => exact ⟨iff_of_false (by simp) h, .inr rfl⟩

/-- Two usable cores, and two tasks that pass. -/
def twoCores : Kernel := Kernel.linux {1, 3} (by decide) (by decide)

def twoTasks : Calls where
  ntasksMax := 2
  ntasksMax_pos := by decide
  arg := none
  ntenv := none
  pipInit := 0
  pipSpawn _ := 0
  pipWaitAny _ := (0, .exitZero)
  pipFin := 0

/-- The affinity to all usable cores. -/
def Kernel.full (k : Kernel) : Mask k.usable := ⟨k.usable, k.nonempty, Finset.Subset.refl k.usable⟩

/-- Tasks that may run on both cores pass. -/
theorem root_passes_iff_twoTasks :
    (mainRoot twoCores twoTasks twoCores.full).1.map Task.pipid = [0, 1] ∧
    (mainRoot twoCores twoTasks twoCores.full).2 = .ok 0 := by
  have hread : readNtasks twoTasks = .ok 2 := rfl
  have htask : ∀ pipid, mainTask twoCores twoTasks pipid twoCores.full = .ok 0 := by
    intro pipid
    obtain ⟨c, hc, -, hcore⟩ := exists_nthCore twoCores pipid
    exact (mainTask_eq _ hread rfl rfl hcore).trans (if_pos hc)
  obtain ⟨hpipids, hiff, -⟩ := root_passes_iff twoCores twoTasks twoCores.full hread rfl (fun _ => rfl) rfl
    (fun _ => twoCores.full) (Equiv.refl _) fun i => ⟨rfl, 0, .inl (htask _), rfl⟩
  refine ⟨hpipids, hiff.mpr fun task hmem => ?_⟩
  rw [mainRoot_fst hread rfl] at hmem
  obtain ⟨-, -, -, c, hc, -, hon⟩ := (rootSpawns_spec (by decide) _).1 task hmem
  exact ⟨c, hc, hon⟩

end PipTestsuite.Corebind
