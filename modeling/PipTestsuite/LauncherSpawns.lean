import PipTestsuite.Launcher
import Mathlib.Data.Int.CardIntervalMod

/-! The spawn calls of pip_task.c and pip_blt.c as they are made, one after another: the task queues on
which the BLTs are put, and the cores to which the tasks are bound. -/
namespace PipTestsuite.Launcher
open Checked

def Spawn.pipid : Spawn → ℕ
  | .task pipid _ => pipid
  | .blt pipid _ _ _ => pipid

def Spawn.core : Spawn → Option ℤ
  | .task _ core => core
  | .blt _ core _ _ => core

/-- The queue of a BLT that is spawned active, or not. -/
def Spawn.queue (wanted : Bool) : Spawn → Option ℕ
  | .task _ _ => none
  | .blt _ _ active queue => if active = wanted then some queue else none

/-- Neither the spawn nor the check behind it makes the launcher stop. -/
def Calls.accepts (calls : Calls) : Spawn → Prop
  | .task pipid core => calls.pipSpawn (.task pipid core) = 0 ∧ calls.pipid (.task pipid core) = pipid
  | .blt pipid core active queue =>
    calls.pipSpawn (.blt pipid core active queue) = 0 ∧ calls.taskqEmpty (.blt pipid core active queue) = active

def taskSpawn (nc : ℤ) (i : ℕ) : Spawn := .task i (if nc = 0 then none else some ((i : ℤ).tmod nc))

/-- The index of the first spawn loop of pip_blt, wrapped. -/
def wrapped (nacts j : ℕ) : ℕ := if j ≥ nacts then 0 else j

def inactiveSpawn (nc : ℤ) (nacts j i : ℕ) : Spawn :=
  .blt i (if nc = 0 then none else some ((i : ℤ).tmod nc)) false (wrapped nacts j)

def activeSpawn (nc : ℤ) (j i : ℕ) : Spawn :=
  .blt i (if nc = 0 then none else some ((i : ℤ).tmod nc + 1)) true j

/-- The calls of the spawn loop of pip_task. -/
def taskSpawns (nc : ℤ) (ntasks : ℕ) : List Spawn :=
  calls (fun _ i => taskSpawn nc i) (fun _ _ => ()) () (List.range ntasks)

/-- The calls of the first spawn loop of pip_blt. -/
def inactiveSpawns (nc : ℤ) (nacts npass : ℕ) : List Spawn :=
  calls (inactiveSpawn nc nacts) (fun j _ => wrapped nacts j + 1) 0 (List.range npass)

/-- The calls of the second one. -/
def activeSpawns (nc : ℤ) (nacts npass : ℕ) : List Spawn :=
  calls (activeSpawn nc) (fun j _ => j + 1) 0 (List.range' npass nacts)

def bltSpawns (nc : ℤ) (nacts npass : ℕ) : List Spawn :=
  inactiveSpawns nc nacts npass ++ activeSpawns nc nacts npass

section Calls
variable {calls : Calls} {nc : ℤ}

lemma spawnTask_eq_ok (i : ℕ) : spawnTask calls nc i = .ok () ↔ calls.accepts (taskSpawn nc i) := by
  simp only [spawnTask, bind_eq_ok, check_eq_ok, taskSpawn, Calls.accepts, decide_eq_false_iff_not, not_not, ne_eq]

lemma spawnInactive_eq_ok {nacts j i j' : ℕ} :
    spawnInactive calls nc nacts j i = .ok j' ↔
      calls.accepts (inactiveSpawn nc nacts j i) ∧ j' = wrapped nacts j + 1 := by
  simp only [spawnInactive, bind_eq_ok, check_eq_ok, pure_eq_ok, inactiveSpawn, Calls.accepts, wrapped,
    decide_eq_false_iff_not, not_not, ne_eq, and_assoc]

lemma spawnActive_eq_ok {j i j' : ℕ} :
    spawnActive calls nc j i = .ok j' ↔ calls.accepts (activeSpawn nc j i) ∧ j' = j + 1 := by
  simp only [spawnActive, bind_eq_ok, check_eq_ok, pure_eq_ok, activeSpawn, Calls.accepts,
    decide_eq_false_iff_not, not_not, ne_eq, and_assoc, Bool.not_eq_false']

/-- The spawn loop of pip_task comes to its end if each of these calls is accepted. -/
theorem taskLoop_ends (ntasks : ℕ) :
    (List.range ntasks).foldlM (fun _ i => spawnTask calls nc i) () = .ok () ↔
      ∀ spawn ∈ taskSpawns nc ntasks, calls.accepts spawn := by
  have hbody : ∀ (u : Unit) (i : ℕ) (u' : Unit),
      spawnTask calls nc i = .ok u' ↔ calls.accepts (taskSpawn nc i) ∧ u' = () := fun _ i _ => by
    rw [and_iff_left rfl]
    exact spawnTask_eq_ok i
  exact (foldlM_eq_ok hbody).trans (and_iff_left rfl)

/-- So do those of pip_blt. -/
theorem bltLoops_end (nacts npass : ℕ) :
    ((∃ j, (List.range npass).foldlM (spawnInactive calls nc nacts) 0 = .ok j) ∧
      ∃ j, (List.range' npass nacts).foldlM (spawnActive calls nc) 0 = .ok j) ↔
      ∀ spawn ∈ bltSpawns nc nacts npass, calls.accepts spawn := by
  have hinactive : (∃ j, (List.range npass).foldlM (spawnInactive calls nc nacts) 0 = .ok j) ↔
      ∀ spawn ∈ inactiveSpawns nc nacts npass, calls.accepts spawn := by
    simp only [foldlM_eq_ok fun j i j' => spawnInactive_eq_ok , exists_and_left, exists_eq, and_true]
    rfl
  have hactive : (∃ j, (List.range' npass nacts).foldlM (spawnActive calls nc) 0 = .ok j) ↔
      ∀ spawn ∈ activeSpawns nc nacts npass, calls.accepts spawn := by
    simp only [foldlM_eq_ok fun j i j' => spawnActive_eq_ok , exists_and_left, exists_eq, and_true]
    rfl
  rw [hinactive, hactive, bltSpawns, List.forall_mem_append]

end Calls

section Trace
variable (nc : ℤ) {nacts : ℕ}

/-- The wrapped index is the number of the round modulo the number of queues. -/
lemma wrapped_succ {j i : ℕ} (hpos : 0 < nacts) (h : wrapped nacts j = i % nacts) :
    wrapped nacts (wrapped nacts j + 1) = (i + 1) % nacts := by
  have hlt := Nat.mod_lt i hpos
  rw [h, Nat.add_mod_eq_ite, wrapped]
  by_cases hone : nacts = 1
  · subst hone
    simp [Nat.mod_one]
  · rw [Nat.mod_eq_of_lt (show 1 < nacts by omega)]
    by_cases hend : nacts ≤ i % nacts + 1
    · rw [if_pos hend, if_pos hend]
      omega
    · rw [if_neg hend, if_neg hend]

lemma inactiveSpawns_eq (hpos : 0 < nacts) (npass : ℕ) :
    inactiveSpawns nc nacts npass = (List.range npass).map fun i => inactiveSpawn nc nacts (i % nacts) i := by
  have hloop : ∀ n j i, wrapped nacts j = i % nacts →
      calls (inactiveSpawn nc nacts) (fun j _ => wrapped nacts j + 1) j (List.range' i n) =
        (List.range' i n).map fun i => inactiveSpawn nc nacts (i % nacts) i := by
    intro n
    induction n with
    | zero => intros; rfl
    | succ n ih =>
      intro j i hj
      have hmod : wrapped nacts (i % nacts) = i % nacts := if_neg (Nat.not_le.mpr (Nat.mod_lt i hpos))
      rw [List.range'_succ, calls, ih _ _ (wrapped_succ hpos hj), List.map_cons, inactiveSpawn, inactiveSpawn, hj,
        hmod]
  rw [inactiveSpawns, List.range_eq_range', hloop npass 0 0]
  rw [wrapped, if_neg (Nat.not_le.mpr hpos), Nat.zero_mod]

lemma activeSpawns_eq (nacts npass : ℕ) :
    activeSpawns nc nacts npass = (List.range nacts).map fun j => activeSpawn nc j (npass + j) := by
  have hloop : ∀ n j, calls (activeSpawn nc) (fun j _ => j + 1) j (List.range' (npass + j) n) =
      (List.range' j n).map fun j => activeSpawn nc j (npass + j) := by
    intro n
    induction n with
    | zero => intros; rfl
    | succ n ih =>
      intro j
      rw [List.range'_succ, calls, Nat.add_assoc, ih, List.range'_succ, List.map_cons]
  rw [activeSpawns, List.range_eq_range']
  exact hloop nacts 0

/-- The queues of the BLTs that are spawned active, or not, in the order of the calls. -/
def queuesOf (wanted : Bool) (spawns : List Spawn) : List ℕ := spawns.filterMap (Spawn.queue wanted)

lemma wrapped_mod (hpos : 0 < nacts) (i : ℕ) : wrapped nacts (i % nacts) = i % nacts :=
  if_neg (Nat.not_le.mpr (Nat.mod_lt i hpos))

lemma queuesOf_inactive (hpos : 0 < nacts) (npass : ℕ) :
    queuesOf false (bltSpawns nc nacts npass) = (List.range npass).map (· % nacts) := by
  rw [queuesOf, bltSpawns, inactiveSpawns_eq nc hpos, activeSpawns_eq, List.filterMap_append, List.filterMap_map,
    List.filterMap_map]
  have hactive : (Spawn.queue false ∘ fun j => activeSpawn nc j (npass + j)) = fun _ => none := rfl
  have hinactive : (Spawn.queue false ∘ fun i => inactiveSpawn nc nacts (i % nacts) i) =
      fun i => some (i % nacts) := by
    funext i
    simp [inactiveSpawn, Spawn.queue, wrapped_mod hpos]
  rw [hactive, hinactive, List.filterMap_none, List.append_nil]
  exact congrFun List.filterMap_eq_map _

lemma queuesOf_active (nacts npass : ℕ) : queuesOf true (bltSpawns nc nacts npass) = List.range nacts := by
  have hnone : ∀ spawn ∈ inactiveSpawns nc nacts npass, spawn.queue true = none :=
    (forall_calls_iff (P := (Spawn.queue true · = none)) fun _ _ => iff_true_intro rfl).mpr fun _ _ => trivial
  have hinactive : queuesOf true (inactiveSpawns nc nacts npass) = [] := List.filterMap_eq_nil_iff.mpr hnone
  have hactive : (Spawn.queue true ∘ fun j => activeSpawn nc j (npass + j)) = some := rfl
  rw [queuesOf] at hinactive ⊢
  rw [bltSpawns, List.filterMap_append, hinactive, activeSpawns_eq, List.filterMap_map, hactive, List.nil_append]
  exact List.filterMap_some

lemma pipids_bltSpawns (hpos : 0 < nacts) (npass : ℕ) :
    (bltSpawns nc nacts npass).map Spawn.pipid = List.range (nacts + npass) := by
  rw [bltSpawns, inactiveSpawns_eq nc hpos, activeSpawns_eq, List.map_append, List.map_map, List.map_map,
    Nat.add_comm nacts, List.range_add]
  congr 1
  exact List.map_id _

end Trace

/-- The task queues that pip_blt initialises. -/
def initialised (nacts : ℕ) : List ℕ := List.range (nacts + 1)

/-- What the spawns of pip_blt, of nacts active and npass inactive tasks, make of the queues. -/
structure QueuesServed (nacts npass : ℕ) (spawns : List Spawn) : Prop where
  served : ∀ q ∈ queuesOf false spawns, (queuesOf true spawns).count q = 1
  roundRobin : queuesOf false spawns = (List.range npass).map (· % nacts)
  balanced : ∀ q < nacts, ∀ q' < nacts, (queuesOf false spawns).count q ≤ (queuesOf false spawns).count q' + 1
  initialised : ∀ active, ∀ q ∈ queuesOf active spawns, q ∈ initialised nacts
  pipids : spawns.map Spawn.pipid = List.range (nacts + npass)

/-- The numbers below npass with the remainder q. -/
lemma count_mod {nacts q : ℕ} (hq : q < nacts) (npass : ℕ) :
    ((List.range npass).map (· % nacts)).count q = npass / nacts + if q < npass % nacts then 1 else 0 := by
  have hcount : ((List.range npass).map (· % nacts)).count q = npass.count (· ≡ q [MOD nacts]) := by
    rw [List.count_eq_countP, List.countP_map, Nat.count]
    congr 1
    funext i
    simp [Nat.ModEq, Nat.mod_eq_of_lt hq, beq_eq_decide]
  rw [hcount, Nat.count_modEq_card _ (by omega), Nat.mod_eq_of_lt hq]

lemma queuesServed (nc : ℤ) {nacts : ℕ} (hpos : 0 < nacts) (npass : ℕ) :
    QueuesServed nacts npass (bltSpawns nc nacts npass) where
  served q hq := by
    rw [queuesOf_inactive nc hpos] at hq
    obtain ⟨i, -, rfl⟩ := List.mem_map.mp hq
    rw [queuesOf_active nc nacts npass]
    exact List.count_eq_one_of_mem List.nodup_range (List.mem_range.mpr (Nat.mod_lt i hpos))
  roundRobin := queuesOf_inactive nc hpos npass
  balanced q hq q' hq' := by
    rw [queuesOf_inactive nc hpos, count_mod hq, count_mod hq']
    split <;> split <;> omega
  initialised active q hq := by
    cases active with
    | false =>
      rw [queuesOf_inactive nc hpos] at hq
      obtain ⟨i, -, rfl⟩ := List.mem_map.mp hq
      exact List.mem_range.mpr ((Nat.mod_lt i hpos).trans (Nat.lt_succ_self nacts))
    | true =>
      rw [queuesOf_active nc nacts npass] at hq
      exact List.mem_range.mpr ((List.mem_range.mp hq).trans (Nat.lt_succ_self nacts))
  pipids := pipids_bltSpawns nc hpos npass

/-- Without an active task the first inactive one stays on queue 0, where nothing takes it. -/
lemma not_queuesServed (nc : ℤ) (npass : ℕ) : ¬ QueuesServed 0 (npass + 1) (bltSpawns nc 0 (npass + 1)) := by
  intro h
  have hmem : 0 ∈ queuesOf false (bltSpawns nc 0 (npass + 1)) := by
    rw [bltSpawns, inactiveSpawns, List.range_eq_range', List.range'_succ, calls]
    exact List.mem_cons_self
  have hone := h.served 0 hmem
  rw [queuesOf_active nc 0] at hone
  simp at hone

/-- Every task queue with an inactive task on it gets its one active task exactly when there is any. -/
theorem queuesServed_iff (args : Args) (nacts npass : ℕ) (nc : ℤ) (hargs : args.Accept 4 (nacts + npass)) :
    QueuesServed nacts npass (bltSpawns nc nacts npass) ↔ 0 < nacts := by
  constructor
  · intro h
    by_contra hzero
    obtain rfl : nacts = 0 := by omega
    obtain ⟨n, rfl⟩ : ∃ n, npass = n + 1 := Nat.exists_eq_add_one.mpr (by have hpos := hargs.2.1; omega)
    exact not_queuesServed nc n h
  · exact fun hpos => queuesServed nc hpos npass

theorem queuesServed_three_eight : QueuesServed 3 8 (bltSpawns 1 3 8) :=
  (queuesServed_iff ⟨4, none, 300⟩ 3 8 1 ⟨le_refl 4, by omega, by norm_num, by simp⟩).mpr (by omega)

/-- pip_blt 0 4: the four inactive tasks are put on queue 0, and nothing schedules them. -/
theorem queue_unserved : Args.Accept ⟨4, none, 300⟩ 4 (0 + 4) ∧ ¬ QueuesServed 0 4 (bltSpawns 1 0 4) :=
  ⟨⟨le_refl 4, by omega, by norm_num, by simp⟩, fun h => absurd (h.served 0 (by decide)) (by decide)⟩

/-- The spawn binds its task to no core, or to one of the affinity set. -/
def Allowed (S : Finset ℕ) (spawn : Spawn) : Prop := ∀ c, spawn.core = some c → ∃ k ∈ S, c = (k : ℤ)

/-- The nc of a launcher with this affinity set. -/
def coreCount (S : Finset ℕ) : ℤ := S.card - 1

section Cores
variable {S : Finset ℕ}

lemma coreCount_eq (hS : S.Nonempty) : coreCount S = ((S.card - 1 : ℕ) : ℤ) := by
  have hcard := hS.card_pos
  rw [coreCount]
  omega

/-- Where the core number is a remainder plus an offset. -/
lemma allowed_iff (hS : S.Nonempty) {spawn : Spawn} {i : ℕ} (offset : ℕ)
    (h : spawn.core = if coreCount S = 0 then none else some ((i : ℤ).tmod (coreCount S) + offset)) :
    Allowed S spawn ↔ S.card = 1 ∨ i % (S.card - 1) + offset ∈ S := by
  have hcard := hS.card_pos
  rw [Allowed, h]
  by_cases hone : S.card = 1
  · have hzero : coreCount S = 0 := by rw [coreCount, hone]; rfl
    simp [hzero, hone]
  · have hne : coreCount S ≠ 0 := by rw [coreCount]; omega
    rw [if_neg hne, coreCount_eq hS, ← Int.ofNat_tmod, or_iff_right hone]
    constructor
    · intro hc
      obtain ⟨k, hk, heq⟩ := hc _ rfl
      rwa [show i % (S.card - 1) + offset = k by exact_mod_cast heq]
    · intro hmem c hc
      exact ⟨_, hmem, by rw [← Option.some.inj hc]; push_cast; rfl⟩

lemma allowed_taskSpawn (hS : S.Nonempty) (i : ℕ) :
    Allowed S (taskSpawn (coreCount S) i) ↔ S.card = 1 ∨ i % (S.card - 1) ∈ S :=
  allowed_iff hS 0 (by simp [taskSpawn, Spawn.core])

lemma allowed_inactiveSpawn (hS : S.Nonempty) (nacts j i : ℕ) :
    Allowed S (inactiveSpawn (coreCount S) nacts j i) ↔ S.card = 1 ∨ i % (S.card - 1) ∈ S :=
  allowed_iff hS 0 (by simp [inactiveSpawn, Spawn.core])

lemma allowed_activeSpawn (hS : S.Nonempty) (j i : ℕ) :
    Allowed S (activeSpawn (coreCount S) j i) ↔ S.card = 1 ∨ i % (S.card - 1) + 1 ∈ S :=
  allowed_iff hS 1 (by simp [activeSpawn, Spawn.core])

/-- Remainders repeat after m rounds. -/
lemma forall_mod {P : ℕ → Prop} {m : ℕ} (hm : 0 < m) (a n : ℕ) :
    (∀ k < n, P ((a + k) % m)) ↔ ∀ k < min n m, P ((a + k) % m) := by
  constructor
  · exact fun h k hk => h k (lt_of_lt_of_le hk (min_le_left n m))
  · intro h k hk
    have hlt : k % m < min n m := lt_min (lt_of_le_of_lt (Nat.mod_le k m) hk) (Nat.mod_lt k hm)
    simpa only [Nat.add_mod_mod] using h (k % m) hlt

lemma forall_or_mod (hS : S.Nonempty) {P : ℕ → Prop} (a n : ℕ) :
    (∀ k < n, S.card = 1 ∨ P ((a + k) % (S.card - 1))) ↔
      S.card = 1 ∨ ∀ k < min n (S.card - 1), P ((a + k) % (S.card - 1)) := by
  have hcard := hS.card_pos
  by_cases hone : S.card = 1
  · simp [hone]
  · simp only [hone, false_or]
    exact forall_mod (by omega) a n

/-- The remainders of the first numbers are these numbers. -/
lemma forall_zero_mod {P : ℕ → Prop} (n m : ℕ) : (∀ k < min n m, P ((0 + k) % m)) ↔ ∀ k < min n m, P k := by
  refine forall₂_congr fun k hk => ?_
  rw [Nat.zero_add, Nat.mod_eq_of_lt (lt_of_lt_of_le hk (min_le_right n m))]

lemma allowed_taskSpawns (hS : S.Nonempty) (ntasks : ℕ) :
    (∀ spawn ∈ taskSpawns (coreCount S) ntasks, Allowed S spawn) ↔
      S.card = 1 ∨ ∀ k < min ntasks (S.card - 1), k ∈ S := by
  rw [taskSpawns, forall_calls_iff fun _ i => allowed_taskSpawn hS i, ← forall_zero_mod, ← forall_or_mod hS]
  simp only [List.mem_range, Nat.zero_add]

lemma allowed_inactiveSpawns (hS : S.Nonempty) (nacts npass : ℕ) :
    (∀ spawn ∈ inactiveSpawns (coreCount S) nacts npass, Allowed S spawn) ↔
      S.card = 1 ∨ ∀ k < min npass (S.card - 1), k ∈ S := by
  rw [inactiveSpawns, forall_calls_iff fun j i => allowed_inactiveSpawn hS nacts j i, ← forall_zero_mod,
    ← forall_or_mod hS]
  simp only [List.mem_range, Nat.zero_add]

lemma allowed_activeSpawns (hS : S.Nonempty) (nacts npass : ℕ) :
    (∀ spawn ∈ activeSpawns (coreCount S) nacts npass, Allowed S spawn) ↔
      S.card = 1 ∨ ∀ k < min nacts (S.card - 1), (npass + k) % (S.card - 1) + 1 ∈ S := by
  rw [activeSpawns, forall_calls_iff fun j i => allowed_activeSpawn hS j i, List.range'_eq_map_range,
    List.forall_mem_map, ← forall_or_mod (P := (· + 1 ∈ S)) hS]
  simp only [List.mem_range]

end Cores

/-- What the launchers pass on as cores is allowed, whatever the numbers of tasks they accept. -/
def CoresAllowed (S : Finset ℕ) (ntasksMax : ℕ) : Prop :=
  (∀ ntasks, 0 < ntasks → ntasks ≤ ntasksMax → ∀ spawn ∈ taskSpawns (coreCount S) ntasks, Allowed S spawn) ∧
  ∀ nacts npass, 0 < nacts + npass → nacts + npass ≤ ntasksMax →
    ∀ spawn ∈ bltSpawns (coreCount S) nacts npass, Allowed S spawn

/-- Exactly when the affinity set is one core, or has all core numbers up to its number of cores less one, as
far as there are tasks for them; and for each number of tasks, when it has the cores these come to. -/
theorem coresAllowed_iff (S : Finset ℕ) (hS : S.Nonempty) (ntasksMax : ℕ) (hmax : 0 < ntasksMax) :
    (CoresAllowed S ntasksMax ↔ S.card = 1 ∨ ∀ k ≤ min ntasksMax (S.card - 1), k ∈ S) ∧
    (∀ ntasks, (∀ spawn ∈ taskSpawns (coreCount S) ntasks, Allowed S spawn) ↔
      S.card = 1 ∨ ∀ k < min ntasks (S.card - 1), k ∈ S) ∧
    ∀ nacts npass, (∀ spawn ∈ bltSpawns (coreCount S) nacts npass, Allowed S spawn) ↔
      S.card = 1 ∨ (∀ k < min npass (S.card - 1), k ∈ S) ∧
        ∀ k < min nacts (S.card - 1), (npass + k) % (S.card - 1) + 1 ∈ S := by
  have hblt : ∀ nacts npass, (∀ spawn ∈ bltSpawns (coreCount S) nacts npass, Allowed S spawn) ↔
      S.card = 1 ∨ (∀ k < min npass (S.card - 1), k ∈ S) ∧
        ∀ k < min nacts (S.card - 1), (npass + k) % (S.card - 1) + 1 ∈ S := fun nacts npass => by
    rw [bltSpawns, List.forall_mem_append, allowed_inactiveSpawns hS, allowed_activeSpawns hS, or_and_left]
  refine ⟨?_, allowed_taskSpawns hS, hblt⟩
  by_cases hone : S.card = 1
  · refine iff_of_true ⟨fun ntasks _ _ => (allowed_taskSpawns hS ntasks).mpr (.inl hone), ?_⟩ (.inl hone)
    exact fun nacts npass _ _ => (hblt nacts npass).mpr (.inl hone)
  have hcard := hS.card_pos
  rw [or_iff_right hone]
  constructor
  · rintro ⟨htask, hblt'⟩ k hk
    have hfirst := ((allowed_taskSpawns hS ntasksMax).mp (htask ntasksMax hmax le_rfl)).resolve_left hone
    obtain ⟨-, hlast⟩ := ((hblt ntasksMax 0).mp (hblt' ntasksMax 0 (by omega) le_rfl)).resolve_left hone
    cases k with
    | zero => exact hfirst 0 (by omega)
    | succ k =>
      have hmem := hlast k (by omega)
      rwa [Nat.zero_add, Nat.mod_eq_of_lt (by omega)] at hmem
  · intro hmem
    have hlow : ∀ n ≤ ntasksMax, ∀ k < min n (S.card - 1), k ∈ S := fun n hn k hk => hmem k (by omega)
    constructor
    · exact fun ntasks _ hle => (allowed_taskSpawns hS ntasks).mpr (.inr (hlow ntasks hle))
    · refine fun nacts npass _ hle => (hblt nacts npass).mpr (.inr ⟨hlow npass (by omega), fun k hk => ?_⟩)
      have hmod := Nat.mod_lt (npass + k) (show 0 < S.card - 1 by omega)
      have hself := Nat.mod_le (npass + k) (S.card - 1)
      exact hmem _ (by omega)

theorem coresAllowed_three : CoresAllowed {0, 1, 2} 300 :=
  (coresAllowed_iff {0, 1, 2} ⟨0, by decide⟩ 300 (by omega)).1.mpr (.inr (by decide))

/-- Cores 2 and 3 may be used: pip_task binds its task to core 0, and pip_blt its active task to core 1. -/
theorem core_not_allowed :
    ¬ CoresAllowed {2, 3} 300 ∧ taskSpawns (coreCount {2, 3}) 1 = [.task 0 (some 0)] ∧
      bltSpawns (coreCount {2, 3}) 1 0 = [.blt 0 (some 1) true 0] := by
  refine ⟨fun h => ?_, by decide, by decide⟩
  obtain ⟨k, hk, heq⟩ := h.1 1 (by omega) (by omega) _ (List.mem_singleton_self _) 0 (by decide)
  have hzero : k = 0 := by omega
  subst hzero
  exact absurd hk (by decide)

end PipTestsuite.Launcher
