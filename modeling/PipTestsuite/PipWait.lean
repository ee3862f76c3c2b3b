import PipTestsuite.ExitCode
import PipTestsuite.Lib.Interleaving

/-! basics/pip_wait.c, pip_wait_any.c, pip_trywait.c and pip_trywait_any.c, in a process mode, where a signal ends
no more than one task: the tasks kill themselves by one signal behind a barrier, and the root collects them and checks
how each has ended. -/
namespace PipTestsuite.PipWait

/-- What a signal that is not 0 does to a task that does not catch it. -/
inductive Effect where
  | terminate | ignore | stop
  deriving DecidableEq

/-- Where the four programs differ: pip_wait_any or pip_wait, the try variants, whether the root also waits for
itself, a task waits once more, the root waits once more for a task, and pip_barrier_fin is called. -/
structure Variant where
  any : Bool
  poll : Bool
  selfWait : Bool
  again : Bool
  recheck : Bool
  barrierFin : Bool

def pipWait : Variant where
  any := false
  poll := false
  selfWait := true
  again := true
  recheck := true
  barrierFin := true

def pipWaitAny : Variant where
  any := true
  poll := false
  selfWait := true
  again := true
  recheck := false
  barrierFin := true

def pipTrywait : Variant where
  any := false
  poll := true
  selfWait := true
  again := false
  recheck := false
  barrierFin := false

def pipTrywaitAny : Variant where
  any := true
  poll := true
  selfWait := false
  again := false
  recheck := false
  barrierFin := true

/-- What the root is about to do: wait for itself, wait where there is no task, pip_barrier_init, the rounds of the
loop of pip_spawn, and those of its second loop with their wait, CHECKs and second wait, the last wait,
pip_barrier_fin, pip_fin. -/
inductive RootPos where
  | selfWait
  | noTask
  | barrierInit
  | spawn (i : ℕ)
  | wait (i : ℕ)
  | check (i : ℕ)
  | recheck (i : ℕ)
  | last
  | barrierFin
  | fin
  | ended (status : ℕ)
  deriving DecidableEq

/-- What a task is about to do, where pip_barrier_wait is two steps, or how it has ended. -/
inductive Stage where
  | unspawned
  | arrive
  | leave
  | wait
  | kill
  | waitAgain
  | fin
  | terminated (status : WaitStatus)
  | collected
  deriving DecidableEq

namespace Stage

def isTerminated : Stage → Bool
  | terminated _ => true
  | _ => false

/-- At or behind the barrier. -/
def arrived : Stage → Bool
  | unspawned | arrive => false
  | _ => true

/-- Behind the barrier. -/
def past : Stage → Bool
  | unspawned | arrive | leave => false
  | _ => true

end Stage

/-- The root, with its status and pipid as the last wait has set them, and the tasks. -/
structure State (ntasks : ℕ) where
  root : RootPos
  status : Option WaitStatus
  pipid : Option (Fin ntasks)
  barrierReady : Bool
  task : Fin ntasks → Stage

inductive Errno where
  | eperm | edeadlk | echild
  deriving DecidableEq

variable {ntasks : ℕ}

/-- pip_wait and pip_trywait, called by a task or the root (none) for a task or the root; none as long as they do
not return. -/
def waitFor (poll : Bool) (s : State ntasks) :
    Option (Fin ntasks) → Option ℕ → Option (Except Errno (Fin ntasks × WaitStatus))
  | some _, _ => some (.error .eperm)
  | none, none => some (.error .edeadlk)
  | none, some pipid =>
    if h : pipid < ntasks then
      match s.task ⟨pipid, h⟩ with
      | .unspawned | .collected => some (.error .echild)
      | .terminated status => some (.ok (⟨pipid, h⟩, status))
      | _ => if poll then some (.error .echild) else none
    else some (.error .echild)

/-- pip_wait_any and pip_trywait_any, which choose one of the tasks that have terminated, if there is one. -/
def waitAny (poll : Bool) (s : State ntasks) :
    Option (Fin ntasks) → Option (Fin ntasks) → Option (Except Errno (Fin ntasks × WaitStatus))
  | some _, _ => some (.error .eperm)
  | none, some i =>
    match s.task i with
    | .terminated status => some (.ok (i, status))
    | _ => none
  | none, none =>
    if ∃ i, (s.task i).isTerminated then none
    else if poll ∨ ∀ i, s.task i = .unspawned ∨ s.task i = .collected then some (.error .echild)
    else none

/-- The wait of a program, for the given pipid where it takes one. -/
def waitCall (v : Variant) (s : State ntasks) (caller choice : Option (Fin ntasks)) (pipid : ℕ) :
    Option (Except Errno (Fin ntasks × WaitStatus)) :=
  if v.any then waitAny v.poll s caller choice else waitFor v.poll s caller (some pipid)

def State.goTo (s : State ntasks) (pos : RootPos) : State ntasks := { s with root := pos }

def State.set (s : State ntasks) (i : Fin ntasks) (stage : Stage) : State ntasks :=
  { s with task := Function.update s.task i stage }

/-- CHECK( ..., RV!=errno, return(EXIT_FAIL) ) of the root. -/
def expect (s : State ntasks) (errno : Errno) (next : RootPos) :
    Option (Except Errno (Fin ntasks × WaitStatus)) → Option (State ntasks)
  | none => none
  | some (.error e) => some (s.goTo (if e = errno then next else .ended exitFail))
  | some (.ok _) => some (s.goTo (.ended exitFail))

/-- The CHECKs of the status in the second loop of the root. -/
def Expected (sig : ℕ) : WaitStatus → Prop
  | .exited code => sig = 0 ∧ code.val = 0
  | .signaled termsig => sig ≠ 0 ∧ termsig = sig

instance (sig : ℕ) : DecidablePred (Expected sig)
  | .exited _ => inferInstanceAs (Decidable (_ ∧ _))
  | .signaled _ => inferInstanceAs (Decidable (_ ∧ _))

/-- A step of the root; pip_init, pip_barrier_init, pip_spawn and pip_fin succeed. -/
def rootStep (v : Variant) (sig : ℕ) (s : State ntasks) (choice : Option (Fin ntasks)) : Option (State ntasks) :=
  match s.root with
  | .selfWait =>
    if v.selfWait then expect s .edeadlk .noTask (waitFor v.poll s none none) else some (s.goTo .noTask)
  | .noTask => expect s .echild .barrierInit (waitCall v s none choice 0)
  | .barrierInit => some { s with barrierReady := true, root := .spawn 0 }
  | .spawn i => if h : i < ntasks then some ((s.set ⟨i, h⟩ .arrive).goTo (.spawn (i + 1))) else some (s.goTo (.wait 0))
  | .wait i =>
    if i < ntasks then
      match waitCall v s none choice i with
      | none => none
      | some (.error e) => if v.poll ∧ e = .echild then some s else some (s.goTo (.ended exitFail))
      | some (.ok (j, status)) =>
        some { s.set j .collected with root := .check i, status := some status, pipid := some j }
    else some (s.goTo .last)
  | .check i =>
    match s.status with
    | none => some (s.goTo (.ended exitFail))
    | some status =>
      some (s.goTo (if Expected sig status ∧ (v.any → s.pipid ≠ none) then .recheck i else .ended exitFail))
  | .recheck i =>
    if v.recheck then expect s .echild (.wait (i + 1)) (waitCall v s none choice i) else some (s.goTo (.wait (i + 1)))
  | .last => if v.any then expect s .echild .barrierFin (waitCall v s none choice 0) else some (s.goTo .barrierFin)
  | .barrierFin =>
    some (s.goTo (if v.barrierFin ∧ ∃ i, s.task i = .leave then .ended exitFail else .fin))
  | .fin => some (s.goTo (.ended exitPass))
  | .ended _ => none

def sigsegv : ℕ := 11

/-- A task that fails a CHECK. -/
def failed : Stage := .terminated (.exited ⟨exitFail, by decide⟩)

/-- CHECK( ..., RV!=EPERM, return(EXIT_FAIL) ) of a task. -/
def expectEperm (next : Stage) : Option (Except Errno (Fin ntasks × WaitStatus)) → Option Stage
  | none => none
  | some (.error e) => some (if e = .eperm then next else failed)
  | some (.ok _) => some failed

/-- The next stage of a task: it reads through a null pointer where the signal is SIGSEGV, and else calls pip_kill,
whose value matters in pip_trywait_any.c only. A task that is stopped makes no more steps. -/
def taskStep (v : Variant) (sig : ℕ) (effect : Effect) (s : State ntasks) (i : Fin ntasks) : Option Stage :=
  match s.task i with
  | .arrive => if s.barrierReady then some .leave else some failed
  | .leave => if ∀ j, (s.task j).arrived then some .wait else none
  | .wait => expectEperm .kill (waitCall v s (some i) none 0)
  | .kill =>
    let after := if v.again then .waitAgain else .fin
    if sig = sigsegv then some (.terminated (.signaled sigsegv))
    else if sig = 0 then some after
    else
      match effect with
      | .terminate => some (.terminated (.signaled sig))
      | .ignore => some after
      | .stop => none
  | .waitAgain => expectEperm .fin (waitCall v s (some i) none 0)
  | .fin => some (.terminated .exitZero)
  | .unspawned | .terminated _ | .collected => none

inductive Event (ntasks : ℕ) where
  | root (choice : Option (Fin ntasks))
  | task (i : Fin ntasks)

def step (v : Variant) (sig : ℕ) (effect : Effect) (s : State ntasks) : Event ntasks → Option (State ntasks)
  | .root choice => rootStep v sig s choice
  | .task i => (taskStep v sig effect s i).map (s.set i)

def start (ntasks : ℕ) : State ntasks := ⟨.selfWait, none, none, false, fun _ => .unspawned⟩

def run (v : Variant) (sig : ℕ) (effect : Effect) (ntasks : ℕ) (schedule : List (Event ntasks)) : State ntasks :=
  Interleaving.run (step v sig effect) (start ntasks) schedule

/-- How a task ends, if it does. -/
def outcome (sig : ℕ) (effect : Effect) : Option WaitStatus :=
  if sig = sigsegv then some (.signaled sigsegv)
  else if sig = 0 then some .exitZero
  else
    match effect with
    | .terminate => some (.signaled sig)
    | .ignore => some .exitZero
    | .stop => none

section Invariant
variable {v : Variant} {sig : ℕ} {effect : Effect} {s s' : State ntasks} {i j : Fin ntasks} {k : ℕ} {stage : Stage}

@[simp] lemma goTo_root (s : State ntasks) (pos : RootPos) : (s.goTo pos).root = pos := rfl
@[simp] lemma goTo_task (s : State ntasks) (pos : RootPos) : (s.goTo pos).task = s.task := rfl
@[simp] lemma goTo_status (s : State ntasks) (pos : RootPos) : (s.goTo pos).status = s.status := rfl
@[simp] lemma goTo_pipid (s : State ntasks) (pos : RootPos) : (s.goTo pos).pipid = s.pipid := rfl
@[simp] lemma goTo_barrierReady (s : State ntasks) (pos : RootPos) : (s.goTo pos).barrierReady = s.barrierReady := rfl
@[simp] lemma set_root (s : State ntasks) (i : Fin ntasks) (stage : Stage) : (s.set i stage).root = s.root := rfl
@[simp] lemma set_status (s : State ntasks) (i : Fin ntasks) (stage : Stage) : (s.set i stage).status = s.status := rfl
@[simp] lemma set_pipid (s : State ntasks) (i : Fin ntasks) (stage : Stage) : (s.set i stage).pipid = s.pipid := rfl
@[simp] lemma set_barrierReady (s : State ntasks) (i : Fin ntasks) (stage : Stage) :
    (s.set i stage).barrierReady = s.barrierReady := rfl
@[simp] lemma set_task_self (s : State ntasks) (i : Fin ntasks) (stage : Stage) : (s.set i stage).task i = stage :=
  Function.update_self ..

@[simp] lemma set_task_of_ne (s : State ntasks) (stage : Stage) (h : j ≠ i) : (s.set i stage).task j = s.task j :=
  Function.update_of_ne h ..

/-- The tasks, of which the first k have been spawned. -/
structure Tasks (sig : ℕ) (effect : Effect) (k : ℕ) (s : State ntasks) : Prop where
  spawned : ∀ i, s.task i = .unspawned ↔ k ≤ i
  ready : ∀ i, s.task i ≠ .unspawned → s.barrierReady = true
  barrier : ∀ i j, (s.task i).past = true → (s.task j).arrived = true
  ends : ∀ i status, s.task i = .terminated status → outcome sig effect = some status
  survived : ∀ i, s.task i = .waitAgain ∨ s.task i = .fin → outcome sig effect = some .exitZero
  collected : ∀ i, s.task i = .collected → outcome sig effect ≠ none

/-- The root has collected k tasks, which are the first ones where it waits for each by its pipid. -/
structure Counted (v : Variant) (k : ℕ) (s : State ntasks) : Prop where
  card : (Finset.univ.filter fun i => s.task i = .collected).card = k
  byId : v.any = false → ∀ i, s.task i = .collected ↔ i < k

def Passes (sig : ℕ) (effect : Effect) : Prop := ∃ status, outcome sig effect = some status ∧ Expected sig status

def Fails (sig : ℕ) (effect : Effect) : Prop := ∃ status, outcome sig effect = some status ∧ ¬ Expected sig status

/-- Where the root stands, and what it has done of the tasks until there. -/
inductive Placed (v : Variant) (sig : ℕ) (effect : Effect) (s : State ntasks) : Prop where
  | early (hpos : s.root = .selfWait ∨ s.root = .noTask ∨ s.root = .barrierInit) (htasks : Tasks sig effect 0 s)
  | spawn {i : ℕ} (hpos : s.root = .spawn i) (hi : i ≤ ntasks) (hready : s.barrierReady = true)
    (htasks : Tasks sig effect i s) (hcounted : Counted v 0 s)
  | wait {i : ℕ} (hpos : s.root = .wait i) (hi : i ≤ ntasks) (htasks : Tasks sig effect ntasks s)
    (hcounted : Counted v i s) (hpasses : 0 < i → Passes sig effect)
  | check {i : ℕ} {status : WaitStatus} (hpos : s.root = .check i) (hi : i < ntasks)
    (htasks : Tasks sig effect ntasks s) (hcounted : Counted v (i + 1) s) (hstatus : s.status = some status)
    (houtcome : outcome sig effect = some status) (hpipid : s.pipid ≠ none) (hpasses : 0 < i → Passes sig effect)
  | recheck {i : ℕ} (hpos : s.root = .recheck i) (hi : i < ntasks) (htasks : Tasks sig effect ntasks s)
    (hcounted : Counted v (i + 1) s) (hpasses : Passes sig effect)
  | last (hpos : s.root = .last ∨ s.root = .barrierFin ∨ s.root = .fin) (htasks : Tasks sig effect ntasks s)
    (hcounted : Counted v ntasks s) (hpasses : Passes sig effect)
  | passed (hpos : s.root = .ended exitPass) (htasks : Tasks sig effect ntasks s) (hcounted : Counted v ntasks s)
    (hpasses : Passes sig effect)
  | failed (hpos : s.root = .ended exitFail) (htasks : Tasks sig effect ntasks s) (hfails : Fails sig effect)

lemma Tasks.set (h : Tasks sig effect k s) (hold : s.task i ≠ .unspawned) (hnew : stage ≠ .unspawned)
    (hpast : stage.past = true → ∀ j, (s.task j).arrived = true)
    (harrived : (s.task i).arrived = true → stage.arrived = true)
    (hends : ∀ status, stage = .terminated status → outcome sig effect = some status)
    (hsurvived : stage = .waitAgain ∨ stage = .fin → outcome sig effect = some .exitZero)
    (hcollected : stage = .collected → outcome sig effect ≠ none) : Tasks sig effect k (s.set i stage) where
  spawned j := by
    by_cases hj : j = i
    · subst hj
      simpa [hnew] using (h.spawned j).not.mp hold
    · simpa [hj] using h.spawned j
  ready j hj := h.ready i hold
  barrier j j' hj := by
    have hall : ∀ j', (s.task j').arrived = true := by
      by_cases hji : j = i
      · subst hji
        exact hpast (by simpa using hj)
      · exact fun j' => h.barrier j j' (by simpa [hji] using hj)
    by_cases hj' : j' = i
    · subst hj'
      simpa using harrived (hall j')
    · simpa [hj'] using hall j'
  ends j status hj := by
    by_cases hji : j = i
    · subst hji
      exact hends status (by simpa using hj)
    · exact h.ends j status (by simpa [hji] using hj)
  survived j hj := by
    by_cases hji : j = i
    · subst hji
      exact hsurvived (by simpa using hj)
    · exact h.survived j (by simpa [hji] using hj)
  collected j hj := by
    by_cases hji : j = i
    · subst hji
      exact hcollected (by simpa using hj)
    · exact h.collected j (by simpa [hji] using hj)

lemma Tasks.congr (h : Tasks sig effect k s) (htask : s'.task = s.task) (hready : s'.barrierReady = s.barrierReady) :
    Tasks sig effect k s' := by
  obtain ⟨hspawned, hbarrierReady, hbarrier, hends, hsurvived, hcollected⟩ := h
  rw [← htask] at hspawned hbarrierReady hbarrier hends hsurvived hcollected
  exact ⟨hspawned, fun i hi => hready.trans (hbarrierReady i hi), hbarrier, hends, hsurvived, hcollected⟩

/-- A task is spawned. -/
lemma Tasks.spawn (h : Tasks sig effect k s) (hk : k < ntasks) (hready : s.barrierReady = true) :
    Tasks sig effect (k + 1) (s.set ⟨k, hk⟩ .arrive) where
  spawned j := by
    by_cases hj : j = ⟨k, hk⟩
    · subst hj
      simp
    · have hne : (j : ℕ) ≠ k := fun heq => hj (Fin.ext heq)
      rw [set_task_of_ne _ _ hj, h.spawned j]
      omega
  ready j hj := hready
  barrier j j' hj := by
    have hunspawned : (s.task ⟨k, hk⟩).arrived = false := by
      rw [(h.spawned ⟨k, hk⟩).mpr le_rfl]
      rfl
    by_cases hji : j = ⟨k, hk⟩
    · subst hji
      cases hj.symm.trans (congrArg Stage.past (set_task_self ..))
    · rw [set_task_of_ne _ _ hji] at hj
      rw [h.barrier j _ hj] at hunspawned
      cases hunspawned
  ends j status hj := by
    by_cases hji : j = ⟨k, hk⟩
    · subst hji
      simp at hj
    · exact h.ends j status (by simpa [hji] using hj)
  survived j hj := by
    by_cases hji : j = ⟨k, hk⟩
    · subst hji
      simp at hj
    · exact h.survived j (by simpa [hji] using hj)
  collected j hj := by
    by_cases hji : j = ⟨k, hk⟩
    · subst hji
      simp at hj
    · exact h.collected j (by simpa [hji] using hj)

lemma Counted.congr (h : Counted v k s) (htask : ∀ i, s'.task i = .collected ↔ s.task i = .collected) :
    Counted v k s' := by
  refine ⟨?_, fun hany i => (htask i).trans (h.byId hany i)⟩
  rw [Finset.filter_congr fun i _ => htask i]
  exact h.card

lemma Counted.set (h : Counted v k s) (hold : s.task i ≠ .collected) (hnew : stage ≠ .collected) :
    Counted v k (s.set i stage) := by
  refine h.congr fun j => ?_
  by_cases hj : j = i
  · subst hj
    simp [hold, hnew]
  · simp [hj]

/-- The root collects a task. -/
lemma Counted.collect (h : Counted v k s) (hi : s.task i ≠ .collected) (hbyId : v.any = false → (i : ℕ) = k) :
    Counted v (k + 1) (s.set i .collected) := by
  have hcollected : ∀ j, (s.set i .collected).task j = .collected ↔ j = i ∨ s.task j = .collected := by
    intro j
    by_cases hj : j = i
    · subst hj
      simp
    · simp [hj]
  constructor
  · rw [Finset.filter_congr fun j _ => hcollected j, Finset.filter_or, Finset.filter_eq' _ i,
      if_pos (Finset.mem_univ i), ← Finset.insert_eq, Finset.card_insert_of_notMem (by simpa using hi), h.card]
  · intro hany j
    rw [hcollected j, h.byId hany j, Fin.ext_iff, hbyId hany]
    omega

lemma counted_zero (h : ∀ i, s.task i ≠ .collected) : Counted v 0 s where
  card := by simp [h]
  byId _ i := by simp [h i]

end Invariant

section Waits
variable {v : Variant} {s : State ntasks} {choice : Option (Fin ntasks)} {i j : Fin ntasks} {pipid : ℕ}
variable {status : WaitStatus} {e : Errno}

lemma isTerminated_iff {stage : Stage} : stage.isTerminated = true ↔ ∃ status, stage = .terminated status := by
  cases stage <;> simp [Stage.isTerminated]

/-- A task is never told more than that it is not to wait. -/
lemma waitCall_task (v : Variant) (s : State ntasks) (i : Fin ntasks) :
    waitCall v s (some i) choice pipid = some (.error .eperm) := by
  rw [waitCall]
  split_ifs <;> rfl

/-- The root gets a task that has terminated. -/
lemma waitCall_ok (h : waitCall v s none choice pipid = some (.ok (j, status))) :
    s.task j = .terminated status ∧ (v.any = false → (j : ℕ) = pipid) := by
  rw [waitCall] at h
  split_ifs at h with hany
  · cases choice with
    | none =>
      rw [waitAny] at h
      split_ifs at h
      cases h
    | some i =>
      rw [waitAny] at h
      split at h
      · next hi =>
        cases h
        exact ⟨hi, fun hnot => absurd hany (by simp [hnot])⟩
      · cases h
  · rw [waitFor] at h
    by_cases hpipid : pipid < ntasks
    · rw [dif_pos hpipid] at h
      split at h
      · cases h
      · cases h
      · next hi =>
        cases h
        exact ⟨hi, fun _ => rfl⟩
      · split_ifs at h
        cases h
    · rw [dif_neg hpipid] at h
      cases h

/-- A task that is not there to be waited for. -/
def Gone (s : State ntasks) (i : Fin ntasks) : Prop := s.task i = .unspawned ∨ s.task i = .collected

/-- The root is told that there is no such task where there is none, or where it does not wait. -/
lemma waitCall_error (h : waitCall v s none choice pipid = some (.error e)) :
    e = .echild ∧ (v.poll = true ∨ if v.any then ∀ i, Gone s i else ∀ i : Fin ntasks, i = pipid → Gone s i) := by
  rw [waitCall] at h
  split_ifs at h ⊢ with hany
  · cases choice with
    | none =>
      rw [waitAny] at h
      split_ifs at h with _ hgone
      cases h
      exact ⟨rfl, hgone⟩
    | some i =>
      rw [waitAny] at h
      split at h <;> cases h
  · rw [waitFor] at h
    by_cases hpipid : pipid < ntasks
    · rw [dif_pos hpipid] at h
      split at h
      · next hi =>
        cases h
        exact ⟨rfl, .inr fun i hi' => .inl (by rw [← hi]; congr 1; exact Fin.ext hi')⟩
      · next hi =>
        cases h
        exact ⟨rfl, .inr fun i hi' => .inr (by rw [← hi]; congr 1; exact Fin.ext hi')⟩
      · cases h
      · split_ifs at h with hpoll
        cases h
        exact ⟨rfl, .inl hpoll⟩
    · rw [dif_neg hpipid] at h
      cases h
      exact ⟨rfl, .inr fun i hi => absurd i.isLt (by omega)⟩

/-- Where there is no task to wait for, the root is told so. -/
lemma waitCall_gone (hgone : if v.any then ∀ i, Gone s i else ∀ i : Fin ntasks, i = pipid → Gone s i)
    (h : waitCall v s none choice pipid ≠ none) : waitCall v s none choice pipid = some (.error .echild) := by
  obtain ⟨r, hr⟩ := Option.ne_none_iff_exists'.mp h
  cases r with
  | error e => rw [hr, (waitCall_error hr).1]
  | ok result =>
    have hok : waitCall v s none choice pipid = some (.ok (result.1, result.2)) := hr
    obtain ⟨hj, hpipid⟩ := waitCall_ok hok
    have hgone' : Gone s result.1 := by
      split_ifs at hgone with hany
      · exact hgone result.1
      · exact hgone result.1 (hpipid (by simpa using hany))
    rw [Gone, hj] at hgone'
    simp at hgone'

/-- A wait for tasks that are all gone returns, whatever it is to choose. -/
lemma exists_waitCall_gone (hgone : if v.any then ∀ i, Gone s i else ∀ i : Fin ntasks, i = pipid → Gone s i) :
    waitCall v s none none pipid = some (.error .echild) := by
  refine waitCall_gone hgone ?_
  rw [waitCall]
  split_ifs at hgone ⊢ with hany
  · rw [waitAny]
    have hnone : ¬ ∃ i, (s.task i).isTerminated = true := by
      rintro ⟨i, hi⟩
      obtain ⟨status, hi⟩ := isTerminated_iff.mp hi
      have hgone' := hgone i
      rw [Gone, hi] at hgone'
      simp at hgone'
    rw [if_neg hnone, if_pos (.inr hgone)]
    exact Option.some_ne_none _
  · rw [waitFor]
    by_cases hpipid : pipid < ntasks
    · rw [dif_pos hpipid]
      obtain h | h := hgone ⟨pipid, hpipid⟩ rfl <;> simp [h]
    · rw [dif_neg hpipid]
      exact Option.some_ne_none _

/-- A task that has terminated can be collected. -/
lemma exists_waitCall_terminated (h : s.task j = .terminated status) (hj : v.any = false → (j : ℕ) = pipid) :
    waitCall v s none (some j) pipid = some (.ok (j, status)) := by
  rw [waitCall]
  split_ifs with hany
  · simp only [waitAny, h]
  · obtain rfl := hj (by simpa using hany)
    simp only [waitFor, j.isLt, dif_pos, Fin.eta, h]

end Waits

/-- No fewer steps than the root can still make. -/
def RootPos.rank (ntasks : ℕ) : RootPos → ℕ
  | selfWait => 4 * ntasks + 9
  | noTask => 4 * ntasks + 8
  | barrierInit => 4 * ntasks + 7
  | spawn i => ntasks - i + 3 * ntasks + 6
  | wait i => 3 * (ntasks - i) + 5
  | check i => 3 * (ntasks - i) + 4
  | recheck i => 3 * (ntasks - i) + 3
  | last => 4
  | barrierFin => 3
  | fin => 2
  | ended _ => 0

/-- No fewer steps than are made for a task from its stage on. -/
def Stage.rank : Stage → ℕ
  | unspawned => 8
  | arrive => 7
  | leave => 6
  | wait => 5
  | kill => 4
  | waitAgain => 3
  | fin => 2
  | terminated _ => 1
  | collected => 0

def State.work (s : State ntasks) : ℕ := s.root.rank ntasks + ∑ i, (s.task i).rank

section Steps
variable {v : Variant} {sig : ℕ} {effect : Effect} {s s' : State ntasks} {i j : Fin ntasks} {k : ℕ} {stage : Stage}

lemma work_goTo {pos : RootPos} (h : pos.rank ntasks < s.root.rank ntasks) : (s.goTo pos).work < s.work :=
  Nat.add_lt_add_right h _

lemma work_set_lt (h : stage.rank < (s.task i).rank) : (s.set i stage).work < s.work := by
  refine Nat.add_lt_add_left (Finset.sum_lt_sum (fun j _ => ?_) ⟨i, Finset.mem_univ i, by simpa using h⟩) _
  obtain rfl | hj := eq_or_ne j i
  · simpa using h.le
  · rw [set_task_of_ne _ _ hj]

/-- What a task does in one step. -/
inductive Goes (v : Variant) (sig : ℕ) (effect : Effect) (s : State ntasks) (i : Fin ntasks) : Stage → Prop where
  | arrive (h : s.task i = .arrive) (hready : s.barrierReady = true) : Goes v sig effect s i .leave
  | unready (h : s.task i = .arrive) (hready : s.barrierReady = false) : Goes v sig effect s i failed
  | leave (h : s.task i = .leave) (hall : ∀ j, (s.task j).arrived = true) : Goes v sig effect s i .wait
  | wait (h : s.task i = .wait) : Goes v sig effect s i .kill
  | killed {status : WaitStatus} (h : s.task i = .kill) (houtcome : outcome sig effect = some status) :
    Goes v sig effect s i (.terminated status)
  | survived (h : s.task i = .kill) (houtcome : outcome sig effect = some .exitZero) :
    Goes v sig effect s i (if v.again then .waitAgain else .fin)
  | waitAgain (h : s.task i = .waitAgain) : Goes v sig effect s i .fin
  | fin (h : s.task i = .fin) : Goes v sig effect s i (.terminated .exitZero)

lemma taskStep_goes (h : taskStep v sig effect s i = some stage) : Goes v sig effect s i stage := by
  rw [taskStep] at h
  cases hi : s.task i with
  | arrive =>
    rw [hi] at h
    cases hready : s.barrierReady with
    | false =>
      simp only [hready] at h
      cases h
      exact .unready hi hready
    | true =>
      simp only [hready] at h
      cases h
      exact .arrive hi hready
  | leave =>
    rw [hi] at h
    dsimp only at h
    split_ifs at h with hall
    cases h
    exact .leave hi hall
  | wait =>
    simp only [hi, waitCall_task, expectEperm, if_true] at h
    cases h
    exact .wait hi
  | kill =>
    rw [hi] at h
    dsimp only at h
    by_cases hsegv : sig = sigsegv
    · rw [if_pos hsegv] at h
      cases h
      exact .killed hi (if_pos hsegv)
    · rw [if_neg hsegv] at h
      by_cases hzero : sig = 0
      · rw [if_pos hzero] at h
        cases h
        exact .survived hi (by simp only [outcome, if_neg hsegv, if_pos hzero])
      · rw [if_neg hzero] at h
        cases effect with
        | terminate =>
          cases h
          exact .killed hi (by simp only [outcome, if_neg hsegv, if_neg hzero])
        | ignore =>
          cases h
          exact .survived hi (by simp only [outcome, if_neg hsegv, if_neg hzero])
        | stop => cases h
  | waitAgain =>
    simp only [hi, waitCall_task, expectEperm, if_true] at h
    cases h
    exact .waitAgain hi
  | fin =>
    rw [hi] at h
    cases h
    exact .fin hi
  | unspawned | terminated | collected =>
    rw [hi] at h
    cases h

lemma Goes.rank_lt (h : Goes v sig effect s i stage) : stage.rank < (s.task i).rank := by
  cases h with
  | arrive h | unready h | leave h | wait h | killed h | waitAgain h | fin h => simp [h, Stage.rank, failed]
  | survived h =>
    rw [h]
    split_ifs <;> decide

/-- No task fails, as the barrier is ready before there is one. -/
lemma Tasks.goes (h : Tasks sig effect k s) (hgoes : Goes v sig effect s i stage) :
    Tasks sig effect k (s.set i stage) ∧ s.task i ≠ .collected ∧ stage ≠ .collected := by
  have hall : (s.task i).past = true → ∀ j, (s.task j).arrived = true := fun hpast j => h.barrier i j hpast
  cases hgoes with
  | arrive hi hready =>
    exact ⟨h.set (by simp [hi]) (by simp) nofun (fun _ => rfl) nofun nofun nofun, by simp [hi], by simp⟩
  | unready hi hready =>
    rw [h.ready i (by simp [hi])] at hready
    cases hready
  | leave hi hall =>
    exact ⟨h.set (by simp [hi]) (by simp) (fun _ => hall) (fun _ => rfl) nofun nofun nofun, by simp [hi], by simp⟩
  | wait hi =>
    rw [hi] at hall
    exact ⟨h.set (by simp [hi]) (by simp) (fun _ => hall rfl) (fun _ => rfl) nofun nofun nofun, by simp [hi], by simp⟩
  | @killed status hi houtcome =>
    rw [hi] at hall
    refine ⟨h.set (by simp [hi]) (by simp) (fun _ => hall rfl) (fun _ => rfl) (fun status' hstatus => ?_) nofun nofun,
      by simp [hi], by simp⟩
    rw [houtcome, Stage.terminated.inj hstatus]
  | survived hi houtcome =>
    rw [hi] at hall
    cases v.again with
    | false =>
      exact ⟨h.set (by simp [hi]) (by simp) (fun _ => hall rfl) (fun _ => rfl) nofun (fun _ => houtcome) nofun,
        by simp [hi], by simp⟩
    | true =>
      exact ⟨h.set (by simp [hi]) (by simp) (fun _ => hall rfl) (fun _ => rfl) nofun (fun _ => houtcome) nofun,
        by simp [hi], by simp⟩
  | waitAgain hi =>
    rw [hi] at hall
    have houtcome := h.survived i (.inl hi)
    exact ⟨h.set (by simp [hi]) (by simp) (fun _ => hall rfl) (fun _ => rfl) nofun (fun _ => houtcome) nofun,
      by simp [hi], by simp⟩
  | fin hi =>
    rw [hi] at hall
    have houtcome := h.survived i (.inr hi)
    refine ⟨h.set (by simp [hi]) (by simp) (fun _ => hall rfl) (fun _ => rfl) (fun status' hstatus => ?_) nofun nofun,
      by simp [hi], by simp⟩
    rw [houtcome, Stage.terminated.inj hstatus]

/-- A step of a task leaves the root where it is, and what it knows. -/
lemma Placed.task_step (hplaced : Placed v sig effect s) (hgoes : Goes v sig effect s i stage) :
    Placed v sig effect (s.set i stage) := by
  have hkept : ∀ {k}, Tasks sig effect k s → Tasks sig effect k (s.set i stage) := fun h => (h.goes hgoes).1
  have hcount : ∀ {k k'}, Tasks sig effect k s → Counted v k' s → Counted v k' (s.set i stage) :=
    fun h hcounted => hcounted.set (h.goes hgoes).2.1 (h.goes hgoes).2.2
  cases hplaced with
  | early hpos htasks => exact .early hpos (hkept htasks)
  | spawn hpos hi hready htasks hcounted => exact .spawn hpos hi hready (hkept htasks) (hcount htasks hcounted)
  | wait hpos hi htasks hcounted hpasses => exact .wait hpos hi (hkept htasks) (hcount htasks hcounted) hpasses
  | check hpos hi htasks hcounted hstatus houtcome hpipid hpasses =>
    exact .check hpos hi (hkept htasks) (hcount htasks hcounted) hstatus houtcome hpipid hpasses
  | recheck hpos hi htasks hcounted hpasses => exact .recheck hpos hi (hkept htasks) (hcount htasks hcounted) hpasses
  | last hpos htasks hcounted hpasses => exact .last hpos (hkept htasks) (hcount htasks hcounted) hpasses
  | passed hpos htasks hcounted hpasses => exact .passed hpos (hkept htasks) (hcount htasks hcounted) hpasses
  | failed hpos htasks hfails => exact .failed hpos (hkept htasks) hfails

lemma expect_error {errno : Errno} {pos : RootPos} : expect s errno pos (some (.error errno)) = some (s.goTo pos) := by
  rw [expect, if_pos rfl]

lemma expect_cases {errno : Errno} {pos : RootPos} {r : Option (Except Errno (Fin ntasks × WaitStatus))}
    (hr : r ≠ none → r = some (.error errno)) (h : expect s errno pos r = some s') : s' = s.goTo pos := by
  cases r with
  | none => cases h
  | some r =>
    rw [hr (Option.some_ne_none r), expect_error] at h
    exact (Option.some.inj h).symm

lemma Tasks.counted_zero (h : Tasks sig effect 0 s) : Counted v 0 s :=
  PipWait.counted_zero fun i => by simp [(h.spawned i).mpr (Nat.zero_le _)]

/-- Not all tasks are gone before the last one has been collected. -/
lemma Counted.not_gone (h : Counted v k s) (htasks : Tasks sig effect ntasks s) (hk : k < ntasks) :
    ¬ if v.any then ∀ i, Gone s i else ∀ i : Fin ntasks, i = k → Gone s i := by
  have hcollected : ∀ {i}, Gone s i → s.task i = .collected := by
    rintro i (hi | hi)
    · exact absurd ((htasks.spawned i).mp hi) (by omega)
    · exact hi
  split_ifs with hany
  · intro hgone
    have hcard := h.card
    rw [Finset.filter_true_of_mem fun i _ => hcollected (hgone i), Finset.card_fin] at hcard
    omega
  · intro hgone
    have hlt := (h.byId (by simpa using hany) ⟨k, hk⟩).mp (hcollected (hgone ⟨k, hk⟩ rfl))
    exact absurd hlt (lt_irrefl k)

/-- The root waits for a task that is there. -/
lemma Counted.exists_left (h : Counted v k s) (htasks : Tasks sig effect ntasks s) (hk : k < ntasks) :
    ∃ i, ¬ Gone s i ∧ (v.any = false → (i : ℕ) = k) := by
  have hnot := h.not_gone htasks hk
  cases hany : v.any with
  | false =>
    rw [hany, if_neg (by simp)] at hnot
    push Not at hnot
    obtain ⟨i, hi, hgone⟩ := hnot
    exact ⟨i, hgone, fun _ => hi⟩
  | true =>
    rw [hany, if_pos rfl] at hnot
    push Not at hnot
    obtain ⟨i, hgone⟩ := hnot
    exact ⟨i, hgone, nofun⟩

/-- All tasks are gone when as many have been collected. -/
lemma Counted.gone (h : Counted v ntasks s) (i : Fin ntasks) : s.task i = .collected := by
  have huniv : (Finset.univ.filter fun i => s.task i = .collected) = Finset.univ :=
    Finset.eq_univ_of_card _ (by rw [h.card, Fintype.card_fin])
  simpa using Finset.mem_univ i |> huniv.symm.subset

/-- A root that goes on without a task being touched. -/
lemma goTo_moved {pos : RootPos} (hplaced : Placed v sig effect (s.goTo pos))
    (hrank : pos.rank ntasks < s.root.rank ntasks) (h : s' = s.goTo pos) :
    Placed v sig effect s' ∧ (s' = s ∨ s'.work < s.work) := by
  subst h
  exact ⟨hplaced, .inr (work_goTo hrank)⟩

variable {choice : Option (Fin ntasks)}

/-- Up to pip_barrier_init. -/
lemma early_step (hpos : s.root = .selfWait ∨ s.root = .noTask ∨ s.root = .barrierInit)
    (htasks : Tasks sig effect 0 s) (hstep : rootStep v sig s choice = some s') :
    Placed v sig effect s' ∧ (s' = s ∨ s'.work < s.work) := by
  obtain hpos | hpos | hpos := hpos
  · have hnext : s' = s.goTo .noTask := by
      rw [rootStep, hpos] at hstep
      dsimp only at hstep
      split_ifs at hstep
      · exact expect_cases (fun _ => rfl) hstep
      · exact (Option.some.inj hstep).symm
    exact goTo_moved (.early (.inr (.inl rfl)) (htasks.congr rfl rfl)) (by simp [hpos, RootPos.rank]) hnext
  · have hnext : s' = s.goTo .barrierInit := by
      rw [rootStep, hpos] at hstep
      have hunspawned : ∀ i, Gone s i := fun i => .inl ((htasks.spawned i).mpr (Nat.zero_le _))
      exact expect_cases (waitCall_gone (by split_ifs; exacts [hunspawned, fun i _ => hunspawned i])) hstep
    exact goTo_moved (.early (.inr (.inr rfl)) (htasks.congr rfl rfl)) (by simp [hpos, RootPos.rank]) hnext
  · rw [rootStep, hpos] at hstep
    cases hstep
    refine ⟨.spawn rfl (Nat.zero_le _) rfl ?_ (htasks.counted_zero.congr fun i => Iff.rfl), .inr ?_⟩
    · exact ⟨htasks.spawned, fun _ _ => rfl, htasks.barrier, htasks.ends, htasks.survived, htasks.collected⟩
    · refine Nat.add_lt_add_right ?_ _
      rw [hpos]
      simp only [RootPos.rank]
      omega

lemma spawn_step {i : ℕ} (hpos : s.root = .spawn i) (hi : i ≤ ntasks) (hready : s.barrierReady = true)
    (htasks : Tasks sig effect i s) (hcounted : Counted v 0 s) (hstep : rootStep v sig s choice = some s') :
    Placed v sig effect s' ∧ (s' = s ∨ s'.work < s.work) := by
  rw [rootStep, hpos] at hstep
  dsimp only at hstep
  split_ifs at hstep with hlt
  · cases hstep
    have hunspawned : s.task ⟨i, hlt⟩ = .unspawned := (htasks.spawned ⟨i, hlt⟩).mpr le_rfl
    have hcounted' : Counted v 0 (s.set ⟨i, hlt⟩ .arrive) := hcounted.set (by simp [hunspawned]) (by simp)
    refine ⟨.spawn rfl hlt hready ((htasks.spawn hlt hready).congr rfl rfl) (hcounted'.congr fun j => Iff.rfl), .inr ?_⟩
    refine (work_goTo ?_).trans (work_set_lt ?_)
    · simp only [set_root, hpos, RootPos.rank]
      omega
    · rw [hunspawned]
      decide
  · obtain rfl : i = ntasks := by omega
    refine goTo_moved (.wait rfl (Nat.zero_le _) (htasks.congr rfl rfl) (hcounted.congr fun j => Iff.rfl) nofun) ?_
      (Option.some.inj hstep).symm
    rw [hpos]
    simp only [RootPos.rank]
    omega

/-- The root collects a task that has terminated, or asks again. -/
lemma wait_step {i : ℕ} (hn : 0 < ntasks) (hpos : s.root = .wait i) (hi : i ≤ ntasks)
    (htasks : Tasks sig effect ntasks s) (hcounted : Counted v i s) (hpasses : 0 < i → Passes sig effect)
    (hstep : rootStep v sig s choice = some s') : Placed v sig effect s' ∧ (s' = s ∨ s'.work < s.work) := by
  rw [rootStep, hpos] at hstep
  dsimp only at hstep
  by_cases hlt : i < ntasks
  · rw [if_pos hlt] at hstep
    split at hstep
    · cases hstep
    · next e hwait =>
      obtain ⟨rfl, hpoll | hgone⟩ := waitCall_error hwait
      · rw [if_pos ⟨hpoll, rfl⟩] at hstep
        cases hstep
        exact ⟨.wait hpos hi htasks hcounted hpasses, .inl rfl⟩
      · exact absurd hgone (hcounted.not_gone htasks hlt)
    · next j status hwait =>
      cases hstep
      obtain ⟨hj, hbyId⟩ := waitCall_ok hwait
      have houtcome := htasks.ends j status hj
      have hset : Tasks sig effect ntasks (s.set j .collected) :=
        htasks.set (by simp [hj]) (by simp) (fun _ j' => htasks.barrier j j' (by simp [hj, Stage.past]))
          (fun _ => rfl) nofun nofun fun _ => by simp [houtcome]
      have hcollect : Counted v (i + 1) (s.set j .collected) := hcounted.collect (by simp [hj]) hbyId
      refine ⟨.check rfl hlt (hset.congr rfl rfl) (hcollect.congr fun j => Iff.rfl) rfl houtcome (by simp) hpasses,
        .inr ?_⟩
      have hcheck : ((s.set j .collected).goTo (.check i)).work < (s.set j .collected).work :=
        work_goTo (by simp only [set_root, hpos, RootPos.rank]; omega)
      exact hcheck.trans (work_set_lt (by simp [hj, Stage.rank]))
  · obtain rfl : i = ntasks := by omega
    rw [if_neg hlt] at hstep
    exact goTo_moved (.last (.inl rfl) (htasks.congr rfl rfl) (hcounted.congr fun j => Iff.rfl) (hpasses hn))
      (by simp [hpos, RootPos.rank]) (Option.some.inj hstep).symm

/-- The root looks at how a task has ended. -/
lemma check_step {i : ℕ} {status : WaitStatus} (hpos : s.root = .check i) (hi : i < ntasks)
    (htasks : Tasks sig effect ntasks s) (hcounted : Counted v (i + 1) s) (hstatus : s.status = some status)
    (houtcome : outcome sig effect = some status) (hpipid : s.pipid ≠ none)
    (hstep : rootStep v sig s choice = some s') : Placed v sig effect s' ∧ (s' = s ∨ s'.work < s.work) := by
  rw [rootStep, hpos] at hstep
  simp only [hstatus] at hstep
  by_cases hexpected : Expected sig status
  · rw [if_pos ⟨hexpected, fun _ => hpipid⟩] at hstep
    refine goTo_moved (.recheck rfl hi (htasks.congr rfl rfl) (hcounted.congr fun j => Iff.rfl)
      ⟨status, houtcome, hexpected⟩) ?_ (Option.some.inj hstep).symm
    simp [hpos, RootPos.rank]
  · rw [if_neg fun h => hexpected h.1] at hstep
    refine goTo_moved (.failed rfl (htasks.congr rfl rfl) ⟨status, houtcome, hexpected⟩) ?_
      (Option.some.inj hstep).symm
    simp [hpos, RootPos.rank]

lemma recheck_step {i : ℕ} (hv : v.recheck = true → v.any = false) (hpos : s.root = .recheck i) (hi : i < ntasks)
    (htasks : Tasks sig effect ntasks s) (hcounted : Counted v (i + 1) s) (hpasses : Passes sig effect)
    (hstep : rootStep v sig s choice = some s') : Placed v sig effect s' ∧ (s' = s ∨ s'.work < s.work) := by
  have hnext : s' = s.goTo (.wait (i + 1)) := by
    rw [rootStep, hpos] at hstep
    dsimp only at hstep
    split_ifs at hstep with hrecheck
    · refine expect_cases (waitCall_gone ?_) hstep
      rw [if_neg (by simp [hv hrecheck])]
      exact fun j hj => .inr ((hcounted.byId (hv hrecheck) j).mpr (by omega))
    · exact (Option.some.inj hstep).symm
  refine goTo_moved (.wait rfl hi (htasks.congr rfl rfl) (hcounted.congr fun j => Iff.rfl) fun _ => hpasses) ?_ hnext
  simp only [hpos, RootPos.rank]
  omega

/-- All tasks have been collected. -/
lemma last_step (hpos : s.root = .last ∨ s.root = .barrierFin ∨ s.root = .fin) (htasks : Tasks sig effect ntasks s)
    (hcounted : Counted v ntasks s) (hpasses : Passes sig effect) (hstep : rootStep v sig s choice = some s') :
    Placed v sig effect s' ∧ (s' = s ∨ s'.work < s.work) := by
  obtain hpos | hpos | hpos := hpos
  · have hnext : s' = s.goTo .barrierFin := by
      rw [rootStep, hpos] at hstep
      dsimp only at hstep
      split_ifs at hstep with hany
      · refine expect_cases (waitCall_gone ?_) hstep
        rw [if_pos hany]
        exact fun i => .inr (hcounted.gone i)
      · exact (Option.some.inj hstep).symm
    exact goTo_moved (.last (.inr (.inl rfl)) (htasks.congr rfl rfl) (hcounted.congr fun j => Iff.rfl) hpasses)
      (by simp [hpos, RootPos.rank]) hnext
  · have hnobody : ¬ (v.barrierFin = true ∧ ∃ i, s.task i = .leave) := by
      rintro ⟨-, i, hi⟩
      cases hi.symm.trans (hcounted.gone i)
    rw [rootStep, hpos] at hstep
    simp only [if_neg hnobody] at hstep
    exact goTo_moved (.last (.inr (.inr rfl)) (htasks.congr rfl rfl) (hcounted.congr fun j => Iff.rfl) hpasses)
      (by simp [hpos, RootPos.rank]) (Option.some.inj hstep).symm
  · rw [rootStep, hpos] at hstep
    exact goTo_moved (.passed rfl (htasks.congr rfl rfl) (hcounted.congr fun j => Iff.rfl) hpasses)
      (by simp [hpos, RootPos.rank]) (Option.some.inj hstep).symm

/-- Each step keeps the root and the tasks in their places, and brings the run nearer to its end, unless the root
asks for a task in vain. -/
theorem Placed.step (hv : v.recheck = true → v.any = false) (hn : 0 < ntasks) {e : Event ntasks}
    (hplaced : Placed v sig effect s) (hstep : step v sig effect s e = some s') :
    Placed v sig effect s' ∧ (s' = s ∨ s'.work < s.work) := by
  cases e with
  | task i =>
    obtain ⟨stage, htask, rfl⟩ := Option.map_eq_some_iff.mp hstep
    have hgoes := taskStep_goes htask
    exact ⟨hplaced.task_step hgoes, .inr (work_set_lt hgoes.rank_lt)⟩
  | root choice =>
    have hroot : rootStep v sig s choice = some s' := hstep
    cases hplaced with
    | early hpos htasks => exact early_step hpos htasks hroot
    | spawn hpos hi hready htasks hcounted => exact spawn_step hpos hi hready htasks hcounted hroot
    | wait hpos hi htasks hcounted hpasses => exact wait_step hn hpos hi htasks hcounted hpasses hroot
    | check hpos hi htasks hcounted hstatus houtcome hpipid =>
      exact check_step hpos hi htasks hcounted hstatus houtcome hpipid hroot
    | recheck hpos hi htasks hcounted hpasses => exact recheck_step hv hpos hi htasks hcounted hpasses hroot
    | last hpos htasks hcounted hpasses => exact last_step hpos htasks hcounted hpasses hroot
    | passed hpos | failed hpos =>
      rw [rootStep, hpos] at hroot
      cases hroot

/-- A task that has not ended waits for nobody but those that have still to come to the barrier. -/
lemma Tasks.exists_goes (h : Tasks sig effect ntasks s) (houtcome : outcome sig effect ≠ none) (hgone : ¬ Gone s i)
    (hend : (s.task i).isTerminated = false) : ∃ j stage, taskStep v sig effect s j = some stage := by
  by_cases hall : ∀ j, (s.task j).arrived = true
  · refine ⟨i, ?_⟩
    have harrived := hall i
    rw [Gone] at hgone
    rw [taskStep]
    cases hi : s.task i with
    | unspawned | collected => simp [hi] at hgone
    | terminated => simp [hi, Stage.isTerminated] at hend
    | arrive => simp [hi, Stage.arrived] at harrived
    | leave => exact ⟨_, if_pos hall⟩
    | wait | waitAgain =>
      simp only [waitCall_task]
      exact ⟨_, rfl⟩
    | fin => exact ⟨_, rfl⟩
    | kill =>
      dsimp only
      by_cases hsegv : sig = sigsegv
      · exact ⟨_, if_pos hsegv⟩
      · by_cases hzero : sig = 0
        · exact ⟨_, (if_neg hsegv).trans (if_pos hzero)⟩
        · rw [if_neg hsegv, if_neg hzero]
          cases effect with
          | terminate | ignore => exact ⟨_, rfl⟩
          | stop => simp [outcome, hsegv, hzero] at houtcome
  · obtain ⟨j, hj⟩ := not_forall.mp hall
    refine ⟨j, ?_⟩
    have hspawned := (h.spawned j).not.mpr (by omega)
    rw [taskStep]
    cases hstage : s.task j with
    | unspawned => exact absurd hstage hspawned
    | arrive => simp [h.ready j hspawned]
    | leave | wait | kill | waitAgain | fin | terminated | collected => simp [hstage, Stage.arrived] at hj

/-- As long as the root has not ended it goes on, or a task does that it waits for. -/
theorem Placed.progress (hv : v.recheck = true → v.any = false) (houtcome : outcome sig effect ≠ none)
    (hplaced : Placed v sig effect s) :
    (∃ status, s.root = .ended status) ∨ ∃ e s', PipWait.step v sig effect s e = some s' ∧ s' ≠ s := by
  have hroot : ∀ choice s', rootStep v sig s choice = some s' → s'.root ≠ s.root →
      ∃ e s', PipWait.step v sig effect s e = some s' ∧ s' ≠ s :=
    fun choice s' hstep hne => ⟨.root choice, s', hstep, fun heq => hne (by rw [heq])⟩
  cases hplaced with
  | early hpos htasks =>
    refine .inr ?_
    have hunspawned : ∀ i, Gone s i := fun i => .inl ((htasks.spawned i).mpr (Nat.zero_le _))
    obtain hpos | hpos | hpos := hpos
    · refine hroot none (s.goTo .noTask) ?_ (by simp [hpos])
      rw [rootStep, hpos]
      dsimp only
      split_ifs
      · exact expect_error
      · rfl
    · refine hroot none (s.goTo .barrierInit) ?_ (by simp [hpos])
      rw [rootStep, hpos]
      dsimp only
      rw [exists_waitCall_gone (by split_ifs; exacts [hunspawned, fun i _ => hunspawned i]), expect_error]
    · exact hroot none _ (by rw [rootStep, hpos]) (by simp [hpos])
  | @spawn i hpos hi hready htasks hcounted =>
    refine .inr ?_
    by_cases hlt : i < ntasks
    · exact hroot none _ (by rw [rootStep, hpos]; exact dif_pos hlt) (by simp [hpos])
    · exact hroot none _ (by rw [rootStep, hpos]; exact dif_neg hlt) (by simp [hpos])
  | @wait i hpos hi htasks hcounted hpasses =>
    refine .inr ?_
    by_cases hlt : i < ntasks
    · obtain ⟨j, hj, hbyId⟩ := hcounted.exists_left htasks hlt
      cases hend : (s.task j).isTerminated with
      | true =>
        obtain ⟨status, hstatus⟩ := isTerminated_iff.mp hend
        have hstep : rootStep v sig s (some j) = some
            { s.set j .collected with root := .check i, status := some status, pipid := some j } := by
          rw [rootStep, hpos]
          simp only [if_pos hlt, exists_waitCall_terminated hstatus hbyId]
        exact hroot (some j) _ hstep (by simp [hpos])
      | false =>
        obtain ⟨j', stage, htask⟩ := htasks.exists_goes houtcome hj hend
        have hstep : PipWait.step v sig effect s (.task j') = some (s.set j' stage) :=
          Option.map_eq_some_iff.mpr ⟨stage, htask, rfl⟩
        refine ⟨_, _, hstep, fun heq => ?_⟩
        have hlt := work_set_lt (taskStep_goes htask).rank_lt
        rw [heq] at hlt
        exact lt_irrefl _ hlt
    · exact hroot none _ (by rw [rootStep, hpos]; exact if_neg hlt) (by simp [hpos])
  | @check i status hpos hi htasks hcounted hstatus =>
    have hstep : rootStep v sig s none = some
        (s.goTo (if Expected sig status ∧ (v.any → s.pipid ≠ none) then .recheck i else .ended exitFail)) := by
      rw [rootStep, hpos]
      simp only [hstatus]
    refine .inr (hroot none _ hstep ?_)
    rw [hpos, goTo_root]
    split_ifs <;> simp
  | @recheck i hpos hi htasks hcounted hpasses =>
    refine .inr (hroot none (s.goTo (.wait (i + 1))) ?_ (by simp [hpos]))
    rw [rootStep, hpos]
    dsimp only
    split_ifs with hrecheck
    · rw [exists_waitCall_gone, expect_error]
      rw [if_neg (by simp [hv hrecheck])]
      exact fun j hj => .inr ((hcounted.byId (hv hrecheck) j).mpr (by omega))
    · rfl
  | last hpos htasks hcounted hpasses =>
    refine .inr ?_
    obtain hpos | hpos | hpos := hpos
    · refine hroot none (s.goTo .barrierFin) ?_ (by simp [hpos])
      rw [rootStep, hpos]
      dsimp only
      split_ifs with hany
      · rw [exists_waitCall_gone, expect_error]
        rw [if_pos hany]
        exact fun i => .inr (hcounted.gone i)
      · rfl
    · refine hroot none _ (by rw [rootStep, hpos]) ?_
      rw [hpos, goTo_root]
      split_ifs <;> simp
    · exact hroot none _ (by rw [rootStep, hpos]) (by simp [hpos])
  | passed hpos | failed hpos => exact .inl ⟨_, hpos⟩

end Steps

section Runs
variable {v : Variant} {sig : ℕ} {effect : Effect} {s : State ntasks}

inductive Program where
  | pipWait | pipWaitAny | pipTrywait | pipTrywaitAny
  deriving DecidableEq

def Program.variant : Program → Variant
  | pipWait => PipWait.pipWait
  | pipWaitAny => PipWait.pipWaitAny
  | pipTrywait => PipWait.pipTrywait
  | pipTrywaitAny => PipWait.pipTrywaitAny

lemma Program.recheck_any (p : Program) : p.variant.recheck = true → p.variant.any = false := by
  cases p <;> decide

lemma start_placed (v : Variant) (sig : ℕ) (effect : Effect) (ntasks : ℕ) : Placed v sig effect (start ntasks) := by
  refine .early (.inl rfl) ⟨fun i => ?_, ?_, nofun, nofun, ?_, nofun⟩
  · simp [start]
  · exact fun i hi => absurd rfl hi
  · rintro i (hi | hi) <;> cases hi

/-- The root passes just where each task ends as the signal makes it end: not at all by 0, and by a signal that
terminates it, which SIGSEGV always does. -/
lemma passes_iff (houtcome : outcome sig effect ≠ none) :
    Passes sig effect ↔ sig = 0 ∨ sig = sigsegv ∨ effect = .terminate := by
  unfold Passes
  unfold outcome at houtcome ⊢
  split_ifs at houtcome ⊢ with hsegv hzero
  · simp [hsegv, Expected, sigsegv]
  · simp [hzero, Expected]
  · cases effect with
    | terminate => simp [Expected, hzero]
    | ignore => simp [Expected, hzero, hsegv]
    | stop => exact absurd rfl houtcome

lemma Fails.not_passes (h : Fails sig effect) : ¬ Passes sig effect := by
  rintro ⟨status, hstatus, hexpected⟩
  obtain ⟨status', hstatus', hnot⟩ := h
  obtain rfl := Option.some.inj (hstatus.symm.trans hstatus')
  exact hnot hexpected

/-- No task goes on before all have come to the barrier, and each ends as its signal makes it. The root ends unless
the tasks are stopped, with the status that the signal calls for, and has collected each task if it passes. -/
structure Sound (v : Variant) (sig : ℕ) (effect : Effect) (s : State ntasks) : Prop where
  barrier : ∀ i j, (s.task i).past = true → (s.task j).arrived = true
  outcome : ∀ i status, s.task i = .terminated status → outcome sig effect = some status
  verdict : ∀ status, s.root = .ended status →
    status = if sig = 0 ∨ sig = sigsegv ∨ effect = .terminate then exitPass else exitFail
  collected : s.root = .ended exitPass → ∀ i, s.task i = .collected
  stopped : effect = .stop → sig ≠ 0 → sig ≠ sigsegv → ∀ status, s.root ≠ .ended status
  ends : ∀ e s', step v sig effect s e = some s' → s' = s ∨ s'.work < s.work
  goesOn : (effect = .stop → sig = 0 ∨ sig = sigsegv) →
    ∃ more status, (Interleaving.run (step v sig effect) s more).root = .ended status

lemma Placed.exists_tasks (hplaced : Placed v sig effect s) : ∃ k, Tasks sig effect k s := by
  cases hplaced with
  | early _ htasks | spawn _ _ _ htasks | wait _ _ htasks | check _ _ htasks | recheck _ _ htasks | last _ htasks
  | passed _ htasks | failed _ htasks => exact ⟨_, htasks⟩

lemma Placed.ended (hplaced : Placed v sig effect s) {status : ℕ} (hend : s.root = .ended status) :
    (status = exitPass ∧ Passes sig effect ∧ ∀ i, s.task i = .collected) ∨ (status = exitFail ∧ Fails sig effect) := by
  cases hplaced with
  | early hpos | last hpos => obtain hpos | hpos | hpos := hpos <;> cases hend.symm.trans hpos
  | spawn hpos | wait hpos | check hpos | recheck hpos => cases hend.symm.trans hpos
  | passed hpos htasks hcounted hpasses =>
    exact .inl ⟨RootPos.ended.inj (hend.symm.trans hpos), hpasses, hcounted.gone⟩
  | failed hpos htasks hfails => exact .inr ⟨RootPos.ended.inj (hend.symm.trans hpos), hfails⟩

lemma outcome_ne_none (h : effect = .stop → sig = 0 ∨ sig = sigsegv) : outcome sig effect ≠ none := by
  unfold outcome
  split_ifs with hsegv hzero
  · simp
  · simp
  · cases effect with
    | terminate | ignore => simp
    | stop => exact absurd (h rfl) (by simp [hsegv, hzero])

lemma Placed.goesOn (hv : v.recheck = true → v.any = false) (hn : 0 < ntasks) (hplaced : Placed v sig effect s)
    (houtcome : PipWait.outcome sig effect ≠ none) :
    ∃ more status, (Interleaving.run (PipWait.step v sig effect) s more).root = .ended status := by
  have hstep : ∀ s : State ntasks, Placed v sig effect s → (∃ status, s.root = .ended status) ∨
      ∃ e s', PipWait.step v sig effect s e = some s' ∧ Placed v sig effect s' ∧ s'.work < s.work := by
    intro s hplaced
    obtain hend | ⟨e, s', hstep, hne⟩ := hplaced.progress hv houtcome
    · exact .inl hend
    · obtain ⟨hplaced', heq | hlt⟩ := hplaced.step hv hn hstep
      · exact absurd heq hne
      · exact .inr ⟨e, s', hstep, hplaced', hlt⟩
  exact Interleaving.exists_run_of_measure State.work hstep hplaced

lemma Placed.sound (hv : v.recheck = true → v.any = false) (hn : 0 < ntasks) (hplaced : Placed v sig effect s) :
    Sound v sig effect s := by
  obtain ⟨k, htasks⟩ := hplaced.exists_tasks
  have hended : ∀ status, s.root = .ended status → PipWait.outcome sig effect ≠ none := by
    intro status hend
    obtain ⟨-, ⟨status, houtcome, -⟩, -⟩ | ⟨-, status, houtcome, -⟩ := hplaced.ended hend <;> simp [houtcome]
  refine ⟨htasks.barrier, htasks.ends, fun status hend => ?_, fun hend => ?_, fun hstop hzero hsegv status hend => ?_,
    fun e s' hstep => (hplaced.step hv hn hstep).2, fun h => hplaced.goesOn hv hn (outcome_ne_none h)⟩
  · have hiff := passes_iff (hended status hend)
    obtain ⟨hstatus, hpasses, -⟩ | ⟨hstatus, hfails⟩ := hplaced.ended hend
    · rw [if_pos (hiff.mp hpasses), hstatus]
    · rw [if_neg fun h => hfails.not_passes (hiff.mpr h), hstatus]
  · obtain ⟨-, -, hcollected⟩ | ⟨hstatus, -⟩ := hplaced.ended hend
    · exact hcollected
    · cases hstatus
  · exact hended status hend (by simp [PipWait.outcome, hstop, hzero, hsegv])

/-- Every interleaving of the root and its tasks, for every signal and whatever it does to a task. -/
theorem root_verdict (p : Program) (sig : ℕ) (effect : Effect) (ntasks : ℕ) (hn : 0 < ntasks)
    (schedule : List (Event ntasks)) : Sound p.variant sig effect (run p.variant sig effect ntasks schedule) := by
  have hplaced : Placed p.variant sig effect (run p.variant sig effect ntasks schedule) :=
    Interleaving.run_inv (start_placed p.variant sig effect ntasks)
      (fun _ _ _ hplaced hstep => (hplaced.step p.recheck_any hn hstep).1) schedule
  exact hplaced.sound p.recheck_any hn

/-- Two tasks and a signal, where the root collects task 1 first. -/
def twoTasks : List (Event 2) :=
  List.replicate 5 (.root none) ++ [.task 1, .root none, .task 0, .task 0] ++ List.replicate 3 (.task 1) ++
    [.root (some 1), .root none, .root none] ++ List.replicate 2 (.task 0) ++ [.root (some 0)] ++
    List.replicate 6 (.root none)

/-- SIGTERM, up to the end of the root. -/
theorem root_verdict_two :
    (run Program.pipWaitAny.variant 15 .terminate 2 twoTasks).root = .ended exitPass ∧
    Sound Program.pipWaitAny.variant 15 .terminate (run Program.pipWaitAny.variant 15 .terminate 2 twoTasks) :=
  ⟨by decide +kernel, root_verdict .pipWaitAny 15 .terminate 2 (by decide) _⟩

end Runs

end PipTestsuite.PipWait
