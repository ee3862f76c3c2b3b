import PipTestsuite.Lib.Interleaving

/-! compat/fork.c: every task forks nfork children, records their pids in a table of task 0 and then waits
for as many children as it has forked. With threads wait() returns the children of all tasks. -/
namespace PipTestsuite.Fork

/-- "FORKED", "forked", "CHECK" and "DONE" -/
inductive Name where
  | table | forked | check | done
  deriving DecidableEq

/-- A child in the process table of the kernel. -/
inductive Child where
  | unborn
  | running
  | zombie
  | reaped (task : ℕ)
  deriving DecidableEq

/-- What a task does next. The counters of the loops come first in a loop with its test. -/
inductive Pc where
  | allocate
  | exportTable
  | importTable
  | fork (i : ℕ)
  | record (i : ℕ) (pid : ℤ)
  | importForked (i : ℕ)
  | exportForked
  | importCheck
  | wait
  | search (pid : ℤ) (j k : ℕ)
  | found (pid : ℤ) (j k : ℕ)
  | loopEnd
  | importDone (i : ℕ)
  | exportDone
  | finished
  | failed
  deriving DecidableEq

/-- Where each task is, its variable n, how many entries it has matched since its last wait, the table, what
has been exported, and the k-th child of each task with its pid. -/
@[ext]
structure State where
  pc : ℕ → Pc
  n : ℕ → ℤ
  matched : ℕ → ℕ
  forked : ℕ → ℤ
  exported : ℕ → Name → Bool
  child : ℕ → ℕ → Child
  pid : ℕ → ℕ → ℤ

/-- Which task does a step, with what fork() or wait() return; or the k-th child of task j terminates. -/
inductive Event where
  | task (t : ℕ)
  | fork (t : ℕ) (pid : ℤ)
  | wait (t j k : ℕ)
  | interrupt (t : ℕ)
  | exit (j k : ℕ)
  deriving DecidableEq

/-- IDX(P,I) -/
def idx (nfork p i : ℕ) : ℕ := p * nfork + i

def State.goTo (s : State) (t : ℕ) (pc : Pc) : State := { s with pc := Function.update s.pc t pc }

def pipNamedExport (t : ℕ) (name : Name) (s : State) : State :=
  { s with exported := Function.update s.exported t (Function.update (s.exported t) name true) }

def State.setChild (s : State) (j k : ℕ) (c : Child) : State :=
  { s with child := Function.update s.child j (Function.update (s.child j) k c) }

/-- A child is in the process table from the fork until somebody has waited for it. -/
def Child.present (c : Child) : Prop := c = .running ∨ c = .zombie

instance (c : Child) : Decidable c.present := inferInstanceAs (Decidable (_ ∨ _))

/-- Which children a task can wait for. -/
def visible (thrd : Bool) (t j : ℕ) : Prop := thrd ∨ j = t

instance (thrd : Bool) (t j : ℕ) : Decidable (visible thrd t j) := inferInstanceAs (Decidable (_ ∨ _))

section Steps
variable (thrd : Bool) (ntasks nfork : ℕ)

/-- The next step of task t, besides fork() and a wait() that returns a child. -/
def taskStep (s : State) (t : ℕ) : Option State :=
  match s.pc t with
  | .allocate => some ({ s with forked := fun _ => 0 }.goTo t .exportTable)
  | .exportTable => some ((pipNamedExport t .table s).goTo t (.fork 0))
  | .importTable => if s.exported 0 .table then some (s.goTo t (.fork 0)) else none
  | .fork i => if i < nfork then none else some (s.goTo t (if t = 0 then .importForked 1 else .exportForked))
  | .record i pid =>
    some ({ s with forked := Function.update s.forked (idx nfork t i) pid }.goTo t (.fork (i + 1)))
  | .importForked i =>
    if i < ntasks then if s.exported i .forked then some (s.goTo t (.importForked (i + 1))) else none
    else some ({ pipNamedExport t .check s with n := Function.update s.n t nfork }.goTo t .wait)
  | .exportForked => some ((pipNamedExport t .forked s).goTo t .importCheck)
  | .importCheck =>
    if s.exported 0 .check then some ({ s with n := Function.update s.n t nfork }.goTo t .wait) else none
  -- with no child that has been forked and not been waited for, wait() fails with ECHILD
  | .wait =>
    if ∀ j < ntasks, visible thrd t j → ∀ k < nfork, ¬ (s.child j k).present then some (s.goTo t .failed) else none
  | .search pid j k =>
    if j < ntasks then
      if ¬ visible thrd t j then some (s.goTo t (.search pid (j + 1) 0))
      else if k < nfork then
        some (s.goTo t (if s.forked (idx nfork j k) = pid then .found pid j k else .search pid j (k + 1)))
      else some (s.goTo t (.search pid (j + 1) 0))
    else some (s.goTo t .loopEnd)
  | .found pid j k =>
    some ({ s with
      forked := Function.update s.forked (idx nfork j k) 0
      n := Function.update s.n t (s.n t - 1)
      matched := Function.update s.matched t (s.matched t + 1) }.goTo t (.search pid (j + 1) 0))
  | .loopEnd =>
    some (s.goTo t (if 0 < s.n t then .wait else if t = 0 then .importDone 1 else .exportDone))
  | .importDone i =>
    if i < ntasks then if s.exported i .done then some (s.goTo t (.importDone (i + 1))) else none
    else some (s.goTo t .finished)
  | .exportDone => some ((pipNamedExport t .done s).goTo t .finished)
  | .finished => none
  | .failed => none

def step (s : State) : Event → Option State
  | .task t => if t < ntasks then taskStep thrd ntasks nfork s t else none
  -- a pid is not that of a process that is still there
  | .fork t pid =>
    match s.pc t with
    | .fork i =>
      if t < ntasks ∧ i < nfork ∧ 0 < pid ∧ ∀ j < ntasks, ∀ k < nfork, (s.child j k).present → s.pid j k ≠ pid then
        some ({ s.setChild t i .running with
          pid := Function.update s.pid t (Function.update (s.pid t) i pid) }.goTo t (.record i pid))
      else none
    | _ => none
  | .wait t j k =>
    if t < ntasks ∧ s.pc t = .wait ∧ j < ntasks ∧ k < nfork ∧ visible thrd t j ∧ s.child j k = .zombie then
      some ({ s.setChild j k (.reaped t) with matched := Function.update s.matched t 0 }.goTo t
        (.search (s.pid j k) 0 0))
    else none
  -- EINTR
  | .interrupt t => if t < ntasks ∧ s.pc t = .wait then some s else none
  | .exit j k =>
    if j < ntasks ∧ k < nfork ∧ s.child j k = .running then some (s.setChild j k .zombie) else none

end Steps

/-- Nothing has been done; the memory that malloc() will give has any contents. -/
def start (garbage : ℕ → ℤ) : State where
  pc t := if t = 0 then .allocate else .importTable
  n _ := 0
  matched _ := 0
  forked := garbage
  exported _ _ := false
  child _ _ := .unborn
  pid _ _ := 0

def run (thrd : Bool) (ntasks nfork : ℕ) (garbage : ℕ → ℤ) (schedule : List Event) : State :=
  Interleaving.run (step thrd ntasks nfork) (start garbage) schedule

end PipTestsuite.Fork
