import PipTestsuite.Lib.Interleaving
import PipTestsuite.Lib.DescriptorTable

/-! hook_and_coe.c: the root sets up a chain of pipes, spawns tasks that inherit its descriptors, and has each
of them relay its standard input, which is one pipe, to its standard output, which is the next one. -/
namespace PipTestsuite.HookCoe
open DescriptorTable

/-- pipes[i][0] and pipes[i][1] -/
inductive Side where
  | read | write
  deriving DecidableEq

/-- An end of one of the pipes, or another file that the root has been started with. -/
inductive File where
  | pipe (i : ℕ) (side : Side)
  | other (k : ℕ)
  deriving DecidableEq

/-- The system calls of the root before its loop. spawn i is the one with pipes[i][0] and pipes[i+1][1]. -/
inductive Instr where
  | pipe (i : ℕ)
  | setCoeFlag (i : ℕ) (side : Side)
  | spawn (i : ℕ)
  | close (i : ℕ) (side : Side)
  deriving DecidableEq

/-- A task is spawned, and the ends of the pipes that it has got are closed. -/
def spawnAndClose (i : ℕ) : List Instr := [.spawn i, .close i .read, .close (i + 1) .write]

/-- From the first pipe() to the last close() before the loop. -/
def setup (ntasks : ℕ) : List Instr :=
  [.pipe 0, .setCoeFlag 0 .write] ++ (List.range' 1 (ntasks - 1)).map .pipe ++
    [.pipe ntasks, .setCoeFlag ntasks .read] ++
    spawnAndClose 0 ++ (List.range' 1 (ntasks - 2)).flatMap spawnAndClose ++
    if ntasks > 1 then spawnAndClose (ntasks - 1) else []

/-- What a task does next. -/
inductive Pc where
  | unborn
  | read
  | write
  | closeIn
  | closeOut
  | leave
  | terminated
  | failed
  deriving DecidableEq

/-- What is left of the setup, the array pipes, the table of the root, where each task is, its table and the
part of its buff that it has not written, the contents of the pipes, and what the root has written to fd_out
and read from fd_in. -/
structure Chain (α : Type) where
  todo : List Instr
  pipes : ℕ → Side → ℕ
  root : Table File
  pc : ℕ → Pc
  table : ℕ → Table File
  buf : ℕ → List α
  pipe : ℕ → List α
  written : List α
  readBack : List α

/-- dup2() and close(), when the descriptors differ. -/
def redirect (old new : ℕ) (T : Table File) : Option (Table File) :=
  if old ≠ new then (T.dup2 old new).bind fun T => T.close old else some T

def bhook (pipe0 pipe1 : ℕ) (T : Table File) : Option (Table File) :=
  (redirect pipe0 0 T).bind (redirect pipe1 1)

section Steps
variable {α : Type}

def Chain.goTo (s : Chain α) (i : ℕ) (pc : Pc) : Chain α := { s with pc := Function.update s.pc i pc }

/-- With the process its descriptors are gone. -/
def Chain.exit (s : Chain α) (i : ℕ) (pc : Pc) : Chain α :=
  { s with table := Function.update s.table i Table.empty }.goTo i pc

/-- The two descriptors that pipe() stores. -/
def fds (fd0 fd1 : ℕ) : Side → ℕ
  | .read => fd0
  | .write => fd1

/-- The next call of the setup. -/
def Chain.setupStep (s : Chain α) : Option (Chain α) :=
  match s.todo with
  | [] => none
  | .pipe i :: rest =>
    let (fd0, T) := s.root.openFile (.pipe i .read)
    let (fd1, T) := T.openFile (.pipe i .write)
    some { s with todo := rest, root := T, pipes := Function.update s.pipes i (fds fd0 fd1) }
  | .setCoeFlag i side :: rest =>
    (s.root.setCloseOnExec (s.pipes i side)).map fun T => { s with todo := rest, root := T }
  | .spawn i :: rest =>
    (bhook (s.pipes i .read) (s.pipes (i + 1) .write) s.root.inherit).map fun T =>
      { s with todo := rest, table := Function.update s.table i T }.goTo i .read
  | .close i side :: rest => (s.root.close (s.pipes i side)).map fun T => { s with todo := rest, root := T }

/-- The processes have a file open. -/
def Chain.held (ntasks : ℕ) (s : Chain α) (f : File) : Prop := s.root.has f ∨ ∃ i < ntasks, (s.table i).has f

instance (ntasks : ℕ) (s : Chain α) (f : File) : Decidable (s.held ntasks f) :=
  inferInstanceAs (Decidable (_ ∨ _))

/-- The size of the read() of a task -/
def sz : ℕ := 1024

/-- What a read() or write() moves, at least one byte; choice is how much the kernel picks. -/
def amount (choice limit : ℕ) : ℕ := min (choice + 1) limit

/-- The next step of task i. A pipe takes up to cap bytes. -/
def Chain.taskStep (ntasks cap : ℕ) (s : Chain α) (i choice : ℕ) : Option (Chain α) :=
  if i < ntasks then
    match s.pc i with
    | .unborn => none
    | .read =>
      match (s.table i).entry 0 with
      | some (.pipe p .read, _) =>
        if s.pipe p = [] then
          if s.held ntasks (.pipe p .write) then none else some (s.goTo i .closeIn)
        else
          let ccr := amount choice sz
          some ({ s with
            buf := Function.update s.buf i ((s.pipe p).take ccr)
            pipe := Function.update s.pipe p ((s.pipe p).drop ccr) }.goTo i .write)
      | _ => some (s.exit i .failed)
    | .write =>
      match (s.table i).entry 1 with
      | some (.pipe p .write, _) =>
        if s.held ntasks (.pipe p .read) then
          let ccw := amount choice (cap - (s.pipe p).length)
          if ccw = 0 then none
          else some ({ s with
            buf := Function.update s.buf i ((s.buf i).drop ccw)
            pipe := Function.update s.pipe p (s.pipe p ++ (s.buf i).take ccw) }.goTo i
              (if (s.buf i).drop ccw = [] then .read else .write))
        else some (s.exit i .failed)
      | _ => some (s.exit i .failed)
    | .closeIn =>
      match (s.table i).close 0 with
      | some T => some ({ s with table := Function.update s.table i T }.goTo i .closeOut)
      | none => some (s.exit i .failed)
    | .closeOut =>
      match (s.table i).close 1 with
      | some T => some ({ s with table := Function.update s.table i T }.goTo i .leave)
      | none => some (s.exit i .failed)
    | .leave => some (s.exit i .terminated)
    | .terminated => none
    | .failed => none
  else none

/-- write( fd_out, .. ) of some bytes that the pipe has room for. -/
def Chain.rootWrite (ntasks cap : ℕ) (s : Chain α) (bytes : List α) : Option (Chain α) :=
  match s.root.entry (s.pipes 0 .write) with
  | some (.pipe p .write, _) =>
    if s.todo = [] ∧ s.held ntasks (.pipe p .read) ∧ bytes.length ≤ cap - (s.pipe p).length then
      some { s with pipe := Function.update s.pipe p (s.pipe p ++ bytes), written := s.written ++ bytes }
    else none
  | _ => none

/-- read( fd_in, .. ) of at most so many bytes that are there. -/
def Chain.rootRead (ntasks : ℕ) (s : Chain α) (limit choice : ℕ) : Option (Chain α × List α) :=
  match s.root.entry (s.pipes ntasks .read) with
  | some (.pipe p .read, _) =>
    if s.todo = [] ∧ (s.pipe p ≠ [] ∨ ¬ s.held ntasks (.pipe p .write)) then
      let bytes := (s.pipe p).take (amount choice limit)
      some ({ s with
        pipe := Function.update s.pipe p ((s.pipe p).drop (amount choice limit))
        readBack := s.readBack ++ bytes }, bytes)
    else none
  | _ => none

/-- close( fd_out ) and close( fd_in ) -/
def Chain.rootClose (s : Chain α) (i : ℕ) (side : Side) : Option (Chain α) :=
  if s.todo = [] then (s.root.close (s.pipes i side)).map fun T => { s with root := T } else none

end Steps

/-- A root that, when all is set up, writes and reads what it likes until it closes its descriptors. -/
inductive Event (α : Type) where
  | setup
  | task (i choice : ℕ)
  | write (bytes : List α)
  | read (limit choice : ℕ)
  | closeOut
  | closeIn

def step {α : Type} (ntasks cap : ℕ) (s : Chain α) : Event α → Option (Chain α)
  | .setup => s.setupStep
  | .task i choice => s.taskStep ntasks cap i choice
  | .write bytes => s.rootWrite ntasks cap bytes
  | .read limit choice => (s.rootRead ntasks limit choice).map Prod.fst
  | .closeOut => s.rootClose 0 .write
  | .closeIn => s.rootClose ntasks .read

/-- The root is started with any descriptors. -/
def start (α : Type) (ntasks : ℕ) (T : Table ℕ) : Chain α where
  todo := setup ntasks
  pipes _ _ := 0
  root := T.map .other
  pc _ := .unborn
  table _ := Table.empty
  buf _ := []
  pipe _ := []
  written := []
  readBack := []

def run {α : Type} (ntasks cap : ℕ) (T : Table ℕ) (schedule : List (Event α)) : Chain α :=
  Interleaving.run (step ntasks cap) (start α ntasks T) schedule

end PipTestsuite.HookCoe
