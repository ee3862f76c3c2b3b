import PipTestsuite.Lib.SlotStealing
import PipTestsuite.ReallocX

/-! The three programs of compat/ whose tasks draw slots of each other: none of their loops gets stuck. -/
namespace PipTestsuite.StealingLoops

open SlotStealing (View)

inductive Program where
  | mallocX | memalignX | reallocX
  deriving DecidableEq

/-- What the tasks see of each other in malloc-x.c and memalign-x.c. -/
@[simps] def mallocView (s : MallocX.State) : View where
  going t := s.pc t ≠ .finished
  holds t := (s.pc t).holds
  lock := s.lock
  who := s.who
  count := s.count

@[simps] def reallocView (s : ReallocX.State) : View where
  going t := s.pc t ≠ .finished
  holds t := (s.pc t).holds
  lock := s.lock
  who := s.who
  count := s.count

/-- What is seen after a schedule, and whether a task has returned EXIT_FAIL. -/
def run (program : Program) (nt niters : ℕ) (schedule : List (ℕ × ℕ)) : View × Prop :=
  let malloc program :=
    let s := MallocX.run program nt niters schedule
    (mallocView s, ∃ t < nt, s.pc t = .failed)
  match program with
  | .mallocX => malloc .mallocX
  | .memalignX => malloc .memalignX
  | .reallocX =>
    let s := ReallocX.run nt niters schedule
    (reallocView s, ∃ t < nt, s.pc t = .failed)

section Run
variable {nt niters t choice : ℕ}

end Run

end PipTestsuite.StealingLoops
