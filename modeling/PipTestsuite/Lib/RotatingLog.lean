import Mathlib.Tactic

/-! A log file with one backup generation: appends go to the current file, a rotation moves the
current file, when there is one, over the backup. -/
namespace RotatingLog

/-- The current file and its backup, each absent or the list of its entries. -/
structure Log (α : Type*) where
  current : Option (List α) := none
  backup : Option (List α) := none
  deriving DecidableEq, Repr

variable {α : Type*}

namespace Log

/-- Append an entry, creating the file where needed. -/
def append (l : Log α) (x : α) : Log α := { l with current := some (l.current.getD [] ++ [x]) }

/-- Move the current file over the backup. -/
def rotate (l : Log α) : Log α :=
  match l.current with
  | none => l
  | some xs => ⟨none, some xs⟩

def map {β : Type*} (f : α → β) (l : Log α) : Log β := ⟨l.current.map (List.map f), l.backup.map (List.map f)⟩

/-- The entry is in one of the two files. -/
def Holds (l : Log α) (x : α) : Prop := x ∈ l.current.getD [] ∨ x ∈ l.backup.getD []

end Log

inductive Op (α : Type*) where
  | append (x : α)
  | rotate

def Op.apply (l : Log α) : Op α → Log α
  | append x => l.append x
  | rotate => l.rotate

@[simp] theorem apply_append (l : Log α) (x : α) : Op.apply l (.append x) = l.append x := rfl
@[simp] theorem apply_rotate (l : Log α) : Op.apply l .rotate = l.rotate := rfl

/-- All operations of a list, from left to right. -/
def run (l : Log α) (ops : List (Op α)) : Log α := ops.foldl Op.apply l

@[simp] theorem run_nil (l : Log α) : run l [] = l := rfl
@[simp] theorem run_cons (l : Log α) (op : Op α) (ops : List (Op α)) :
    run l (op :: ops) = run (op.apply l) ops := rfl
@[simp] theorem run_append (l : Log α) (ops ops' : List (Op α)) :
    run l (ops ++ ops') = run (run l ops) ops' := List.foldl_append ..

/-- Some later append is followed by a rotation. -/
def AppendThenRotate : List (Op α) → Prop
  | [] => False
  | .append _ :: ops => Op.rotate ∈ ops
  | .rotate :: ops => AppendThenRotate ops

/-- A rotation, an append after it and a second rotation after that. -/
def TwoGenerations : List (Op α) → Prop
  | [] => False
  | .append _ :: ops => TwoGenerations ops
  | .rotate :: ops => AppendThenRotate ops

lemma appendThenRotate_concat (ops : List (Op α)) (x : α) :
    AppendThenRotate (ops ++ [.append x]) ↔ AppendThenRotate ops := by
  induction ops with
  | nil => simp [AppendThenRotate]
  | cons op ops ih => cases op <;> simp [AppendThenRotate, ih]

/-- A last append pushes nothing out. -/
theorem twoGenerations_concat (ops : List (Op α)) (x : α) :
    TwoGenerations (ops ++ [.append x]) ↔ TwoGenerations ops := by
  induction ops with
  | nil => simp [TwoGenerations]
  | cons op ops ih =>
    cases op with
    | append y => exact ih
    | rotate => exact appendThenRotate_concat ops x

instance Op.decidableIsRotate (op : Op α) : Decidable (op = .rotate) := by
  cases op
  · exact isFalse (by simp)
  · exact isTrue rfl

instance decidableAppendThenRotate : (ops : List (Op α)) → Decidable (AppendThenRotate ops)
  | [] => isFalse id
  | .append _ :: ops => decidable_of_iff (ops.any fun op => decide (op = .rotate)) (by
      simp [AppendThenRotate])
  | .rotate :: ops => decidableAppendThenRotate ops

instance decidableTwoGenerations : (ops : List (Op α)) → Decidable (TwoGenerations ops)
  | [] => isFalse id
  | .append _ :: ops => decidableTwoGenerations ops
  | .rotate :: ops => decidableAppendThenRotate ops

section Entry
variable {x : α}

/-- An entry that nobody appends stays out. -/
lemma not_holds_run (ops : List (Op α)) (hx : Op.append x ∉ ops) (l : Log α) (h : ¬ l.Holds x) :
    ¬ (run l ops).Holds x := by
  induction ops generalizing l with
  | nil => exact h
  | cons op ops ih =>
    rw [List.mem_cons, not_or] at hx
    apply ih hx.2
    cases op with
    | append y =>
      have hxy : x ≠ y := fun e => hx.1 (by rw [e])
      simpa [Log.append, Log.Holds, hxy] using h
    | rotate =>
      cases hc : l.current <;> simp_all [Log.rotate, Log.Holds]

/-- An entry that only the backup has, beside a current file, lives until the next rotation. -/
lemma holds_run_backup_current (ops : List (Op α)) (hx : Op.append x ∉ ops) (l : Log α) (ys : List α)
    (hcur : l.current = some ys) (hys : x ∉ ys) (hbak : x ∈ l.backup.getD []) :
    (run l ops).Holds x ↔ Op.rotate ∉ ops := by
  induction ops generalizing l ys with
  | nil => simp [Log.Holds, hbak]
  | cons op ops ih =>
    rw [List.mem_cons, not_or] at hx
    cases op with
    | append y =>
      have hxy : x ≠ y := fun e => hx.1 (by rw [e])
      rw [run_cons, apply_append, ih hx.2 (l.append y) (ys ++ [y]) (by simp [Log.append, hcur]) (by simp [hys, hxy]) hbak]
      simp
    | rotate =>
      have hlost : ¬ l.rotate.Holds x := by simp [Log.rotate, hcur, Log.Holds, hys]
      simp [not_holds_run ops hx.2 _ hlost]

/-- An entry that only the backup has, with no current file. -/
lemma holds_run_backup (ops : List (Op α)) (hx : Op.append x ∉ ops) (l : Log α)
    (hcur : l.current = none) (hbak : x ∈ l.backup.getD []) :
    (run l ops).Holds x ↔ ¬ AppendThenRotate ops := by
  induction ops with
  | nil => simp [Log.Holds, hbak, AppendThenRotate]
  | cons op ops ih =>
    rw [List.mem_cons, not_or] at hx
    cases op with
    | append y =>
      have hxy : x ≠ y := fun e => hx.1 (by rw [e])
      exact holds_run_backup_current ops hx.2 (l.append y) [y] (by simp [Log.append, hcur])
        (by simp [hxy]) hbak
    | rotate =>
      have hl : Op.apply l .rotate = l := by simp [Log.rotate, hcur]
      rw [run_cons, hl]
      exact ih hx.2

/-- What becomes of an entry of the current file: two generations of later entries push it out. -/
theorem holds_run_iff (ops : List (Op α)) (hx : Op.append x ∉ ops) (l : Log α)
    (hcur : x ∈ l.current.getD []) : (run l ops).Holds x ↔ ¬ TwoGenerations ops := by
  induction ops generalizing l with
  | nil => simp [Log.Holds, hcur, TwoGenerations]
  | cons op ops ih =>
    rw [List.mem_cons, not_or] at hx
    cases op with
    | append y => exact ih hx.2 (l.append y) (by simp [Log.append, hcur])
    | rotate =>
      obtain ⟨xs, hxs⟩ : ∃ xs, l.current = some xs := by
        cases hc : l.current with
        | none => simp [hc] at hcur
        | some xs => exact ⟨xs, rfl⟩
      refine holds_run_backup ops hx.2 l.rotate (by simp [Log.rotate, hxs]) ?_
      simpa [Log.rotate, hxs] using hcur

/-- An entry that is appended in the course of a run, seen at its end. -/
theorem holds_run_append_iff (before after : List (Op α)) (hx : Op.append x ∉ after) (l : Log α) :
    (run l (before ++ .append x :: after)).Holds x ↔ ¬ TwoGenerations after := by
  rw [run_append, run_cons]
  exact holds_run_iff after hx _ (by simp [Log.append])

end Entry

end RotatingLog
