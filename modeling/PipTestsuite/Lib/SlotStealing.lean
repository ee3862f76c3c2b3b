import Mathlib.Tactic

/-! Tasks that lock and take the slots of each other, until a counter, which is one below the number of the tasks
that go on, tells the last one that it is alone. -/
namespace SlotStealing

/-- What the tasks see of each other: who goes on, the slot that each has locked, the locks and the owners of
the slots, and the counter. -/
structure View where
  going : ℕ → Bool
  holds : ℕ → Option ℕ
  lock : ℕ → Bool
  who : ℕ → ℤ
  count : ℤ

variable {v v' : View} {nt t : ℕ}

/-- The tasks that go on, of nt ones. -/
def View.remaining (v : View) (nt : ℕ) : Finset ℕ := (Finset.range nt).filter fun t => v.going t = true

/-- The counter is one below the number of the tasks that go on. -/
def View.Counts (v : View) (nt : ℕ) : Prop := v.count = (v.remaining nt).card - 1

/-- The counter is right, and a lock is held by a task that goes on. -/
structure View.Kept (v : View) (nt : ℕ) : Prop where
  counts : v.Counts nt
  lock : ∀ n, v.lock n = true → ∃ t < nt, v.holds t = some n ∧ v.going t = true

@[simp] lemma View.mem_remaining : t ∈ v.remaining nt ↔ t < nt ∧ v.going t = true := by
  simp [View.remaining]

/-- A task counts itself out. -/
lemma View.Counts.finish (h : v.Counts nt) (ht : t < nt) (hgoing : v.going t = true) (hself : v'.going t = false)
    (hother : ∀ u ≠ t, v'.going u = v.going u) (hcount : v'.count = v.count - 1) : v'.Counts nt := by
  have herase : v'.remaining nt = (v.remaining nt).erase t := by
    ext u
    rw [Finset.mem_erase, mem_remaining, mem_remaining]
    obtain rfl | hu := eq_or_ne u t
    · simp [hself]
    · simp [hu, hother u hu]
  have hcard := Finset.card_erase_add_one (mem_remaining.mpr ⟨ht, hgoing⟩)
  unfold Counts at h ⊢
  rw [herase, hcount, h]
  omega

end SlotStealing
