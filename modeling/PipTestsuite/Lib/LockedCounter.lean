import PipTestsuite.Lib.BarrierPhases
import Mathlib.Algebra.Order.BigOperators.Group.Finset

/-! A value that participants change under a lock, among whatever else they do. The programs are lists of
actions, of which a view tells what they do with the lock and the value. -/
namespace LockedCounter
open BarrierProgram (Verdict)

/-- To take the lock, to read the value, to write what was read with a summand added, to give the lock back. -/
inductive Op (G : Type*) where
  | lock
  | load
  | store (g : G)
  | unlock
  deriving DecidableEq

/-- The value, what each participant has read of it, and who holds the lock. -/
structure Cell (ι G : Type*) where
  value : G
  loaded : ι → G
  holder : Option ι

variable {ι G α : Type*}

/-- The lock lets one in while it is free. -/
def perform [Add G] [DecidableEq ι] (i : ι) : Op G → Cell ι G → Cell ι G × Verdict
  | .lock, d => if d.holder = none then ({ d with holder := some i }, .pass) else (d, .again)
  | .load, d => ({ d with loaded := Function.update d.loaded i d.value }, .pass)
  | .store g, d => ({ d with value := d.loaded i + g }, .pass)
  | .unlock, d => ({ d with holder := none }, .pass)

lemma perform_ne_fail [Add G] [DecidableEq ι] (i : ι) (o : Op G) (d : Cell ι G) : (perform i o d).2 ≠ .fail := by
  cases o with
  | lock =>
    simp only [perform]
    split_ifs <;> exact Verdict.noConfusion
  | load | store g | unlock => exact Verdict.noConfusion

lemma perform_ne_again [Add G] [DecidableEq ι] {i : ι} {o : Op G} {d : Cell ι G} (h : o = .lock → d.holder = none) :
    (perform i o d).2 ≠ .again := by
  cases o with
  | lock =>
    rw [perform, if_pos (h rfl)]
    exact Verdict.noConfusion
  | load | store g | unlock => exact Verdict.noConfusion

/-- What an action does to the value and the lock. -/
def act [Add G] [DecidableEq ι] (view : α → Option (Op G)) (i : ι) (a : α) (d : Cell ι G) : Cell ι G × Verdict :=
  match view a with
  | some o => perform i o d
  | none => (d, .pass)

/-- Without the lock, with it, and with it and the value just read. -/
inductive Spot where
  | outside | holding | fresh
  deriving DecidableEq

/-- Where one may do what: the value is accessed with the lock only, and written only just behind a read. -/
inductive Moves : Option (Op G) → Spot → Spot → Prop where
  | other : Moves none .outside .outside
  | lock : Moves (some .lock) .outside .holding
  | load : Moves (some .load) .holding .fresh
  | store (g : G) : Moves (some (.store g)) .fresh .holding
  | unlock : Moves (some .unlock) .holding .outside

section Programs
variable (view : α → Option (Op G))

/-- The actions lead from one spot to the other. -/
def Path : List α → Spot → Spot → Prop
  | [], p, q => p = q
  | a :: l, p, q => ∃ r, Moves (view a) p r ∧ Path l r q

/-- A program that gives back the lock in the end. -/
abbrev Guarded (l : List α) (p : Spot) : Prop := Path view l p .outside

def summand [Zero G] : Option (Op G) → G
  | some (.store g) => g
  | _ => 0

/-- What the actions add to the value on the whole. -/
def effect [AddMonoid G] (l : List α) : G := (l.map fun a => summand (view a)).sum

variable {view}

lemma Path.append {l m : List α} {p q r : Spot} (h : Path view l p q) (hm : Path view m q r) :
    Path view (l ++ m) p r := by
  induction l generalizing p with
  | nil =>
    cases h
    exact hm
  | cons a l ih =>
    obtain ⟨s, hmoves, hrest⟩ := h
    exact ⟨s, hmoves, ih hrest⟩

lemma Path.flatten_replicate {l : List α} {p : Spot} (h : Path view l p p) (n : ℕ) :
    Path view (List.replicate n l).flatten p p := by
  induction n with
  | zero => rfl
  | succ n ih =>
    rw [List.replicate_succ, List.flatten_cons]
    exact h.append ih

/-- Actions that leave lock and value alone. -/
lemma Path.of_other {l : List α} (h : ∀ a ∈ l, view a = none) : Path view l .outside .outside := by
  induction l with
  | nil => rfl
  | cons a l ih =>
    refine ⟨.outside, ?_, ih fun b hb => h b (List.mem_cons_of_mem a hb)⟩
    rw [h a List.mem_cons_self]
    exact .other

variable [AddMonoid G]

@[simp] lemma effect_nil : effect view [] = 0 := rfl

@[simp] lemma effect_cons (a : α) (l : List α) : effect view (a :: l) = summand (view a) + effect view l := rfl

@[simp] lemma effect_append (l m : List α) : effect view (l ++ m) = effect view l + effect view m := by
  simp [effect]

lemma effect_flatten_replicate (l : List α) (n : ℕ) :
    effect view (List.replicate n l).flatten = n • effect view l := by
  induction n with
  | zero => simp
  | succ n ih => rw [List.replicate_succ, List.flatten_cons, effect_append, ih, succ_nsmul']

lemma effect_of_other {l : List α} (h : ∀ a ∈ l, view a = none) : effect view l = 0 := by
  induction l with
  | nil => rfl
  | cons a l ih =>
    rw [effect_cons, h a List.mem_cons_self, ih fun b hb => h b (List.mem_cons_of_mem a hb)]
    exact add_zero 0

end Programs

section Invariant
variable {view : α → Option (Op G)} {d d' : Cell ι G} {i j : ι} {a : α} {l : List α}

/-- A participant stands where its program and the lock have it. -/
def Stands (view : α → Option (Op G)) (d : Cell ι G) (i : ι) (todo : List α) : Prop :=
  ∃ p, Guarded view todo p ∧ (p = .outside ↔ d.holder ≠ some i) ∧ (p = .fresh → d.loaded i = d.value)

/-- Everybody stands where the lock has them, and with what is still to be done the value comes to the total. -/
structure Locked [AddCommMonoid G] [Fintype ι] (view : α → Option (Op G)) (total : G) (d : Cell ι G)
    (todo : ι → List α) : Prop where
  stands : ∀ i, Stands view d i (todo i)
  balance : d.value + ∑ i, effect view (todo i) = total

/-- What a participant that has come to an action of the lock or of the value has to do with the lock. -/
lemma Stands.cons (h : Stands view d i (a :: l)) :
    (view a = none ∧ d.holder ≠ some i ∧ Guarded view l .outside) ∨
    (view a = some .lock ∧ d.holder ≠ some i ∧ Guarded view l .holding) ∨
    (view a = some .load ∧ d.holder = some i ∧ Guarded view l .fresh) ∨
    (∃ g, view a = some (.store g) ∧ d.holder = some i ∧ d.loaded i = d.value ∧ Guarded view l .holding) ∨
    (view a = some .unlock ∧ d.holder = some i ∧ Guarded view l .outside) := by
  obtain ⟨p, ⟨r, hmoves, hrest⟩, hholder, hfresh⟩ := h
  generalize hview : view a = o at hmoves
  cases hmoves with
  | other => exact .inl ⟨rfl, hholder.mp rfl, hrest⟩
  | lock => exact .inr (.inl ⟨rfl, hholder.mp rfl, hrest⟩)
  | load => exact .inr (.inr (.inl ⟨rfl, by simpa using hholder, hrest⟩))
  | store g => exact .inr (.inr (.inr (.inl ⟨g, rfl, by simpa using hholder, hfresh rfl, hrest⟩)))
  | unlock => exact .inr (.inr (.inr (.inr ⟨rfl, by simpa using hholder, hrest⟩)))

lemma Stands.outside (hguard : Guarded view l .outside) (hholder : d.holder ≠ some i) : Stands view d i l :=
  ⟨.outside, hguard, by simpa using hholder, fun h => by cases h⟩

lemma Stands.holding (hguard : Guarded view l .holding) (hholder : d.holder = some i) : Stands view d i l :=
  ⟨.holding, hguard, by simpa using hholder, fun h => by cases h⟩

lemma Stands.fresh (hguard : Guarded view l .fresh) (hholder : d.holder = some i) (hread : d.loaded i = d.value) :
    Stands view d i l :=
  ⟨.fresh, hguard, by simpa using hholder, fun _ => hread⟩

/-- Whoever does not hold the lock is outside. -/
lemma Stands.guarded (h : Stands view d i l) (hholder : d.holder ≠ some i) : Guarded view l .outside := by
  obtain ⟨p, hguard, hp, -⟩ := h
  rwa [hp.mpr hholder] at hguard

/-- Whoever holds the lock has still to give it back. -/
lemma Stands.exists_cons (h : Stands view d i l) (hholder : d.holder = some i) :
    ∃ a m, l = a :: m ∧ view a ≠ some .lock := by
  cases l with
  | nil =>
    obtain ⟨p, hguard, hp, -⟩ := h
    exact absurd hholder (hp.mp hguard)
  | cons a m =>
    refine ⟨a, m, rfl, fun hlock => ?_⟩
    obtain ⟨hview, -⟩ | ⟨-, hne, -⟩ | ⟨hview, -⟩ | ⟨g, hview, -⟩ | ⟨hview, -⟩ := h.cons
    · simp [hlock] at hview
    · exact hne hholder
    · simp [hlock] at hview
    · simp [hlock] at hview
    · simp [hlock] at hview

section Steps
variable [AddCommMonoid G] [Fintype ι] {total : G} {todo : ι → List α}

/-- Nobody holds the lock yet. -/
lemma Locked.of_guarded (hholder : d.holder = none)
    (hguard : ∀ i, Guarded view (todo i) .outside) (hbalance : d.value + ∑ i, effect view (todo i) = total) :
    Locked view total d todo :=
  ⟨fun i => .outside (hguard i) (by simp [hholder]), hbalance⟩

/-- Whoever has come to an action with the lock holds it. -/
lemma Locked.holder_eq (h : Locked view total d todo) (htodo : todo i = a :: l) {o : Op G} (hview : view a = some o)
    (ho : o ≠ .lock) : d.holder = some i := by
  have hi := h.stands i
  rw [htodo] at hi
  obtain ⟨hother, -⟩ | ⟨hlock, -⟩ | ⟨-, hholder, -⟩ | ⟨g, -, hholder, -⟩ | ⟨-, hholder, -⟩ := hi.cons
  · simp [hview] at hother
  · exact absurd (Option.some.inj (hview.symm.trans hlock)) ho
  · exact hholder
  · exact hholder
  · exact hholder

/-- A value is written over the one that was read. -/
lemma Locked.loaded_eq (h : Locked view total d todo) (htodo : todo i = a :: l) {g : G}
    (hview : view a = some (.store g)) : d.loaded i = d.value := by
  have hi := h.stands i
  rw [htodo] at hi
  obtain ⟨hother, -⟩ | ⟨hother, -⟩ | ⟨hother, -⟩ | ⟨g', -, -, hread, -⟩ | ⟨hother, -⟩ := hi.cons
  · simp [hview] at hother
  · simp [hview] at hother
  · simp [hview] at hother
  · exact hread
  · simp [hview] at hother

/-- Whoever waits for the lock waits for somebody who can go on. -/
theorem Locked.progress (h : Locked view total d todo) (htodo : todo i = a :: l) :
    ∃ j b m, todo j = b :: m ∧ (view b = some .lock → d.holder = none) := by
  cases hholder : d.holder with
  | none => exact ⟨i, a, l, htodo, fun _ => rfl⟩
  | some j =>
    obtain ⟨b, m, hj, hb⟩ := (h.stands j).exists_cons hholder
    exact ⟨j, b, m, hj, fun hlock => absurd hlock hb⟩

/-- Whoever waits for another one, without the lock, waits for somebody who can go on. -/
theorem Locked.progress_of_other (h : Locked view total d todo) (htodo : todo i = a :: l) (hother : view a = none)
    (hne : j ≠ i) {b : α} {m : List α} (hj : todo j = b :: m) :
    ∃ k c n, k ≠ i ∧ todo k = c :: n ∧ (view c = some .lock → d.holder = none) := by
  cases hholder : d.holder with
  | none => exact ⟨j, b, m, hne, hj, fun _ => rfl⟩
  | some k =>
    obtain ⟨c, n, hk, hc⟩ := (h.stands k).exists_cons hholder
    refine ⟨k, c, n, ?_, hk, fun hlock => absurd hlock hc⟩
    rintro rfl
    have hi := h.stands k
    rw [htodo] at hi
    obtain ⟨-, hout, -⟩ | ⟨hview, -⟩ | ⟨hview, -⟩ | ⟨g, hview, -⟩ | ⟨hview, -⟩ := hi.cons
    · exact hout hholder
    all_goals cases hother.symm.trans hview

lemma Locked.value_eq (h : Locked view total d todo) (hdone : ∀ i, effect view (todo i) = 0) : d.value = total := by
  rw [← h.balance, Finset.sum_eq_zero fun i _ => hdone i, add_zero]

lemma Locked.value_le [PartialOrder G] [CanonicallyOrderedAdd G] (h : Locked view total d todo) : d.value ≤ total := by
  rw [← h.balance]
  exact le_self_add

variable [DecidableEq ι]

/-- One participant's part of the sum. -/
lemma sum_effect_update (todo : ι → List α) (i : ι) (l : List α) :
    ∑ j, effect view (Function.update todo i l j) =
      effect view l + ∑ j ∈ Finset.univ.erase i, effect view (todo j) := by
  rw [← Finset.add_sum_erase _ _ (Finset.mem_univ i), Function.update_self]
  refine congrArg _ (Finset.sum_congr rfl fun j hj => ?_)
  rw [Function.update_of_ne (Finset.ne_of_mem_erase hj)]

lemma sum_effect (todo : ι → List α) (i : ι) :
    ∑ j, effect view (todo j) = effect view (todo i) + ∑ j ∈ Finset.univ.erase i, effect view (todo j) :=
  (Finset.add_sum_erase _ _ (Finset.mem_univ i)).symm

/-- A participant goes on, and the others do not depend on what it changes. -/
lemma Locked.update (h : Locked view total d todo) (htodo : todo i = a :: l) (hi : Stands view d' i l)
    (hothers : ∀ j ≠ i, Stands view d' j (todo j)) (hvalue : d'.value = d.value + summand (view a)) :
    Locked view total d' (Function.update todo i l) := by
  constructor
  · intro j
    by_cases hj : j = i
    · subst hj
      rwa [Function.update_self]
    · rw [Function.update_of_ne hj]
      exact hothers j hj
  · rw [← h.balance, sum_effect_update, sum_effect todo i, htodo, effect_cons, hvalue]
    simp only [add_assoc]

/-- With the lock no change of the value is lost. -/
theorem Locked.pass (h : Locked view total d todo) (htodo : todo i = a :: l)
    (hact : act view i a d = (d', .pass)) : Locked view total d' (Function.update todo i l) := by
  have hi := h.stands i
  rw [htodo] at hi
  have hothers : d.holder = some i → ∀ j ≠ i, d.holder ≠ some j ∧ Guarded view (todo j) .outside :=
    fun hholder j hj => by
      have hne : d.holder ≠ some j := fun heq => hj (Option.some.inj (heq.symm.trans hholder))
      exact ⟨hne, (h.stands j).guarded hne⟩
  obtain ⟨hview, hne, hguard⟩ | ⟨hview, -, hguard⟩ | ⟨hview, hholder, hguard⟩ | ⟨g, hview, hholder, hread, hguard⟩ |
    ⟨hview, hholder, hguard⟩ := hi.cons
  · simp only [act, hview, Prod.mk.injEq, and_true] at hact
    subst hact
    exact h.update htodo (.outside hguard hne) (fun j _ => h.stands j) (by simp [hview, summand])
  · simp only [act, hview, perform] at hact
    split_ifs at hact with hfree
    · obtain ⟨rfl, -⟩ := Prod.mk.inj hact
      refine h.update htodo (.holding hguard rfl) (fun j hj => ?_) (by simp [hview, summand])
      exact .outside ((h.stands j).guarded (by simp [hfree])) (by simpa using Ne.symm hj)
    · cases (Prod.mk.inj hact).2
  · simp only [act, hview, perform, Prod.mk.injEq, and_true] at hact
    subst hact
    refine h.update htodo (.fresh hguard hholder (by simp)) (fun j hj => ?_) (by simp [hview, summand])
    exact .outside (hothers hholder j hj).2 (hothers hholder j hj).1
  · simp only [act, hview, perform, Prod.mk.injEq, and_true] at hact
    subst hact
    refine h.update htodo (.holding hguard hholder) (fun j hj => ?_) (by simp [hview, summand, hread])
    exact .outside (hothers hholder j hj).2 (hothers hholder j hj).1
  · simp only [act, hview, perform, Prod.mk.injEq, and_true] at hact
    subst hact
    refine h.update htodo (.outside hguard (by simp)) (fun j hj => ?_) (by simp [hview, summand])
    exact .outside (hothers hholder j hj).2 (by simp)

/-- No value beyond the total is ever written. -/
lemma Locked.store_le [PartialOrder G] [CanonicallyOrderedAdd G] (h : Locked view total d todo)
    (htodo : todo i = a :: l) {g : G} (hview : view a = some (.store g)) : d.loaded i + g ≤ total := by
  rw [← h.balance, h.loaded_eq htodo hview, sum_effect todo i, htodo, effect_cons, hview, summand, ← add_assoc,
    ← add_assoc, add_assoc]
  exact le_self_add

end Steps

end Invariant

end LockedCounter
