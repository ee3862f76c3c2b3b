import PipTestsuite.Lib.Interleaving
import PipTestsuite.Lib.Ledger

/-! compat/malloc-x.c and compat/memalign-x.c: each task again and again draws a slot of another task, frees
the region in it and puts one of its own there. -/
namespace PipTestsuite.MallocX

inductive Program where
  | mallocX | memalignX
  deriving DecidableEq

def MAX : ℕ := 1024 * 1024

def PGSZ : ℕ := 4096

/-- A region that malloc() or posix_memalign() has given to a task; the memory of a region that has been
freed is another region when it is given out again. -/
structure Region where
  task : ℕ
  serial : ℕ
  size : ℕ
  aligned : Bool
  deriving DecidableEq

/-- What a task does next, in iteration i of its loop with the slot n. -/
inductive Pc where
  | share (i : ℕ)
  | firstMalloc
  | firstRegion (r : Region)
  | firstWho
  | barrier
  | inside
  | loop (i : ℕ)
  | countp (i : ℕ)
  | draw (i : ℕ)
  | checkWho (i n : ℕ)
  | trylock (i n : ℕ)
  | size (i n : ℕ)
  | mprobe (i n sz : ℕ)
  | free (i n sz : ℕ)
  | malloc (i n sz : ℕ)
  | region (i n : ℕ) (r : Region)
  | who (i n : ℕ)
  | unlock (i n : ℕ)
  | done
  | finished
  | failed
  deriving DecidableEq

/-- Where each task is, the slots, the variable count, how much of it task 0 has exported, who is inside or
behind the barrier, and the regions that are live, have been freed, and how many there have been. -/
structure State where
  pc : ℕ → Pc
  region : ℕ → Option Region
  who : ℕ → ℤ
  lock : ℕ → Bool
  count : ℤ
  exported : ℕ
  arrived : ℕ → Bool
  live : Finset Region
  freed : Finset Region
  serial : ℕ

def State.goTo (s : State) (t : ℕ) (pc : Pc) : State := { s with pc := Function.update s.pc t pc }

/-- malloc(), or posix_memalign() with the page size, by task t. -/
def allocate (t sz : ℕ) (aligned : Bool) (s : State) : Region × State :=
  let r : Region := ⟨t, s.serial, sz, aligned⟩
  (r, { s with live := insert r s.live, serial := s.serial + 1 })

def State.free (s : State) : Option Region → State
  | some r => { s with live := s.live.erase r, freed := insert r s.freed }
  | none => s

/-- Behind "COUNT" and "SLOTS" there is "BARRIER". -/
def names : ℕ := 3

/-- The next step of task t; choice is what random() returns. -/
def step (program : Program) (nt niters : ℕ) (s : State) : ℕ × ℕ → Option State
  | (t, choice) =>
    if t < nt then
      match s.pc t with
      | .share i =>
        let after := if i + 1 < names then .share (i + 1) else .firstMalloc
        if t = 0 then some ({ s with exported := i + 1 }.goTo t after)
        else if i < s.exported then some (s.goTo t after) else none
      | .firstMalloc =>
        let (r, s) := allocate t 1024 false s
        some (s.goTo t (.firstRegion r))
      | .firstRegion r => some ({ s with region := Function.update s.region t (some r) }.goTo t .firstWho)
      | .firstWho => some ({ s with who := Function.update s.who t t }.goTo t .barrier)
      | .barrier => some ({ s with arrived := Function.update s.arrived t true }.goTo t .inside)
      | .inside => if ∀ u < nt, s.arrived u then some (s.goTo t (.loop 0)) else none
      | .loop i => some (s.goTo t (if i < niters then .countp i else .done))
      | .countp i => some (s.goTo t (if s.count = 0 then .done else .draw i))
      | .draw i => some (s.goTo t (.checkWho i (choice % nt)))
      | .checkWho i n => some (s.goTo t (if s.who n = t then .countp i else .trylock i n))
      | .trylock i n =>
        if s.lock n then some (s.goTo t (.countp i))
        else some ({ s with lock := Function.update s.lock n true }.goTo t (.size i n))
      | .size i n => some (s.goTo t (.mprobe i n (choice % MAX)))
      -- MCHECK_HEAD, MCHECK_TAIL or MCHECK_FREE, when the region is not a live one
      | .mprobe i n sz => some (s.goTo t (if ∃ r ∈ s.live, s.region n = some r then .free i n sz else .failed))
      | .free i n sz => some ((s.free (s.region n)).goTo t (.malloc i n sz))
      | .malloc i n sz =>
        let (r, s) := allocate t sz (program = .memalignX ∧ PGSZ < sz) s
        some (s.goTo t (.region i n r))
      | .region i n r => some ({ s with region := Function.update s.region n (some r) }.goTo t (.who i n))
      | .who i n => some ({ s with who := Function.update s.who n t }.goTo t (.unlock i n))
      | .unlock i n => some ({ s with lock := Function.update s.lock n false }.goTo t (.loop (i + 1)))
      | .done => some ({ s with count := s.count - 1 }.goTo t .finished)
      | .finished => none
      | .failed => none
    else none

/-- Task 0 has set up the slots, and exported nothing. -/
def start (nt : ℕ) : State where
  pc _ := .share 0
  region _ := none
  who _ := -1
  lock _ := false
  count := nt - 1
  exported := 0
  arrived _ := false
  live := ∅
  freed := ∅
  serial := 0

def run (program : Program) (nt niters : ℕ) (schedule : List (ℕ × ℕ)) : State :=
  Interleaving.run (step program nt niters) (start nt) schedule

/-- A task has put its first region into its own slot. -/
def Pc.filled : Pc → Prop
  | .share _ | .firstMalloc | .firstRegion _ | .firstWho => False
  | _ => True

/-- A task is behind the barrier. -/
def Pc.behind : Pc → Prop
  | .share _ | .firstMalloc | .firstRegion _ | .firstWho | .barrier | .inside => False
  | _ => True

/-- The slot that a task has locked. -/
def Pc.holds : Pc → Option ℕ
  | .size _ n | .mprobe _ n _ | .free _ n _ | .malloc _ n _ | .region _ n _ | .who _ n | .unlock _ n => some n
  | _ => none

/-- The slot that only this task may change now: at first its own one, then the one that it has locked. -/
def Pc.touches (t : ℕ) : Pc → Option ℕ
  | .share _ | .firstMalloc | .firstRegion _ | .firstWho => some t
  | pc => pc.holds

/-- A slot holds the region that is accounted to it, which is one of the given task. -/
def State.slotHolds (s : State) (cell : ℕ → Option Region) (n : ℕ) (task : ℤ) : Prop :=
  ∃ r, s.region n = some r ∧ cell n = some r ∧ (r.task : ℤ) = task

/-- What a task knows of the slot that it has drawn. Once it has seen that it is not the owner of the slot it
does not become the owner before its own store to who. -/
def State.knows (s : State) (nt : ℕ) (cell : ℕ → Option Region) (t : ℕ) : Prop :=
  match s.pc t with
  | .share _ | .firstMalloc => cell t = none ∧ s.who t = -1
  | .firstRegion r => cell t = some r ∧ r.task = t ∧ s.who t = -1
  | .firstWho => s.slotHolds cell t t ∧ s.who t = -1
  | .checkWho _ n => n < nt
  | .trylock _ n => n < nt ∧ s.who n ≠ t
  | .size _ n | .mprobe _ n _ | .free _ n _ => s.slotHolds cell n (s.who n) ∧ s.who n ≠ t
  | .malloc _ n _ => cell n = none ∧ s.who n ≠ t
  | .region _ n r => cell n = some r ∧ r.task = t ∧ s.who n ≠ t
  | .who _ n => s.slotHolds cell n t ∧ s.who n ≠ t
  | .unlock _ n => s.slotHolds cell n t ∧ s.who n = t
  | .failed => False
  | _ => True

/-- Each slot is changed by one task at a time, and accounts for one live region. -/
structure Inv (nt : ℕ) (cell : ℕ → Option Region) (s : State) : Prop where
  kept : Ledger.Kept (Finset.range nt) cell s.live s.freed
  serial : ∀ r, r ∈ s.live ∨ r ∈ s.freed → r.serial < s.serial
  lock : ∀ n, s.lock n = true ↔ ∃ t < nt, (s.pc t).holds = some n
  unique : ∀ t < nt, ∀ u < nt, ∀ n, (s.pc t).touches t = some n → (s.pc u).touches u = some n → t = u
  bound : ∀ t < nt, ∀ n, (s.pc t).touches t = some n → n < nt
  knows : ∀ t < nt, s.knows nt cell t
  quiet : ∀ n < nt, (∀ t < nt, (s.pc t).touches t ≠ some n) → s.slotHolds cell n (s.who n)
  whoSet : ∀ n < nt, (s.pc n).filled → 0 ≤ s.who n
  arrived : ∀ t < nt, s.arrived t = true → (s.pc t).filled
  behind : ∀ t < nt, (s.pc t).behind → ∀ u < nt, s.arrived u = true

section Inv
variable {nt t n : ℕ} {cell cell' : ℕ → Option Region} {s s' : State} {pc : Pc}

lemma start_inv : Inv nt (fun _ => none) (start nt) where
  kept := Ledger.kept_empty _
  serial := by simp [start]
  lock := by simp [start, Pc.holds]
  unique := by
    rintro t - u - n ht hu
    exact (Option.some.inj ht).trans (Option.some.inj hu).symm
  bound := by
    rintro t ht n hn
    exact Option.some.inj hn ▸ ht
  knows := by simp [State.knows, start]
  quiet := by
    intro n hn hnone
    exact absurd rfl (hnone n hn)
  whoSet := by simp [start, Pc.filled]
  arrived := by simp [start]
  behind := by simp [start, Pc.behind]

/-- Behind the barrier a task touches only what it has locked. -/
lemma Inv.touches_eq_holds (h : Inv nt cell s) (hbehind : (s.pc t).behind) (ht : t < nt) {u : ℕ} (hu : u < nt) :
    (s.pc u).touches u = (s.pc u).holds := by
  have hfilled := h.arrived u hu (h.behind t ht hbehind u hu)
  cases hpc : s.pc u <;> rw [hpc] at hfilled <;> first | rfl | exact hfilled.elim

/-- What a task knows does not change with a slot that it does not touch, but for the owner of a slot that it
has drawn; this one may be the task of the step, which is another one. -/
lemma State.knows.congr (h : s.knows nt cell t) (hpc : s'.pc t = s.pc t)
    (hslot : ∀ m, (s.pc t).touches t = some m → s'.region m = s.region m ∧ s'.who m = s.who m ∧ cell' m = cell m)
    (hwho : ∀ m, s.who m ≠ t → s'.who m ≠ t) : s'.knows nt cell' t := by
  unfold State.knows at h ⊢
  rw [hpc]
  cases hcase : s.pc t <;> rw [hcase] at h hslot <;> simp only [Pc.touches, Pc.holds] at hslot
  case trylock i n => exact ⟨h.1, hwho n h.2⟩
  case checkWho i n => exact h
  case barrier | inside | loop | countp | draw | done | finished => trivial
  case failed => exact h
  all_goals
    obtain ⟨hregion, hw, hcell⟩ := hslot _ rfl
    simp only [State.slotHolds, hregion, hw, hcell] at h ⊢
    exact h

lemma Pc.touches_of_holds (h : pc.holds = some n) (t : ℕ) : pc.touches t = some n := by
  cases pc <;> first | exact h | cases h

/-- A step of a task that changes no slot. -/
lemma Inv.goTo (h : Inv nt cell s) (hpc : s'.pc = Function.update s.pc t pc)
    (hslots : s'.region = s.region ∧ s'.who = s.who ∧ s'.lock = s.lock)
    (hheap : s'.live = s.live ∧ s'.freed = s.freed ∧ s'.serial = s.serial)
    (harrived : ∀ u, s'.arrived u = true ↔ s.arrived u = true ∨ u = t ∧ (s.pc t = .barrier))
    (htouches : pc.touches t = (s.pc t).touches t) (hholds : pc.holds = (s.pc t).holds)
    (hfilled : pc.filled ↔ (s.pc t).filled)
    (hbehind : pc.behind → (s.pc t).behind ∨ ∀ u < nt, s.arrived u = true) (hknows : s'.knows nt cell t) :
    Inv nt cell s' := by
  obtain ⟨hregion, hwho, hlock⟩ := hslots
  obtain ⟨hlive, hfreed, hserial⟩ := hheap
  have hself : s'.pc t = pc := by simp [hpc]
  have hother : ∀ u ≠ t, s'.pc u = s.pc u := fun u hu => by simp [hpc, hu]
  have htouches' : ∀ u, (s'.pc u).touches u = (s.pc u).touches u := by
    intro u
    obtain rfl | hu := eq_or_ne u t
    · rw [hself, htouches]
    · rw [hother u hu]
  have hholds' : ∀ u, (s'.pc u).holds = (s.pc u).holds := by
    intro u
    obtain rfl | hu := eq_or_ne u t
    · rw [hself, hholds]
    · rw [hother u hu]
  have hfilled' : ∀ u, (s'.pc u).filled ↔ (s.pc u).filled := by
    intro u
    obtain rfl | hu := eq_or_ne u t
    · rw [hself, hfilled]
    · rw [hother u hu]
  constructor
  · rw [hlive, hfreed]
    exact h.kept
  · rw [hlive, hfreed, hserial]
    exact h.serial
  · intro n
    simp only [hlock, hholds']
    exact h.lock n
  · intro u hu v hv n
    rw [htouches', htouches']
    exact h.unique u hu v hv n
  · intro u hu n
    rw [htouches']
    exact h.bound u hu n
  · intro u hu
    obtain rfl | hne := eq_or_ne u t
    · exact hknows
    · refine (h.knows u hu).congr (hother u hne) (fun m _ => ?_) (fun m => by rw [hwho]; exact id)
      exact ⟨by rw [hregion], by rw [hwho], rfl⟩
  · intro n hn hnone
    simp only [State.slotHolds, hregion, hwho]
    exact h.quiet n hn fun u hu => htouches' u ▸ hnone u hu
  · intro n hn
    rw [hfilled', hwho]
    exact h.whoSet n hn
  · intro u hu harr
    rw [hfilled']
    obtain harr | ⟨rfl, hbarrier⟩ := (harrived u).mp harr
    · exact h.arrived u hu harr
    · rw [hbarrier]
      trivial
  · intro u hu hub v hv
    refine (harrived v).mpr (.inl ?_)
    obtain rfl | hne := eq_or_ne u t
    · rw [hself] at hub
      obtain hub | hall := hbehind hub
      · exact h.behind u hu hub v hv
      · exact hall v hv
    · rw [hother u hne] at hub
      exact h.behind u hu hub v hv

/-- A step of a task that changes a slot, which nobody else touches. -/
lemma Inv.changes (h : Inv nt cell s) (ht : t < nt) (hn : n < nt) (hpc : s'.pc = Function.update s.pc t pc)
    (harrived : s'.arrived = s.arrived)
    (hslot : ∀ m ≠ n, s'.region m = s.region m ∧ s'.who m = s.who m ∧ s'.lock m = s.lock m ∧ cell' m = cell m)
    (hwho : s'.who n = s.who n ∨ s'.who n = t) (hlock : s'.lock n = true ↔ pc.holds = some n)
    (hfree : ∀ u < nt, u ≠ t → (s.pc u).touches u ≠ some n)
    (hbefore : (s.pc t).touches t = some n ∨ (s.pc t).touches t = none)
    (hafter : pc.touches t = some n ∨ pc.touches t = none) (hfilled : (s.pc t).filled → pc.filled)
    (hbehind : pc.behind → (s.pc t).behind)
    (hkept : Ledger.Kept (Finset.range nt) cell' s'.live s'.freed)
    (hserial : ∀ r, r ∈ s'.live ∨ r ∈ s'.freed → r.serial < s'.serial) (hknows : s'.knows nt cell' t)
    (hquiet : pc.touches t = none → s'.slotHolds cell' n (s'.who n)) (hset : pc.filled → 0 ≤ s'.who t) :
    Inv nt cell' s' := by
  have hself : s'.pc t = pc := by simp [hpc]
  have hother : ∀ u ≠ t, s'.pc u = s.pc u := fun u hu => by simp [hpc, hu]
  -- another slot is touched after the step by those who touched it before
  have htouches : ∀ u, ∀ m ≠ n, (s'.pc u).touches u = some m ↔ (s.pc u).touches u = some m := by
    intro u m hm
    obtain rfl | hu := eq_or_ne u t
    · rw [hself]
      obtain hb | hb := hbefore <;> obtain ha | ha := hafter <;> simp [hb, ha, hm.symm]
    · rw [hother u hu]
  have hholds : ∀ u, ∀ m ≠ n, (s'.pc u).holds = some m ↔ (s.pc u).holds = some m := by
    intro u m hm
    obtain rfl | hu := eq_or_ne u t
    · rw [hself]
      constructor
      · intro hold
        obtain ha | ha := hafter <;> simp [Pc.touches_of_holds hold] at ha
        exact absurd ha hm
      · intro hold
        obtain hb | hb := hbefore <;> simp [Pc.touches_of_holds hold] at hb
        exact absurd hb hm
    · rw [hother u hu]
  have honly : ∀ u < nt, (s'.pc u).touches u = some n → u = t := by
    intro u hu htouch
    by_contra hne
    rw [hother u hne] at htouch
    exact hfree u hu hne htouch
  constructor
  · exact hkept
  · exact hserial
  · intro m
    obtain rfl | hm := eq_or_ne m n
    · rw [hlock]
      constructor
      · exact fun hold => ⟨t, ht, by rw [hself, hold]⟩
      · rintro ⟨u, hu, hold⟩
        obtain rfl := honly u hu (Pc.touches_of_holds hold u)
        rwa [hself] at hold
    · rw [(hslot m hm).2.2.1, h.lock]
      simp only [hholds _ m hm]
  · intro u hu v hv m hum hvm
    obtain rfl | hm := eq_or_ne m n
    · exact (honly u hu hum).trans (honly v hv hvm).symm
    · exact h.unique u hu v hv m ((htouches u m hm).mp hum) ((htouches v m hm).mp hvm)
  · intro u hu m hum
    obtain rfl | hm := eq_or_ne m n
    · exact hn
    · exact h.bound u hu m ((htouches u m hm).mp hum)
  · intro u hu
    obtain rfl | hne := eq_or_ne u t
    · exact hknows
    · refine (h.knows u hu).congr (hother u hne) (fun m hm => ?_) (fun m hm => ?_)
      · obtain ⟨h1, h2, -, h4⟩ := hslot m fun heq => hfree u hu hne (heq ▸ hm)
        exact ⟨h1, h2, h4⟩
      · obtain rfl | hmn := eq_or_ne m n
        · obtain hw | hw := hwho
          · rwa [hw]
          · rw [hw]
            exact_mod_cast hne.symm
        · rwa [(hslot m hmn).2.1]
  · intro m hm hnone
    obtain rfl | hmn := eq_or_ne m n
    · apply hquiet
      obtain ha | ha := hafter
      · exact absurd (hself ▸ ha) (hnone t ht)
      · exact ha
    · obtain ⟨h1, h2, -, h4⟩ := hslot m hmn
      simp only [State.slotHolds, h1, h2, h4]
      exact h.quiet m hm fun u hu htouch => hnone u hu ((htouches u m hmn).mpr htouch)
  · intro u hu hfill
    obtain rfl | hne := eq_or_ne u t
    · exact hset (hself ▸ hfill)
    · rw [hother u hne] at hfill
      obtain rfl | hun := eq_or_ne u n
      · obtain hw | hw := hwho
        · rw [hw]
          exact h.whoSet u hu hfill
        · rw [hw]
          exact Int.natCast_nonneg t
      · rw [(hslot u hun).2.1]
        exact h.whoSet u hu hfill
  · intro u hu harr
    rw [harrived] at harr
    obtain rfl | hne := eq_or_ne u t
    · rw [hself]
      exact hfilled (h.arrived u hu harr)
    · rw [hother u hne]
      exact h.arrived u hu harr
  · intro u hu hub v hv
    rw [harrived]
    obtain rfl | hne := eq_or_ne u t
    · rw [hself] at hub
      exact h.behind u hu (hbehind hub) v hv
    · rw [hother u hne] at hub
      exact h.behind u hu hub v hv

/-- A slot that a task touches is not touched by another one. -/
lemma Inv.alone (h : Inv nt cell s) (ht : t < nt) (htouch : (s.pc t).touches t = some n) :
    n < nt ∧ ∀ u < nt, u ≠ t → (s.pc u).touches u ≠ some n :=
  ⟨h.bound t ht n htouch, fun u hu hne hun => hne (h.unique u hu t ht n hun htouch)⟩

lemma Inv.lock_iff (h : Inv nt cell s) (ht : t < nt) (htouch : (s.pc t).touches t = some n) :
    s.lock n = true ↔ (s.pc t).holds = some n := by
  rw [h.lock]
  constructor
  · rintro ⟨u, hu, hold⟩
    obtain rfl := h.unique u hu t ht n (Pc.touches_of_holds hold u) htouch
    exact hold
  · exact fun hold => ⟨t, ht, hold⟩

/-- A task puts a new region into the account of the slot that it touches. -/
lemma Inv.malloc (h : Inv nt cell s) (ht : t < nt) (htouch : (s.pc t).touches t = some n) (hcell : cell n = none)
    (sz : ℕ) (aligned : Bool) (htouch' : pc.touches t = some n) (hholds : pc.holds = (s.pc t).holds)
    (hfilled : pc.filled ↔ (s.pc t).filled) (hbehind : pc.behind → (s.pc t).behind)
    (hs' : s' = (allocate t sz aligned s).2.goTo t pc)
    (hknows : s'.knows nt (Function.update cell n (some (allocate t sz aligned s).1)) t) :
    Inv nt (Function.update cell n (some (allocate t sz aligned s).1)) s' := by
  obtain ⟨hn, halone⟩ := h.alone ht htouch
  have hfresh : ∀ r, r ∈ s.live ∨ r ∈ s.freed → r ≠ (allocate t sz aligned s).1 := by
    rintro r hr rfl
    exact lt_irrefl _ (h.serial _ hr)
  subst hs'
  refine h.changes ht hn rfl rfl (fun m hm => ⟨rfl, rfl, rfl, by simp [hm]⟩) (.inl rfl) ?_ halone (.inl htouch)
    (.inl htouch') hfilled.mpr hbehind ?_ ?_ hknows (by simp [htouch']) fun hf => h.whoSet t ht (hfilled.mp hf)
  · rw [hholds]
    exact h.lock_iff ht htouch
  · exact h.kept.allocate (Finset.mem_range.mpr hn) hcell (fun hr => hfresh _ (.inl hr) rfl)
      fun hr => hfresh _ (.inr hr) rfl
  · intro r hr
    have hlt : r = (allocate t sz aligned s).1 ∨ r.serial < s.serial := by
      obtain hr | hr := hr
      · exact (Finset.mem_insert.mp hr).imp id fun hr => h.serial r (.inl hr)
      · exact .inr (h.serial r (.inr hr))
    obtain rfl | hlt := hlt
    · exact Nat.lt_succ_self _
    · exact Nat.lt_succ_of_lt hlt

/-- A task stores to the slot that it touches, before and after. -/
lemma Inv.store (h : Inv nt cell s) (ht : t < nt) (htouch : (s.pc t).touches t = some n)
    (hpc : s'.pc = Function.update s.pc t pc)
    (hregion : ∀ m ≠ n, s'.region m = s.region m) (hother : ∀ m ≠ n, s'.who m = s.who m)
    (hwho : s'.who n = s.who n ∨ s'.who n = t) (hsame : s'.lock = s.lock ∧ s'.arrived = s.arrived)
    (hheap : s'.live = s.live ∧ s'.freed = s.freed ∧ s'.serial = s.serial) (htouch' : pc.touches t = some n)
    (hholds : pc.holds = (s.pc t).holds) (hfilled : pc.filled ↔ (s.pc t).filled)
    (hbehind : pc.behind → (s.pc t).behind) (hknows : s'.knows nt cell t) : Inv nt cell s' := by
  obtain ⟨hn, halone⟩ := h.alone ht htouch
  obtain ⟨hlive, hfreed, hserial⟩ := hheap
  refine h.changes ht hn hpc hsame.2 (fun m hm => ⟨hregion m hm, hother m hm, by rw [hsame.1], rfl⟩) hwho ?_
    halone (.inl htouch) (.inl htouch') hfilled.mpr hbehind ?_ ?_ hknows (by simp [htouch']) ?_
  · rw [hsame.1, hholds]
    exact h.lock_iff ht htouch
  · rw [hlive, hfreed]
    exact h.kept
  · rw [hlive, hfreed, hserial]
    exact h.serial
  · intro hf
    have hset := h.whoSet t ht (hfilled.mp hf)
    obtain rfl | hne := eq_or_ne t n
    · obtain hw | hw := hwho <;> rw [hw]
      · exact hset
      · exact Int.natCast_nonneg t
    · rwa [hother t hne]

/-- What one step keeps. -/
theorem step_inv {program : Program} {niters choice : ℕ} (h : Inv nt cell s)
    (hstep : step program nt niters s (t, choice) = some s') : ∃ cell', Inv nt cell' s' := by
  unfold step at hstep
  by_cases ht : t < nt
  swap
  · simp [ht] at hstep
  simp only [ht, if_true] at hstep
  have hknows := h.knows t ht
  unfold State.knows at hknows
  cases hpc : s.pc t with
  | share i =>
    rw [hpc] at hknows
    simp only [hpc] at hstep
    obtain ⟨after, hafter, hcase⟩ : ∃ after, (if i + 1 < names then Pc.share (i + 1) else .firstMalloc) = after ∧
        (after = .share (i + 1) ∨ after = .firstMalloc) := by
      refine ⟨_, rfl, ?_⟩
      split_ifs <;> simp
    rw [hafter] at hstep
    refine ⟨cell, ?_⟩
    split_ifs at hstep
    all_goals
      obtain rfl := Option.some.inj hstep
      obtain rfl | rfl := hcase <;>
        refine h.goTo rfl ⟨rfl, rfl, rfl⟩ ⟨rfl, rfl, rfl⟩ ?_ ?_ ?_ ?_ ?_ ?_ <;>
        simp [hpc, Pc.touches, Pc.holds, Pc.filled, Pc.behind, State.goTo, State.knows, hknows]
  | firstMalloc =>
    rw [hpc] at hknows
    simp only [hpc, Option.some.injEq] at hstep
    refine ⟨_, h.malloc ht (by rw [hpc]; rfl) hknows.1 1024 false rfl (by rw [hpc]; rfl) (by rw [hpc]; rfl)
      (by rw [hpc]; exact id) hstep.symm ?_⟩
    simpa [← hstep, State.knows, State.goTo, allocate] using hknows.2
  | firstRegion r =>
    rw [hpc] at hknows
    obtain ⟨hcell, htask, hwho⟩ := hknows
    simp only [hpc, Option.some.injEq] at hstep
    subst hstep
    refine ⟨cell, h.store (n := t) ht (by rw [hpc]; rfl) rfl (fun m hm => ?_) (fun _ _ => rfl) (.inl rfl) ⟨rfl, rfl⟩
      ⟨rfl, rfl, rfl⟩ ?_ ?_ ?_ ?_ ?_⟩
    all_goals simp [Pc.touches, Pc.holds, Pc.filled, Pc.behind, State.goTo, State.knows, State.slotHolds, *]
  | firstWho =>
    rw [hpc] at hknows
    obtain ⟨hslot, hwho⟩ := hknows
    simp only [hpc, Option.some.injEq] at hstep
    subst hstep
    have htouch : (s.pc t).touches t = some t := by rw [hpc]; rfl
    obtain ⟨hn, halone⟩ := h.alone ht htouch
    refine ⟨cell, h.changes ht ht rfl rfl (fun m hm => ?_) (.inr ?_) ?_ halone (.inl htouch) (.inr rfl)
      (fun _ => trivial) (fun hb => hb.elim) h.kept h.serial ?_ (fun _ => ?_) (fun _ => ?_)⟩
    · simp [State.goTo, hm]
    · simp [State.goTo]
    · have hlock := h.lock_iff ht htouch
      rw [hpc] at hlock
      exact hlock
    · simp [State.knows, State.goTo]
    · simpa [State.slotHolds, State.goTo] using hslot
    · simp [State.goTo]
  | barrier =>
    simp only [hpc, Option.some.injEq] at hstep
    subst hstep
    refine ⟨cell, h.goTo rfl ⟨rfl, rfl, rfl⟩ ⟨rfl, rfl, rfl⟩ (fun u => ?_) ?_ ?_ ?_ ?_ ?_⟩
    · obtain rfl | hu := eq_or_ne u t <;> simp [State.goTo, *]
    all_goals simp [hpc, Pc.touches, Pc.holds, Pc.filled, Pc.behind, State.goTo, State.knows]
  | inside =>
    simp only [hpc] at hstep
    split_ifs at hstep with hall
    obtain rfl := Option.some.inj hstep
    refine ⟨cell, h.goTo rfl ⟨rfl, rfl, rfl⟩ ⟨rfl, rfl, rfl⟩ ?_ ?_ ?_ ?_ (fun _ => .inr hall) ?_⟩
    all_goals simp [hpc, Pc.touches, Pc.holds, Pc.filled, State.goTo, State.knows]
  | loop i =>
    simp only [hpc, Option.some.injEq] at hstep
    subst hstep
    refine ⟨cell, ?_⟩
    split_ifs <;> refine h.goTo rfl ⟨rfl, rfl, rfl⟩ ⟨rfl, rfl, rfl⟩ ?_ ?_ ?_ ?_ ?_ ?_ <;>
      simp [hpc, Pc.touches, Pc.holds, Pc.filled, Pc.behind, State.goTo, State.knows]
  | countp i =>
    simp only [hpc, Option.some.injEq] at hstep
    subst hstep
    refine ⟨cell, ?_⟩
    split_ifs <;> refine h.goTo rfl ⟨rfl, rfl, rfl⟩ ⟨rfl, rfl, rfl⟩ ?_ ?_ ?_ ?_ ?_ ?_ <;>
      simp [hpc, Pc.touches, Pc.holds, Pc.filled, Pc.behind, State.goTo, State.knows]
  | draw i =>
    simp only [hpc, Option.some.injEq] at hstep
    subst hstep
    refine ⟨cell, h.goTo rfl ⟨rfl, rfl, rfl⟩ ⟨rfl, rfl, rfl⟩ ?_ ?_ ?_ ?_ ?_ ?_⟩
    all_goals simp [hpc, Pc.touches, Pc.holds, Pc.filled, Pc.behind, State.goTo, State.knows]
    exact Nat.mod_lt _ (by omega)
  | checkWho i n =>
    rw [hpc] at hknows
    have hn : n < nt := hknows
    simp only [hpc, Option.some.injEq] at hstep
    subst hstep
    refine ⟨cell, ?_⟩
    split_ifs with hwho <;> refine h.goTo rfl ⟨rfl, rfl, rfl⟩ ⟨rfl, rfl, rfl⟩ ?_ ?_ ?_ ?_ ?_ ?_ <;>
      simp [hpc, Pc.touches, Pc.holds, Pc.filled, Pc.behind, State.goTo, State.knows, hn, hwho]
  | trylock i n =>
    rw [hpc] at hknows
    obtain ⟨hn, hwho⟩ := hknows
    simp only [hpc] at hstep
    split_ifs at hstep with hlock
    · obtain rfl := Option.some.inj hstep
      refine ⟨cell, h.goTo rfl ⟨rfl, rfl, rfl⟩ ⟨rfl, rfl, rfl⟩ ?_ ?_ ?_ ?_ ?_ ?_⟩
      all_goals simp [hpc, Pc.touches, Pc.holds, Pc.filled, Pc.behind, State.goTo, State.knows]
    · obtain rfl := Option.some.inj hstep
      have hbehind : (s.pc t).behind := by rw [hpc]; trivial
      -- all have filled their own slots, so nobody without its lock touches a slot
      have hnone : ∀ u < nt, (s.pc u).touches u ≠ some n := by
        intro u hu htouch
        rw [h.touches_eq_holds hbehind ht hu] at htouch
        exact hlock ((h.lock n).mpr ⟨u, hu, htouch⟩)
      refine ⟨cell, h.changes ht hn rfl rfl (fun m hm => ?_) (.inl rfl) ?_ (fun u hu _ => hnone u hu) (.inr ?_) (.inl rfl)
        (fun _ => trivial) (fun _ => hbehind) h.kept h.serial ?_ ?_ (fun _ => h.whoSet t ht ?_)⟩
      · simp [State.goTo, hm]
      · simp [State.goTo, Pc.holds]
      · rw [hpc]
        rfl
      · have hslot := h.quiet n hn hnone
        simpa [State.knows, State.goTo, State.slotHolds, hwho] using hslot
      · simp [Pc.touches, Pc.holds]
      · rw [hpc]
        trivial
  | size i n =>
    rw [hpc] at hknows
    simp only [hpc, Option.some.injEq] at hstep
    subst hstep
    refine ⟨cell, h.goTo rfl ⟨rfl, rfl, rfl⟩ ⟨rfl, rfl, rfl⟩ ?_ ?_ ?_ ?_ ?_ ?_⟩
    all_goals simp [hpc, Pc.touches, Pc.holds, Pc.filled, Pc.behind, State.goTo, State.knows]
    exact hknows
  | mprobe i n sz =>
    rw [hpc] at hknows
    obtain ⟨⟨r, hregion, hcell, htask⟩, hwho⟩ := hknows
    obtain ⟨hn, -⟩ := h.alone ht (n := n) (by rw [hpc]; rfl)
    have hlive : ∃ r ∈ s.live, s.region n = some r :=
      ⟨r, (h.kept.mem_live r).mpr ⟨n, Finset.mem_range.mpr hn, hcell⟩, hregion⟩
    simp only [hpc, if_pos hlive, Option.some.injEq] at hstep
    subst hstep
    refine ⟨cell, h.goTo rfl ⟨rfl, rfl, rfl⟩ ⟨rfl, rfl, rfl⟩ ?_ ?_ ?_ ?_ ?_ ?_⟩
    all_goals simp [Pc.touches, Pc.holds, Pc.filled, Pc.behind, State.goTo, State.knows, State.slotHolds, *]
  | free i n sz =>
    rw [hpc] at hknows
    obtain ⟨⟨r, hregion, hcell, htask⟩, hwho⟩ := hknows
    have htouch : (s.pc t).touches t = some n := by rw [hpc]; rfl
    obtain ⟨hn, halone⟩ := h.alone ht htouch
    simp only [hpc, hregion, Option.some.injEq] at hstep
    subst hstep
    refine ⟨Function.update cell n none, h.changes ht hn rfl rfl (fun m hm => ⟨rfl, rfl, rfl, by simp [hm]⟩) (.inl rfl)
      ?_ halone (.inl htouch) (.inl rfl) (fun _ => trivial) (fun _ => by rw [hpc]; trivial)
      (h.kept.free (Finset.mem_range.mpr hn) hcell) ?_ ?_ ?_ fun _ => h.whoSet t ht (by rw [hpc]; trivial)⟩
    · have hlock := h.lock_iff ht htouch
      rw [hpc] at hlock
      exact hlock
    · intro r' hr'
      have hr : r' ∈ s.live ∨ r' ∈ s.freed := by
        obtain hr' | hr' := hr'
        · exact .inl (Finset.mem_of_mem_erase hr')
        · obtain rfl | hr' := Finset.mem_insert.mp hr'
          · exact .inl ((h.kept.mem_live r').mpr ⟨n, Finset.mem_range.mpr hn, hcell⟩)
          · exact .inr hr'
      exact h.serial r' hr
    · simpa [State.knows, State.goTo, State.free] using hwho
    · simp [Pc.touches, Pc.holds]
  | malloc i n sz =>
    rw [hpc] at hknows
    simp only [hpc, Option.some.injEq] at hstep
    refine ⟨_, h.malloc ht (by rw [hpc]; rfl) hknows.1 sz _ rfl (by rw [hpc]; rfl) (by rw [hpc]; rfl)
      (by rw [hpc]; exact id) hstep.symm ?_⟩
    simpa [← hstep, State.knows, State.goTo, allocate] using hknows.2
  | region i n r =>
    rw [hpc] at hknows
    obtain ⟨hcell, htask, hwho⟩ := hknows
    simp only [hpc, Option.some.injEq] at hstep
    subst hstep
    refine ⟨cell, h.store (n := n) ht (by rw [hpc]; rfl) rfl (fun m hm => ?_) (fun _ _ => rfl) (.inl rfl) ⟨rfl, rfl⟩
      ⟨rfl, rfl, rfl⟩ ?_ ?_ ?_ ?_ ?_⟩
    all_goals simp [Pc.touches, Pc.holds, Pc.filled, Pc.behind, State.goTo, State.knows, State.slotHolds, *]
  | who i n =>
    rw [hpc] at hknows
    obtain ⟨⟨r, hregion, hcell, htask⟩, hwho⟩ := hknows
    obtain rfl : r.task = t := by exact_mod_cast htask
    simp only [hpc, Option.some.injEq] at hstep
    subst hstep
    refine ⟨cell, h.store (n := n) ht (by rw [hpc]; rfl) rfl (fun _ _ => rfl) (fun m hm => ?_) (.inr ?_) ⟨rfl, rfl⟩
      ⟨rfl, rfl, rfl⟩ ?_ ?_ ?_ ?_ ?_⟩
    all_goals simp [Pc.touches, Pc.holds, Pc.filled, Pc.behind, State.goTo, State.knows, State.slotHolds, *]
  | unlock i n =>
    rw [hpc] at hknows
    obtain ⟨hslot, hwho⟩ := hknows
    simp only [hpc, Option.some.injEq] at hstep
    subst hstep
    have htouch : (s.pc t).touches t = some n := by rw [hpc]; rfl
    obtain ⟨hn, halone⟩ := h.alone ht htouch
    refine ⟨cell, h.changes ht hn rfl rfl (fun m hm => ?_) (.inl rfl) ?_ halone (.inl htouch) (.inr rfl)
      (fun _ => trivial) (fun _ => by rw [hpc]; trivial) h.kept h.serial ?_ (fun _ => ?_)
      fun _ => h.whoSet t ht (by rw [hpc]; trivial)⟩
    · simp [State.goTo, hm]
    · simp [State.goTo, Pc.holds]
    · simp [State.knows, State.goTo]
    · rw [← hwho] at hslot
      exact hslot
  | done =>
    simp only [hpc, Option.some.injEq] at hstep
    subst hstep
    refine ⟨cell, h.goTo rfl ⟨rfl, rfl, rfl⟩ ⟨rfl, rfl, rfl⟩ ?_ ?_ ?_ ?_ ?_ ?_⟩
    all_goals simp [hpc, Pc.touches, Pc.holds, Pc.filled, Pc.behind, State.goTo, State.knows]
  | finished => simp [hpc] at hstep
  | failed => simp [hpc] at hstep

theorem run_inv (program : Program) (nt niters : ℕ) (schedule : List (ℕ × ℕ)) :
    ∃ cell, Inv nt cell (run program nt niters schedule) := by
  apply Interleaving.run_inv (P := fun s => ∃ cell, Inv nt cell s)
  · exact ⟨_, start_inv⟩
  · rintro s ⟨t, choice⟩ s' ⟨cell, h⟩ hstep
    exact step_inv h hstep

end Inv

/-- The slot holds a live region of its owner. -/
def State.owned (s : State) (n : ℕ) : Prop := ∃ r ∈ s.live, s.region n = some r ∧ (r.task : ℤ) = s.who n

/-- free() gets a live region of another task, for the first time; a slot that is not locked holds a live
region of its owner, once it has one, which all have behind the barrier; and in the end there are nt regions. -/
structure HandedOver (nt : ℕ) (s : State) : Prop where
  free : ∀ t < nt, ∀ i n sz, s.pc t = .free i n sz →
    s.lock n = true ∧ ∃ r ∈ s.live, s.region n = some r ∧ r.task ≠ t ∧ r ∉ s.freed
  slots : ∀ n < nt, s.lock n = false → s.who n ≠ -1 → s.owned n
  filled : ∀ t < nt, (s.pc t).behind → ∀ n < nt, s.who n ≠ -1
  final : (∀ t < nt, s.pc t = .finished) → s.live.card = nt
  ok : ∀ t < nt, s.pc t ≠ .failed

/-- Every interleaving and all draws, in both programs. -/
theorem regions_handed_over (program : Program) (nt niters : ℕ) (schedule : List (ℕ × ℕ)) :
    HandedOver nt (run program nt niters schedule) := by
  obtain ⟨cell, h⟩ := run_inv program nt niters schedule
  generalize run program nt niters schedule = s at h ⊢
  have hlive : ∀ n < nt, ∀ r, cell n = some r → r ∈ s.live :=
    fun n hn r hr => (h.kept.mem_live r).mpr ⟨n, Finset.mem_range.mpr hn, hr⟩
  -- behind its first store a slot is in use, and held by one task or by none
  have hunfilled : ∀ n < nt, ¬ (s.pc n).filled → s.who n = -1 := by
    intro n hn hfilled
    have hknows := h.knows n hn
    unfold State.knows at hknows
    cases hpc : s.pc n <;> rw [hpc] at hknows hfilled <;> first | exact absurd trivial hfilled | skip
    case firstRegion r => exact hknows.2.2
    all_goals exact hknows.2
  constructor
  · intro t ht i n sz hpc
    have hknows := h.knows t ht
    rw [State.knows, hpc] at hknows
    obtain ⟨⟨r, hregion, hcell, htask⟩, hwho⟩ := hknows
    obtain ⟨hn, -⟩ := h.alone ht (n := n) (by rw [hpc]; rfl)
    refine ⟨(h.lock n).mpr ⟨t, ht, by rw [hpc]; rfl⟩, r, hlive n hn r hcell, hregion, ?_, ?_⟩
    · rintro rfl
      exact hwho htask.symm
    · exact fun hfreed => h.kept.not_live r hfreed (hlive n hn r hcell)
  · intro n hn hlock hwho
    have hnone : ∀ t < nt, (s.pc t).touches t ≠ some n := by
      intro t ht htouch
      have hfree : (s.pc t).holds ≠ some n := by
        rw [Ne, ← h.lock_iff ht htouch, hlock]
        exact Bool.false_ne_true
      have hfilled : (s.pc t).filled := by
        by_contra hnot
        have htn : n = t := by
          cases hpc : s.pc t <;> rw [hpc] at hnot htouch <;>
            first | exact absurd trivial hnot | exact (Option.some.inj htouch).symm
        exact hwho (htn ▸ hunfilled t ht hnot)
      cases hpc : s.pc t <;> rw [hpc] at hfilled htouch hfree <;> first | exact hfree htouch | exact hfilled
    obtain ⟨r, hregion, hcell, htask⟩ := h.quiet n hn hnone
    exact ⟨r, hlive n hn r hcell, hregion, htask⟩
  · intro t ht hbehind n hn hwho
    have hset := h.whoSet n hn (h.arrived n hn (h.behind t ht hbehind n hn))
    omega
  · intro hall
    rw [h.kept.card_live, Finset.card_range]
    intro n hn
    obtain ⟨r, -, hcell, -⟩ := h.quiet n (Finset.mem_range.mp hn) fun t ht => by
      rw [hall t ht]
      simp [Pc.touches, Pc.holds]
    exact ⟨r, hcell⟩
  · intro t ht hpc
    have hknows := h.knows t ht
    rw [State.knows, hpc] at hknows
    exact hknows

/-- Before the first stores no lock is held and the slots hold nothing. -/
theorem not_owned_at_start : ¬ ((∀ n < 1, (run .mallocX 1 1 []).lock n = false) →
    ∀ n < 1, (run .mallocX 1 1 []).owned n) := by
  intro h
  obtain ⟨r, hlive, -⟩ := h (fun _ _ => rfl) 0 (by decide)
  simp [run, Interleaving.run, start] at hlive

end PipTestsuite.MallocX
