import PipTestsuite.Malloc
import PipTestsuite.Lib.Interleaving
import PipTestsuite.Lib.SharedHeap

/-! compat/malloc.c, run by all tasks at once: their blocks lie in one address space, and the accesses of my_malloc
and my_free to single bytes interleave freely. Each task is to end as if it were alone. -/
namespace PipTestsuite.Malloc
open SharedHeap

/-- What a task is about to do: the malloc of my_malloc, the loops of my_malloc and my_free with their i, pip_yield,
free; or it has ended, or has done what C leaves undefined. -/
inductive Pos where
  | malloc
  | fill (sz k : ℕ)
  | yield
  | check (k : ℕ)
  | free
  | ended (result : Result)
  | undefined

/-- The variables of malloc_loop, where left is niters - i, and p is also what my_malloc is to return. -/
structure Task where
  min : ℕ
  max : ℕ
  left : ℕ
  i : ℕ
  prev : Option ℕ
  p : Option ℕ
  pos : Pos

def byte (pipid : ℕ) : BitVec 8 := BitVec.ofNat 8 pipid

/-- malloc_loop up to its first call of my_malloc. -/
def start (meminfo : Option Meminfo) (niters pipid : ℕ) : Task :=
  match budget (freemem meminfo) with
  | .error (.exit code) => ⟨0, 0, 0, 0, none, none, .ended ⟨code, 0, 0⟩⟩
  | .error .undefined => ⟨0, 0, 0, 0, none, none, .undefined⟩
  | .ok fm =>
    if 64 ≤ pipid ∨ 32 ≤ pipid then ⟨0, 0, 0, 0, none, none, .undefined⟩
    else
      let ave0 := fm >>> pipid
      let ave1 := if ave0 < mallocAvemin then mallocAvemin else ave0
      ⟨minSize ave1, maxSize ave1, (shifted niters pipid).toNat, 0, none, none, .malloc⟩

namespace Task

/-- The head of the loop of malloc_loop, which the last my_free follows. -/
def next (t : Task) : Task := { t with pos := if t.left = 0 then .check 0 else .yield }

@[simp] lemma next_min (t : Task) : t.next.min = t.min := rfl
@[simp] lemma next_max (t : Task) : t.next.max = t.max := rfl
@[simp] lemma next_left (t : Task) : t.next.left = t.left := rfl
@[simp] lemma next_i (t : Task) : t.next.i = t.i := rfl
@[simp] lemma next_prev (t : Task) : t.next.prev = t.prev := rfl
@[simp] lemma next_p (t : Task) : t.next.p = t.p := rfl

/-- No fewer steps than the task can still make. -/
def rank (t : Task) : ℕ :=
  let rest (n : ℕ) := n * (t.max + t.min + 6) + t.min + 4
  match t.pos with
  | .malloc => if t.prev = none then rest t.left + t.max + 2 else rest (t.left - 1) + t.min + t.max + 5
  | .fill sz k => sz - k + 1 + if t.prev = none then rest t.left else rest (t.left - 1) + t.min + 3
  | .yield => rest t.left
  | .check k => t.min - k + 2 + if t.p = none then 0 else rest (t.left - 1)
  | .free => 1 + if t.p = none then 0 else rest (t.left - 1)
  | .ended _ | .undefined => 0

/-- The address that a task is about to write or read. -/
def address (t : Task) : Option ℕ :=
  match t.pos with
  | .fill sz k => if k < sz then t.p.map (· + k) else none
  | .check k => if k < t.min then t.prev.map (· + k) else none
  | _ => none

/-- How often malloc has been called. -/
def mallocs (t : Task) : ℕ := (if t.prev = none then 0 else t.i + 1) + if t.p = none then 0 else 1

end Task

variable {ntasks : ℕ}

/-- One step of a task, where malloc returns a block at the given base if it succeeds; none where it cannot
return that one, and for a task that has ended. -/
def act (calls : Calls) (id : Fin ntasks) (base : ℕ) (t : Task) (h : Heap (Fin ntasks) (BitVec 8)) :
    Option (Task × Heap (Fin ntasks) (BitVec 8)) :=
  match t.pos with
  | .malloc =>
    if t.max - t.min = 0 then some ({ t with pos := .undefined }, h)
    else if calls.malloc t.mallocs then
      let sz := calls.random t.mallocs % (t.max - t.min) + t.min
      (h.alloc ⟨id, base, sz⟩).map fun h' => ({ t with p := some base, pos := .fill sz 0 }, h')
    else some ({ t with pos := .ended ⟨exitFail, t.mallocs + 1, t.i⟩ }, h)
  | .fill sz k =>
    if k < sz then
      match t.p.bind fun p => h.store (p + k) (byte id) with
      | none => some ({ t with pos := .undefined }, h)
      | some h' => some ({ t with pos := .fill sz (k + 1) }, h')
    else
      match t.prev with
      | none => some (({ t with prev := t.p, p := none } : Task).next, h)
      | some _ => some ({ t with pos := .check 0 }, h)
  | .yield =>
    if calls.yield t.i then some ({ t with pos := .malloc }, h)
    else some ({ t with pos := .ended ⟨exitFail, t.mallocs, t.i⟩ }, h)
  | .check k =>
    if k < t.min then
      match t.prev.bind fun prev => h.load (prev + k) with
      | none => some ({ t with pos := .undefined }, h)
      | some v =>
        if v ≠ byte id then some ({ t with pos := .ended ⟨exitFail, t.mallocs, t.i⟩ }, h)
        else some ({ t with pos := .check (k + 1) }, h)
    else some ({ t with pos := .free }, h)
  | .free =>
    match t.prev.bind h.free with
    | none => some ({ t with pos := .undefined }, h)
    | some h' =>
      match t.p with
      | none => some ({ t with pos := .ended ⟨exitPass, t.mallocs, t.i⟩ }, h')
      | some _ => some (({ t with prev := t.p, p := none, i := t.i + 1, left := t.left - 1 } : Task).next, h')
  | .ended _ | .undefined => none

structure State (ntasks : ℕ) where
  task : Fin ntasks → Task
  heap : Heap (Fin ntasks) (BitVec 8)

/-- A step of one task. -/
def step (calls : Fin ntasks → Calls) (s : State ntasks) (e : Fin ntasks × ℕ) : Option (State ntasks) :=
  (act (calls e.1) e.1 e.2 (s.task e.1) s.heap).map fun next => ⟨Function.update s.task e.1 next.1, next.2⟩

def initial (meminfo : Fin ntasks → Option Meminfo) (niters : ℕ) (mem : ℕ → BitVec 8) : State ntasks :=
  ⟨fun id => start (meminfo id) niters id, ⟨mem, [], .nil⟩⟩

def run (calls : Fin ntasks → Calls) (meminfo : Fin ntasks → Option Meminfo) (niters : ℕ) (mem : ℕ → BitVec 8)
    (schedule : List (Fin ntasks × ℕ)) : State ntasks :=
  Interleaving.run (step calls) (initial meminfo niters mem) schedule

section Alone
variable {calls : Calls} {min max pipid n i : ℕ} {alloc : List (BitVec 8)}

/-- The least that a filled block has. -/
def filled (min pipid : ℕ) : List (BitVec 8) := List.replicate min (byte pipid)

lemma filled_filled (min pipid : ℕ) : Filled min pipid (filled min pipid) := ⟨min, le_rfl, rfl⟩

/-- How large the blocks are makes no difference. -/
lemma rounds_filled (h : Filled min pipid alloc) :
    rounds calls min max pipid n i alloc = rounds calls min max pipid n i (filled min pipid) := by
  cases n with
  | zero => simp only [rounds, myFree_ok h, myFree_ok (filled_filled min pipid)]
  | succ n => simp only [rounds, myFree_ok h, myFree_ok (filled_filled min pipid)]

lemma rounds_zero : rounds calls min max pipid 0 i (filled min pipid) = some ⟨exitPass, i + 1, i⟩ := by
  simp only [rounds, myFree_ok (filled_filled min pipid)]

lemma myMalloc_eq (calls : Calls) (pipid : ℕ) (hlt : min < max) (k : ℕ) : ∃ p, Filled min pipid p ∧
    myMalloc calls min max pipid k = .ok (if calls.malloc k then some p else none) :=
  ⟨_, ⟨calls.random k % (max - min) + min, Nat.le_add_left _ _, rfl⟩, by rw [myMalloc, if_neg (by omega)]⟩

lemma rounds_succ (hlt : min < max) : rounds calls min max pipid (n + 1) i (filled min pipid) =
    if calls.yield i then
      if calls.malloc (i + 1) then rounds calls min max pipid n (i + 1) (filled min pipid)
      else some ⟨exitFail, i + 2, i⟩
    else some ⟨exitFail, i + 1, i⟩ := by
  obtain ⟨p, hp, hmalloc⟩ := myMalloc_eq calls pipid hlt (i + 1)
  rw [rounds, hmalloc, myFree_ok (filled_filled min pipid)]
  cases calls.yield i with
  | false => rfl
  | true =>
    cases calls.malloc (i + 1) with
    | false => rfl
    | true => exact rounds_filled hp

/-- How a task ends from its state on, if nobody else writes to its blocks. -/
def outcome (calls : Calls) (pipid : ℕ) (t : Task) : Option Result :=
  let go (n i : ℕ) := rounds calls t.min t.max pipid n i (filled t.min pipid)
  let rest := if t.prev = none then go t.left t.i else go (t.left - 1) (t.i + 1)
  match t.pos with
  | .malloc => if calls.malloc t.mallocs then rest else some ⟨exitFail, t.mallocs + 1, t.i⟩
  | .fill _ _ => rest
  | .yield => go t.left t.i
  | .check _ | .free => if t.p = none then go t.left t.i else rest
  | .ended result => some result
  | .undefined => none

end Alone

section Steps
variable {calls : Calls} {id : Fin ntasks} {base : ℕ} {t t' : Task} {h h' : Heap (Fin ntasks) (BitVec 8)}

/-- A block of a task that it has filled. -/
def Full (id : Fin ntasks) (t : Task) (h : Heap (Fin ntasks) (BitVec 8)) (b : Block (Fin ntasks)) : Prop :=
  t.min ≤ b.size ∧ h.Holds b b.size (byte id)

/-- The blocks that a task has at each point, with what they hold. -/
inductive Placed (id : Fin ntasks) (t : Task) (h : Heap (Fin ntasks) (BitVec 8)) : Prop where
  | first (hpos : t.pos = .malloc) (hprev : t.prev = none) (hp : t.p = none) (hi : t.i = 0) (howns : h.Owns id [])
  | firstFill {b : Block (Fin ntasks)} {k : ℕ} (hpos : t.pos = .fill b.size k) (hprev : t.prev = none)
    (hp : t.p = some b.base) (hi : t.i = 0) (howns : h.Owns id [b]) (hsize : t.min ≤ b.size)
    (hholds : h.Holds b k (byte id))
  | yield {b : Block (Fin ntasks)} (hpos : t.pos = .yield) (hprev : t.prev = some b.base) (hp : t.p = none)
    (hleft : 0 < t.left) (howns : h.Owns id [b]) (hfull : Full id t h b)
  | malloc {b : Block (Fin ntasks)} (hpos : t.pos = .malloc) (hprev : t.prev = some b.base) (hp : t.p = none)
    (hleft : 0 < t.left) (howns : h.Owns id [b]) (hfull : Full id t h b)
  | fill {b c : Block (Fin ntasks)} {k : ℕ} (hpos : t.pos = .fill c.size k) (hprev : t.prev = some b.base)
    (hp : t.p = some c.base) (hleft : 0 < t.left) (hne : b ≠ c) (howns : h.Owns id [b, c]) (hfull : Full id t h b)
    (hsize : t.min ≤ c.size) (hholds : h.Holds c k (byte id))
  | check {b c : Block (Fin ntasks)} (hpos : (∃ k ≤ t.min, t.pos = .check k) ∨ t.pos = .free)
    (hprev : t.prev = some b.base) (hp : t.p = some c.base) (hleft : 0 < t.left) (hne : b ≠ c)
    (howns : h.Owns id [b, c]) (hfull : Full id t h b) (hfull' : Full id t h c)
  | last {b : Block (Fin ntasks)} (hpos : (∃ k ≤ t.min, t.pos = .check k) ∨ t.pos = .free)
    (hprev : t.prev = some b.base) (hp : t.p = none) (hleft : t.left = 0) (howns : h.Owns id [b])
    (hfull : Full id t h b)
  | ended {result : Result} {l : List (Block (Fin ntasks))} (hpos : t.pos = .ended result) (howns : h.Owns id l)
    (hlength : l.length ≤ 2) (hpass : result.exit = exitPass → l = [])

lemma Full.live {b : Block (Fin ntasks)} (hfull : Full id t h b) : b ∈ h.live := hfull.2.live

/-- What the others do does not matter to a task. -/
lemma Placed.frame {other : Fin ntasks} (hplaced : Placed id t h) (hne : id ≠ other) (hframe : h.Frame other h') :
    Placed id t h' := by
  have hfulls : ∀ {l : List (Block (Fin ntasks))} {b}, h.Owns id l → b ∈ l → Full id t h b → Full id t h' b :=
    fun howns hb hfull => ⟨hfull.1, hframe.holds (((howns _).mpr hb).2 ▸ hne) hfull.2⟩
  have hown : ∀ {l : List (Block (Fin ntasks))}, h.Owns id l → h'.Owns id l := fun howns => hframe.owns hne howns
  cases hplaced with
  | first hpos hprev hp hi howns => exact .first hpos hprev hp hi (hown howns)
  | firstFill hpos hprev hp hi howns hsize hholds =>
    have howner := ((howns _).mpr List.mem_cons_self).2
    exact .firstFill hpos hprev hp hi (hown howns) hsize (hframe.holds (howner ▸ hne) hholds)
  | yield hpos hprev hp hleft howns hfull =>
    exact .yield hpos hprev hp hleft (hown howns) (hfulls howns (by simp) hfull)
  | malloc hpos hprev hp hleft howns hfull =>
    exact .malloc hpos hprev hp hleft (hown howns) (hfulls howns (by simp) hfull)
  | @fill b c k hpos hprev hp hleft hbc howns hfull hsize hholds =>
    have howner := ((howns c).mpr (by simp)).2
    exact .fill hpos hprev hp hleft hbc (hown howns) (hfulls howns (by simp) hfull) hsize
      (hframe.holds (howner ▸ hne) hholds)
  | check hpos hprev hp hleft hbc howns hfull hfull' =>
    exact .check hpos hprev hp hleft hbc (hown howns) (hfulls howns (by simp) hfull) (hfulls howns (by simp) hfull')
  | last hpos hprev hp hleft howns hfull =>
    exact .last hpos hprev hp hleft (hown howns) (hfulls howns (by simp) hfull)
  | ended hpos howns hlength hpass => exact .ended hpos (hown howns) hlength hpass

/-- What a step of a task does, and what it does not change. -/
structure Moved (calls : Calls) (id : Fin ntasks) (t : Task) (h : Heap (Fin ntasks) (BitVec 8)) (t' : Task)
    (h' : Heap (Fin ntasks) (BitVec 8)) : Prop where
  placed : Placed id t' h'
  frame : h.Frame id h'
  outcome : outcome calls id t' = outcome calls id t
  rank : t'.rank < t.rank
  bounds : t'.min = t.min ∧ t'.max = t.max

/-- The head of the loop, with prev filled and nothing else. -/
lemma placed_next {b : Block (Fin ntasks)} (hprev : t.prev = some b.base) (hp : t.p = none) (howns : h.Owns id [b])
    (hfull : Full id t h b) : Placed id t.next h := by
  by_cases hleft : t.left = 0
  · exact .last (.inl ⟨0, Nat.zero_le _, if_pos hleft⟩) hprev hp hleft howns hfull
  · exact .yield (if_neg hleft) hprev hp (Nat.pos_of_ne_zero hleft) howns hfull

lemma outcome_next (hp : t.p = none) :
    outcome calls id t.next = rounds calls t.min t.max id t.left t.i (filled t.min id) := by
  by_cases hleft : t.left = 0
  · have hpos : t.next.pos = .check 0 := if_pos hleft
    simp [outcome, hpos, hp]
  · have hpos : t.next.pos = .yield := if_neg hleft
    simp [outcome, hpos]

lemma rank_next (hp : t.p = none) : t.next.rank ≤ t.left * (t.max + t.min + 6) + t.min + 4 := by
  by_cases hleft : t.left = 0
  · have hpos : t.next.pos = .check 0 := if_pos hleft
    simp only [Task.rank, hpos, Task.next_min, Task.next_p, hp, if_true]
    omega
  · have hpos : t.next.pos = .yield := if_neg hleft
    simp only [Task.rank, hpos, Task.next_min, Task.next_max, Task.next_left, le_refl]

variable {l : List (Block (Fin ntasks))}

/-- my_malloc calls malloc. -/
lemma moved_malloc (hpos : t.pos = .malloc) (hlt : t.min < t.max) (howns : h.Owns id l)
    (hlength : l.length ≤ 2)
    (hfill : ∀ b h', h.alloc b = some h' → b.owner = id → t.min ≤ b.size →
      Placed id { t with p := some b.base, pos := .fill b.size 0 } h')
    (hact : act calls id base t h = some (t', h')) : Moved calls id t h t' h' := by
  rw [act, hpos] at hact
  simp only [if_neg (show ¬ t.max - t.min = 0 by omega)] at hact
  cases hmalloc : calls.malloc t.mallocs with
  | false =>
    rw [hmalloc] at hact
    cases hact
    refine ⟨.ended rfl howns hlength fun hpass => absurd hpass (by simp [exitFail, exitPass]), .refl id h, ?_, ?_,
      rfl, rfl⟩
    · simp [outcome, hpos, hmalloc]
    · simp only [Task.rank, hpos]
      split_ifs <;> omega
  | true =>
    rw [hmalloc] at hact
    obtain ⟨h'', halloc, heq⟩ := Option.map_eq_some_iff.mp hact
    cases heq
    have hsize : calls.random t.mallocs % (t.max - t.min) + t.min < t.max := by
      have hmod := Nat.mod_lt (calls.random t.mallocs) (show t.max - t.min > 0 by omega)
      omega
    refine ⟨hfill _ _ halloc rfl (Nat.le_add_left _ _), Heap.alloc_frame halloc, ?_, ?_, rfl, rfl⟩
    · simp [outcome, hpos, hmalloc]
    · simp only [Task.rank, hpos]
      split_ifs <;> omega

/-- my_malloc fills the next byte of its block. -/
lemma moved_store {b : Block (Fin ntasks)} {k : ℕ} (hpos : t.pos = .fill b.size k) (hp : t.p = some b.base)
    (howner : b.owner = id) (hlive : b ∈ h.live) (hk : k < b.size)
    (hplaced : Placed id { t with pos := .fill b.size (k + 1) } (h.write (b.base + k) (byte id)))
    (hact : act calls id base t h = some (t', h')) : Moved calls id t h t' h' := by
  have hstore : (t.p.bind fun p => h.store (p + k) (byte id)) = some (h.write (b.base + k) (byte id)) := by
    rw [hp, Option.bind_some, Heap.store_eq hlive hk]
  rw [act, hpos] at hact
  simp only [if_pos hk, hstore] at hact
  cases hact
  refine ⟨hplaced, howner ▸ Heap.store_frame hlive hk _, ?_, ?_, rfl, rfl⟩
  · simp [outcome, hpos]
  · simp only [Task.rank, hpos]
    omega

/-- The block that prev points to is verified and freed, and nothing of it is found to have changed. -/
lemma moved_verify {b : Block (Fin ntasks)} (hpos : (∃ k ≤ t.min, t.pos = .check k) ∨ t.pos = .free)
    (hprev : t.prev = some b.base) (howner : b.owner = id) (hfull : Full id t h b)
    (hcheck : ∀ pos, (∃ k ≤ t.min, pos = .check k) ∨ pos = .free → Placed id { t with pos := pos } h)
    (hfree : ∀ h', h'.mem = h.mem → (∀ c, c ∈ h'.live ↔ c ∈ h.live ∧ c ≠ b) → h.Frame id h' →
      (t.p = none → Moved calls id t h { t with pos := .ended ⟨exitPass, t.mallocs, t.i⟩ } h') ∧
      (t.p ≠ none → Moved calls id t h
        ({ t with prev := t.p, p := none, i := t.i + 1, left := t.left - 1 } : Task).next h'))
    (hact : act calls id base t h = some (t', h')) : Moved calls id t h t' h' := by
  obtain ⟨k, hk, hpos⟩ | hpos := hpos
  · rw [act, hpos] at hact
    by_cases hmin : k < t.min
    · have hk : k < b.size := hmin.trans_le hfull.1
      have hload : (t.prev.bind fun prev => h.load (prev + k)) = some (byte id) := by
        rw [hprev, Option.bind_some, Heap.load_eq hfull.live hk, hfull.2.eq k hk]
      simp only [if_pos hmin, hload, ne_eq, not_true_eq_false, if_false] at hact
      cases hact
      refine ⟨hcheck _ (.inl ⟨k + 1, hmin, rfl⟩), .refl id h, ?_, ?_, rfl, rfl⟩
      · simp [outcome, hpos]
      · simp only [Task.rank, hpos]
        omega
    · simp only [if_neg hmin] at hact
      cases hact
      refine ⟨hcheck _ (.inr rfl), .refl id h, ?_, ?_, rfl, rfl⟩
      · simp [outcome, hpos]
      · simp only [Task.rank, hpos]
        omega
  · rw [act, hpos] at hact
    obtain ⟨h'', heq, hmem, hlive⟩ := Heap.free_spec hfull.live
    obtain ⟨hlast, hnext⟩ := hfree h'' hmem hlive (howner ▸ Heap.free_frame hmem hlive)
    have hbind : t.prev.bind h.free = some h'' := by rw [hprev, Option.bind_some, heq]
    simp only [hbind] at hact
    split at hact
    · next hp =>
      cases hact
      exact hlast hp
    · next hp =>
      cases hact
      exact hnext (by simp [hp])

/-- A step of a task keeps its blocks as they are to be, touches no others, and leaves its outcome as it is. -/
theorem Placed.moved (hplaced : Placed id t h) (hlt : t.min < t.max) (hact : act calls id base t h = some (t', h')) :
    Moved calls id t h t' h' := by
  cases hplaced with
  | first hpos hprev hp hi howns =>
    refine moved_malloc hpos hlt howns (by simp) (fun b h' halloc howner hsize => ?_) hact
    exact .firstFill rfl hprev rfl hi (howner ▸ (howner ▸ howns).alloc halloc) hsize (Heap.alloc_holds halloc _)
  | @firstFill b k hpos hprev hp hi howns hsize hholds =>
    have howner := ((howns b).mpr List.mem_cons_self).2
    by_cases hk : k < b.size
    · exact moved_store hpos hp howner hholds.live hk
        (.firstFill rfl hprev hp hi (howns.write _ _) hsize (hholds.store_next hk)) hact
    · obtain rfl : k = b.size := le_antisymm hholds.le (Nat.le_of_not_lt hk)
      rw [act, hpos] at hact
      simp only [lt_irrefl, if_false] at hact
      split at hact
      · cases hact
        refine ⟨placed_next hp rfl howns ⟨hsize, hholds⟩, .refl id h, ?_, (rank_next rfl).trans_lt ?_, rfl, rfl⟩
        · rw [outcome_next rfl]
          simp [outcome, hpos, hprev]
        · simp only [Task.rank, hpos, hprev, if_true]
          omega
      · next hsome =>
        rw [hprev] at hsome
        cases hsome
  | @yield b hpos hprev hp hleft howns hfull =>
    obtain ⟨n, hn⟩ : ∃ n, t.left = n + 1 := Nat.exists_eq_add_one.mpr hleft
    have hmallocs : t.mallocs = t.i + 1 := by simp [Task.mallocs, hprev, hp]
    have houtcome : outcome calls id t = if calls.yield t.i then
        if calls.malloc (t.i + 1) then rounds calls t.min t.max id n (t.i + 1) (filled t.min id)
        else some ⟨exitFail, t.i + 2, t.i⟩ else some ⟨exitFail, t.i + 1, t.i⟩ := by
      simp only [outcome, hpos, hn, rounds_succ hlt]
    rw [act, hpos] at hact
    cases hyield : calls.yield t.i with
    | false =>
      simp only [hyield, Bool.false_eq_true, if_false] at hact
      cases hact
      refine ⟨.ended rfl howns (by simp) fun hpass => absurd hpass (by simp [exitFail, exitPass]), .refl id h, ?_, ?_,
        rfl, rfl⟩
      · rw [houtcome, hyield, ← hmallocs]
        rfl
      · simp only [Task.rank, hpos]
        omega
    | true =>
      simp only [hyield, if_true] at hact
      cases hact
      refine ⟨.malloc rfl hprev hp hleft howns hfull, .refl id h, ?_, ?_, rfl, rfl⟩
      · rw [houtcome, hyield]
        simp [outcome, Task.mallocs, hprev, hp, hn]
      · simp only [Task.rank, hpos, hprev, hn, reduceCtorEq, if_false, Nat.add_sub_cancel, Nat.succ_mul]
        omega
  | @malloc b hpos hprev hp hleft howns hfull =>
    refine moved_malloc hpos hlt howns (by simp) (fun c h' halloc howner hsize => ?_) hact
    have hne : b ≠ c := by
      rintro rfl
      exact ((Heap.alloc_spec halloc).1 b hfull.live).1 rfl
    have howns' : h'.Owns id [c, b] := howner ▸ (howner ▸ howns).alloc halloc
    exact .fill rfl hprev rfl hleft hne (fun d => by rw [howns' d]; simp [or_comm])
      ⟨hfull.1, hfull.2.alloc halloc⟩ hsize (Heap.alloc_holds halloc _)
  | @fill b c k hpos hprev hp hleft hne howns hfull hsize hholds =>
    have howner := ((howns c).mpr (by simp)).2
    by_cases hk : k < c.size
    · exact moved_store hpos hp howner hholds.live hk
        (.fill rfl hprev hp hleft hne (howns.write _ _) ⟨hfull.1, hfull.2.store_of_ne hholds.live hne hk⟩ hsize
          (hholds.store_next hk)) hact
    · obtain rfl : k = c.size := le_antisymm hholds.le (Nat.le_of_not_lt hk)
      rw [act, hpos] at hact
      simp only [lt_irrefl, if_false] at hact
      split at hact
      · next hnone =>
        rw [hprev] at hnone
        cases hnone
      · cases hact
        refine ⟨.check (.inl ⟨0, Nat.zero_le _, rfl⟩) hprev hp hleft hne howns hfull ⟨hsize, hholds⟩, .refl id h, ?_,
          ?_, rfl, rfl⟩
        · simp [outcome, hpos, hprev, hp]
        · simp only [Task.rank, hpos, hprev, hp, reduceCtorEq, if_false]
          omega
  | @check b c hpos hprev hp hleft hne howns hfull hfull' =>
    refine moved_verify hpos hprev ((howns b).mpr (by simp)).2 hfull
      (fun pos hpos => .check hpos hprev hp hleft hne howns hfull hfull') (fun h' hmem hlive hframe => ?_) hact
    refine ⟨fun hnone => absurd (hp.symm.trans hnone) (by simp), fun _ => ?_⟩
    refine ⟨placed_next hp rfl (howns.free (by simpa using hne) hlive)
      ⟨hfull'.1, hfull'.2.free hne.symm hmem hlive⟩, hframe, ?_, (rank_next rfl).trans_lt ?_, rfl, rfl⟩
    · rw [outcome_next rfl]
      obtain ⟨k, -, hpos⟩ | hpos := hpos <;> simp [outcome, hpos, hprev, hp]
    · obtain ⟨k, -, hpos⟩ | hpos := hpos <;> simp only [Task.rank, hpos, hp, reduceCtorEq, if_false] <;> omega
  | @last b hpos hprev hp hleft howns hfull =>
    refine moved_verify hpos hprev ((howns b).mpr (by simp)).2 hfull
      (fun pos hpos => .last hpos hprev hp hleft howns hfull) (fun h' hmem hlive hframe => ?_) hact
    refine ⟨fun _ => ?_, fun hsome => absurd hp hsome⟩
    refine ⟨.ended rfl (howns.free (by simp) hlive) (by simp) fun _ => rfl, hframe, ?_, ?_, rfl, rfl⟩
    · have hmallocs : t.mallocs = t.i + 1 := by simp [Task.mallocs, hprev, hp]
      obtain ⟨k, -, hpos⟩ | hpos := hpos <;> simp [outcome, hpos, hp, hleft, rounds_zero, hmallocs]
    · obtain ⟨k, -, hpos⟩ | hpos := hpos <;> simp only [Task.rank, hpos] <;> omega
  | ended hpos howns hlength hpass =>
    rw [act, hpos] at hact
    cases hact

/-- A task can go on unless it has ended, where malloc finds room. -/
lemma exists_act (calls : Calls) (id : Fin ntasks) (t : Task) (h : Heap (Fin ntasks) (BitVec 8)) :
    (∃ result, t.pos = .ended result) ∨ t.pos = .undefined ∨ ∃ base next, act calls id base t h = some next := by
  cases hpos : t.pos with
  | malloc =>
    obtain ⟨base, h', halloc⟩ := h.exists_alloc id (calls.random t.mallocs % (t.max - t.min) + t.min)
    refine .inr (.inr ⟨base, ?_⟩)
    simp only [act, hpos, halloc, Option.map_some]
    split_ifs <;> exact ⟨_, rfl⟩
  | fill sz k =>
    refine .inr (.inr ⟨0, ?_⟩)
    simp only [act, hpos]
    split_ifs
    · split <;> exact ⟨_, rfl⟩
    · split <;> exact ⟨_, rfl⟩
  | yield =>
    refine .inr (.inr ⟨0, ?_⟩)
    simp only [act, hpos]
    split_ifs <;> exact ⟨_, rfl⟩
  | check k =>
    refine .inr (.inr ⟨0, ?_⟩)
    simp only [act, hpos]
    split_ifs
    · split
      · exact ⟨_, rfl⟩
      · split_ifs <;> exact ⟨_, rfl⟩
    · exact ⟨_, rfl⟩
  | free =>
    refine .inr (.inr ⟨0, ?_⟩)
    simp only [act, hpos]
    split
    · exact ⟨_, rfl⟩
    · split <;> exact ⟨_, rfl⟩
  | ended result => exact .inl ⟨result, rfl⟩
  | undefined => exact .inr (.inl rfl)

lemma Placed.pos_ne (hplaced : Placed id t h) : t.pos ≠ .undefined := by
  cases hplaced with
  | first hpos | firstFill hpos | yield hpos | malloc hpos | fill hpos | ended hpos =>
    rw [hpos]
    exact Pos.noConfusion
  | check hpos | last hpos =>
    obtain ⟨k, -, hpos⟩ | hpos := hpos <;> rw [hpos] <;> exact Pos.noConfusion

end Steps

section Runs
variable {calls : Fin ntasks → Calls} {meminfo : Fin ntasks → Option Meminfo} {niters : ℕ} {s s' : State ntasks}

/-- All tasks have their blocks, and come to the ends that they come to alone. -/
structure Inv (calls : Fin ntasks → Calls) (meminfo : Fin ntasks → Option Meminfo) (niters : ℕ) (s : State ntasks) :
    Prop where
  placed : ∀ id, Placed id (s.task id) s.heap
  bounds : ∀ id, (s.task id).min < (s.task id).max ∨ ∃ result, (s.task id).pos = .ended result
  outcome : ∀ id, outcome (calls id) id (s.task id) = mallocLoop (calls id) (meminfo id) niters id

lemma budget_cases (fmall : BitVec 64) :
    (∃ code, budget fmall = .error (.exit code)) ∨ ∃ fm ≤ freememThreshold, budget fmall = .ok fm := by
  by_cases hpos : fmall > 0
  · exact .inr (budget_of_pos hpos)
  · obtain rfl : fmall = 0 := by
      by_contra hne
      exact hpos (pos_of_ne_zero hne)
    exact .inl ⟨exitUntested, by rw [budget, if_neg (by decide), if_pos (by decide)]⟩

lemma sizes_lt {fm : ℕ} (hfm : fm ≤ freememThreshold) (pipid : ℕ) :
    minSize (if fm >>> pipid < mallocAvemin then mallocAvemin else fm >>> pipid) <
      maxSize (if fm >>> pipid < mallocAvemin then mallocAvemin else fm >>> pipid) := by
  have hle := Nat.shiftRight_le fm pipid
  have hbound : freememThreshold ≤ 2 ^ 29 := by decide
  have havemin : mallocAvemin ≤ 2 ^ 29 := by decide
  apply minSize_lt_maxSize
  · split_ifs <;> omega
  · split_ifs <;> omega

/-- The first call of my_malloc, from which the outcome is that of malloc_loop. -/
lemma start_placed (calls : Calls) (meminfo : Option Meminfo) (niters : ℕ) {id : Fin ntasks} (hid : (id : ℕ) < 32)
    {h : Heap (Fin ntasks) (BitVec 8)} (howns : h.Owns id []) :
    Placed id (start meminfo niters id) h ∧
      ((start meminfo niters id).min < (start meminfo niters id).max ∨
        ∃ result, (start meminfo niters id).pos = .ended result) ∧
      outcome calls id (start meminfo niters id) = mallocLoop calls meminfo niters id := by
  obtain ⟨code, hbudget⟩ | ⟨fm, hfm, hbudget⟩ := budget_cases (freemem meminfo)
  · have hstart : start meminfo niters id = ⟨0, 0, 0, 0, none, none, .ended ⟨code, 0, 0⟩⟩ := by
      simp only [start, hbudget]
    rw [hstart]
    refine ⟨.ended rfl howns (by simp) fun _ => rfl, .inr ⟨_, rfl⟩, ?_⟩
    simp only [mallocLoop, hbudget]
    rfl
  · have hshort : ¬ (64 ≤ (id : ℕ) ∨ 32 ≤ (id : ℕ)) := by omega
    have hlt := sizes_lt hfm id
    have hstart : start meminfo niters id =
        ⟨minSize (if fm >>> (id : ℕ) < mallocAvemin then mallocAvemin else fm >>> (id : ℕ)),
          maxSize (if fm >>> (id : ℕ) < mallocAvemin then mallocAvemin else fm >>> (id : ℕ)),
          (shifted niters id).toNat, 0, none, none, .malloc⟩ := by
      simp only [start, hbudget, if_neg hshort]
    rw [hstart]
    refine ⟨.first rfl rfl rfl rfl howns, .inl hlt, ?_⟩
    obtain ⟨p, hp, hmalloc⟩ := myMalloc_eq calls id hlt 0
    simp only [mallocLoop, hbudget, work, if_neg hshort, hmalloc]
    simp only [outcome, Task.mallocs, if_true]
    cases calls.malloc 0 with
    | false => rfl
    | true => exact (rounds_filled hp).symm

lemma initial_inv (calls : Fin ntasks → Calls) (meminfo : Fin ntasks → Option Meminfo) (niters : ℕ)
    (mem : ℕ → BitVec 8) (hntasks : ntasks ≤ 32) : Inv calls meminfo niters (initial meminfo niters mem) := by
  have hstart := fun id : Fin ntasks => start_placed (calls id) (meminfo id) niters (id.isLt.trans_le hntasks)
    (h := ⟨mem, [], .nil⟩) (fun b => by simp)
  exact ⟨fun id => (hstart id).1, fun id => (hstart id).2.1, fun id => (hstart id).2.2⟩

lemma Inv.moved (hinv : Inv calls meminfo niters s) {id : Fin ntasks} {base : ℕ}
    {next : Task × Heap (Fin ntasks) (BitVec 8)} (hact : act (calls id) id base (s.task id) s.heap = some next) :
    Moved (calls id) id (s.task id) s.heap next.1 next.2 ∧ (s.task id).min < (s.task id).max := by
  obtain hlt | ⟨result, hresult⟩ := hinv.bounds id
  · exact ⟨(hinv.placed id).moved hlt hact, hlt⟩
  · rw [act, hresult] at hact
    cases hact

lemma Inv.step {e : Fin ntasks × ℕ} (hinv : Inv calls meminfo niters s) (hstep : step calls s e = some s') :
    Inv calls meminfo niters s' := by
  obtain ⟨next, hact, rfl⟩ := Option.map_eq_some_iff.mp hstep
  obtain ⟨hmoved, hlt⟩ := hinv.moved hact
  have hself : Function.update s.task e.1 next.1 e.1 = next.1 := Function.update_self ..
  constructor <;> intro id <;> dsimp only
  · obtain rfl | hid := eq_or_ne id e.1
    · rw [hself]
      exact hmoved.placed
    · rw [Function.update_of_ne hid]
      exact (hinv.placed id).frame hid hmoved.frame
  · obtain rfl | hid := eq_or_ne id e.1
    · rw [hself, hmoved.bounds.1, hmoved.bounds.2]
      exact .inl hlt
    · rw [Function.update_of_ne hid]
      exact hinv.bounds id
  · obtain rfl | hid := eq_or_ne id e.1
    · rw [hself, hmoved.outcome]
      exact hinv.outcome e.1
    · rw [Function.update_of_ne hid]
      exact hinv.outcome id

lemma Inv.frame {e : Fin ntasks × ℕ} (hinv : Inv calls meminfo niters s) (hstep : Malloc.step calls s e = some s') :
    s.heap.Frame e.1 s'.heap := by
  obtain ⟨next, hact, rfl⟩ := Option.map_eq_some_iff.mp hstep
  exact (hinv.moved hact).1.frame

/-- The steps that all tasks together can still make. -/
def State.work (s : State ntasks) : ℕ := ∑ id, (s.task id).rank

lemma Inv.work_lt {e : Fin ntasks × ℕ} (hinv : Inv calls meminfo niters s) (hstep : Malloc.step calls s e = some s') :
    s'.work < s.work := by
  obtain ⟨next, hact, rfl⟩ := Option.map_eq_some_iff.mp hstep
  have hrank := (hinv.moved hact).1.rank
  refine Finset.sum_lt_sum (fun id _ => ?_) ⟨e.1, Finset.mem_univ e.1, by simpa using hrank⟩
  obtain rfl | hid := eq_or_ne id e.1
  · simpa using hrank.le
  · exact (congrArg Task.rank (Function.update_of_ne hid ..)).le

lemma Inv.exists_ended (hinv : Inv calls meminfo niters s) :
    ∃ more, ∀ id, ∃ result, ((Interleaving.run (Malloc.step calls) s more).task id).pos = .ended result := by
  have hstep : ∀ s, Inv calls meminfo niters s → (∀ id, ∃ result, (s.task id).pos = .ended result) ∨
      ∃ e s', Malloc.step calls s e = some s' ∧ Inv calls meminfo niters s' ∧ s'.work < s.work := by
    intro s hinv
    by_cases hend : ∀ id, ∃ result, (s.task id).pos = .ended result
    · exact .inl hend
    · obtain ⟨id, hid⟩ := not_forall.mp hend
      obtain hended | hundefined | ⟨base, next, hact⟩ := exists_act (calls id) id (s.task id) s.heap
      · exact absurd hended hid
      · exact absurd hundefined (hinv.placed id).pos_ne
      · have hstep : Malloc.step calls s (id, base) = some ⟨Function.update s.task id next.1, next.2⟩ :=
          Option.map_eq_some_iff.mpr ⟨next, hact, rfl⟩
        exact .inr ⟨_, _, hstep, hinv.step hstep, hinv.work_lt hstep⟩
  exact Interleaving.exists_run_of_measure State.work hstep hinv

/-- Each task writes, reads and frees its own blocks only, of which it has two at most, leaves those of all others as
they are and never finds a byte changed. It comes to the end of malloc_loop alone, and what passes has freed all its
blocks. No run goes on for ever. -/
structure Sound (calls : Fin ntasks → Calls) (meminfo : Fin ntasks → Option Meminfo) (niters : ℕ) (s : State ntasks) :
    Prop where
  defined : ∀ id, (s.task id).pos ≠ .undefined
  accesses : ∀ id a, (s.task id).address = some a → ∃ b ∈ s.heap.live, b.owner = id ∧ b.Covers a
  frees : ∀ id prev, (s.task id).pos = .free → (s.task id).prev = some prev →
    ∃ b ∈ s.heap.live, b.owner = id ∧ b.base = prev
  frame : ∀ e s', Malloc.step calls s e = some s' → s.heap.Frame e.1 s'.heap
  unchanged : ∀ id k prev, (s.task id).pos = .check k → (s.task id).prev = some prev → k < (s.task id).min →
    s.heap.load (prev + k) = some (byte id)
  blocks : ∀ id, (s.heap.live.filter (·.owner = id)).length ≤ 2
  alone : ∀ id result, (s.task id).pos = .ended result →
    mallocLoop (calls id) (meminfo id) niters id = some result ∧
      (result.exit = exitPass → ∀ b ∈ s.heap.live, b.owner ≠ id)
  ends : ∀ e s', Malloc.step calls s e = some s' → s'.work < s.work
  goesOn : ∃ more, ∀ id, ∃ result, ((Interleaving.run (Malloc.step calls) s more).task id).pos = .ended result

section Placed
variable {id : Fin ntasks} {t : Task} {h : Heap (Fin ntasks) (BitVec 8)}

/-- The block that a task fills or verifies is its own. -/
lemma Placed.accesses (hplaced : Placed id t h) {a : ℕ} (ha : t.address = some a) :
    ∃ b ∈ h.live, b.owner = id ∧ b.Covers a := by
  have hfill : ∀ {l : List (Block (Fin ntasks))} {b k}, t.pos = .fill b.size k → t.p = some b.base → h.Owns id l →
      b ∈ l → ∃ b ∈ h.live, b.owner = id ∧ b.Covers a := by
    intro l b k hpos hp howns hb
    simp only [Task.address, hpos, hp, Option.map_some, Option.ite_none_right_eq_some, Option.some.injEq] at ha
    obtain ⟨hk, rfl⟩ := ha
    obtain ⟨hlive, howner⟩ := (howns b).mpr hb
    exact ⟨b, hlive, howner, Block.covers_base_add.mpr hk⟩
  have hverify : ∀ {l : List (Block (Fin ntasks))} {b}, (∃ k ≤ t.min, t.pos = .check k) ∨ t.pos = .free →
      t.prev = some b.base → h.Owns id l → b ∈ l → t.min ≤ b.size → ∃ b ∈ h.live, b.owner = id ∧ b.Covers a := by
    rintro l b (⟨k, -, hpos⟩ | hpos) hprev howns hb hsize
    · simp only [Task.address, hpos, hprev, Option.map_some, Option.ite_none_right_eq_some, Option.some.injEq] at ha
      obtain ⟨hk, rfl⟩ := ha
      obtain ⟨hlive, howner⟩ := (howns b).mpr hb
      exact ⟨b, hlive, howner, Block.covers_base_add.mpr (hk.trans_le hsize)⟩
    · simp [Task.address, hpos] at ha
  cases hplaced with
  | first hpos | yield hpos | malloc hpos | ended hpos => simp [Task.address, hpos] at ha
  | firstFill hpos _ hp _ howns => exact hfill hpos hp howns (by simp)
  | fill hpos _ hp _ _ howns => exact hfill hpos hp howns (by simp)
  | check hpos hprev _ _ _ howns hfull => exact hverify hpos hprev howns (by simp) hfull.1
  | last hpos hprev _ _ howns hfull => exact hverify hpos hprev howns (by simp) hfull.1

lemma Placed.frees (hplaced : Placed id t h) {prev : ℕ} (hpos : t.pos = .free) (hprev : t.prev = some prev) :
    ∃ b ∈ h.live, b.owner = id ∧ b.base = prev := by
  have hown : ∀ {l : List (Block (Fin ntasks))} {b}, t.prev = some b.base → h.Owns id l → b ∈ l →
      ∃ b ∈ h.live, b.owner = id ∧ b.base = prev := by
    intro l b hb howns hmem
    obtain ⟨hlive, howner⟩ := (howns b).mpr hmem
    exact ⟨b, hlive, howner, Option.some.inj (hb.symm.trans hprev)⟩
  cases hplaced with
  | first hpos' | firstFill hpos' | yield hpos' | malloc hpos' | fill hpos' | ended hpos' =>
    cases hpos.symm.trans hpos'
  | check _ hb _ _ _ howns => exact hown hb howns (by simp)
  | last _ hb _ _ howns => exact hown hb howns (by simp)

lemma Placed.load (hplaced : Placed id t h) {k prev : ℕ} (hpos : t.pos = .check k) (hprev : t.prev = some prev)
    (hk : k < t.min) : h.load (prev + k) = some (byte id) := by
  have hload : ∀ {b : Block (Fin ntasks)}, t.prev = some b.base → Full id t h b →
      h.load (prev + k) = some (byte id) := by
    intro b hb hfull
    obtain rfl := Option.some.inj (hprev.symm.trans hb)
    rw [Heap.load_eq hfull.live (hk.trans_le hfull.1), hfull.2.eq k (hk.trans_le hfull.1)]
  cases hplaced with
  | first hpos' | firstFill hpos' | yield hpos' | malloc hpos' | fill hpos' | ended hpos' =>
    cases hpos.symm.trans hpos'
  | check _ hb _ _ _ _ hfull => exact hload hb hfull
  | last _ hb _ _ _ hfull => exact hload hb hfull

lemma Placed.exists_owns (hplaced : Placed id t h) : ∃ l, l.length ≤ 2 ∧ h.Owns id l := by
  cases hplaced with
  | first _ _ _ _ howns | firstFill _ _ _ _ howns | yield _ _ _ _ howns | malloc _ _ _ _ howns
  | fill _ _ _ _ _ howns | check _ _ _ _ _ howns | last _ _ _ _ howns => exact ⟨_, by simp, howns⟩
  | ended _ howns hlength => exact ⟨_, hlength, howns⟩

lemma Placed.passed (hplaced : Placed id t h) {result : Result} (hpos : t.pos = .ended result)
    (hpass : result.exit = exitPass) : ∀ b ∈ h.live, b.owner ≠ id := by
  cases hplaced with
  | first hpos' | firstFill hpos' | yield hpos' | malloc hpos' | fill hpos' => cases hpos.symm.trans hpos'
  | check hpos' | last hpos' => obtain ⟨k, -, hpos'⟩ | hpos' := hpos' <;> cases hpos.symm.trans hpos'
  | @ended result' l hpos' howns _ hnil =>
    obtain rfl : result = result' := Pos.ended.inj (hpos.symm.trans hpos')
    obtain rfl := hnil hpass
    intro b hb howner
    cases (howns b).mp ⟨hb, howner⟩

end Placed

lemma Inv.sound (hinv : Inv calls meminfo niters s) : Sound calls meminfo niters s where
  defined id := (hinv.placed id).pos_ne
  accesses id a := (hinv.placed id).accesses
  frees id prev := (hinv.placed id).frees
  frame e s' := hinv.frame
  unchanged id k prev := (hinv.placed id).load
  blocks id := by
    obtain ⟨l, hlength, howns⟩ := (hinv.placed id).exists_owns
    exact howns.length_le.trans hlength
  alone id result hpos := by
    refine ⟨?_, (hinv.placed id).passed hpos⟩
    rw [← hinv.outcome id, Malloc.outcome, hpos]
  ends e s' := hinv.work_lt
  goesOn := hinv.exists_ended

/-- Every interleaving of the tasks, with every allocator that returns unused memory. A pipid of 32 would shift an
int by its width. -/
theorem tasks_as_alone (ntasks : ℕ) (hntasks : ntasks ≤ 32) (calls : Fin ntasks → Calls)
    (meminfo : Fin ntasks → Option Meminfo) (niters : ℕ) (mem : ℕ → BitVec 8)
    (schedule : List (Fin ntasks × ℕ)) : Sound calls meminfo niters (run calls meminfo niters mem schedule) :=
  Inv.sound (Interleaving.run_inv (initial_inv calls meminfo niters mem hntasks) (fun _ _ _ => Inv.step) schedule)

/-- Two tasks, where both have called malloc. -/
theorem tasks_as_alone_two :
    Sound (fun _ => plainCalls) (fun _ => some plainMeminfo) 10
      (run (fun _ => plainCalls) (fun _ => some plainMeminfo) 10 (fun _ => 0) [(0, 0), ((1 : Fin 2), 2 ^ 30)]) :=
  tasks_as_alone 2 (by decide) _ _ _ _ _

end Runs

end PipTestsuite.Malloc
