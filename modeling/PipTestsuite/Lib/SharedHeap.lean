import Mathlib.Tactic

/-! Blocks of one address space that several owners allocate, write, read and free. Live blocks are apart from
each other, so that what an owner does within its blocks leaves those of all others as they are. -/
namespace SharedHeap

structure Block (ι : Type*) where
  owner : ι
  base : ℕ
  size : ℕ
  deriving DecidableEq

variable {ι α : Type*}

namespace Block

def Covers (b : Block ι) (a : ℕ) : Prop := b.base ≤ a ∧ a < b.base + b.size

instance (b : Block ι) (a : ℕ) : Decidable (b.Covers a) := inferInstanceAs (Decidable (_ ∧ _))

/-- No common address, and no common base even of blocks without elements. -/
def Apart (b c : Block ι) : Prop := b.base ≠ c.base ∧ (b.base + b.size ≤ c.base ∨ c.base + c.size ≤ b.base)

instance (b c : Block ι) : Decidable (b.Apart c) := inferInstanceAs (Decidable (_ ∧ _))

instance : Std.Symm (Block.Apart : Block ι → Block ι → Prop) := ⟨fun _ _ h => ⟨h.1.symm, h.2.symm⟩⟩

lemma covers_base_add {b : Block ι} {k : ℕ} : b.Covers (b.base + k) ↔ k < b.size := by
  simp only [Covers]
  omega

end Block

/-- The contents of all addresses, and the blocks that are allocated. -/
structure Heap (ι α : Type*) where
  mem : ℕ → α
  live : List (Block ι)
  apart : live.Pairwise Block.Apart

namespace Heap
variable {h h' : Heap ι α} {b c : Block ι} {i j : ι} {a k n size : ℕ} {v : α} {l : List (Block ι)}

/-- The allocation of a given block; no allocator takes one that is in use. -/
def alloc (h : Heap ι α) (b : Block ι) : Option (Heap ι α) :=
  if hb : ∀ c ∈ h.live, b.Apart c then some ⟨h.mem, b :: h.live, List.pairwise_cons.mpr ⟨hb, h.apart⟩⟩ else none

def write (h : Heap ι α) (a : ℕ) (v : α) : Heap ι α := { h with mem := Function.update h.mem a v }

@[simp] lemma write_mem_self (h : Heap ι α) (a : ℕ) (v : α) : (h.write a v).mem a = v := Function.update_self ..

lemma write_mem_of_ne (h : Heap ι α) {a a' : ℕ} (hne : a' ≠ a) (v : α) : (h.write a v).mem a' = h.mem a' :=
  Function.update_of_ne hne ..

/-- An access outside all live blocks has no meaning. -/
def store (h : Heap ι α) (a : ℕ) (v : α) : Option (Heap ι α) :=
  if ∃ b ∈ h.live, b.Covers a then some (h.write a v) else none

def load (h : Heap ι α) (a : ℕ) : Option α := if ∃ b ∈ h.live, b.Covers a then some (h.mem a) else none

/-- Only the base of a live block can be freed. -/
def free (h : Heap ι α) (a : ℕ) : Option (Heap ι α) :=
  if ∃ b ∈ h.live, b.base = a then
    some ⟨h.mem, h.live.filter (·.base ≠ a), h.apart.sublist List.filter_sublist⟩
  else none

/-- A live block whose first n elements are v. -/
structure Holds (h : Heap ι α) (b : Block ι) (n : ℕ) (v : α) : Prop where
  live : b ∈ h.live
  le : n ≤ b.size
  eq : ∀ k < n, h.mem (b.base + k) = v

/-- The live blocks of one owner. -/
def Owns (h : Heap ι α) (i : ι) (l : List (Block ι)) : Prop := ∀ b, (b ∈ h.live ∧ b.owner = i) ↔ b ∈ l

/-- Only blocks of one owner have changed. -/
structure Frame (i : ι) (h h' : Heap ι α) : Prop where
  live : ∀ b, b.owner ≠ i → (b ∈ h'.live ↔ b ∈ h.live)
  mem : ∀ b ∈ h.live, b.owner ≠ i → ∀ a, b.Covers a → h'.mem a = h.mem a

lemma apart_of_ne (hb : b ∈ h.live) (hc : c ∈ h.live) (hne : b ≠ c) : b.Apart c :=
  h.apart.forall hb hc hne

lemma eq_of_covers (hb : b ∈ h.live) (hc : c ∈ h.live) (hba : b.Covers a) (hca : c.Covers a) : b = c := by
  by_contra hne
  have hapart := (apart_of_ne hb hc hne).2
  simp only [Block.Covers] at hba hca
  omega

lemma alloc_spec (halloc : h.alloc b = some h') :
    (∀ c ∈ h.live, b.Apart c) ∧ h'.mem = h.mem ∧ h'.live = b :: h.live := by
  rw [alloc] at halloc
  split at halloc
  · next hapart =>
    cases halloc
    exact ⟨hapart, rfl, rfl⟩
  · cases halloc

/-- There is room behind all live blocks. -/
lemma exists_alloc (h : Heap ι α) (i : ι) (size : ℕ) : ∃ base h', h.alloc ⟨i, base, size⟩ = some h' := by
  have hbehind : ∀ l : List (Block ι), ∃ base, ∀ c ∈ l, c.base + c.size < base := by
    intro l
    induction l with
    | nil => exact ⟨0, by simp⟩
    | cons c l ih =>
      obtain ⟨base, hbase⟩ := ih
      refine ⟨base + (c.base + c.size) + 1, fun d hd => ?_⟩
      obtain rfl | hd := List.mem_cons.mp hd
      · omega
      · have hlt := hbase d hd
        omega
  obtain ⟨base, hbase⟩ := hbehind h.live
  refine ⟨base, _, dif_pos fun c hc => ?_⟩
  have hlt := hbase c hc
  exact ⟨by dsimp only; omega, .inr hlt.le⟩

lemma store_eq (hb : b ∈ h.live) (hk : k < b.size) (v : α) :
    h.store (b.base + k) v = some (h.write (b.base + k) v) :=
  if_pos ⟨b, hb, Block.covers_base_add.mpr hk⟩

lemma load_eq (hb : b ∈ h.live) (hk : k < b.size) : h.load (b.base + k) = some (h.mem (b.base + k)) :=
  if_pos ⟨b, hb, Block.covers_base_add.mpr hk⟩

lemma free_spec (hb : b ∈ h.live) :
    ∃ h', h.free b.base = some h' ∧ h'.mem = h.mem ∧ ∀ c, c ∈ h'.live ↔ c ∈ h.live ∧ c ≠ b := by
  refine ⟨_, if_pos ⟨b, hb, rfl⟩, rfl, fun c => ?_⟩
  rw [List.mem_filter]
  refine and_congr_right fun hc => ?_
  rw [decide_eq_true_iff]
  constructor
  · rintro hbase rfl
    exact hbase rfl
  · exact fun hne => (apart_of_ne hc hb hne).1

lemma live_nodup (h : Heap ι α) : h.live.Nodup :=
  h.apart.imp fun hapart heq => hapart.1 (congrArg Block.base heq)

section Frames

lemma Frame.refl (i : ι) (h : Heap ι α) : Frame i h h := ⟨fun _ _ => Iff.rfl, fun _ _ _ _ _ => rfl⟩

lemma alloc_frame (halloc : h.alloc b = some h') : Frame b.owner h h' := by
  obtain ⟨-, hmem, hlive⟩ := alloc_spec halloc
  refine ⟨fun c hc => ?_, fun _ _ _ a _ => congrFun hmem a⟩
  rw [hlive, List.mem_cons, or_iff_right]
  rintro rfl
  exact hc rfl

lemma store_frame (hb : b ∈ h.live) (hk : k < b.size) (v : α) :
    Frame b.owner h (h.write (b.base + k) v) := by
  refine ⟨fun _ _ => Iff.rfl, fun c hc hne a ha => h.write_mem_of_ne ?_ v⟩
  rintro rfl
  exact hne (congrArg Block.owner (eq_of_covers hc hb ha (Block.covers_base_add.mpr hk)))

lemma free_frame (hmem : h'.mem = h.mem) (hlive : ∀ c, c ∈ h'.live ↔ c ∈ h.live ∧ c ≠ b) : Frame b.owner h h' := by
  refine ⟨fun c hc => ?_, fun _ _ _ a _ => congrFun hmem a⟩
  rw [hlive c, and_iff_left]
  rintro rfl
  exact hc rfl

lemma Frame.owns (hframe : Frame i h h') (hne : j ≠ i) (howns : h.Owns j l) : h'.Owns j l := by
  intro b
  rw [← howns b]
  refine and_congr_left fun hb => hframe.live b ?_
  rw [hb]
  exact hne

lemma Frame.holds (hframe : Frame i h h') (hne : b.owner ≠ i) (hholds : h.Holds b n v) : h'.Holds b n v where
  live := (hframe.live b hne).mpr hholds.live
  le := hholds.le
  eq k hk := by
    have hcovers : b.Covers (b.base + k) := Block.covers_base_add.mpr (hk.trans_le hholds.le)
    rw [hframe.mem b hholds.live hne _ hcovers, hholds.eq k hk]

end Frames

section Own

lemma Owns.alloc (howns : h.Owns b.owner l) (halloc : h.alloc b = some h') : h'.Owns b.owner (b :: l) := by
  obtain ⟨-, -, hlive⟩ := alloc_spec halloc
  intro c
  rw [hlive, List.mem_cons, List.mem_cons, ← howns c]
  constructor
  · rintro ⟨rfl | hc, howner⟩
    · exact .inl rfl
    · exact .inr ⟨hc, howner⟩
  · rintro (rfl | ⟨hc, howner⟩)
    · exact ⟨.inl rfl, rfl⟩
    · exact ⟨.inr hc, howner⟩

lemma Owns.free (howns : h.Owns i (b :: l)) (hb : b ∉ l) (hlive : ∀ c, c ∈ h'.live ↔ c ∈ h.live ∧ c ≠ b) :
    h'.Owns i l := by
  intro c
  rw [hlive c, and_right_comm, howns c, List.mem_cons]
  constructor
  · rintro ⟨rfl | hc, hne⟩
    · exact absurd rfl hne
    · exact hc
  · intro hc
    refine ⟨.inr hc, ?_⟩
    rintro rfl
    exact hb hc

lemma Owns.write (howns : h.Owns i l) (a : ℕ) (v : α) : (h.write a v).Owns i l := howns

/-- Of one owner there are no more live blocks than those that it knows of. -/
lemma Owns.length_le [DecidableEq ι] (howns : h.Owns i l) :
    (h.live.filter (·.owner = i)).length ≤ l.length := by
  refine ((h.live_nodup.filter _).subperm fun b hb => ?_).length_le
  rw [List.mem_filter, decide_eq_true_iff] at hb
  exact (howns b).mp hb

lemma Holds.alloc (hholds : h.Holds b n v) (halloc : h.alloc c = some h') : h'.Holds b n v := by
  obtain ⟨-, hmem, hlive⟩ := alloc_spec halloc
  exact ⟨by rw [hlive]; exact List.mem_cons_of_mem _ hholds.live, hholds.le, fun k hk => by rw [hmem, hholds.eq k hk]⟩

/-- A block that has just been allocated holds nothing yet. -/
lemma alloc_holds (halloc : h.alloc b = some h') (v : α) : h'.Holds b 0 v := by
  obtain ⟨-, -, hlive⟩ := alloc_spec halloc
  exact ⟨by rw [hlive]; exact List.mem_cons_self, Nat.zero_le _, fun k hk => absurd hk (Nat.not_lt_zero k)⟩

/-- The next element of a block is stored. -/
lemma Holds.store_next (hholds : h.Holds b k v) (hk : k < b.size) :
    (h.write (b.base + k) v).Holds b (k + 1) v where
  live := hholds.live
  le := hk
  eq m hm := by
    by_cases hmk : m = k
    · simp [hmk]
    · rw [h.write_mem_of_ne (by omega), hholds.eq m (by omega)]

lemma Holds.store_of_ne (hholds : h.Holds b n v) (hc : c ∈ h.live) (hne : b ≠ c) (hk : k < c.size) {w : α} :
    (h.write (c.base + k) w).Holds b n v where
  live := hholds.live
  le := hholds.le
  eq m hm := by
    rw [h.write_mem_of_ne, hholds.eq m hm]
    intro heq
    refine hne (eq_of_covers hholds.live hc (a := b.base + m) ?_ ?_)
    · exact Block.covers_base_add.mpr (hm.trans_le hholds.le)
    · rw [heq]
      exact Block.covers_base_add.mpr hk

lemma Holds.free (hholds : h.Holds b n v) (hne : b ≠ c) (hmem : h'.mem = h.mem)
    (hlive : ∀ d, d ∈ h'.live ↔ d ∈ h.live ∧ d ≠ c) : h'.Holds b n v :=
  ⟨(hlive b).mpr ⟨hholds.live, hne⟩, hholds.le, fun k hk => by rw [hmem, hholds.eq k hk]⟩

end Own

end Heap

end SharedHeap
