import Mathlib.Tactic

/-! Tables of file descriptors as a process has them, with what the system calls on them do, and the table of
a program that keeps a descriptor for each of its files. -/
namespace DescriptorTable

/-- The file of each open descriptor with its close-on-exec mark. Beyond some size nothing is open. -/
structure Table (φ : Type*) where
  entry : ℕ → Option (φ × Bool)
  size : ℕ
  closed : ∀ fd, size ≤ fd → entry fd = none

namespace Table
variable {φ : Type*}

/-- A file is open in the table. -/
def has (T : Table φ) (f : φ) : Prop := ∃ fd < T.size, (T.entry fd).map Prod.fst = some f

instance [DecidableEq φ] (T : Table φ) (f : φ) : Decidable (T.has f) :=
  inferInstanceAs (Decidable (∃ fd < T.size, _))

def lowestFree (T : Table φ) : ℕ := ((List.range T.size).find? fun fd => (T.entry fd).isNone).getD T.size

def set (T : Table φ) (fd : ℕ) (e : Option (φ × Bool)) : Table φ where
  entry := Function.update T.entry fd e
  size := max T.size (fd + 1)
  closed k hk := by
    have hlt : fd < k := lt_of_lt_of_le (Nat.lt_of_succ_le (le_max_right T.size (fd + 1))) hk
    rw [Function.update_of_ne hlt.ne']
    exact T.closed k ((le_max_left _ _).trans hk)

/-- The lowest free descriptor gets the file. -/
def openFile (T : Table φ) (f : φ) : ℕ × Table φ := (T.lowestFree, T.set T.lowestFree (some (f, false)))

def close (T : Table φ) (fd : ℕ) : Option (Table φ) :=
  match T.entry fd with
  | some _ => some (T.set fd none)
  | none => none

/-- The copy has no close-on-exec mark. -/
def dup2 (T : Table φ) (old new : ℕ) : Option (Table φ) :=
  match T.entry old with
  | some (f, _) => some (T.set new (some (f, false)))
  | none => none

def setCloseOnExec (T : Table φ) (fd : ℕ) : Option (Table φ) :=
  match T.entry fd with
  | some (f, _) => some (T.set fd (some (f, true)))
  | none => none

/-- What a new process inherits. -/
def inherit (T : Table φ) : Table φ where
  entry fd := (T.entry fd).filter fun e => !e.2
  size := T.size
  closed fd hfd := by rw [T.closed fd hfd, Option.filter_none]

/-- The same descriptors with other names for the files. -/
def map {ψ : Type*} (g : φ → ψ) (T : Table φ) : Table ψ where
  entry fd := (T.entry fd).map fun e => (g e.1, e.2)
  size := T.size
  closed fd hfd := by rw [T.closed fd hfd, Option.map_none]

/-- A terminated process has nothing open. -/
def empty : Table φ := ⟨fun _ => none, 0, fun _ _ => rfl⟩

@[simp] lemma set_entry (T : Table φ) (fd : ℕ) (e : Option (φ × Bool)) (k : ℕ) :
    (T.set fd e).entry k = if k = fd then e else T.entry k := by
  simp only [set, Function.update_apply]

@[simp] lemma inherit_entry (T : Table φ) (fd : ℕ) :
    T.inherit.entry fd = (T.entry fd).filter fun e => !e.2 := rfl

lemma has_iff {T : Table φ} {f : φ} : T.has f ↔ ∃ fd c, T.entry fd = some (f, c) := by
  constructor
  · rintro ⟨fd, -, h⟩
    obtain ⟨⟨g, c⟩, he, rfl⟩ := Option.map_eq_some_iff.mp h
    exact ⟨fd, c, he⟩
  · rintro ⟨fd, c, h⟩
    refine ⟨fd, ?_, by rw [h]; rfl⟩
    by_contra hle
    rw [T.closed fd (not_lt.mp hle)] at h
    cases h

lemma has_of_set {T : Table φ} {k : ℕ} {f : φ} (h : (T.set k none).has f) : T.has f := by
  obtain ⟨k', c, hk'⟩ := has_iff.mp h
  rw [set_entry] at hk'
  split_ifs at hk'
  exact has_iff.mpr ⟨k', c, hk'⟩

lemma has_of_setCloseOnExec {T T' : Table φ} {k : ℕ} {f : φ} (h : T.setCloseOnExec k = some T') (hf : T'.has f) :
    T.has f := by
  unfold setCloseOnExec at h
  split at h
  · next g c hk =>
    obtain rfl := Option.some.inj h
    obtain ⟨k', c', hk'⟩ := has_iff.mp hf
    rw [set_entry] at hk'
    split_ifs at hk'
    · obtain ⟨rfl, -⟩ := Prod.mk.inj (Option.some.inj hk')
      exact has_iff.mpr ⟨k, c, hk⟩
    · exact has_iff.mpr ⟨k', c', hk'⟩
  · cases h

lemma not_empty_has (f : φ) : ¬ (empty : Table φ).has f := by
  rintro ⟨fd, hlt, -⟩
  exact Nat.not_lt_zero fd hlt

lemma lowestFree_entry (T : Table φ) : T.entry T.lowestFree = none := by
  unfold lowestFree
  cases hfind : (List.range T.size).find? fun fd => (T.entry fd).isNone with
  | none => exact T.closed T.size le_rfl
  | some fd =>
    have hnone := List.find?_some hfind
    exact Option.isNone_iff_eq_none.mp hnone

lemma lowestFree_le (T : Table φ) {fd : ℕ} (h : T.entry fd = none) : T.lowestFree ≤ fd := by
  unfold lowestFree
  cases hfind : (List.range T.size).find? fun fd => (T.entry fd).isNone with
  | none =>
    rw [List.find?_eq_none] at hfind
    by_contra hlt
    exact hfind fd (List.mem_range.mpr (not_le.mp hlt)) (by rw [h]; rfl)
  | some k =>
    obtain ⟨-, -, hbefore⟩ := List.find?_range_eq_some.mp hfind
    by_contra hlt
    have hopen := hbefore fd (not_le.mp hlt)
    simp [h] at hopen

/-- Of two descriptors that are opened in turn the second one is the higher one. -/
lemma lowestFree_lt_openFile (T : Table φ) (f : φ) : T.lowestFree < (T.openFile f).2.lowestFree := by
  have hfree := (T.openFile f).2.lowestFree_entry
  simp only [openFile, set_entry] at hfree ⊢
  split_ifs at hfree with heq
  exact lt_of_le_of_ne (T.lowestFree_le hfree) (Ne.symm heq)

/-- A program keeps the descriptors of its files; the files that are open have the given marks, and each is
open once. Other files may be open as well. -/
structure Owns (T : Table φ) (mine : φ → Prop) (fd : φ → ℕ) (opened : φ → Prop) (mark : φ → Bool) : Prop where
  entry : ∀ f, opened f → T.entry (fd f) = some (f, mark f)
  only : ∀ k f c, mine f → T.entry k = some (f, c) → opened f ∧ k = fd f
  mine : ∀ f, opened f → mine f

section Owns
variable {T T' : Table φ} {mine : φ → Prop} {fd : φ → ℕ} {opened opened' : φ → Prop} {mark : φ → Bool} {f g : φ}

lemma Owns.congr (h : Owns T mine fd opened mark) (hiff : ∀ f, opened' f ↔ opened f) :
    Owns T mine fd opened' mark where
  entry f hf := h.entry f ((hiff f).mp hf)
  only k f c hf hk := ((h.only k f c hf hk).imp_left (hiff f).mpr)
  mine f hf := h.mine f ((hiff f).mp hf)

lemma Owns.has_iff (h : Owns T mine fd opened mark) (hf : mine f) : T.has f ↔ opened f := by
  rw [Table.has_iff]
  constructor
  · rintro ⟨k, c, hk⟩
    exact (h.only k f c hf hk).1
  · exact fun hopen => ⟨fd f, mark f, h.entry f hopen⟩

/-- Two open files have two descriptors. -/
lemma Owns.fd_ne (h : Owns T mine fd opened mark) (hf : opened f) (hg : opened g) (hne : f ≠ g) : fd f ≠ fd g := by
  intro heq
  have hentry := h.entry f hf
  rw [heq, h.entry g hg] at hentry
  exact hne (Prod.mk.inj (Option.some.inj hentry)).1.symm

lemma Owns.openFile [DecidableEq φ] (h : Owns T mine fd opened mark) (hf : mine f) (hnew : ¬ opened f)
    (hmark : mark f = false) :
    Owns (T.openFile f).2 mine (Function.update fd f T.lowestFree) (fun g => g = f ∨ opened g) mark where
  entry g hg := by
    simp only [Table.openFile, set_entry]
    obtain rfl | hne := eq_or_ne g f
    · simp [hmark]
    · have hg := hg.resolve_left hne
      have hentry := h.entry g hg
      have hfree : fd g ≠ T.lowestFree := by
        intro heq
        rw [heq, T.lowestFree_entry] at hentry
        cases hentry
      rw [Function.update_of_ne hne, if_neg hfree, hentry]
  only k g c hg hk := by
    simp only [Table.openFile, set_entry] at hk
    split_ifs at hk with heq
    · obtain ⟨rfl, -⟩ := Prod.mk.inj (Option.some.inj hk)
      simp [heq]
    · obtain ⟨hopen, rfl⟩ := h.only k g c hg hk
      have hne : g ≠ f := by
        rintro rfl
        exact hnew hopen
      simp [hne, hopen]
  mine g hg := by
    obtain rfl | hg := hg
    · exact hf
    · exact h.mine g hg

lemma close_eq_some {k : ℕ} : T.close k = some T' ↔ (∃ e, T.entry k = some e) ∧ T' = T.set k none := by
  unfold Table.close
  cases hk : T.entry k with
  | none => simp
  | some e => simp [eq_comm]

/-- Whatever descriptor is closed, the files with other ones stay open. -/
lemma Owns.close {k : ℕ} (h : Owns T mine fd opened mark) (hclose : T.close k = some T') :
    Owns T' mine fd (fun g => opened g ∧ fd g ≠ k) mark := by
  obtain ⟨-, rfl⟩ := close_eq_some.mp hclose
  constructor
  · rintro g ⟨hg, hne⟩
    rw [set_entry, if_neg hne, h.entry g hg]
  · intro k' g c hg hk
    rw [set_entry] at hk
    split_ifs at hk with heq
    obtain ⟨hopen, rfl⟩ := h.only k' g c hg hk
    exact ⟨⟨hopen, heq⟩, rfl⟩
  · exact fun g hg => h.mine g hg.1

lemma Owns.setCloseOnExec [DecidableEq φ] (h : Owns T mine fd opened mark) (hf : opened f) :
    ∃ T', T.setCloseOnExec (fd f) = some T' ∧ Owns T' mine fd opened (Function.update mark f true) := by
  have hentry := h.entry f hf
  refine ⟨T.set (fd f) (some (f, true)), by simp only [Table.setCloseOnExec, hentry], ?_, ?_, h.mine⟩
  · intro g hg
    rw [set_entry]
    obtain rfl | hne := eq_or_ne g f
    · simp
    · rw [if_neg (h.fd_ne hg hf hne), h.entry g hg, Function.update_of_ne hne]
  · intro k g c hg hk
    rw [set_entry] at hk
    split_ifs at hk with heq
    · obtain ⟨rfl, -⟩ := Prod.mk.inj (Option.some.inj hk)
      exact ⟨hf, heq⟩
    · exact h.only k g c hg hk

/-- A new process gets the files without the mark. -/
lemma Owns.inherit (h : Owns T mine fd opened mark) :
    Owns T.inherit mine fd (fun g => opened g ∧ mark g = false) mark where
  entry g hg := by simp [h.entry g hg.1, hg.2]
  only k g c hg hk := by
    obtain ⟨hk, hc⟩ := Option.filter_eq_some_iff.mp hk
    obtain ⟨hopen, rfl⟩ := h.only k g c hg hk
    have heq := h.entry g hopen
    rw [hk] at heq
    have hmark : c = mark g := (Prod.mk.inj (Option.some.inj heq)).2
    refine ⟨⟨hopen, ?_⟩, rfl⟩
    rw [← hmark]
    simpa using hc
  mine g hg := h.mine g hg.1

end Owns

end Table

end DescriptorTable
