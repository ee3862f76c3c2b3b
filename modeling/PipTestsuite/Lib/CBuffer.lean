import Mathlib.Tactic

/-! Strings in buffers, and the string functions of C on them. What reads or writes outside of a buffer, or reads
what has not been written, has no result. -/
namespace CBuffer

/-- An object in memory, byte for byte; none is a byte that has no value yet. -/
abbrev Buffer := List (Option UInt8)

/-- A string without its NUL. -/
abbrev CString := {s : List UInt8 // 0 ∉ s}

/-- The object of a string. -/
def object (s : List UInt8) : Buffer := (s ++ [0]).map some

/-- tolower in the C locale. -/
def lower (c : UInt8) : UInt8 := if 65 ≤ c.toNat ∧ c.toNat ≤ 90 then c + 32 else c

/-- A string as far as its letter case does not count. -/
def fold (s : List UInt8) : List UInt8 := s.map lower

def write (b : Buffer) (i : ℕ) (c : UInt8) : Option Buffer :=
  if i < b.length then some (b.set i (some c)) else none

/-- strcasecmp( a, b ) == 0 -/
def strcasecmp : Buffer → Buffer → Option Bool
  | some x :: a, some y :: b =>
    if lower x ≠ lower y then some false else if x = 0 then some true else strcasecmp a b
  | _, _ => none

/-- strncasecmp( a, b, n ) == 0 -/
def strncasecmp : ℕ → Buffer → Buffer → Option Bool
  | 0, _, _ => some true
  | n + 1, some x :: a, some y :: b =>
    if lower x ≠ lower y then some false else if x = 0 then some true else strncasecmp n a b
  | _ + 1, _, _ => none

/-- The last n bytes that strncpy writes, from position i on, are NULs. -/
def padNul : ℕ → Buffer → ℕ → Option Buffer
  | 0, dest, _ => some dest
  | n + 1, dest, i => do
    let dest ← write dest i 0
    padNul n dest (i + 1)

/-- strncpy( dest + i, src, n ) -/
def strncpy : ℕ → Buffer → ℕ → Buffer → Option Buffer
  | 0, dest, _, _ => some dest
  | n + 1, dest, i, some c :: src => do
    let dest ← write dest i c
    if c = 0 then padNul n dest (i + 1) else strncpy n dest (i + 1) src
  | _ + 1, _, _, _ => none

/-- stpcpy( dest + i, src ), with the position that it returns. -/
def stpcpy : Buffer → ℕ → Buffer → Option (Buffer × ℕ)
  | dest, i, some c :: src => do
    let dest ← write dest i c
    if c = 0 then some (dest, i) else stpcpy dest (i + 1) src
  | _, _, _ => none

lemma lower_eq_zero {c : UInt8} : lower c = 0 ↔ c = 0 := by
  unfold lower
  split_ifs with h
  · have hne : c ≠ 0 := by
      rintro rfl
      exact absurd h.1 (by decide)
    have hne' : c + 32 ≠ 0 := by
      intro hzero
      have hval := congrArg UInt8.toNat hzero
      rw [UInt8.toNat_add] at hval
      have h32 : (32 : UInt8).toNat = 32 := rfl
      have h0 : (0 : UInt8).toNat = 0 := rfl
      omega
    exact iff_of_false hne' hne
  · exact Iff.rfl

@[simp] lemma lower_zero : lower 0 = 0 := rfl

@[simp] lemma object_nil : object [] = [some 0] := rfl
@[simp] lemma object_cons (c : UInt8) (s : List UInt8) : object (c :: s) = some c :: object s := rfl

/-- The first n bytes of a string, with NULs behind it. -/
def padded (n : ℕ) (s : List UInt8) : List UInt8 := s.take n ++ List.replicate (n - s.length) 0

@[simp] lemma padded_length (n : ℕ) (s : List UInt8) : (padded n s).length = n := by
  rw [padded, List.length_append, List.length_take, List.length_replicate]
  omega

@[simp] lemma padded_succ_cons (n : ℕ) (c : UInt8) (s : List UInt8) : padded (n + 1) (c :: s) = c :: padded n s := by
  simp [padded]

@[simp] lemma padded_succ_nil (n : ℕ) : padded (n + 1) [] = 0 :: padded n [] := by
  simp [padded, List.replicate_succ]

@[simp] lemma fold_nil : fold [] = [] := rfl
@[simp] lemma fold_cons (c : UInt8) (s : List UInt8) : fold (c :: s) = lower c :: fold s := rfl

/-- A string is compared with a shorter one in a buffer without leaving it. -/
theorem strcasecmp_padded {n : ℕ} {s t : List UInt8} (hs : 0 ∉ s) (ht : 0 ∉ t) (hlen : t.length < n) :
    strcasecmp ((padded n s).map some) (object t) = some (decide (fold s = fold t)) := by
  induction t generalizing n s with
  | nil =>
    obtain ⟨n, rfl⟩ : ∃ m, n = m + 1 := Nat.exists_eq_add_one.mpr (by omega)
    cases s with
    | nil => simp [strcasecmp]
    | cons c s =>
      have hc : lower c ≠ 0 := fun h => hs (by simp [lower_eq_zero.mp h])
      simp [strcasecmp, hc]
  | cons y t ih =>
    obtain ⟨n, rfl⟩ : ∃ m, n = m + 1 := Nat.exists_eq_add_one.mpr (by simp at hlen; omega)
    have hy : lower y ≠ 0 := fun h => ht (by simp [lower_eq_zero.mp h])
    cases s with
    | nil => simp [strcasecmp, hy.symm]
    | cons c s =>
      have hc : c ≠ 0 := fun h => hs (by simp [h])
      rw [padded_succ_cons, List.map_cons, object_cons, strcasecmp]
      by_cases heq : lower c = lower y
      · rw [if_neg (not_not.mpr heq), if_neg hc, ih (fun h => hs (List.mem_cons_of_mem c h))
          (fun h => ht (List.mem_cons_of_mem y h)) (Nat.lt_of_succ_lt_succ hlen)]
        simp [heq]
      · rw [if_pos heq]
        simp [heq]

/-- The first n characters are compared. -/
theorem strncasecmp_object {n : ℕ} {s t : List UInt8} (hs : 0 ∉ s) (ht : 0 ∉ t) :
    strncasecmp n (object s) (object t) = some (decide (fold (s.take n) = fold (t.take n))) := by
  induction n generalizing s t with
  | zero => simp [strncasecmp]
  | succ n ih =>
    cases s with
    | nil =>
      cases t with
      | nil => simp [strncasecmp]
      | cons y t =>
        have hy : lower y ≠ 0 := fun h => ht (by simp [lower_eq_zero.mp h])
        simp [strncasecmp, hy.symm]
    | cons c s =>
      have hc : lower c ≠ 0 := fun h => hs (by simp [lower_eq_zero.mp h])
      cases t with
      | nil => simp [strncasecmp, hc]
      | cons y t =>
        rw [object_cons, object_cons, strncasecmp]
        by_cases heq : lower c = lower y
        · rw [if_neg (not_not.mpr heq), if_neg (fun h => hc (lower_eq_zero.mpr h)),
            ih (fun h => hs (List.mem_cons_of_mem c h)) (fun h => ht (List.mem_cons_of_mem y h))]
          simp [heq]
        · rw [if_pos heq]
          simp [heq]

section Copies
variable {dest : Buffer} {i : ℕ}

/-- The buffer with some bytes from position i on. -/
def overwritten (dest : Buffer) (i : ℕ) (bytes : List UInt8) : Buffer :=
  dest.take i ++ bytes.map some ++ dest.drop (i + bytes.length)

lemma write_eq (hi : i < dest.length) (c : UInt8) : write dest i c = some (dest.set i (some c)) := if_pos hi

lemma overwritten_set (hi : i < dest.length) (c : UInt8) (bytes : List UInt8) :
    overwritten (dest.set i (some c)) (i + 1) bytes = overwritten dest i (c :: bytes) := by
  have htake : (dest.set i (some c)).take (i + 1) = dest.take i ++ [some c] := by
    rw [List.take_add_one, List.take_set_of_le le_rfl, List.getElem?_set_self hi, Option.toList_some]
  have hdrop : (dest.set i (some c)).drop (i + 1 + bytes.length) = dest.drop (i + (c :: bytes).length) := by
    rw [List.drop_set_of_lt (by omega), List.length_cons]
    congr 1
    omega
  rw [overwritten, overwritten, htake, hdrop, List.map_cons, List.append_assoc (dest.take i)]
  rfl

lemma padNul_eq {n : ℕ} (h : i + n ≤ dest.length) :
    padNul n dest i = some (overwritten dest i (List.replicate n 0)) := by
  induction n generalizing dest i with
  | zero => simp [padNul, overwritten]
  | succ n ih =>
    rw [padNul, write_eq (by omega), Option.bind_eq_bind, Option.bind_some,
      ih (by rw [List.length_set]; omega), overwritten_set (by omega), List.replicate_succ]

/-- strncpy writes n bytes and no others. -/
theorem strncpy_object {n : ℕ} {s : List UInt8} (hs : 0 ∉ s) (h : i + n ≤ dest.length) :
    strncpy n dest i (object s) = some (overwritten dest i (padded n s)) := by
  induction n generalizing dest i s with
  | zero => simp [strncpy, overwritten, padded]
  | succ n ih =>
    cases s with
    | nil =>
      rw [object_nil, strncpy, write_eq (by omega), Option.bind_eq_bind, Option.bind_some, if_pos rfl,
        padNul_eq (by rw [List.length_set]; omega), overwritten_set (by omega)]
      simp [padded, List.replicate_succ]
    | cons c s =>
      have hc : c ≠ 0 := fun h => hs (by simp [h])
      rw [object_cons, strncpy, write_eq (by omega), Option.bind_eq_bind, Option.bind_some, if_neg hc,
        ih (fun h => hs (List.mem_cons_of_mem c h)) (by rw [List.length_set]; omega), overwritten_set (by omega),
        padded_succ_cons]

/-- stpcpy writes the string and its NUL. -/
theorem stpcpy_object {s : List UInt8} (hs : 0 ∉ s) (h : i + s.length < dest.length) :
    stpcpy dest i (object s) = some (overwritten dest i (s ++ [0]), i + s.length) := by
  induction s generalizing dest i with
  | nil =>
    rw [List.length_nil, Nat.add_zero] at h
    rw [object_nil, stpcpy, write_eq h, Option.bind_eq_bind, Option.bind_some, if_pos rfl]
    have hset := overwritten_set h 0 []
    simp only [overwritten, List.map_nil, List.append_nil, List.length_nil, Nat.add_zero, List.take_append_drop] at hset
    rw [hset]
    rfl
  | cons c s ih =>
    have hc : c ≠ 0 := fun h => hs (by simp [h])
    rw [List.length_cons] at h
    rw [object_cons, stpcpy, write_eq (by omega), Option.bind_eq_bind, Option.bind_some, if_neg hc,
      ih (fun h => hs (List.mem_cons_of_mem c h)) (by rw [List.length_set]; omega), overwritten_set (by omega)]
    simp only [List.cons_append, List.length_cons, Option.some.injEq, Prod.mk.injEq, true_and]
    omega

end Copies

end CBuffer
