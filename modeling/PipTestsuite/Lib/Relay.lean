import Mathlib.Tactic

/-! A chain of queues with a buffer between each two of them, through which a stream goes from queue 0 to
queue k: what is in the chain, with the oldest part first. -/
namespace Relay
variable {α : Type*} {pipe pipe' buf buf' : ℕ → List α} {i k : ℕ}

def contents (pipe buf : ℕ → List α) : ℕ → List α
  | 0 => pipe 0
  | k + 1 => pipe (k + 1) ++ (buf k ++ contents pipe buf k)

lemma contents_congr (hpipe : ∀ i ≤ k, pipe' i = pipe i) (hbuf : ∀ i < k, buf' i = buf i) :
    contents pipe' buf' k = contents pipe buf k := by
  induction k with
  | zero => exact hpipe 0 le_rfl
  | succ k ih =>
    rw [contents, contents, hpipe (k + 1) le_rfl, hbuf k (Nat.lt_succ_self k),
      ih (fun i hi => hpipe i (Nat.le_succ_of_le hi)) fun i hi => hbuf i (Nat.lt_succ_of_lt hi)]

/-- The last queue has the oldest part. -/
lemma contents_update_last (pipe buf : ℕ → List α) (k : ℕ) (l l' : List α) :
    contents (Function.update pipe k (l ++ l')) buf k = l ++ contents (Function.update pipe k l') buf k := by
  cases k with
  | zero => simp [contents]
  | succ k =>
    have hbelow : ∀ q, contents (Function.update pipe (k + 1) q) buf k = contents pipe buf k := by
      intro q
      refine contents_congr (fun i hi => ?_) fun _ _ => rfl
      rw [Function.update_of_ne (by omega)]
    simp [contents, hbelow]

/-- What comes in at queue 0 is the youngest part. -/
lemma contents_push (pipe buf : ℕ → List α) (k : ℕ) (l : List α) :
    contents (Function.update pipe 0 (pipe 0 ++ l)) buf k = contents pipe buf k ++ l := by
  induction k with
  | zero => simp [contents]
  | succ k ih => simp [contents, ih]

/-- What goes out of the last queue. -/
lemma contents_pop (pipe buf : ℕ → List α) (k n : ℕ) :
    (pipe k).take n ++ contents (Function.update pipe k ((pipe k).drop n)) buf k = contents pipe buf k := by
  rw [← contents_update_last, List.take_append_drop, Function.update_eq_self]

/-- A step of the chain that is seen from queue i + 1 on. -/
lemma contents_step (hi : i < k) (hpipe : ∀ j, i + 1 < j → pipe' j = pipe j) (hbuf : ∀ j, i < j → buf' j = buf j)
    (hstep : contents pipe' buf' (i + 1) = contents pipe buf (i + 1)) :
    contents pipe' buf' k = contents pipe buf k := by
  induction k with
  | zero => exact absurd hi (Nat.not_lt_zero i)
  | succ k ih =>
    obtain hlt | rfl := Nat.lt_succ_iff_lt_or_eq.mp hi
    · rw [contents, contents, ih hlt, hpipe (k + 1) (by omega), hbuf k hlt]
    · exact hstep

/-- The empty buffer behind a queue takes some of it over. -/
lemma contents_pull (hi : i < k) (hempty : buf i = []) (n : ℕ) :
    contents (Function.update pipe i ((pipe i).drop n)) (Function.update buf i ((pipe i).take n)) k =
      contents pipe buf k := by
  apply contents_step hi
  · exact fun j hj => Function.update_of_ne (by omega) _ _
  · exact fun j hj => Function.update_of_ne (by omega) _ _
  · have hbelow : contents (Function.update pipe i ((pipe i).drop n)) (Function.update buf i ((pipe i).take n)) i =
        contents (Function.update pipe i ((pipe i).drop n)) buf i :=
      contents_congr (fun _ _ => rfl) fun j hj => Function.update_of_ne hj.ne _ _
    rw [contents, contents, hbelow, Function.update_self, contents_pop, hempty, List.nil_append,
      Function.update_of_ne (by omega)]

/-- A buffer gives some of its contents on to the next queue. -/
lemma contents_put (hi : i < k) (n : ℕ) :
    contents (Function.update pipe (i + 1) (pipe (i + 1) ++ (buf i).take n))
      (Function.update buf i ((buf i).drop n)) k = contents pipe buf k := by
  apply contents_step hi
  · exact fun j hj => Function.update_of_ne (by omega) _ _
  · exact fun j hj => Function.update_of_ne (by omega) _ _
  · have hbelow : contents (Function.update pipe (i + 1) (pipe (i + 1) ++ (buf i).take n))
        (Function.update buf i ((buf i).drop n)) i = contents pipe buf i :=
      contents_congr (fun j hj => Function.update_of_ne (by omega) _ _) fun j hj => Function.update_of_ne hj.ne _ _
    rw [contents, contents, hbelow, Function.update_self, Function.update_self, List.append_assoc,
      ← List.append_assoc _ _ (contents pipe buf i), List.take_append_drop]

lemma contents_eq_nil : contents pipe buf k = [] ↔ (∀ i ≤ k, pipe i = []) ∧ ∀ i < k, buf i = [] := by
  induction k with
  | zero => simp [contents]
  | succ k ih =>
    rw [contents, List.append_eq_nil_iff, List.append_eq_nil_iff, ih]
    constructor
    · rintro ⟨hpipe, hbuf, hpipes, hbufs⟩
      constructor
      · intro i hi
        obtain rfl | hlt := Nat.eq_or_lt_of_le hi
        · exact hpipe
        · exact hpipes i (Nat.le_of_lt_succ hlt)
      · intro i hi
        obtain hlt | rfl := Nat.lt_succ_iff_lt_or_eq.mp hi
        · exact hbufs i hlt
        · exact hbuf
    · rintro ⟨hpipe, hbuf⟩
      exact ⟨hpipe _ le_rfl, hbuf k (Nat.lt_succ_self k), fun i hi => hpipe i (Nat.le_succ_of_le hi),
        fun i hi => hbuf i (Nat.lt_succ_of_lt hi)⟩

end Relay
