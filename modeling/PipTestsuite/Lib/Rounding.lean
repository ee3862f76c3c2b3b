import Mathlib.Tactic
import Mathlib.Data.Int.Log

/-! Rounding to binary floating point numbers of a given precision, to nearest and to even on a tie, without
bounds on the exponent. -/
namespace Rounding

/-- The nearest integer, the even one on a tie. -/
def nearest (q : ℚ) : ℤ :=
  if q - ⌊q⌋ < 1 / 2 ∨ q - ⌊q⌋ = 1 / 2 ∧ ⌊q⌋ % 2 = 0 then ⌊q⌋ else ⌊q⌋ + 1

lemma nearest_intCast (n : ℤ) : nearest n = n := by simp [nearest]

lemma floor_le_nearest (q : ℚ) : ⌊q⌋ ≤ nearest q := by
  unfold nearest
  split_ifs <;> omega

lemma nearest_le (q : ℚ) : nearest q ≤ ⌊q⌋ + 1 := by
  unfold nearest
  split_ifs <;> omega

lemma nearest_mono : Monotone nearest := by
  intro q q' h
  obtain hlt | heq := (Int.floor_mono h).lt_or_eq
  · calc nearest q ≤ ⌊q⌋ + 1 := nearest_le q
      _ ≤ ⌊q'⌋ := hlt
      _ ≤ nearest q' := floor_le_nearest q'
  · have hd : q - ⌊q⌋ ≤ q' - ⌊q'⌋ := by
      rw [heq]
      linarith
    by_cases hdown : q' - ⌊q'⌋ < 1 / 2 ∨ q' - ⌊q'⌋ = 1 / 2 ∧ ⌊q'⌋ % 2 = 0
    · have hdown' : q - ⌊q⌋ < 1 / 2 ∨ q - ⌊q⌋ = 1 / 2 ∧ ⌊q⌋ % 2 = 0 := by
        obtain hlt | ⟨htie, heven⟩ := hdown
        · exact .inl (hd.trans_lt hlt)
        · obtain hlt | htie' := (hd.trans htie.le).lt_or_eq
          · exact .inl hlt
          · exact .inr ⟨htie', by rw [heq, heven]⟩
      rw [nearest, nearest, if_pos hdown, if_pos hdown', heq]
    · calc nearest q ≤ ⌊q⌋ + 1 := nearest_le q
        _ = nearest q' := by rw [nearest, if_neg hdown, heq]

/-- The distance of two neighbours among the numbers of p digits around q. -/
def ulp (p : ℕ) (q : ℚ) : ℚ := 2 ^ (Int.log 2 q + 1 - p)

/-- The floating point number of p digits that is nearest; 0 for what is not positive. -/
def toFloat (p : ℕ) (q : ℚ) : ℚ := if 0 < q then nearest (q / ulp p q) * ulp p q else 0

section Bounds
variable {p : ℕ} {q q' : ℚ}

lemma ulp_pos (p : ℕ) (q : ℚ) : 0 < ulp p q := zpow_pos two_pos _

lemma pow_mul_ulp (n : ℤ) : (2 : ℚ) ^ n * ulp p q = 2 ^ (n + Int.log 2 q + 1 - p) := by
  rw [ulp, ← zpow_add₀ two_ne_zero]
  congr 1
  ring

/-- What is an integer number of neighbours is a floating point number. -/
lemma toFloat_eq_self {n : ℤ} (hq : 0 < q) (h : q / ulp p q = n) : toFloat p q = q := by
  rw [toFloat, if_pos hq, h, nearest_intCast, ← h, div_mul_cancel₀ q (ulp_pos p q).ne']

lemma toFloat_mul_pow {n : ℕ} (hn : n < 2 ^ p) (z : ℤ) : toFloat p (n * 2 ^ z) = n * 2 ^ z := by
  obtain rfl | hpos := Nat.eq_zero_or_pos n
  · simp [toFloat]
  · have hq : (0 : ℚ) < n * 2 ^ z := by positivity
    have hlt : (n : ℚ) * 2 ^ z < 2 ^ ((p : ℤ) + z) := by
      rw [zpow_add₀ two_ne_zero, zpow_natCast]
      gcongr
      exact_mod_cast hn
    have hlog : Int.log 2 ((n : ℚ) * 2 ^ z) < p + z :=
      (Int.lt_zpow_iff_log_lt one_lt_two hq).mp (by exact_mod_cast hlt)
    obtain ⟨k, hk⟩ := Int.eq_ofNat_of_zero_le (show 0 ≤ p + z - (Int.log 2 ((n : ℚ) * 2 ^ z) + 1) by omega)
    refine toFloat_eq_self (n := n * 2 ^ k) hq ?_
    rw [div_eq_iff (ulp_pos _ _).ne']
    push_cast
    rw [mul_assoc, ← zpow_natCast, pow_mul_ulp]
    congr 2
    omega

lemma toFloat_natCast {n : ℕ} (hp : 0 < p) (hn : n ≤ 2 ^ p) : toFloat p n = n := by
  obtain hlt | heq := hn.lt_or_eq
  · simpa using toFloat_mul_pow hlt 0
  · have hone : 1 < 2 ^ p := Nat.one_lt_two_pow hp.ne'
    rw [heq]
    simpa using toFloat_mul_pow hone p

lemma zpow_log_le (hq : 0 < q) : (2 : ℚ) ^ Int.log 2 q ≤ q := by
  exact_mod_cast Int.zpow_log_le_self one_lt_two hq

lemma lt_zpow_log_succ (q : ℚ) : q < (2 : ℚ) ^ (Int.log 2 q + 1) := by
  exact_mod_cast Int.lt_zpow_succ_log_self one_lt_two q

/-- A number is rounded to no more than the next power of two, and to no less than the last one. -/
lemma toFloat_le_zpow (hq : 0 < q) : toFloat p q ≤ 2 ^ (Int.log 2 q + 1) := by
  have hscaled : q / ulp p q ≤ ((2 ^ p : ℕ) : ℤ) := by
    rw [div_le_iff₀ (ulp_pos p q)]
    push_cast
    rw [← zpow_natCast, pow_mul_ulp]
    refine (lt_zpow_log_succ q).le.trans (le_of_eq ?_)
    congr 1
    ring
  rw [toFloat, if_pos hq]
  calc nearest (q / ulp p q) * ulp p q ≤ ((2 ^ p : ℕ) : ℤ) * ulp p q := by
        gcongr
        · exact (ulp_pos p q).le
        · exact (nearest_mono hscaled).trans (nearest_intCast _).le
    _ = 2 ^ (Int.log 2 q + 1) := by
        push_cast
        rw [← zpow_natCast, pow_mul_ulp]
        congr 1
        ring

lemma zpow_le_toFloat (hp : 0 < p) (hq : 0 < q) : 2 ^ Int.log 2 q ≤ toFloat p q := by
  obtain ⟨r, rfl⟩ : ∃ r, p = r + 1 := Nat.exists_eq_add_one.mpr hp
  have hscaled : ((2 ^ r : ℕ) : ℤ) ≤ q / ulp (r + 1) q := by
    rw [le_div_iff₀ (ulp_pos (r + 1) q)]
    push_cast
    rw [← zpow_natCast, pow_mul_ulp]
    refine (le_of_eq ?_).trans (zpow_log_le hq)
    congr 1
    push_cast
    ring
  rw [toFloat, if_pos hq]
  calc (2 : ℚ) ^ Int.log 2 q = ((2 ^ r : ℕ) : ℤ) * ulp (r + 1) q := by
        push_cast
        rw [← zpow_natCast, pow_mul_ulp]
        congr 1
        push_cast
        ring
    _ ≤ nearest (q / ulp (r + 1) q) * ulp (r + 1) q := by
        gcongr
        · exact (ulp_pos (r + 1) q).le
        · exact (nearest_intCast _).symm.le.trans (nearest_mono hscaled)

theorem toFloat_mono (hp : 0 < p) : Monotone (toFloat p) := by
  intro q q' h
  by_cases hq : 0 < q
  · have hq' := hq.trans_le h
    obtain hlt | heq := (Int.log_mono_right (b := 2) hq h).lt_or_eq
    · calc toFloat p q ≤ 2 ^ (Int.log 2 q + 1) := toFloat_le_zpow hq
        _ ≤ 2 ^ Int.log 2 q' := zpow_le_zpow_right₀ one_le_two hlt
        _ ≤ toFloat p q' := zpow_le_toFloat hp hq'
    · have hulp : ulp p q = ulp p q' := by rw [ulp, ulp, heq]
      have hpos := ulp_pos p q'
      rw [toFloat, toFloat, if_pos hq, if_pos hq', hulp]
      gcongr
      exact nearest_mono (by gcongr)
  · rw [toFloat, if_neg hq]
    by_cases hq' : 0 < q'
    · exact (zpow_pos two_pos _).le.trans (zpow_le_toFloat hp hq')
    · rw [toFloat, if_neg hq']

lemma toFloat_le_natCast {n : ℕ} (hp : 0 < p) (hn : n ≤ 2 ^ p) (h : q ≤ n) : toFloat p q ≤ n :=
  (toFloat_mono hp h).trans (toFloat_natCast hp hn).le

lemma natCast_le_toFloat {n : ℕ} (hp : 0 < p) (hn : n ≤ 2 ^ p) (h : n ≤ q) : n ≤ toFloat p q :=
  (toFloat_natCast hp hn).ge.trans (toFloat_mono hp h)

end Bounds

end Rounding
