import PipTestsuite.Timer

/-! timer.c: the period that main gives to set_timer, against the product of the time and all factors. -/
namespace PipTestsuite.Timer

/-- The long that strtol() returns for the digits of an integer. -/
def strtol (z : ℤ) : ℤ := max (-2 ^ 63) (min (2 ^ 63 - 1) z)

/-- With the time a, and the PIP_TEST_TIMER_SCALE s, when it is set and starts with a digit. -/
def Env.withArgs (e : Env) (a : ℤ) (s : Option ℕ) : Env :=
  { e with time := strtol a, timerScale := s.map fun s => strtol s }

def product (e : Env) (a : ℤ) (s : Option ℕ) : ℤ :=
  |a| * s.getD 1 * (if e.debug then debugScale else 1) * (if e.dockerenv then vmScale else 1)

structure ScaledExactly (e : Env) (a : ℤ) (s : Option ℕ) : Prop where
  exact : (e.withArgs a s).period = product e a s
  nonneg : 0 ≤ (e.withArgs a s).period
  atLeast : 1 ≤ s.getD 1 → |a| ≤ (e.withArgs a s).period

section Scale
variable {z : ℤ}

@[simp] lemma toInt_toInt (z : ℤ) : toInt (toInt z) = toInt z := toInt_eq_self (toInt_range z).1 (toInt_range z).2

@[simp] lemma toInt_mul (y z : ℤ) : toInt (toInt y * z) = toInt (y * z) := Int.bmod_mul_bmod

/-- All conversions together are one. -/
lemma period_eq (e : Env) : e.period = toInt (|toInt e.time| * e.timerScale.getD 1 *
    (if e.debug then debugScale else 1) * (if e.dockerenv then vmScale else 1)) := by
  have habs : ∃ t, toInt t = (if toInt e.time < 0 then toInt (-toInt e.time) else toInt e.time) ∧
      t = |toInt e.time| := by
    refine ⟨_, ?_, rfl⟩
    split_ifs with hneg
    · rw [abs_of_neg hneg]
    · rw [abs_of_nonneg (by omega), toInt_toInt]
  obtain ⟨t, ht, ht'⟩ := habs
  simp only [Env.period, ← ht, ← ht']
  cases e.timerScale <;> cases e.debug <;> cases e.dockerenv <;> simp

lemma strtol_eq_self (h : |z| < 2 ^ 31) : strtol z = z := by
  rw [abs_lt] at h
  unfold strtol
  omega

/-- What the time is multiplied by. -/
def Env.factor (e : Env) : ℤ := (if e.debug then debugScale else 1) * (if e.dockerenv then vmScale else 1)

lemma factor_pos (e : Env) : 1 ≤ e.factor := by
  unfold Env.factor debugScale vmScale
  split_ifs <;> norm_num

lemma product_eq (e : Env) (a : ℤ) (s : Option ℕ) : product e a s = |a| * s.getD 1 * e.factor := by
  rw [product, Env.factor, mul_assoc]

lemma withArgs_period (e : Env) (a : ℤ) (s : Option ℕ) :
    (e.withArgs a s).period = toInt (|toInt (strtol a)| * strtol (s.getD 1) * e.factor) := by
  have hscale : (e.withArgs a s).timerScale.getD 1 = strtol (s.getD 1) := by
    cases s <;> rfl
  rw [period_eq, hscale, Env.factor, mul_assoc]
  rfl

lemma product_nonneg (e : Env) (a : ℤ) (s : Option ℕ) : 0 ≤ product e a s := by
  have hfactor := factor_pos e
  rw [product_eq]
  positivity

/-- A factor is not larger than the product. -/
lemma le_product (e : Env) (a : ℤ) {s : Option ℕ} (hs : 1 ≤ s.getD 1) : |a| ≤ product e a s := by
  have hs' : (1 : ℤ) ≤ s.getD 1 := by exact_mod_cast hs
  rw [product_eq, mul_assoc]
  exact le_mul_of_one_le_right (abs_nonneg a) (one_le_mul_of_one_le_of_one_le hs' (factor_pos e))

lemma scale_le_product (e : Env) {a : ℤ} (ha : a ≠ 0) (s : Option ℕ) : s.getD 1 ≤ product e a s := by
  have ha' : 1 ≤ |a| := Int.one_le_abs ha
  rw [product_eq, mul_comm |a|, mul_assoc]
  exact le_mul_of_one_le_right (by positivity) (one_le_mul_of_one_le_of_one_le ha' (factor_pos e))

/-- The long values are exact, unless one of them does not matter. -/
lemma period_eq_product {e : Env} {a : ℤ} {s : Option ℕ} (h : product e a s < 2 ^ 31) :
    (e.withArgs a s).period = product e a s := by
  have hself : toInt (product e a s) = product e a s := by
    have hnonneg := product_nonneg e a s
    apply toInt_eq_self <;> omega
  obtain hs | hs := Nat.eq_zero_or_pos (s.getD 1)
  · rw [withArgs_period, product_eq, hs]
    simp [strtol, toInt]
  have ha : |a| < 2 ^ 31 := (le_product e a hs).trans_lt h
  have htime : toInt (strtol a) = a := by
    rw [strtol_eq_self ha]
    rw [abs_lt] at ha
    apply toInt_eq_self <;> omega
  rw [withArgs_period, htime]
  obtain rfl | hne := eq_or_ne a 0
  · simp [product_eq, toInt]
  · have hscale : strtol (s.getD 1) = s.getD 1 := by
      apply strtol_eq_self
      rw [Nat.abs_cast]
      exact (scale_le_product e hne s).trans_lt h
    rw [hscale, ← product_eq, hself]

end Scale

/-- Exactly when the product fits into an int. -/
theorem scaled_exactly_iff (e : Env) (a : ℤ) (s : Option ℕ) : ScaledExactly e a s ↔ product e a s < 2 ^ 31 := by
  constructor
  · intro h
    rw [← h.exact, withArgs_period]
    exact (toInt_range _).2
  · intro h
    have hperiod := period_eq_product h
    refine ⟨hperiod, ?_, fun hs => ?_⟩ <;> rw [hperiod]
    · exact product_nonneg e a s
    · exact le_product e a hs

/-- 300 seconds with a scale of ten millions are a negative period. -/
theorem period_wraps : ¬ ∀ e a s, ScaledExactly e a s := by
  intro h
  have hnonneg := (h ⟨3, 0, none, false, false, true, true, true, 2, none, false⟩ 300 (some 10000000)).nonneg
  revert hnonneg
  decide

end PipTestsuite.Timer
