import Mathlib.Tactic
import Mathlib.Data.List.TakeWhile

/-! The decimal numeral at the start of a text, as strtol() reads it. -/
namespace Numeral

def isSpace (c : Char) : Bool := c = ' ' || ('\t'.toNat ≤ c.toNat && c.toNat ≤ '\r'.toNat)

/-- The number of the digits at the start of a text, which is 0 where there are none. -/
def digits (text : List Char) : ℕ := Nat.ofDigitChars 10 (text.takeWhile Char.isDigit) 0

/-- White space, a sign and digits, with whatever comes behind them. -/
def numeral (text : List Char) : ℤ :=
  match text.dropWhile isSpace with
  | '-' :: rest => -digits rest
  | '+' :: rest => digits rest
  | rest => digits rest

/-- A text that is one numeral, with nothing but white space around it, as the test of a shell wants it. -/
def isNumeral (text : List Char) : Bool :=
  let rest := match text.dropWhile isSpace with
    | '-' :: rest => rest
    | '+' :: rest => rest
    | rest => rest
  rest.head?.any Char.isDigit && (rest.dropWhile Char.isDigit).all isSpace

lemma dropWhile_isSpace_of_isDigit {c : Char} {text : List Char} (hc : c.isDigit) :
    (c :: text).dropWhile isSpace = c :: text := by
  rw [Char.isDigit_iff_toNat] at hc
  have hspace : isSpace c = false := by
    have hne : c ≠ ' ' := by
      rintro rfl
      exact absurd hc (by decide)
    have hlt : 13 < c.toNat := lt_of_lt_of_le (by decide) hc.1
    simp [isSpace, hne, hlt]
  exact List.dropWhile_cons_of_neg (by simp [hspace])

lemma numeral_of_isDigit {c : Char} {text : List Char} (hc : c.isDigit) :
    numeral (c :: text) = digits (c :: text) := by
  rw [numeral, dropWhile_isSpace_of_isDigit hc]
  split
  · next h =>
    cases h
    exact absurd hc (by decide)
  · next h =>
    cases h
    exact absurd hc (by decide)
  · rfl

lemma digits_toDigits (n : ℕ) : digits (Nat.toDigits 10 n) = n := by
  have hall : ∀ c ∈ Nat.toDigits 10 n, c.isDigit := fun c hc => Nat.isDigit_of_mem_toDigits (by decide) le_rfl hc
  rw [digits, List.takeWhile_eq_self_iff.mpr hall, Nat.ofDigitChars_ten_toDigits]

/-- A decimal number is read back. -/
lemma numeral_toDigits (n : ℕ) : numeral (Nat.toDigits 10 n) = n := by
  obtain ⟨c, text, htext⟩ := List.exists_cons_of_ne_nil (Nat.toDigits_ne_nil : Nat.toDigits 10 n ≠ [])
  have hc : c.isDigit := Nat.isDigit_of_mem_toDigits (by decide) le_rfl (htext ▸ List.mem_cons_self)
  rw [htext, numeral_of_isDigit hc, ← htext, digits_toDigits]

lemma isNumeral_toDigits (n : ℕ) : isNumeral (Nat.toDigits 10 n) = true := by
  obtain ⟨c, text, htext⟩ := List.exists_cons_of_ne_nil (Nat.toDigits_ne_nil : Nat.toDigits 10 n ≠ [])
  have hall : ∀ d ∈ c :: text, d.isDigit := fun d hd =>
    Nat.isDigit_of_mem_toDigits (by decide) le_rfl (htext ▸ hd)
  have hc : c.isDigit := hall c List.mem_cons_self
  have hdrop : (c :: text).dropWhile Char.isDigit = [] := List.dropWhile_eq_nil_iff.mpr hall
  rw [htext, isNumeral, dropWhile_isSpace_of_isDigit hc]
  split
  · next h =>
    cases h
    exact absurd hc (by decide)
  · next h =>
    cases h
    exact absurd hc (by decide)
  · rw [hdrop]
    simp [hc]

/-- What printf() writes for %d. -/
def decimal (z : ℤ) : List Char := if z < 0 then '-' :: Nat.toDigits 10 z.natAbs else Nat.toDigits 10 z.natAbs

lemma numeral_decimal (z : ℤ) : numeral (decimal z) = z := by
  unfold decimal
  split_ifs with hneg
  · have hspace : isSpace '-' = false := by decide
    rw [numeral, List.dropWhile_cons_of_neg (by simp [hspace])]
    simp only [digits_toDigits]
    omega
  · rw [numeral_toDigits]
    omega

lemma decimal_injective : Function.Injective decimal := fun y z h => by
  rw [← numeral_decimal y, h, numeral_decimal]

end Numeral
