import PipTestsuite.ExitCode
import PipTestsuite.TimerScale
import PipTestsuite.Lib.Checked
import PipTestsuite.Lib.Environment
import PipTestsuite.Lib.Numeral

/-! compat/environ.c: putenv and getenv of as many variables as there are iterations, and then setenv and getenv of
as many others. -/
namespace PipTestsuite.Environ
open Environment Checked
open Numeral (numeral decimal)
open Timer (toInt strtol)

/-- int foo( int x ) and int bar( int x ), with an int that wraps around -/
def foo (x : ℤ) : ℤ := toInt (x * 10)
def bar (x : ℤ) : ℤ := toInt (x + 1234)

/-- "ENV%d" and "env%d" -/
def putenvKey (i : ℕ) : Text := "ENV".toList ++ decimal i
def setenvKey (i : ℕ) : Text := "env".toList ++ decimal i

/-- n = strtol( envval, NULL, 10 ) -/
def intOf (envval : Text) : ℤ := toInt (strtol (numeral envval))

/-- envval = getenv( keystr ), and the two CHECKs. -/
def checkEnv (env : List Text) (keystr : Text) (n : ℤ) : Except ℕ Unit :=
  match getenv env keystr with
  | none => .error exitFail
  | some envval => check (intOf envval ≠ n) exitFail

/-- asprintf( &envstr, "ENV%d=%d", i, foo( i ) ); putenv( envstr ) -/
def putenvs (niters : ℕ) (env : List Text) : List Text :=
  (List.range niters).foldl (fun env (i : ℕ) => putenv env (putenvKey i ++ '=' :: decimal (foo i))) env

/-- CHECK( setenv( keystr, valstr, 0 ) ) -/
def checkSetenv (env : List Text) (i : ℕ) : Except ℕ (List Text) :=
  match setenv env (setenvKey i) (decimal (bar i)) false with
  | none => .error exitFail
  | some env => .ok env

/-- The environment at the end of main, or the exit status where a CHECK fails. -/
def main (niters : ℕ) (env : List Text) : Except ℕ (List Text) := do
  let env := putenvs niters env
  forM (List.range niters) fun i => checkEnv env (putenvKey i) (foo i)
  let env ← (List.range niters).foldlM checkSetenv env
  forM (List.range niters) fun i => checkEnv env (setenvKey i) (bar i)
  return env

section Keys

lemma toDigits_ne_eq (n : ℕ) : '=' ∉ Nat.toDigits 10 n := fun h => by
  have hdigit := Nat.isDigit_of_mem_toDigits (by decide) le_rfl h
  exact absurd hdigit (by decide)

lemma decimal_ne_eq (z : ℤ) : '=' ∉ decimal z := by
  unfold decimal
  split_ifs
  · simp [toDigits_ne_eq]
  · exact toDigits_ne_eq _

lemma putenvKey_injective : Function.Injective putenvKey := fun _ _ h =>
  Int.ofNat_inj.mp (Numeral.decimal_injective (List.append_cancel_left h))

lemma setenvKey_injective : Function.Injective setenvKey := fun _ _ h =>
  Int.ofNat_inj.mp (Numeral.decimal_injective (List.append_cancel_left h))

lemma setenvKey_ne_putenvKey (i j : ℕ) : setenvKey i ≠ putenvKey j := fun h => by
  have hhead : some 'e' = some 'E' := congrArg List.head? h
  exact absurd hhead (by decide)

lemma putenvKey_name (i : ℕ) : putenvKey i ≠ [] ∧ '=' ∉ putenvKey i :=
  ⟨by simp [putenvKey], by simpa [putenvKey] using decimal_ne_eq i⟩

lemma setenvKey_name (i : ℕ) : setenvKey i ≠ [] ∧ '=' ∉ setenvKey i :=
  ⟨by simp [setenvKey], by simpa [setenvKey] using decimal_ne_eq i⟩

/-- What has been printed is read back. -/
lemma intOf_decimal {z : ℤ} (hz : toInt z = z) : intOf (decimal z) = z := by
  have hrange := Timer.toInt_range z
  rw [hz] at hrange
  have hlong : strtol z = z := by
    unfold Timer.strtol
    omega
  rw [intOf, Numeral.numeral_decimal, hlong, hz]

end Keys

section Main
variable {niters : ℕ} {env : List Text}

lemma getenv_putenvs (niters : ℕ) (env : List Text) : getenv (putenvs niters env) =
    (List.range niters).foldl (fun s (i : ℕ) => put true s (putenvKey i) (decimal (foo i))) (getenv env) := by
  unfold putenvs
  generalize List.range niters = l
  induction l generalizing env with
  | nil => rfl
  | cons i l ih =>
    obtain ⟨hne, heq⟩ := putenvKey_name i
    rw [List.foldl_cons, List.foldl_cons, ih, ← getenv_putenv hne heq]
    rfl

/-- No setenv is refused. -/
lemma foldlM_checkSetenv (l : List ℕ) (env : List Text) : ∃ env', l.foldlM checkSetenv env = .ok env' ∧
    getenv env' = l.foldl (fun s (i : ℕ) => put false s (setenvKey i) (decimal (bar i))) (getenv env) := by
  induction l generalizing env with
  | nil => exact ⟨env, rfl, rfl⟩
  | cons i l ih =>
    obtain ⟨hne, heq⟩ := setenvKey_name i
    have hset : checkSetenv env i = .ok (add false (setenvKey i) (entry (setenvKey i) (decimal (bar i))) env) := by
      rw [checkSetenv, setenv, if_neg (not_or.mpr ⟨hne, heq⟩)]
    obtain ⟨env', hfold, hget⟩ := ih (add false (setenvKey i) (entry (setenvKey i) (decimal (bar i))) env)
    refine ⟨env', ?_, ?_⟩
    · rw [List.foldlM_cons, hset]
      exact hfold
    · rw [hget, getenv_add hne heq, List.foldl_cons]

/-- The function from names to values behind both loops of calls. -/
def final (niters : ℕ) (s : Text → Option Text) : Text → Option Text :=
  (List.range niters).foldl (fun s (i : ℕ) => put false s (setenvKey i) (decimal (bar i)))
    ((List.range niters).foldl (fun s (i : ℕ) => put true s (putenvKey i) (decimal (foo i))) s)

lemma final_putenvKey {i : ℕ} (hi : i < niters) (s : Text → Option Text) :
    final niters s (putenvKey i) = some (decimal (foo i)) := by
  rw [final, foldl_put_of_ne (fun j _ => setenvKey_ne_putenvKey j i),
    foldl_put_of_mem putenvKey_injective List.nodup_range (List.mem_range.mpr hi), if_pos rfl]

lemma final_setenvKey {i : ℕ} (hi : i < niters) (s : Text → Option Text) :
    final niters s (setenvKey i) = some ((s (setenvKey i)).getD (decimal (bar i))) := by
  rw [final, foldl_put_of_mem setenvKey_injective List.nodup_range (List.mem_range.mpr hi),
    foldl_put_of_ne fun j _ => (setenvKey_ne_putenvKey i j).symm, if_neg Bool.false_ne_true]

lemma final_of_ne {name : Text} (hput : ∀ i < niters, putenvKey i ≠ name) (hset : ∀ i < niters, setenvKey i ≠ name)
    (s : Text → Option Text) : final niters s name = s name := by
  rw [final, foldl_put_of_ne fun i hi => hset i (List.mem_range.mp hi),
    foldl_put_of_ne fun i hi => hput i (List.mem_range.mp hi)]

lemma checkEnv_eq_ok {env : List Text} {keystr : Text} {n : ℤ} :
    checkEnv env keystr n = .ok () ↔ ∃ envval, getenv env keystr = some envval ∧ intOf envval = n := by
  rw [checkEnv]
  cases getenv env keystr with
  | none => simp
  | some envval => simp

/-- A variable that main finds set does not stop it if its value reads as the number that main expects. -/
def Expected (niters : ℕ) (env : List Text) : Prop :=
  ∀ i < niters, ∀ envval, getenv env (setenvKey i) = some envval → intOf envval = bar i

lemma toInt_foo (x : ℤ) : toInt (foo x) = foo x := Timer.toInt_toInt _

lemma toInt_bar (x : ℤ) : toInt (bar x) = bar x := Timer.toInt_toInt _

lemma checkEnv_ok_or (env : List Text) (keystr : Text) (n : ℤ) :
    checkEnv env keystr n = .ok () ∨ checkEnv env keystr n = .error exitFail := by
  rw [checkEnv]
  cases getenv env keystr with
  | none => exact .inr rfl
  | some envval =>
    simp only [check]
    split_ifs
    · exact .inr rfl
    · exact .inl rfl

/-- The first loop of CHECKs passes. -/
lemma checks_putenvs (niters : ℕ) (env : List Text) :
    forM (List.range niters) (fun i : ℕ => checkEnv (putenvs niters env) (putenvKey i) (foo i)) = .ok () := by
  refine forM_eq_ok.mpr fun i hi => checkEnv_eq_ok.mpr ⟨decimal (foo i), ?_, intOf_decimal (toInt_foo i)⟩
  rw [getenv_putenvs, foldl_put_of_mem putenvKey_injective List.nodup_range hi, if_pos rfl]

lemma checkEnv_setenv_iff {env env' : List Text} (hget : getenv env' = final niters (getenv env)) {i : ℕ}
    (hi : i < niters) : checkEnv env' (setenvKey i) (bar i) = .ok () ↔
      ∀ envval, getenv env (setenvKey i) = some envval → intOf envval = bar i := by
  rw [checkEnv_eq_ok, hget, final_setenvKey hi]
  generalize getenv env (setenvKey i) = value
  cases value with
  | none =>
    refine iff_of_true ⟨decimal (bar i), congrArg some (Option.getD_none ..), intOf_decimal (toInt_bar i)⟩
      fun envval h => ?_
    cases h
  | some envval => simp

/-- The second one passes with the numbers expected. -/
lemma checks_setenvs_iff {env env' : List Text} (hget : getenv env' = final niters (getenv env)) :
    forM (List.range niters) (fun i : ℕ => checkEnv env' (setenvKey i) (bar i)) = .ok () ↔ Expected niters env := by
  rw [forM_eq_ok]
  constructor
  · exact fun h i hi => (checkEnv_setenv_iff hget hi).mp (h i (List.mem_range.mpr hi))
  · exact fun h i hi => (checkEnv_setenv_iff hget (List.mem_range.mp hi)).mpr (h i (List.mem_range.mp hi))

/-- The last loop of main decides. -/
lemma main_eq {env env' : List Text} (hset : (List.range niters).foldlM checkSetenv (putenvs niters env) = .ok env')
    (hget : getenv env' = final niters (getenv env)) :
    (Expected niters env → main niters env = .ok env') ∧
      (¬ Expected niters env → main niters env = .error exitFail) := by
  rw [main, checks_putenvs, ← checks_setenvs_iff hget]
  simp only [hset, bind, Except.bind, pure, Except.pure]
  constructor
  · intro hok
    rw [hok]
  · intro hnot
    rw [(forM_ok_or fun i _ => checkEnv_ok_or env' (setenvKey i) (bar i)).resolve_left hnot]

/-- main fails just where the environment that it is started with has one of its second variables, with another
number. Else each of the first variables has its number at the end, the second ones have the values that they had
or else their numbers, and all other variables are as before. -/
theorem main_ends (niters : ℕ) (env : List Text) :
    (¬ Expected niters env → main niters env = .error exitFail) ∧
    (Expected niters env → ∃ env', main niters env = .ok env' ∧
      (∀ i < niters, getenv env' (putenvKey i) = some (decimal (foo i)) ∧
        getenv env' (setenvKey i) = some ((getenv env (setenvKey i)).getD (decimal (bar i)))) ∧
      ∀ name, (∀ i < niters, putenvKey i ≠ name ∧ setenvKey i ≠ name) → getenv env' name = getenv env name) := by
  obtain ⟨env', hset, hget⟩ := foldlM_checkSetenv (List.range niters) (putenvs niters env)
  rw [getenv_putenvs] at hget
  have hfinal : getenv env' = final niters (getenv env) := hget
  obtain ⟨hok, herror⟩ := main_eq hset hfinal
  refine ⟨herror, fun hexpected => ⟨env', hok hexpected, fun i hi => ?_, fun name hname => ?_⟩⟩
  · rw [hfinal]
    exact ⟨final_putenvKey hi _, final_setenvKey hi _⟩
  · rw [hfinal, final_of_ne (fun i hi => (hname i hi).1) fun i hi => (hname i hi).2]

end Main

end PipTestsuite.Environ
