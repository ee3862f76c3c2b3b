import PipTestsuite.ExitCode
import PipTestsuite.TimerScale
import PipTestsuite.Lib.Checked
import PipTestsuite.Lib.Numeral

/-! basics/end.c: the root spawns its tasks one after the other, each with a hook before and a hook after it, and
checks how often the hooks have been called, depending on the way in which the tasks end. -/
namespace PipTestsuite.End
open Checked hiding check
open Numeral (numeral)
open Timer (toInt strtol)

/-- struct args -/
structure Args where
  pipid : ℕ
  before : ℤ
  after : ℤ

inductive Hook where
  | before | after
  deriving DecidableEq

def beforeHook (argp : Args) : Args := { argp with before := toInt (argp.before + 1) }
def afterHook (argp : Args) : Args := { argp with after := toInt (argp.after + 1) }

def Hook.call (argp : Args) : Hook → Args
  | before => beforeHook argp
  | after => afterHook argp

/-- The lines that check has printed, as the number and the text of each, and its ret. -/
abbrev Out := List (ℕ × Word) × ℕ

/-- fprintf( stderr, "[%d] ...\n", i ); ret = 1; -/
def complain (i : ℕ) (text : String) (out : Out) : Out := (out.1 ++ [(i, text.toList)], 1)

/-- The two tests whether a hook was called once, with their texts. -/
def once (i : ℕ) (count : ℤ) (never often : String) (out : Out) : Out :=
  if count = 0 then complain i never out else if count > 1 then complain i often out else out

def onceBefore (i : ℕ) (count : ℤ) : Out → Out :=
  once i count "before was not called" "before was called more than once"
def onceAfter (i : ℕ) (count : ℤ) : Out → Out :=
  once i count "after was not called" "after was called more than once"

/-- A round of the loop of check. -/
def checkRound (argp : ℕ → Args) (test : ℕ) (out : Out) (i : ℕ) : Out :=
  if test ∈ [0, 1, 2, 4, 5, 6] then
    if (argp i).before ≠ 1 ∨ (argp i).after ≠ 1 then onceAfter i (argp i).after (onceBefore i (argp i).before out)
    else out
  else if test ∈ [3, 7] then
    let out := onceBefore i (argp i).before out
    if (argp i).after ≠ 0 then complain i "after ???" out else out
  else complain i "???" out

def check (argp : ℕ → Args) (nt test : ℕ) : Out := (List.range nt).foldl (checkRound argp test) ([], 0)

/-- strcasecmp( s, t ) == 0 -/
def strcasecmp (s t : Word) : Bool := s.map Char.toLower = t.map Char.toLower

def choice (opt : Word) : Except ℕ ℕ :=
  if opt = [] ∨ strcasecmp "return".toList opt then .ok 0
  else if strcasecmp "exit".toList opt then .ok 1
  else if strcasecmp "pip_exit".toList opt then .ok 2
  else if strcasecmp "_exit".toList opt then .ok 3
  else if strcasecmp "fin-return".toList opt then .ok 4
  else if strcasecmp "fin-exit".toList opt then .ok 5
  else if strcasecmp "fin-pip_exit".toList opt then .ok 6
  else if strcasecmp "fin-_exit".toList opt then .ok 7
  else .error 1

/-- A main returns, or calls exit, pip_exit or _exit. -/
inductive How where
  | returned | exit | pipExit | uexit
  deriving DecidableEq

/-- The switches at the end of main, which are alike in the root and in a task. -/
def ending (end_ : ℕ) (pipFin : ℤ) (extval : ℕ) : How × ℕ :=
  let fin (how : How) : How × ℕ := if pipFin ≠ 0 then (.returned, exitFail) else (how, extval)
  match end_ with
  | 1 => (.exit, extval)
  | 2 => (.pipExit, extval)
  | 3 => (.uexit, extval)
  | 4 => fin .returned
  | 5 => fin .exit
  | 6 => fin .pipExit
  | 7 => fin .uexit
  | _ => (.returned, extval)

/-- main up to pip_init, with the words behind argv[0]: ntasks, end_rt and end_tk. -/
def options (ntasksMax : ℕ) (args : List Word) : Except ℕ (ℕ × ℕ × ℕ) := do
  let ntasks : ℤ := args[0]?.elim 0 fun arg => toInt (strtol (numeral arg))
  let ntasks := if ntasks < 0 then 8 else ntasks
  Checked.check (ntasks > ntasksMax) exitUntested
  let endRt ← args[1]?.elim (.ok 0) choice
  let endTk ← args[2]?.elim (.ok 0) choice
  return (ntasks.toNat, endRt, endTk)

/-- What the calls of the root return, the memory from malloc, and which hooks are called for a task until the root
has waited for it, which are no more than an int can count. -/
structure Calls where
  ntasksMax : ℕ
  pipInit : ℤ
  malloc : ℕ → Args
  barrierInit : ℤ
  pipSpawn : ℕ → ℤ
  hooks : ℕ → List Hook
  hooks_lt : ∀ i, (hooks i).length < 2 ^ 31
  pipWaitAny : ℕ → ℤ
  status : ℕ → WaitStatus
  pipFin : ℤ

/-- argp[i] when the root has waited for task i. -/
def hooked (calls : Calls) (i : ℕ) : Args := (calls.hooks i).foldl Hook.call ⟨i, 0, 0⟩

/-- A round of the loop of the root, with its extval and argp. -/
def round (calls : Calls) (s : ℕ × (ℕ → Args)) (i : ℕ) : Except ℕ (ℕ × (ℕ → Args)) := do
  Checked.check (calls.pipSpawn i ≠ 0) exitFail
  Checked.check (calls.pipWaitAny i ≠ 0) exitFail
  match calls.status i with
  | .exited code =>
    Checked.check (code.val ≠ 0) exitFail
    return (code.val, Function.update s.2 i (hooked calls i))
  | .signaled _ => .error exitUnresolved

/-- main of the root, up to its exit status. -/
def root (calls : Calls) (args : List Word) : Except ℕ ℕ := do
  let (ntasks, endRt, endTk) ← options calls.ntasksMax args
  Checked.check (calls.pipInit ≠ 0) exitFail
  Checked.check (0 < ntasks ∧ calls.barrierInit ≠ 0) exitFail
  let (extval, argp) ← (List.range ntasks).foldlM (round calls) (0, calls.malloc)
  Checked.check ((check argp ntasks endTk).2 ≠ 0) exitFail
  return (ending endRt calls.pipFin extval).2

/-- main of a task. -/
def task (ntasksMax : ℕ) (args : List Word) (pipInit pipFin : ℤ) : How × ℕ :=
  match options ntasksMax args with
  | .error code => (.returned, code)
  | .ok (_, _, endTk) => if pipInit ≠ 0 then (.returned, exitFail) else ending endTk pipFin 0

section Check
variable {argp : ℕ → Args} {test : ℕ}

/-- The hooks have been called as the way to end demands. -/
def Right (test : ℕ) (argp : Args) : Prop := argp.before = 1 ∧ argp.after = if test = 3 ∨ test = 7 then 0 else 1

instance (a : Args) : Decidable (Right test a) := inferInstanceAs (Decidable (_ ∧ _))

/-- The text of a hook that has not been called once. -/
lemma once_cases (i : ℕ) (count : ℤ) (hcount : 0 ≤ count) (never often : String) (out : Out) :
    (count = 1 ∧ once i count never often out = out) ∨
      (count ≠ 1 ∧ ∃ text, once i count never often out = complain i text out) := by
  unfold once
  split_ifs with hzero hmany
  · exact .inr ⟨by omega, never, rfl⟩
  · exact .inr ⟨by omega, often, rfl⟩
  · exact .inl ⟨by omega, rfl⟩

/-- A round prints something about its task and sets ret, unless the hooks have been called rightly. -/
lemma checkRound_cases (htest : test < 8) (out : Out) {i : ℕ} (hargp : 0 ≤ (argp i).before ∧ 0 ≤ (argp i).after) :
    (Right test (argp i) ∧ checkRound argp test out i = out) ∨
      (¬ Right test (argp i) ∧ ∃ texts : List Word, texts ≠ [] ∧
        checkRound argp test out i = (out.1 ++ texts.map (i, ·), 1)) := by
  have hbefore := once_cases i _ hargp.1 "before was not called" "before was called more than once" out
  by_cases h : test = 3 ∨ test = 7
  · have hcase : test ∉ [0, 1, 2, 4, 5, 6] ∧ test ∈ [3, 7] := by
      obtain rfl | rfl := h <;> decide
    rw [checkRound, if_neg hcase.1, if_pos hcase.2, Right, if_pos h]
    dsimp only [onceBefore]
    obtain ⟨hone, hout⟩ | ⟨hone, text, hout⟩ := hbefore
    · rw [hout]
      by_cases hafter : (argp i).after = 0
      · exact .inl ⟨⟨hone, hafter⟩, if_neg (not_not.mpr hafter)⟩
      · exact .inr ⟨fun hright => hafter hright.2, [_], by simp, if_pos hafter⟩
    · rw [hout]
      refine .inr ⟨fun hright => hone hright.1, ?_⟩
      by_cases hafter : (argp i).after = 0
      · exact ⟨[text.toList], by simp, if_neg (not_not.mpr hafter)⟩
      · exact ⟨[text.toList, "after ???".toList], by simp, by simp [hafter, complain]⟩
  · have hcase : test ∈ [0, 1, 2, 4, 5, 6] := by
      have h3 : test ≠ 3 := fun h3 => h (.inl h3)
      have h7 : test ≠ 7 := fun h7 => h (.inr h7)
      simp only [List.mem_cons, List.not_mem_nil, or_false]
      omega
    rw [checkRound, if_pos hcase, Right, if_neg h]
    by_cases hboth : (argp i).before = 1 ∧ (argp i).after = 1
    · exact .inl ⟨hboth, if_neg (by tauto)⟩
    · refine .inr ⟨hboth, ?_⟩
      rw [if_pos (by tauto), onceBefore, onceAfter]
      obtain ⟨hone, hout⟩ | ⟨hone, text, hout⟩ := hbefore
      · rw [hout]
        obtain ⟨hafter, -⟩ | ⟨-, text, hout'⟩ :=
          once_cases i _ hargp.2 "after was not called" "after was called more than once" out
        · exact absurd ⟨hone, hafter⟩ hboth
        · exact ⟨[text.toList], by simp, hout'⟩
      · rw [hout]
        obtain ⟨-, hout'⟩ | ⟨-, text', hout'⟩ := once_cases i _ hargp.2 "after was not called"
          "after was called more than once" (complain i text out)
        · exact ⟨[text.toList], by simp, hout'⟩
        · exact ⟨[text.toList, text'.toList], by simp, by rw [hout']; simp [complain]⟩

lemma check_succ (nt : ℕ) : check argp (nt + 1) test = checkRound argp test (check argp nt test) nt := by
  simp [check, List.range_succ]

/-- The loop sets ret if some hooks have not been called rightly, and it prints something about exactly these tasks. -/
lemma check_spec (htest : test < 8) {nt : ℕ} (hargp : ∀ i < nt, 0 ≤ (argp i).before ∧ 0 ≤ (argp i).after) :
    ((check argp nt test).2 = 0 ↔ ∀ i < nt, Right test (argp i)) ∧
      ∀ i, (∃ text, (i, text) ∈ (check argp nt test).1) ↔ i < nt ∧ ¬ Right test (argp i) := by
  induction nt with
  | zero => simp [check]
  | succ nt ih =>
    obtain ⟨hret, hlines⟩ := ih fun i hi => hargp i (hi.trans (Nat.lt_succ_self nt))
    rw [check_succ]
    obtain ⟨hright, hround⟩ | ⟨hwrong, texts, hne, hround⟩ :=
      checkRound_cases htest (check argp nt test) (hargp nt (Nat.lt_succ_self nt))
    · rw [hround, hret]
      refine ⟨by simp only [Nat.forall_lt_succ_right, hright, and_true], fun i => (hlines i).trans ?_⟩
      rw [Nat.lt_succ_iff_lt_or_eq, or_and_right, or_iff_left]
      rintro ⟨rfl, hwrong⟩
      exact hwrong hright
    · rw [hround]
      refine ⟨iff_of_false (by simp) fun hall => hwrong (hall nt (Nat.lt_succ_self nt)), fun i => ?_⟩
      obtain ⟨text, htext⟩ := List.exists_mem_of_ne_nil texts hne
      simp only [List.mem_append, exists_or, hlines i, List.mem_map, Prod.mk.injEq]
      rw [Nat.lt_succ_iff_lt_or_eq, or_and_right]
      refine or_congr_right ⟨?_, ?_⟩
      · rintro ⟨-, text', -, rfl, -⟩
        exact ⟨rfl, hwrong⟩
      · rintro ⟨rfl, -⟩
        exact ⟨text, text, htext, rfl, rfl⟩

end Check

section Choice

lemma choice_lt {opt : Word} {c : ℕ} (h : choice opt = .ok c) : c < 8 := by
  unfold choice at h
  split_ifs at h <;> injection h <;> omega

lemma optional_lt {opt : Option Word} {c : ℕ} (h : opt.elim (.ok 0) choice = .ok c) : c < 8 := by
  cases opt with
  | none =>
    obtain rfl := Except.ok.inj h
    decide
  | some opt => exact choice_lt h

lemma choice_error {opt : Word} {code : ℕ} (h : choice opt = .error code) : code = exitFail := by
  unfold choice at h
  split_ifs at h
  exact (Except.error.inj h).symm

/-- The codes with which the root stops early. -/
def Early (code : ℕ) : Prop := code = exitFail ∨ code = exitUnresolved ∨ code = exitUntested

/-- The ways to end that main goes on with have a number of the switches. -/
lemma options_ends (ntasksMax : ℕ) (args : List Word) :
    Ends (options ntasksMax args) Early fun o => o.2.1 < 8 ∧ o.2.2 < 8 := by
  have hopt : ∀ opt : Option Word, Ends (opt.elim (.ok 0) choice) Early (· < 8) := by
    intro opt
    cases hchoice : opt.elim (.ok 0) choice with
    | ok c => exact optional_lt hchoice
    | error code =>
      cases opt with
      | none => cases hchoice
      | some opt => exact .inl (choice_error hchoice)
  refine Ends.check_bind (fun _ => .inr (.inr rfl)) fun _ => ?_
  refine (hopt _).bind fun endRt hrt => (hopt _).bind fun endTk htk => ?_
  exact Ends.pure ⟨hrt, htk⟩

/-- The switch of a task and the one in check agree on the ways to end without the hook behind the task. -/
lemma ending_fst {end_ : ℕ} (extval : ℕ) (h : end_ < 8) :
    (ending end_ 0 extval).1 = .uexit ↔ end_ = 3 ∨ end_ = 7 := by
  interval_cases end_ <;> simp [ending]

lemma ending_snd {end_ : ℕ} (pipFin : ℤ) (extval : ℕ) (h : end_ < 8) :
    (ending end_ pipFin extval).2 = if 4 ≤ end_ ∧ pipFin ≠ 0 then exitFail else extval := by
  by_cases hfin : pipFin = 0
  · interval_cases end_ <;> simp [ending, hfin]
  · interval_cases end_ <;> simp [ending, hfin]

end Choice

section Root
variable {calls : Calls} {args : List Word}

/-- No int overflows. -/
lemma call_foldl (hooks : List Hook) (pipid : ℕ) {before after : ℤ} (hbefore : 0 ≤ before) (hafter : 0 ≤ after)
    (hlt : before + after + hooks.length < 2 ^ 31) : hooks.foldl Hook.call ⟨pipid, before, after⟩ =
      ⟨pipid, before + hooks.count .before, after + hooks.count .after⟩ := by
  induction hooks generalizing before after with
  | nil => simp
  | cons hook hooks ih =>
    rw [List.length_cons, Nat.cast_add, Nat.cast_one] at hlt
    rw [List.foldl_cons]
    cases hook with
    | before =>
      have hint : toInt (before + 1) = before + 1 := Timer.toInt_eq_self (by omega) (by omega)
      rw [Hook.call, beforeHook, hint, ih (by omega) hafter (by omega)]
      simp [Int.add_assoc, Int.add_comm 1]
    | after =>
      have hint : toInt (after + 1) = after + 1 := Timer.toInt_eq_self (by omega) (by omega)
      rw [Hook.call, afterHook, hint, ih hbefore (by omega) (by omega)]
      simp [Int.add_assoc, Int.add_comm 1]

lemma hooked_eq (calls : Calls) (i : ℕ) :
    hooked calls i = ⟨i, (calls.hooks i).count .before, (calls.hooks i).count .after⟩ := by
  have hlt : ((calls.hooks i).length : ℤ) < 2 ^ 31 := by exact_mod_cast calls.hooks_lt i
  rw [hooked, call_foldl _ i le_rfl le_rfl (by simpa using hlt)]
  simp

/-- Task i has been spawned, and it has ended with 0. -/
def Ended (calls : Calls) (i : ℕ) : Prop :=
  calls.pipSpawn i = 0 ∧ calls.pipWaitAny i = 0 ∧ calls.status i = .exitZero

/-- extval and argp behind a round that goes on. -/
def next (calls : Calls) (s : ℕ × (ℕ → Args)) (i : ℕ) : ℕ × (ℕ → Args) :=
  (0, Function.update s.2 i (hooked calls i))

lemma round_eq_ok (s : ℕ × (ℕ → Args)) (i : ℕ) (s' : ℕ × (ℕ → Args)) :
    round calls s i = .ok s' ↔ Ended calls i ∧ s' = next calls s i := by
  rw [round, bind_eq_ok, bind_eq_ok, check_eq_ok, check_eq_ok, Ended, next]
  cases hstatus : calls.status i with
  | exited code =>
    simp only [bind_eq_ok, check_eq_ok, pure_eq_ok]
    by_cases hcode : code = 0
    · simp [hcode]
      tauto
    · have hval : code.val ≠ 0 := fun h => hcode (Fin.ext h)
      simp [hcode, hval]
  | signaled sig => simp

lemma foldl_next (argp : ℕ → Args) (n : ℕ) :
    (List.range n).foldl (next calls) (0, argp) = (0, fun i => if i < n then hooked calls i else argp i) := by
  induction n with
  | zero => simp
  | succ n ih =>
    rw [List.range_succ, List.foldl_append, List.foldl_cons, List.foldl_nil, ih]
    refine Prod.ext rfl (funext fun i => ?_)
    by_cases hi : i = n
    · subst hi
      simp [next]
    · simp only [next, Function.update_of_ne hi]
      exact if_congr (by omega) rfl rfl

/-- The loop of the root comes to its end if all tasks have ended with 0. -/
lemma loop_eq_ok {n : ℕ} {s : ℕ × (ℕ → Args)} :
    (List.range n).foldlM (round calls) (0, calls.malloc) = .ok s ↔
      (∀ i < n, Ended calls i) ∧ s = (0, fun i => if i < n then hooked calls i else calls.malloc i) := by
  have hround : ∀ s i s', round calls s i = .ok s' ↔ Ended calls (id i) ∧ s' = next calls s i := round_eq_ok
  rw [@foldlM_eq_ok ℕ ℕ _ ℕ (round calls) (fun _ i => id i) (next calls) (Ended calls) hround,
    @forall_calls_iff ℕ _ ℕ (fun _ i => id i) (next calls) (Ended calls) (Ended calls) fun _ _ => Iff.rfl,
    foldl_next]
  simp only [List.mem_range]

lemma round_ends (s : ℕ × (ℕ → Args)) (i : ℕ) :
    Ends (round calls s i) Early fun _ => True := by
  refine Ends.check_bind (fun _ => .inl rfl) fun _ => Ends.check_bind (fun _ => .inl rfl) fun _ => ?_
  cases calls.status i with
  | exited code => exact Ends.check_bind (fun _ => .inl rfl) fun _ => Ends.pure trivial
  | signaled sig => exact .inr (.inl rfl)

/-- The root ends with the code of one of its checks or, behind all of them, with 0 unless pip_fin fails. -/
lemma root_ends : Ends (root calls args) Early fun code => code = exitPass ∨ code = exitFail := by
  refine (options_ends calls.ntasksMax args).bind fun o ho => ?_
  obtain ⟨ntasks, endRt, endTk⟩ := o
  obtain ⟨hrt, -⟩ : endRt < 8 ∧ endTk < 8 := ho
  refine Ends.check_bind (fun _ => .inl rfl) fun _ => Ends.check_bind (fun _ => .inl rfl) fun _ => ?_
  have hloop : Ends ((List.range ntasks).foldlM (round calls) (0, calls.malloc)) Early fun s => s.1 = 0 := by
    refine Ends.foldlM _ (fun s i _ _ => ?_) rfl
    cases hround : round calls s i with
    | error code => exact (hround ▸ round_ends s i :)
    | ok s' =>
      obtain ⟨-, rfl⟩ := (round_eq_ok s i s').mp hround
      exact rfl
  refine hloop.bind fun s hs => Ends.check_bind (fun _ => .inl rfl) fun _ => ?_
  obtain ⟨extval, argp⟩ := s
  obtain rfl : extval = 0 := hs
  refine Ends.pure ?_
  rw [ending_snd _ _ hrt]
  split_ifs
  · exact .inr rfl
  · exact .inl rfl

lemma root_eq_ok_iff {o : ℕ × ℕ × ℕ} (hopt : options calls.ntasksMax args = .ok o) :
    root calls args = .ok 0 ↔ calls.pipInit = 0 ∧ (0 < o.1 → calls.barrierInit = 0) ∧ (∀ i < o.1, Ended calls i) ∧
      (∀ i < o.1, Right o.2.2 (hooked calls i)) ∧ (4 ≤ o.2.1 → calls.pipFin = 0) := by
  obtain ⟨ntasks, endRt, endTk⟩ := o
  obtain ⟨hrt, htk⟩ : endRt < 8 ∧ endTk < 8 := (hopt ▸ options_ends calls.ntasksMax args :)
  have hroot : root calls args = (do
      Checked.check (calls.pipInit ≠ 0) exitFail
      Checked.check (0 < ntasks ∧ calls.barrierInit ≠ 0) exitFail
      let (extval, argp) ← (List.range ntasks).foldlM (round calls) (0, calls.malloc)
      Checked.check ((check argp ntasks endTk).2 ≠ 0) exitFail
      return (ending endRt calls.pipFin extval).2) := by
    rw [root, hopt]
    rfl
  rw [hroot, bind_eq_ok, bind_eq_ok, check_eq_ok, check_eq_ok]
  by_cases hended : ∀ i < ntasks, Ended calls i
  · rw [loop_eq_ok.mpr ⟨hended, rfl⟩]
    have hright : (∀ i < ntasks, Right endTk (if i < ntasks then hooked calls i else calls.malloc i)) ↔
        ∀ i < ntasks, Right endTk (hooked calls i) :=
      forall₂_congr fun i hi => by rw [if_pos hi]
    have hargp : ∀ i < ntasks, 0 ≤ (if i < ntasks then hooked calls i else calls.malloc i).before ∧
        0 ≤ (if i < ntasks then hooked calls i else calls.malloc i).after := fun i hi => by
      rw [if_pos hi, hooked_eq]
      exact ⟨Int.natCast_nonneg _, Int.natCast_nonneg _⟩
    have hlast : (do
        Checked.check
          ((check (fun i => if i < ntasks then hooked calls i else calls.malloc i) ntasks endTk).2 ≠ 0) exitFail
        return (ending endRt calls.pipFin 0).2 : Except ℕ ℕ) = .ok 0 ↔
        (∀ i < ntasks, Right endTk (hooked calls i)) ∧ (4 ≤ endRt → calls.pipFin = 0) := by
      rw [bind_eq_ok, check_eq_ok, pure_eq_ok, ending_snd _ _ hrt, ← hright, ← (check_spec htk hargp).1]
      refine and_congr (by simp) ?_
      split_ifs with hfin
      · exact iff_of_false (by decide) fun h => hfin.2 (h hfin.1)
      · exact iff_of_true rfl (by tauto)
    refine (and_congr Iff.rfl (and_congr Iff.rfl hlast)).trans ?_
    simp only [ne_eq, decide_not, Bool.not_eq_false', decide_eq_true_eq, decide_eq_false_iff_not]
    tauto
  · cases hloop : (List.range ntasks).foldlM (round calls) (0, calls.malloc) with
    | ok s => exact absurd (loop_eq_ok.mp hloop).1 hended
    | error code =>
      refine iff_of_false ?_ fun h => hended h.2.2.1
      rintro ⟨-, -, h⟩
      cases h

end Root

/-- Where the arguments are accepted and pip_init, pip_barrier_init and the pip_fin of a fin- way succeed, and exactly
if each of its tasks has been spawned and has ended with 0, the hook before it has been called once, and the hook after
it once, or not at all where the main of the task calls _exit, the root ends with 0; otherwise it ends with one of
three codes. -/
theorem end_passes_iff (calls : Calls) (args : List Word) :
    (mainStatus (root calls args) = exitPass ↔
      ∃ ntasks endRt endTk, options calls.ntasksMax args = .ok (ntasks, endRt, endTk) ∧ calls.pipInit = 0 ∧
        (0 < ntasks → calls.barrierInit = 0) ∧ (4 ≤ endRt → calls.pipFin = 0) ∧
        ∀ i < ntasks, Ended calls i ∧ (calls.hooks i).count .before = 1 ∧
          (calls.hooks i).count .after = if (task calls.ntasksMax args 0 0).1 = .uexit then 0 else 1) ∧
    mainStatus (root calls args) ∈ [exitPass, exitFail, exitUnresolved, exitUntested] := by
  have hends : Ends (root calls args) Early fun code => code = exitPass ∨ code = exitFail := root_ends
  constructor
  · have hstatus : mainStatus (root calls args) = exitPass ↔ root calls args = .ok 0 := by
      cases hroot : root calls args with
      | error code =>
        rw [hroot] at hends
        refine iff_of_false ?_ (by simp)
        rintro rfl
        have hearly : exitPass = exitFail ∨ exitPass = exitUnresolved ∨ exitPass = exitUntested := hends
        exact absurd hearly (by decide)
      | ok code => simp [mainStatus, exitPass]
    rw [hstatus]
    cases hopt : options calls.ntasksMax args with
    | error code =>
      have hroot : root calls args = .error code := by
        rw [root, hopt]
        rfl
      rw [hroot]
      exact iff_of_false (by simp) (by simp)
    | ok o =>
      obtain ⟨ntasks, endRt, endTk⟩ := o
      have htk : endTk < 8 := (hopt ▸ options_ends calls.ntasksMax args :).2
      have hright : ∀ i, Right endTk (hooked calls i) ↔ (calls.hooks i).count .before = 1 ∧
          (calls.hooks i).count .after = if (task calls.ntasksMax args 0 0).1 = .uexit then 0 else 1 := by
        intro i
        have hhow : (task calls.ntasksMax args 0 0).1 = .uexit ↔ endTk = 3 ∨ endTk = 7 := by
          rw [task, hopt]
          exact ending_fst 0 htk
        simp only [Right, hooked_eq, hhow]
        norm_cast
      rw [root_eq_ok_iff hopt]
      simp only [hright]
      constructor
      · rintro ⟨hinit, hbarrier, hended, hhooks, hfin⟩
        exact ⟨ntasks, endRt, endTk, rfl, hinit, hbarrier, hfin, fun i hi => ⟨hended i hi, hhooks i hi⟩⟩
      · rintro ⟨_, _, _, heq, hinit, hbarrier, hfin, hall⟩
        cases heq
        exact ⟨hinit, hbarrier, fun i hi => (hall i hi).1, fun i hi => (hall i hi).2, hfin⟩
  · obtain (h | h | h) | h | h := hends.mainStatus <;> simp [h]

end PipTestsuite.End
