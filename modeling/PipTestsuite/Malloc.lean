import PipTestsuite.ExitCode
import PipTestsuite.Lib.Rounding

/-! compat/malloc.c: each task allocates, verifies and frees blocks, with sizes from a budget that the free
memory is to bound. -/
namespace PipTestsuite.Malloc
open Rounding

/-- FREEMEM_THRESHOLD and MALLOC_AVEMIN -/
def freememThreshold : ℕ := 400 * 1024 * 1024
def mallocAvemin : ℕ := 1024

/-- VARIATION, a double -/
def variation : ℚ := toFloat 53 (33 / 100)

/-- What fscanf reads of a line of /proc/meminfo. -/
structure Line where
  name : String
  fm : BitVec 64
  unit : List Char

/-- The lines that are read whole, and the number of a last one that is not. -/
structure Meminfo where
  lines : List Line
  rest : Option (BitVec 64)

/-- The factor of a unit. -/
def factor : List Char → BitVec 64
  | 'g' :: _ | 'G' :: _ => 1024 * 1024 * 1024
  | 'm' :: _ | 'M' :: _ => 1024 * 1024
  | 'k' :: _ | 'K' :: _ => 1024
  | _ => 1

/-- The loop of freemem, with its fm. -/
def freememLoop (rest : Option (BitVec 64)) : BitVec 64 → List Line → BitVec 64
  | fm, [] => rest.getD fm
  | _, line :: lines =>
    if line.name = "MemFree:" then line.fm * factor line.unit else freememLoop rest line.fm lines

/-- A ssize_t, -1 where /proc/meminfo cannot be opened. -/
def freemem : Option Meminfo → BitVec 64
  | none => -1
  | some meminfo => freememLoop meminfo.rest 0 meminfo.lines

/-- How a program ends before its time: it exits, or it does what C leaves undefined. -/
inductive Stop where
  | exit (code : ℕ)
  | undefined

/-- The conversion of a double to a size_t. -/
def toSize (q : ℚ) : ℕ := ⌊q⌋₊

/-- malloc_loop up to its computation of fm, where fmall is a size_t. -/
def budget (fmall : BitVec 64) : Except Stop ℕ :=
  if fmall > 0 then
    let fm := freememThreshold
    let fm := if fm > freememThreshold then freememThreshold else fm
    .ok (toSize (toFloat 53 (toFloat 24 fm * toFloat 53 (1 - variation))))
  else if fmall.toNat < freememThreshold then .error (.exit exitUntested)
  else .error .undefined

def minSize (ave1 : ℕ) : ℕ := toSize (toFloat 53 (toFloat 24 ave1 - toFloat 53 (toFloat 24 ave1 * variation)))
def maxSize (ave1 : ℕ) : ℕ := toSize (toFloat 53 (toFloat 24 ave1 + toFloat 53 (toFloat 24 ave1 * variation)))

/-- What the k-th random() returns, and whether the k-th malloc and the k-th pip_yield succeed. -/
structure Calls where
  random : ℕ → ℕ
  malloc : ℕ → Bool
  yield : ℕ → Bool

/-- The k-th block, filled with the pipid, unless malloc returns NULL. -/
def myMalloc (calls : Calls) (min max pipid k : ℕ) : Except Stop (Option (List (BitVec 8))) :=
  if max - min = 0 then .error .undefined
  else
    let sz := calls.random k % (max - min) + min
    .ok (if calls.malloc k then some (List.replicate sz (BitVec.ofNat 8 pipid)) else none)

/-- The loop of my_free: false where it exits with EXIT_FAIL. -/
def myFree (pipid : ℕ) : ℕ → List (BitVec 8) → Except Stop Bool
  | 0, _ => .ok true
  | _ + 1, [] => .error .undefined
  | min + 1, byte :: alloc => if byte ≠ BitVec.ofNat 8 pipid then .ok false else myFree pipid min alloc

/-- The exit status, the calls of malloc and the rounds of the loop. -/
structure Result where
  exit : ℕ
  mallocs : ℕ
  rounds : ℕ
  deriving DecidableEq

/-- The loop of malloc_loop and what follows, from round i on with the rounds that are left and prev; there is
no result where something undefined is done. -/
def rounds (calls : Calls) (min max pipid : ℕ) : ℕ → ℕ → List (BitVec 8) → Option Result
  | 0, i, prev =>
    match myFree pipid min prev with
    | .error _ => none
    | .ok false => some ⟨exitFail, i + 1, i⟩
    | .ok true => some ⟨exitPass, i + 1, i⟩
  | n + 1, i, prev =>
    if calls.yield i = false then some ⟨exitFail, i + 1, i⟩
    else
      match myMalloc calls min max pipid (i + 1) with
      | .error _ => none
      | .ok none => some ⟨exitFail, i + 2, i⟩
      | .ok (some p) =>
        match myFree pipid min prev with
        | .error _ => none
        | .ok false => some ⟨exitFail, i + 2, i⟩
        | .ok true => rounds calls min max pipid n (i + 1) p

/-- niters <<= pipid on an int. -/
def shifted (niters pipid : ℕ) : ℤ := (BitVec.ofNat 32 niters <<< pipid).toInt

/-- malloc_loop from its computation of ave0 on. -/
def work (calls : Calls) (fm niters pipid : ℕ) : Option Result :=
  if 64 ≤ pipid ∨ 32 ≤ pipid then none
  else
    let ave0 := fm >>> pipid
    let ave1 := if ave0 < mallocAvemin then mallocAvemin else ave0
    let min := minSize ave1
    let max := maxSize ave1
    match myMalloc calls min max pipid 0 with
    | .error _ => none
    | .ok none => some ⟨exitFail, 1, 0⟩
    | .ok (some prev) => rounds calls min max pipid (shifted niters pipid).toNat 0 prev

def mallocLoop (calls : Calls) (meminfo : Option Meminfo) (niters pipid : ℕ) : Option Result :=
  match budget (freemem meminfo) with
  | .error (.exit code) => some ⟨code, 0, 0⟩
  | .error .undefined => none
  | .ok fm => work calls fm niters pipid

lemma quarter_le_variation : 1 / 4 ≤ variation := by
  have hquarter : toFloat 53 (1 / 4) = 1 / 4 := by
    have h := toFloat_mul_pow (p := 53) (n := 1) (by norm_num) (-2)
    norm_num at h ⊢
    exact h
  rw [← hquarter]
  exact toFloat_mono (by norm_num) (by norm_num)

/-- The budget is no more than the threshold. -/
lemma budget_of_pos {fmall : BitVec 64} (h : fmall > 0) : ∃ fm ≤ freememThreshold, budget fmall = .ok fm := by
  rw [budget, if_pos h]
  refine ⟨_, ?_, rfl⟩
  rw [if_neg (lt_irrefl _)]
  have hfactor : toFloat 53 (1 - variation) ≤ 1 := by
    have hle : 1 - variation ≤ ((1 : ℕ) : ℚ) := by
      have hvariation := quarter_le_variation
      push_cast
      linarith
    exact_mod_cast toFloat_le_natCast (by norm_num) (by norm_num) hle
  have hexact : toFloat 24 freememThreshold = freememThreshold := by
    have h := toFloat_mul_pow (p := 24) (n := 25) (by norm_num) 24
    have hsplit : ((freememThreshold : ℕ) : ℚ) = (25 : ℕ) * 2 ^ (24 : ℤ) := by norm_num [freememThreshold]
    rw [hsplit, h]
  have hproduct : toFloat 24 freememThreshold * toFloat 53 (1 - variation) ≤ freememThreshold := by
    rw [hexact]
    exact mul_le_of_le_one_right (Nat.cast_nonneg _) hfactor
  exact Nat.floor_le_of_le (toFloat_le_natCast (by norm_num) (by norm_num [freememThreshold]) hproduct)

/-- The sizes of the blocks differ. -/
lemma minSize_lt_maxSize {ave1 : ℕ} (hmin : mallocAvemin ≤ ave1) (hmax : ave1 ≤ 2 ^ 29) :
    minSize ave1 < maxSize ave1 := by
  have hvariation := quarter_le_variation
  have hlow : ((1024 : ℕ) : ℚ) ≤ toFloat 24 ave1 :=
    natCast_le_toFloat (by norm_num) (by norm_num) (by exact_mod_cast hmin)
  have hhigh : toFloat 24 ave1 ≤ 2 ^ 29 := by
    have hexact := toFloat_mul_pow (p := 24) (n := 1) (by norm_num) 29
    rw [show ((1 : ℕ) : ℚ) * 2 ^ (29 : ℤ) = 2 ^ 29 by norm_num] at hexact
    rw [← hexact]
    exact toFloat_mono (by norm_num) (by exact_mod_cast hmax)
  rw [minSize, maxSize]
  generalize toFloat 24 ave1 = a at hlow hhigh
  have hspread : ((256 : ℕ) : ℚ) ≤ toFloat 53 (a * variation) := by
    refine natCast_le_toFloat (by norm_num) (by norm_num) ?_
    push_cast at hlow ⊢
    nlinarith
  generalize toFloat 53 (a * variation) = m at hspread
  push_cast at hlow hspread
  have ha : 0 ≤ a := by linarith
  have hfloor : 1024 ≤ ⌊a⌋₊ := Nat.le_floor (by exact_mod_cast hlow)
  have hfloor' : ⌊a⌋₊ ≤ 2 ^ 29 := Nat.floor_le_of_le (by exact_mod_cast hhigh)
  have hle := Nat.floor_le ha
  have hlt := Nat.lt_floor_add_one a
  have hdown : toSize (toFloat 53 (a - m)) ≤ ⌊a⌋₊ - 255 := by
    refine Nat.floor_le_of_le (toFloat_le_natCast (by norm_num) (by omega) ?_)
    push_cast [show 255 ≤ ⌊a⌋₊ by omega]
    linarith
  have hup : ⌊a⌋₊ + 256 ≤ toSize (toFloat 53 (a + m)) := by
    refine Nat.le_floor (natCast_le_toFloat (by norm_num) (by omega) ?_)
    push_cast
    linarith
  omega

section Verify
variable {calls : Calls} {min max pipid : ℕ}

/-- All calls of a task succeed. -/
def Calls.Succeed (calls : Calls) : Prop := (∀ k, calls.malloc k = true) ∧ ∀ k, calls.yield k = true

/-- A block that its task has filled, with no fewer bytes than are verified. -/
def Filled (min pipid : ℕ) (alloc : List (BitVec 8)) : Prop :=
  ∃ sz ≥ min, alloc = List.replicate sz (BitVec.ofNat 8 pipid)

lemma myMalloc_ok (hcalls : calls.Succeed) (hlt : min < max) (pipid k : ℕ) :
    ∃ p, myMalloc calls min max pipid k = .ok (some p) ∧ Filled min pipid p := by
  refine ⟨_, ?_, calls.random k % (max - min) + min, Nat.le_add_left _ _, rfl⟩
  rw [myMalloc, if_neg (by omega), hcalls.1 k]
  rfl

lemma myFree_ok {alloc : List (BitVec 8)} (h : Filled min pipid alloc) : myFree pipid min alloc = .ok true := by
  obtain ⟨sz, hsz, rfl⟩ := h
  induction min generalizing sz with
  | zero => rfl
  | succ min ih =>
    obtain ⟨n, rfl⟩ : ∃ n, sz = n + 1 := Nat.exists_eq_add_one.mpr (by omega)
    rw [List.replicate_succ, myFree, if_neg (not_not.mpr rfl)]
    exact ih n (by omega)

/-- Each round that is left is done. -/
lemma rounds_eq (hcalls : calls.Succeed) (hlt : min < max) (n i : ℕ) {prev : List (BitVec 8)}
    (hprev : Filled min pipid prev) :
    rounds calls min max pipid n i prev = some ⟨exitPass, i + n + 1, i + n⟩ := by
  induction n generalizing i prev with
  | zero => simp only [rounds, myFree_ok hprev, Nat.add_zero]
  | succ n ih =>
    obtain ⟨p, hp, hfilled⟩ := myMalloc_ok hcalls hlt pipid (i + 1)
    rw [rounds, if_neg (by rw [hcalls.2 i]; decide), hp]
    simp only [myFree_ok hprev]
    rw [ih (i + 1) hfilled]
    congr 2 <;> omega

lemma work_eq (hcalls : calls.Succeed) {fm : ℕ} (hfm : fm ≤ freememThreshold) (niters : ℕ) {pipid : ℕ}
    (hpipid : pipid < 32) :
    work calls fm niters pipid =
      some ⟨exitPass, (shifted niters pipid).toNat + 1, (shifted niters pipid).toNat⟩ := by
  have hshift : fm >>> pipid ≤ 2 ^ 29 := by
    have hle := Nat.shiftRight_le fm pipid
    have hbound : freememThreshold ≤ 2 ^ 29 := by decide
    omega
  have hlt : ∀ ave1, ave1 = (if fm >>> pipid < mallocAvemin then mallocAvemin else fm >>> pipid) →
      minSize ave1 < maxSize ave1 := by
    rintro ave1 rfl
    split_ifs with hsmall
    · exact minSize_lt_maxSize le_rfl (by decide)
    · exact minSize_lt_maxSize (by omega) hshift
  obtain ⟨p, hp, hfilled⟩ := myMalloc_ok hcalls (hlt _ rfl) pipid 0
  rw [work, if_neg (by omega)]
  simp only [hp, rounds_eq hcalls (hlt _ rfl) _ 0 hfilled, Nat.zero_add]

end Verify

lemma rounds_mallocs {calls : Calls} {min max pipid n i : ℕ} {prev : List (BitVec 8)} {result : Result}
    (h : rounds calls min max pipid n i prev = some result) : 0 < result.mallocs := by
  induction n generalizing i prev with
  | zero =>
    rw [rounds] at h
    split at h
    · cases h
    · rw [← Option.some.inj h]
      exact Nat.succ_pos i
    · rw [← Option.some.inj h]
      exact Nat.succ_pos i
  | succ n ih =>
    rw [rounds] at h
    split at h
    · rw [← Option.some.inj h]
      exact Nat.succ_pos i
    · split at h
      · cases h
      · rw [← Option.some.inj h]
        exact Nat.succ_pos _
      · split at h
        · cases h
        · rw [← Option.some.inj h]
          exact Nat.succ_pos _
        · exact ih h

/-- A task that goes on calls malloc. -/
lemma work_mallocs {calls : Calls} {fm niters pipid : ℕ} {result : Result}
    (h : work calls fm niters pipid = some result) : 0 < result.mallocs := by
  rw [work] at h
  split at h
  · cases h
  · dsimp only at h
    split at h
    · cases h
    · rw [← Option.some.inj h]
      exact Nat.one_pos
    · exact rounds_mallocs h

/-- The free memory is not known, which a negative number tells, or below the threshold. -/
def Short (fm : BitVec 64) : Prop := fm.toInt < freememThreshold

instance (fm : BitVec 64) : Decidable (Short fm) := inferInstanceAs (Decidable (_ < _))

/-- The task leaves where memory is short and only there, before it calls malloc, and else its budget is no more
than the free memory and the threshold. -/
def Respects (calls : Calls) (meminfo : Option Meminfo) (niters pipid : ℕ) : Prop :=
  (mallocLoop calls meminfo niters pipid = some ⟨exitUntested, 0, 0⟩ ↔ Short (freemem meminfo)) ∧
  (¬ Short (freemem meminfo) → ∃ fm : ℕ, budget (freemem meminfo) = .ok fm ∧
    (fm : ℤ) ≤ min (freemem meminfo).toInt freememThreshold)

lemma pos_of_ne_zero {fmall : BitVec 64} (h : fmall ≠ 0) : fmall > 0 := by
  rw [gt_iff_lt, BitVec.lt_def]
  have hne : fmall.toNat ≠ 0 := fun hzero => h (BitVec.eq_of_toNat_eq hzero)
  simpa using Nat.pos_of_ne_zero hne

/-- Exactly where no memory is free, or enough of it. -/
theorem respects_iff (calls : Calls) (meminfo : Option Meminfo) (niters pipid : ℕ) :
    Respects calls meminfo niters pipid ↔
      freemem meminfo = 0 ∨ (freememThreshold : ℤ) ≤ (freemem meminfo).toInt := by
  by_cases hzero : freemem meminfo = 0
  · have hshort : Short (freemem meminfo) := by
      rw [hzero]
      decide
    have hbudget : budget (freemem meminfo) = .error (.exit exitUntested) := by
      rw [hzero]
      rfl
    refine iff_of_true ⟨iff_of_true ?_ hshort, fun hnot => absurd hshort hnot⟩ (.inl hzero)
    rw [mallocLoop, hbudget]
  · obtain ⟨fm, hfm, hbudget⟩ := budget_of_pos (pos_of_ne_zero hzero)
    have hgoes : mallocLoop calls meminfo niters pipid ≠ some ⟨exitUntested, 0, 0⟩ := by
      rw [mallocLoop, hbudget]
      exact fun h => absurd (work_mallocs h) (lt_irrefl 0)
    rw [or_iff_right hzero]
    constructor
    · intro h
      exact not_lt.mp fun hshort => hgoes (h.1.mpr hshort)
    · intro henough
      have hnot : ¬ Short (freemem meminfo) := not_lt.mpr henough
      refine ⟨iff_of_false hgoes hnot, fun _ => ⟨fm, hbudget, ?_⟩⟩
      have hcast : (fm : ℤ) ≤ freememThreshold := by exact_mod_cast hfm
      exact le_min (hcast.trans henough) hcast

/-- Nothing fails. -/
def plainCalls : Calls := ⟨fun _ => 0, fun _ => true, fun _ => true⟩

/-- /proc/meminfo cannot be read: the task takes the budget of the threshold all the same. -/
theorem not_respects_unknown : ¬ Respects plainCalls none 10 0 := by
  intro h
  have hshort : Short (freemem none) := by decide
  obtain ⟨fm, -, hbudget⟩ := budget_of_pos (show freemem none > 0 by decide)
  have hleft := h.1.mpr hshort
  rw [mallocLoop, hbudget] at hleft
  exact absurd (work_mallocs hleft) (lt_irrefl 0)

section Shift
variable {niters pipid : ℕ}

lemma shifted_toNat_lt (niters pipid : ℕ) : (shifted niters pipid).toNat < 2 ^ 31 := by
  have h := BitVec.toInt_lt (x := BitVec.ofNat 32 niters <<< pipid)
  rw [shifted]
  omega

lemma shifted_of_lt (h : niters * 2 ^ pipid < 2 ^ 31) : (shifted niters pipid).toNat = niters * 2 ^ pipid := by
  have hle : niters ≤ niters * 2 ^ pipid := Nat.le_mul_of_pos_right niters (Nat.two_pow_pos pipid)
  have hval : (BitVec.ofNat 32 niters <<< pipid).toNat = niters * 2 ^ pipid := by
    rw [BitVec.toNat_shiftLeft, BitVec.toNat_ofNat, Nat.mod_eq_of_lt (show niters < 2 ^ 32 by omega),
      Nat.shiftLeft_eq, Nat.mod_eq_of_lt (show niters * 2 ^ pipid < 2 ^ 32 by omega)]
  rw [shifted, BitVec.toInt_eq_toNat_of_lt (by rw [hval]; omega), hval]
  exact Int.toNat_natCast _

end Shift

/-- Where memory is known and all calls succeed, exactly as long as the number of rounds is an int. -/
theorem mallocLoop_rounds_iff (calls : Calls) (meminfo : Option Meminfo) (niters pipid : ℕ)
    (hmem : freemem meminfo ≠ 0) (hcalls : calls.Succeed) (hpos : 1 ≤ niters) :
    mallocLoop calls meminfo niters pipid = some ⟨exitPass, niters * 2 ^ pipid + 1, niters * 2 ^ pipid⟩ ↔
      niters * 2 ^ pipid < 2 ^ 31 := by
  obtain ⟨fm, hfm, hbudget⟩ := budget_of_pos (pos_of_ne_zero hmem)
  have hloop : mallocLoop calls meminfo niters pipid = work calls fm niters pipid := by rw [mallocLoop, hbudget]
  rw [hloop]
  by_cases hpipid : pipid < 32
  · rw [work_eq hcalls hfm niters hpipid]
    constructor
    · intro h
      have hrounds : (shifted niters pipid).toNat = niters * 2 ^ pipid :=
        congrArg Result.rounds (Option.some.inj h)
      rw [← hrounds]
      exact shifted_toNat_lt niters pipid
    · intro h
      rw [shifted_of_lt h]
  · refine iff_of_false (fun h => ?_) ?_
    · rw [work, if_pos (by omega)] at h
      cases h
    · have hpow : 2 ^ 32 ≤ 2 ^ pipid := Nat.pow_le_pow_right two_pos (by omega)
      nlinarith

/-- Some megabytes of free memory. -/
def plainMeminfo : Meminfo := ⟨[⟨"MemTotal:", 4096, ['k', 'B']⟩, ⟨"MemFree:", 2048, ['k', 'B']⟩], none⟩

theorem mallocLoop_rounds_seven :
    mallocLoop plainCalls (some plainMeminfo) 10 7 = some ⟨exitPass, 10 * 2 ^ 7 + 1, 10 * 2 ^ 7⟩ :=
  (mallocLoop_rounds_iff plainCalls (some plainMeminfo) 10 7 (by decide) ⟨fun _ => rfl, fun _ => rfl⟩
    (by omega)).mpr (by norm_num)

/-- Task 31 passes without a round. -/
theorem no_rounds :
    mallocLoop plainCalls (some plainMeminfo) 10 31 = some ⟨exitPass, 1, 0⟩ ∧ 0 ≠ 10 * 2 ^ 31 := by
  refine ⟨?_, by norm_num⟩
  obtain ⟨fm, hfm, hbudget⟩ := budget_of_pos (show freemem (some plainMeminfo) > 0 by decide)
  rw [mallocLoop, hbudget]
  have hcalls : plainCalls.Succeed := ⟨fun _ => rfl, fun _ => rfl⟩
  exact work_eq hcalls hfm 10 (by omega)

end PipTestsuite.Malloc
