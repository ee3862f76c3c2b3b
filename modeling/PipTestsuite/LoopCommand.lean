import PipTestsuite.LoopSh
import PipTestsuite.Lib.Numeral

/-! The command line of loop.sh, and the times that it prints at the end. -/
namespace PipTestsuite.LoopSh
open Numeral (numeral isNumeral numeral_toDigits isNumeral_toDigits)

/-- What the option loop sets; the numbers are words until they are compared. -/
structure Settings where
  modeList : List Word := []
  nomode : Bool := false
  display : Bool := false
  klean : Bool := false
  nodebug : Bool := false
  quiet : Bool := false
  ignoreErr : Bool := false
  iteration : Word := "0".toList
  duration : Word := "0".toList

/-- case $1 in *c -/
def endsIn (c : Char) (arg : Word) : Bool := arg.getLast? = some c

/-- The cases that set $mode_list. -/
def modeCases (arg : Word) (s : Settings) : Settings :=
  let s := if endsIn 'A' arg then { s with modeList := ["-C".toList, "-L".toList, "-G".toList, "-T".toList] } else s
  let s := if endsIn 'P' arg then { s with modeList := s.modeList ++ ["-P".toList] } else s
  let s := if endsIn 'L' arg then { s with modeList := s.modeList ++ ["-L".toList] } else s
  let s := if endsIn 'C' arg then { s with modeList := s.modeList ++ ["-C".toList] } else s
  let s := if endsIn 'G' arg then { s with modeList := s.modeList ++ ["-G".toList] } else s
  if endsIn 'T' arg then { s with modeList := s.modeList ++ ["-T".toList] } else s

/-- case $1 in *c) shift; ...=$1;; esac -/
def valueCase (c : Char) (set : Word → Settings → Settings) (sa : Settings × List Word) : Settings × List Word :=
  if endsIn c (sa.2.headD []) then (set (sa.2.tail.headD []) sa.1, sa.2.tail) else sa

/-- The cases that set a flag. -/
def flagCases (arg : Word) (s : Settings) : Settings :=
  let s := if endsIn 'N' arg then { s with nomode := true } else s
  let s := if endsIn 's' arg then { s with display := true } else s
  let s := if endsIn 'k' arg then { s with klean := true } else s
  let s := if endsIn 'd' arg then { s with nodebug := true } else s
  let s := if endsIn 'S' arg then { s with quiet := true } else s
  if endsIn 'i' arg then { s with ignoreErr := true } else s

/-- One round of the option loop. The cases behind a shift look at the word that it has brought to $1. -/
def optionBody (s : Settings) (args : List Word) : Except ℕ (Settings × List Word) :=
  let sa := (modeCases (args.headD []) s, args)
  let sa := valueCase 'n' (fun arg s => { s with iteration := arg }) sa
  let sa := valueCase 't' (fun arg s => { s with duration := arg }) sa
  let arg := sa.2.headD []
  let s := flagCases arg sa.1
  if endsIn 'h' arg ∨ endsIn 'u' arg then .error 2 else .ok (s, sa.2.tail)

/-- while case $1 in -*, for at most fuel rounds -/
def optionLoop : ℕ → Settings → List Word → Except ℕ (Settings × List Word)
  | 0, s, args => .ok (s, args)
  | fuel + 1, s, args =>
    if (args.headD []).head? = some '-' then optionBody s args >>= fun sa => optionLoop fuel sa.1 sa.2
    else .ok (s, args)

/-- The bound that [ $iteration -gt 0 -a ... ] or [ $duration -gt 0 -a ... ] tests. A test of a word that is no number
fails, as one of zero does. -/
def bound (word : Word) : ℕ := if isNumeral word then (numeral word).toNat else 0

lemma bound_toDigits (n : ℕ) : bound (Nat.toDigits 10 n) = n := by
  rw [bound, if_pos (isNumeral_toDigits n), numeral_toDigits, Int.toNat_natCast]

/-- The values of the variables in the main loop. -/
def Settings.options (usable : Word → Bool) (s : Settings) : Options where
  modeList := s.modeList
  usable := usable
  nomode := s.nomode
  display := s.display
  ignoreErr := s.ignoreErr
  iteration := bound s.iteration
  duration := bound s.duration

/-- loop.sh from its arguments on; a test program is found or not. Each round of the option loop takes a word. -/
def loopSh (found usable : Word → Bool) (r : Runs) (fuel : ℕ) (args : List Word) : Option Result :=
  match optionLoop args.length {} args with
  | .error code => some ⟨code, {}⟩
  | .ok (_, []) => some ⟨2, {}⟩
  | .ok (s, prog :: _) => if found prog then mainLoop (s.options usable) r fuel {} else some ⟨exitUntested, {}⟩

/-- The options of the usage. -/
inductive Item where
  | all | process | preload | pipclone | got | pthread
  | nomode | display | klean | nodebug | quiet | ignoreErr
  | iteration (n : ℕ)
  | duration (sec : ℕ)
  deriving DecidableEq

namespace Item

def words : Item → List Word
  | all => ["-A".toList]
  | process => ["-P".toList]
  | preload => ["-L".toList]
  | pipclone => ["-C".toList]
  | got => ["-G".toList]
  | pthread => ["-T".toList]
  | nomode => ["-N".toList]
  | display => ["-s".toList]
  | klean => ["-k".toList]
  | nodebug => ["-d".toList]
  | quiet => ["-S".toList]
  | ignoreErr => ["-i".toList]
  | iteration n => ["-n".toList, Nat.toDigits 10 n]
  | duration sec => ["-t".toList, Nat.toDigits 10 sec]

/-- The modes that an option stands for, which the default modes replace and all others extend. -/
def addModes (modes : List Word) : Item → List Word
  | all => ["-C".toList, "-L".toList, "-G".toList, "-T".toList]
  | process => modes ++ ["-P".toList]
  | preload => modes ++ ["-L".toList]
  | pipclone => modes ++ ["-C".toList]
  | got => modes ++ ["-G".toList]
  | pthread => modes ++ ["-T".toList]
  | _ => modes

def iterations : Item → Option ℕ
  | iteration n => some n
  | _ => none

def seconds : Item → Option ℕ
  | duration sec => some sec
  | _ => none

/-- What the option loop makes of an option. -/
def apply (s : Settings) (item : Item) : Settings :=
  { s with
    modeList := item.addModes s.modeList
    nomode := s.nomode || item = nomode
    display := s.display || item = display
    klean := s.klean || item = klean
    nodebug := s.nodebug || item = nodebug
    quiet := s.quiet || item = quiet
    ignoreErr := s.ignoreErr || item = ignoreErr
    iteration := (item.iterations.map (Nat.toDigits 10)).getD s.iteration
    duration := (item.seconds.map (Nat.toDigits 10)).getD s.duration }

end Item

/-- The meaning of a list of options: each flag that is among them, the modes in their order, and the last numbers. -/
def meaning (usable : Word → Bool) (items : List Item) : Options where
  modeList := items.foldl Item.addModes []
  usable := usable
  nomode := .nomode ∈ items
  display := .display ∈ items
  ignoreErr := .ignoreErr ∈ items
  iteration := (items.filterMap Item.iterations).getLastD 0
  duration := (items.filterMap Item.seconds).getLastD 0

section CommandLine
variable {s : Settings} {items : List Item} {prog : Word} {rest : List Word}

/-- A number is not taken for an option. -/
lemma endsIn_toDigits {c : Char} (hc : c.isDigit = false) (n : ℕ) : endsIn c (Nat.toDigits 10 n) = false := by
  rw [endsIn, decide_eq_false_iff_not]
  intro hlast
  rw [Nat.isDigit_of_mem_toDigits (by decide) le_rfl (List.mem_of_getLast? hlast)] at hc
  cases hc

lemma cases_toDigits (n : ℕ) (s : Settings) : flagCases (Nat.toDigits 10 n) s = s := by
  simp only [flagCases, endsIn_toDigits (show Char.isDigit 'N' = false by decide),
    endsIn_toDigits (show Char.isDigit 's' = false by decide),
    endsIn_toDigits (show Char.isDigit 'k' = false by decide),
    endsIn_toDigits (show Char.isDigit 'd' = false by decide),
    endsIn_toDigits (show Char.isDigit 'S' = false by decide),
    endsIn_toDigits (show Char.isDigit 'i' = false by decide), Bool.false_eq_true, if_false]

/-- A round of the option loop takes one option, with its number. -/
lemma optionBody_words (item : Item) (s : Settings) (rest : List Word) :
    optionBody s (item.words ++ rest) = .ok (item.apply s, rest) := by
  have hletter : ∀ c d, endsIn c ['-', d] = decide (d = c) := fun c d => by simp [endsIn]
  cases item with
  | iteration n =>
    have ht := endsIn_toDigits (show Char.isDigit 't' = false by decide) n
    have hh := endsIn_toDigits (show Char.isDigit 'h' = false by decide) n
    have hu := endsIn_toDigits (show Char.isDigit 'u' = false by decide) n
    simp [optionBody, Item.words, modeCases, valueCase, hletter, ht, hh, hu, cases_toDigits, Item.apply, Item.addModes,
      Item.iterations, Item.seconds]
  | duration sec =>
    have hh := endsIn_toDigits (show Char.isDigit 'h' = false by decide) sec
    have hu := endsIn_toDigits (show Char.isDigit 'u' = false by decide) sec
    simp [optionBody, Item.words, modeCases, valueCase, hletter, hh, hu, cases_toDigits, Item.apply, Item.addModes,
      Item.iterations, Item.seconds]
  | all | process | preload | pipclone | got | pthread | nomode | display | klean | nodebug | quiet | ignoreErr =>
    simp [optionBody, Item.words, modeCases, valueCase, flagCases, hletter, Item.apply, Item.addModes, Item.iterations,
      Item.seconds]

lemma words_head (item : Item) : ∃ arg args, item.words = arg :: args ∧ arg.head? = some '-' := by
  cases item <;> exact ⟨_, _, rfl, rfl⟩

/-- The option loop takes all options, and comes to what is behind them. -/
lemma optionLoop_words (items : List Item) (k : ℕ) (s : Settings) (args : List Word) :
    optionLoop (items.length + k) s (items.flatMap Item.words ++ args) =
      optionLoop k (items.foldl Item.apply s) args := by
  induction items generalizing s with
  | nil => rw [List.length_nil, Nat.zero_add, List.flatMap_nil, List.nil_append, List.foldl_nil]
  | cons item items ih =>
    obtain ⟨arg, more, hwords, hdash⟩ := words_head item
    have hhead : ((item.words ++ (items.flatMap Item.words ++ args)).headD []).head? = some '-' := by
      rw [hwords]
      exact hdash
    rw [List.flatMap_cons, List.append_assoc, List.length_cons, Nat.add_right_comm, optionLoop, if_pos hhead,
      optionBody_words]
    exact ih _

lemma length_le_flatMap (items : List Item) : items.length ≤ (items.flatMap Item.words).length := by
  induction items with
  | nil => exact le_rfl
  | cons item items ih =>
    obtain ⟨arg, args, hwords, -⟩ := words_head item
    rw [List.flatMap_cons, List.length_append, hwords, List.length_cons, List.length_cons]
    omega

/-- The settings that a list of options makes have the meaning of the list. -/
lemma options_foldl (usable : Word → Bool) (items : List Item) :
    (items.foldl Item.apply {}).options usable = meaning usable items := by
  induction items using List.reverseRecOn with
  | nil => rfl
  | append_singleton items item ih =>
    rw [List.foldl_append, List.foldl_cons, List.foldl_nil]
    generalize items.foldl Item.apply {} = s at ih ⊢
    simp only [Settings.options, meaning, Options.mk.injEq, true_and] at ih ⊢
    obtain ⟨hmodes, hnomode, hdisplay, hignore, hiteration, hduration⟩ := ih
    refine ⟨?_, ?_, ?_, ?_, ?_, ?_⟩
    · rw [List.foldl_append, ← hmodes]
      rfl
    · simp [Item.apply, hnomode, eq_comm]
    · simp [Item.apply, hdisplay, eq_comm]
    · simp [Item.apply, hignore, eq_comm]
    · cases hitem : item.iterations with
      | none =>
        simpa only [Item.apply, hitem, List.filterMap_append, List.filterMap_cons_none hitem, List.filterMap_nil,
          List.append_nil, Option.map_none, Option.getD_none] using hiteration
      | some n => simp [Item.apply, hitem, bound_toDigits]
    · cases hitem : item.seconds with
      | none =>
        simpa only [Item.apply, hitem, List.filterMap_append, List.filterMap_cons_none hitem, List.filterMap_nil,
          List.append_nil, Option.map_none, Option.getD_none] using hduration
      | some n => simp [Item.apply, hitem, bound_toDigits]

lemma optionLoop_length (items : List Item) (args : List Word) :
    ∃ k ≥ args.length, optionLoop (items.flatMap Item.words ++ args).length {} (items.flatMap Item.words ++ args) =
      optionLoop k (items.foldl Item.apply {}) args := by
  have hle := length_le_flatMap items
  refine ⟨(items.flatMap Item.words ++ args).length - items.length, ?_, ?_⟩
  · rw [List.length_append]
    omega
  · rw [← optionLoop_words items _ {} args, Nat.add_sub_cancel']
    rw [List.length_append]
    omega

/-- Options and a test program start the loop with the meaning of the options; -h or -u behind them, or nothing,
prints the usage. -/
theorem loopSh_options (found usable : Word → Bool) (r : Runs) (fuel : ℕ) (items : List Item) :
    (∀ prog rest, prog.head? ≠ some '-' → loopSh found usable r fuel (items.flatMap Item.words ++ prog :: rest) =
      if found prog then mainLoop (meaning usable items) r fuel {} else some ⟨exitUntested, {}⟩) ∧
    (∀ c ∈ ['h', 'u'], ∀ rest, loopSh found usable r fuel (items.flatMap Item.words ++ ['-', c] :: rest) =
      some ⟨2, {}⟩) ∧
    loopSh found usable r fuel (items.flatMap Item.words) = some ⟨2, {}⟩ := by
  refine ⟨fun prog rest hprog => ?_, fun c hc rest => ?_, ?_⟩
  · obtain ⟨k, -, hloop⟩ := optionLoop_length items (prog :: rest)
    have hend : optionLoop k (items.foldl Item.apply {}) (prog :: rest) =
        .ok (items.foldl Item.apply {}, prog :: rest) := by
      cases k with
      | zero => rfl
      | succ k => exact if_neg hprog
    rw [loopSh, hloop, hend, ← options_foldl]
  · obtain ⟨k, hk, hloop⟩ := optionLoop_length items (['-', c] :: rest)
    obtain ⟨k, rfl⟩ : ∃ n, k = n + 1 := Nat.exists_eq_add_one.mpr (Nat.lt_of_lt_of_le (by simp) hk)
    have husage : optionBody (items.foldl Item.apply {}) (['-', c] :: rest) = .error 2 := by
      have hletter : ∀ d e, endsIn d ['-', e] = decide (e = d) := fun d e => by simp [endsIn]
      simp only [List.mem_cons, List.not_mem_nil, or_false] at hc
      obtain rfl | rfl := hc <;> simp [optionBody, valueCase, hletter]
    rw [loopSh, hloop, optionLoop, if_pos (by rfl), husage]
    rfl
  · obtain ⟨k, -, hloop⟩ := optionLoop_length items []
    rw [List.append_nil] at hloop
    have hend : optionLoop k (items.foldl Item.apply {}) [] = .ok (items.foldl Item.apply {}, []) := by
      cases k <;> rfl
    rw [loopSh, hloop, hend]

end CommandLine

section Times
variable {o : Options} {r : Runs} {v v' : Vars}

structure Times where
  ave : ℕ
  min : ℕ
  max : ℕ
  count : ℕ

/-- The line of times that finalize prints. -/
def finalize (v : Vars) : Option Times :=
  if v.ntimes > 0 then some ⟨v.timeTotal / v.ntimes, v.timeMin, v.timeMax, v.ntimes⟩ else none

/-- The times under -N are not kept; else they are those of all runs so far. -/
structure Kept (o : Options) (r : Runs) (v : Vars) : Prop where
  nomode : o.nomode = true → v.ntimes = 0
  count : o.nomode = false → v.ntimes = v.runs
  total : o.nomode = false → v.timeTotal = ∑ k ∈ Finset.range v.runs, r.seconds k
  least : o.nomode = false → IsLeast (insert 10000 (r.seconds '' Set.Iio v.runs)) v.timeMin
  greatest : o.nomode = false → IsGreatest (insert 0 (r.seconds '' Set.Iio v.runs)) v.timeMax

/-- The variables at the end of a part of the loop, wherever it leads. -/
def flowVars : Flow → Vars
  | .ok v => v
  | .error (_, v) => v

/-- The times are none of what checkExt changes. -/
lemma checkExt_vars (o : Options) (v : Vars) : ∃ ext last errCount,
    flowVars (checkExt o v) = { v with ext := ext, last := last, errCount := errCount } := by
  by_cases hext : v.last = 0
  · exact ⟨v.last, 0, v.errCount, by simp [checkExt, flowVars, hext]⟩
  · refine ⟨v.last, 0, v.errCount + 1, ?_⟩
    cases hignore : o.ignoreErr <;> simp [checkExt, flowVars, hext, hignore]

lemma Kept.checkExt (h : Kept o r v) : Kept o r (flowVars (checkExt o v)) := by
  obtain ⟨ext, last, errCount, heq⟩ := checkExt_vars o v
  rw [heq]
  exact ⟨h.nomode, h.count, h.total, h.least, h.greatest⟩

lemma keepTimes_timeMin (t : ℕ) (v : Vars) : (keepTimes t v).timeMin = min t v.timeMin := by
  simp only [keepTimes, min_def]
  split_ifs <;> omega

lemma keepTimes_timeMax (t : ℕ) (v : Vars) : (keepTimes t v).timeMax = max t v.timeMax := by
  simp only [keepTimes, max_def]
  split_ifs <;> omega

/-- The times so far and one more. -/
lemma insert_seconds (init k : ℕ) : insert init (r.seconds '' Set.Iio (k + 1)) =
    insert (r.seconds k) (insert init (r.seconds '' Set.Iio k)) := by
  rw [← Order.succ_eq_add_one, Order.Iio_succ_eq_insert, Set.image_insert_eq, Set.insert_comm]

/-- One run under a mode. -/
lemma Kept.modeRun (h : Kept o r v) (hnomode : o.nomode = false) : Kept o r (flowVars (modeRun o r v)) := by
  refine Kept.checkExt ⟨fun hnot => ?_, fun _ => ?_, fun _ => ?_, fun _ => ?_, fun _ => ?_⟩
  · rw [hnomode] at hnot
    cases hnot
  · simp [keepTimes, runProgram, h.count hnomode]
  · simp [keepTimes, runProgram, h.total hnomode, Finset.sum_range_succ]
  · rw [keepTimes_timeMin]
    exact insert_seconds (r := r) 10000 v.runs ▸ (h.least hnomode).insert (r.seconds v.runs)
  · rw [keepTimes_timeMax]
    exact insert_seconds (r := r) 0 v.runs ▸ (h.greatest hnomode).insert (r.seconds v.runs)

lemma Kept.nomodeRun (h : Kept o r v) (hnomode : o.nomode = true) : Kept o r (flowVars (nomodeRun o r v)) := by
  refine Kept.checkExt ⟨h.nomode, fun hnot => ?_, fun hnot => ?_, fun hnot => ?_, fun hnot => ?_⟩ <;>
  · rw [hnomode] at hnot
    cases hnot

lemma Kept.modeLoop (h : Kept o r v) (hnomode : o.nomode = false) (modes : List Word) :
    Kept o r (flowVars (modeLoop o r modes v)) := by
  induction modes generalizing v with
  | nil => exact h
  | cons mode modes ih =>
    have hrun := h.modeRun hnomode
    rw [LoopSh.modeLoop]
    cases hflow : LoopSh.modeRun o r v with
    | error cv =>
      rw [hflow] at hrun
      exact hrun
    | ok v' =>
      rw [hflow] at hrun
      exact ih hrun

lemma Kept.round (h : Kept o r v) : Kept o r (flowVars (round o r v)) := by
  rw [LoopSh.round]
  split_ifs with hnomode
  · exact h.nomodeRun hnomode
  · exact h.modeLoop (by simpa using hnomode) _

lemma Kept.mainLoop {fuel : ℕ} {res : Result} (h : Kept o r v) (hres : mainLoop o r fuel v = some res) :
    Kept o r res.vars := by
  induction fuel generalizing v with
  | zero => cases hres
  | succ fuel ih =>
    have hround := h.round
    rw [LoopSh.mainLoop] at hres
    cases hflow : LoopSh.round o r v with
    | error cv =>
      rw [hflow] at hround hres
      cases hres
      exact hround
    | ok v' =>
      rw [hflow] at hround hres
      have hnext : Kept o r { v' with i := v'.i + 1 } :=
        ⟨hround.nomode, hround.count, hround.total, hround.least, hround.greatest⟩
      dsimp only at hres
      split_ifs at hres
      · cases hres
        exact hnext
      · cases hres
        exact hnext
      · exact ih hnext hres

/-- At the start no time is kept. -/
lemma Kept.start (o : Options) (r : Runs) : Kept o r {} := by
  have hinit : ∀ init, insert init (r.seconds '' Set.Iio 0) = {init} := fun init => by simp
  refine ⟨fun _ => rfl, fun _ => rfl, fun _ => rfl, fun _ => ?_, fun _ => ?_⟩
  · exact (hinit 10000).symm ▸ isLeast_singleton
  · exact (hinit 0).symm ▸ isGreatest_singleton

/-- The greatest time of a run that has one. -/
lemma Kept.greatest_run (h : Kept o r v) (hnomode : o.nomode = false) (hruns : v.runs ≠ 0) :
    IsGreatest (r.seconds '' Set.Iio v.runs) v.timeMax := by
  obtain ⟨hmem, hbound⟩ := h.greatest hnomode
  refine ⟨?_, fun t ht => hbound (Set.mem_insert_of_mem _ ht)⟩
  obtain hzero | hmem := hmem
  · have hfirst : r.seconds 0 ≤ v.timeMax := hbound (Or.inr ⟨0, Nat.pos_of_ne_zero hruns, rfl⟩)
    exact ⟨0, Nat.pos_of_ne_zero hruns, by omega⟩
  · exact hmem

/-- loop.sh prints no times under -N or without a run. Else it prints the number of runs, the whole part of the
average of their times, the least of 10000 and their times, and the greatest of their times. -/
theorem finalize_times (o : Options) (r : Runs) (fuel : ℕ) {res : Result}
    (hres : mainLoop o r fuel {} = some res) :
    (o.nomode = true ∨ res.vars.runs = 0 → finalize res.vars = none) ∧
    (o.nomode = false → res.vars.runs ≠ 0 → ∃ times, finalize res.vars = some times ∧ times.count = res.vars.runs ∧
      times.ave = (∑ k ∈ Finset.range times.count, r.seconds k) / times.count ∧
      IsLeast (insert 10000 (r.seconds '' Set.Iio times.count)) times.min ∧
      IsGreatest (r.seconds '' Set.Iio times.count) times.max ∧
      (∀ k < times.count, times.min ≤ r.seconds k ∧ r.seconds k ≤ times.max) ∧
      times.min ≤ times.ave ∧ times.ave ≤ times.max) := by
  have hkept : Kept o r res.vars := (Kept.start o r).mainLoop hres
  have hnone : res.vars.ntimes = 0 → finalize res.vars = none := fun hzero => if_neg (by omega)
  refine ⟨?_, fun hmode hruns => ?_⟩
  · rintro (hmode | hruns)
    · exact hnone (hkept.nomode hmode)
    · cases hmode : o.nomode with
      | true => exact hnone (hkept.nomode hmode)
      | false => exact hnone ((hkept.count hmode).trans hruns)
  · have hcount := hkept.count hmode
    have htotal := hkept.total hmode
    have hmin := hkept.least hmode
    have hmax := hkept.greatest_run hmode hruns
    have hpos : 0 < res.vars.ntimes := by omega
    rw [← hcount] at htotal hmin hmax
    have hbounds : ∀ k < res.vars.ntimes, res.vars.timeMin ≤ r.seconds k ∧ r.seconds k ≤ res.vars.timeMax :=
      fun k hk => ⟨hmin.2 (Or.inr ⟨k, hk, rfl⟩), hmax.2 ⟨k, hk, rfl⟩⟩
    have hleast : res.vars.timeMin * res.vars.ntimes ≤ res.vars.timeTotal :=
      calc res.vars.timeMin * res.vars.ntimes = ∑ k ∈ Finset.range res.vars.ntimes, res.vars.timeMin := by
            rw [Finset.sum_const, Finset.card_range, smul_eq_mul, Nat.mul_comm]
        _ ≤ ∑ k ∈ Finset.range res.vars.ntimes, r.seconds k :=
            Finset.sum_le_sum fun k hk => (hbounds k (Finset.mem_range.mp hk)).1
        _ = res.vars.timeTotal := htotal.symm
    have hgreatest : res.vars.timeTotal ≤ res.vars.ntimes * res.vars.timeMax :=
      calc res.vars.timeTotal = ∑ k ∈ Finset.range res.vars.ntimes, r.seconds k := htotal
        _ ≤ ∑ k ∈ Finset.range res.vars.ntimes, res.vars.timeMax :=
            Finset.sum_le_sum fun k hk => (hbounds k (Finset.mem_range.mp hk)).2
        _ = res.vars.ntimes * res.vars.timeMax := by rw [Finset.sum_const, Finset.card_range, smul_eq_mul]
    exact ⟨_, if_pos hpos, hcount, by rw [htotal], hmin, hmax, hbounds, (Nat.le_div_iff_mul_le hpos).mpr hleast,
      Nat.div_le_of_le_mul hgreatest⟩

/-- One round over two modes, whose runs take 4 and 9 seconds. -/
def twoRuns : Options × Runs :=
  (⟨["-L".toList, "-T".toList], fun _ => true, false, false, false, 1, 0⟩,
    ⟨fun _ => 0, fun k => if k = 0 then 4 else 9, fun _ => 0⟩)

theorem finalize_times_twoRuns : ∃ res times, mainLoop twoRuns.1 twoRuns.2 1 {} = some res ∧
    finalize res.vars = some times ∧ times.count = 2 ∧
    IsLeast (insert 10000 (twoRuns.2.seconds '' Set.Iio times.count)) times.min ∧
    IsGreatest (twoRuns.2.seconds '' Set.Iio times.count) times.max := by
  have hres : mainLoop twoRuns.1 twoRuns.2 1 {} = some _ := rfl
  obtain ⟨times, htimes, hcount, -, hmin, hmax, -⟩ :=
    (finalize_times twoRuns.1 twoRuns.2 1 hres).2 rfl (by decide)
  exact ⟨_, times, hres, htimes, hcount, hmin, hmax⟩

end Times

end PipTestsuite.LoopSh
