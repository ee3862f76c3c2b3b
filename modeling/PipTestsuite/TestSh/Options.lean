import PipTestsuite.ExitCode

/-! The command line of test.sh: how a set of PiP modes is parsed from options, checked against
the machine, and written back as the options string that a nested test.sh receives. -/
namespace PipTestsuite.TestSh

inductive PipMode where
  | L | G | C | T
  deriving DecidableEq, Repr

/-- pip_mode_name_L, _G, _C and _T. -/
def pipModeName : PipMode → Word
  | .L => "process:preload".toList
  | .G => "process:got".toList
  | .C => "process:pipclone".toList
  | .T => "pthread".toList

/-- The variables run_test_L, _G, _C and _T, each empty or set to its letter. -/
structure RunTest where
  L : Bool := false
  G : Bool := false
  C : Bool := false
  T : Bool := false
  deriving DecidableEq, Repr

namespace RunTest

def all : RunTest := ⟨true, true, true, true⟩

def process (r : RunTest) : RunTest := { r with L := true, G := true, C := true }

def set (r : RunTest) : PipMode → RunTest
  | .L => { r with L := true }
  | .G => { r with G := true }
  | .C => { r with C := true }
  | .T => { r with T := true }

def get (r : RunTest) : PipMode → Bool
  | .L => r.L
  | .G => r.G
  | .C => r.C
  | .T => r.T

/-- The words of "$run_test_L $run_test_G $run_test_C $run_test_T". -/
def modeList (r : RunTest) : List PipMode :=
  (if r.L then [.L] else []) ++ (if r.G then [.G] else []) ++
    (if r.C then [.C] else []) ++ (if r.T then [.T] else [])

/-- The words of $options: each selected mode is put in front of those before it. -/
def options (r : RunTest) : List Word :=
  let options := []
  let options := if r.L then "-L".toList :: options else options
  let options := if r.G then "-G".toList :: options else options
  let options := if r.C then "-C".toList :: options else options
  if r.T then "-T".toList :: options else options

@[simp] theorem mem_modeList (r : RunTest) (m : PipMode) : m ∈ r.modeList ↔ r.get m = true := by
  cases m <;> simp [modeList, get]

theorem ext_get {r s : RunTest} (h : ∀ m, r.get m = s.get m) : r = s := by
  have hL := h .L
  have hG := h .G
  have hC := h .C
  have hT := h .T
  cases r
  cases s
  simp_all [get]

@[simp] theorem get_set (r : RunTest) (m k : PipMode) : (r.set m).get k = (decide (m = k) || r.get k) := by
  cases m <;> cases k <;> simp [set, get]

end RunTest

/-- The case statements of the option loop on one argument, except the *list* case. -/
def parseOption (r : RunTest) (arg : Word) : RunTest :=
  let r := if 'A' ∈ arg then RunTest.all else r
  let r := if 'P' ∈ arg then r.process else r
  let r := if 'C' ∈ arg then r.set .C else r
  let r := if 'L' ∈ arg then r.set .L else r
  let r := if 'G' ∈ arg then r.set .G else r
  let r := if 'T' ∈ arg then r.set .T else r
  let r := if "thread".toList <:+ arg then r.set .T else r
  let r := if "process".toList <:+ arg then r.process else r
  let r := if pipModeName .L <:+ arg then r.set .L else r
  let r := if pipModeName .G <:+ arg then r.set .G else r
  if pipModeName .C <:+ arg then r.set .C else r

/-- The option loop and the check of what it leaves: the selected modes and TEST_LIST. There is
no result where test.sh prints its usage or its list of modes and exits. -/
def parseArgs : RunTest → List Word → Option (RunTest × Word)
  | _, [] => none
  | r, arg :: rest =>
    if arg.head? = some '-' then
      if "list".toList <:+: arg then none else parseArgs (parseOption r arg) rest
    else if arg = [] then none
    else match rest with
      | [] => some (r, arg)
      | _ :: _ => none

/-- What test.sh finds on its machine. -/
structure Machine where
  /-- utils/clone_check succeeds -/
  cloneReady : Bool
  /-- what pip_mode_check prints for a mode -/
  modeCheck : PipMode → Word

namespace Machine

/-- The first value of pip_mode_list. -/
def pipModeList (mc : Machine) (r : RunTest) : List PipMode :=
  if r.modeList = [] then
    if mc.cloneReady then [.L, .G, .C, .T] else [.T]
  else if mc.cloneReady then r.modeList
  else if r.T then [.T] else []

/-- The loop that checks whether each mode is testable or not. -/
def checkModes (mc : Machine) (modes : List PipMode) : RunTest :=
  modes.foldl (fun r m => if mc.modeCheck m = pipModeName m then r.set m else r) {}

/-- Modes that test.sh goes on to test: at least one, all of them testable on this machine. -/
structure Testable (mc : Machine) (r : RunTest) : Prop where
  nonempty : r.modeList ≠ []
  check : ∀ m, r.get m = true → mc.modeCheck m = pipModeName m
  clone : mc.cloneReady = false → ∀ m, r.get m = true → m = .T

end Machine

lemma parseOption_letter (r : RunTest) :
    parseOption r "-L".toList = r.set .L ∧ parseOption r "-G".toList = r.set .G ∧
      parseOption r "-C".toList = r.set .C ∧ parseOption r "-T".toList = r.set .T := by
  rcases r with ⟨_ | _, _ | _, _ | _, _ | _⟩ <;> decide

/-- Re-parsing the rebuilt options gives the same modes. -/
theorem parseArgs_options (r : RunTest) (file : Word) (hfile : file ≠ []) (hdash : file.head? ≠ some '-') :
    parseArgs {} (r.options ++ [file]) = some (r, file) := by
  have hone : ∀ q : RunTest, parseArgs q [file] = some (q, file) := fun q => by
    simp [parseArgs, hfile, hdash]
  have hopt : ∀ (q : RunTest) (m : Char) (rest : List Word),
      parseArgs q (['-', m] :: rest) = parseArgs (parseOption q ['-', m]) rest := by
    intro q m rest
    have hlist : ¬ ['l', 'i', 's', 't'] <:+: ['-', m] := fun h => by simpa using h.length_le
    simp [parseArgs, hlist]
  obtain ⟨hL, hG, hC, hT⟩ : (∀ q, parseOption q ['-', 'L'] = q.set .L) ∧
      (∀ q, parseOption q ['-', 'G'] = q.set .G) ∧ (∀ q, parseOption q ['-', 'C'] = q.set .C) ∧
      (∀ q, parseOption q ['-', 'T'] = q.set .T) :=
    ⟨fun q => (parseOption_letter q).1, fun q => (parseOption_letter q).2.1,
      fun q => (parseOption_letter q).2.2.1, fun q => (parseOption_letter q).2.2.2⟩
  rcases r with ⟨_ | _, _ | _, _ | _, _ | _⟩ <;>
    simp [RunTest.options, hone, hopt, hL, hG, hC, hT, RunTest.set]

/-- Options alone leave test.sh without a test list. -/
theorem parseArgs_of_dash (opts : List Word) (h : ∀ o ∈ opts, o.head? = some '-') (q : RunTest) :
    parseArgs q opts = none := by
  induction opts generalizing q with
  | nil => rfl
  | cons o opts ih =>
    have ho := h o (by simp)
    have hrest := ih (fun p hp => h p (by simp [hp])) (parseOption q o)
    simp [parseArgs, ho, hrest]

lemma head_of_mem_options (r : RunTest) (o : Word) (ho : o ∈ r.options) : o.head? = some '-' := by
  rcases r with ⟨_ | _, _ | _, _ | _, _ | _⟩ <;> simp [RunTest.options] at ho <;> grind

@[simp] theorem get_checkModes (mc : Machine) (modes : List PipMode) (m : PipMode) :
    (mc.checkModes modes).get m = decide (m ∈ modes ∧ mc.modeCheck m = pipModeName m) := by
  have h : ∀ (q : RunTest),
      (modes.foldl (fun r m => if mc.modeCheck m = pipModeName m then r.set m else r) q).get m =
        (q.get m || decide (m ∈ modes ∧ mc.modeCheck m = pipModeName m)) := by
    induction modes with
    | nil => simp
    | cons k modes ih =>
      intro q
      rw [List.foldl_cons, ih]
      by_cases hk : mc.modeCheck k = pipModeName k
      · by_cases hm : k = m
        · subst hm
          simp [hk]
        · simp [hk, hm, Ne.symm hm]
      · by_cases hm : k = m
        · subst hm
          simp [hk]
        · simp [hk, Ne.symm hm]
  have h0 : ∀ m : PipMode, ({} : RunTest).get m = false := fun m => by cases m <;> rfl
  simpa [Machine.checkModes, h0] using h {}

/-- A nested test.sh that is given testable modes tests exactly these modes. -/
theorem checkModes_pipModeList (mc : Machine) (r : RunTest) (h : mc.Testable r) :
    mc.pipModeList r ≠ [] ∧ mc.checkModes (mc.pipModeList r) = r := by
  by_cases hc : mc.cloneReady = true
  · refine ⟨by simp [Machine.pipModeList, h.nonempty, hc], RunTest.ext_get fun m => ?_⟩
    have hm := h.check m
    by_cases hr : r.get m = true <;> simp_all [Machine.pipModeList, h.nonempty]
  · have hT := h.clone (by simpa using hc)
    obtain ⟨m, hm⟩ := List.exists_mem_of_ne_nil _ h.nonempty
    rw [RunTest.mem_modeList] at hm
    have hmT := hT m hm
    subst hmT
    have hrT : r.T = true := hm
    refine ⟨by simp [Machine.pipModeList, h.nonempty, hc, hrT], RunTest.ext_get fun k => ?_⟩
    have hk := h.check k
    have hkT := hT k
    by_cases hr : r.get k = true <;> simp_all [Machine.pipModeList, h.nonempty]
    grind

/-- The modes that survive the check are testable, unless there are none. -/
theorem testable_checkModes (mc : Machine) (r : RunTest)
    (h : (mc.checkModes (mc.pipModeList r)).modeList ≠ []) :
    mc.Testable (mc.checkModes (mc.pipModeList r)) where
  nonempty := h
  check m hm := by
    rw [get_checkModes] at hm
    exact (of_decide_eq_true hm).2
  clone hc m hm := by
    rw [get_checkModes] at hm
    have hmem := (of_decide_eq_true hm).1
    unfold Machine.pipModeList at hmem
    split_ifs at hmem <;> simp_all

end PipTestsuite.TestSh
