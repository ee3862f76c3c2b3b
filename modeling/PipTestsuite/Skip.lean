import PipTestsuite.ExitCode

/-! utils/skip: in front of a command of a test list, it exits with a code instead in some of the modes. -/
namespace PipTestsuite.Skip

/-- $PIP_MODE, $skip_debug and $skip_flag, empty where they are not set. -/
structure Env where
  pipMode : Word
  skipDebug : Word
  skipFlag : Word

def processPreload : Word := "process:preload".toList
def processGot : Word := "process:got".toList
def processPipclone : Word := "process:pipclone".toList
def pthread : Word := "pthread".toList
def skipped : Word := "skip".toList

/-- The patterns of the case statement in turn, each a word between two stars, and the modes they set skip_flag
for; there is no list for the pattern that sets it always. -/
def patterns : List (Word × Option (List Word)) :=
  [(['A'], none),
   (['C'], some [processPipclone]),
   (['L'], some [processPreload]),
   (['G'], some [processGot]),
   (['T'], some [pthread]),
   (['P'], some [processPipclone, processPreload, processGot]),
   (processPipclone, some [processPipclone]),
   (processPreload, some [processPreload]),
   (processGot, some [processGot]),
   ("process".toList, some [processPipclone, processPreload, processGot]),
   ("thread".toList, some [pthread])]

/-- The first pattern that matches the argument. -/
def matching (modeArg : Word) : Option (Word × Option (List Word)) := patterns.find? (·.1 <:+: modeArg)

/-- The exit codes by their names, which stand with EXIT_ or without it. -/
def exitCodes : List (Word × ℕ) :=
  [("PASS".toList, exitPass), ("FAIL".toList, exitFail), ("XPASS".toList, exitXpass), ("XFAIL".toList, exitXfail),
   ("UNRESOLVED".toList, exitUnresolved), ("UNTESTED".toList, exitUntested),
   ("UNSUPPORTED".toList, exitUnsupported), ("KILLED".toList, exitKilled)]

def extvalOf (exitCode : Word) : Option ℕ :=
  (exitCodes.find? fun code => exitCode = "EXIT_".toList ++ code.1 ∨ exitCode = code.1).map Prod.snd

/-- skip either exits or executes the command. -/
inductive Outcome where
  | exits (extval : ℕ)
  | executes (command : List Word)
  deriving DecidableEq

def skip (env : Env) (modeArg exitCode : Word) (command : List Word) : Outcome :=
  if command = [] then .exits exitUntested
  else if env.pipMode = [] then .exits exitUntested
  else
    match matching modeArg with
    | none => .exits exitUntested
    | some (_, modes) =>
      let skipFlag := if modes.all (env.pipMode ∈ ·) then skipped else env.skipFlag
      match extvalOf exitCode with
      | none => .exits exitUntested
      | some extval =>
        if env.skipDebug = skipped then .exits extval
        else if skipFlag = skipped then .exits extval
        else .executes command

/-- The letters of a mode argument. -/
inductive Letter where
  | A | C | L | G | T | P
  deriving DecidableEq

/-- What the pip-mode command sets $PIP_MODE to. -/
inductive Mode where
  | preload | got | pipclone | pthread
  deriving DecidableEq

def Letter.char : Letter → Char
  | A => 'A'
  | C => 'C'
  | L => 'L'
  | G => 'G'
  | T => 'T'
  | P => 'P'

def Mode.text : Mode → Word
  | preload => processPreload
  | got => processGot
  | pipclone => processPipclone
  | pthread => Skip.pthread

/-- The modes that a letter stands for. -/
def Letter.denotes : Letter → Mode → Bool
  | A, _ => true
  | C, m => m = .pipclone
  | L, m => m = .preload
  | G, m => m = .got
  | T, m => m = .pthread
  | P, m => m = .pipclone ∨ m = .preload ∨ m = .got

/-- The letters in the order of their patterns. -/
def priority : List Letter := [.A, .C, .L, .G, .T, .P]

/-- The letter of the argument that comes first in this order. -/
def leading (letters : List Letter) : Option Letter := priority.find? (· ∈ letters)

section Matching
variable {letters : List Letter}

lemma char_injective : Function.Injective Letter.char := by
  intro l m h
  cases l <;> cases m <;> first | rfl | cases h

lemma infix_letters (l : Letter) : [l.char] <:+: letters.map Letter.char ↔ l ∈ letters := by
  rw [List.singleton_infix_iff, List.mem_map_of_injective char_injective]

/-- The modes of the pattern of a letter. -/
def Letter.modes : Letter → Option (List Word)
  | A => none
  | C => some [processPipclone]
  | L => some [processPreload]
  | G => some [processGot]
  | T => some [Skip.pthread]
  | P => some [processPipclone, processPreload, processGot]

lemma modes_all (l : Letter) (m : Mode) : l.modes.all (m.text ∈ ·) = l.denotes m := by
  cases l <;> cases m <;> decide

/-- A mode argument of letters matches the pattern of its leading letter. -/
lemma matching_letters {l : Letter} (h : leading letters = some l) :
    matching (letters.map Letter.char) = some ([l.char], l.modes) := by
  have hsplit : patterns = priority.map (fun l => ([l.char], l.modes)) ++ patterns.drop 6 := rfl
  have hfind : (priority.map fun l => ([l.char], l.modes)).find? (·.1 <:+: letters.map Letter.char) =
      some ([l.char], l.modes) := by
    rw [List.find?_map]
    have hmem : ((fun p : Word × Option (List Word) => decide (p.1 <:+: letters.map Letter.char)) ∘
        fun l => ([l.char], l.modes)) = fun l => decide (l ∈ letters) := by
      funext l
      exact decide_eq_decide.mpr (infix_letters l)
    rw [hmem, show priority.find? (fun l => decide (l ∈ letters)) = some l from h]
    rfl
  rw [matching, hsplit, List.find?_append, hfind, Option.some_or]

lemma exists_leading (l : Letter) (letters : List Letter) : ∃ first, leading (l :: letters) = some first := by
  refine Option.isSome_iff_exists.mp (List.find?_isSome.mpr ⟨l, ?_, by simp⟩)
  cases l <;> decide

/-- The text of an exit code name with EXIT_ or without it. -/
def exitName (long : Bool) (status : Status) : Word := if long then "EXIT_".toList ++ status.name else status.name

def codeOf : Status → ℕ
  | .pass => exitPass
  | .fail => exitFail
  | .xpass => exitXpass
  | .xfail => exitXfail
  | .unresolved => exitUnresolved
  | .untested => exitUntested
  | .unsupported => exitUnsupported
  | .killed => exitKilled

lemma extvalOf_exitName (long : Bool) (status : Status) :
    extvalOf (exitName long status) = some (codeOf status) := by
  cases long <;> cases status <;> decide

end Matching

/-- $skip_debug or $skip_flag asks for the exit whatever the mode is. -/
def Env.overrides (env : Env) : Prop := env.skipDebug = skipped ∨ env.skipFlag = skipped

instance (env : Env) : Decidable env.overrides := inferInstanceAs (Decidable (_ ∨ _))

/-- What skip does with a mode argument of letters. -/
lemma skip_letters {env : Env} {mode : Mode} (hmode : env.pipMode = mode.text) {letters : List Letter} {l : Letter}
    (hl : leading letters = some l) (long : Bool) (status : Status) (cmd : Word) (args : List Word) :
    skip env (letters.map Letter.char) (exitName long status) (cmd :: args) =
      if env.overrides ∨ l.denotes mode = true then .exits (codeOf status) else .executes (cmd :: args) := by
  have htext : mode.text ≠ [] := by cases mode <;> decide
  rw [skip, if_neg (List.cons_ne_nil cmd args), hmode, if_neg htext, matching_letters hl]
  simp only [extvalOf_exitName, modes_all]
  by_cases hdebug : env.skipDebug = skipped
  · rw [if_pos hdebug, if_pos (.inl (.inl hdebug))]
  · by_cases hdenotes : l.denotes mode = true
    · rw [if_neg hdebug, if_pos hdenotes, if_pos rfl, if_pos (.inr hdenotes)]
    · rw [if_neg hdebug, if_neg hdenotes]
      refine if_congr ⟨fun hflag => .inl (.inr hflag), ?_⟩ rfl rfl
      rintro ((h | h) | h)
      · exact absurd h hdebug
      · exact h
      · exact absurd h hdenotes

/-- skip exits in the modes of all letters, and executes the command in the others. -/
def Honours (env : Env) (letters : List Letter) (mode : Mode) (exitCode : Word) (extval : ℕ)
    (command : List Word) : Prop :=
  skip env (letters.map Letter.char) exitCode command =
    if ∃ l ∈ letters, l.denotes mode = true then .exits extval else .executes command

/-- Exactly if the environment asks for the exit and some letter does, or it does not, and the leading letter
does or no letter does. -/
theorem honours_iff (skipDebug skipFlag : Word) (l : Letter) (letters : List Letter) (mode : Mode) (long : Bool)
    (status : Status) (cmd : Word) (args : List Word) :
    Honours ⟨mode.text, skipDebug, skipFlag⟩ (l :: letters) mode (exitName long status) (codeOf status)
        (cmd :: args) ↔
      if Env.overrides ⟨mode.text, skipDebug, skipFlag⟩ then ∃ m ∈ l :: letters, m.denotes mode = true
      else (∃ m, leading (l :: letters) = some m ∧ m.denotes mode = true) ∨
        ∀ m ∈ l :: letters, m.denotes mode = false := by
  obtain ⟨first, hfirst⟩ := exists_leading l letters
  have hmem : first ∈ l :: letters := by simpa using List.find?_some hfirst
  have hsome : first.denotes mode = true → ∃ m ∈ l :: letters, m.denotes mode = true := fun h => ⟨first, hmem, h⟩
  have hnone : (∀ m ∈ l :: letters, m.denotes mode = false) ↔ ¬ ∃ m ∈ l :: letters, m.denotes mode = true := by
    simp only [not_exists, not_and, Bool.not_eq_true]
  have houtcome : ∀ p q : Prop, ∀ [Decidable p] [Decidable q],
      ((if p then Outcome.exits (codeOf status) else .executes (cmd :: args)) =
        if q then .exits (codeOf status) else .executes (cmd :: args)) ↔ (p ↔ q) := by
    intro p q _ _
    by_cases hp : p <;> by_cases hq : q <;> simp [hp, hq]
  rw [Honours, skip_letters rfl hfirst, houtcome, hnone]
  by_cases hoverrides : Env.overrides ⟨mode.text, skipDebug, skipFlag⟩
  · rw [if_pos hoverrides]
    exact ⟨fun h => h.mp (.inl hoverrides), fun h => iff_of_true (.inl hoverrides) h⟩
  · rw [if_neg hoverrides, or_iff_right hoverrides, hfirst]
    constructor
    · intro h
      by_cases hdenotes : first.denotes mode = true
      · exact .inl ⟨first, rfl, hdenotes⟩
      · exact .inr fun hany => hdenotes (h.mpr hany)
    · rintro (⟨m, hm, hdenotes⟩ | hno)
      · rw [← Option.some.inj hm] at hdenotes
        exact iff_of_true hdenotes (hsome hdenotes)
      · exact iff_of_false (fun hdenotes => hno (hsome hdenotes)) hno

/-- skip LG UNSUPPORTED in mode process:got: only the pattern of L counts, and the command is executed. -/
theorem got_not_honoured :
    ¬ Honours ⟨processGot, [], []⟩ [.L, .G] .got (exitName false .unsupported) exitUnsupported ["a.out".toList] := by
  have hexecutes : skip ⟨processGot, [], []⟩ ([Letter.L, Letter.G].map Letter.char) (exitName false .unsupported)
      ["a.out".toList] = .executes ["a.out".toList] := by
    exact (skip_letters (l := .L) (show processGot = Mode.got.text from rfl) rfl false .unsupported _ _).trans
      (if_neg (by decide))
  have hexits : ∃ l ∈ [Letter.L, Letter.G], l.denotes .got = true := ⟨.G, by decide, rfl⟩
  rw [Honours, hexecutes, if_pos hexits]
  exact Outcome.noConfusion

end PipTestsuite.Skip
