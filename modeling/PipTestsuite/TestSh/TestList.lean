import PipTestsuite.Lib.EscapedLines
import PipTestsuite.TestSh.Counters
import PipTestsuite.TestSh.Expansion

/-! How the main loop reads a test list: the values of $line and $cmd, and the commands that it executes itself. -/
namespace PipTestsuite.TestSh
open RotatingLog Text Glob

/-- The values that read line gives to $line. It also takes the blanks off both ends, which belong to no word. -/
def readLines (text : Word) : List Word := logicalLines '\\' '\n' text

/-- Pathname expansion in each turn of the loop, of $line, and at each execution, of ${cmd}. -/
structure Expansions where
  line : ℕ → Globbing
  cmd : ℕ → Globbing

def Expansions.Sound (locale : Locale) (x : Expansions) : Prop :=
  (∀ i, (x.line i).Sound locale) ∧ ∀ k, (x.cmd k).Sound locale

/-- "$@" after set x $line and shift, from turn i on. -/
def turns (x : Expansions) : List Word → ℕ → List (List Word)
  | [], _ => []
  | line :: lines, i => (x.line i).unquoted line :: turns x lines (i+1)

/-- The loop over the modes for one value of $cmd, from execution k on, up to the first killed one. -/
def runModes (x : Expansions) (outcome : ℕ → Outcome) (cmd : Word) : List PipMode → ℕ → List (PipMode × List Word)
  | [], _ => []
  | m :: modes, k =>
    (m, (x.cmd k).unquoted cmd) ::
      if (outcome k).exitStatus = exitKilled then [] else runModes x outcome cmd modes (k+1)

/-- The turns of one test.sh, in which a list that it includes has executions of its own. -/
def runTurns (x : Expansions) (outcome : ℕ → Outcome) (modes : List PipMode) :
    List (List Word) → ℕ → List (PipMode × List Word)
  | [], _ => []
  | args :: rest, k =>
    if IsCommand args then
      runModes x outcome ([' '].intercalate args) modes k ++
        if KilledIn outcome k modes.length then [] else runTurns x outcome modes rest (k + modes.length)
    else runTurns x outcome modes rest k

/-- The commands that test.sh executes for the lines of a list, with their modes. -/
def executed (x : Expansions) (outcome : ℕ → Outcome) (modes : List PipMode) (text : Word) :
    List (PipMode × List Word) :=
  runTurns x outcome modes (turns x (readLines text) 0) 0

def IsCommandLine (l : Word) : Prop := IsCommand (words isBlank l)

instance : DecidablePred IsCommandLine := fun l => inferInstanceAs (Decidable (IsCommand (words isBlank l)))

/-- The commands among some lines, as words. -/
def commandsIn (ls : List Word) : List (List Word) := (ls.map (words isBlank)).filter IsCommand

/-- What a reader of the list expects to be executed. -/
def commandLines (text : Word) : List (List Word) := commandsIn (lines '\n' text)

/-- All of these, up to the first one that is killed. -/
def untilKilled {α : Type*} (outcome : ℕ → Outcome) : List α → ℕ → List α
  | [], _ => []
  | a :: as, k => a :: if (outcome k).exitStatus = exitKilled then [] else untilKilled outcome as (k+1)

/-- In each mode just the command lines are executed, in their order and with their words. -/
def ExecutesLines (locale : Locale) (text : Word) : Prop :=
  ∀ x : Expansions, x.Sound locale → ∀ (outcome : ℕ → Outcome) (modes : List PipMode),
    executed x outcome modes text =
      untilKilled outcome ((commandLines text).flatMap fun cmd => modes.map fun m => (m, cmd)) 0

/-- read gets each command line for itself. -/
structure ReadsLines (text : Word) : Prop where
  /-- no command stands behind the last newline -/
  ended : ¬ IsCommandLine (text.rtakeWhile (· ≠ '\n'))
  /-- no command continues another line -/
  unjoined : (lines '\n' text).IsChain fun l l' => Continues '\\' l → ¬ IsCommandLine l'
  unescaped : ∀ l ∈ lines '\n' text, IsCommandLine l → '\\' ∉ l

/-- The first line of a text, if there is one, has no command. -/
def NoCommandFirst (text : Word) : Prop := ∀ l ∈ (lines '\n' text).head?, ¬ IsCommandLine l

instance : DecidablePred NoCommandFirst := fun text =>
  inferInstanceAs (Decidable (∀ l ∈ (lines '\n' text).head?, ¬ IsCommandLine l))

section Lines
variable {l u q : Word}

lemma commandsIn_cons (l : Word) (ls : List Word) :
    commandsIn (l :: ls) = (if IsCommandLine l then [words isBlank l] else []) ++ commandsIn ls := by
  rw [commandsIn, List.map_cons, List.filter_cons]
  by_cases h : IsCommand (words isBlank l) <;> simp [h, IsCommandLine, commandsIn]

lemma mem_commandsIn {ls : List Word} {cmd : List Word} :
    cmd ∈ commandsIn ls ↔ ∃ l ∈ ls, IsCommandLine l ∧ words isBlank l = cmd := by
  simp only [commandsIn, List.mem_filter, List.mem_map, decide_eq_true_iff]
  constructor
  · rintro ⟨⟨l, hl, rfl⟩, hcommand⟩
    exact ⟨l, hl, hcommand, rfl⟩
  · rintro ⟨l, hl, hcommand, rfl⟩
    exact ⟨⟨l, hl, rfl⟩, hcommand⟩

lemma not_isCommandLine_blank (hl : ∀ c ∈ l, isBlank c = true) : ¬ IsCommandLine l := by
  have hnil : words isBlank l = [] := by simpa using words_blank_append hl []
  simp [IsCommandLine, IsCommand, hnil]

/-- A comment. -/
lemma not_isCommandLine_hash (hl : ∀ c ∈ l, isBlank c = true) (t : Word) : ¬ IsCommandLine (l ++ '#' :: t) := by
  have hwords : words isBlank (['#'] ++ t) = _ := words_start (by simp [isBlank]) (by simp) t
  rw [IsCommandLine, words_blank_append hl, ← List.singleton_append, hwords]
  simp [IsCommand]

lemma isBlank_percentInclude : ∀ c ∈ percentInclude, isBlank c = false := by
  have hall : percentInclude.all (!isBlank ·) = true := by decide
  simpa using hall

/-- A line with %include for its first word. -/
lemma not_isCommandLine_include (hl : ∀ c ∈ l, isBlank c = true) {t : Word}
    (ht : ∀ c, t.head? = some c → isBlank c = true) : ¬ IsCommandLine (l ++ (percentInclude ++ t)) := by
  rw [IsCommandLine, words_blank_append hl, words_word_append isBlank_percentInclude (by decide) ht]
  simp [IsCommand]

/-- There are no other lines without a command. -/
lemma line_shape (h : ¬ IsCommandLine l) : (∀ c ∈ l, isBlank c = true) ∨
    (∃ b t, l = b ++ '#' :: t ∧ ∀ c ∈ b, isBlank c = true) ∨
      ∃ b t, l = b ++ (percentInclude ++ t) ∧ (∀ c ∈ b, isBlank c = true) ∧
        ∀ c, t.head? = some c → isBlank c = true := by
  have hblank : ∀ c ∈ l.takeWhile isBlank, isBlank c = true := List.all_eq_true.mp List.all_takeWhile
  have hsplit : l = l.takeWhile isBlank ++ l.dropWhile isBlank := (List.takeWhile_append_dropWhile ..).symm
  cases hm : l.dropWhile isBlank with
  | nil =>
    left
    rw [hsplit, hm, List.append_nil]
    exact hblank
  | cons c m =>
    rw [hm] at hsplit
    have hc : isBlank c = false := by
      have hhead := List.head?_dropWhile_not isBlank l
      rw [hm] at hhead
      simpa using hhead
    rw [hsplit, IsCommandLine, words_blank_append hblank, ← List.singleton_append,
      words_start (by simpa using hc) (by simp)] at h
    have hfirst : c :: m.takeWhile (!isBlank ·) = percentInclude ∨ c = '#' := by
      by_contra hnot
      rw [not_or] at hnot
      exact h ⟨by simp, by simpa using hnot.1, by simpa using hnot.2⟩
    right
    obtain hinclude | rfl := hfirst
    · right
      refine ⟨l.takeWhile isBlank, m.dropWhile (!isBlank ·), ?_, hblank, ?_⟩
      · rw [← hinclude, List.cons_append, List.takeWhile_append_dropWhile]
        exact hsplit
      · intro d hd
        have hhead := List.head?_dropWhile_not (!isBlank ·) m
        rw [hd] at hhead
        simpa using hhead
    · exact .inl ⟨_, m, hsplit, hblank⟩

lemma backslash_not_mem (hl : ∀ c ∈ l, isBlank c = true) : '\\' ∉ l := by
  intro hmem
  exact absurd (hl _ hmem) (by decide)

/-- A line that is no command does not become one without its escapes. -/
lemma not_isCommandLine_unescape (h : ¬ IsCommandLine l) (hq : Continues '\\' l ∨ q = []) :
    ¬ IsCommandLine (unescape '\\' l ++ q) := by
  obtain hblank | ⟨b, t, rfl, hb⟩ | ⟨b, t, rfl, hb, ht⟩ := line_shape h
  · have hl := backslash_not_mem hblank
    obtain rfl := hq.resolve_left (continues_of_not_mem hl)
    rwa [unescape_of_not_mem hl, List.append_nil]
  · rw [unescape_append (backslash_not_mem hb), unescape_cons (by decide), List.append_assoc, List.cons_append]
    exact not_isCommandLine_hash hb _
  · rw [unescape_append (backslash_not_mem hb), unescape_append (by decide), List.append_assoc, List.append_assoc]
    cases t with
    | nil =>
      have hl : '\\' ∉ b ++ (percentInclude ++ []) := by
        intro hmem
        obtain hmem | hmem := List.mem_append.mp hmem
        · exact backslash_not_mem hb hmem
        · exact absurd hmem (by decide)
      obtain rfl := hq.resolve_left (continues_of_not_mem hl)
      exact not_isCommandLine_include hb (by simp [unescape])
    | cons c t =>
      have hc : isBlank c = true := ht c rfl
      have hne : c ≠ '\\' := by
        rintro rfl
        exact absurd hc (by decide)
      rw [unescape_cons hne]
      exact not_isCommandLine_include hb (by simp [hc])

/-- A text that adds to the words of a line, or has no backslashes for it. -/
def Inert (q : Word) : Prop := (∀ c ∈ q, isBlank c = true) ∨ ∃ c ∈ q, isBlank c = false ∧ c ≠ '\\'

/-- With its escapes gone a line has other words, whatever is joined to it. -/
lemma words_unescape_ne (hl : '\\' ∈ l) (hq : Inert q) : words isBlank (unescape '\\' l ++ q) ≠ words isBlank l := by
  intro h
  have hflat := congrArg List.flatten h
  simp only [flatten_words, List.filter_append] at hflat
  obtain hblank | ⟨c, hc, hword, hne⟩ := hq
  · have hnil : q.filter (!isBlank ·) = [] := by simpa using hblank
    rw [hnil, List.append_nil] at hflat
    have hcount := congrArg (List.count '\\') hflat
    have hlt := count_unescape_lt hl
    rw [List.count_filter (by decide), List.count_filter (by decide)] at hcount
    omega
  · have hordinary := congrArg (List.filter (· ≠ '\\')) hflat
    simp only [List.filter_append, List.filter_filter] at hordinary
    rw [filter_unescape (by simp), List.append_right_eq_self, List.filter_eq_nil_iff] at hordinary
    exact hordinary c hc (by simp [hword, hne])

lemma readLines_line (hl : '\n' ∉ l) (u : Word) : readLines (l ++ '\n' :: u) =
    if Continues '\\' l then (readLines u).modifyHead (unescape '\\' l ++ ·) else unescape '\\' l :: readLines u :=
  logicalLines_line (by decide) hl u

/-- What read gets behind its first line. -/
lemma readLines_tail (hl : '\n' ∉ l) (u : Word) :
    (readLines (l ++ '\n' :: u)).tail = if Continues '\\' l then (readLines u).tail else readLines u := by
  rw [readLines_line hl]
  split_ifs
  · cases readLines u <;> rfl
  · rfl

/-- The first line that read gets, unless it gets none. -/
lemma readLines_head (hl : '\n' ∉ l) (u : Word) :
    Continues '\\' l ∧ readLines (l ++ '\n' :: u) = [] ∨
      ∃ q rest, (Continues '\\' l ∧ q ∈ (readLines u).head? ∨ ¬ Continues '\\' l ∧ q = []) ∧
        readLines (l ++ '\n' :: u) = (unescape '\\' l ++ q) :: rest := by
  rw [readLines_line hl]
  split_ifs with hjoined
  · cases readLines u with
    | nil => exact .inl ⟨hjoined, rfl⟩
    | cons q rest => exact .inr ⟨q, rest, .inl ⟨hjoined, rfl⟩, rfl⟩
  · exact .inr ⟨[], readLines u, .inr ⟨hjoined, rfl⟩, by rw [List.append_nil]⟩

lemma readLines_unended (hl : '\n' ∉ l) : readLines l = [] := logicalLines_unended hl

/-- A text without whole lines, or a first line that is no command, is inert for the line before it. -/
lemma inert_of_readLines (hfirst : NoCommandFirst u) (hq : q ∈ (readLines u).head?) : Inert q := by
  obtain hu | ⟨l, t, rfl, hl⟩ := line_cases '\n' u
  · simp [readLines_unended hu] at hq
  have hcommand : ¬ IsCommandLine l := hfirst l (by rw [lines_line_append hl]; rfl)
  obtain ⟨-, hnil⟩ | ⟨q', rest, hq', hcons⟩ := readLines_head hl t
  · simp [hnil] at hq
  obtain rfl : unescape '\\' l ++ q' = q := by simpa [hcons] using hq
  have hmem : ∀ c ∈ l, isBlank c = false → c ≠ '\\' → Inert (unescape '\\' l ++ q') := fun c hc hword hne =>
    .inr ⟨c, List.mem_append_left q' ((mem_unescape hne).mpr hc), hword, hne⟩
  obtain hblank | ⟨b, t, rfl, -⟩ | ⟨b, t, rfl, -⟩ := line_shape hcommand
  · have hnot := backslash_not_mem hblank
    obtain rfl := (hq'.resolve_left fun h => continues_of_not_mem hnot h.1).2
    rw [unescape_of_not_mem hnot, List.append_nil]
    exact .inl hblank
  · exact hmem '#' (by simp) (by decide) (by decide)
  · have hpercent : '%' ∈ percentInclude := by decide
    exact hmem '%' (List.mem_append_right b (List.mem_append_left t hpercent)) (by decide) (by decide)

lemma commandLines_line (hl : '\n' ∉ l) (u : Word) :
    commandLines (l ++ '\n' :: u) = (if IsCommandLine l then [words isBlank l] else []) ++ commandLines u := by
  rw [commandLines, lines_line_append hl, commandsIn_cons, commandLines]

lemma commandLines_unended (hl : '\n' ∉ l) : commandLines l = if IsCommandLine l then [words isBlank l] else [] := by
  rw [commandLines, lines_of_not_mem hl]
  split_ifs with hnil hcommand
  · exact absurd hcommand (by rw [hnil]; decide)
  · rfl
  · rw [commandsIn_cons, if_pos ‹_›]
    rfl
  · rw [commandsIn_cons, if_neg ‹_›]
    rfl

lemma noCommandFirst_line (hl : '\n' ∉ l) (u : Word) : NoCommandFirst (l ++ '\n' :: u) ↔ ¬ IsCommandLine l := by
  simp [NoCommandFirst, lines_line_append hl]

lemma noCommandFirst_unended (hl : '\n' ∉ l) : NoCommandFirst l ↔ ¬ IsCommandLine l := by
  rw [NoCommandFirst, lines_of_not_mem hl]
  split_ifs with hnil
  · rw [hnil]
    decide
  · simp

lemma readsLines_unended (hl : '\n' ∉ l) : ReadsLines l ↔ ¬ IsCommandLine l := by
  have hpart : l.rtakeWhile (· ≠ '\n') = l := by
    rw [List.rtakeWhile_eq_self_iff]
    intro c hc
    have hne : c ≠ '\n' := fun heq => hl (heq ▸ hc)
    simpa using hne
  constructor
  · intro h
    rw [← hpart]
    exact h.ended
  · intro h
    have hlines : ∀ l' ∈ lines '\n' l, ¬ IsCommandLine l' := by
      rw [lines_of_not_mem hl]
      split_ifs <;> simp [h]
    refine ⟨by rwa [hpart], ?_, fun l' hl' hcommand => absurd hcommand (hlines l' hl')⟩
    rw [lines_of_not_mem hl]
    split_ifs <;> simp

lemma readsLines_line (hl : '\n' ∉ l) (u : Word) : ReadsLines (l ++ '\n' :: u) ↔
    (Continues '\\' l → NoCommandFirst u) ∧ (IsCommandLine l → '\\' ∉ l) ∧ ReadsLines u := by
  have hpart : (l ++ '\n' :: u).rtakeWhile (· ≠ '\n') = u.rtakeWhile (· ≠ '\n') :=
    rtakeWhile_append_cons (by decide) l u
  constructor
  · rintro ⟨hended, hunjoined, hunescaped⟩
    rw [lines_line_append hl] at hunjoined hunescaped
    rw [List.isChain_cons] at hunjoined
    rw [List.forall_mem_cons] at hunescaped
    exact ⟨fun hjoined l' hl' => hunjoined.1 l' hl' hjoined, hunescaped.1, hpart ▸ hended, hunjoined.2, hunescaped.2⟩
  · rintro ⟨hfirst, hcommand, hended, hunjoined, hunescaped⟩
    refine ⟨by rwa [hpart], ?_, ?_⟩
    · rw [lines_line_append hl, List.isChain_cons]
      exact ⟨fun l' hl' hjoined => hfirst hjoined l' hl', hunjoined⟩
    · rw [lines_line_append hl, List.forall_mem_cons]
      exact ⟨hcommand, hunescaped⟩

lemma commandsIn_tail_length (hl : '\n' ∉ l) (hread : (commandsIn (readLines u)).length ≤ (commandLines u).length)
    (htail : (commandsIn (readLines u).tail).length ≤ (commandLines u).length) :
    (commandsIn (readLines (l ++ '\n' :: u)).tail).length ≤ (commandLines u).length := by
  rw [readLines_tail hl]
  split_ifs
  · exact htail
  · exact hread

/-- Reading finds no more commands than there are command lines. -/
lemma commandsIn_readLines_length (u : Word) : (commandsIn (readLines u)).length ≤ (commandLines u).length ∧
    (commandsIn (readLines u).tail).length ≤ (commandLines u).length := by
  induction u using line_induction '\n' with
  | rest l hl => simp [readLines_unended hl, commandsIn]
  | line l u hl ih =>
    have htail := commandsIn_tail_length hl ih.1 ih.2
    rw [commandLines_line hl, List.length_append]
    refine ⟨?_, by omega⟩
    obtain ⟨-, hnil⟩ | ⟨q, rest, hq, hcons⟩ := readLines_head hl u
    · rw [hnil]
      exact Nat.zero_le _
    · rw [hcons, List.tail_cons] at htail
      rw [hcons, commandsIn_cons, List.length_append]
      by_cases hcommand : IsCommandLine l
      · rw [if_pos hcommand]
        split_ifs <;> simp <;> omega
      · rw [if_neg hcommand, if_neg (not_isCommandLine_unescape hcommand (hq.imp And.left And.right))]
        simpa using htail

/-- Reading finds just the command lines, or just those behind the first line. -/
lemma commandsIn_readLines_iff (u : Word) : (commandsIn (readLines u) = commandLines u ↔ ReadsLines u) ∧
    (commandsIn (readLines u).tail = commandLines u ↔ ReadsLines u ∧ NoCommandFirst u) := by
  induction u using line_induction '\n' with
  | rest l hl =>
    have hempty : commandsIn [] = commandLines l ↔ ¬ IsCommandLine l := by
      rw [commandLines_unended hl]
      by_cases hcommand : IsCommandLine l <;> simp [hcommand, commandsIn]
    rw [readLines_unended hl, readsLines_unended hl, noCommandFirst_unended hl]
    exact ⟨hempty, by simpa using hempty⟩
  | line l u hl ih =>
    obtain ⟨hread, htail⟩ := ih
    have hle := commandsIn_tail_length hl (commandsIn_readLines_length u).1 (commandsIn_readLines_length u).2
    have hrest : commandsIn (readLines (l ++ '\n' :: u)).tail = commandLines u ↔
        ReadsLines u ∧ (Continues '\\' l → NoCommandFirst u) := by
      rw [readLines_tail hl]
      split_ifs with hjoined
      · simpa [hjoined] using htail
      · simpa [hjoined] using hread
    rw [readsLines_line hl, noCommandFirst_line hl, commandLines_line hl]
    have hcases := readLines_head hl u
    by_cases hcommand : IsCommandLine l
    · -- the command of this line has to come first, since there are not enough behind it
      rw [if_pos hcommand, List.singleton_append]
      have hne : commandsIn (readLines (l ++ '\n' :: u)).tail ≠ words isBlank l :: commandLines u := by
        intro h
        rw [h, List.length_cons] at hle
        omega
      refine ⟨?_, iff_of_false hne fun h => h.2 hcommand⟩
      obtain ⟨hjoined, hnil⟩ | ⟨q, rest, hq, hcons⟩ := hcases
      · rw [hnil]
        exact iff_of_false (by simp [commandsIn]) fun h => h.2.1 hcommand (mem_of_continues hjoined)
      · rw [hcons, List.tail_cons] at hrest hne
        rw [hcons, commandsIn_cons]
        by_cases hescaped : '\\' ∈ l
        · refine iff_of_false (fun h => ?_) fun h => h.2.1 hcommand hescaped
          split_ifs at h with hkept
          · obtain ⟨hwords, hbehind⟩ := List.cons.inj h
            have hinert : Inert q := by
              obtain ⟨hjoined, hhead⟩ | ⟨-, rfl⟩ := hq
              · exact inert_of_readLines ((hrest.mp hbehind).2 hjoined) hhead
              · exact .inl (by simp)
            exact words_unescape_ne hescaped hinert hwords
          · exact hne h
        · have hnot := continues_of_not_mem hescaped
          obtain rfl := (hq.resolve_left fun h => hnot h.1).2
          rw [unescape_of_not_mem hescaped, List.append_nil, if_pos hcommand, List.singleton_append, List.cons.injEq,
            hrest]
          simp [hescaped, hnot]
    · rw [if_neg hcommand, List.nil_append]
      have hsame : commandsIn (readLines (l ++ '\n' :: u)) = commandsIn (readLines (l ++ '\n' :: u)).tail := by
        obtain ⟨-, hnil⟩ | ⟨q, rest, hq, hcons⟩ := hcases
        · rw [hnil, List.tail_nil]
        · rw [hcons, commandsIn_cons, List.tail_cons,
            if_neg (not_isCommandLine_unescape hcommand (hq.imp And.left And.right)), List.nil_append]
      rw [hsame, hrest]
      simp only [hcommand, false_implies, true_and, not_false_eq_true, and_true]
      exact ⟨and_comm, and_comm⟩

end Lines

section Loop
variable {x : Expansions} {outcome : ℕ → Outcome}

lemma isOrdinary_percentInclude : ∀ c ∈ percentInclude, isOrdinary c = true := List.all_eq_true.mp (by decide)

/-- Pathname expansion makes no command of a line that is none. -/
lemma not_isCommand_unquoted {locale : Locale} {g : Globbing} (hg : g.Sound locale) {l : Word} (h : ¬ IsCommandLine l) :
    ¬ IsCommand (g.unquoted l) := by
  rw [IsCommandLine] at h
  rw [Globbing.unquoted]
  cases hwords : words isBlank l with
  | nil => simp [IsCommand]
  | cons first rest =>
    rw [hwords] at h
    have hfirst : first = percentInclude ∨ first.head? = some '#' := by
      by_contra hnot
      rw [not_or] at hnot
      exact h ⟨by simp, by simpa using hnot.1, by simpa using hnot.2⟩
    rw [List.flatMap_cons]
    obtain rfl | hhash := hfirst
    · rw [g.plain percentInclude fun c hc => of_decide_eq_true (isOrdinary_percentInclude c hc)]
      simp [IsCommand]
    · obtain ⟨u, rfl⟩ : ∃ u, first = '#' :: u := by
        cases first <;> simp_all
      cases hv : g.expand ('#' :: u) with
      | nil => exact absurd hv (g.expand_ne_nil _)
      | cons v vs =>
        have hhead := hg.first '#' u (by decide) v (by rw [hv]; exact List.mem_cons_self)
        simp [IsCommand, hhead]

/-- The commands among the turns are those among the lines, where no expansion changes them. -/
lemma filter_turns {ls : List Word} (hline : ∀ l ∈ ls, ¬ IsCommandLine l → ∀ i, ¬ IsCommand ((x.line i).unquoted l))
    (hcommand : ∀ l ∈ ls, IsCommandLine l → ∀ i, (x.line i).unquoted l = words isBlank l) (i : ℕ) :
    (turns x ls i).filter IsCommand = commandsIn ls := by
  induction ls generalizing i with
  | nil => rfl
  | cons l ls ih =>
    rw [List.forall_mem_cons] at hline hcommand
    rw [turns, List.filter_cons, commandsIn_cons, ih hline.2 hcommand.2]
    by_cases hl : IsCommandLine l
    · have hargs : IsCommand ((x.line i).unquoted l) := by rw [hcommand.1 hl i]; exact hl
      rw [if_pos (decide_eq_true hargs), if_pos hl, hcommand.1 hl i]
      rfl
    · rw [if_neg (by simpa using hline.1 hl i), if_neg hl]
      rfl

lemma runModes_append {cmd : Word} {args : List Word} (hcmd : ∀ k, (x.cmd k).unquoted cmd = args)
    (modes : List PipMode) (rest : List (PipMode × List Word)) (k : ℕ) :
    (runModes x outcome cmd modes k ++
        if KilledIn outcome k modes.length then [] else untilKilled outcome rest (k + modes.length)) =
      untilKilled outcome (modes.map (fun m => (m, args)) ++ rest) k := by
  induction modes generalizing k with
  | nil => simp [runModes, KilledIn]
  | cons m modes ih =>
    have hk : k + (modes.length + 1) = k + 1 + modes.length := by omega
    simp only [runModes, List.map_cons, List.cons_append, untilKilled, hcmd k, List.length_cons, killedIn_succ, hk]
    by_cases hkill : (outcome k).exitStatus = exitKilled
    · simp [hkill]
    · simp [hkill, ih]

/-- Turns execute what ${cmd} gives for their words, up to the first killed one. -/
lemma runTurns_eq (modes : List PipMode) (given : List Word → List Word) {ts : List (List Word)}
    (hcmd : ∀ args ∈ ts, IsCommand args → ∀ k, (x.cmd k).unquoted ([' '].intercalate args) = given args) (k : ℕ) :
    runTurns x outcome modes ts k =
      untilKilled outcome (((ts.filter IsCommand).map given).flatMap fun cmd => modes.map fun m => (m, cmd)) k := by
  induction ts generalizing k with
  | nil => rfl
  | cons args ts ih =>
    rw [List.forall_mem_cons] at hcmd
    rw [runTurns, List.filter_cons]
    by_cases hcommand : IsCommand args
    · rw [if_pos hcommand, if_pos (decide_eq_true hcommand), List.map_cons, List.flatMap_cons,
        ← runModes_append (hcmd.1 hcommand), ih hcmd.2]
    · rw [if_neg hcommand, if_neg (by simpa using hcommand), ih hcmd.2]

lemma untilKilled_eq_self {α : Type*} (hkill : ∀ k, (outcome k).exitStatus ≠ exitKilled) (as : List α) (k : ℕ) :
    untilKilled outcome as k = as := by
  induction as generalizing k with
  | nil => rfl
  | cons a as ih => rw [untilKilled, if_neg (hkill k), ih]

/-- Among the commands in all modes each mode has all of them. -/
lemma filter_mode {modes : List PipMode} (hmodes : modes.Nodup) {m : PipMode} (hm : m ∈ modes)
    (cmds : List (List Word)) : ((cmds.flatMap fun cmd => modes.map fun m => (m, cmd)).filter (·.1 = m)).map Prod.snd = cmds := by
  induction cmds with
  | nil => rfl
  | cons cmd cmds ih =>
    have hone : (modes.map fun m => (m, cmd)).filter (·.1 = m) = [(m, cmd)] := by
      rw [List.filter_map]
      have hfilter : modes.filter (fun m' => decide (m' = m)) = [m] := by
        rw [List.filter_eq, List.count_eq_one_of_mem hmodes hm]
        rfl
      exact congrArg (List.map fun m => (m, cmd)) hfilter
    rw [List.flatMap_cons, List.filter_append, List.map_append, ih, hone]
    rfl

/-- Where nothing is killed, each mode has all the command lines. -/
theorem ExecutesLines.in_mode {locale : Locale} {text : Word} (h : ExecutesLines locale text) (hx : x.Sound locale)
    (hkill : ∀ k, (outcome k).exitStatus ≠ exitKilled) {modes : List PipMode} (hmodes : modes.Nodup) {m : PipMode}
    (hm : m ∈ modes) : ((executed x outcome modes text).filter (·.1 = m)).map Prod.snd = commandLines text := by
  rw [h x hx, untilKilled_eq_self hkill, filter_mode hmodes hm]

lemma mem_turns {ls : List Word} {i : ℕ} {args : List Word} (h : args ∈ turns x ls i) :
    ∃ l ∈ ls, ∃ j, args = (x.line j).unquoted l := by
  induction ls generalizing i with
  | nil => simp [turns] at h
  | cons l ls ih =>
    obtain rfl | h := List.mem_cons.mp h
    · exact ⟨l, List.mem_cons_self, i, rfl⟩
    · obtain ⟨l', hl', hj⟩ := ih h
      exact ⟨l', List.mem_cons_of_mem l hl', hj⟩

end Loop

section Walk
variable {Dir : Type*}

/-- The command that an execution of a run stands for. -/
def Exec.command (x : Expansions) (e : Exec Dir) : PipMode × List Word :=
  (e.mode, (x.cmd e.stamp).unquoted ([' '].intercalate e.words))

lemma walkModes_commands (x : Expansions) (outcome : ℕ → Outcome) (dir : Dir) (incFn : Word) (words : List Word)
    (modes : List PipMode) (k : ℕ) : (walkModes outcome dir incFn words modes k).map (Exec.command x) =
      runModes x outcome ([' '].intercalate words) modes k := by
  induction modes generalizing k with
  | nil => rfl
  | cons m modes ih =>
    rw [walkModes, runModes]
    split_ifs
    · rfl
    · rw [List.map_cons, ih]
      rfl

/-- The turns of a list that includes no other one are its part of a run. -/
theorem walk_commands (x : Expansions) (outcome : ℕ → Outcome) (modes : List PipMode) (ts : List (List Word))
    (dir : Dir) (incFn : Word) (k : ℕ) : (execs (walk outcome modes (ListFile.ofLines ts) dir incFn k)).map (Exec.command x) =
      runTurns x outcome modes ts k := by
  induction ts generalizing k with
  | nil => rfl
  | cons args ts ih =>
    rw [ListFile.ofLines, walk, runTurns]
    by_cases hcommand : IsCommand args
    · rw [if_pos hcommand, if_pos hcommand, execs_append, execs_map_exec, List.map_append, walkModes_commands]
      split_ifs
      · rfl
      · rw [ih]
    · rw [if_neg hcommand, if_neg hcommand]
      split_ifs
      · rw [execs_start, ih]
      · exact ih k

/-- A run of test.sh over such a list executes what its text gives. -/
theorem testSh_commands [DecidableEq Dir] (x : Expansions) (env : Env) (args : List Word) (run : RunTest)
    (hmodes : selectedModes env args = some run) (text : Word) (cwd dir : Dir) (errorLog : Option (List ErrorEntry))
    (old : Dir → Log Word) :
    ∃ w r, testSh env cwd dir args (ListFile.ofLines (turns x (readLines text) 0)) (initial errorLog old) =
        (w, some r) ∧ w.files.executed.map (Exec.command x) = executed x env.outcome run.modeList text := by
  obtain ⟨f, -, hexecuted, hrun⟩ := testSh_initial env args run hmodes (ListFile.ofLines (turns x (readLines text) 0))
    cwd dir errorLog old
  refine ⟨_, _, hrun, ?_⟩
  have hfiles : ∀ f : Files Dir, ∀ p q, ((f.appendXml p).appendLog dir q).executed = f.executed := fun _ _ _ => rfl
  rw [hfiles, hexecuted, walk_commands]
  rfl

end Walk

/-- A list whose command lines are read as they are and have no patterns. -/
structure Plain (locale : Locale) (text : Word) : Prop where
  lines : ReadsLines text
  noPattern : ∀ cmd ∈ commandLines text, ∀ w ∈ cmd, ¬ IsPattern locale w

section Reading
variable {locale : Locale} {text : Word}

lemma wordBounds (l : Word) : ∀ w ∈ words isBlank l, w ≠ [] ∧ ∀ c ∈ w, isBlank c = false := fun _ hw =>
  ⟨ne_nil_of_mem_words hw, blank_of_mem_words hw⟩

/-- Where no file is there for $line, but some are for ${cmd}, these are what its words are replaced by. -/
lemma commands_of_executesLines (h : ExecutesLines locale text) {g : Globbing} (hg : g.Sound locale) :
    (commandsIn (readLines text)).map (List.flatMap g.expand) = commandLines text := by
  have hturns : (turns ⟨fun _ => noFiles, fun _ => g⟩ (readLines text) 0).filter IsCommand =
      commandsIn (readLines text) := by
    apply filter_turns
    · intro l _ hl _
      exact not_isCommand_unquoted (noFiles_sound locale) hl
    · intro l _ _ _
      exact unquoted_noFiles l
  have hcmd : ∀ args ∈ turns ⟨fun _ => noFiles, fun _ => g⟩ (readLines text) 0, IsCommand args →
      ∀ _ : ℕ, g.unquoted ([' '].intercalate args) = args.flatMap g.expand := by
    intro args hargs _ _
    obtain ⟨l, -, -, rfl⟩ := mem_turns hargs
    rw [Globbing.unquoted, unquoted_noFiles, words_intercalate rfl (wordBounds l)]
  have hpass : ∀ _ : ℕ, exitPass ≠ exitKilled := fun _ => by decide
  have hrun := h ⟨fun _ => noFiles, fun _ => g⟩ ⟨fun _ => noFiles_sound locale, fun _ => hg⟩
    (fun _ => { exitStatus := exitPass }) [.L]
  rw [executed, runTurns_eq [.L] (List.flatMap g.expand) hcmd, untilKilled_eq_self hpass, untilKilled_eq_self hpass,
    hturns] at hrun
  have hmode := congrArg (fun ps => (ps.filter (·.1 = PipMode.L)).map Prod.snd) hrun
  simpa only [filter_mode (List.nodup_singleton PipMode.L) (List.mem_singleton_self _)] using hmode

lemma readsLines_of_executesLines (h : ExecutesLines locale text) : ReadsLines text := by
  rw [← (commandsIn_readLines_iff text).1]
  have hread := commands_of_executesLines h (noFiles_sound locale)
  have hself : ∀ cmd ∈ commandsIn (readLines text), cmd.flatMap noFiles.expand = cmd := fun cmd _ =>
    List.flatMap_singleton' cmd
  rwa [List.map_congr_left hself, List.map_id'] at hread

/-- A pattern that no file may replace is none. -/
lemma noPattern_of_executesLines (h : ExecutesLines locale text) :
    ∀ cmd ∈ commandLines text, ∀ w ∈ cmd, ¬ IsPattern locale w := by
  have hread := (commandsIn_readLines_iff text).1.mpr (readsLines_of_executesLines h)
  rintro cmd hcmd w hw ⟨f, hne, hline, hmatch⟩
  have hback : '\\' ∉ w := by
    obtain ⟨l, hl, hcommand, rfl⟩ := mem_commandsIn.mp hcmd
    exact fun hmem => (readsLines_of_executesLines h).unescaped l hl hcommand (mem_of_mem_words hw hmem)
  have hfile := commands_of_executesLines h (singleFile_sound locale hline)
  rw [hread] at hfile
  have hsame : ∀ cmd ∈ commandLines text, cmd.flatMap (singleFile locale f hline).expand = cmd :=
    List.map_inj_left.mp (hfile.trans (List.map_id _).symm)
  -- with the file that matches it the word is another one
  have hother := hsame cmd hcmd
  have hexpand : (singleFile locale f hline).expand = fun w => [if '\\' ∉ w ∧ Matches locale w f then f else w] := by
    funext w
    simp only [singleFile]
    split_ifs <;> rfl
  rw [hexpand, ← List.map_eq_flatMap] at hother
  have hword := List.map_inj_left.mp (hother.trans (List.map_id cmd).symm) w hw
  rw [if_pos ⟨hback, hmatch⟩] at hword
  exact hne hword

/-- Each command line of a plain list stays as it is. -/
lemma executesLines_of_plain (h : Plain locale text) : ExecutesLines locale text := by
  intro x hx outcome modes
  have hread := (commandsIn_readLines_iff text).1.mpr h.lines
  have hordinary : ∀ cmd ∈ commandLines text, ∀ w ∈ cmd, ¬ IsPattern locale w ∧ '\\' ∉ w := by
    intro cmd hcmd w hw
    obtain ⟨l, hl, hcommand, rfl⟩ := mem_commandsIn.mp hcmd
    exact ⟨h.noPattern _ hcmd w hw, fun hmem => h.lines.unescaped l hl hcommand (mem_of_mem_words hw hmem)⟩
  have hturns : (turns x (readLines text) 0).filter IsCommand = commandLines text := by
    rw [← hread]
    apply filter_turns
    · intro l _ hl i
      exact not_isCommand_unquoted (hx.1 i) hl
    · intro l hl hcommand i
      have hmem : words isBlank l ∈ commandLines text := by
        rw [← hread]
        exact mem_commandsIn.mpr ⟨l, hl, hcommand, rfl⟩
      exact unquoted_ordinary (hx.1 i) (hordinary _ hmem)
  have hcmd : ∀ args ∈ turns x (readLines text) 0, IsCommand args →
      ∀ k, (x.cmd k).unquoted ([' '].intercalate args) = args := by
    intro args hargs hcommand k
    have hmem : args ∈ commandLines text := by
      rw [← hturns]
      exact List.mem_filter.mpr ⟨hargs, decide_eq_true hcommand⟩
    have hwords : words isBlank ([' '].intercalate args) = args := by
      obtain ⟨l, -, -, rfl⟩ := mem_commandsIn.mp hmem
      exact words_intercalate rfl (wordBounds l)
    rw [unquoted_ordinary (hx.2 k) (by rw [hwords]; exact hordinary args hmem), hwords]
  rw [executed, runTurns_eq modes id hcmd, hturns, List.map_id]

end Reading

/-- Exactly when the command lines are read as they are and have no patterns. -/
theorem executes_lines_iff (locale : Locale) (text : Word) : ExecutesLines locale text ↔ Plain locale text := by
  constructor
  · intro h
    exact ⟨readsLines_of_executesLines h, noPattern_of_executesLines h⟩
  · exact executesLines_of_plain

/-- A list of one line that lacks its newline. -/
theorem last_line_dropped : ¬ ∀ (locale : Locale) (text : Word), ExecutesLines locale text := by
  intro h
  have hended := (readsLines_of_executesLines (h (fun _ _ => false) "seek OK".toList)).ended
  revert hended
  decide

end PipTestsuite.TestSh
