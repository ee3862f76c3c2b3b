import PipTestsuite.Lib.ShellWord
import PipTestsuite.TestSh.Counters
import PipTestsuite.TestSh.Expansion

/-! The summary file: file_summary writes the saved variables as assignments, for another test.sh to source. -/
namespace PipTestsuite.TestSh
open Text Glob ShellWord

/-- The variables that file_summary writes, with their values in a summary. -/
def Summary.vars (s : Summary) : List (Word × Word) :=
  [("TEST_LOG_FILE".toList, s.testLogFile),
    ("TEST_LOG_XML".toList, s.testLogXml),
    ("TEST_OUT_STDOUT".toList, s.testOutStdout),
    ("TEST_OUT_STDERR".toList, s.testOutStderr),
    ("TEST_OUT_TIME".toList, s.testOutTime),
    ("n_PASS".toList, Nat.toDigits 10 s.n.nPass),
    ("n_FAIL".toList, Nat.toDigits 10 s.n.nFail),
    ("n_XPASS".toList, Nat.toDigits 10 s.n.nXpass),
    ("n_XFAIL".toList, Nat.toDigits 10 s.n.nXfail),
    ("n_UNRESOLVED".toList, Nat.toDigits 10 s.n.nUnresolved),
    ("n_UNTESTED".toList, Nat.toDigits 10 s.n.nUntested),
    ("n_UNSUPPORTED".toList, Nat.toDigits 10 s.n.nUnsupported),
    ("n_KILLED".toList, Nat.toDigits 10 s.n.nKilled),
    ("TOTAL_TIME".toList, Nat.toDigits 10 s.totalTime)]

/-- All names but the first two. -/
def laterNames : List Word :=
  ["TEST_OUT_STDOUT".toList, "TEST_OUT_STDERR".toList, "TEST_OUT_TIME".toList, "n_PASS".toList, "n_FAIL".toList,
    "n_XPASS".toList, "n_XFAIL".toList, "n_UNRESOLVED".toList, "n_UNTESTED".toList, "n_UNSUPPORTED".toList,
    "n_KILLED".toList, "TOTAL_TIME".toList]

def summaryNames : List Word := "TEST_LOG_FILE".toList :: "TEST_LOG_XML".toList :: laterNames

/-- The variables of a shell. -/
abbrev Vars := Word → Word

def Summary.Holds (s : Summary) (σ : Vars) : Prop := ∀ p ∈ s.vars, σ p.1 = p.2

/-- What echo NAME=$NAME prints, up to the end of the line. -/
def echoLine (g : Globbing) (σ : Vars) (name : Word) : Word := [' '].intercalate (g.unquoted (name ++ '=' :: σ name))

/-- The text that file_summary writes. -/
def summaryText (g : Globbing) (σ : Vars) : Word := (summaryNames.map (echoLine g σ)).flatMap (· ++ ['\n'])

/-- . $sum_file, where each line is an assignment and nothing more. -/
def sourceText (home : Word → Option Word) (text : Word) (σ : Vars) : Option Vars := assignAll home (lines '\n' text) σ

/-- From a shell with the variables σ to one with τ, which has τ' then. -/
structure Restores (g g' : Globbing) (home : Word → Option Word) (σ τ τ' : Vars) : Prop where
  sourced : sourceText home (summaryText g σ) τ = some τ'
  saved : ∀ name ∈ summaryNames, τ' name = σ name
  others : ∀ name ∉ summaryNames, τ' name = τ name
  again : summaryText g' τ' = summaryText g σ

/-- The values of a summary go from any shell to any other one, over any files and home directories. -/
def Summary.RoundTrips (locale : Locale) (s : Summary) : Prop :=
  ∀ g g' : Globbing, g.Sound locale → g'.Sound locale → ∀ (home : Word → Option Word) (σ τ : Vars), s.Holds σ →
    ∃ τ', Restores g g' home σ τ τ'

/-- A value that is the same without quotes, in the word that echo gets. -/
structure Unquotable (locale : Locale) (name v : Word) : Prop where
  literal : Literal v
  noPattern : ¬ IsPattern locale (name ++ '=' :: v)

lemma names_vars (s : Summary) : s.vars.map Prod.fst = summaryNames := rfl

lemma isName_of_mem {name : Word} (h : name ∈ summaryNames) : IsName name := by
  have hall : ∀ name ∈ summaryNames, IsName name := by decide
  exact hall name h

section Lines
variable {locale : Locale} {g : Globbing} {σ : Vars} {name : Word}

lemma isBlank_of_isName (h : IsName name) : ∀ c ∈ name, isBlank c = false := by
  intro c hc
  have hchar := h.isNameChar hc
  by_contra hblank
  obtain rfl | rfl | rfl := isBlank_iff.mp (by simpa using hblank) <;> revert hchar <;> decide

lemma isBlank_of_literal {v : Word} (h : Literal v) : ∀ c ∈ v, isBlank c = false := by
  intro c hc
  have hmeta := (ordinary_of_literal h c hc).1
  by_contra hblank
  obtain rfl | rfl | rfl := isBlank_iff.mp (by simpa using hblank) <;> revert hmeta <;> decide

lemma isBlank_of_assignment (hname : IsName name) {v : Word} (hv : ∀ c ∈ v, isBlank c = false) :
    ∀ c ∈ name ++ '=' :: v, isBlank c = false := by
  intro c hc
  obtain hc | hc := List.mem_append.mp hc
  · exact isBlank_of_isName hname c hc
  · obtain rfl | hc := List.mem_cons.mp hc
    · rfl
    · exact hv c hc

/-- A name brings no pattern. -/
lemma ordinary_of_isName (hname : IsName name) : ∀ c ∈ name ++ ['='], c ∉ ['*', '?', '['] := by
  intro c hc hspecial
  simp only [List.mem_cons, List.not_mem_nil, or_false] at hspecial
  obtain hc | hc := List.mem_append.mp hc
  · have hchar := hname.isNameChar hc
    obtain rfl | rfl | rfl := hspecial <;> revert hchar <;> decide
  · rw [List.mem_singleton.mp hc] at hspecial
    revert hspecial
    decide

/-- A value that needs no quotes is one word behind its name. -/
lemma unquoted_assignment (hname : IsName name) {v : Word} (hv : Literal v) (g : Globbing) :
    g.unquoted (name ++ '=' :: v) = g.expand (name ++ '=' :: v) := by
  rw [Globbing.unquoted, words_single (isBlank_of_assignment hname (isBlank_of_literal hv)) (by simp)]
  simp

lemma backslash_of_assignment (hname : IsName name) {v : Word} (hv : Literal v) : '\\' ∉ name ++ '=' :: v := by
  intro hmem
  obtain hmem | hmem := List.mem_append.mp hmem
  · exact absurd (hname.isNameChar hmem) (by decide)
  · obtain hmem | hmem := List.mem_cons.mp hmem
    · exact absurd hmem (by decide)
    · exact (ordinary_of_literal hv _ hmem).2 rfl

lemma echoLine_unquotable (hg : g.Sound locale) (hname : IsName name) (hv : Unquotable locale name (σ name)) :
    echoLine g σ name = name ++ '=' :: σ name := by
  have hline : '\n' ∉ name ++ '=' :: σ name := fun hc => by
    simpa [isBlank] using isBlank_of_assignment hname (isBlank_of_literal hv.literal) _ hc
  rw [echoLine, unquoted_assignment hname hv.literal,
    hg.expand_eq hline (backslash_of_assignment hname hv.literal) hv.noPattern, List.intercalate_singleton]

/-- A line has the name, and no more behind it than the value. -/
lemma echoLine_noFiles (hname : IsName name) (σ : Vars) :
    ∃ u, echoLine noFiles σ name = name ++ '=' :: u ∧ u.length ≤ (σ name).length := by
  have hblank : ∀ c ∈ name ++ ['='], isBlank c = false := isBlank_of_assignment hname (by simp)
  have hwords := words_start hblank (by simp) (σ name)
  have hlen := length_intercalate_words isBlank ' ' (name ++ ['='] ++ σ name)
  have hline : echoLine noFiles σ name = [' '].intercalate (words isBlank (name ++ ['='] ++ σ name)) := by
    rw [echoLine, Globbing.unquoted, List.append_assoc, List.singleton_append]
    simp [noFiles]
  rw [hwords] at hline hlen
  obtain ⟨u, hu⟩ : ∃ u, echoLine noFiles σ name = name ++ '=' :: u := by
    rw [hline]
    cases words isBlank ((σ name).dropWhile (!isBlank ·)) with
    | nil => exact ⟨(σ name).takeWhile (!isBlank ·), by simp⟩
    | cons w ws =>
      refine ⟨(σ name).takeWhile (!isBlank ·) ++ ' ' :: [' '].intercalate (w :: ws), ?_⟩
      rw [List.intercalate_cons_cons]
      simp
  refine ⟨u, hu, ?_⟩
  rw [← hline, hu] at hlen
  simp only [List.length_append, List.length_cons, List.length_nil] at hlen
  omega

lemma intercalate_oneLine {ws : List Word} (h : ∀ w ∈ ws, '\n' ∉ w) : '\n' ∉ [' '].intercalate ws := by
  induction ws with
  | nil => simp
  | cons w ws ih =>
    rw [List.forall_mem_cons] at h
    cases ws with
    | nil => simpa using h.1
    | cons w' ws =>
      rw [List.intercalate_cons_cons]
      simp [h.1, ih h.2]

lemma lines_summaryText (g : Globbing) (σ : Vars) : lines '\n' (summaryText g σ) = summaryNames.map (echoLine g σ) := by
  apply lines_flatMap
  intro l hl
  obtain ⟨name, -, rfl⟩ := List.mem_map.mp hl
  exact intercalate_oneLine (unquoted_oneLine g _)

end Lines

/-- The summary with the given counters and time that a run may have. -/
def Env.summary (env : Env) (n : Counters) (totalTime : ℕ) : Summary :=
  { resetSummary env with n := n, totalTime := totalTime }

section Values
variable {locale : Locale} {s : Summary}

lemma unquotable_of_plain {name v : Word} (hname : IsName name) (h : v.all fun c => isPlain c && isOrdinary c) :
    Unquotable locale name v := by
  rw [List.all_eq_true] at h
  simp only [Bool.and_eq_true] at h
  refine ⟨literal_of_plain fun c hc => (h c hc).1, not_isPattern_of_ordinary fun c hc => ?_⟩
  rw [List.append_cons, List.mem_append] at hc
  exact hc.elim (ordinary_of_isName hname c) fun hc => not_special (h c hc).2

lemma unquotable_toDigits {name : Word} (hname : IsName name) (n : ℕ) :
    Unquotable locale name (Nat.toDigits 10 n) := by
  apply unquotable_of_plain hname
  rw [List.all_eq_true]
  intro c hc
  have hdigit := Nat.isDigit_of_mem_toDigits (by decide) (by decide) hc
  have hne : ∀ d : Char, d.isDigit = false → c ≠ d := fun d hd hcd => by simp [hcd, hd] at hdigit
  simp (disch := decide) [isPlain, isMeta, isOrdinary, hne]

/-- All values but that of TEST_LOG_XML are fixed or numbers. -/
lemma vars_cases (env : Env) (n : Counters) (totalTime : ℕ) : ∀ p ∈ (env.summary n totalTime).vars,
    Unquotable locale p.1 p.2 ∨ p = ("TEST_LOG_XML".toList, (resetSummary env).testLogXml) := by
  intro p hp
  have hname : IsName p.1 := isName_of_mem (names_vars (env.summary n totalTime) ▸ List.mem_map_of_mem hp)
  simp only [Summary.vars, List.mem_cons, List.not_mem_nil, or_false] at hp
  obtain rfl | hp := hp
  · exact .inl (unquotable_of_plain hname (by decide : "test.log".toList.all _ = true))
  obtain rfl | hp := hp
  · exact .inr rfl
  obtain rfl | hp := hp
  · exact .inl (unquotable_of_plain hname (by decide : "test.out.stdout".toList.all _ = true))
  obtain rfl | hp := hp
  · exact .inl (unquotable_of_plain hname (by decide : "test.out.err".toList.all _ = true))
  obtain rfl | hp := hp
  · exact .inl (unquotable_of_plain hname (by decide : "test.out.time".toList.all _ = true))
  · left
    obtain rfl | rfl | rfl | rfl | rfl | rfl | rfl | rfl | rfl := hp
    all_goals exact unquotable_toDigits hname _

lemma Summary.Holds.unquotable {σ : Vars} {name : Word} (hσ : s.Holds σ)
    (h : ∀ p ∈ s.vars, p.1 = name → Unquotable locale p.1 p.2) (hname : name ∈ summaryNames) :
    Unquotable locale name (σ name) := by
  rw [← names_vars s] at hname
  obtain ⟨p, hp, rfl⟩ := List.mem_map.mp hname
  rw [hσ p hp]
  exact h p hp rfl

/-- Values that need no quotes go through the file. -/
lemma roundTrips_of_unquotable (h : ∀ p ∈ s.vars, Unquotable locale p.1 p.2) : s.RoundTrips locale := by
  intro g g' hg hg' home σ τ hσ
  have hvalue : ∀ name ∈ summaryNames, Unquotable locale name (σ name) := fun name hname =>
    hσ.unquotable (fun p hp _ => h p hp) hname
  have hlines : ∀ (g : Globbing) (τ : Vars), g.Sound locale → (∀ name ∈ summaryNames, τ name = σ name) →
      summaryNames.map (echoLine g τ) = summaryNames.map fun name => name ++ '=' :: σ name := by
    intro g τ hg hτ
    apply List.map_congr_left
    intro name hname
    rw [echoLine_unquotable hg (isName_of_mem hname) (hτ name hname ▸ hvalue name hname), hτ name hname]
  refine ⟨fun name => if name ∈ summaryNames then σ name else τ name, ?_, ?_, ?_, ?_⟩
  · rw [sourceText, lines_summaryText, hlines g σ hg fun _ _ => rfl]
    exact assignAll_literal (fun name hname => isName_of_mem hname) (fun name hname => (hvalue name hname).literal) τ
  · intro name hname
    rw [if_pos hname]
  · intro name hname
    rw [if_neg hname]
  · rw [summaryText, summaryText, hlines g σ hg fun _ _ => rfl,
      hlines g' _ hg' fun name hname => if_pos hname]

/-- A shell with the values of a summary. -/
def Summary.values (s : Summary) : Vars := fun name => (s.vars.lookup name).getD []

lemma holds_values (s : Summary) : s.Holds s.values := by
  have hlookup : ∀ ps : List (Word × Word), (ps.map Prod.fst).Nodup → ∀ p ∈ ps, ps.lookup p.1 = some p.2 := by
    intro ps hps p hp
    induction ps with
    | nil => simp at hp
    | cons q ps ih =>
      rw [List.map_cons, List.nodup_cons] at hps
      obtain rfl | hp := List.mem_cons.mp hp
      · exact List.lookup_cons_self
      · have hne : p.1 ≠ q.1 := fun h => hps.1 (h ▸ List.mem_map_of_mem hp)
        rw [List.lookup_cons, beq_false_of_ne hne]
        exact ih hps.2 hp
  intro p hp
  rw [Summary.values, hlookup s.vars (by rw [names_vars]; decide) p hp]
  rfl

/-- The first two lines of the file, in a shell without values, and what they leave in $TEST_LOG_XML. -/
lemma Restores.firstLines {g g' : Globbing} {home : Word → Option Word} {σ τ' : Vars} (hg : g.Sound locale)
    (h : Restores g g' home σ (fun _ => []) τ')
    (hlog : Unquotable locale "TEST_LOG_FILE".toList (σ "TEST_LOG_FILE".toList))
    (hlater : ∀ name ∈ laterNames, Unquotable locale name (σ name)) :
    ∃ σ₂, assign home (echoLine g σ "TEST_LOG_XML".toList)
        (Function.update (fun _ => []) "TEST_LOG_FILE".toList (σ "TEST_LOG_FILE".toList)) = some σ₂ ∧
      σ₂ "TEST_LOG_XML".toList = σ "TEST_LOG_XML".toList := by
  have hsourced := h.sourced
  have hlines : laterNames.map (echoLine g σ) = laterNames.map fun name => name ++ '=' :: σ name := by
    apply List.map_congr_left
    intro name hname
    exact echoLine_unquotable hg (isName_of_mem (by simp [summaryNames, hname])) (hlater name hname)
  rw [sourceText, lines_summaryText, summaryNames, List.map_cons, List.map_cons, hlines, assignAll,
    echoLine_unquotable hg (by decide) hlog, assign_literal (by decide) hlog.literal, Option.bind_some,
    assignAll] at hsourced
  obtain ⟨σ₂, hσ₂, hrest⟩ := Option.bind_eq_some_iff.mp hsourced
  rw [assignAll_literal (fun name hname => isName_of_mem (by simp [summaryNames, hname]))
    (fun name hname => (hlater name hname).literal)] at hrest
  refine ⟨σ₂, hσ₂, ?_⟩
  rw [← h.saved _ (by simp [summaryNames]), ← Option.some.inj hrest]
  rfl

lemma values_testLogXml (s : Summary) : s.values "TEST_LOG_XML".toList = s.testLogXml :=
  holds_values s ("TEST_LOG_XML".toList, s.testLogXml) (List.mem_cons_of_mem _ List.mem_cons_self)

/-- What goes through the file in any case is in its line as it stands, if there is no more in the line. -/
lemma literal_of_roundTrips (h : s.RoundTrips locale) (hlen : s.testLogFile.length ≤ "TEST_LOG_FILE".toList.length)
    (hvars : ∀ p ∈ s.vars, p.1 ≠ "TEST_LOG_XML".toList → Unquotable locale p.1 p.2) {g : Globbing}
    (hg : g.Sound locale) {u : Word}
    (hu : echoLine g s.values "TEST_LOG_XML".toList = "TEST_LOG_XML".toList ++ '=' :: u)
    (hulen : u.length ≤ s.testLogXml.length) : Literal u ∧ s.testLogXml = u := by
  have hσ := holds_values s
  have hother : ∀ name ∈ summaryNames, name ≠ "TEST_LOG_XML".toList → Unquotable locale name (s.values name) := by
    intro name hname hne
    exact hσ.unquotable (fun p hp hpname => hvars p hp (hpname ▸ hne)) hname
  have hlater : ∀ name ∈ laterNames, name ∈ summaryNames ∧ name ≠ "TEST_LOG_XML".toList := by decide
  have hfile : s.values "TEST_LOG_FILE".toList = s.testLogFile :=
    hσ ("TEST_LOG_FILE".toList, s.testLogFile) List.mem_cons_self
  -- all homes are empty, and so are all values but that of the first line
  obtain ⟨τ', hτ'⟩ := h g g hg hg (fun _ => some []) s.values (fun _ => []) hσ
  obtain ⟨σ₂, hassign, hvalue⟩ := hτ'.firstLines hg (hother _ (by decide) (by decide)) fun name hname =>
    hother name (hlater name hname).1 (hlater name hname).2
  rw [hu] at hassign
  rw [values_testLogXml] at hvalue
  rw [← hvalue] at hulen ⊢
  refine literal_of_assign (fun _ => rfl) (fun name => ?_) (by decide) hassign hulen
  obtain rfl | hne := eq_or_ne name "TEST_LOG_FILE".toList
  · rw [Function.update_self, hfile]
    exact hlen
  · rw [Function.update_of_ne hne]
    exact Nat.zero_le _

/-- A value that goes through the file in any case is read as it stands, and is no pattern. -/
lemma unquotable_of_roundTrips (h : s.RoundTrips locale)
    (hlen : s.testLogFile.length ≤ "TEST_LOG_FILE".toList.length)
    (hvars : ∀ p ∈ s.vars, p.1 ≠ "TEST_LOG_XML".toList → Unquotable locale p.1 p.2) :
    Unquotable locale "TEST_LOG_XML".toList s.testLogXml := by
  have hname : IsName "TEST_LOG_XML".toList := by decide
  have hliteral : Literal s.testLogXml := by
    obtain ⟨u, hu, hulen⟩ := echoLine_noFiles hname s.values
    rw [values_testLogXml] at hulen
    obtain ⟨hlit, hsame⟩ := literal_of_roundTrips h hlen hvars (noFiles_sound locale) hu hulen
    rwa [hsame]
  refine ⟨hliteral, fun hpattern => ?_⟩
  obtain ⟨f, hne, hf, hmatch, hflen⟩ := hpattern.exists_short
  -- the only file is one that matches, with another value and no longer one
  rw [List.append_cons] at hne hmatch hflen
  obtain ⟨u, rfl⟩ := matches_append (ordinary_of_isName hname) hmatch
  have hexpand : (singleFile locale ("TEST_LOG_XML".toList ++ ['='] ++ u) hf).expand
      ("TEST_LOG_XML".toList ++ ['='] ++ s.testLogXml) = ["TEST_LOG_XML".toList ++ ['='] ++ u] :=
    if_pos ⟨List.append_cons _ _ s.testLogXml ▸ backslash_of_assignment hname hliteral, hmatch⟩
  have hline : echoLine (singleFile locale ("TEST_LOG_XML".toList ++ ['='] ++ u) hf) s.values "TEST_LOG_XML".toList =
      "TEST_LOG_XML".toList ++ '=' :: u := by
    rw [echoLine, values_testLogXml, unquoted_assignment hname hliteral, List.append_cons _ _ s.testLogXml, hexpand,
      List.intercalate_singleton, ← List.append_cons]
  have hulen : u.length ≤ s.testLogXml.length := by
    simp only [List.length_append] at hflen
    omega
  obtain ⟨-, hsame⟩ := literal_of_roundTrips h hlen hvars (singleFile_sound locale hf) hline hulen
  exact hne (by rw [hsame])

end Values

lemma unquotable_testLogXml {locale : Locale} {env : Env} {n : Counters} {totalTime : ℕ}
    (h : (env.summary n totalTime).RoundTrips locale) :
    Unquotable locale "TEST_LOG_XML".toList (resetSummary env).testLogXml := by
  have hlen : "test.log".toList.length ≤ "TEST_LOG_FILE".toList.length := by decide
  have hvars : ∀ p ∈ (env.summary n totalTime).vars, p.1 ≠ "TEST_LOG_XML".toList → Unquotable locale p.1 p.2 := by
    intro p hp hne
    exact (vars_cases env n totalTime p hp).resolve_right fun hxml => hne (hxml ▸ rfl)
  have hxml := unquotable_of_roundTrips h hlen hvars
  exact hxml

/-- Exactly when the name of the XML log needs no quotes. -/
theorem summary_file_restores_iff (locale : Locale) (env : Env) (n : Counters) (totalTime : ℕ) :
    (env.summary n totalTime).RoundTrips locale ↔
      Unquotable locale "TEST_LOG_XML".toList (resetSummary env).testLogXml := by
  constructor
  · exact unquotable_testLogXml
  · intro h
    apply roundTrips_of_unquotable
    intro p hp
    obtain hvalue | rfl := vars_cases env n totalTime p hp
    · exact hvalue
    · exact h

/-- A path with a blank in it. -/
theorem blank_not_restored : ¬ ∀ (locale : Locale) (env : Env) (n : Counters) (totalTime : ℕ),
    (env.summary n totalTime).RoundTrips locale := by
  intro h
  have hxml := unquotable_testLogXml
    (h (fun _ _ => false) { plainEnv (fun _ => 0) with testLogXml := "/tmp/my logs/test.xml".toList } {} 0)
  have hordinary := (ordinary_of_literal hxml.literal ' ' (by decide)).1
  revert hordinary
  decide

section Processes
variable {Dir : Type*} {sh sh' : Shell Dir}

/-- What one process writes and another one sources are the variables of the first. -/
theorem sourceSummary_holds {locale : Locale} (h : sh.sum.RoundTrips locale) (w : World Dir) {g : Globbing}
    (hg : g.Sound locale)
    (home : Word → Option Word) {σ : Vars} (hσ : sh.sum.Holds σ) (τ : Vars) :
    ∃ τ', sourceText home (summaryText g σ) τ = some τ' ∧ (sourceSummary (fileSummary sh w) sh').sum.Holds τ' := by
  obtain ⟨τ', hτ'⟩ := h g g hg hg home σ τ hσ
  refine ⟨τ', hτ'.sourced, fun p hp => ?_⟩
  have hname : p.1 ∈ summaryNames := by
    rw [← names_vars sh.sum]
    exact List.mem_map_of_mem hp
  rw [hτ'.saved p.1 hname]
  exact hσ p hp

end Processes

end PipTestsuite.TestSh
