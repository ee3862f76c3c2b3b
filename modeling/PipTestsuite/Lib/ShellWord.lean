import Mathlib.Tactic

/-! Assignments as a POSIX shell reads them: on the right side each character stands for itself, or belongs to a quote,
to a parameter or to a name with a tilde, or the shell has more to do than to read it. -/
namespace ShellWord

inductive Tok where
  | lit (c : Char)
  | escaped (c : Char)
  | quote (c : Char)
  | param (name : List Char)
  | tilde (login : List Char)
  deriving DecidableEq

namespace Tok

/-- The text of a token. -/
def source : Tok → List Char
  | lit c | quote c => [c]
  | escaped c => ['\\', c]
  | param name => '$' :: name
  | tilde login => '~' :: login

/-- What a token stands for, with the values of the parameters and the home directories that there are. -/
def value (home : List Char → Option (List Char)) (σ : List Char → List Char) : Tok → List Char
  | lit c | escaped c => [c]
  | quote _ => []
  | param name => σ name
  | tilde login => (home login).getD ('~' :: login)

end Tok

/-- Outside of quotes, where a tilde may or may not start a name, and inside of them. -/
inductive Mode where
  | word (tilde : Bool)
  | single
  | double
  deriving DecidableEq

def isNameStart (c : Char) : Bool := c.isAlpha || c = '_'

def isNameChar (c : Char) : Bool := c.isAlphanum || c = '_'

/-- Blanks, operators and the start of a command substitution. -/
def isMeta (c : Char) : Bool := c ∈ [' ', '\t', '\n', ';', '&', '|', '<', '>', '(', ')', '`']

def isLoginChar (c : Char) : Bool := !isMeta c && c ∉ ['/', ':', '\\', '\'', '"', '$']

/-- The parameters with names of one character. -/
def isSpecial (c : Char) : Bool := c.isDigit || c ∈ ['*', '@', '#', '?', '-', '$', '!']

/-- Behind a dollar sign these start an expression or a quote of another kind. -/
def startsExpression : Mode → Char → Bool
  | .double, c => c ∈ ['{', '(', '[']
  | _, c => c ∈ ['{', '(', '[', '\'', '"']

/-- The token of a dollar sign, with the text behind it. -/
def dollar (m : Mode) : List Char → Option (Tok × List Char)
  | [] => some (.lit '$', [])
  | c :: cs =>
    if isNameStart c then some (.param (c :: cs.takeWhile isNameChar), cs.dropWhile isNameChar)
    else if isSpecial c then some (.param [c], cs)
    else if startsExpression m c then none
    else some (.lit '$', c :: cs)

/-- The first token of a text, with the mode and the text behind it; none where the shell would go on to the next
line, open a file, or run or compute something. -/
def next : Mode → Char → List Char → Option (Tok × Mode × List Char)
  | .single, c, cs => if c = '\'' then some (.quote c, .word false, cs) else some (.lit c, .single, cs)
  | .double, c, cs =>
    if c = '"' then some (.quote c, .word false, cs)
    else if c = '`' then none
    else if c = '\\' then
      match cs with
      | [] => none
      | d :: ds => if d ∈ ['$', '`', '"', '\\'] then some (.escaped d, .double, ds) else some (.lit c, .double, d :: ds)
    else if c = '$' then (dollar .double cs).map fun (t, cs) => (t, .double, cs)
    else some (.lit c, .double, cs)
  | .word tilde, c, cs =>
    if c = '\'' then some (.quote c, .single, cs)
    else if c = '"' then some (.quote c, .double, cs)
    else if isMeta c then none
    else if c = '\\' then
      match cs with
      | [] => none
      | d :: ds => some (.escaped d, .word false, ds)
    else if c = '$' then (dollar (.word false) cs).map fun (t, cs) => (t, .word false, cs)
    else if c = '~' ∧ tilde ∧ (cs.dropWhile isLoginChar).head?.all fun d => d = '/' ∨ d = ':' then
      some (.tilde (cs.takeWhile isLoginChar), .word false, cs.dropWhile isLoginChar)
    else some (.lit c, .word (c = ':'), cs)

lemma dollar_source {m : Mode} {cs rest : List Char} {t : Tok} (h : dollar m cs = some (t, rest)) :
    t.source ++ rest = '$' :: cs := by
  cases cs with
  | nil =>
    simp only [dollar, Option.some.injEq, Prod.mk.injEq] at h
    simp [← h.1, ← h.2, Tok.source]
  | cons c cs =>
    simp only [dollar] at h
    split_ifs at h <;> simp only [Option.some.injEq, Prod.mk.injEq] at h <;> simp [← h.1, ← h.2, Tok.source]

/-- A token is the start of its text. -/
lemma next_source {m m' : Mode} {c : Char} {cs rest : List Char} {t : Tok} (h : next m c cs = some (t, m', rest)) :
    t.source ++ rest = c :: cs := by
  have hdollar : ∀ m m'' : Mode, ((dollar m cs).map fun (t, cs) => (t, m'', cs)) = some (t, m', rest) →
      t.source ++ rest = '$' :: cs := by
    intro m m'' h
    obtain ⟨⟨t', rest'⟩, ht, heq⟩ := Option.map_eq_some_iff.mp h
    simp only [Prod.mk.injEq] at heq
    rw [← heq.1, ← heq.2.2]
    exact dollar_source ht
  have hread : ∀ {t' : Tok} {m'' : Mode} {u : List Char}, t'.source ++ u = c :: cs →
      some (t', m'', u) = some (t, m', rest) → t.source ++ rest = c :: cs := by
    intro t' m'' u hu h
    cases h
    exact hu
  cases m with
  | single =>
    simp only [next] at h
    split_ifs at h <;> exact hread rfl h
  | double =>
    simp only [next] at h
    split_ifs at h with h1 h2 h3 h4
    · exact hread rfl h
    · cases cs with
      | nil => cases h
      | cons d ds =>
        simp only at h
        split_ifs at h <;> exact hread (by simp [Tok.source, h3]) h
    · rw [h4]
      exact hdollar _ _ h
    · exact hread rfl h
  | word tilde =>
    simp only [next] at h
    split_ifs at h with h1 h2 h3 h4 h5 h6
    · exact hread rfl h
    · exact hread rfl h
    · cases cs with
      | nil => cases h
      | cons d ds => exact hread (by simp [Tok.source, h4]) h
    · rw [h5]
      exact hdollar _ _ h
    · exact hread (by simp [Tok.source, h6.1]) h
    · exact hread rfl h

lemma Tok.source_length_pos (t : Tok) : 0 < t.source.length := by cases t <;> simp [source]

lemma next_length {m m' : Mode} {c : Char} {cs rest : List Char} {t : Tok} (h : next m c cs = some (t, m', rest)) :
    rest.length < (c :: cs).length := by
  rw [← next_source h, List.length_append]
  have hpos := t.source_length_pos
  omega

/-- The tokens of a text. -/
def lex : Mode → List Char → Option (List Tok)
  | .word _, [] => some []
  | .single, [] => none
  | .double, [] => none
  | m, c :: cs =>
    match _h : next m c cs with
    | none => none
    | some (t, m', rest) => (lex m' rest).map (t :: ·)
termination_by _ cs => cs.length
decreasing_by exact next_length _h

lemma lex_cons (m : Mode) (c : Char) (cs : List Char) :
    lex m (c :: cs) = (next m c cs).bind fun (t, m', rest) => (lex m' rest).map (t :: ·) := by
  rw [lex]
  cases hn : next m c cs with
  | none => rfl
  | some p => rfl

lemma lex_next {m m' : Mode} {c : Char} {cs rest : List Char} {t : Tok} (h : next m c cs = some (t, m', rest)) :
    lex m (c :: cs) = (lex m' rest).map (t :: ·) := by
  rw [lex_cons, h]
  rfl

/-- The tokens are the whole text. -/
lemma lex_source {m : Mode} {w : List Char} {ts : List Tok} (h : lex m w = some ts) : ts.flatMap Tok.source = w := by
  induction hn : w.length using Nat.strong_induction_on generalizing m w ts with
  | _ n ih =>
    cases w with
    | nil => cases m <;> simp_all [lex]
    | cons c cs =>
      rw [lex_cons] at h
      obtain ⟨⟨t, m', rest⟩, ht, h⟩ := Option.bind_eq_some_iff.mp h
      obtain ⟨ts, hts, rfl⟩ := Option.map_eq_some_iff.mp h
      rw [List.flatMap_cons, ih rest.length (hn ▸ next_length ht) hts rfl]
      exact next_source ht

section Values
variable {home : List Char → Option (List Char)} {σ : List Char → List Char}

/-- Where all homes are empty and no parameter is longer than its name, a token with the length of its text is a
character. -/
lemma Tok.value_length (hhome : ∀ login, home login = some []) (hσ : ∀ name, (σ name).length ≤ name.length) (t : Tok) :
    (t.value home σ).length ≤ t.source.length ∧
      (t.source.length ≤ (t.value home σ).length → ∃ c, t = .lit c) := by
  cases t with
  | lit c => simp [value, source]
  | escaped c => simp [value, source]
  | quote c => simp [value, source]
  | param name =>
    have hname := hσ name
    simp only [value, source, List.length_cons, reduceCtorEq, exists_false]
    omega
  | tilde login => simp [value, source, hhome]

lemma values_length (hhome : ∀ login, home login = some []) (hσ : ∀ name, (σ name).length ≤ name.length)
    (ts : List Tok) : (ts.flatMap (Tok.value home σ)).length ≤ (ts.flatMap Tok.source).length := by
  induction ts with
  | nil => rfl
  | cons t ts ih =>
    have ht := (Tok.value_length hhome hσ t).1
    simp only [List.flatMap_cons, List.length_append]
    omega

lemma eq_map_lit_of_length (hhome : ∀ login, home login = some []) (hσ : ∀ name, (σ name).length ≤ name.length)
    {ts : List Tok} (h : (ts.flatMap Tok.source).length ≤ (ts.flatMap (Tok.value home σ)).length) :
    ts = (ts.flatMap Tok.source).map .lit := by
  induction ts with
  | nil => rfl
  | cons t ts ih =>
    have ht := Tok.value_length hhome hσ t
    have hts := values_length hhome hσ ts
    simp only [List.flatMap_cons, List.length_append] at h
    obtain ⟨c, rfl⟩ := ht.2 (by omega)
    rw [List.flatMap_cons, List.map_append, ← ih (by omega)]
    rfl

@[simp] lemma flatMap_value_lit (home : List Char → Option (List Char)) (σ : List Char → List Char) (w : List Char) :
    (w.map Tok.lit).flatMap (Tok.value home σ) = w := by
  induction w with
  | nil => rfl
  | cons c cs ih => rw [List.map_cons, List.flatMap_cons, ih]; rfl

end Values

/-- A word whose characters all stand for themselves. -/
def Literal (w : List Char) : Prop := lex (.word true) w = some (w.map .lit)

/-- A text that stands for something no shorter is literal. -/
lemma literal_of_length {home : List Char → Option (List Char)} {σ : List Char → List Char} {w : List Char}
    {ts : List Tok} (hhome : ∀ login, home login = some []) (hσ : ∀ name, (σ name).length ≤ name.length)
    (h : lex (.word true) w = some ts) (hlen : w.length ≤ (ts.flatMap (Tok.value home σ)).length) :
    Literal w ∧ ts.flatMap (Tok.value home σ) = w := by
  have hw := lex_source h
  have hts : ts = w.map .lit := by
    rw [← hw] at hlen
    have hlit := eq_map_lit_of_length hhome hσ hlen
    rwa [hw] at hlit
  rw [hts] at h ⊢
  exact ⟨h, flatMap_value_lit home σ w⟩

/-- Characters without a meaning of their own, outside of quotes. -/
def isPlain (c : Char) : Bool := !isMeta c && c ∉ ['\'', '"', '\\', '$', '~']

lemma literal_of_plain {w : List Char} (h : ∀ c ∈ w, isPlain c) : Literal w := by
  have hlex : ∀ tilde, lex (.word tilde) w = some (w.map .lit) := by
    induction w with
    | nil =>
      intro tilde
      rw [lex]
      rfl
    | cons c cs ih =>
      intro tilde
      have hc : isPlain c := h c List.mem_cons_self
      have hnext : next (.word tilde) c cs = some (.lit c, .word (c = ':'), cs) := by
        simp_all [next, isPlain]
      rw [lex_next hnext, ih (fun d hd => h d (List.mem_cons_of_mem c hd))]
      rfl
  exact hlex true

/-- What is read as a character of its own has no other meaning. -/
lemma next_lit {tilde : Bool} {c d : Char} {cs rest : List Char} {m : Mode}
    (h : next (.word tilde) c cs = some (.lit d, m, rest)) :
    (isMeta c = false ∧ c ≠ '\\') ∧ rest = cs ∧ ∃ tilde', m = .word tilde' := by
  have hsource := next_source h
  simp only [Tok.source, List.singleton_append, List.cons.injEq] at hsource
  simp only [next] at h
  split_ifs at h with h1 h2 h3 h4 h5
  · simp at h
  · simp at h
  · cases cs <;> simp at h
  · obtain ⟨⟨t, u⟩, -, hp⟩ := Option.map_eq_some_iff.mp h
    cases hp
    exact ⟨⟨by simpa using h3, h4⟩, hsource.2, false, rfl⟩
  · simp at h
  · cases h
    exact ⟨⟨by simpa using h3, h4⟩, rfl, _, rfl⟩

lemma ordinary_of_literal {w : List Char} (h : Literal w) : ∀ c ∈ w, isMeta c = false ∧ c ≠ '\\' := by
  have hlex : ∀ tilde, lex (.word tilde) w = some (w.map .lit) → ∀ c ∈ w, isMeta c = false ∧ c ≠ '\\' := by
    clear h
    induction w with
    | nil => simp
    | cons d cs ih =>
      intro tilde h
      rw [lex_cons] at h
      obtain ⟨⟨t, m, rest⟩, ht, h⟩ := Option.bind_eq_some_iff.mp h
      obtain ⟨ts, hts, h⟩ := Option.map_eq_some_iff.mp h
      rw [List.map_cons] at h
      obtain ⟨rfl, rfl⟩ := List.cons.inj h
      obtain ⟨hd, rfl, tilde', rfl⟩ := next_lit ht
      exact List.forall_mem_cons.mpr ⟨hd, ih tilde' hts⟩
  exact hlex true h

/-- What may stand to the left of an equals sign. -/
def IsName (name : List Char) : Prop := name.head?.any isNameStart ∧ name.all isNameChar

instance : DecidablePred IsName := fun name =>
  inferInstanceAs (Decidable (name.head?.any isNameStart ∧ name.all isNameChar))

lemma IsName.isNameChar {name : List Char} (h : IsName name) {c : Char} (hc : c ∈ name) : isNameChar c = true :=
  List.all_eq_true.mp h.2 c hc

/-- A line that is one assignment: the name and the tokens of its value. -/
def assignment (line : List Char) : Option (List Char × List Tok) :=
  if IsName (line.takeWhile isNameChar) then
    match line.dropWhile isNameChar with
    | '=' :: value => (lex (.word true) value).map (line.takeWhile isNameChar, ·)
    | _ => none
  else none

/-- The variables that an assignment leaves. -/
def assign (home : List Char → Option (List Char)) (line : List Char) (σ : List Char → List Char) :
    Option (List Char → List Char) :=
  (assignment line).map fun (name, ts) => Function.update σ name (ts.flatMap (Tok.value home σ))

/-- Lines that are assignments and nothing else. -/
def assignAll (home : List Char → Option (List Char)) :
    List (List Char) → (List Char → List Char) → Option (List Char → List Char)
  | [], σ => some σ
  | line :: lines, σ => (assign home line σ).bind (assignAll home lines)

section Assignments
variable {home : List Char → Option (List Char)} {σ σ' : List Char → List Char} {name v : List Char}

lemma assignment_name (hname : IsName name) (v : List Char) :
    assignment (name ++ '=' :: v) = (lex (.word true) v).map (name, ·) := by
  have htake : (name ++ '=' :: v).takeWhile isNameChar = name := by
    rw [List.takeWhile_append_of_pos fun c hc => hname.isNameChar hc]
    exact List.append_nil name
  have hdrop : (name ++ '=' :: v).dropWhile isNameChar = '=' :: v := by
    rw [List.dropWhile_append_of_pos fun c hc => hname.isNameChar hc]
    rfl
  rw [assignment, htake, if_pos hname, hdrop]
  rfl

lemma assign_literal (hname : IsName name) (hv : Literal v) :
    assign home (name ++ '=' :: v) σ = some (Function.update σ name v) := by
  rw [assign, assignment_name hname, hv]
  simp

/-- Literal assignments set just what they name. -/
lemma assignAll_literal {names : List (List Char)} {value : List Char → List Char} (hnames : ∀ n ∈ names, IsName n)
    (hvalues : ∀ n ∈ names, Literal (value n)) (σ : List Char → List Char) :
    assignAll home (names.map fun n => n ++ '=' :: value n) σ = some fun n => if n ∈ names then value n else σ n := by
  induction names generalizing σ with
  | nil => simp [assignAll]
  | cons name names ih =>
    rw [List.forall_mem_cons] at hnames hvalues
    rw [List.map_cons, assignAll, assign_literal hnames.1 hvalues.1, Option.bind_some, ih hnames.2 hvalues.2]
    congr 1
    funext n
    by_cases hn : n = name <;> simp [hn]

/-- Where the names in front have no values longer than themselves, an assignment that is no longer than its value
is literal. -/
lemma literal_of_assign (hhome : ∀ login, home login = some []) (hσ : ∀ name, (σ name).length ≤ name.length)
    (hname : IsName name) {u : List Char} (h : assign home (name ++ '=' :: u) σ = some σ')
    (hlen : u.length ≤ (σ' name).length) : Literal u ∧ σ' name = u := by
  rw [assign, assignment_name hname] at h
  obtain ⟨⟨name', ts⟩, hts, h⟩ := Option.map_eq_some_iff.mp h
  obtain ⟨ts, hlex, hpair⟩ := Option.map_eq_some_iff.mp hts
  cases hpair
  have hvalue : σ' name = ts.flatMap (Tok.value home σ) := by
    rw [← h]
    exact Function.update_self ..
  rw [hvalue] at hlen ⊢
  exact literal_of_length hhome hσ hlex hlen

end Assignments

end ShellWord
