import Mathlib.Tactic

/-! Pathname expansion as POSIX shells do it: which characters of a word stand for others, and which names match the
word. What a bracket expression contains depends on the locale, and is a parameter. -/
namespace Glob

inductive Glyph where
  | lit (c : Char)
  | any
  | star
  | bracket (text : List Char)
  deriving DecidableEq

/-- The text of a glyph. -/
def Glyph.source : Glyph → List Char
  | lit c => [c]
  | any => ['?']
  | star => ['*']
  | bracket text => '[' :: text ++ [']']

/-- Behind an opening bracket: among the members, or at the start, inside or at the end of [:class:], [=class=]
or [.symbol.]. -/
inductive Scan where
  | members
  | start (d : Char)
  | inside (d : Char)
  | ending
  deriving DecidableEq

def Scan.next : Scan → Char → List Char → Scan
  | members, '[', d :: cs => if d ∈ [':', '=', '.'] ∧ [d, ']'] <:+: cs then start d else members
  | members, _, _ => members
  | start d, _, _ => inside d
  | inside d, c, cs => if c = d ∧ cs.head? = some ']' then ending else inside d
  | ending, _, _ => members

/-- The members of a bracket expression up to its closing bracket. There is none in another part of the path. -/
def memberText : Scan → List Char → Option (List Char)
  | _, [] => none
  | s, c :: cs =>
    if c = '/' then none
    else if s = .members ∧ c = ']' then some []
    else (memberText (s.next c cs) cs).map (c :: ·)

/-- A closing bracket in front is a member. -/
def firstMember : List Char → Option (List Char)
  | ']' :: cs => (memberText .members cs).map (']' :: ·)
  | cs => memberText .members cs

/-- What stands between an opening bracket and the one that closes it, if any does. -/
def bracketText : List Char → Option (List Char)
  | [] => none
  | c :: cs => if c = '!' ∨ c = '^' then (firstMember cs).map (c :: ·) else firstMember (c :: cs)

/-- The glyph that starts with a character. -/
def glyph (c : Char) (cs : List Char) : Glyph :=
  if c = '*' then .star
  else if c = '?' then .any
  else if c = '[' then
    match bracketText cs with
    | some text => .bracket text
    | none => .lit c
  else .lit c

/-- The glyphs of a word, from a number of characters on. -/
def glyphsFrom : ℕ → List Char → List Glyph
  | _, [] => []
  | n+1, _ :: cs => glyphsFrom n cs
  | 0, c :: cs => glyph c cs :: glyphsFrom ((glyph c cs).source.length - 1) cs

def glyphs (w : List Char) : List Glyph := glyphsFrom 0 w

/-- Brackets that close none, or that another part of the path would close. -/
example : ["[]", "[]x", "[!]", "[^]", "x[a/b]"].all fun w => glyphs w.toList = w.toList.map .lit := by decide

example : glyphs "[]a]?[[:x:]]".toList = [.bracket "]a".toList, .any, .bracket "[:x:]".toList] := by decide

/-- A glyph that is not itself matches no slash, and no period at the start of a file name. -/
def stands (start : Bool) (c : Char) : Bool := c ≠ '/' && !(start && c = '.')

/-- Whether the glyphs match a name; start tells whether a file name begins here. -/
def matchFrom (contains : List Char → Char → Bool) : List Glyph → Bool → List Char → Bool
  | [], _, v => v.isEmpty
  | .lit c :: ps, _, v => v.head? = some c && matchFrom contains ps (c = '/') v.tail
  | .any :: ps, start, v => v.head?.any (stands start) && matchFrom contains ps false v.tail
  | .bracket text :: ps, start, v =>
    v.head?.any (fun c => stands start c && contains text c) && matchFrom contains ps false v.tail
  | .star :: ps, start, v => (!start || v.head?.any (stands true)) &&
    (List.range (v.length + 1)).any fun k => '/' ∉ v.take k && matchFrom contains ps (start && k = 0) (v.drop k)

def Matches (contains : List Char → Char → Bool) (w v : List Char) : Prop := matchFrom contains (glyphs w) true v = true

instance (contains : List Char → Char → Bool) (w v : List Char) : Decidable (Matches contains w v) :=
  inferInstanceAs (Decidable (_ = true))

/-- A word that some other name matches. No file has a name of two lines. -/
def IsPattern (contains : List Char → Char → Bool) (w : List Char) : Prop :=
  ∃ v, v ≠ w ∧ '\n' ∉ v ∧ Matches contains w v

section Glyphs
variable {c : Char} {cs w : List Char} {text : List Char}

lemma memberText_closes {s : Scan} (h : memberText s cs = some text) : text ++ [']'] <+: cs := by
  induction cs generalizing s text with
  | nil => cases h
  | cons c cs ih =>
    rw [memberText] at h
    split_ifs at h with hslash hend
    · cases h
      exact ⟨cs, by rw [hend.2]; rfl⟩
    · obtain ⟨text', htext', rfl⟩ := Option.map_eq_some_iff.mp h
      exact (List.prefix_cons_inj c).mpr (ih htext')

lemma firstMember_closes (h : firstMember cs = some text) : text ++ [']'] <+: cs := by
  unfold firstMember at h
  split at h
  · obtain ⟨text', htext', rfl⟩ := Option.map_eq_some_iff.mp h
    exact (List.prefix_cons_inj ']').mpr (memberText_closes htext')
  · exact memberText_closes h

lemma bracketText_closes (h : bracketText cs = some text) : text ++ [']'] <+: cs := by
  cases cs with
  | nil => cases h
  | cons c cs =>
    rw [bracketText] at h
    split_ifs at h
    · obtain ⟨text', htext', rfl⟩ := Option.map_eq_some_iff.mp h
      exact (List.prefix_cons_inj c).mpr (firstMember_closes htext')
    · exact firstMember_closes h

lemma glyph_source (c : Char) (cs : List Char) : (glyph c cs).source <+: c :: cs := by
  unfold glyph
  split_ifs with hstar hany hopen
  · rw [hstar]
    exact ⟨cs, rfl⟩
  · rw [hany]
    exact ⟨cs, rfl⟩
  · cases htext : bracketText cs with
    | some text =>
      rw [hopen]
      exact (List.prefix_cons_inj '[').mpr (bracketText_closes htext)
    | none => exact ⟨cs, rfl⟩
  · exact ⟨cs, rfl⟩

/-- The glyphs are the whole word. -/
lemma glyphsFrom_source (n : ℕ) (w : List Char) : (glyphsFrom n w).flatMap Glyph.source = w.drop n := by
  induction w generalizing n with
  | nil => simp [glyphsFrom]
  | cons c cs ih =>
    cases n with
    | succ n => rw [glyphsFrom, ih, List.drop_succ_cons]
    | zero =>
      obtain ⟨rest, hrest⟩ := glyph_source c cs
      have hpos : 0 < (glyph c cs).source.length := by cases glyph c cs <;> simp [Glyph.source]
      have hdrop : cs.drop ((glyph c cs).source.length - 1) = rest := by
        have hall : (c :: cs).drop (glyph c cs).source.length = rest := by rw [← hrest, List.drop_left]
        rw [← hall, ← Nat.succ_pred_eq_of_pos hpos, List.drop_succ_cons]
        rfl
      rw [glyphsFrom, List.flatMap_cons, ih, hdrop, hrest]
      rfl

lemma glyphs_source (w : List Char) : (glyphs w).flatMap Glyph.source = w := glyphsFrom_source 0 w

lemma glyphs_cons (hc : c ∉ ['*', '?', '[']) (cs : List Char) : glyphs (c :: cs) = .lit c :: glyphs cs := by
  have hglyph : glyph c cs = .lit c := by
    simp only [List.mem_cons, List.not_mem_nil, or_false, not_or] at hc
    simp [glyph, hc]
  rw [glyphs, glyphsFrom, hglyph]
  rfl

lemma glyphs_of_ordinary (h : ∀ c ∈ w, c ∉ ['*', '?', '[']) : glyphs w = w.map .lit := by
  induction w with
  | nil => rfl
  | cons c cs ih =>
    rw [List.forall_mem_cons] at h
    rw [glyphs_cons h.1, ih h.2]
    rfl

end Glyphs

section Matching
variable {contains : List Char → Char → Bool} {c : Char} {w p v : List Char}

lemma matchFrom_lit {ps : List Glyph} {start : Bool} : matchFrom contains (.lit c :: ps) start v = true ↔
    ∃ u, v = c :: u ∧ matchFrom contains ps (c = '/') u = true := by
  cases v <;> simp [matchFrom, and_assoc]

lemma matchFrom_map_lit (start : Bool) : matchFrom contains (w.map .lit) start v = true ↔ v = w := by
  induction w generalizing start v with
  | nil => simp [matchFrom]
  | cons c cs ih =>
    rw [List.map_cons, matchFrom_lit]
    constructor
    · rintro ⟨u, rfl, hu⟩
      rw [(ih _).mp hu]
    · rintro rfl
      exact ⟨cs, rfl, (ih _).mpr rfl⟩

/-- Ordinary characters match themselves. -/
lemma matches_ordinary (h : ∀ c ∈ w, c ∉ ['*', '?', '[']) : Matches contains w v ↔ v = w := by
  rw [Matches, glyphs_of_ordinary h, matchFrom_map_lit]

lemma not_isPattern_of_ordinary (h : ∀ c ∈ w, c ∉ ['*', '?', '[']) : ¬ IsPattern contains w := by
  rintro ⟨v, hne, -, hmatch⟩
  exact hne ((matches_ordinary h).mp hmatch)

/-- In front of a pattern they do too. -/
lemma matches_append (h : ∀ c ∈ p, c ∉ ['*', '?', '[']) (hmatch : Matches contains (p ++ w) v) : ∃ u, v = p ++ u := by
  have hfrom : ∀ start v, matchFrom contains (glyphs (p ++ w)) start v = true → ∃ u, v = p ++ u := by
    clear hmatch
    induction p with
    | nil => exact fun _ v _ => ⟨v, rfl⟩
    | cons c p ih =>
      rw [List.forall_mem_cons] at h
      intro start v hmatch
      rw [List.cons_append, glyphs_cons h.1, matchFrom_lit] at hmatch
      obtain ⟨v', rfl, hmatch⟩ := hmatch
      obtain ⟨u, rfl⟩ := ih h.2 _ v' hmatch
      exact ⟨u, rfl⟩
  exact hfrom true v hmatch

/-- What matches can be made no longer than the text of the glyphs, and other than it. -/
lemma exists_short (ps : List Glyph) {start start' : Bool} (hstart : start' = true → start = true)
    (hmatch : matchFrom contains ps start v = true) (hv : '\n' ∉ v) :
    ∃ u, matchFrom contains ps start' u = true ∧ '\n' ∉ u ∧ u.length ≤ (ps.flatMap Glyph.source).length ∧
      (u = ps.flatMap Glyph.source → ∃ w : List Char, ps = w.map .lit) := by
  induction ps generalizing start start' v with
  | nil => exact ⟨[], rfl, by simp, le_rfl, fun _ => ⟨[], rfl⟩⟩
  | cons p ps ih =>
    have hstands : ∀ c, stands start c = true → stands start' c = true := by
      intro c
      cases start <;> cases start' <;> simp_all [stands]
    have hx : ∀ b, stands b 'x' = true := by decide
    cases p with
    | lit c =>
      obtain ⟨v, rfl, hrest⟩ := matchFrom_lit.mp hmatch
      rw [List.mem_cons, not_or] at hv
      obtain ⟨u, hu, hline, hlen, hlit⟩ := ih id hrest hv.2
      refine ⟨c :: u, matchFrom_lit.mpr ⟨u, rfl, hu⟩, by simp [hv.1, hline], by simpa [Glyph.source] using hlen,
        fun heq => ?_⟩
      obtain ⟨w, rfl⟩ := hlit (by simpa [Glyph.source] using heq)
      exact ⟨c :: w, rfl⟩
    | any =>
      obtain ⟨-, hrest⟩ : _ ∧ matchFrom contains ps false v.tail = true := by simpa [matchFrom] using hmatch
      obtain ⟨u, hu, hline, hlen, -⟩ :=
        ih (id : false = true → false = true) hrest fun hc => hv (List.mem_of_mem_tail hc)
      exact ⟨'x' :: u, by simp [matchFrom, hx, hu], by simp [hline], by simpa [Glyph.source] using hlen,
        by simp [Glyph.source]⟩
    | bracket text =>
      cases v with
      | nil => simp [matchFrom] at hmatch
      | cons c v =>
        rw [List.mem_cons, not_or] at hv
        simp only [matchFrom, List.head?_cons, Option.any_some, List.tail_cons, Bool.and_eq_true] at hmatch
        obtain ⟨⟨hc, hcontains⟩, hrest⟩ := hmatch
        obtain ⟨u, hu, hline, hlen, -⟩ := ih (id : false = true → false = true) hrest hv.2
        refine ⟨c :: u, by simp [matchFrom, hstands c hc, hcontains, hu], by simp [hv.1, hline], ?_, fun heq => ?_⟩
        · simp only [List.flatMap_cons, Glyph.source, List.length_append, List.length_cons]
          omega
        · have hsame := congrArg List.length heq
          simp only [List.flatMap_cons, Glyph.source, List.length_append, List.length_cons, List.length_nil] at hsame
          omega
    | star =>
      simp only [matchFrom, Bool.and_eq_true, List.any_eq_true] at hmatch
      obtain ⟨-, k, -, -, hrest⟩ := hmatch
      have hnever : false = true → (start && decide (k = 0)) = true := by simp
      obtain ⟨u, hu, hline, hlen, -⟩ := ih hnever hrest fun hc => hv (List.mem_of_mem_drop hc)
      refine ⟨'x' :: u, ?_, by simp [hline], by simpa [Glyph.source] using hlen, by simp [Glyph.source]⟩
      simp only [matchFrom, Bool.and_eq_true, List.any_eq_true]
      exact ⟨by simp [hx], 1, by simp, by simp, by simpa using hu⟩

/-- A pattern has another name that is no longer. -/
lemma IsPattern.exists_short (h : IsPattern contains w) :
    ∃ v, v ≠ w ∧ '\n' ∉ v ∧ Matches contains w v ∧ v.length ≤ w.length := by
  obtain ⟨v, hne, hv, hmatch⟩ := h
  obtain ⟨u, hu, hline, hlen, hlit⟩ := Glob.exists_short (glyphs w) (id : true = true → true = true) hmatch hv
  rw [glyphs_source] at hlen hlit
  refine ⟨u, fun heq => ?_, hline, hu, hlen⟩
  obtain ⟨w', hw'⟩ := hlit heq
  have hsource := glyphs_source w
  rw [hw', List.flatMap_map] at hsource
  have hself : w' = w := by simpa [Glyph.source] using hsource
  rw [Matches, hw', matchFrom_map_lit, hself] at hmatch
  exact hne hmatch

end Matching

end Glob
