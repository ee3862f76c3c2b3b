import Mathlib.Data.List.DropRight
import Mathlib.Tactic

/-! The lines and the words of a text. A separator ends a line, which the last line may lack; blanks stand between
words. -/
namespace Text

section Lines
variable {α : Type*} {sep : α} {l t : List α}

/-- The text ends with a whole line. -/
def Terminated (sep : α) (t : List α) : Prop := t = [] ∨ ∃ s, t = s ++ [sep]

/-- What is left behind the last whole line of a text. -/
lemma exists_terminated_append (sep : α) (t : List α) : ∃ s l, t = s ++ l ∧ Terminated sep s ∧ sep ∉ l := by
  induction t using List.reverseRecOn with
  | nil => exact ⟨[], [], rfl, .inl rfl, List.not_mem_nil⟩
  | append_singleton t c ih =>
    obtain ⟨s, l, rfl, hs, hl⟩ := ih
    obtain rfl | hc := eq_or_ne c sep
    · exact ⟨s ++ l ++ [c], [], by simp, .inr ⟨s ++ l, rfl⟩, List.not_mem_nil⟩
    · refine ⟨s, l ++ [c], by simp, hs, ?_⟩
      simp [hl, hc.symm]

/-- What is behind a separator does not reach it. -/
lemma rtakeWhile_append_cons {p : α → Bool} (hsep : p sep = false) (l u : List α) :
    (l ++ sep :: u).rtakeWhile p = u.rtakeWhile p := by
  induction u using List.reverseRecOn with
  | nil => rw [List.rtakeWhile_concat_neg p l sep (by simp [hsep]), List.rtakeWhile_nil]
  | append_singleton u c ih =>
    rw [← List.cons_append, ← List.append_assoc, List.rtakeWhile_concat, List.rtakeWhile_concat, ih]

variable [DecidableEq α]

def lines (sep : α) : List α → List (List α)
  | [] => []
  | c :: cs =>
    if c = sep then [] :: lines sep cs
    else match lines sep cs with
      | [] => [[c]]
      | l :: ls => (c :: l) :: ls

@[simp] lemma lines_nil : lines sep [] = [] := rfl

@[simp] lemma lines_sep_cons (cs : List α) : lines sep (sep :: cs) = [] :: lines sep cs := by
  rw [lines, if_pos rfl]

/-- A line with its separator. -/
lemma lines_line_append (hl : sep ∉ l) (u : List α) : lines sep (l ++ sep :: u) = l :: lines sep u := by
  induction l with
  | nil => exact lines_sep_cons u
  | cons c cs ih =>
    rw [List.mem_cons, not_or] at hl
    rw [List.cons_append, lines, if_neg (Ne.symm hl.1), ih hl.2]

/-- The rest of a text without a separator is one line. -/
lemma lines_single (hl : sep ∉ l) (hne : l ≠ []) : lines sep l = [l] := by
  induction l with
  | nil => exact absurd rfl hne
  | cons c cs ih =>
    rw [List.mem_cons, not_or] at hl
    rw [lines, if_neg (Ne.symm hl.1)]
    cases cs with
    | nil => rfl
    | cons c' cs => rw [ih hl.2 (List.cons_ne_nil c' cs)]

lemma lines_of_not_mem (hl : sep ∉ l) : lines sep l = if l = [] then [] else [l] := by
  split_ifs with hne
  · rw [hne, lines_nil]
  · exact lines_single hl hne

/-- A text is empty, or one line, or it has a first line and a rest. -/
lemma line_cases (sep : α) (t : List α) :
    sep ∉ t ∨ ∃ l u, t = l ++ sep :: u ∧ sep ∉ l := by
  by_cases h : sep ∈ t
  · obtain ⟨l, u, rfl, hl⟩ := List.eq_append_cons_of_mem h
    exact .inr ⟨l, u, rfl, hl⟩
  · exact .inl h

/-- A property of texts that goes from the rest of a text to a line and the rest. -/
lemma line_induction {motive : List α → Prop} (sep : α) (rest : ∀ l, sep ∉ l → motive l)
    (line : ∀ l u, sep ∉ l → motive u → motive (l ++ sep :: u)) (t : List α) : motive t := by
  induction hn : t.length using Nat.strong_induction_on generalizing t with
  | _ n ih =>
    obtain hsep | ⟨l, u, rfl, hl⟩ := line_cases sep t
    · exact rest t hsep
    · apply line l u hl
      exact ih u.length (by rw [← hn, List.length_append, List.length_cons]; omega) u rfl

lemma lines_append_of_terminated (ht : Terminated sep t) (u : List α) :
    lines sep (t ++ u) = lines sep t ++ lines sep u := by
  induction t using line_induction sep with
  | rest l hl =>
    obtain rfl | ⟨s, rfl⟩ := ht
    · rfl
    · simp at hl
  | line l r hl ih =>
    have hr : Terminated sep r := by
      obtain h | ⟨s, h⟩ := ht
      · simp at h
      · obtain rfl | ⟨r', b, rfl⟩ := r.eq_nil_or_concat'
        · exact .inl rfl
        · refine .inr ⟨r', ?_⟩
          rw [← List.cons_append, ← List.append_assoc] at h
          rw [(List.append_inj' h rfl).2]
    rw [List.append_assoc, List.cons_append, lines_line_append hl, lines_line_append hl, ih hr, List.cons_append]

lemma lines_flatMap {ls : List (List α)} (h : ∀ l ∈ ls, sep ∉ l) : lines sep (ls.flatMap (· ++ [sep])) = ls := by
  induction ls with
  | nil => rfl
  | cons l ls ih =>
    rw [List.forall_mem_cons] at h
    rw [List.flatMap_cons, List.append_assoc, List.singleton_append, lines_line_append h.1, ih h.2]

lemma not_mem_of_mem_lines (hl : l ∈ lines sep t) : sep ∉ l := by
  induction t generalizing l with
  | nil => simp at hl
  | cons c cs ih =>
    rw [lines] at hl
    split_ifs at hl with hc
    · obtain rfl | hl := List.mem_cons.mp hl
      · exact List.not_mem_nil
      · exact ih hl
    · cases hcs : lines sep cs with
      | nil =>
        rw [hcs] at hl
        obtain rfl := List.mem_singleton.mp hl
        simpa using Ne.symm hc
      | cons l' ls =>
        rw [hcs] at hl
        obtain rfl | hl := List.mem_cons.mp hl
        · have hl' : sep ∉ l' := ih (by rw [hcs]; exact List.mem_cons_self)
          rw [List.mem_cons, not_or]
          exact ⟨Ne.symm hc, hl'⟩
        · exact ih (by rw [hcs]; exact List.mem_cons_of_mem l' hl)

end Lines

section Words
variable {α : Type*} {blank : α → Bool} {w t : List α}

/-- The longest parts without a blank. -/
def words (blank : α → Bool) : List α → List (List α)
  | [] => []
  | [c] => if blank c then [] else [[c]]
  | c :: d :: cs =>
    if blank c then words blank (d :: cs)
    else if blank d then [c] :: words blank (d :: cs)
    else match words blank (d :: cs) with
      | [] => [[c]]
      | l :: ls => (c :: l) :: ls

@[simp] lemma words_nil : words blank [] = [] := rfl

lemma words_blank_cons {c : α} (hc : blank c = true) (cs : List α) : words blank (c :: cs) = words blank cs := by
  cases cs <;> simp [words, hc]

lemma words_blank_append (hw : ∀ c ∈ w, blank c = true) (t : List α) : words blank (w ++ t) = words blank t := by
  induction w with
  | nil => rfl
  | cons c cs ih =>
    rw [List.forall_mem_cons] at hw
    rw [List.cons_append, words_blank_cons hw.1, ih hw.2]

/-- A word ends at a blank, or with the text. -/
lemma words_word_append (hw : ∀ c ∈ w, blank c = false) (hne : w ≠ []) (ht : ∀ c, t.head? = some c → blank c = true) :
    words blank (w ++ t) = w :: words blank t := by
  induction w with
  | nil => exact absurd rfl hne
  | cons c cs ih =>
    have hc : blank c = false := hw c List.mem_cons_self
    cases cs with
    | nil =>
      cases t with
      | nil => simp [words, hc]
      | cons d ds => simp [words, hc, ht d rfl]
    | cons d ds =>
      have hd : blank d = false := hw d (by simp)
      have hrest := ih (fun a ha => hw a (List.mem_cons_of_mem c ha)) (List.cons_ne_nil d ds)
      rw [List.cons_append] at hrest
      rw [List.cons_append, List.cons_append, words, hrest]
      simp [hc, hd]

lemma words_single (hw : ∀ c ∈ w, blank c = false) (hne : w ≠ []) : words blank w = [w] := by
  simpa using words_word_append (t := []) hw hne (by simp)

/-- No blank is part of a word. -/
lemma blank_of_mem_words (hw : w ∈ words blank t) : ∀ c ∈ w, blank c = false := by
  induction t using words.induct blank generalizing w with
  | case1 => simp at hw
  | case2 d hd => simp [words, hd] at hw
  | case3 d hd =>
    have hw' : w = [d] := by simpa [words, hd] using hw
    simpa [hw'] using hd
  | case4 d e cs hd ih =>
    rw [words_blank_cons hd] at hw
    exact ih hw
  | case5 d e cs hd he ih =>
    simp only [words, hd, he] at hw
    obtain rfl | hw := List.mem_cons.mp hw
    · simpa using hd
    · exact ih hw
  | case6 d e cs hd he hnil ih =>
    have hw' : w = [d] := by simpa [words, hd, he, hnil] using hw
    simpa [hw'] using hd
  | case7 d e cs hd he l ls hcons ih =>
    have hw' : w = d :: l ∨ w ∈ ls := by simpa [words, hd, he, hcons] using hw
    obtain rfl | hw := hw'
    · exact List.forall_mem_cons.mpr ⟨by simpa using hd, ih (by simp [hcons])⟩
    · exact ih (by simp [hcons, hw])

lemma ne_nil_of_mem_words (hw : w ∈ words blank t) : w ≠ [] := by
  induction t using words.induct blank with
  | case1 => simp at hw
  | case2 c hc => simp [words, hc] at hw
  | case3 c hc => simp_all [words]
  | case4 c d cs hc ih => exact ih (by rwa [words_blank_cons hc] at hw)
  | case5 c d cs hc hd ih =>
    rw [words, if_neg hc, if_pos hd] at hw
    obtain rfl | hw := List.mem_cons.mp hw
    · exact List.cons_ne_nil c []
    · exact ih hw
  | case6 c d cs hc hd hnil ih => simp_all [words]
  | case7 c d cs hc hd l ls hcons ih =>
    rw [words, if_neg hc, if_neg hd, hcons] at hw
    obtain rfl | hw := List.mem_cons.mp hw
    · exact List.cons_ne_nil c l
    · exact ih (by rw [hcons]; exact List.mem_cons_of_mem l hw)

/-- The words are what is left of a text without its blanks. -/
lemma flatten_words (blank : α → Bool) (t : List α) : (words blank t).flatten = t.filter (!blank ·) := by
  induction t using words.induct blank with
  | case1 => rfl
  | case2 c hc => simp [words, hc]
  | case3 c hc => simp [words, hc]
  | case4 c d cs hc ih =>
    rw [words_blank_cons hc, ih]
    simp [hc]
  | case5 c d cs hc hd ih =>
    rw [words, if_neg hc, if_pos hd, List.flatten_cons, ih]
    simp [hc]
  | case6 c d cs hc hd hnil ih =>
    rw [hnil] at ih
    rw [words, if_neg hc, if_neg hd, hnil, List.filter_cons_of_pos (by simpa using hc), ← ih]
    rfl
  | case7 c d cs hc hd l ls hcons ih =>
    rw [hcons] at ih
    rw [words, if_neg hc, if_neg hd, hcons, List.filter_cons_of_pos (by simpa using hc), ← ih]
    rfl

lemma mem_of_mem_words {c : α} (hw : w ∈ words blank t) (hc : c ∈ w) : c ∈ t := by
  have hflat : c ∈ (words blank t).flatten := List.mem_flatten.mpr ⟨w, hw, hc⟩
  rw [flatten_words] at hflat
  exact (List.mem_filter.mp hflat).1

/-- Words with a blank between them. -/
lemma words_intercalate {sep : α} (hsep : blank sep = true) {ws : List (List α)}
    (hws : ∀ w ∈ ws, w ≠ [] ∧ ∀ c ∈ w, blank c = false) : words blank ([sep].intercalate ws) = ws := by
  induction ws with
  | nil => rfl
  | cons w ws ih =>
    rw [List.forall_mem_cons] at hws
    cases ws with
    | nil => simpa using words_single hws.1.2 hws.1.1
    | cons w' ws =>
      rw [List.intercalate_cons_cons, List.append_assoc, List.singleton_append,
        words_word_append hws.1.2 hws.1.1 (by simp [hsep]), words_blank_cons hsep, ih hws.2]

/-- What has no blank is the start of the first word. -/
lemma words_start (hw : ∀ c ∈ w, blank c = false) (hne : w ≠ []) (t : List α) :
    words blank (w ++ t) = (w ++ t.takeWhile (!blank ·)) :: words blank (t.dropWhile (!blank ·)) := by
  have hsplit : w ++ t = (w ++ t.takeWhile (!blank ·)) ++ t.dropWhile (!blank ·) := by
    rw [List.append_assoc, List.takeWhile_append_dropWhile]
  rw [hsplit]
  apply words_word_append
  · intro c hc
    obtain hc | hc := List.mem_append.mp hc
    · exact hw c hc
    · simpa using List.all_eq_true.mp List.all_takeWhile c hc
  · simp [hne]
  · intro c hc
    have hhead := List.head?_dropWhile_not (!blank ·) t
    rw [hc] at hhead
    simpa using hhead

/-- The words of a text, with a separator between them, are no longer than the text. -/
lemma sum_words_length (blank : α → Bool) (t : List α) :
    ((words blank t).map (·.length + 1)).sum ≤ t.length + 1 ∧
      ((∃ c, t.head? = some c ∧ blank c = true) → ((words blank t).map (·.length + 1)).sum ≤ t.length) := by
  induction t using words.induct blank with
  | case1 => simp
  | case2 c hc => simp [words, hc]
  | case3 c hc => simp [words, hc]
  | case4 c d cs hc ih =>
    rw [words_blank_cons hc]
    simp_all
    omega
  | case5 c d cs hc hd ih =>
    simp_all [words]
    omega
  | case6 c d cs hc hd hnil ih => simp_all [words]
  | case7 c d cs hc hd l ls hcons ih =>
    simp_all [words]
    omega

lemma length_intercalate_words (blank : α → Bool) (sep : α) (t : List α) :
    ([sep].intercalate (words blank t)).length ≤ t.length := by
  have hlen : ∀ ws : List (List α), ws ≠ [] → ([sep].intercalate ws).length + 1 = (ws.map (·.length + 1)).sum := by
    intro ws hne
    induction ws with
    | nil => exact absurd rfl hne
    | cons w ws ih =>
      cases ws with
      | nil => simp [List.intercalate]
      | cons w' ws =>
        have hrest := ih (List.cons_ne_nil w' ws)
        rw [List.intercalate_cons_cons, List.map_cons, List.sum_cons, ← hrest]
        simp
        omega
  obtain hnil | hne := eq_or_ne (words blank t) []
  · simp [hnil, List.intercalate]
  · have hsum := (sum_words_length blank t).1
    rw [← hlen _ hne] at hsum
    omega

end Words

end Text
