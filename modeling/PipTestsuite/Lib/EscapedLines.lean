import PipTestsuite.Lib.Text

/-! Lines with an escape character, which takes the meaning from the character behind it: an escaped separator joins
two lines. Only whole lines count. -/
namespace Text
variable {α : Type*} [DecidableEq α] {esc sep : α} {l p u : List α}

/-- The text without its escapes. -/
def unescape (esc : α) : List α → List α
  | [] => []
  | [c] => if c = esc then [] else [c]
  | c :: d :: cs => if c = esc then d :: unescape esc cs else c :: unescape esc (d :: cs)

/-- There is an escape at the end, which is not escaped itself. -/
def Continues (esc : α) : List α → Prop
  | [] => False
  | [c] => c = esc
  | c :: d :: cs => if c = esc then Continues esc cs else Continues esc (d :: cs)

instance decidableContinues : (l : List α) → Decidable (Continues esc l)
  | [] => inferInstanceAs (Decidable False)
  | [c] => inferInstanceAs (Decidable (c = esc))
  | c :: d :: cs =>
    have := decidableContinues cs
    have := decidableContinues (d :: cs)
    inferInstanceAs (Decidable (if c = esc then Continues esc cs else Continues esc (d :: cs)))

/-- The lines that end at a separator without an escape. -/
def logicalLines (esc sep : α) : List α → List (List α)
  | [] => []
  | [c] => if c = sep then [[]] else []
  | c :: d :: cs =>
    if c = sep then [] :: logicalLines esc sep (d :: cs)
    else if c = esc then
      if d = sep then logicalLines esc sep cs else (logicalLines esc sep cs).modifyHead (d :: ·)
    else (logicalLines esc sep (d :: cs)).modifyHead (c :: ·)

section Unescape

lemma unescape_cons {c : α} (hc : c ≠ esc) (u : List α) : unescape esc (c :: u) = c :: unescape esc u := by
  cases u <;> simp [unescape, hc]

lemma continues_cons {c : α} (hc : c ≠ esc) (u : List α) : Continues esc (c :: u) ↔ Continues esc u := by
  cases u <;> simp [Continues, hc]

lemma unescape_append (hp : esc ∉ p) (u : List α) : unescape esc (p ++ u) = p ++ unescape esc u := by
  induction p with
  | nil => rfl
  | cons c cs ih =>
    rw [List.mem_cons, not_or] at hp
    rw [List.cons_append, unescape_cons (Ne.symm hp.1), ih hp.2, List.cons_append]

lemma unescape_of_not_mem (hl : esc ∉ l) : unescape esc l = l := by
  simpa [unescape] using unescape_append hl []

lemma continues_of_not_mem (hl : esc ∉ l) : ¬ Continues esc l := by
  induction l with
  | nil => simp [Continues]
  | cons c cs ih =>
    rw [List.mem_cons, not_or] at hl
    rw [continues_cons (Ne.symm hl.1)]
    exact ih hl.2

lemma mem_of_continues (h : Continues esc l) : esc ∈ l := by
  by_contra hl
  exact continues_of_not_mem hl h

/-- Nothing but escapes is lost. -/
lemma filter_unescape {f : α → Bool} (hf : f esc = false) (l : List α) : (unescape esc l).filter f = l.filter f := by
  induction l using unescape.induct esc with
  | case1 => rfl
  | case2 => simp [unescape, hf]
  | case3 c hc => simp [unescape, hc]
  | case4 d cs ih =>
    simp [unescape, hf, List.filter_cons, ih]
  | case5 c d cs hc ih => simp [unescape, hc, List.filter_cons, ih]

lemma mem_unescape {c : α} (hc : c ≠ esc) : c ∈ unescape esc l ↔ c ∈ l := by
  have hesc : decide (esc ≠ esc) = false := by simp
  have hfilter := filter_unescape (f := fun d => decide (d ≠ esc)) hesc l
  have hmem := congrArg (c ∈ ·) hfilter
  simpa [hc] using hmem

lemma count_unescape_le (l : List α) : (unescape esc l).count esc ≤ l.count esc := by
  induction l using unescape.induct esc with
  | case1 => rfl
  | case2 => simp [unescape]
  | case3 c hc => simp [unescape, hc]
  | case4 d cs ih =>
    simp only [unescape, if_true, List.count_cons, beq_self_eq_true]
    omega
  | case5 c d cs hc ih =>
    rw [unescape, if_neg hc, List.count_cons, List.count_cons (l := d :: cs)]
    omega

/-- Of some escapes one is lost. -/
lemma count_unescape_lt (hl : esc ∈ l) : (unescape esc l).count esc < l.count esc := by
  induction l using unescape.induct esc with
  | case1 => simp at hl
  | case2 => simp [unescape]
  | case3 c hc => simp [Ne.symm hc] at hl
  | case4 d cs ih =>
    have hle : (unescape esc cs).count esc ≤ cs.count esc := count_unescape_le cs
    simp only [unescape, if_true, List.count_cons, beq_self_eq_true]
    omega
  | case5 c d cs hc ih =>
    have hlt := ih (by simpa [Ne.symm hc] using hl)
    rw [unescape, if_neg hc, List.count_cons, List.count_cons (l := d :: cs)]
    omega

end Unescape

section Lines

@[simp] lemma logicalLines_nil : logicalLines esc sep [] = [] := rfl

@[simp] lemma logicalLines_sep_cons (u : List α) : logicalLines esc sep (sep :: u) = [] :: logicalLines esc sep u := by
  cases u <;> simp [logicalLines]

lemma logicalLines_cons {c : α} (hsep : c ≠ sep) (hesc : c ≠ esc) (u : List α) :
    logicalLines esc sep (c :: u) = (logicalLines esc sep u).modifyHead (c :: ·) := by
  cases u <;> simp [logicalLines, hsep, hesc]

lemma logicalLines_esc_sep (hne : esc ≠ sep) (u : List α) :
    logicalLines esc sep (esc :: sep :: u) = logicalLines esc sep u := by
  simp [logicalLines, hne]

lemma logicalLines_esc_cons (hne : esc ≠ sep) {c : α} (hc : c ≠ sep) (u : List α) :
    logicalLines esc sep (esc :: c :: u) = (logicalLines esc sep u).modifyHead (c :: ·) := by
  simp [logicalLines, hne, hc]

/-- A line with its separator, which it may escape. -/
lemma logicalLines_line (hne : esc ≠ sep) (hl : sep ∉ l) (u : List α) : logicalLines esc sep (l ++ sep :: u) =
    if Continues esc l then (logicalLines esc sep u).modifyHead (unescape esc l ++ ·)
    else unescape esc l :: logicalLines esc sep u := by
  have hmodify : ∀ (f g : List α → List α) (ls : List (List α)),
      (ls.modifyHead f).modifyHead g = ls.modifyHead (g ∘ f) := by
    intro f g ls
    cases ls <;> rfl
  induction l using unescape.induct esc with
  | case1 => simp [Continues, unescape]
  | case2 =>
    rw [List.singleton_append, logicalLines_esc_sep hne]
    cases logicalLines esc sep u <;> simp [Continues, unescape]
  | case3 c hc =>
    have hsep : c ≠ sep := by simpa [eq_comm] using hl
    rw [List.singleton_append, logicalLines_cons hsep hc]
    simp [Continues, unescape, hc]
  | case4 d cs ih =>
    simp only [List.mem_cons, not_or] at hl
    rw [List.cons_append, List.cons_append, logicalLines_esc_cons hne (Ne.symm hl.2.1), ih hl.2.2]
    simp only [Continues, unescape, if_true]
    split_ifs
    · rw [hmodify]
      rfl
    · rfl
  | case5 c d cs hc ih =>
    rw [List.mem_cons, not_or] at hl
    rw [List.cons_append, logicalLines_cons (Ne.symm hl.1) hc, ih hl.2]
    simp only [Continues, unescape, if_neg hc]
    split_ifs
    · rw [hmodify]
      rfl
    · rfl

/-- What has no separator is no line yet. -/
lemma logicalLines_unended (hl : sep ∉ l) : logicalLines esc sep l = [] := by
  induction l using logicalLines.induct esc sep with
  | case1 => rfl
  | case2 => simp at hl
  | case3 c hc => simp [logicalLines, hc]
  | case4 d cs ih => simp at hl
  | case5 cs hsep ih => simp at hl
  | case6 d cs hsep hd ih => simp_all [logicalLines]
  | case7 c d cs hsep hesc ih => simp_all [logicalLines]

end Lines

end Text
