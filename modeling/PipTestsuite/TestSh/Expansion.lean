import PipTestsuite.Lib.Glob
import PipTestsuite.Lib.Text
import PipTestsuite.TestSh.Run

/-! The words that a parameter without quotes is split and expanded to. -/
namespace PipTestsuite.TestSh
open Text Glob

/-- The characters of the default $IFS. -/
def isBlank (c : Char) : Bool := c = ' ' ∨ c = '\t' ∨ c = '\n'

lemma isBlank_iff {c : Char} : isBlank c = true ↔ c = ' ' ∨ c = '\t' ∨ c = '\n' := decide_eq_true_iff

/-- Pathname expansion of one word, where the shell runs; no file has a name of two lines. -/
structure Globbing where
  expand : Word → List Word
  expand_ne_nil : ∀ w, expand w ≠ []
  plain : ∀ w, (∀ c ∈ w, c ∉ ['*', '?', '[', '\\']) → expand w = [w]
  oneLine : ∀ w, '\n' ∉ w → ∀ v ∈ expand w, '\n' ∉ v

/-- What an unquoted parameter with this value is split and expanded to. -/
def Globbing.unquoted (g : Globbing) (value : Word) : List Word := (words isBlank value).flatMap g.expand

/-- A character that stands for itself in any pattern. -/
def isOrdinary (c : Char) : Bool := c ∉ ['*', '?', '[', '\\']

lemma not_special {c : Char} (h : isOrdinary c = true) : c ∉ ['*', '?', '['] := by
  have hnot : c ∉ ['*', '?', '[', '\\'] := of_decide_eq_true h
  simp only [List.mem_cons, List.not_mem_nil, or_false, not_or] at hnot ⊢
  exact ⟨hnot.1, hnot.2.1, hnot.2.2.1⟩

/-- What a bracket expression with a text contains. -/
abbrev Locale := Word → Char → Bool

/-- Pathname expansion as shells do it: there are some files, and those that match a word take its place, if any does.
What backslashes in it do is left open, but that no ordinary character in front changes. -/
structure Globbing.Sound (locale : Locale) (g : Globbing) : Prop where
  nodup : ∀ w, (g.expand w).Nodup
  files : ∃ files : Set Word, ∀ w, '\\' ∉ w → (∀ v, v ∈ g.expand w ↔ v ∈ files ∧ Matches locale w v) ∨
    (∀ v ∈ files, ¬ Matches locale w v) ∧ g.expand w = [w]
  first : ∀ c u, isOrdinary c → ∀ v ∈ g.expand (c :: u), v.head? = some c

/-- No file matches a pattern. -/
def noFiles : Globbing where
  expand w := [w]
  expand_ne_nil := by simp
  plain := by simp
  oneLine := by
    intro w h v hv
    rwa [List.mem_singleton.mp hv]

lemma noFiles_sound (locale : Locale) : noFiles.Sound locale where
  nodup _ := List.nodup_singleton _
  files := ⟨∅, fun w _ => .inr ⟨by simp, rfl⟩⟩
  first := by
    intro c u _ v hv
    rw [List.mem_singleton.mp hv]
    rfl

@[simp] lemma unquoted_noFiles (value : Word) : noFiles.unquoted value = words isBlank value := by
  simp [Globbing.unquoted, noFiles]

section Sound
variable {locale : Locale} {g : Globbing} {w f : Word}

/-- Only patterns are replaced. -/
lemma Globbing.Sound.expand_eq (hg : g.Sound locale) (hline : '\n' ∉ w) (hback : '\\' ∉ w)
    (hw : ¬ IsPattern locale w) : g.expand w = [w] := by
  obtain ⟨files, hfiles⟩ := hg.files
  obtain hmatch | ⟨-, hself⟩ := hfiles w hback
  · have hall : ∀ v ∈ g.expand w, v = w := by
      intro v hv
      by_contra hne
      exact hw ⟨v, hne, g.oneLine w hline v hv, ((hmatch v).mp hv).2⟩
    rw [List.eq_replicate_of_mem hall]
    have hlen : (g.expand w).length = 1 := by
      have hpos := List.length_pos_iff.mpr (g.expand_ne_nil w)
      have hnodup := hg.nodup w
      rw [List.eq_replicate_of_mem hall, List.nodup_replicate] at hnodup
      omega
    rw [hlen]
    rfl
  · exact hself

lemma unquoted_ordinary (hg : g.Sound locale) {value : Word}
    (h : ∀ w ∈ words isBlank value, ¬ IsPattern locale w ∧ '\\' ∉ w) : g.unquoted value = words isBlank value := by
  have hexpand : ∀ w ∈ words isBlank value, g.expand w = [w] := by
    intro w hw
    have hline : '\n' ∉ w := fun hc => by simpa [isBlank] using blank_of_mem_words hw _ hc
    exact hg.expand_eq hline (h w hw).2 (h w hw).1
  rw [Globbing.unquoted, List.flatMap_congr hexpand, List.flatMap_singleton']

/-- There is one file. -/
def singleFile (locale : Locale) (f : Word) (hf : '\n' ∉ f) : Globbing where
  expand w := if '\\' ∉ w ∧ Matches locale w f then [f] else [w]
  expand_ne_nil w := by split_ifs <;> simp
  plain w hw := by
    split_ifs with hmatch
    · rw [(matches_ordinary fun c hc => not_special (decide_eq_true (hw c hc))).mp hmatch.2]
    · rfl
  oneLine w hw v hv := by
    split_ifs at hv
    · rwa [List.mem_singleton.mp hv]
    · rwa [List.mem_singleton.mp hv]

lemma singleFile_sound (locale : Locale) (hf : '\n' ∉ f) : (singleFile locale f hf).Sound locale where
  nodup w := by
    simp only [singleFile]
    split_ifs <;> simp
  files := by
    refine ⟨{f}, fun w hw => ?_⟩
    by_cases hmatch : Matches locale w f
    · left
      intro v
      have hexpand : (singleFile locale f hf).expand w = [f] := if_pos ⟨hw, hmatch⟩
      rw [hexpand, List.mem_singleton, Set.mem_singleton_iff]
      constructor
      · rintro rfl
        exact ⟨rfl, hmatch⟩
      · exact And.left
    · right
      exact ⟨by simpa using hmatch, if_neg fun h => hmatch h.2⟩
  first := by
    intro c u hc v hv
    simp only [singleFile] at hv
    split_ifs at hv with hmatch
    · obtain ⟨u', rfl⟩ := matches_append (p := [c]) (w := u) (by simpa using not_special hc) hmatch.2
      rw [List.mem_singleton.mp hv]
      rfl
    · rw [List.mem_singleton.mp hv]
      rfl

end Sound

lemma unquoted_oneLine (g : Globbing) (value : Word) : ∀ a ∈ g.unquoted value, '\n' ∉ a := by
  intro a ha
  obtain ⟨w, hw, ha⟩ := List.mem_flatMap.mp ha
  have hline : '\n' ∉ w := fun hc => by simpa [isBlank] using blank_of_mem_words hw _ hc
  exact g.oneLine w hline a ha

end PipTestsuite.TestSh
