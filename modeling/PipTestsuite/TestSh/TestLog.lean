import PipTestsuite.TestSh.Expansion

/-! The text that one executed pair adds to test.log, and the result records in it. -/
namespace PipTestsuite.TestSh
open RotatingLog Text

def logBeg : Word := "=== ============================================================ ====".toList
def logSep : Word := "--- ------------------------------------------------------------ ----".toList

/-- A line of date, with the stamp in place of the time. -/
def dateLine (label : Word) (stamp : ℕ) : Word := label ++ Nat.toDigits 10 stamp ++ ['\n']

/-- The bytes of an output as characters of the log. -/
def ofBytes (out : List UInt8) : Word := out.map fun b => Char.ofNat b.toNat

/-- [ -s file ], a headline, and cat -/
def catOutput (headline : Word) (out : List UInt8) : Word :=
  if out = [] then [] else headline ++ '\n' :: ofBytes out

/-- printf "@:= %s %s\n", which takes its format again as long as there are arguments; there is always one. -/
def printfRecord : List Word → Word
  | [] => []
  | [a] => "@:= ".toList ++ a ++ [' ', '\n']
  | a :: b :: args => "@:= ".toList ++ a ++ ' ' :: b ++ '\n' :: printfRecord args

lemma printfRecord_nil : printfRecord [] = [] := rfl

lemma printfRecord_one (a : Word) : printfRecord [a] = "@:= ".toList ++ a ++ [' ', '\n'] := rfl

lemma printfRecord_two (a b : Word) (args : List Word) :
    printfRecord (a :: b :: args) = "@:= ".toList ++ a ++ ' ' :: b ++ '\n' :: printfRecord args := rfl

def startText (stamp : ℕ) (cmd modeName : Word) : Word :=
  logBeg ++ '\n' :: ("--- ".toList ++ cmd ++ " PIP_MODE=".toList ++ modeName ++ '\n' ::
    (logSep ++ '\n' :: dateLine "@@_ start at ".toList stamp))

def resultText (g : Globbing) (stamp : ℕ) (cmd msg : Word) (stdout stderr time : List UInt8) : Word :=
  catOutput "@@:stdout".toList stdout ++ (catOutput "@@:stderr".toList stderr ++ (catOutput "@@:time".toList time ++
    (dateLine "@@~  end  at ".toList stamp ++ (logSep ++ '\n' :: printfRecord (g.unquoted cmd ++ [msg])))))

variable {Dir : Type*}

/-- All that the log gets for one execution. -/
def block (g : Globbing) (e : Exec Dir) : Word :=
  startText e.stamp e.cmd (pipModeName e.mode) ++
    resultText g e.stamp e.cmd e.verdict e.outcome.stdout e.outcome.stderr e.outcome.time

def IsRecord (line : Word) : Prop := "@:=".toList <+: line

instance : DecidablePred IsRecord := fun line => inferInstanceAs (Decidable ("@:=".toList <+: line))

/-- The lines of a text that start with @:=. -/
def records (text : Word) : List Word := (lines '\n' text).filter IsRecord

/-- The record that a reader expects. -/
def Exec.record (e : Exec Dir) : Word := "@:= ".toList ++ e.cmd ++ ' ' :: e.verdict

/-- Each block has just the record of its pair, and so has the log. -/
structure LogReads (g : Exec Dir → Globbing) (es : List (Exec Dir)) : Prop where
  blocks : ∀ e ∈ es, records (block (g e) e) = [e.record]
  log : records (es.flatMap fun e => block (g e) e) = es.map Exec.record

/-- $CMD is one word that is left as it is, and no line of the outputs looks like a record. -/
structure Readable (g : Globbing) (e : Exec Dir) : Prop where
  oneLine : '\n' ∉ e.cmd
  oneWord : g.unquoted e.cmd = [e.cmd]
  outputs : ∀ out ∈ [e.outcome.stdout, e.outcome.stderr, e.outcome.time], records (ofBytes out) = []

section Records
variable {l t u : Word}

@[simp] lemma records_nil : records [] = [] := rfl

lemma records_line (hl : '\n' ∉ l) (u : Word) :
    records (l ++ '\n' :: u) = (if IsRecord l then [l] else []) ++ records u := by
  rw [records, lines_line_append hl, List.filter_cons, records]
  split_ifs <;> simp_all

lemma records_append (ht : Terminated '\n' t) (u : Word) : records (t ++ u) = records t ++ records u := by
  rw [records, lines_append_of_terminated ht, List.filter_append, records, records]

/-- A line that starts like no record. -/
lemma records_other_line (hl : '\n' ∉ l) (hrecord : ¬ IsRecord l) (u : Word) : records (l ++ '\n' :: u) = records u := by
  rw [records_line hl, if_neg hrecord, List.nil_append]

lemma records_logBeg (u : Word) : records (logBeg ++ '\n' :: u) = records u :=
  records_other_line (by decide) (by decide) u

lemma records_logSep (u : Word) : records (logSep ++ '\n' :: u) = records u :=
  records_other_line (by decide) (by decide) u

/-- A line that stands before an output or behind all of them. -/
def IsHeadline (l : Word) : Prop := "@@".toList <+: l ∧ '\n' ∉ l

instance : DecidablePred IsHeadline := fun l => inferInstanceAs (Decidable ("@@".toList <+: l ∧ '\n' ∉ l))

def Headed (t : Word) : Prop := ∃ l u, t = l ++ '\n' :: u ∧ IsHeadline l

lemma IsHeadline.not_isRecord (h : IsHeadline l) : ¬ IsRecord l := by
  obtain ⟨⟨l, rfl⟩, -⟩ := h
  simp [IsRecord, List.cons_prefix_cons]

lemma IsHeadline.append (h : IsHeadline l) (hu : '\n' ∉ u) : IsHeadline (l ++ u) :=
  ⟨h.1.trans (List.prefix_append l u), by simp [h.2, hu]⟩

/-- What an output has left of its last line stands before the next headline. -/
lemma isRecord_append (p : Word) (h : IsHeadline l) : IsRecord (p ++ l) ↔ IsRecord p := by
  obtain ⟨⟨l, rfl⟩, -⟩ := h
  rcases p with _ | ⟨a, _ | ⟨b, _ | ⟨c, p⟩⟩⟩ <;> simp [IsRecord, List.cons_prefix_cons]

/-- An output has, up to the next headline, as many records as it has alone. -/
lemma records_output (out : Word) (ht : Headed t) :
    ∃ r, records (out ++ t) = r ++ records t ∧ (r = [] ↔ records out = []) := by
  obtain ⟨l, u, rfl, hl⟩ := ht
  obtain ⟨s, p, rfl, hs, hp⟩ := exists_terminated_append '\n' out
  have hline : '\n' ∉ p ++ l := by simp [hp, hl.2]
  have hhead : records (l ++ '\n' :: u) = records u := records_other_line hl.2 hl.not_isRecord u
  have hout : records (s ++ p) = records s ++ if IsRecord p then [p] else [] := by
    rw [records_append hs]
    congr 1
    obtain rfl | hne := eq_or_ne p []
    · simp [IsRecord]
    · rw [records, lines_single hp hne, List.filter_singleton]
      simp
  refine ⟨records s ++ if IsRecord p then [p ++ l] else [], ?_, ?_⟩
  · have hsplit : s ++ p ++ (l ++ '\n' :: u) = s ++ ((p ++ l) ++ '\n' :: u) := by simp
    rw [hsplit, records_append hs, records_line hline, List.append_assoc, hhead]
    simp only [isRecord_append p hl]
  · rw [hout]
    split_ifs <;> simp

lemma headed_cat {headline : Word} (hh : IsHeadline headline) (out : List UInt8) (ht : Headed t) :
    Headed (catOutput headline out ++ t) := by
  unfold catOutput
  split_ifs
  · exact ht
  · exact ⟨headline, ofBytes out ++ t, by simp, hh⟩

/-- An output with its headline, up to the next one. -/
lemma records_cat {headline : Word} (hh : IsHeadline headline) (out : List UInt8) (ht : Headed t) :
    ∃ r, records (catOutput headline out ++ t) = r ++ records t ∧ (r = [] ↔ records (ofBytes out) = []) := by
  unfold catOutput
  split_ifs with hout
  · exact ⟨[], rfl, by simp [hout, ofBytes]⟩
  · obtain ⟨r, hr, hr'⟩ := records_output (ofBytes out) ht
    refine ⟨r, ?_, hr'⟩
    rw [List.append_assoc, List.cons_append, records_other_line hh.2 hh.not_isRecord, hr]

lemma toDigits_oneLine (n : ℕ) : '\n' ∉ Nat.toDigits 10 n := by
  intro h
  have hdigit := Nat.isDigit_of_mem_toDigits (by decide) (by decide) h
  revert hdigit
  decide

lemma isHeadline_date {label : Word} (hlabel : IsHeadline label) (stamp : ℕ) :
    IsHeadline (label ++ Nat.toDigits 10 stamp) := hlabel.append (toDigits_oneLine stamp)

lemma dateLine_append (label : Word) (stamp : ℕ) (u : Word) :
    dateLine label stamp ++ u = label ++ Nat.toDigits 10 stamp ++ '\n' :: u := by
  simp [dateLine]

lemma headed_date {label : Word} (hlabel : IsHeadline label) (stamp : ℕ) (u : Word) :
    Headed (dateLine label stamp ++ u) := ⟨_, u, dateLine_append label stamp u, isHeadline_date hlabel stamp⟩

lemma records_date {label : Word} (hlabel : IsHeadline label) (stamp : ℕ) (u : Word) :
    records (dateLine label stamp ++ u) = records u := by
  have hline := isHeadline_date hlabel stamp
  rw [dateLine_append, records_other_line hline.2 hline.not_isRecord]

lemma records_startText {cmd modeName : Word} (hcmd : '\n' ∉ cmd) (hmode : '\n' ∉ modeName) (stamp : ℕ) (u : Word) :
    records (startText stamp cmd modeName ++ u) = records u := by
  have hline : '\n' ∉ "--- ".toList ++ cmd ++ " PIP_MODE=".toList ++ modeName := by
    simp [hcmd, hmode]
  have hrecord : ¬ IsRecord ("--- ".toList ++ cmd ++ " PIP_MODE=".toList ++ modeName) := by
    simp [IsRecord, List.cons_prefix_cons]
  have hsplit : startText stamp cmd modeName ++ u = logBeg ++ '\n' ::
      (("--- ".toList ++ cmd ++ " PIP_MODE=".toList ++ modeName) ++ '\n' ::
        (logSep ++ '\n' :: (dateLine "@@_ start at ".toList stamp ++ u))) := by
    simp only [startText, List.append_assoc, List.cons_append]
  calc records (startText stamp cmd modeName ++ u)
      = records (("--- ".toList ++ cmd ++ " PIP_MODE=".toList ++ modeName) ++ '\n' ::
          (logSep ++ '\n' :: (dateLine "@@_ start at ".toList stamp ++ u))) := by
        rw [hsplit, records_logBeg]
    _ = records (dateLine "@@_ start at ".toList stamp ++ u) := by
        rw [records_other_line hline hrecord, records_logSep]
    _ = records u := records_date (by decide) stamp u

/-- The outputs may have records of their own; behind them there are those of printf. -/
lemma records_resultText (g : Globbing) (stamp : ℕ) (cmd msg : Word) (stdout stderr time : List UInt8) :
    ∃ r, records (resultText g stamp cmd msg stdout stderr time) = r ++ records (printfRecord (g.unquoted cmd ++ [msg])) ∧
      (r = [] ↔ ∀ out ∈ [stdout, stderr, time], records (ofBytes out) = []) := by
  have hstdout : IsHeadline "@@:stdout".toList := by decide
  have hstderr : IsHeadline "@@:stderr".toList := by decide
  have htime : IsHeadline "@@:time".toList := by decide
  have hdate := headed_date (by decide : IsHeadline "@@~  end  at ".toList) stamp
    (logSep ++ '\n' :: printfRecord (g.unquoted cmd ++ [msg]))
  obtain ⟨r₃, h₃, h₃'⟩ := records_cat htime time hdate
  obtain ⟨r₂, h₂, h₂'⟩ := records_cat hstderr stderr (headed_cat htime time hdate)
  obtain ⟨r₁, h₁, h₁'⟩ := records_cat hstdout stdout (headed_cat hstderr stderr (headed_cat htime time hdate))
  have hend : records (dateLine "@@~  end  at ".toList stamp ++ (logSep ++ '\n' :: printfRecord (g.unquoted cmd ++ [msg]))) =
      records (printfRecord (g.unquoted cmd ++ [msg])) := by
    rw [records_date (by decide), records_logSep]
  refine ⟨r₁ ++ (r₂ ++ r₃), ?_, ?_⟩
  · calc records (resultText g stamp cmd msg stdout stderr time)
        = r₁ ++ (r₂ ++ (r₃ ++ records (printfRecord (g.unquoted cmd ++ [msg])))) := by
          rw [← hend, ← h₃, ← h₂, ← h₁]
          rfl
      _ = r₁ ++ (r₂ ++ r₃) ++ records (printfRecord (g.unquoted cmd ++ [msg])) := by
          rw [List.append_assoc, List.append_assoc]
  · simp only [List.append_eq_nil_iff, h₁', h₂', h₃', List.mem_cons, List.not_mem_nil, or_false, forall_eq_or_imp,
      forall_eq]

/-- One use of the format is a record at least, whatever its arguments are. -/
lemma records_entry (x u : Word) : ∃ l r, records ("@:= ".toList ++ x ++ '\n' :: u) = l :: (r ++ records u) := by
  obtain hx | ⟨l, r, rfl, hl⟩ := line_cases '\n' x
  · refine ⟨"@:= ".toList ++ x, [], ?_⟩
    rw [records_line (by simp [hx]), if_pos (by simp [IsRecord])]
    rfl
  · refine ⟨"@:= ".toList ++ l, records (r ++ ['\n']), ?_⟩
    have hsplit : "@:= ".toList ++ (l ++ '\n' :: r) ++ '\n' :: u = "@:= ".toList ++ l ++ '\n' :: (r ++ ['\n'] ++ u) := by
      simp
    rw [hsplit, records_line (by simp [hl]), if_pos (by simp [IsRecord]), records_append (.inr ⟨r, rfl⟩)]
    rfl

lemma records_printf_ne_nil {args : List Word} (hne : args ≠ []) : records (printfRecord args) ≠ [] := by
  intro hnil
  cases args with
  | nil => exact hne rfl
  | cons a args =>
    have hentry : ∃ x u, printfRecord (a :: args) = "@:= ".toList ++ x ++ '\n' :: u := by
      cases args with
      | nil => exact ⟨a ++ [' '], [], by simp [printfRecord_one]⟩
      | cons b args => exact ⟨a ++ ' ' :: b, printfRecord args, by simp [printfRecord_two]⟩
    obtain ⟨x, u, hxu⟩ := hentry
    obtain ⟨l, r, hlr⟩ := records_entry x u
    rw [hxu, hlr] at hnil
    cases hnil

/-- printf writes one record, and this is the right one, if and only if the command is one word. -/
lemma records_printf_iff {cmd msg : Word} {args : List Word} (hargs : ∀ a ∈ args, '\n' ∉ a) (hmsg : '\n' ∉ msg)
    (hblank : ∃ c m, msg = c :: m ∧ c ≠ ' ') :
    records (printfRecord (args ++ [msg])) = ["@:= ".toList ++ cmd ++ ' ' :: msg] ↔ args = [cmd] := by
  have hline : ∀ l, '\n' ∉ l → records ("@:= ".toList ++ l ++ ['\n']) = ["@:= ".toList ++ l] := by
    intro l hl
    rw [records_line (by simp [hl]), if_pos (by simp [IsRecord])]
    rfl
  rcases args with _ | ⟨a, _ | ⟨b, args⟩⟩
  · have hnil : printfRecord ([] ++ [msg]) = "@:= ".toList ++ (msg ++ [' ']) ++ ['\n'] := by
      simp [printfRecord_one]
    rw [hnil, hline _ (by simp [hmsg])]
    obtain ⟨c, m, rfl, hc⟩ := hblank
    constructor
    · intro h
      have hsame : c :: m ++ [' '] = cmd ++ ' ' :: c :: m := by simpa using h
      have hlen := congrArg List.length hsame
      simp only [List.length_append, List.length_cons, List.length_nil] at hlen
      have hcmd : cmd = [] := List.eq_nil_of_length_eq_zero (by omega)
      rw [hcmd] at hsame
      exact absurd (List.cons.inj hsame).1 hc
    · intro h
      cases h
  · have hone : printfRecord ([a] ++ [msg]) = "@:= ".toList ++ (a ++ ' ' :: msg) ++ ['\n'] := by
      simp [printfRecord_two, printfRecord_nil]
    rw [hone, hline _ (by simp [hargs a (by simp), hmsg])]
    constructor
    · intro h
      have hsame : a ++ ' ' :: msg = cmd ++ ' ' :: msg := by simpa using h
      rw [List.append_cancel_right hsame]
    · intro h
      rw [(List.cons.inj h).1, List.append_assoc]
  · have hmany : printfRecord (a :: b :: args ++ [msg]) =
        "@:= ".toList ++ (a ++ ' ' :: b) ++ '\n' :: printfRecord (args ++ [msg]) := by
      simp [printfRecord_two]
    obtain ⟨l, r, hlr⟩ := records_entry (a ++ ' ' :: b) (printfRecord (args ++ [msg]))
    have hrest : records (printfRecord (args ++ [msg])) ≠ [] := records_printf_ne_nil (by simp)
    rw [hmany, hlr]
    constructor
    · intro h
      have hnil := (List.cons.inj h).2
      exact absurd (List.append_eq_nil_iff.mp hnil).2 hrest
    · intro h
      cases h

lemma verdict_cases (e : Exec Dir) :
    e.verdict = e.status.name ∨ e.verdict = "exit status ".toList ++ Nat.toDigits 10 e.outcome.exitStatus := by
  unfold Exec.verdict Exec.msg
  split_ifs <;> simp_all

lemma verdict_oneLine (e : Exec Dir) : '\n' ∉ e.verdict := by
  obtain h | h := verdict_cases e <;> rw [h]
  · cases e.status <;> decide
  · simp [toDigits_oneLine]

lemma verdict_head (e : Exec Dir) : ∃ c m, e.verdict = c :: m ∧ c ≠ ' ' := by
  obtain h | h := verdict_cases e <;> rw [h]
  · cases e.status <;> exact ⟨_, _, rfl, by decide⟩
  · exact ⟨'e', _, rfl, by decide⟩

/-- Only a command without a line break can have its record. -/
lemma block_readable_iff (g : Globbing) (e : Exec Dir) : records (block g e) = [e.record] ↔ Readable g e := by
  have hmode : '\n' ∉ pipModeName e.mode := by cases e.mode <;> decide
  by_cases hcmd : '\n' ∈ e.cmd
  · refine iff_of_false (fun h => ?_) (fun h => h.oneLine hcmd)
    have hmem : e.record ∈ records (block g e) := by
      rw [h]
      exact List.mem_singleton_self _
    have hline := not_mem_of_mem_lines (List.mem_filter.mp hmem).1
    exact absurd (List.mem_append_left _ (List.mem_append_right _ hcmd)) hline
  obtain ⟨r, hr, hr'⟩ := records_resultText g e.stamp e.cmd e.verdict e.outcome.stdout e.outcome.stderr e.outcome.time
  have hprintf : records (printfRecord (g.unquoted e.cmd ++ [e.verdict])) = [e.record] ↔ g.unquoted e.cmd = [e.cmd] :=
    records_printf_iff (unquoted_oneLine g e.cmd) (verdict_oneLine e) (verdict_head e)
  have hne : records (printfRecord (g.unquoted e.cmd ++ [e.verdict])) ≠ [] := records_printf_ne_nil (by simp)
  rw [block, records_startText hcmd hmode, hr]
  constructor
  · intro h
    have hnil : r = [] := by
      by_contra hr
      have hlen := congrArg List.length h
      have hpos := List.length_pos_of_ne_nil hr
      have hpos' := List.length_pos_of_ne_nil hne
      rw [List.length_append, List.length_singleton] at hlen
      omega
    rw [hnil, List.nil_append] at h
    exact ⟨hcmd, hprintf.mp h, hr'.mp hnil⟩
  · intro h
    rw [hr'.mpr h.outputs, List.nil_append]
    exact hprintf.mpr h.oneWord

lemma printfRecord_terminated (args : List Word) : Terminated '\n' (printfRecord args) := by
  induction args using printfRecord.induct with
  | case1 => exact .inl rfl
  | case2 a => exact .inr ⟨"@:= ".toList ++ a ++ [' '], by simp [printfRecord_one]⟩
  | case3 a b args ih =>
    obtain h | ⟨s, h⟩ := ih
    · exact .inr ⟨"@:= ".toList ++ a ++ ' ' :: b, by simp [printfRecord_two, h]⟩
    · exact .inr ⟨"@:= ".toList ++ a ++ ' ' :: b ++ '\n' :: s, by simp [printfRecord_two, h]⟩

/-- What ends with a line of its own ends so behind any text. -/
lemma terminated_append {s : Word} (h : Terminated '\n' t ∧ t ≠ []) : Terminated '\n' (s ++ t) ∧ s ++ t ≠ [] := by
  obtain ⟨h | ⟨t, rfl⟩, hne⟩ := h
  · exact absurd h hne
  · exact ⟨.inr ⟨s ++ t, by simp⟩, by simp⟩

lemma block_terminated (g : Globbing) (e : Exec Dir) : Terminated '\n' (block g e) := by
  have hprintf : Terminated '\n' (printfRecord (g.unquoted e.cmd ++ [e.verdict])) ∧
      printfRecord (g.unquoted e.cmd ++ [e.verdict]) ≠ [] := by
    refine ⟨printfRecord_terminated _, fun hnil => ?_⟩
    have hne : records (printfRecord (g.unquoted e.cmd ++ [e.verdict])) ≠ [] := records_printf_ne_nil (by simp)
    rw [hnil] at hne
    exact hne rfl
  have hresult : Terminated '\n' (resultText g e.stamp e.cmd e.verdict e.outcome.stdout e.outcome.stderr e.outcome.time) ∧
      resultText g e.stamp e.cmd e.verdict e.outcome.stdout e.outcome.stderr e.outcome.time ≠ [] := by
    unfold resultText
    iterate 5 apply terminated_append
    exact terminated_append (s := ['\n']) hprintf
  exact (terminated_append hresult).1

end Records

variable {Dir : Type*}

/-- Exactly when each command is one word and its outputs have no records. -/
theorem log_reads_iff (g : Exec Dir → Globbing) (es : List (Exec Dir)) :
    LogReads g es ↔ ∀ e ∈ es, Readable (g e) e := by
  constructor
  · intro h e he
    exact (block_readable_iff (g e) e).mp (h.blocks e he)
  · intro h
    have hblocks : ∀ e ∈ es, records (block (g e) e) = [e.record] := fun e he => (block_readable_iff (g e) e).mpr (h e he)
    refine ⟨hblocks, ?_⟩
    induction es with
    | nil => rfl
    | cons e es ih =>
      rw [List.flatMap_cons, records_append (block_terminated (g e) e), hblocks e List.mem_cons_self, List.map_cons,
        ih (fun e he => h e (List.mem_cons_of_mem _ he)) (fun e he => hblocks e (List.mem_cons_of_mem _ he))]
      rfl

/-- A command of two words that passes. -/
theorem record_torn : ¬ ∀ (g : Exec ℕ → Globbing) (es : List (Exec ℕ)), LogReads g es := by
  intro h
  have hblock := (h (fun _ => noFiles) [⟨0, 0, [], ["seek".toList, "file".toList], .L, { exitStatus := 0 }⟩]).blocks _
    (List.mem_singleton_self _)
  revert hblock
  decide

end PipTestsuite.TestSh
