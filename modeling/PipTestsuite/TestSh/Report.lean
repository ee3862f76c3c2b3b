import PipTestsuite.Lib.Xml
import PipTestsuite.TestSh.TestLog
import PipTestsuite.TestSh.TotalTime

/-! The XML report of a run, as a document. -/
namespace PipTestsuite.TestSh
open RotatingLog Xml

/-- What the case statement on $status prints. -/
def statusText (status : Status) (msg : Word) : Word :=
  match status with
  | .pass | .xpass => []
  | .fail => "    <failure type=\"".toList ++ status.name ++ "\"/>\n".toList
  | .xfail | .untested | .unsupported => "    <skipped/>\n".toList
  | .unresolved | .killed =>
    "    <error type=\"".toList ++ status.name ++ "\"".toList ++
      (if msg = [] then [] else " message=\"".toList ++ msg ++ "\"".toList) ++ "/>\n".toList

/-- [ -s file ], and the output as it is. -/
def outputText (name : Word) (out : List UInt8) : Word :=
  if out = [] then []
  else "    <".toList ++ name ++ "><![CDATA[".toList ++ ofBytes out ++ "]]></".toList ++ name ++ ">\n".toList

/-- The text of a part of the report. -/
def XmlPart.text : XmlPart → Word
  | .testsuite => "<testsuite>\n".toList
  | .testcase cmd modeName time status msg stdout stderr =>
    "  <testcase classname=\"PIP\" name=\"".toList ++ cmd ++ " - ".toList ++ modeName ++ "\" time=\"".toList ++
      Nat.toDigits 10 time ++ "\">\n".toList ++ statusText status msg ++ outputText "system-out".toList stdout ++
      outputText "system-err".toList stderr ++ "  </testcase>\n".toList
  | .endTestsuite => "</testsuite>\n".toList

variable {Dir : Type*}

def Exec.xmlPart (e : Exec Dir) : XmlPart :=
  .testcase e.cmd (pipModeName e.mode) e.outcome.seconds e.status e.msg e.outcome.stdout e.outcome.stderr

/-- What a testcase element should say about an executed pair. -/
structure Describes (n : Node) (e : Exec Dir) : Prop where
  name : n.name? = some "testcase".toList
  pair : n.valueOf "name".toList = some (e.cmd ++ " - ".toList ++ pipModeName e.mode)
  stdout : n.textOf "system-out".toList = ofBytes e.outcome.stdout
  stderr : n.textOf "system-err".toList = ofBytes e.outcome.stderr

/-- A well-formed document with one testsuite, which describes just these executions. -/
def Reports (doc : Word) (es : List (Exec Dir)) : Prop :=
  ∃ root : Node, Document doc root ∧ root.name? = some "testsuite".toList ∧ List.Forall₂ Describes root.children es

/-- Nothing in the texts of a pair is markup, is normalised, or is not allowed at all. -/
structure PlainPair (e : Exec Dir) : Prop where
  cmd : e.cmd.all fun c => isChar c && isPlain c
  outputs : ∀ out ∈ [e.outcome.stdout, e.outcome.stderr],
    (ofBytes out).all isKept ∧ CData (ofBytes out)

instance (e : Exec Dir) : Decidable (PlainPair e) :=
  decidable_of_iff ((e.cmd.all fun c => isChar c && isPlain c) ∧ ∀ out ∈ [e.outcome.stdout, e.outcome.stderr],
    (ofBytes out).all isKept ∧ CData (ofBytes out)) ⟨fun h => ⟨h.1, h.2⟩, fun h => ⟨h.cmd, h.outputs⟩⟩

section Elements
variable {e : Exec Dir}

def two : Word := "  ".toList
def four : Word := "    ".toList

/-- What statusText prints, as elements. -/
def statusItems (status : Status) (msg : Word) : List (Word × Node) :=
  match status with
  | .pass | .xpass => []
  | .fail => [emptyItem "failure".toList [("type".toList, status.name)]]
  | .xfail | .untested | .unsupported => [emptyItem "skipped".toList []]
  | .unresolved | .killed =>
    [emptyItem "error".toList (("type".toList, status.name) :: if msg = [] then [] else [("message".toList, msg)])]

/-- What outputText prints, as elements. -/
def outputItems (name : Word) (out : List UInt8) : List (Word × Node) :=
  if out = [] then [] else [cdataItem name (ofBytes out)]

def testcaseItems (e : Exec Dir) : List (Word × Node) :=
  statusItems e.status e.msg ++ outputItems "system-out".toList e.outcome.stdout ++
    outputItems "system-err".toList e.outcome.stderr

def testcaseAttributes (e : Exec Dir) : List (Word × Word) :=
  [("classname".toList, "PIP".toList), ("name".toList, e.cmd ++ " - ".toList ++ pipModeName e.mode),
    ("time".toList, Nat.toDigits 10 e.outcome.seconds)]

def testcaseElement (e : Exec Dir) : Word :=
  fullElement (tagText "testcase".toList (testcaseAttributes e)) "testcase".toList
    ('\n' :: linesOf four (testcaseItems e) ++ two) []

def otherStatuses : List Status := [.pass, .xpass, .fail, .xfail, .untested, .unsupported]

lemma error_or_other (status : Status) : (status = .unresolved ∨ status = .killed) ∨ status ∈ otherStatuses := by
  cases status <;> decide

lemma statusText_error {status : Status} (h : status = .unresolved ∨ status = .killed) (msg : Word) :
    statusText status msg = "    <error type=\"".toList ++ status.name ++ "\"".toList ++
      (if msg = [] then [] else " message=\"".toList ++ msg ++ "\"".toList) ++ "/>\n".toList := by
  obtain rfl | rfl := h <;> rfl

lemma statusItems_error {status : Status} (h : status = .unresolved ∨ status = .killed) (msg : Word) :
    statusItems status msg = [emptyItem "error".toList (("type".toList, status.name) ::
      if msg = [] then [] else [("message".toList, msg)])] := by
  obtain rfl | rfl := h <;> rfl

/-- Only errors tell the message. -/
lemma status_other {status : Status} (h : status ∈ otherStatuses) (msg : Word) :
    statusText status msg = statusText status [] ∧ statusItems status msg = statusItems status [] := by
  simp only [otherStatuses, List.mem_cons, List.not_mem_nil, or_false] at h
  obtain rfl | rfl | rfl | rfl | rfl | rfl := h <;> exact ⟨rfl, rfl⟩

lemma statusText_eq (status : Status) (msg : Word) : statusText status msg = linesOf four (statusItems status msg) := by
  obtain h | h := error_or_other status
  · rw [statusText_error h, statusItems_error h]
    by_cases hmsg : msg = [] <;> simp [hmsg, four, emptyItem, emptyElement, tagText, attributeText]
  · rw [(status_other h msg).1, (status_other h msg).2]
    revert status
    decide

lemma outputText_of_ne_nil (name : Word) {out : List UInt8} (h : out ≠ []) : outputText name out =
    "    <".toList ++ name ++ "><![CDATA[".toList ++ ofBytes out ++ "]]></".toList ++ name ++ ">\n".toList := if_neg h

lemma cdataItem_text (name d : Word) : (cdataItem name d).1 =
    '<' :: name ++ "><![CDATA[".toList ++ d ++ "]]></".toList ++ name ++ ['>'] := by
  have hitem : (cdataItem name d).1 = fullElement name name ("<![CDATA[".toList ++ d ++ "]]>".toList) [] := rfl
  rw [hitem]
  simp [fullElement]

lemma outputText_eq (name : Word) (out : List UInt8) : outputText name out = linesOf four (outputItems name out) := by
  obtain rfl | hne := eq_or_ne out []
  · rfl
  · rw [outputText_of_ne_nil name hne, outputItems, if_neg hne, linesOf_cons, cdataItem_text]
    simp [four]

lemma xmlPart_text (e : Exec Dir) : e.xmlPart.text = "  <testcase classname=\"PIP\" name=\"".toList ++ e.cmd ++
    " - ".toList ++ pipModeName e.mode ++ "\" time=\"".toList ++ Nat.toDigits 10 e.outcome.seconds ++
    "\">\n".toList ++ statusText e.status e.msg ++ outputText "system-out".toList e.outcome.stdout ++
    outputText "system-err".toList e.outcome.stderr ++ "  </testcase>\n".toList := rfl

lemma testcase_text (e : Exec Dir) : e.xmlPart.text = two ++ testcaseElement e ++ ['\n'] := by
  have hattributes : testcaseAttributes e = [("classname".toList, "PIP".toList),
      ("name".toList, e.cmd ++ " - ".toList ++ pipModeName e.mode),
      ("time".toList, Nat.toDigits 10 e.outcome.seconds)] := rfl
  rw [xmlPart_text, statusText_eq, outputText_eq, outputText_eq, testcaseElement, hattributes]
  simp [testcaseItems, fullElement, tagText, attributeText, two]

/-- What holds of the ten digits holds of all characters of a number. -/
lemma toDigits_all {p : Char → Bool} (h : "0123456789".toList.all p) (n : ℕ) : (Nat.toDigits 10 n).all p := by
  rw [List.all_eq_true] at h ⊢
  intro c hc
  have hdigit := Nat.isDigit_of_mem_toDigits (by decide) (by decide) hc
  refine h c ?_
  have hrange : 48 ≤ c.toNat ∧ c.toNat ≤ 57 := by simpa [Char.isDigit, UInt32.le_iff_toNat_le] using hdigit
  obtain ⟨hlow, hhigh⟩ := hrange
  rw [← Char.ofNat_toNat c]
  interval_cases c.toNat <;> decide

lemma plain_name (status : Status) : status.name.all isPlain := by
  cases status <;> decide

lemma plain_toDigits (n : ℕ) : (Nat.toDigits 10 n).all isPlain := toDigits_all (by decide) n

lemma plain_msg (e : Exec Dir) : e.msg.all isPlain := by
  unfold Exec.msg
  split_ifs
  · rfl
  · rw [List.all_append, plain_toDigits]
    decide

lemma plain_modeName (mode : PipMode) : (pipModeName mode).all isPlain := by
  cases mode <;> decide

/-- An element at most, and none of the outputs. -/
lemma statusItems_cases (status : Status) {msg : Word} (hmsg : msg.all isPlain) : statusItems status msg = [] ∨
    ∃ name attributes, statusItems status msg = [emptyItem name attributes] ∧ IsName name ∧
      PlainAttributes attributes ∧ name ∉ ["system-out".toList, "system-err".toList] := by
  have hnames : IsName "type".toList ∧ IsName "message".toList := by decide
  have htype : PlainAttributes [("type".toList, status.name)] :=
    plainAttributes_nil.cons hnames.1 (plain_name status) (by simp)
  have herror : PlainAttributes (("type".toList, status.name) ::
      if msg = [] then [] else [("message".toList, msg)]) := by
    split_ifs
    · exact htype
    · exact (plainAttributes_nil.cons hnames.2 hmsg (by simp)).cons hnames.1 (plain_name status) (by simp)
  have hskipped : PlainAttributes ([] : List (Word × Word)) := plainAttributes_nil
  cases status with
  | pass => exact .inl rfl
  | xpass => exact .inl rfl
  | fail => exact .inr ⟨_, _, rfl, by decide, htype, by decide⟩
  | xfail => exact .inr ⟨_, _, rfl, by decide, hskipped, by decide⟩
  | untested => exact .inr ⟨_, _, rfl, by decide, hskipped, by decide⟩
  | unsupported => exact .inr ⟨_, _, rfl, by decide, hskipped, by decide⟩
  | unresolved => exact .inr ⟨_, _, rfl, by decide, herror, by decide⟩
  | killed => exact .inr ⟨_, _, rfl, by decide, herror, by decide⟩

lemma statusItems_elements (status : Status) {msg : Word} (hmsg : msg.all isPlain) :
    ∀ i ∈ statusItems status msg, Element i.1 i.2 := by
  obtain h | ⟨name, attributes, h, hname, hplain, -⟩ := statusItems_cases status hmsg
  · simp [h]
  · simpa [h] using element_emptyItem hname hplain

lemma textIn_statusItems (status : Status) {msg : Word} (hmsg : msg.all isPlain) {name : Word}
    (hname : name ∈ ["system-out".toList, "system-err".toList]) :
    Node.textIn name ((statusItems status msg).map Prod.snd) = [] := by
  apply Node.textIn_of_forall_ne
  obtain h | ⟨name', attributes, h, -, -, hother⟩ := statusItems_cases status hmsg
  · simp [h]
  · rw [h]
    intro n hn hsame
    rw [List.map_singleton, List.mem_singleton] at hn
    subst hn
    obtain rfl : name' = name := Option.some.inj hsame
    exact hother hname

lemma outputItems_elements {name : Word} (hname : IsName name) {out : List UInt8} (hout : CData (ofBytes out)) :
    ∀ i ∈ outputItems name out, Element i.1 i.2 := by
  unfold outputItems
  split_ifs
  · simp
  · simpa using element_cdataItem hname hout

lemma textIn_outputItems (name : Word) (out : List UInt8) :
    Node.textIn name ((outputItems name out).map Prod.snd) = ofBytes out := by
  unfold outputItems
  split_ifs with h
  · subst h
    rfl
  · exact textIn_cdataItem name (ofBytes out)

lemma textIn_other_outputItems {name name' : Word} (hne : name ≠ name') (out : List UInt8) :
    Node.textIn name' ((outputItems name out).map Prod.snd) = [] := by
  apply Node.textIn_of_forall_ne
  unfold outputItems
  split_ifs
  · simp
  · intro n hn hsame
    rw [List.map_singleton, List.mem_singleton] at hn
    subst hn
    exact hne (Option.some.inj hsame)

lemma plainAttributes_testcase (h : PlainPair e) : PlainAttributes (testcaseAttributes e) := by
  have hnames : IsName "classname".toList ∧ IsName "name".toList ∧ IsName "time".toList := by decide
  have hcmd : e.cmd.all isPlain := by
    have hall := h.cmd
    rw [List.all_eq_true] at hall ⊢
    intro c hc
    exact (Bool.and_eq_true_iff.mp (hall c hc)).2
  have hname : (e.cmd ++ " - ".toList ++ pipModeName e.mode).all isPlain := by
    rw [List.all_append, List.all_append, hcmd, plain_modeName]
    decide
  have htime := plainAttributes_nil.cons hnames.2.2 (plain_toDigits e.outcome.seconds) (by simp)
  have hpair := htime.cons hnames.2.1 hname (by simp)
  exact hpair.cons hnames.1 (by decide : "PIP".toList.all isPlain) (by simp)

/-- A plain pair has an element that describes it. -/
lemma testcaseElement_describes (h : PlainPair e) : ∃ n, Element (testcaseElement e) n ∧ Describes n e := by
  have hmsg := plain_msg e
  have hnames : IsName "testcase".toList ∧ IsName "system-out".toList ∧ IsName "system-err".toList := by decide
  have hitems : ∀ i ∈ testcaseItems e, Element i.1 i.2 := by
    intro i hi
    rw [testcaseItems, List.mem_append, List.mem_append] at hi
    obtain (hi | hi) | hi := hi
    · exact statusItems_elements e.status hmsg i hi
    · exact outputItems_elements hnames.2.1 (h.outputs _ (by simp)).2 i hi
    · exact outputItems_elements hnames.2.2 (h.outputs _ (by simp)).2 i hi
  have hplain := plainAttributes_testcase h
  have hindent : IsSpace four := rfl
  have htail : IsSpace two := rfl
  obtain ⟨ns, hn, hchildren⟩ := element_lines hnames.1 hplain hindent htail hitems
  refine ⟨_, hn, ⟨rfl, rfl, ?_, ?_⟩⟩
  · rw [Node.textOf, hchildren, testcaseItems, List.map_append, List.map_append, Node.textIn_append, Node.textIn_append,
      textIn_statusItems e.status hmsg (by decide), textIn_outputItems, textIn_other_outputItems (by decide)]
    simp
  · rw [Node.textOf, hchildren, testcaseItems, List.map_append, List.map_append, Node.textIn_append, Node.textIn_append,
      textIn_statusItems e.status hmsg (by decide), textIn_outputItems, textIn_other_outputItems (by decide)]
    simp

lemma kept_toDigits (n : ℕ) : (Nat.toDigits 10 n).all isKept := toDigits_all (by decide) n

lemma kept_name (status : Status) : status.name.all isKept := by
  cases status <;> decide

lemma kept_msg (e : Exec Dir) : e.msg.all isKept := by
  unfold Exec.msg
  split_ifs
  · rfl
  · rw [List.all_append, kept_toDigits]
    decide

lemma kept_statusText (status : Status) {msg : Word} (hmsg : msg.all isKept) : (statusText status msg).all isKept := by
  obtain h | h := error_or_other status
  · rw [statusText_error h]
    simp only [List.all_append, kept_name]
    split_ifs
    · decide
    · rw [List.all_append, List.all_append, hmsg]
      decide
  · rw [(status_other h msg).1]
    revert status
    decide

lemma kept_outputText {name : Word} (hname : name.all isKept) {out : List UInt8} (hout : (ofBytes out).all isKept) :
    (outputText name out).all isKept := by
  obtain rfl | hne := eq_or_ne out []
  · rfl
  · rw [outputText_of_ne_nil name hne]
    simp only [List.all_append, hname, hout]
    decide

lemma kept_testcase (h : PlainPair e) : e.xmlPart.text.all isKept := by
  have hcmd : e.cmd.all isKept := by
    have hall := h.cmd
    rw [List.all_eq_true] at hall ⊢
    intro c hc
    obtain ⟨hchar, hplain⟩ := Bool.and_eq_true_iff.mp (hall c hc)
    have hreturn : c ≠ '\r' := by
      rintro rfl
      revert hplain
      decide
    simp [isKept, hchar, hreturn]
  have hmode : (pipModeName e.mode).all isKept := by cases e.mode <;> decide
  have hstdout := kept_outputText (by decide : "system-out".toList.all isKept) (h.outputs e.outcome.stdout (by simp)).1
  have hstderr := kept_outputText (by decide : "system-err".toList.all isKept) (h.outputs e.outcome.stderr (by simp)).1
  rw [xmlPart_text]
  simp only [List.all_append, hcmd, hmode, kept_toDigits, kept_statusText e.status (kept_msg e), hstdout, hstderr]
  decide

lemma testcases_describe {es : List (Exec Dir)} (h : ∀ e ∈ es, PlainPair e) : ∃ items : List (Word × Node),
    (es.map Exec.xmlPart).flatMap XmlPart.text = linesOf two items ∧ (∀ i ∈ items, Element i.1 i.2) ∧
      List.Forall₂ Describes (items.map Prod.snd) es := by
  induction es with
  | nil => exact ⟨[], rfl, by simp, .nil⟩
  | cons e es ih =>
    obtain ⟨he, hes⟩ := List.forall_mem_cons.mp h
    obtain ⟨n, hn, hdescribes⟩ := testcaseElement_describes he
    obtain ⟨items, htext, hitems, hall⟩ := ih hes
    refine ⟨(testcaseElement e, n) :: items, ?_, List.forall_mem_cons.mpr ⟨hn, hitems⟩, .cons hdescribes hall⟩
    rw [List.map_cons, List.flatMap_cons, htext, testcase_text, linesOf_cons]
    simp

/-- The lines of plain pairs, in a document. -/
lemma reports_of_plain {es : List (Exec Dir)} (h : ∀ e ∈ es, PlainPair e) :
    Reports ((XmlPart.testsuite :: (es.map Exec.xmlPart ++ [.endTestsuite])).flatMap XmlPart.text) es := by
  obtain ⟨items, htext, hitems, hall⟩ := testcases_describe h
  have hname : IsName "testsuite".toList := by decide
  have hindent : IsSpace two := rfl
  have htail : IsSpace [] := rfl
  obtain ⟨ns, helement, hchildren⟩ := element_lines hname plainAttributes_nil hindent htail hitems
  have hkept : ((es.map Exec.xmlPart).flatMap XmlPart.text).all isKept := by
    rw [List.all_eq_true]
    intro c hc
    obtain ⟨part, hpart, hmem⟩ := List.mem_flatMap.mp hc
    obtain ⟨e, he, rfl⟩ := List.mem_map.mp hpart
    exact List.all_eq_true.mp (kept_testcase (h e he)) c hmem
  have hdoc : (XmlPart.testsuite :: (es.map Exec.xmlPart ++ [.endTestsuite])).flatMap XmlPart.text =
      "<testsuite>\n".toList ++ ((es.map Exec.xmlPart).flatMap XmlPart.text ++ "</testsuite>\n".toList) := by
    rw [List.flatMap_cons, List.flatMap_append, List.flatMap_singleton]
    rfl
  have hline : "<testsuite>\n".toList ++ ((es.map Exec.xmlPart).flatMap XmlPart.text ++ "</testsuite>\n".toList) =
      fullElement (tagText "testsuite".toList []) "testsuite".toList ('\n' :: linesOf two items ++ []) [] ++
        ['\n'] := by
    rw [htext]
    simp [fullElement, tagText]
  refine ⟨.element "testsuite".toList [] ns, ?_, rfl, ?_⟩
  · rw [hdoc, hline]
    apply document_line helement
    rw [← hline, List.all_append, List.all_append, hkept]
    decide
  · rw [hchildren]
    exact hall

end Elements

/-- The files that the redirections to $TEST_LOG_XML open: at the start of the top level, behind each pair, and at its
end. They may differ where the name is relative or is not left as it is. -/
structure Redirections (Dir File : Type*) where
  opening : Option File
  testcase : Exec Dir → Option File
  closing : Option File

namespace Redirections
variable {File : Type*}

/-- One for each part of the report. -/
def targets (r : Redirections Dir File) (es : List (Exec Dir)) : List (Option File) :=
  r.opening :: (es.map r.testcase ++ [r.closing])

/-- What stands at the end of a run in the file that its start has opened. -/
def report [DecidableEq File] (r : Redirections Dir File) (f : Files Dir) : Option Word :=
  r.opening.map fun file =>
    (((r.targets f.executed).zip f.xml).filter fun p => p.1 = some file).flatMap fun p => p.2.text

/-- All redirections open one file. -/
def OneFile (r : Redirections Dir File) (es : List (Exec Dir)) : Prop :=
  ∃ file, ∀ target ∈ r.targets es, target = some file

lemma report_of_oneFile [DecidableEq File] {r : Redirections Dir File} {f : Files Dir} (h : r.OneFile f.executed)
    (hxml : f.xml.length = (r.targets f.executed).length) : r.report f = some (f.xml.flatMap XmlPart.text) := by
  obtain ⟨file, hfile⟩ := h
  have hopening : r.opening = some file := hfile _ List.mem_cons_self
  have hall : ∀ p ∈ (r.targets f.executed).zip f.xml, p.1 = some file := fun p hp => hfile p.1 (List.of_mem_zip hp).1
  have hfilter : ((r.targets f.executed).zip f.xml).filter (fun p => p.1 = some file) =
      (r.targets f.executed).zip f.xml := List.filter_eq_self.mpr fun p hp => decide_eq_true (hall p hp)
  have hsnd : ((r.targets f.executed).zip f.xml).map Prod.snd = f.xml := List.map_snd_zip hxml.le
  rw [report, hopening, Option.map_some, hfilter]
  conv_rhs => rw [← hsnd, List.flatMap_map]

end Redirections

section Runs
variable {File : Type*} [DecidableEq Dir] [DecidableEq File]

/-- The report of a run is well-formed and faithful. -/
def ReportRight (r : Redirections Dir File) (env : Env) (cwd dir : Dir) (args : List Word) (file : ListFile Dir)
    (errorLog : Option (List ErrorEntry)) (old : Dir → Log Word) : Prop :=
  ∀ w rep, testSh env cwd dir args file (initial errorLog old) = (w, some rep) →
    ∃ doc, r.report w.files = some doc ∧ Reports doc w.files.executed

lemma xml_record (f : Files Dir) (e : Exec Dir) : (f.record e).xml = f.xml ++ [e.xmlPart] := by
  unfold Files.record
  split <;> rfl

lemma xml_applyAll (f : Files Dir) (es : List (Event Dir)) :
    (f.applyAll es).xml = f.xml ++ (execs es).map Exec.xmlPart := by
  induction es generalizing f with
  | nil => simp
  | cons e es ih =>
    rw [Files.applyAll_cons, ih]
    cases e with
    | exec e => simp [Event.apply, xml_record]
    | start => rfl
    | rotate d => rfl
    | leave d => rfl

/-- The parts of the report are those of the executed pairs, between the two lines. -/
theorem testSh_xml {env : Env} {cwd dir : Dir} {args : List Word} {file : ListFile Dir}
    {errorLog : Option (List ErrorEntry)} {old : Dir → Log Word} {w : World Dir} {rep : Report}
    (h : testSh env cwd dir args file (initial errorLog old) = (w, some rep)) :
    w.files.executed = executedPairs env dir args file ∧
      w.files.xml = .testsuite :: ((executedPairs env dir args file).map Exec.xmlPart ++ [.endTestsuite]) := by
  unfold executedPairs
  cases hmodes : selectedModes env args with
  | none =>
    have hnone := start_of_selectedModes_none hmodes cwd (initial errorLog old)
    unfold testSh at h
    generalize start env none cwd args (initial errorLog old) = s at h hnone
    obtain ⟨w', sh⟩ := s
    obtain rfl : sh = none := hnone
    simp at h
  | some run =>
    have hwalk := testSh_walk env cwd dir args file run hmodes (initial errorLog old)
    rw [h] at hwalk
    obtain rfl := (Prod.mk.inj hwalk).1
    constructor
    · exact Files.executed_applyAll _ _
    · have hxml := xml_applyAll ((initial errorLog old).files.applyAll [.start, .rotate cwd]).openXml
        (walk env.outcome run.modeList file dir [] 0)
      exact congrArg (· ++ [XmlPart.endTestsuite]) hxml

/-- In a run that executes plain pairs only, with all redirections to one file. -/
theorem report_right (r : Redirections Dir File) (env : Env) (cwd dir : Dir) (args : List Word) (file : ListFile Dir)
    (errorLog : Option (List ErrorEntry)) (old : Dir → Log Word) (hfile : r.OneFile (executedPairs env dir args file))
    (hplain : ∀ e ∈ executedPairs env dir args file, PlainPair e) :
    ReportRight r env cwd dir args file errorLog old := by
  intro w rep h
  obtain ⟨hexecuted, hxml⟩ := testSh_xml h
  rw [← hexecuted] at hfile hplain hxml
  refine ⟨_, Redirections.report_of_oneFile hfile ?_, ?_⟩
  · simp [hxml, Redirections.targets]
  · rw [hxml]
    exact reports_of_plain hplain

end Runs

/-- All redirections to a name that is the same from everywhere. -/
def oneFile : Redirections ℕ Unit := ⟨some (), fun _ => some (), some ()⟩

def helloEnv : Env :=
  { plainEnv (fun _ => 1) with outcome := fun _ => { exitStatus := 1, stdout := [72, 105, 33, 10] } }

theorem report_right_hello :
    (testSh helloEnv 0 0 ["-LT".toList, "all.list".toList] (.line ["a".toList, "b>c".toList] .eof)
      (initial none fun _ => {})).2.isSome ∧
    ReportRight oneFile helloEnv 0 0 ["-LT".toList, "all.list".toList] (.line ["a".toList, "b>c".toList] .eof) none
      fun _ => {} :=
  ⟨by decide, report_right oneFile helloEnv 0 0 _ _ none _ ⟨(), by decide⟩ (by decide)⟩

/-- A command with an ampersand. -/
theorem ampersand_not_escaped : ¬ ∀ (r : Redirections ℕ Unit) (env : Env) (cwd dir : ℕ) (args : List Word)
    (file : ListFile ℕ) (errorLog : Option (List ErrorEntry)) (old : ℕ → Log Word),
    r.OneFile (executedPairs env dir args file) → ReportRight r env cwd dir args file errorLog old := by
  intro h
  have hright := h oneFile (plainEnv fun _ => 0) 0 0 ["-L".toList, "all.list".toList] (.line ["a&b".toList] .eof) none
    (fun _ => {}) ⟨(), by decide⟩
  set run := testSh (plainEnv fun _ => 0) 0 0 ["-L".toList, "all.list".toList] (.line ["a&b".toList] .eof)
    (initial none fun _ => {}) with hrun
  obtain ⟨rep, hrep⟩ : ∃ rep, run.2 = some rep := Option.isSome_iff_exists.mp (by rw [hrun]; decide)
  obtain ⟨doc, hdoc, root, hroot, -⟩ := hright run.1 rep (Prod.ext rfl hrep)
  have htext : oneFile.report run.1.files = some
      ("<testsuite>\n  <testcase classname=\"PIP\" name=\"a&b - process:preload\" time=\"0\">\n".toList ++
        "  </testcase>\n</testsuite>\n".toList) := by
    rw [hrun]
    decide
  rw [htext] at hdoc
  obtain rfl := Option.some.inj hdoc
  exact hroot.ampersand_not_mem (by decide) (by decide) (by decide)

end PipTestsuite.TestSh
