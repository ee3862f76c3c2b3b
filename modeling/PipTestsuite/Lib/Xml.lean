import Mathlib.Tactic

/-! Well-formed XML 1.0 documents without a prolog, after the productions of XML: the elements that a text stands for,
with the values of their attributes and with their text. -/
namespace Xml

abbrev Name := List Char

inductive Node where
  | text (c : Char)
  | element (name : Name) (attributes : List (Name × List Char)) (content : List Node)

namespace Node

def name? : Node → Option Name
  | text _ => none
  | element name _ _ => some name

/-- The value of an attribute. -/
def valueOf (key : Name) : Node → Option (List Char)
  | text _ => none
  | element _ attributes _ => attributes.lookup key

def content : Node → List Node
  | text _ => []
  | element _ _ content => content

def char? : Node → Option Char
  | text c => some c
  | element _ _ _ => none

def isElement : Node → Bool
  | text _ => false
  | element _ _ _ => true

/-- The elements in an element. -/
def children (n : Node) : List Node := n.content.filter isElement

/-- The text of those of some elements that have this name. -/
def textIn (name : Name) (ns : List Node) : List Char :=
  (ns.filter fun n => n.name? = some name).flatMap fun n => n.content.filterMap char?

def textOf (name : Name) (n : Node) : List Char := textIn name n.children

lemma textIn_append (name : Name) (ns ns' : List Node) :
    textIn name (ns ++ ns') = textIn name ns ++ textIn name ns' := by
  simp [textIn]

lemma textIn_of_forall_ne {name : Name} {ns : List Node} (h : ∀ n ∈ ns, n.name? ≠ some name) : textIn name ns = [] := by
  have hfilter : (ns.filter fun n => n.name? = some name) = [] := by
    rw [List.filter_eq_nil_iff]
    intro n hn
    simp [h n hn]
  rw [textIn, hfilter, List.flatMap_nil]

end Node

/-- The production Char -/
def isChar (c : Char) : Bool :=
  c = '\t' || c = '\n' || c = '\r' || (0x20 ≤ c.val && c.val ≤ 0xD7FF) || (0xE000 ≤ c.val && c.val ≤ 0xFFFD) ||
    (0x10000 ≤ c.val && c.val ≤ 0x10FFFF)

/-- The production S, which may also be empty here -/
def IsSpace (s : List Char) : Prop := s.all fun c => c = ' ' || c = '\t' || c = '\n' || c = '\r'

def inRange (c : Char) (r : UInt32 × UInt32) : Bool := r.1 ≤ c.val && c.val ≤ r.2

/-- The production NameStartChar -/
def isNameStart (c : Char) : Bool :=
  c = ':' || c = '_' || c.isAlpha || [(0xC0, 0xD6), (0xD8, 0xF6), (0xF8, 0x2FF), (0x370, 0x37D), (0x37F, 0x1FFF),
    (0x200C, 0x200D), (0x2070, 0x218F), (0x2C00, 0x2FEF), (0x3001, 0xD7FF), (0xF900, 0xFDCF), (0xFDF0, 0xFFFD),
    (0x10000, 0xEFFFF)].any (inRange c)

/-- The production NameChar -/
def isNameChar (c : Char) : Bool :=
  isNameStart c || c = '-' || c = '.' || c.isDigit || c.val = 0xB7 ||
    [(0x300, 0x36F), (0x203F, 0x2040)].any (inRange c)

/-- The production Name -/
def IsName (name : Name) : Prop := name.head?.any isNameStart ∧ name.all isNameChar

instance : DecidablePred IsName := fun name =>
  inferInstanceAs (Decidable (name.head?.any isNameStart ∧ name.all isNameChar))

def digits (base : ℕ) (value : Char → Option ℕ) (ds : List Char) : Option ℕ :=
  if ds = [] then none
  else ds.foldlM (fun n c => (value c).bind fun d => if d < base then some (n * base + d) else none) 0

def digitValue (c : Char) : Option ℕ :=
  if c.isDigit then some (c.toNat - '0'.toNat)
  else if 'a' ≤ c ∧ c ≤ 'f' then some (c.toNat - 'a'.toNat + 10)
  else if 'A' ≤ c ∧ c ≤ 'F' then some (c.toNat - 'A'.toNat + 10)
  else none

/-- The character with this number, where XML allows it. -/
def charOf (n : ℕ) : Option Char :=
  if h : n.isValidChar then
    let c := Char.ofNatAux n h
    if isChar c then some c else none
  else none

/-- What stands between & and ;, a predefined entity or the number of a character. -/
def decodeReference (ref : List Char) : Option Char :=
  if ref = "lt".toList then some '<'
  else if ref = "gt".toList then some '>'
  else if ref = "amp".toList then some '&'
  else if ref = "apos".toList then some '\''
  else if ref = "quot".toList then some '"'
  else match ref with
    | '#' :: 'x' :: ds => (digits 16 digitValue ds).bind charOf
    | '#' :: ds => (digits 10 digitValue ds).bind charOf
    | _ => none

/-- The production CharData -/
def CharData (t : List Char) : Prop := '<' ∉ t ∧ '&' ∉ t ∧ ¬ "]]>".toList <:+: t

/-- The inside of a CDATA section. -/
def CData (t : List Char) : Prop := ¬ "]]>".toList <:+: t

instance : DecidablePred CData := fun t => inferInstanceAs (Decidable (¬ "]]>".toList <:+: t))

/-- The inside of a comment. -/
def Comment (t : List Char) : Prop := ¬ "--".toList <:+: t ++ ['-']

/-- The inside of a processing instruction. -/
def Instruction (t : List Char) : Prop :=
  ∃ target rest, t = target ++ rest ∧ IsName target ∧ target.map Char.toLower ≠ "xml".toList ∧
    (∀ c, rest.head? = some c → IsSpace [c]) ∧ ¬ "?>".toList <:+: rest

/-- The production AttValue between its quotes q, with the value that it is normalised to. -/
inductive AttValue (q : Char) : List Char → List Char → Prop
  | nil : AttValue q [] []
  | space {c : Char} {v value : List Char} : IsSpace [c] → AttValue q v value → AttValue q (c :: v) (' ' :: value)
  | char {c : Char} {v value : List Char} : c ∉ [q, '<', '&'] → ¬ IsSpace [c] → AttValue q v value →
      AttValue q (c :: v) (c :: value)
  | reference {ref : List Char} {c : Char} {v value : List Char} : decodeReference ref = some c → AttValue q v value →
      AttValue q ('&' :: ref ++ ';' :: v) (c :: value)

/-- The attributes in a tag, with space in front of each and at the end. -/
inductive Attributes : List Char → List (Name × List Char) → Prop
  | nil {s : List Char} : IsSpace s → Attributes s []
  | cons {s key before after v value rest : List Char} {q : Char} {attributes : List (Name × List Char)} :
      s ≠ [] → IsSpace s → IsName key → IsSpace before → IsSpace after → q ∈ ['"', '\''] → AttValue q v value →
      Attributes rest attributes → key ∉ attributes.map Prod.fst →
      Attributes (s ++ key ++ before ++ '=' :: after ++ q :: v ++ q :: rest) ((key, value) :: attributes)

/-- A start-tag from the name to the last space. -/
def Tag (tag : List Char) (name : Name) (attributes : List (Name × List Char)) : Prop :=
  ∃ rest, tag = name ++ rest ∧ IsName name ∧ Attributes rest attributes

def emptyElement (tag : List Char) : List Char := '<' :: tag ++ "/>".toList

def fullElement (tag : List Char) (name : Name) (inside space : List Char) : List Char :=
  '<' :: tag ++ '>' :: inside ++ "</".toList ++ name ++ space ++ ['>']

/-- The production content, with the nodes that it stands for. -/
inductive Content : List Char → List Node → Prop
  | data {t : List Char} : CharData t → Content t (t.map .text)
  | reference {t ref cs : List Char} {c : Char} {ns : List Node} : CharData t → decodeReference ref = some c →
      Content cs ns → Content (t ++ '&' :: ref ++ ';' :: cs) (t.map .text ++ .text c :: ns)
  | cdata {t d cs : List Char} {ns : List Node} : CharData t → CData d → Content cs ns →
      Content (t ++ ("<![CDATA[".toList ++ d ++ "]]>".toList) ++ cs) (t.map .text ++ d.map .text ++ ns)
  | comment {t d cs : List Char} {ns : List Node} : CharData t → Comment d → Content cs ns →
      Content (t ++ ("<!--".toList ++ d ++ "-->".toList) ++ cs) (t.map .text ++ ns)
  | instruction {t d cs : List Char} {ns : List Node} : CharData t → Instruction d → Content cs ns →
      Content (t ++ ("<?".toList ++ d ++ "?>".toList) ++ cs) (t.map .text ++ ns)
  | empty {t tag cs : List Char} {name : Name} {attributes : List (Name × List Char)} {ns : List Node} : CharData t →
      Tag tag name attributes → Content cs ns →
      Content (t ++ emptyElement tag ++ cs) (t.map .text ++ .element name attributes [] :: ns)
  | full {t tag inside space cs : List Char} {name : Name} {attributes : List (Name × List Char)}
      {ms ns : List Node} :
      CharData t → Tag tag name attributes → Content inside ms → IsSpace space → Content cs ns →
      Content (t ++ fullElement tag name inside space ++ cs) (t.map .text ++ .element name attributes ms :: ns)

/-- The production element -/
inductive Element : List Char → Node → Prop
  | empty {tag : List Char} {name : Name} {attributes : List (Name × List Char)} : Tag tag name attributes →
      Element (emptyElement tag) (.element name attributes [])
  | full {tag inside space : List Char} {name : Name} {attributes : List (Name × List Char)} {ms : List Node} :
      Tag tag name attributes → Content inside ms → IsSpace space →
      Element (fullElement tag name inside space) (.element name attributes ms)

/-- What may stand in front of the root element or behind it. -/
inductive Misc : List Char → Prop
  | nil : Misc []
  | space {c : Char} {cs : List Char} : IsSpace [c] → Misc cs → Misc (c :: cs)
  | comment {d cs : List Char} : Comment d → Misc cs → Misc ("<!--".toList ++ d ++ "-->".toList ++ cs)
  | instruction {d cs : List Char} : Instruction d → Misc cs → Misc ("<?".toList ++ d ++ "?>".toList ++ cs)

/-- The ends of the lines, normalised. -/
def normalize : List Char → List Char
  | [] => []
  | '\r' :: '\n' :: cs => '\n' :: normalize cs
  | '\r' :: cs => '\n' :: normalize cs
  | c :: cs => c :: normalize cs

/-- A well-formed document with this root element. -/
def Document (doc : List Char) (root : Node) : Prop :=
  doc.all isChar ∧ ∃ before e after, normalize doc = before ++ e ++ after ∧ Misc before ∧ Element e root ∧ Misc after

section Plain

lemma charData_of_isSpace {t : List Char} (h : IsSpace t) : CharData t := by
  rw [IsSpace, List.all_eq_true] at h
  have hnot : ∀ c : Char, (c = ' ' || c = '\t' || c = '\n' || c = '\r') = false → c ∉ t := by
    intro c hc hmem
    rw [h c hmem] at hc
    cases hc
  refine ⟨hnot '<' (by decide), hnot '&' (by decide), fun hinfix => hnot '>' (by decide) ?_⟩
  exact hinfix.subset (by decide)

/-- A character that a quoted value keeps as it is. -/
def isPlain (c : Char) : Bool := c ∉ ['"', '<', '&', '\t', '\n', '\r']

lemma attValue_of_plain {v : List Char} (h : v.all isPlain) : AttValue '"' v v := by
  induction v with
  | nil => exact .nil
  | cons c v ih =>
    rw [List.all_cons, Bool.and_eq_true] at h
    have hc : c ∉ ['"', '<', '&', '\t', '\n', '\r'] := of_decide_eq_true h.1
    simp only [List.mem_cons, List.not_mem_nil, or_false, not_or] at hc
    obtain rfl | hne := eq_or_ne c ' '
    · exact .space rfl (ih h.2)
    · refine .char (by simp [hc]) ?_ (ih h.2)
      simp [IsSpace, hc, hne]

/-- One more attribute in front of others. -/
lemma attributes_cons {key v rest : List Char} {attributes : List (Name × List Char)} (hkey : IsName key)
    (hv : v.all isPlain) (hrest : Attributes rest attributes) (hnew : key ∉ attributes.map Prod.fst) :
    Attributes (' ' :: key ++ '=' :: '"' :: v ++ '"' :: rest) ((key, v) :: attributes) := by
  have hnil : IsSpace [] := rfl
  have hblank : IsSpace [' '] := rfl
  have hquote : '"' ∈ ['"', '\''] := List.mem_cons_self
  have hcons := Attributes.cons (by simp) hblank hkey hnil hnil hquote (attValue_of_plain hv) hrest hnew
  simpa using hcons

def attributeText (a : Name × List Char) : List Char := ' ' :: a.1 ++ '=' :: '"' :: a.2 ++ ['"']

def tagText (name : Name) (attributes : List (Name × List Char)) : List Char :=
  name ++ attributes.flatMap attributeText

/-- Attributes that tagText prints as they are. -/
structure PlainAttributes (attributes : List (Name × List Char)) : Prop where
  names : ∀ a ∈ attributes, IsName a.1
  values : ∀ a ∈ attributes, a.2.all isPlain
  nodup : (attributes.map Prod.fst).Nodup

lemma plainAttributes_nil : PlainAttributes [] := ⟨by simp, by simp, by simp⟩

lemma PlainAttributes.cons {key v : List Char} {attributes : List (Name × List Char)} (h : PlainAttributes attributes)
    (hkey : IsName key) (hv : v.all isPlain) (hnew : key ∉ attributes.map Prod.fst) :
    PlainAttributes ((key, v) :: attributes) where
  names := List.forall_mem_cons.mpr ⟨hkey, h.names⟩
  values := List.forall_mem_cons.mpr ⟨hv, h.values⟩
  nodup := List.nodup_cons.mpr ⟨hnew, h.nodup⟩

lemma attributes_plain {attributes : List (Name × List Char)} (h : PlainAttributes attributes) :
    Attributes (attributes.flatMap attributeText) attributes := by
  induction attributes with
  | nil => exact .nil rfl
  | cons a attributes ih =>
    obtain ⟨hname, hnames⟩ := List.forall_mem_cons.mp h.names
    obtain ⟨hvalue, hvalues⟩ := List.forall_mem_cons.mp h.values
    obtain ⟨hnew, hnodup⟩ := List.nodup_cons.mp h.nodup
    have hcons := attributes_cons hname hvalue (ih ⟨hnames, hvalues, hnodup⟩) hnew
    simpa [attributeText] using hcons

lemma tag_plain {name : Name} {attributes : List (Name × List Char)} (hname : IsName name)
    (h : PlainAttributes attributes) : Tag (tagText name attributes) name attributes :=
  ⟨_, rfl, hname, attributes_plain h⟩

/-- An element behind some text, in front of any content. -/
lemma Element.content {t e cs : List Char} {n : Node} {ns : List Node} (he : Element e n) (ht : CharData t)
    (hcs : Content cs ns) : Content (t ++ e ++ cs) (t.map .text ++ n :: ns) := by
  cases he with
  | empty htag => exact .empty ht htag hcs
  | full htag hinside hspace => exact .full ht htag hinside hspace hcs

lemma Element.isElement {e : List Char} {n : Node} (he : Element e n) : n.isElement = true := by
  cases he <;> rfl

/-- The text of some elements with a line for each. -/
def linesOf (indent : List Char) (items : List (List Char × Node)) : List Char :=
  items.flatMap fun i => indent ++ i.1 ++ ['\n']

@[simp] lemma linesOf_nil (indent : List Char) : linesOf indent [] = [] := rfl
@[simp] lemma linesOf_cons (indent : List Char) (i : List Char × Node) (items : List (List Char × Node)) :
    linesOf indent (i :: items) = indent ++ i.1 ++ '\n' :: linesOf indent items := by simp [linesOf]
@[simp] lemma linesOf_append (indent : List Char) (items items' : List (List Char × Node)) :
    linesOf indent (items ++ items') = linesOf indent items ++ linesOf indent items' := List.flatMap_append

lemma content_lines {indent tail : List Char} (hindent : IsSpace indent) (htail : IsSpace tail)
    {items : List (List Char × Node)} (hitems : ∀ i ∈ items, Element i.1 i.2) :
    ∃ ns, Content ('\n' :: linesOf indent items ++ tail) ns ∧ ns.filter Node.isElement = items.map Prod.snd := by
  have htext : ∀ t : List Char, (t.map Node.text).filter Node.isElement = [] := by
    intro t
    simp [Node.isElement]
  induction items with
  | nil =>
    refine ⟨_, .data (charData_of_isSpace (t := '\n' :: tail) ?_), htext _⟩
    simpa [IsSpace] using htail
  | cons i items ih =>
    rw [List.forall_mem_cons] at hitems
    obtain ⟨ns, hns, hfilter⟩ := ih hitems.2
    have hspace : IsSpace ('\n' :: indent) := by simpa [IsSpace] using hindent
    have hcontent := hitems.1.content (charData_of_isSpace hspace) hns
    refine ⟨('\n' :: indent).map .text ++ i.2 :: ns, ?_, ?_⟩
    · simpa using hcontent
    · rw [List.filter_append, htext, List.filter_cons_of_pos hitems.1.isElement, hfilter]
      rfl

/-- An element that has lines of elements. -/
lemma element_lines {name : Name} {attributes : List (Name × List Char)} {indent tail : List Char}
    {items : List (List Char × Node)} (hname : IsName name) (h : PlainAttributes attributes) (hindent : IsSpace indent)
    (htail : IsSpace tail) (hitems : ∀ i ∈ items, Element i.1 i.2) :
    ∃ ns, Element (fullElement (tagText name attributes) name ('\n' :: linesOf indent items ++ tail) [])
      (.element name attributes ns) ∧ (Node.element name attributes ns).children = items.map Prod.snd := by
  obtain ⟨ns, hns, hfilter⟩ := content_lines hindent htail hitems
  exact ⟨ns, .full (tag_plain hname h) hns rfl, hfilter⟩

def emptyItem (name : Name) (attributes : List (Name × List Char)) : List Char × Node :=
  (emptyElement (tagText name attributes), .element name attributes [])

lemma element_emptyItem {name : Name} {attributes : List (Name × List Char)} (hname : IsName name)
    (h : PlainAttributes attributes) : Element (emptyItem name attributes).1 (emptyItem name attributes).2 :=
  .empty (tag_plain hname h)

def cdataItem (name : Name) (d : List Char) : List Char × Node :=
  (fullElement name name ("<![CDATA[".toList ++ d ++ "]]>".toList) [], .element name [] (d.map .text))

lemma element_cdataItem {name : Name} {d : List Char} (hname : IsName name) (hd : CData d) :
    Element (cdataItem name d).1 (cdataItem name d).2 := by
  have hnil : CharData [] := charData_of_isSpace rfl
  have htag : Tag name name [] := ⟨[], by simp, hname, .nil rfl⟩
  have hinside := Content.cdata hnil hd (.data hnil)
  refine .full htag ?_ rfl
  simpa using hinside

lemma textIn_cdataItem (name : Name) (d : List Char) : Node.textIn name [(cdataItem name d).2] = d := by
  have hname : (cdataItem name d).2.name? = some name := rfl
  have hcontent : (cdataItem name d).2.content.filterMap Node.char? = d := by
    simp only [cdataItem, Node.content, List.filterMap_map]
    exact List.filterMap_some
  simp [Node.textIn, hname, hcontent]

lemma normalize_of_not_mem {doc : List Char} (h : '\r' ∉ doc) : normalize doc = doc := by
  induction doc with
  | nil => rfl
  | cons c cs ih =>
    rw [List.mem_cons, not_or] at h
    rw [normalize, ih h.2]
    · rintro d rfl -
      exact h.1 rfl
    · rintro rfl
      exact h.1 rfl

/-- A character that a document keeps as it is. -/
def isKept (c : Char) : Bool := isChar c && c ≠ '\r'

/-- An element alone on its lines. -/
lemma document_line {e : List Char} {root : Node} (he : Element e root) (hkept : (e ++ ['\n']).all isKept) :
    Document (e ++ ['\n']) root := by
  rw [List.all_eq_true] at hkept
  have hnot : '\r' ∉ e ++ ['\n'] := fun hmem => absurd (hkept '\r' hmem) (by decide)
  refine ⟨?_, [], e, ['\n'], ?_, .nil, he, .space rfl .nil⟩
  · rw [List.all_eq_true]
    intro c hc
    exact (Bool.and_eq_true_iff.mp (hkept c hc)).1
  · rw [normalize_of_not_mem hnot]
    rfl

end Plain

section Ampersand

lemma IsName.ampersand_not_mem {name : Name} (h : IsName name) : '&' ∉ name := by
  intro hmem
  have hchar := List.all_eq_true.mp h.2 '&' hmem
  revert hchar
  decide

lemma IsSpace.ampersand_not_mem {s : List Char} (h : IsSpace s) : '&' ∉ s := (charData_of_isSpace h).2.1

lemma AttValue.ampersand_not_mem {q : Char} {v value : List Char} (h : AttValue q v value) (hv : ';' ∉ v) :
    '&' ∉ v := by
  induction h with
  | nil => simp
  | space hc _ ih =>
    rw [List.mem_cons, not_or] at hv
    exact List.not_mem_cons_of_ne_of_not_mem (fun he => by simp [← he, IsSpace] at hc) (ih hv.2)
  | char hc _ _ ih =>
    rw [List.mem_cons, not_or] at hv
    exact List.not_mem_cons_of_ne_of_not_mem (fun he => by simp [← he] at hc) (ih hv.2)
  | reference => simp at hv

lemma Attributes.ampersand_not_mem {rest : List Char} {attributes : List (Name × List Char)}
    (h : Attributes rest attributes) (hrest : ';' ∉ rest) : '&' ∉ rest := by
  induction h with
  | nil hs => exact hs.ampersand_not_mem
  | @cons s key before after v value rest q attributes _ hs hkey hbefore hafter hq hv _ _ ih =>
    have hquote : '&' ≠ q := by
      rintro rfl
      simp at hq
    simp only [List.append_assoc, List.cons_append, List.mem_append, List.mem_cons, not_or] at hrest ⊢
    exact ⟨hs.ampersand_not_mem, hkey.ampersand_not_mem, hbefore.ampersand_not_mem, by decide, hafter.ampersand_not_mem,
      hquote, hv.ampersand_not_mem hrest.2.2.2.2.2.2.1, hquote, ih hrest.2.2.2.2.2.2.2.2⟩

lemma Tag.isName {tag : List Char} {name : Name} {attributes : List (Name × List Char)} (h : Tag tag name attributes) :
    IsName name := by
  obtain ⟨-, -, hname, -⟩ := h
  exact hname

lemma Tag.ampersand_not_mem {tag : List Char} {name : Name} {attributes : List (Name × List Char)}
    (h : Tag tag name attributes) (htag : ';' ∉ tag) : '&' ∉ tag := by
  obtain ⟨rest, rfl, hname, hrest⟩ := h
  simp only [List.mem_append, not_or] at htag ⊢
  exact ⟨hname.ampersand_not_mem, hrest.ampersand_not_mem htag.2⟩

/-- Without the characters of references, sections and instructions. -/
def Bare (t : List Char) : Prop := ';' ∉ t ∧ '!' ∉ t ∧ '?' ∉ t

instance : DecidablePred Bare := fun t => inferInstanceAs (Decidable (';' ∉ t ∧ '!' ∉ t ∧ '?' ∉ t))

lemma bare_append {t u : List Char} : Bare (t ++ u) ↔ Bare t ∧ Bare u := by
  simp only [Bare, List.mem_append, not_or]
  tauto

lemma emptyElement_eq (tag : List Char) : emptyElement tag = ['<'] ++ tag ++ "/>".toList := rfl

lemma fullElement_eq (tag name inside space : List Char) :
    fullElement tag name inside space = ['<'] ++ tag ++ ['>'] ++ inside ++ "</".toList ++ name ++ space ++ ['>'] := by
  simp [fullElement]

lemma Tag.emptyElement_ampersand_not_mem {tag : List Char} {name : Name} {attributes : List (Name × List Char)}
    (h : Tag tag name attributes) (hbare : Bare (emptyElement tag)) : '&' ∉ emptyElement tag := by
  simp only [emptyElement_eq, bare_append, List.mem_append, not_or] at hbare ⊢
  exact ⟨⟨by decide, h.ampersand_not_mem hbare.1.2.1⟩, by decide⟩

lemma Tag.fullElement_ampersand_not_mem {tag inside space : List Char} {name : Name}
    {attributes : List (Name × List Char)} (h : Tag tag name attributes) (hspace : IsSpace space)
    (hinside : Bare inside → '&' ∉ inside) (hbare : Bare (fullElement tag name inside space)) :
    '&' ∉ fullElement tag name inside space := by
  simp only [fullElement_eq, bare_append, List.mem_append, not_or] at hbare ⊢
  obtain ⟨⟨⟨⟨⟨⟨⟨-, htag⟩, -⟩, hin⟩, -⟩, -⟩, -⟩, -⟩ := hbare
  exact ⟨⟨⟨⟨⟨⟨⟨by decide, h.ampersand_not_mem htag.1⟩, by decide⟩, hinside hin⟩, by decide⟩,
    h.isName.ampersand_not_mem⟩, hspace.ampersand_not_mem⟩, by decide⟩

lemma Content.ampersand_not_mem {t : List Char} {ns : List Node} (h : Content t ns) (hbare : Bare t) : '&' ∉ t := by
  induction h with
  | data ht => exact ht.2.1
  | reference => simp [Bare] at hbare
  | cdata => simp [Bare] at hbare
  | comment => simp [Bare] at hbare
  | instruction => simp [Bare] at hbare
  | empty ht htag _ ih =>
    obtain ⟨hleft, hcs⟩ := bare_append.mp hbare
    obtain ⟨-, helement⟩ := bare_append.mp hleft
    simp only [List.mem_append, not_or]
    exact ⟨⟨ht.2.1, htag.emptyElement_ampersand_not_mem helement⟩, ih hcs⟩
  | full ht htag _ hspace _ ihinside ih =>
    obtain ⟨hleft, hcs⟩ := bare_append.mp hbare
    obtain ⟨-, helement⟩ := bare_append.mp hleft
    simp only [List.mem_append, not_or]
    exact ⟨⟨ht.2.1, htag.fullElement_ampersand_not_mem hspace ihinside helement⟩, ih hcs⟩

lemma Element.ampersand_not_mem {e : List Char} {n : Node} (h : Element e n) (hbare : Bare e) : '&' ∉ e := by
  cases h with
  | empty htag => exact htag.emptyElement_ampersand_not_mem hbare
  | full htag hinside hspace => exact htag.fullElement_ampersand_not_mem hspace hinside.ampersand_not_mem hbare

lemma Misc.ampersand_not_mem {t : List Char} (h : Misc t) (hbare : Bare t) : '&' ∉ t := by
  induction h with
  | nil => simp
  | @space c cs hc _ ih =>
    obtain ⟨-, hcs⟩ := bare_append (t := [c]).mp hbare
    have hchar := IsSpace.ampersand_not_mem hc
    simp only [List.mem_singleton] at hchar
    exact List.not_mem_cons_of_ne_of_not_mem hchar (ih hcs)
  | comment => simp [Bare] at hbare
  | instruction => simp [Bare] at hbare

/-- An ampersand needs more than itself. -/
lemma Document.ampersand_not_mem {doc : List Char} {root : Node} (h : Document doc root) (hbare : Bare doc)
    (hnot : '\r' ∉ doc) : '&' ∉ doc := by
  obtain ⟨-, before, e, after, hdoc, hbefore, he, hafter⟩ := h
  rw [normalize_of_not_mem hnot] at hdoc
  subst hdoc
  obtain ⟨hleft, hbareafter⟩ := bare_append.mp hbare
  obtain ⟨hbarebefore, hbareelement⟩ := bare_append.mp hleft
  simp only [List.mem_append, not_or]
  exact ⟨⟨hbefore.ampersand_not_mem hbarebefore, he.ampersand_not_mem hbareelement⟩,
    hafter.ampersand_not_mem hbareafter⟩

end Ampersand

end Xml
