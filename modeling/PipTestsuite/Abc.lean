import PipTestsuite.Lib.Logged
import PipTestsuite.Lib.Numeral
import PipTestsuite.ExitCode
import PipTestsuite.TimerScale

/-! prog/abc.c: a task looks up its number in the list that the test gives in the arguments. -/
namespace PipTestsuite.Abc
open Timer (toInt strtol toInt_eq_self)
open Numeral (numeral)

/-- What main does: it takes an element of argv, or prints a text. -/
inductive Event where
  | read (i : ℤ)
  | stdout (text : Word)
  | stderr (text : Word)
  deriving DecidableEq

abbrev Main := Logged Event

/-- What pip_init() returns and sets. -/
structure Init where
  err : ℤ
  pipid : ℤ
  ntasks : ℤ

def IsInt (z : ℤ) : Prop := -2 ^ 31 ≤ z ∧ z < 2 ^ 31

instance (z : ℤ) : Decidable (IsInt z) := inferInstanceAs (Decidable (_ ∧ _))

/-- The result of an addition or a subtraction of int values. -/
def int (z : ℤ) : Main ℤ := .defined (if IsInt z then some z else none)

/-- The string at an index of argv. At argc there is a null pointer, and nothing is known of what is further out. -/
def arg (argv : List Word) (i : ℤ) : Main Word := do
  .emit (.read i)
  .defined (if 0 ≤ i then argv[i.toNat]? else none)

/-- int v = strtol( text, NULL, 10 ) -/
def parsed (text : Word) : ℤ := toInt (strtol (numeral text))

def decimal (z : ℤ) : Word := (toString z).toList

section Texts
variable (argv : List Word) (init : Init)

def listLine : Word :=
  "PIPID:".toList ++ decimal init.pipid ++ " (".toList ++ decimal argv.length ++ ",".toList ++ decimal init.ntasks ++
    ")\n".toList

def differsLine (other : Word) (id : ℤ) : Word :=
  "[".toList ++ decimal init.pipid ++ "] ".toList ++ other ++ " != ".toList ++ decimal id ++ "\n".toList

def mainLine (msg : Word) : Word := "[PIP:main:".toList ++ decimal init.pipid ++ "] ".toList ++ msg ++ "\n".toList

end Texts

/-- The element of argv that is to be the number of the task. -/
def checkEntry (argv : List Word) (init : Init) (msg : Word) (index : ℤ) : Main ℕ := do
  if argv.length < index then
    .emit (.stderr "PIPID list is short\n".toList)
    return 9
  else
    let id := parsed (← arg argv index)
    .emit (.stdout (listLine argv init))
    if id ≠ init.pipid then
      let other ← arg argv (← int (init.pipid + 1))
      .emit (.stdout (differsLine init other id))
      return 9
    else
      .emit (.stdout (mainLine init msg))
      return 0

/-- main behind pip_init(). -/
def listTest (argv : List Word) (init : Init) (msg : Word) : Main ℕ := do
  let prevn := parsed (← arg argv 1)
  if init.pipid < prevn then
    .emit (.stderr "Illegal argument(s)\n".toList)
    return 9
  else
    let offset ← int (init.pipid - prevn)
    checkEntry argv init msg (← int (offset + 2))

/-- main in the build with PIP. -/
def main (argv : List Word) (init : Init) : Main ℕ := do
  let msg ← arg argv 0
  if 2 < argv.length then
    if init.err ≠ 0 then
      .emit (.stderr "Invoke this program by using piprun\n".toList)
      return 1
    else listTest argv init msg
  else
    .emit (.stdout ("[PIP:main] ".toList ++ msg ++ "\n".toList))
    return 0

/-- An element of argv is one of the arguments. -/
def InArgv (argv : List Word) : Event → Prop
  | .read i => 0 ≤ i ∧ i < argv.length
  | _ => True

def prevn (argv : List Word) : ℤ := parsed (argv.getD 1 [])

/-- The list has the number of the task at its place. -/
def Listed (argv : List Word) (pipid : ℤ) : Prop :=
  prevn argv ≤ pipid ∧ ∃ text ∈ (argv.drop 2)[(pipid - prevn argv).toNat]?, numeral text = pipid

/-- The list is used as it should be. -/
structure Indexed (argv : List Word) (pipid : ℤ) (m : Main ℕ) : Prop where
  reads : ∀ e ∈ m.log, InArgv argv e
  zero : m.value = some 0 ↔ Listed argv pipid
  nine : ¬ Listed argv pipid → m.value = some 9

/-- The place of the task in argv. -/
def place (argv : List Word) (pipid : ℤ) : ℤ := pipid - prevn argv + 2

/-- The number of the task is before the list, or more than one behind its end; or its place has its number, or some
other one, where the message of the difference finds an argument. -/
def Fits (argv : List Word) (pipid : ℤ) : Prop :=
  pipid < prevn argv ∨ (argv.length < place argv pipid ∧ place argv pipid < 2 ^ 31) ∨
    prevn argv ≤ pipid ∧ ∃ text ∈ argv[(place argv pipid).toNat]?, numeral text = pipid ∨
      parsed text ≠ pipid ∧ 0 ≤ pipid + 1 ∧ pipid + 1 < argv.length

section Steps
variable {argv : List Word} {i z : ℤ}

lemma int_of_isInt (h : IsInt z) : int z = .defined (some z) := by rw [int, if_pos h]

lemma int_of_not (h : ¬ IsInt z) : (int z).value = none := by
  rw [int, if_neg h]
  rfl

lemma arg_value : (arg argv i).value = if 0 ≤ i then argv[i.toNat]? else none := by simp [arg, Logged.bind_value]

/-- Inside of argv an element is taken, outside nothing is known. -/
lemma arg_returns (hi : 0 ≤ i) {text : Word} (htext : argv[i.toNat]? = some text) :
    (arg argv i).Returns (InArgv argv) text := by
  obtain ⟨hlt, -⟩ := List.getElem?_eq_some_iff.mp htext
  rw [arg, if_pos hi, htext]
  exact (Logged.returns_emit ⟨hi, by omega⟩).bind (Logged.returns_defined text)

lemma arg_none (h : ¬ (0 ≤ i ∧ i < argv.length)) : (arg argv i).value = none := by
  rw [arg_value]
  split
  · exact List.getElem?_eq_none (by omega)
  · rfl

lemma int_returns {P : Event → Prop} (h : IsInt z) : (int z).Returns P z := by
  rw [int_of_isInt h]
  exact Logged.returns_defined z

end Steps

section Entry
variable {argv : List Word} {init : Init} {msg text : Word} {index : ℤ}

lemma checkEntry_short (h : argv.length < index) : (checkEntry argv init msg index).Returns (InArgv argv) 9 := by
  rw [checkEntry, if_pos h]
  exact (Logged.returns_emit trivial).bind (Logged.returns_pure 9)

/-- At the end of argv the null pointer is taken for a string. -/
lemma checkEntry_none (h : ¬ argv.length < index) (hout : ¬ (0 ≤ index ∧ index < argv.length)) :
    (checkEntry argv init msg index).value = none := by
  rw [checkEntry, if_neg h]
  exact Logged.bind_value_of_none (arg_none hout)

lemma checkEntry_found (hindex : 0 ≤ index) (htext : argv[index.toNat]? = some text)
    (hid : parsed text = init.pipid) : (checkEntry argv init msg index).Returns (InArgv argv) 0 := by
  obtain ⟨hlt, -⟩ := List.getElem?_eq_some_iff.mp htext
  rw [checkEntry, if_neg (by omega)]
  refine (arg_returns hindex htext).bind ((Logged.returns_emit trivial).bind ?_)
  rw [if_neg (not_not.mpr hid)]
  exact (Logged.returns_emit trivial).bind (Logged.returns_pure 0)

/-- The message of a difference takes another argument. -/
lemma checkEntry_differs (hindex : 0 ≤ index) (htext : argv[index.toNat]? = some text)
    (hid : parsed text ≠ init.pipid) (hint : argv.length < 2 ^ 31) (hlow : 0 ≤ init.pipid + 1)
    (hother : init.pipid + 1 < argv.length) : (checkEntry argv init msg index).Returns (InArgv argv) 9 := by
  obtain ⟨hlt, -⟩ := List.getElem?_eq_some_iff.mp htext
  have hnat : (init.pipid + 1).toNat < argv.length := by omega
  have hsucc : IsInt (init.pipid + 1) := ⟨by omega, by omega⟩
  rw [checkEntry, if_neg (by omega)]
  refine (arg_returns hindex htext).bind ((Logged.returns_emit trivial).bind ?_)
  rw [if_pos hid]
  refine (int_returns hsucc).bind ((arg_returns hlow (List.getElem?_eq_getElem hnat)).bind ?_)
  exact (Logged.returns_emit trivial).bind (Logged.returns_pure 9)

lemma checkEntry_differs_none (hindex : 0 ≤ index) (htext : argv[index.toNat]? = some text)
    (hid : parsed text ≠ init.pipid) (hother : ¬ (0 ≤ init.pipid + 1 ∧ init.pipid + 1 < argv.length)) :
    (checkEntry argv init msg index).value = none := by
  obtain ⟨hlt, -⟩ := List.getElem?_eq_some_iff.mp htext
  rw [checkEntry, if_neg (by omega), Logged.bind_value_of_some (arg_returns hindex htext).value,
    Logged.bind_value_of_some (Logged.emit_value _), if_pos hid]
  by_cases hsucc : IsInt (init.pipid + 1)
  · rw [Logged.bind_value_of_some (int_returns (P := fun _ => True) hsucc).value]
    exact Logged.bind_value_of_none (arg_none hother)
  · exact Logged.bind_value_of_none (int_of_not hsucc)

end Entry

section Main
variable {argv : List Word} {init : Init} {msg : Word}

lemma arg_getD {n : ℕ} (hn : n < argv.length) : (arg argv n).Returns (InArgv argv) (argv.getD n []) := by
  refine arg_returns (Int.natCast_nonneg n) ?_
  rw [Int.toNat_natCast, List.getD_eq_getElem?_getD, List.getElem?_eq_getElem hn, Option.getD_some]

lemma listTest_illegal (hargc : 2 < argv.length) (h : init.pipid < prevn argv) :
    (listTest argv init msg).Returns (InArgv argv) 9 := by
  refine (arg_getD (n := 1) (by omega)).bind ?_
  change Logged.Returns _ (if init.pipid < prevn argv then _ else _) 9
  rw [if_pos h]
  exact (Logged.returns_emit trivial).bind (Logged.returns_pure 9)

section Place
variable (hargc : 2 < argv.length) (hle : prevn argv ≤ init.pipid)
include hargc hle

lemma listTest_returns (hplace : place argv init.pipid < 2 ^ 31) {a : ℕ}
    (h : (checkEntry argv init msg (place argv init.pipid)).Returns (InArgv argv) a) :
    (listTest argv init msg).Returns (InArgv argv) a := by
  have hoffset : IsInt (init.pipid - prevn argv) := ⟨by omega, by unfold place at hplace; omega⟩
  have hindex : IsInt (init.pipid - prevn argv + 2) := ⟨by omega, hplace⟩
  refine (arg_getD (n := 1) (by omega)).bind ?_
  change Logged.Returns _ (if init.pipid < prevn argv then _ else _) a
  rw [if_neg (not_lt.mpr hle)]
  exact (int_returns hoffset).bind ((int_returns hindex).bind h)

/-- Where the checks do not stop it, main comes to a value just if it does with the element of the list, and that is
only where its index is an int. -/
lemma listTest_none (h : place argv init.pipid < 2 ^ 31 →
    (checkEntry argv init msg (place argv init.pipid)).value = none) : (listTest argv init msg).value = none := by
  have hfirst : (arg argv 1).value = some (argv.getD 1 []) := (arg_getD (n := 1) (by omega)).value
  have hskip : (listTest argv init msg).value = (int (init.pipid - prevn argv) >>= fun offset =>
      int (offset + 2) >>= checkEntry argv init msg).value := by
    refine (Logged.bind_value_of_some hfirst).trans ?_
    change (if init.pipid < prevn argv then _ else _ : Main ℕ).value = _
    rw [if_neg (not_lt.mpr hle)]
    rfl
  rw [hskip]
  by_cases hoffset : IsInt (init.pipid - prevn argv)
  · rw [Logged.bind_value_of_some (int_returns (P := InArgv argv) hoffset).value]
    by_cases hindex : IsInt (init.pipid - prevn argv + 2)
    · rw [Logged.bind_value_of_some (int_returns (P := InArgv argv) hindex).value]
      exact h hindex.2
    · exact Logged.bind_value_of_none (int_of_not hindex)
  · exact Logged.bind_value_of_none (int_of_not hoffset)

end Place

section Start
variable (hargc : 2 < argv.length) (herr : init.err = 0)
include hargc herr

lemma main_returns {a : ℕ} (h : (listTest argv init (argv.getD 0 [])).Returns (InArgv argv) a) :
    (main argv init).Returns (InArgv argv) a := by
  refine (arg_getD (n := 0) (by omega)).bind ?_
  rw [if_pos hargc, if_neg (not_not.mpr herr)]
  exact h

lemma main_none (h : (listTest argv init (argv.getD 0 [])).value = none) : (main argv init).value = none := by
  refine (Logged.bind_value_of_some (arg_getD (n := 0) (by omega)).value).trans ?_
  rw [if_pos hargc, if_neg (not_not.mpr herr)]
  exact h

end Start

end Main

section Listed
variable {argv : List Word} {pipid : ℤ} {m : Main ℕ} {text : Word}

lemma not_listed_of_lt (h : pipid < prevn argv) : ¬ Listed argv pipid := fun hlisted => absurd hlisted.1 (not_le.mpr h)

lemma listed_iff (hle : prevn argv ≤ pipid) :
    Listed argv pipid ↔ ∃ text ∈ argv[(place argv pipid).toNat]?, numeral text = pipid := by
  have hnat : 2 + (pipid - prevn argv).toNat = (place argv pipid).toNat := by
    unfold place
    omega
  rw [Listed, and_iff_right hle, List.getElem?_drop, hnat]

lemma indexed_of_nine (hm : m.Returns (InArgv argv) 9) : Indexed argv pipid m ↔ ¬ Listed argv pipid := by
  constructor
  · intro h hlisted
    have hzero := (h.zero.mpr hlisted).symm.trans hm.value
    cases hzero
  · intro hnot
    refine ⟨hm.log, iff_of_false ?_ hnot, fun _ => hm.value⟩
    simp [hm.value]

lemma indexed_of_zero (hm : m.Returns (InArgv argv) 0) : Indexed argv pipid m ↔ Listed argv pipid := by
  constructor
  · intro h
    exact h.zero.mp hm.value
  · intro hlisted
    exact ⟨hm.log, iff_of_true hm.value hlisted, fun hnot => absurd hlisted hnot⟩

lemma not_indexed_of_none (hm : m.value = none) : ¬ Indexed argv pipid m := by
  intro h
  by_cases hlisted : Listed argv pipid
  · simpa [hm] using h.zero.mpr hlisted
  · simpa [hm] using h.nine hlisted

/-- What an int is read as that is the number of a task. -/
lemma parsed_of_numeral (hpipid : IsInt pipid) (h : numeral text = pipid) : parsed text = pipid := by
  have hlong : strtol pipid = pipid := by
    unfold strtol
    have hlow := hpipid.1
    have hhigh := hpipid.2
    omega
  rw [parsed, h, hlong, toInt_eq_self hpipid.1 hpipid.2]

end Listed

section Indexed
variable {argv : List Word} {init : Init} (hargc : 2 < argv.length) (herr : init.err = 0)
  (hle : prevn argv ≤ init.pipid)
include hargc herr hle

/-- The place of the task is not in the list. -/
lemma indexed_iff_of_end (htext : argv[(place argv init.pipid).toNat]? = none) :
    Indexed argv init.pipid (main argv init) ↔ Fits argv init.pipid := by
  have hend : argv.length ≤ place argv init.pipid := by
    have hnat := List.getElem?_eq_none_iff.mp htext
    unfold place at *
    omega
  have hnot : ¬ Listed argv init.pipid := by simp [listed_iff hle, htext]
  by_cases hshort : argv.length < place argv init.pipid ∧ place argv init.pipid < 2 ^ 31
  · have hnine := main_returns hargc herr (listTest_returns hargc hle hshort.2 (checkEntry_short hshort.1))
    exact iff_of_true ((indexed_of_nine hnine).mpr hnot) (.inr (.inl hshort))
  · have hnone := main_none hargc herr (listTest_none hargc hle fun hplace =>
      checkEntry_none (fun h => hshort ⟨h, hplace⟩) (by omega))
    refine iff_of_false (not_indexed_of_none hnone) ?_
    rintro (hlt | h | ⟨-, h⟩)
    · omega
    · exact hshort h
    · simp [htext] at h

/-- The place of the task is in the list. -/
lemma indexed_iff_of_entry (hint : argv.length < 2 ^ 31) (hpipid : IsInt init.pipid) {text : Word}
    (htext : argv[(place argv init.pipid).toNat]? = some text) :
    Indexed argv init.pipid (main argv init) ↔ Fits argv init.pipid := by
  obtain ⟨hlt, -⟩ := List.getElem?_eq_some_iff.mp htext
  have hpos : 0 ≤ place argv init.pipid := by
    unfold place
    omega
  have hplace : place argv init.pipid < 2 ^ 31 := by omega
  have hlisted : Listed argv init.pipid ↔ numeral text = init.pipid := by simp [listed_iff hle, htext]
  have hfits : Fits argv init.pipid ↔ numeral text = init.pipid ∨
      parsed text ≠ init.pipid ∧ 0 ≤ init.pipid + 1 ∧ init.pipid + 1 < argv.length := by
    have hnotlt : ¬ init.pipid < prevn argv := not_lt.mpr hle
    have hnotshort : ¬ (argv.length < place argv init.pipid ∧ place argv init.pipid < 2 ^ 31) := by omega
    rw [Fits, or_iff_right hnotlt, or_iff_right hnotshort, and_iff_right hle, htext]
    simp only [Option.mem_some_iff, exists_eq_left']
  rw [hfits]
  by_cases hid : parsed text = init.pipid
  · have hzero := main_returns hargc herr (listTest_returns hargc hle hplace (checkEntry_found hpos htext hid))
    rw [indexed_of_zero hzero, hlisted, or_iff_left fun h => h.1 hid]
  have hnum : numeral text ≠ init.pipid := fun h => hid (parsed_of_numeral hpipid h)
  rw [or_iff_right hnum, and_iff_right hid]
  by_cases hother : 0 ≤ init.pipid + 1 ∧ init.pipid + 1 < argv.length
  · have hnine := main_returns hargc herr (listTest_returns hargc hle hplace
      (checkEntry_differs hpos htext hid hint hother.1 hother.2))
    exact iff_of_true ((indexed_of_nine hnine).mpr (hlisted.not.mpr hnum)) hother
  · have hnone := main_none hargc herr (listTest_none hargc hle fun _ =>
      checkEntry_differs_none hpos htext hid hother)
    exact iff_of_false (not_indexed_of_none hnone) hother

end Indexed

/-- The list is used as it should be just for the arguments and tasks that fit. -/
theorem indexed_iff (argv : List Word) (init : Init) (hargc : 2 < argv.length) (hint : argv.length < 2 ^ 31)
    (hpipid : IsInt init.pipid) (herr : init.err = 0) :
    Indexed argv init.pipid (main argv init) ↔ Fits argv init.pipid := by
  rcases lt_or_ge init.pipid (prevn argv) with hlt | hle
  · have hnine := main_returns hargc herr (listTest_illegal hargc hlt)
    exact iff_of_true ((indexed_of_nine hnine).mpr (not_listed_of_lt hlt)) (.inl hlt)
  cases htext : argv[(place argv init.pipid).toNat]? with
  | none => exact indexed_iff_of_end hargc herr hle htext
  | some text => exact indexed_iff_of_entry hargc herr hle hint hpipid htext

/-- A list for the tasks from 4 on. -/
def fromFour (tasks : List Word) : List Word := "./xyz".toList :: "4".toList :: tasks

def task (pipid : ℤ) : Init := ⟨0, pipid, 8⟩

/-- The second task of a segment finds its number. -/
theorem indexed_second :
    Indexed (fromFour ["4".toList, "5".toList]) 5 (main (fromFour ["4".toList, "5".toList]) (task 5)) :=
  (indexed_iff (fromFour ["4".toList, "5".toList]) (task 5) (by decide) (by decide) (by decide) rfl).mpr
    (.inr (.inr ⟨by decide, "5".toList, by decide, .inl (by decide)⟩))

/-- A third task finds the null pointer at the end of argv; and where its element is another number, the message takes
an argument far behind the end. -/
theorem not_indexed_third :
    (main (fromFour ["4".toList, "5".toList]) (task 6)).log.getLast? = some (.read 4) ∧
    ¬ Indexed (fromFour ["4".toList, "5".toList]) 6 (main (fromFour ["4".toList, "5".toList]) (task 6)) ∧
    (main (fromFour ["4".toList, "5".toList, "7".toList]) (task 6)).log.getLast? = some (.read 7) ∧
    ¬ Indexed (fromFour ["4".toList, "5".toList, "7".toList]) 6
      (main (fromFour ["4".toList, "5".toList, "7".toList]) (task 6)) := by
  refine ⟨by decide, not_indexed_of_none (by decide), by decide, not_indexed_of_none (by decide)⟩

section Segment
variable {name : Word} {first n i : ℕ}

/-- The arguments that the tests give to a segment of n tasks. -/
def segment (name : Word) (first n : ℕ) : List Word :=
  name :: Nat.toDigits 10 first :: (List.range' first n).map (Nat.toDigits 10)

lemma segment_entry (hi : i < n) : (segment name first n)[i + 2]? = some (Nat.toDigits 10 (first + i)) := by
  simp [segment, List.getElem?_range' hi]

/-- Each task of a segment finds its number. -/
theorem segment_returns {init : Init} (herr : init.err = 0) (hpipid : init.pipid = first + i)
    (hint : first + n ≤ 2 ^ 31) (hn : n < 2 ^ 31 - 2) (hi : i < n) :
    (main (segment name first n) init).Returns (InArgv (segment name first n)) 0 := by
  have hargc : 2 < (segment name first n).length := by
    simp [segment]
    omega
  have hfirst : prevn (segment name first n) = first :=
    parsed_of_numeral ⟨by omega, by omega⟩ (Numeral.numeral_toDigits first)
  have hplace : place (segment name first n) init.pipid = (i + 2 : ℕ) := by
    rw [place, hfirst, hpipid]
    push_cast
    ring
  have hid : parsed (Nat.toDigits 10 (first + i)) = init.pipid :=
    parsed_of_numeral ⟨by omega, by omega⟩ ((Numeral.numeral_toDigits _).trans (by rw [hpipid, Nat.cast_add]))
  have hentry : (segment name first n)[(place (segment name first n) init.pipid).toNat]? =
      some (Nat.toDigits 10 (first + i)) := by
    rw [hplace]
    exact segment_entry hi
  apply main_returns hargc herr
  apply listTest_returns hargc (by omega) (by omega)
  exact checkEntry_found (by omega) hentry hid

end Segment

end PipTestsuite.Abc
