import PipTestsuite.ExitCode
import PipTestsuite.Seek
import PipTestsuite.Lib.BarrierPhases

/-! The bytes that seek.c moves. Each turn of a participant is a loop of write() or read() calls that the
kernel may cut short anywhere; all of them go through the offset of the one open file. -/
namespace PipTestsuite.Seek
open BarrierProgram

def nul : Char := Char.ofNat 0

/-- sizeof(buff) and sizeof(check) -/
def bufSize : ℕ := 128

/-- sprintf( buff, "%8s", ROOT ) and sprintf( buff, "%8d", pipid ) -/
def record {ntasks : ℕ} : Party ntasks → Word
  | .root => List.leftpad 8 ' ' "ROOT".toList
  | .task pipid => List.leftpad 8 ' ' (Nat.toDigits 10 pipid)

/-- buff, which memset has cleared before. -/
def buff {ntasks : ℕ} (i : Party ntasks) : Word :=
  record i ++ List.replicate (bufSize - (record i).length) nul

/-- What strcmp sees of a buffer. -/
def cString (b : Word) : Word := b.takeWhile (· ≠ nul)

/-- The open file with its offset, and for each participant p - buff in my_read or my_write and its check
buffer. got is what each my_read has returned, in order. -/
structure Io (ntasks : ℕ) where
  file : Word
  offset : ℕ
  moved : Party ntasks → ℕ
  check : Party ntasks → Word
  got : List (Party ntasks × Word)

/-- The file as it is opened, with check cleared. -/
def opened (ntasks : ℕ) (file : Word) : Io ntasks :=
  ⟨file, 0, fun _ => 0, fun _ => List.replicate bufSize nul, []⟩

section Calls
variable {ntasks : ℕ}

def Io.finish (d : Io ntasks) (i : Party ntasks) : Io ntasks := { d with moved := Function.update d.moved i 0 }

/-- The next write() of my_write( fd, buff, len ), and what my_write returns, if this was the last one. -/
def myWrite (i : Party ntasks) (choice : ℕ) (d : Io ntasks) : Io ntasks × Option ℕ :=
  let len := (record i).length
  let l := len - d.moved i
  let cc := min (choice + 1) l
  let d := { d with
    file := d.file.take d.offset ++ ((buff i).drop (d.moved i)).take cc ++ d.file.drop (d.offset + cc)
    offset := d.offset + cc
    moved := Function.update d.moved i (d.moved i + cc) }
  if cc < l then (d, none) else (d.finish i, some len)

/-- The next read() of my_read( fd, check, len ), and what my_read returns, if this was the last one. -/
def myRead (i : Party ntasks) (choice : ℕ) (d : Io ntasks) : Io ntasks × Option ℕ :=
  let len := (record i).length
  let p := d.moved i
  let l := len - p
  let bytes := (d.file.drop d.offset).take (min (choice + 1) l)
  let cc := bytes.length
  if cc = 0 then (d.finish i, some p)
  else
    let check := (d.check i).take p ++ bytes ++ (d.check i).drop (p + cc)
    let d := { d with
      offset := d.offset + cc
      moved := Function.update d.moved i (p + cc)
      check := Function.update d.check i check }
    if cc < l then (d, none) else (d.finish i, some len)

/-- CHECK( my_write(..), RV<0 ) of the root, CHECK( my_write(..), RV<=0 ) of a task. -/
def badCount : Party ntasks → ℤ → Bool
  | .root, rv => rv < 0
  | .task _, rv => rv ≤ 0

/-- An operation with its CHECKs; choice is the number of bytes that the kernel is ready to move. -/
def io : Exec (Party ntasks) Op ℕ (Io ntasks)
  | i, .write, choice, d =>
    match myWrite i choice d with
    | (d, none) => (d, .again)
    | (d, some rv) => (d, if badCount i rv then .fail else .pass)
  | i, .read, choice, d =>
    match myRead i choice d with
    | (d, none) => (d, .again)
    | (d, some rv) =>
      ({ d with got := d.got ++ [(i, (d.check i).take rv)] },
        if badCount i rv then .fail else if cString (buff i) ≠ cString (d.check i) then .fail else .pass)
  | _, .fsync, _, d => (d, .pass)
  | _, .lseek, _, d => ({ d with offset := 0 }, .pass)

end Calls

section Calls
variable {ntasks : ℕ} {d : Io ntasks} {i : Party ntasks} {m choice : ℕ}

/-- One write() at the end of the file takes over the next bytes of the record. -/
lemma myWrite_cases (choice : ℕ) (hlen : (record i).length = 8) (hm : d.moved i = m) (hlt : m < 8)
    (hoff : d.offset = d.file.length) :
    ∃ cc, 0 < cc ∧ m + cc ≤ 8 ∧ ∃ d', d' = { d with
        file := d.file ++ ((record i).drop m).take cc
        offset := d.offset + cc
        moved := Function.update d.moved i (m + cc) } ∧
      (m + cc < 8 ∧ myWrite i choice d = (d', none) ∨
        m + cc = 8 ∧ myWrite i choice d = (d'.finish i, some 8)) := by
  refine ⟨min (choice + 1) (8 - m), by omega, by omega, _, rfl, ?_⟩
  have hbytes : ((buff i).drop m).take (min (choice + 1) (8 - m)) =
      ((record i).drop m).take (min (choice + 1) (8 - m)) := by
    have hle : m ≤ (record i).length := by omega
    have hcc : min (choice + 1) (8 - m) ≤ ((record i).drop m).length := by
      rw [List.length_drop, hlen]
      omega
    rw [buff, List.drop_append_of_le_length hle, List.take_append_of_le_length hcc]
  have htail : d.file.drop (d.file.length + min (choice + 1) (8 - m)) = [] := List.drop_eq_nil_of_le (by omega)
  simp only [myWrite, hlen, hm, hoff, hbytes, htail, List.take_length, List.append_nil]
  split_ifs with hcc
  · exact .inl ⟨by omega, rfl⟩
  · exact .inr ⟨by omega, rfl⟩

/-- One read() in front of the rest of the record puts its next bytes into check. -/
lemma myRead_cases {tail : Word} (choice : ℕ) (hlen : (record i).length = 8) (hm : d.moved i = m) (hlt : m < 8)
    (hstream : d.file.drop d.offset = (record i).drop m ++ tail) :
    ∃ cc, 0 < cc ∧ m + cc ≤ 8 ∧ ∃ d', d' = { d with
        offset := d.offset + cc
        moved := Function.update d.moved i (m + cc)
        check := Function.update d.check i
          ((d.check i).take m ++ ((record i).drop m).take cc ++ (d.check i).drop (m + cc)) } ∧
      (m + cc < 8 ∧ myRead i choice d = (d', none) ∨
        m + cc = 8 ∧ myRead i choice d = (d'.finish i, some 8)) := by
  refine ⟨min (choice + 1) (8 - m), by omega, by omega, _, rfl, ?_⟩
  have hcc : min (choice + 1) (8 - m) ≤ ((record i).drop m).length := by
    rw [List.length_drop, hlen]
    omega
  have hbytes : (d.file.drop d.offset).take (min (choice + 1) (8 - m)) =
      ((record i).drop m).take (min (choice + 1) (8 - m)) := by
    rw [hstream, List.take_append_of_le_length hcc]
  have hcount : (((record i).drop m).take (min (choice + 1) (8 - m))).length = min (choice + 1) (8 - m) :=
    List.length_take_of_le hcc
  have hne : min (choice + 1) (8 - m) ≠ 0 := by omega
  simp only [myRead, hlen, hm, hbytes, hcount, if_neg hne]
  split_ifs with hfull
  · exact .inl ⟨by omega, rfl⟩
  · exact .inr ⟨by omega, rfl⟩

end Calls

section Flow
variable {ntasks : ℕ}

/-- The bytes that the operations of one kind move, in order. -/
def bytesOf (op : Op) (l : List (Party ntasks × Op)) : Word :=
  l.flatMap fun x => if x.2 = op then record x.1 else []

/-- What the reads among some operations should return. -/
def records (l : List (Party ntasks × Op)) : List (Party ntasks × Word) := l.map fun x => (x.1, record x.1)

/-- The participant of the next operation has moved m bytes, and nobody else has moved any. -/
def Part (d : Io ntasks) (m : ℕ) : List (Party ntasks × Op) → Prop
  | [] => m = 0 ∧ ∀ j, d.moved j = 0
  | (i, a) :: _ => d.moved i = m ∧ (∀ j ≠ i, d.moved j = 0) ∧ m < 8 ∧ (a = .fsync ∨ a = .lseek → m = 0)

/-- A check buffer is clear behind the place of the record. -/
def Cleared (b : Word) : Prop := b.length = bufSize ∧ b.drop 8 = List.replicate (bufSize - 8) nul

/-- The part of a run that writes. Behind its writes and fsyncs there is nothing more, or the lseek and then
reads of just the bytes that the file has in the end. -/
structure Writing (total : Word) (all : List (Party ntasks × Word)) (d : Io ntasks)
    (l : List (Party ntasks × Op)) : Prop where
  cleared : ∀ i, Cleared (d.check i)
  got : d.got = []
  atEnd : d.offset = d.file.length
  stream : ∃ m ws rest, Part d m l ∧ l = ws ++ rest ∧ (∀ x ∈ ws, x.2 = .write ∨ x.2 = .fsync) ∧
    d.file ++ (bytesOf .write ws).drop m = total ∧
    (rest = [] ∨ ∃ rs, rest = (.root, .lseek) :: rs ∧ (∀ x ∈ rs, x.2 = .read) ∧ bytesOf .read rs = total ∧
      records rs = all)

/-- The part of a run that reads: behind the offset are the records of the reads that are to come. -/
structure Reading (all : List (Party ntasks × Word)) (d : Io ntasks) (l : List (Party ntasks × Op)) :
    Prop where
  cleared : ∀ i, Cleared (d.check i)
  reads : ∀ x ∈ l, x.2 = .read
  got : d.got ++ records l = all
  stream : ∃ m, Part d m l ∧ d.file.drop d.offset = (bytesOf .read l).drop m ∧
    ∀ x ∈ l.head?, (d.check x.1).take m = (record x.1).take m

lemma Part.of_zero {d : Io ntasks} (h : ∀ j, d.moved j = 0) (l : List (Party ntasks × Op)) : Part d 0 l := by
  cases l with
  | nil => exact ⟨rfl, h⟩
  | cons x l => exact ⟨h x.1, fun j _ => h j, by omega, fun _ => rfl⟩

/-- With its operation over, a participant has moved nothing of the next one. -/
lemma Part.finish {d : Io ntasks} {m p : ℕ} {i : Party ntasks} {a : Op} {l : List (Party ntasks × Op)}
    (h : Part d m ((i, a) :: l)) (d' : Io ntasks) (l' : List (Party ntasks × Op)) (hmoved : d'.moved = Function.update d.moved i p) :
    Part (d'.finish i) 0 l' := by
  refine Part.of_zero (fun j => ?_) l'
  by_cases hj : j = i
  · subst hj
    simp [Io.finish]
  · simp [Io.finish, hmoved, hj, h.2.1 j hj]

/-- In the middle of its operation it has moved more. -/
lemma Part.again {d : Io ntasks} {m p : ℕ} {i : Party ntasks} {a : Op} {l : List (Party ntasks × Op)}
    (h : Part d m ((i, a) :: l)) (d' : Io ntasks) (hmoved : d'.moved = Function.update d.moved i p) (hp : p < 8)
    (ha : ¬ (a = .fsync ∨ a = .lseek)) : Part d' p ((i, a) :: l) :=
  ⟨by simp [hmoved], fun j hj => by simp [hmoved, hj, h.2.1 j hj], hp, fun h => absurd h ha⟩

lemma take_drop_append_drop {r rest : Word} {m : ℕ} (cc : ℕ) (hm : m + cc ≤ r.length) :
    ((r ++ rest).drop m) = (r.drop m).take cc ++ (r ++ rest).drop (m + cc) := by
  have hle : m ≤ r.length := by omega
  rw [List.drop_append_of_le_length hle, List.drop_append_of_le_length hm, ← List.append_assoc,
    ← List.drop_drop, List.take_append_drop]

variable {total : Word} {all : List (Party ntasks × Word)} {d : Io ntasks} {i : Party ntasks}
variable {l : List (Party ntasks × Op)}

/-- The operation goes on with the claim, or it is over and the claim holds of the rest. -/
def Steps (Flow : Io ntasks → List (Party ntasks × Op) → Prop) (d : Io ntasks) (i : Party ntasks) (a : Op)
    (l : List (Party ntasks × Op)) (choice : ℕ) : Prop :=
  ∃ d', (io i a choice d = (d', .again) ∧ Flow d' ((i, a) :: l)) ∨ (io i a choice d = (d', .pass) ∧ Flow d' l)

lemma badCount_eight (i : Party ntasks) : badCount i 8 = false := by cases i <;> rfl

lemma Writing.write (h : Writing total all d ((i, .write) :: l)) (hlen : (record i).length = 8) (choice : ℕ) :
    Steps (Writing total all) d i .write l choice := by
  obtain ⟨m, ws, rest, hpart, hl, hws, hfile, hrest⟩ := h.stream
  obtain ⟨ws, rfl⟩ : ∃ ws', ws = (i, .write) :: ws' := by
    cases ws with
    | nil =>
      obtain rfl | ⟨rs, rfl, -⟩ := hrest
      · cases hl
      · cases hl
    | cons x ws => exact ⟨ws, by rw [(List.cons_eq_cons.mp hl).1]⟩
  obtain rfl : l = ws ++ rest := (List.cons_eq_cons.mp hl).2
  have hbytes : bytesOf .write ((i, .write) :: ws) = record i ++ bytesOf .write ws := by simp [bytesOf]
  obtain ⟨cc, hpos, hle, d', hd', ⟨hlt, hcall⟩ | ⟨heq, hcall⟩⟩ :=
    myWrite_cases choice hlen hpart.1 hpart.2.2.1 h.atEnd
  · refine ⟨d', .inl ⟨by simp only [io, hcall], ?_⟩⟩
    have hpart' := hpart.again d' (by rw [hd']) hlt (by simp)
    subst hd'
    refine ⟨h.cleared, h.got, ?_, m + cc, (i, .write) :: ws, rest, hpart', rfl, hws, ?_, hrest⟩
    · simp [h.atEnd, hlen]
      omega
    · rw [hbytes, take_drop_append_drop cc (by omega)] at hfile
      rw [hbytes]
      simpa using hfile
  · refine ⟨d'.finish i, .inr ⟨by simp [io, hcall, badCount_eight], ?_⟩⟩
    have hpart' := hpart.finish d' (ws ++ rest) (by rw [hd'])
    subst hd'
    refine ⟨h.cleared, h.got, ?_, 0, ws, rest, hpart', rfl, fun x hx => hws x (by simp [hx]), ?_, hrest⟩
    · simp [Io.finish, h.atEnd, hlen]
      omega
    · rw [hbytes, take_drop_append_drop cc (by omega)] at hfile
      have hdone : (record i ++ bytesOf .write ws).drop (m + cc) = bytesOf .write ws := by
        rw [heq, ← hlen, List.drop_left]
      rw [hdone] at hfile
      simpa [Io.finish] using hfile

lemma Writing.fsync (h : Writing total all d ((i, .fsync) :: l)) (choice : ℕ) :
    Steps (Writing total all) d i .fsync l choice := by
  obtain ⟨m, ws, rest, hpart, hl, hws, hfile, hrest⟩ := h.stream
  obtain ⟨ws, rfl⟩ : ∃ ws', ws = (i, .fsync) :: ws' := by
    cases ws with
    | nil =>
      obtain rfl | ⟨rs, rfl, -⟩ := hrest
      · cases hl
      · cases hl
    | cons x ws => exact ⟨ws, by rw [(List.cons_eq_cons.mp hl).1]⟩
  obtain rfl : l = ws ++ rest := (List.cons_eq_cons.mp hl).2
  obtain ⟨hmi, hmoved, -, hm⟩ := hpart
  obtain rfl := hm (.inl rfl)
  have hzero : ∀ j, d.moved j = 0 := fun j => by
    by_cases hj : j = i
    · rw [hj, hmi]
    · exact hmoved j hj
  refine ⟨d, .inr ⟨rfl, h.cleared, h.got, h.atEnd, 0, ws, rest, .of_zero hzero _, rfl,
    fun x hx => hws x (by simp [hx]), ?_, hrest⟩⟩
  simpa [bytesOf] using hfile

/-- The lseek makes the bytes written those to be read. -/
lemma Writing.lseek (h : Writing total all d ((i, .lseek) :: l)) (choice : ℕ) :
    ∃ d', io i .lseek choice d = (d', .pass) ∧ Reading all d' l := by
  obtain ⟨m, ws, rest, hpart, hl, hws, hfile, hrest⟩ := h.stream
  obtain rfl : ws = [] := by
    cases ws with
    | nil => rfl
    | cons x ws =>
      have := hws x (by simp)
      rw [← (List.cons_eq_cons.mp hl).1] at this
      simp at this
  obtain rfl | ⟨rs, rfl, hreads, htotal, hall⟩ := hrest
  · cases hl
  · obtain ⟨hx, rfl⟩ := List.cons_eq_cons.mp hl
    obtain ⟨hmi, hmoved, -, hm⟩ := hpart
    obtain rfl := hm (.inr rfl)
    have hzero : ∀ j, d.moved j = 0 := fun j => by
      by_cases hj : j = i
      · rw [hj, hmi]
      · exact hmoved j hj
    refine ⟨{ d with offset := 0 }, rfl, h.cleared, hreads, ?_, 0, .of_zero hzero _, ?_, ?_⟩
    · simp [h.got, hall]
    · simpa [bytesOf, ← htotal] using hfile
    · simp

/-- A my_read that is over has the record of its participant in check. -/
lemma Reading.read (hlen : (record i).length = 8) (h : Reading all d ((i, .read) :: l)) (choice : ℕ) :
    Steps (Reading all) d i .read l choice := by
  obtain ⟨m, hpart, hstream, hcheck⟩ := h.stream
  have hbytes : bytesOf .read ((i, .read) :: l) = record i ++ bytesOf .read l := by simp [bytesOf]
  have hlt := hpart.2.2.1
  have hhead : (d.check i).take m = (record i).take m := hcheck (i, .read) (by simp)
  obtain ⟨hsize, hclear⟩ := h.cleared i
  have hle : m ≤ (record i).length := by omega
  rw [hbytes, List.drop_append_of_le_length hle] at hstream
  obtain ⟨cc, hpos, hcc, d', hd', hcall⟩ := myRead_cases choice hlen hpart.1 hlt hstream
  -- the bytes in check so far are those of the record
  have hfilled : (d.check i).take m ++ ((record i).drop m).take cc = (record i).take (m + cc) := by
    rw [hhead, ← List.take_add]
  have hlength : ((record i).take (m + cc)).length = m + cc := List.length_take_of_le (by omega)
  have hcleared : ∀ j, Cleared (d'.check j) := by
    intro j
    by_cases hj : j = i
    · subst hj
      subst hd'
      simp only [Function.update_self, hfilled]
      refine ⟨?_, ?_⟩
      · rw [List.length_append, hlength, List.length_drop, hsize]
        simp only [bufSize]
        omega
      · rw [List.drop_append, hlength, List.drop_drop, List.drop_eq_nil_of_le (by omega), List.nil_append]
        rw [show m + cc + (8 - (m + cc)) = 8 by omega, hclear]
    · subst hd'
      simpa [hj] using h.cleared j
  obtain ⟨hlt', hcall⟩ | ⟨heq, hcall⟩ := hcall
  · refine ⟨d', .inl ⟨by simp only [io, hcall], ?_⟩⟩
    have hpart' := hpart.again d' (by rw [hd']) hlt' (by simp)
    subst hd'
    refine ⟨hcleared, h.reads, h.got, m + cc, hpart', ?_, ?_⟩
    · rw [hbytes, List.drop_append_of_le_length (by omega), ← List.drop_drop, hstream,
        List.drop_append_of_le_length (by rw [List.length_drop]; omega), List.drop_drop]
    · intro x hx
      obtain rfl : (i, .read) = x := by simpa using hx
      simp only [Function.update_self, hfilled]
      rw [List.take_append_of_le_length (by omega), List.take_take, Nat.min_self]
  · have hall : (record i).take 8 = record i := List.take_of_length_le (by omega)
    have hbuff : d'.check i = buff i := by
      rw [hd']
      simp only [Function.update_self, hfilled, heq, hall, hclear, buff, hlen]
    have hrecord : (buff i).take 8 = record i := by
      rw [buff, List.take_append_of_le_length (by omega), hall]
    refine ⟨{ d'.finish i with got := d'.got ++ [(i, record i)] }, .inr ⟨?_, hcleared, ?_, ?_, 0, ?_, ?_, ?_⟩⟩
    · simp [io, hcall, Io.finish, badCount_eight, hbuff, hrecord]
    · exact fun x hx => h.reads x (by simp [hx])
    · simpa [hd', records, Io.finish] using h.got
    · exact hpart.finish d' _ (by rw [hd'])
    · have hdrop : (record i).drop 8 = [] := List.drop_eq_nil_of_le (by omega)
      rw [hd']
      simp only [Io.finish, List.drop_zero]
      rw [← List.drop_drop, hstream, List.drop_append_of_le_length (by rw [List.length_drop]; omega),
        List.drop_drop, heq, hdrop, List.nil_append]
    · simp

end Flow

section Runs
variable {ntasks : ℕ}

section Rules
variable {mode : Mode} {niters : ℕ} {file : Word} {Flow : Io ntasks → List (Party ntasks × Op) → Prop}

variable (hlt : ntasks ≤ 10 ^ 8) (niters : ℕ)
include hlt

end Rules

end Runs

end PipTestsuite.Seek
