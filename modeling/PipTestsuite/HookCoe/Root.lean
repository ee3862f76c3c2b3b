import PipTestsuite.HookCoe.Chain

/-! hook_and_coe.c: the root sends a file through the chain, a buffer at a time, and compares what comes back. -/
namespace PipTestsuite.HookCoe
open DescriptorTable

/-- BUFSZ -/
def bufsz : ℕ := 1024

/-- Compares at most n bytes, and none behind a NUL. -/
def strncmp : List UInt8 → List UInt8 → ℕ → ℤ
  | a :: s, b :: t, n + 1 => if a = b then if a = 0 then 0 else strncmp s t n else a.toNat - b.toNat
  | _, _, _ => 0

/-- Bytes are stored from an offset on. -/
def put (buf : List UInt8) (pos : ℕ) (bytes : List UInt8) : List UInt8 :=
  buf.take pos ++ bytes ++ buf.drop (pos + bytes.length)

/-- Where the root is. -/
inductive Line where
  | setup
  | readFile
  | write
  | readBack
  | compare
  | closeOut
  | closeIn
  | wait (i : ℕ)
  | exit
  | exitFail
  deriving DecidableEq

/-- The chain, what is left of the file, and the variables of main(); pw and pc are offsets in buff and check. -/
structure Test where
  chain : Chain UInt8
  line : Line
  file : List UInt8
  buff : List UInt8
  check : List UInt8
  cc : ℤ
  ccr : ℤ
  ccc : ℤ
  pw : ℕ
  pc : ℕ

/-- The next system call of the root; choice is how much a read() or write() moves. -/
def Test.rootStep (ntasks cap : ℕ) (s : Test) (choice : ℕ) : Option Test :=
  match s.line with
  | .setup =>
    if s.chain.todo = [] then some { s with line := .readFile }
    else s.chain.setupStep.map fun c => { s with chain := c }
  | .readFile =>
    let n := amount choice bufsz
    let got := s.file.take n
    if got = [] then some { s with ccr := 0, line := .closeOut }
    else some { s with
      file := s.file.drop n
      buff := put s.buff 0 got
      ccr := got.length
      cc := got.length
      ccc := got.length
      pw := 0
      line := .write }
  | .write =>
    let ccw := amount choice s.ccr.toNat
    (s.chain.rootWrite ntasks cap ((s.buff.drop s.pw).take ccw)).map fun c =>
      let s := { s with chain := c, ccr := s.ccr - ccw, pw := s.pw + ccw }
      if s.ccr > 0 then s
      else { s with check := List.replicate (bufsz + 1) 0, pc := 0, line := .readBack }
  | .readBack =>
    (s.chain.rootRead ntasks s.ccc.toNat choice).map fun (c, got) =>
      if got = [] then { s with chain := c, ccr := 0, line := .compare }
      else
        -- ccc =- ccr assigns -ccr
        let ccc : ℤ := -got.length
        { s with
          chain := c
          check := put s.check s.pc got
          ccr := got.length
          ccc := ccc
          pc := s.pc + got.length
          line := if ccc > 0 then .readBack else .compare }
  | .compare => some { s with line := if strncmp s.buff s.check s.cc.toNat ≠ 0 then .exitFail else .readFile }
  | .closeOut =>
    match s.chain.rootClose 0 .write with
    | some c => some { s with chain := c, line := .closeIn }
    | none => some { s with line := .exitFail }
  | .closeIn =>
    match s.chain.rootClose ntasks .read with
    | some c => some { s with chain := c, line := .wait 0 }
    | none => some { s with line := .exitFail }
  | .wait i =>
    if i < ntasks then
      if s.chain.pc i = .terminated ∨ s.chain.pc i = .failed then some { s with line := .wait (i + 1) } else none
    else some { s with line := .exit }
  | .exit => none
  | .exitFail => none

inductive Act where
  | root (choice : ℕ)
  | task (i choice : ℕ)

def testStep (ntasks cap : ℕ) (s : Test) : Act → Option Test
  | .root choice => s.rootStep ntasks cap choice
  | .task i choice => (s.chain.taskStep ntasks cap i choice).map fun c => { s with chain := c }

/-- buff and check have any contents at first. -/
def testStart (ntasks : ℕ) (T : Table ℕ) (file buff check : List UInt8) : Test where
  chain := start UInt8 ntasks T
  line := .setup
  file := file
  buff := buff
  check := check
  cc := 0
  ccr := 0
  ccc := 0
  pw := 0
  pc := 0

def runTest (ntasks cap : ℕ) (T : Table ℕ) (file buff check : List UInt8) (schedule : List Act) : Test :=
  Interleaving.run (testStep ntasks cap) (testStart ntasks T file buff check) schedule

/-- When the comparison comes, and the end of the file has not, all bytes written so far have been read, and those
of this round are in check. -/
def roundComplete (s : Test) : Prop :=
  s.line = .compare → s.ccr ≠ 0 →
    s.check.take s.cc.toNat = s.buff.take s.cc.toNat ∧ strncmp s.buff s.check s.cc.toNat = 0 ∧
      s.chain.readBack = s.chain.written

instance (s : Test) : Decidable (roundComplete s) := inferInstanceAs (Decidable (_ → _))

/-- A read() of fd_in finds all bytes that the round still expects, and returns them all. -/
def readsAll (ntasks : ℕ) (s : Test) : Act → Prop
  | .root choice => s.line = .readBack → s.ccc ≤ min (choice + 1) (s.chain.pipe ntasks).length
  | .task _ _ => True

end PipTestsuite.HookCoe
