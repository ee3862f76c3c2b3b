import PipTestsuite.ExitCode
import PipTestsuite.Lib.LockedCounter

/-! blt/pip_mutex.c: task 0 exports its mutex, its barrier and its count, and between two barriers all tasks
increment the count of task 0 under its mutex. Each task has variables of its own. -/
namespace PipTestsuite.BltMutex
open BarrierProgram
open LockedCounter (Cell Locked Guarded Path effect summand)

def intMax : ℕ := 2 ^ 31 - 1

/-- "MUTEX", "BARRIER" and "COUNT", and the variables exported under these names. -/
inductive Name where
  | mutex | barrier | count
  deriving DecidableEq

/-- mutexp = &mutex and pip_mutex_init, the same for the barrier, and count = 0 with countp = &count; the single
accesses of the loop; CHECK( count!=ntasks*niters ). -/
inductive Op where
  | init (name : Name)
  | namedExport (name : Name)
  | namedImport (name : Name)
  | checkPointer (name : Name)
  | loop (op : LockedCounter.Op ℕ)
  | checkCount
  deriving DecidableEq

/-- The variables of each task, by its pipid: what it has exported and imported, where a pointer is the pipid of
the task to whose variable it points. -/
structure Shared (ntasks : ℕ) where
  ready : ℕ → Name → Bool
  exported : ℕ → Name → Option ℕ
  pointer : ℕ → Name → Option ℕ
  holder : ℕ → Option (Fin ntasks)
  count : ℕ → ℕ
  loaded : Fin ntasks → ℕ

def initial (ntasks : ℕ) : Shared ntasks where
  ready _ _ := false
  exported _ _ := none
  pointer _ _ := none
  holder _ := none
  count _ := 0
  loaded _ := 0

variable {ntasks niters : ℕ}

def Shared.setPointer (d : Shared ntasks) (pipid : ℕ) (name : Name) (p : Option ℕ) : Shared ntasks :=
  { d with pointer := Function.update d.pointer pipid (Function.update (d.pointer pipid) name p) }

/-- The mutex of task p; a correct one lets one task in at a time. -/
def performMutex (pipid : Fin ntasks) (p : ℕ) (d : Shared ntasks) : LockedCounter.Op ℕ → Shared ntasks × Verdict
  | .lock =>
    if d.holder p = none then ({ d with holder := Function.update d.holder p (some pipid) }, .pass) else (d, .again)
  | .unlock =>
    if d.holder p = some pipid then ({ d with holder := Function.update d.holder p none }, .pass) else (d, .fail)
  | _ => (d, .pass)

/-- The count of task p; what does not fit in an int has no meaning. -/
def performCount (pipid : Fin ntasks) (p : ℕ) (d : Shared ntasks) : LockedCounter.Op ℕ → Shared ntasks × Verdict
  | .load => ({ d with loaded := Function.update d.loaded pipid (d.count p) }, .pass)
  | .store g =>
    if d.loaded pipid + g ≤ intMax then
      ({ d with count := Function.update d.count p (d.loaded pipid + g) }, .pass)
    else (d, .fail)
  | _ => (d, .pass)

/-- pip_mutex_lock( mutexp ), (*countp) ++ and pip_mutex_unlock( mutexp ) -/
def performLoop (pipid : Fin ntasks) (op : LockedCounter.Op ℕ) (d : Shared ntasks) : Shared ntasks × Verdict :=
  match op with
  | .lock | .unlock =>
    match d.pointer pipid .mutex with
    | some p => if d.ready p .mutex then performMutex pipid p d op else (d, .fail)
    | none => (d, .fail)
  | .load | .store _ =>
    match d.pointer pipid .count with
    | some p => performCount pipid p d op
    | none => (d, .fail)

def perform (niters : ℕ) : Exec (Fin ntasks) Op Unit (Shared ntasks)
  | pipid, .init name, _, d =>
    let d := d.setPointer pipid name (some pipid.val)
    ({ d with
        ready := Function.update d.ready pipid (Function.update (d.ready pipid) name true)
        count := if name = .count then Function.update d.count pipid 0 else d.count }, .pass)
  | pipid, .namedExport name, _, d =>
    let exports := Function.update (d.exported pipid) name (d.pointer pipid name)
    ({ d with exported := Function.update d.exported pipid exports }, .pass)
  | pipid, .namedImport name, _, d =>
    match d.exported 0 name with
    | some p => (d.setPointer pipid name (some p), .pass)
    | none => (d, .again)
  | pipid, .checkPointer name, _, d => (d, if d.pointer pipid name = none then .fail else .pass)
  | pipid, .loop op, _, d => performLoop pipid op d
  | pipid, .checkCount, _, d =>
    (d, if ntasks * niters ≤ intMax ∧ d.count pipid = ntasks * niters then .pass else .fail)

def setup (pipid : ℕ) : List Op :=
  if pipid = 0 then
    [.init .mutex, .namedExport .mutex, .init .barrier, .namedExport .barrier, .init .count, .namedExport .count]
  else
    [.namedImport .mutex, .checkPointer .mutex, .namedImport .barrier, .checkPointer .barrier, .namedImport .count,
      .checkPointer .count]

def loop (niters : ℕ) : List Op :=
  (List.replicate niters [.loop .lock, .loop .load, .loop (.store 1), .loop .unlock]).flatten

def finalCheck (pipid : ℕ) : List Op := if pipid = 0 then [.checkCount] else []

def main (niters : ℕ) (pipid : Fin ntasks) : List (Instr Op) :=
  (setup pipid).map .act ++ .wait :: ((loop niters).map .act ++ .wait :: (finalCheck pipid).map .act)

def run (ntasks niters : ℕ) (schedule : List (Event (Fin ntasks) Unit)) :
    Config (Fin ntasks) Op (Shared ntasks) :=
  Config.run (perform niters) (main niters) (initial ntasks) schedule

def view : Op → Option (LockedCounter.Op ℕ)
  | .loop op => some op
  | _ => none

section Programs

lemma phase_main (pipid : Fin ntasks) (k : ℕ) :
    phase (main niters pipid) k =
      if k = 0 then setup pipid else if k = 1 then loop niters else if k = 2 then finalCheck pipid else [] := by
  rcases k with _ | _ | _ | k
  · simp [main, phase_append, phase]
  · simp [main, phase_append, phase]
  · simp [main, phase_append, phase]
  · simp [main, phase_append, phase]

lemma waits_main (pipid : Fin ntasks) : waits (main niters pipid) = 2 := by
  simp [main, waits]

lemma path_loop (niters : ℕ) : Guarded view (loop niters) .outside := by
  refine Path.flatten_replicate ?_ niters
  exact ⟨_, .lock, _, .load, _, .store 1, _, .unlock, rfl⟩

lemma effect_loop (niters : ℕ) : effect view (loop niters) = niters := by
  rw [loop, LockedCounter.effect_flatten_replicate]
  simp [view, summand]

end Programs

section Setup
variable {d d' : Shared ntasks} {todo : Fin ntasks → List Op} {i : Fin ntasks} {a : Op} {l : List Op}

/-- Before the first barrier: what is exported and imported so far is ready, and what is not to be done any
more has been done. -/
structure Setup (d : Shared ntasks) (todo : Fin ntasks → List Op) : Prop where
  suffix : ∀ i : Fin ntasks, todo i <:+ setup i
  exported : ∀ name p, d.exported 0 name = some p → p = 0 ∧ d.ready 0 name = true
  pointer : ∀ (i : Fin ntasks) name p, d.pointer i name = some p → p = 0 ∧ d.ready 0 name = true
  inits : ∀ i : Fin ntasks, i.val = 0 → ∀ name, .init name ∉ todo i → d.pointer i name = some 0
  exports : ∀ i : Fin ntasks, i.val = 0 → ∀ name, .namedExport name ∉ todo i → d.exported 0 name = some 0
  imports : ∀ i : Fin ntasks, i.val ≠ 0 → ∀ name, .namedImport name ∉ todo i → d.pointer i name = some 0
  free : d.holder 0 = none
  zero : d.count 0 = 0

/-- Task 0 exports a variable behind its initialisation, and the others check a pointer behind its import. -/
lemma suffix_setup {pipid : ℕ} (h : a :: l <:+ setup pipid) :
    (pipid = 0 ∧ ((∃ name, a = .init name) ∨ ∃ name, a = .namedExport name ∧ .init name ∉ l)) ∨
      (pipid ≠ 0 ∧ ((∃ name, a = .namedImport name) ∨ ∃ name, a = .checkPointer name ∧ .namedImport name ∉ l)) := by
  unfold setup at h
  split_ifs at h with hp
  · refine .inl ⟨hp, ?_⟩
    simp only [List.suffix_cons_iff, List.suffix_nil, List.cons.injEq, reduceCtorEq, or_false] at h
    rcases h with ⟨rfl, rfl⟩ | ⟨rfl, rfl⟩ | ⟨rfl, rfl⟩ | ⟨rfl, rfl⟩ | ⟨rfl, rfl⟩ | ⟨rfl, rfl⟩ <;> simp
  · refine .inr ⟨hp, ?_⟩
    simp only [List.suffix_cons_iff, List.suffix_nil, List.cons.injEq, reduceCtorEq, or_false] at h
    rcases h with ⟨rfl, rfl⟩ | ⟨rfl, rfl⟩ | ⟨rfl, rfl⟩ | ⟨rfl, rfl⟩ | ⟨rfl, rfl⟩ | ⟨rfl, rfl⟩ <;> simp

lemma initial_setup : Setup (initial ntasks) fun i => setup i where
  suffix i := List.suffix_rfl
  exported name p h := by cases h
  pointer i name p h := by cases h
  inits i hi name hname := absurd (by cases name <;> simp [setup, hi]) hname
  exports i hi name hname := absurd (by cases name <;> simp [setup, hi]) hname
  imports i hi name hname := absurd (by cases name <;> simp [setup, hi]) hname
  free := rfl
  zero := rfl

lemma Setup.pass_init (h : Setup d todo) {name : Name} (htodo : todo i = .init name :: l) (hi : i.val = 0)
    (hexec : perform niters i (.init name) () d = (d', .pass)) : Setup d' (Function.update todo i l) := by
  obtain ⟨rfl, -⟩ := Prod.mk.inj hexec
  have hready : ∀ n, d.ready 0 n = true → Function.update (d.ready 0) name true n = true := fun n hn => by
    by_cases hname : n = name
    · simp [hname]
    · simpa [hname] using hn
  refine ⟨suffix_update h.suffix htodo, fun n p hp => ?_, fun j n p hp => ?_, fun j hj n hn => ?_, fun j hj n hn => ?_,
    fun j hj n hn => ?_, h.free, ?_⟩
  · obtain ⟨hzero, hn⟩ := h.exported n p hp
    exact ⟨hzero, by simpa [Shared.setPointer, hi] using hready n hn⟩
  · by_cases hj : j.val = 0
    · by_cases hn : n = name
      · subst hn
        have hzero : some 0 = some p := by simpa [Shared.setPointer, hi, hj] using hp
        exact ⟨(Option.some.inj hzero).symm, by simp [Shared.setPointer, hi]⟩
      · have hold : d.pointer j n = some p := by simpa [Shared.setPointer, hi, hj, hn] using hp
        obtain ⟨hzero, hr⟩ := h.pointer j n p hold
        exact ⟨hzero, by simpa [Shared.setPointer, hi] using hready n hr⟩
    · have hold : d.pointer j n = some p := by simpa [Shared.setPointer, hi, hj] using hp
      obtain ⟨hzero, hr⟩ := h.pointer j n p hold
      exact ⟨hzero, by simpa [Shared.setPointer, hi] using hready n hr⟩
  · by_cases hname : n = name
    · simp [Shared.setPointer, hi, hj, hname]
    · obtain ⟨-, heq⟩ | hold := notMem_update htodo hn
      · exact absurd (Op.init.inj heq) hname
      · simpa [Shared.setPointer, hi, hj, hname] using h.inits j hj n hold
  · obtain ⟨-, heq⟩ | hold := notMem_update htodo hn
    · cases heq
    · exact h.exports j hj n hold
  · obtain ⟨-, heq⟩ | hold := notMem_update htodo hn
    · cases heq
    · simpa [Shared.setPointer, hi, hj] using h.imports j hj n hold
  · have hzero := h.zero
    simp only [Shared.setPointer, hi]
    split_ifs
    · exact Function.update_self ..
    · exact hzero

lemma Setup.pass_export (h : Setup d todo) {name : Name} (htodo : todo i = .namedExport name :: l) (hi : i.val = 0)
    (hname : .init name ∉ l) (hexec : perform niters i (.namedExport name) () d = (d', .pass)) :
    Setup d' (Function.update todo i l) := by
  obtain ⟨rfl, -⟩ := Prod.mk.inj hexec
  have hpointer : d.pointer i name = some 0 := h.inits i hi name (by simpa [htodo] using hname)
  have hready := (h.pointer i name 0 hpointer).2
  refine ⟨suffix_update h.suffix htodo, fun n p hp => ?_, h.pointer, fun j hj n hn => ?_, fun j hj n hn => ?_,
    fun j hj n hn => ?_, h.free, h.zero⟩
  · by_cases hn : n = name
    · subst hn
      have hzero : some 0 = some p := by simpa [hi, ← hpointer] using hp
      exact ⟨(Option.some.inj hzero).symm, hready⟩
    · exact h.exported n p (by simpa [hi, hn] using hp)
  · obtain ⟨-, heq⟩ | hold := notMem_update htodo hn
    · cases heq
    · exact h.inits j hj n hold
  · by_cases hname : n = name
    · subst hname
      rw [hi] at hpointer
      simp [hi, hpointer]
    · obtain ⟨-, heq⟩ | hold := notMem_update htodo hn
      · exact absurd (Op.namedExport.inj heq) hname
      · simpa [hi, hname] using h.exports j hj n hold
  · obtain ⟨-, heq⟩ | hold := notMem_update htodo hn
    · cases heq
    · exact h.imports j hj n hold

lemma Setup.pass_import (h : Setup d todo) {name : Name} (htodo : todo i = .namedImport name :: l) (hi : i.val ≠ 0)
    (hexec : perform niters i (.namedImport name) () d = (d', .pass)) : Setup d' (Function.update todo i l) := by
  simp only [perform] at hexec
  split at hexec
  · rename_i p hexported
    obtain ⟨rfl, -⟩ := Prod.mk.inj hexec
    obtain ⟨rfl, hready⟩ := h.exported name p hexported
    have hother : ∀ j : Fin ntasks, j.val = 0 → j.val ≠ i.val := fun j hj => by omega
    refine ⟨suffix_update h.suffix htodo, h.exported, fun j n p hp => ?_, fun j hj n hn => ?_, fun j hj n hn => ?_,
      fun j hj n hn => ?_, h.free, h.zero⟩
    · by_cases hset : j.val = i.val ∧ n = name
      · obtain ⟨hj, rfl⟩ := hset
        have hzero : some 0 = some p := by simpa [Shared.setPointer, hj] using hp
        exact ⟨(Option.some.inj hzero).symm, hready⟩
      · refine h.pointer j n p ?_
        by_cases hj : j.val = i.val
        · have hn : n ≠ name := fun hn => hset ⟨hj, hn⟩
          simpa [Shared.setPointer, hj, hn] using hp
        · simpa [Shared.setPointer, hj] using hp
    · obtain ⟨-, heq⟩ | hold := notMem_update htodo hn
      · cases heq
      · simpa [Shared.setPointer, hother j hj] using h.inits j hj n hold
    · obtain ⟨-, heq⟩ | hold := notMem_update htodo hn
      · cases heq
      · exact h.exports j hj n hold
    · obtain ⟨rfl, heq⟩ | hold := notMem_update htodo hn
      · simp [Shared.setPointer, Op.namedImport.inj heq]
      · have hpointer := h.imports j hj n hold
        by_cases hset : j.val = i.val
        · by_cases hn : n = name
          · simp [Shared.setPointer, hset, hn]
          · simpa [Shared.setPointer, hset, hn] using hpointer
        · simpa [Shared.setPointer, hset] using hpointer
  · cases (Prod.mk.inj hexec).2

lemma Setup.pass_check (h : Setup d todo) {name : Name} (htodo : todo i = .checkPointer name :: l)
    (hexec : perform niters i (.checkPointer name) () d = (d', .pass)) :
    Setup d' (Function.update todo i l) := by
  obtain ⟨rfl, -⟩ := Prod.mk.inj hexec
  refine ⟨suffix_update h.suffix htodo, h.exported, h.pointer, fun j hj n hn => ?_, fun j hj n hn => ?_,
    fun j hj n hn => ?_, h.free, h.zero⟩
  · obtain ⟨-, heq⟩ | hold := notMem_update htodo hn
    · cases heq
    · exact h.inits j hj n hold
  · obtain ⟨-, heq⟩ | hold := notMem_update htodo hn
    · cases heq
    · exact h.exports j hj n hold
  · obtain ⟨-, heq⟩ | hold := notMem_update htodo hn
    · cases heq
    · exact h.imports j hj n hold

/-- What a task comes to before the first barrier. -/
lemma Setup.cons (h : Setup d todo) (htodo : todo i = a :: l) :
    (i.val = 0 ∧ ((∃ name, a = .init name) ∨ ∃ name, a = .namedExport name ∧ .init name ∉ l)) ∨
      (i.val ≠ 0 ∧ ((∃ name, a = .namedImport name) ∨ ∃ name, a = .checkPointer name ∧ .namedImport name ∉ l)) := by
  have hsuffix := h.suffix i
  rw [htodo] at hsuffix
  exact suffix_setup hsuffix

lemma Setup.pass (h : Setup d todo) (htodo : todo i = a :: l)
    (hexec : perform niters i a () d = (d', .pass)) : Setup d' (Function.update todo i l) := by
  obtain ⟨hi, ⟨name, rfl⟩ | ⟨name, rfl, hname⟩⟩ | ⟨hi, ⟨name, rfl⟩ | ⟨name, rfl, -⟩⟩ := h.cons htodo
  · exact h.pass_init htodo hi hexec
  · exact h.pass_export htodo hi hname hexec
  · exact h.pass_import htodo hi hexec
  · exact h.pass_check htodo hexec

lemma Setup.not_fail (h : Setup d todo) (htodo : todo i = a :: l) : (perform niters i a () d).2 ≠ .fail := by
  obtain ⟨-, ⟨name, rfl⟩ | ⟨name, rfl, -⟩⟩ | ⟨hi, ⟨name, rfl⟩ | ⟨name, rfl, hname⟩⟩ := h.cons htodo
  · exact Verdict.noConfusion
  · exact Verdict.noConfusion
  · simp only [perform]
    split <;> exact Verdict.noConfusion
  · have hpointer := h.imports i hi name (by simpa [htodo] using hname)
    simp [perform, hpointer]

/-- Whoever waits for an export waits for task 0, which has it still to do. -/
lemma Setup.progress (h : Setup d todo) (hpos : 0 < ntasks) (htodo : todo i = a :: l) :
    ∃ j b m, todo j = b :: m ∧ (perform niters j b () d).2 ≠ .again := by
  obtain ⟨-, ⟨name, rfl⟩ | ⟨name, rfl, -⟩⟩ | ⟨hi, ⟨name, rfl⟩ | ⟨name, rfl, -⟩⟩ := h.cons htodo
  · exact ⟨i, _, l, htodo, Verdict.noConfusion⟩
  · exact ⟨i, _, l, htodo, Verdict.noConfusion⟩
  · cases hexported : d.exported 0 name with
    | some p => exact ⟨i, _, l, htodo, by simp [perform, hexported]⟩
    | none =>
      obtain ⟨b, m, hb⟩ : ∃ b m, todo ⟨0, hpos⟩ = b :: m := by
        refine List.exists_cons_of_ne_nil fun hnil => ?_
        have := h.exports ⟨0, hpos⟩ rfl name (by simp [hnil])
        simp [hexported] at this
      refine ⟨_, b, m, hb, ?_⟩
      obtain ⟨-, ⟨name, rfl⟩ | ⟨name, rfl, -⟩⟩ | ⟨hne, -⟩ := h.cons hb
      · exact Verdict.noConfusion
      · exact Verdict.noConfusion
      · exact absurd rfl hne
  · refine ⟨i, _, l, htodo, ?_⟩
    simp only [perform]
    split_ifs <;> exact Verdict.noConfusion

end Setup

section Loop
variable {d d' : Shared ntasks} {todo : Fin ntasks → List Op} {i : Fin ntasks} {a : Op} {l : List Op}

/-- Everybody works on the variables of task 0. -/
def Linked (d : Shared ntasks) : Prop :=
  ∀ (i : Fin ntasks) name, d.pointer i name = some 0 ∧ d.ready 0 name = true

/-- The mutex and the count of task 0. -/
def cell (d : Shared ntasks) : Cell (Fin ntasks) ℕ := ⟨d.count 0, d.loaded, d.holder 0⟩

/-- With everybody at the variables of task 0 the loop does what the operations on one locked counter do. -/
lemma performLoop_linked (hlinked : Linked d) {op : LockedCounter.Op ℕ}
    (hfits : ∀ g, op = .store g → d.loaded i + g ≤ intMax) (hholds : op = .unlock → d.holder 0 = some i) :
    ∃ d', performLoop i op d = (d', (LockedCounter.perform i op (cell d)).2) ∧
      cell d' = (LockedCounter.perform i op (cell d)).1 ∧ Linked d' := by
  obtain ⟨hmutex, hready⟩ := hlinked i .mutex
  obtain ⟨hcount, -⟩ := hlinked i .count
  cases op with
  | lock =>
    simp only [performLoop, hmutex, hready, if_true, performMutex, LockedCounter.perform]
    by_cases hfree : d.holder 0 = none
    · have hcell : (cell d).holder = none := hfree
      rw [if_pos hfree, if_pos hcell]
      exact ⟨_, rfl, by simp [cell], hlinked⟩
    · have hcell : ¬ (cell d).holder = none := hfree
      rw [if_neg hfree, if_neg hcell]
      exact ⟨d, rfl, rfl, hlinked⟩
  | load =>
    simp only [performLoop, hcount, performCount]
    exact ⟨{ d with loaded := Function.update d.loaded i (d.count 0) }, rfl, rfl, hlinked⟩
  | store g =>
    simp only [performLoop, hcount, performCount, if_pos (hfits g rfl)]
    exact ⟨_, rfl, by simp [cell, LockedCounter.perform], hlinked⟩
  | unlock =>
    simp only [performLoop, hmutex, hready, if_true, performMutex, if_pos (hholds rfl)]
    exact ⟨_, rfl, by simp [cell, LockedCounter.perform], hlinked⟩

/-- Behind the first barrier there is only the loop, behind the second one only the check. -/
structure Working (niters k : ℕ) (d : Shared ntasks) (todo : Fin ntasks → List Op) : Prop where
  linked : Linked d
  locked : Locked view (ntasks * niters) (cell d) todo
  ops : ∀ i, ∀ a ∈ todo i, if k = 1 then ∃ op, a = .loop op else i.val = 0 ∧ a = .checkCount

def Claim (niters : ℕ) : ℕ → Shared ntasks → (Fin ntasks → List Op) → Prop
  | 0, d, todo => Setup d todo
  | k + 1, d, todo => Working niters (k + 1) d todo

variable {k : ℕ}

lemma Working.cons (h : Working niters k d todo) (htodo : todo i = a :: l) :
    (k = 1 ∧ ∃ op, a = .loop op) ∨ (k ≠ 1 ∧ i.val = 0 ∧ a = .checkCount) := by
  have hop := h.ops i a (by simp [htodo])
  split_ifs at hop with hk
  · exact .inl ⟨hk, hop⟩
  · exact .inr ⟨hk, hop⟩

lemma Working.loop_eq (h : Working niters k d todo) (hfits : ntasks * niters ≤ intMax)
    {op : LockedCounter.Op ℕ} (htodo : todo i = .loop op :: l) :
    ∃ d', performLoop i op d = (d', (LockedCounter.perform i op (cell d)).2) ∧
      cell d' = (LockedCounter.perform i op (cell d)).1 ∧ Linked d' := by
  refine performLoop_linked h.linked (fun g hg => ?_) fun hop => ?_
  · exact (h.locked.store_le htodo (congrArg some hg)).trans hfits
  · exact h.locked.holder_eq htodo rfl (by simp [hop])

lemma Working.pass (h : Working niters k d todo) (hfits : ntasks * niters ≤ intMax) (htodo : todo i = a :: l)
    (hexec : perform niters i a () d = (d', .pass)) : Working niters k d' (Function.update todo i l) := by
  have hops : ∀ j, ∀ b ∈ Function.update todo i l j,
      if k = 1 then ∃ op, b = .loop op else j.val = 0 ∧ b = .checkCount := fun j b hb => by
    by_cases hj : j = i
    · subst hj
      rw [Function.update_self] at hb
      exact h.ops j b (by simp [htodo, hb])
    · rw [Function.update_of_ne hj] at hb
      exact h.ops j b hb
  obtain ⟨-, op, rfl⟩ | ⟨-, -, rfl⟩ := h.cons htodo
  · obtain ⟨d'', hloop, hcell, hlinked⟩ := h.loop_eq hfits htodo
    obtain ⟨rfl, hverdict⟩ := Prod.mk.inj (hloop.symm.trans hexec)
    exact ⟨hlinked, h.locked.pass htodo (by rw [LockedCounter.act, view, hcell, ← hverdict]), hops⟩
  · obtain rfl := (Prod.mk.inj hexec).1
    exact ⟨h.linked, h.locked.pass htodo rfl, hops⟩

/-- With nothing but the check left, all increments are there. -/
lemma Working.count_eq (h : Working niters k d todo) (hk : k ≠ 1) : d.count 0 = ntasks * niters := by
  refine h.locked.value_eq fun i => LockedCounter.effect_of_other fun a ha => ?_
  have hop := h.ops i a ha
  rw [if_neg hk] at hop
  rw [hop.2]
  rfl

lemma Working.not_fail (h : Working niters k d todo) (hfits : ntasks * niters ≤ intMax) (htodo : todo i = a :: l) :
    (perform niters i a () d).2 ≠ .fail := by
  obtain ⟨-, op, rfl⟩ | ⟨hk, hi, rfl⟩ := h.cons htodo
  · obtain ⟨d', hloop, -⟩ := h.loop_eq hfits htodo
    rw [perform, hloop]
    exact LockedCounter.perform_ne_fail i op (cell d)
  · simp [perform, hfits, hi, h.count_eq hk]

/-- An operation that waits leaves everything as it is. -/
lemma perform_again (hexec : perform niters i a () d = (d', .again)) : d' = d := by
  cases a with
  | init name | namedExport name => cases (Prod.mk.inj hexec).2
  | checkPointer name | checkCount => exact (Prod.mk.inj hexec).1.symm
  | namedImport name =>
    simp only [perform] at hexec
    split at hexec
    · cases (Prod.mk.inj hexec).2
    · exact (Prod.mk.inj hexec).1.symm
  | loop op =>
    simp only [perform, performLoop] at hexec
    cases op with
    | lock | unlock =>
      simp only [performMutex] at hexec
      split at hexec
      · split_ifs at hexec
        all_goals first | exact (Prod.mk.inj hexec).1.symm | cases (Prod.mk.inj hexec).2
      · cases (Prod.mk.inj hexec).2
    | load | store g =>
      simp only [performCount] at hexec
      split at hexec
      · first | cases (Prod.mk.inj hexec).2 | (split_ifs at hexec <;> cases (Prod.mk.inj hexec).2)
      · cases (Prod.mk.inj hexec).2

lemma Working.progress (h : Working niters k d todo) (hfits : ntasks * niters ≤ intMax) (htodo : todo i = a :: l) :
    ∃ j b m, todo j = b :: m ∧ (perform niters j b () d).2 ≠ .again := by
  obtain ⟨j, b, m, hj, hlock⟩ := h.locked.progress htodo
  refine ⟨j, b, m, hj, ?_⟩
  obtain ⟨-, op, rfl⟩ | ⟨-, -, rfl⟩ := h.cons hj
  · obtain ⟨d', hloop, -⟩ := h.loop_eq hfits hj
    rw [perform, hloop]
    exact LockedCounter.perform_ne_again fun hop => hlock (congrArg some hop)
  · simp only [perform]
    split_ifs <;> exact Verdict.noConfusion

lemma Setup.linked (h : Setup d fun _ => []) : Linked d := by
  intro i name
  have hpointer : d.pointer i name = some 0 := by
    by_cases hi : i.val = 0
    · exact h.inits i hi name (by simp)
    · exact h.imports i hi name (by simp)
  exact ⟨hpointer, (h.pointer i name 0 hpointer).2⟩

lemma Claim.next (h : Claim niters k d fun _ => []) :
    Claim niters (k + 1) d fun i => phase (main niters i) (k + 1) := by
  have hops : ∀ i : Fin ntasks, ∀ a ∈ phase (main niters i) (k + 1),
      if k + 1 = 1 then ∃ op, a = .loop op else i.val = 0 ∧ a = .checkCount := by
    intro i a ha
    rw [phase_main] at ha
    rcases k with _ | _ | k
    · obtain ⟨r, hr, ha⟩ := List.mem_flatten.mp (by simpa using ha : a ∈ loop niters)
      rw [List.eq_of_mem_replicate hr] at ha
      fin_cases ha <;> exact ⟨_, rfl⟩
    · simpa [finalCheck] using ha
    · simp at ha
  match k with
  | 0 =>
    have hphase : ∀ i : Fin ntasks, phase (main niters i) 1 = loop niters := fun i => phase_main i 1
    refine ⟨h.linked, .of_guarded h.free (fun i => ?_) ?_, hops⟩
    · rw [hphase]
      exact path_loop niters
    · have hzero : (cell d).value = 0 := h.zero
      simp [hphase, effect_loop, hzero]
  | k + 1 =>
    have hview : ∀ i : Fin ntasks, ∀ a ∈ phase (main niters i) (k + 1 + 1), view a = none := fun i a ha => by
      have hop := hops i a ha
      rw [if_neg (by omega)] at hop
      rw [hop.2]
      rfl
    refine ⟨h.linked, .of_guarded ?_ (fun i => Path.of_other (hview i)) ?_, hops⟩
    · by_contra hholder
      obtain ⟨j, hj⟩ := Option.ne_none_iff_exists'.mp hholder
      obtain ⟨a, m, hnil, -⟩ := (h.locked.stands j).exists_cons hj
      cases hnil
    · rw [Finset.sum_eq_zero fun i _ => LockedCounter.effect_of_other (hview i), add_zero]
      exact h.locked.value_eq fun i => rfl

theorem phaseRule (hfits : ntasks * niters ≤ intMax) :
    PhaseRule (main niters) (perform niters) (initial ntasks) (Claim niters) where
  start := by
    simp only [phase_main]
    exact initial_setup
  again k d d' todo i a l _ h _ hexec := by rwa [perform_again hexec]
  pass k d d' todo i a l _ h htodo hexec := by
    cases k with
    | zero => exact Setup.pass h htodo hexec
    | succ k => exact Working.pass h hfits htodo hexec
  fail k d todo i a l _ h htodo := by
    cases k with
    | zero => exact Setup.not_fail h htodo
    | succ k => exact Working.not_fail h hfits htodo
  next k d _ h := h.next

lemma Claim.progress (h : Claim niters k d todo) (hpos : 0 < ntasks) (hfits : ntasks * niters ≤ intMax)
    (htodo : todo i = a :: l) : ∃ j b m choice, todo j = b :: m ∧ (perform niters j b choice d).2 ≠ .again := by
  have hex : ∃ j b m, todo j = b :: m ∧ (perform niters j b () d).2 ≠ .again := by
    cases k with
    | zero => exact Setup.progress h hpos htodo
    | succ k => exact Working.progress h hfits htodo
  obtain ⟨j, b, m, hj, hne⟩ := hex
  exact ⟨j, b, m, (), hj, hne⟩

lemma Claim.count_le (h : Claim niters k d todo) : d.count 0 ≤ ntasks * niters := by
  cases k with
  | zero =>
    rw [Setup.zero h]
    exact Nat.zero_le _
  | succ k => exact (Working.locked h).value_le

end Loop

section Runs

/-- No CHECK fails and nothing without a meaning is done, one task at a time is between lock and unlock, whoever
comes to a barrier comes to that of task 0 behind its initialisation, and count never exceeds its final value,
to which all tasks can always get. -/
structure Sound (niters : ℕ) (c : Config (Fin ntasks) Op (Shared ntasks)) : Prop where
  ok : ∀ i, c.sync.failed i = false
  exclusive : ∀ i j o o', c.AboutTo i (.loop o) → c.AboutTo j (.loop o') → o ≠ .lock → o' ≠ .lock → i = j
  barrier : ∀ i rest, c.sync.todo i = .wait :: rest →
    c.data.pointer i .barrier = some 0 ∧ c.data.ready 0 .barrier = true
  bounded : c.data.count 0 ≤ ntasks * niters
  ends : ∀ e c', c.step (perform niters) e = some c' → c' = c ∨ work c'.sync < work c.sync
  goesOn : ∃ more, Finished (Interleaving.run (Config.step (perform niters)) c more).sync
  final : Finished c.sync → c.data.count 0 = ntasks * niters

variable {c : Config (Fin ntasks) Op (Shared ntasks)}

/-- Who stands before a barrier has nothing left to do in front of it, or has still to leave the one before. -/
lemma linked_of_wait (h : c.Inv (main niters) (Claim niters)) {i : Fin ntasks} {rest : List (Instr Op)}
    (htodo : c.sync.todo i = .wait :: rest) :
    c.data.pointer i .barrier = some 0 ∧ c.data.ready 0 .barrier = true := by
  have hclaim := h.claim
  generalize hgen : c.sync.gen = k at hclaim
  cases k with
  | zero =>
    have hcurrent : current c.sync i = [] := by
      rw [current_of_gen_zero hgen, htodo]
      rfl
    have hsetup : Setup c.data (current c.sync) := hclaim
    have hpointer : c.data.pointer i .barrier = some 0 := by
      by_cases hi : i.val = 0
      · exact hsetup.inits i hi .barrier (by simp [hcurrent])
      · exact hsetup.imports i hi .barrier (by simp [hcurrent])
    exact ⟨hpointer, (hsetup.pointer i .barrier 0 hpointer).2⟩
  | succ k => exact Working.linked hclaim i .barrier

theorem sound_of_inv (hpos : 0 < ntasks) (hfits : ntasks * niters ≤ intMax)
    (hinv : c.Inv (main niters) (Claim niters)) : Sound niters c := by
  have hne : Nonempty (Fin ntasks) := ⟨⟨0, hpos⟩⟩
  constructor
  · exact hinv.ok
  · intro i j o o' hi hj ho ho'
    obtain ⟨l, hl⟩ := hi.exists_current
    obtain ⟨m, hm⟩ := hj.exists_current
    have hclaim := hinv.claim
    generalize c.sync.gen = k at hclaim
    cases k with
    | zero => simpa using Setup.cons hclaim hl
    | succ k =>
      have hlocked := Working.locked hclaim
      have hholder := hlocked.holder_eq hl rfl ho
      exact Option.some.inj (hholder.symm.trans (hlocked.holder_eq hm rfl ho'))
  · exact fun i rest => linked_of_wait hinv
  · exact hinv.claim.count_le
  · exact fun e c' => Config.eq_or_work_lt (fun i a u d d' => perform_again) hinv.toPlaced
  · exact hinv.exists_finished (phaseRule hfits) (fun i => waits_main i) fun k d todo i a l hclaim htodo =>
      hclaim.progress hpos hfits htodo
  · intro hend
    have hclaim := hinv.claim_finished (fun i => waits_main i) hend
    exact Working.count_eq hclaim (by decide)

/-- Every interleaving of the tasks of the test, if its count fits in an int. -/
theorem no_increment_lost (ntasks niters : ℕ) (hpos : 0 < ntasks) (hfits : ntasks * niters ≤ intMax)
    (schedule : List (Event (Fin ntasks) Unit)) : Sound niters (run ntasks niters schedule) := by
  have hne : Nonempty (Fin ntasks) := ⟨⟨0, hpos⟩⟩
  exact sound_of_inv hpos hfits (Config.run_inv (phaseRule hfits) schedule)

/-- One step of each of three tasks that can make one, where the others come to their imports first. -/
def oneEach : List (Event (Fin 3) Unit) :=
  (List.finRange 3).reverse.flatMap fun pipid => [.act pipid (), .arrive pipid, .leave pipid]

/-- Two iterations up to the check of task 0, with the waits for the mutex. -/
theorem no_increment_lost_three :
    let c := run 3 2 (List.replicate 30 oneEach).flatten
    (∀ pipid, c.sync.todo pipid = []) ∧ Sound 2 c :=
  ⟨by decide +kernel, no_increment_lost 3 2 (by decide) (by decide) _⟩

end Runs

end PipTestsuite.BltMutex
