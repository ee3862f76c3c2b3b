import PipTestsuite.ExitCode
import PipTestsuite.Lib.BarrierPhases

/-! porting/atomic.c: threads add to one counter and subtract again by atomic operations, each counts how often
another one has come in between, and they print these numbers one after another. -/
namespace PipTestsuite.Atomic
open BarrierProgram

/-- CHECK( id<0 || id>nthreads ), x = pip_atomic_fetch_and_add, y = pip_atomic_sub_and_fetch with the count of
x != y, printf, and c = count of main. -/
inductive Op where
  | checkId | fetchAndAdd | subAndFetch | print | copy
  deriving DecidableEq

/-- main (none) and the threads. -/
abbrev Party (nthreads : ℕ) := Option (Fin nthreads)

/-- count, x and ninter of each thread, what has been printed, and c. -/
structure Shared (nthreads : ℕ) where
  count : ℤ
  x : Fin nthreads → ℤ
  ninter : Fin nthreads → ℕ
  out : List (Fin nthreads × ℕ)
  c : ℤ

/-- static pip_atomic_t count, and ninter = 0 -/
def initial (nthreads : ℕ) : Shared nthreads := ⟨0, fun _ => 0, fun _ => 0, [], 0⟩

variable {nthreads niters : ℕ}

/-- inc = id + 20 -/
def inc (id : Fin nthreads) : ℤ := id.val + 20

def perform : Exec (Party nthreads) Op Unit (Shared nthreads)
  | some id, .checkId, _, d => (d, if id.val > nthreads then .fail else .pass)
  | some id, .fetchAndAdd, _, d =>
    ({ d with x := Function.update d.x id d.count, count := d.count + inc id }, .pass)
  | some id, .subAndFetch, _, d =>
    let y := d.count - inc id
    let ninter := if d.x id ≠ y then d.ninter id + 1 else d.ninter id
    ({ d with count := y, ninter := Function.update d.ninter id ninter }, .pass)
  | some id, .print, _, d => ({ d with out := d.out ++ [(id, d.ninter id)] }, .pass)
  | none, .copy, _, d => ({ d with c := d.count }, .pass)
  | _, _, _, d => (d, .pass)

def loop (niters : ℕ) : List Op := (List.replicate niters [.fetchAndAdd, .subAndFetch]).flatten

def threadMain (niters : ℕ) (id : Fin nthreads) : List (Instr Op) :=
  .act .checkId :: .wait :: ((loop niters).map .act ++ .wait ::
    rounds nthreads fun i => (if i = id then [.print] else []).map .act ++ [.wait])

def main (nthreads : ℕ) : List (Instr Op) := [.wait, .wait, .act .copy] ++ List.replicate nthreads .wait

def program (nthreads niters : ℕ) : Party nthreads → List (Instr Op)
  | none => main nthreads
  | some id => threadMain niters id

def run (nthreads niters : ℕ) (schedule : List (Event (Party nthreads) Unit)) :
    Config (Party nthreads) Op (Shared nthreads) :=
  Config.run perform (program nthreads niters) (initial nthreads) schedule

/-- The exit status of the process, which ends where somebody fails, or where main has joined all threads. -/
def exitStatus (c : Config (Party nthreads) Op (Shared nthreads)) : Option ℕ :=
  if ∃ i, c.sync.failed i then some exitFail
  else if ∀ i, c.sync.todo i = [] then some (if c.data.c ≠ 0 then exitFail else exitPass)
  else none

section Programs

lemma loop_succ (n : ℕ) : loop (n + 1) = .fetchAndAdd :: .subAndFetch :: loop n := rfl

lemma loop_head (n : ℕ) : (loop n).head? ≠ some .subAndFetch := by
  cases n with
  | zero => simp [loop]
  | succ n => simp [loop_succ]

lemma phase_print (id : Fin nthreads) (k : ℕ) :
    phase (rounds nthreads fun i => (if i = id.val then [Op.print] else []).map .act ++ [.wait]) k =
      if k = id.val then [.print] else [] := by
  have hwaits : ∀ i, waits ((if i = id.val then [Op.print] else []).map .act ++ [.wait]) = 1 := fun i => by
    rw [waits_append, waits_map_act]
    rfl
  have hclosed : ∀ i, phase ((if i = id.val then [Op.print] else []).map .act ++ [.wait]) 1 = [] := fun i => by
    rw [phase_append, waits_map_act, phase_map_act]
    rfl
  have hrounds := phase_rounds_append Nat.one_pos hwaits hclosed nthreads [] k
  rw [List.append_nil] at hrounds
  rw [hrounds, Nat.mul_one, Nat.div_one, Nat.mod_one]
  split_ifs with hk hid hid
  · rfl
  · rfl
  · have := id.isLt
    omega
  · rfl

lemma phase_threadMain (id : Fin nthreads) (k : ℕ) :
    phase (threadMain niters id) k =
      if k = 0 then [.checkId] else if k = 1 then loop niters else if k = id.val + 2 then [.print] else [] := by
  rcases k with _ | _ | k
  · rfl
  · simp only [threadMain, phase, phase_append, waits_map_act, phase_map_act]
    simp [phase]
  · have hprint := phase_print id k
    simp only [threadMain, phase, phase_append, waits_map_act, phase_map_act, Nat.sub_zero]
    simp [hprint]

lemma phase_main (k : ℕ) : phase (main nthreads) k = if k = 2 then [.copy] else [] := by
  rcases k with _ | _ | _ | k
  · simp [main, phase]
  · simp [main, phase]
  · simp [main, phase]
  · simp [main, phase]

lemma phase_program (i : Party nthreads) (k : ℕ) :
    phase (program nthreads niters i) k = match i with
      | none => if k = 2 then [.copy] else []
      | some id =>
        if k = 0 then [.checkId] else if k = 1 then loop niters else if k = id.val + 2 then [.print] else [] := by
  cases i with
  | none => exact phase_main k
  | some id => exact phase_threadMain id k

lemma waits_program (i : Party nthreads) : waits (program nthreads niters i) = nthreads + 2 := by
  cases i with
  | none => simp [program, main, waits]
  | some id =>
    have hbody : ∀ i, waits ((if i = id.val then [Op.print] else []).map .act ++ [.wait]) = 1 := fun i => by
      rw [waits_append, waits_map_act]
      rfl
    simp only [program, threadMain, waits, waits_append, waits_map_act, waits_rounds hbody]
    omega

end Programs

section Phases
variable {d d' : Shared nthreads} {todo : Party nthreads → List Op} {i : Party nthreads} {a : Op} {l : List Op}

/-- What a thread has added and not yet subtracted. -/
def held (id : Fin nthreads) (todo : List Op) : ℤ := if todo.head? = some .subAndFetch then inc id else 0

/-- What a thread that is alone reads twice is the same. -/
def Lone (d : Shared nthreads) (todo : Party nthreads → List Op) : Prop :=
  nthreads = 1 → ∀ id, d.ninter id = 0 ∧ ((todo (some id)).head? = some .subAndFetch → d.x id = 0)

/-- In the loops: a thread is before a round of its loop, or between the two operations of one. -/
structure Looping (niters : ℕ) (d : Shared nthreads) (todo : Party nthreads → List Op) : Prop where
  main : todo none = []
  threads : ∀ id, ∃ m, (todo (some id) = loop m ∧ d.ninter id + m ≤ niters) ∨
    (todo (some id) = .subAndFetch :: loop m ∧ d.ninter id + (m + 1) ≤ niters)
  count : d.count = ∑ id, held id (todo (some id))
  out : d.out = []
  lone : Lone d todo

/-- Behind the loops: the threads before number k have printed. -/
structure Printing (niters k : ℕ) (d : Shared nthreads) (todo : Party nthreads → List Op) : Prop where
  count : d.count = 0
  ninter : ∀ id, d.ninter id ≤ niters
  lone : nthreads = 1 → ∀ id, d.ninter id = 0
  main : (k = 0 ∧ todo none = [.copy]) ∨ (todo none = [] ∧ d.c = 0)
  others : ∀ id : Fin nthreads, id.val ≠ k → todo (some id) = []
  out : ∃ m, d.out = ((List.finRange nthreads).take m).map (fun id => (id, d.ninter id)) ∧
    ((m = k ∧ ∀ id : Fin nthreads, id.val = k → todo (some id) = [.print]) ∨
      (m = k + 1 ∧ ∀ id : Fin nthreads, id.val = k → todo (some id) = []))

/-- What holds in each phase. -/
def Claim (niters : ℕ) : ℕ → Shared nthreads → (Party nthreads → List Op) → Prop
  | 0, d, todo => d = initial nthreads ∧ todo none = [] ∧ ∀ id, ∀ a ∈ todo (some id), a = .checkId
  | 1, d, todo => Looping niters d todo
  | k + 2, d, todo => Printing niters k d todo

lemma sum_held_update (todo : Party nthreads → List Op) (id : Fin nthreads) (l : List Op) :
    ∑ j, held j (Function.update todo (some id) l (some j)) =
      ∑ j, held j (todo (some j)) + (held id l - held id (todo (some id))) := by
  have hsplit : ∀ f : Fin nthreads → ℤ, ∑ j, f j = f id + ∑ j ∈ Finset.univ.erase id, f j := fun f =>
    (Finset.add_sum_erase _ f (Finset.mem_univ id)).symm
  have hrest : ∑ j ∈ Finset.univ.erase id, held j (Function.update todo (some id) l (some j)) =
      ∑ j ∈ Finset.univ.erase id, held j (todo (some j)) :=
    Finset.sum_congr rfl fun j hj => by
      rw [Function.update_of_ne (by simpa using Finset.ne_of_mem_erase hj)]
  rw [hsplit, hrest, hsplit fun j => held j (todo (some j)), Function.update_self]
  ring

lemma held_loop (id : Fin nthreads) (m : ℕ) : held id (loop m) = 0 := if_neg (loop_head m)

/-- A thread adds: what it has read is what the others hold. -/
lemma Looping.pass_add (h : Looping niters d todo) {id : Fin nthreads} {m : ℕ}
    (htodo : todo (some id) = loop (m + 1)) (hrounds : d.ninter id + (m + 1) ≤ niters) :
    Looping niters { d with x := Function.update d.x id d.count, count := d.count + inc id }
      (Function.update todo (some id) (.subAndFetch :: loop m)) := by
  refine ⟨by simp [h.main], fun j => ?_, ?_, h.out, fun hone j => ?_⟩
  · by_cases hj : j = id
    · subst hj
      exact ⟨m, .inr ⟨Function.update_self .., hrounds⟩⟩
    · simpa [Function.update_of_ne, hj] using h.threads j
  · have hheld : held id (.subAndFetch :: loop m) = inc id := by simp [held]
    rw [sum_held_update, htodo, held_loop, hheld, h.count]
    ring
  · refine ⟨(h.lone hone j).1, fun _ => ?_⟩
    subst hone
    obtain rfl : j = id := Subsingleton.elim _ _
    have hcount := h.count
    rw [Fin.sum_univ_one, Subsingleton.elim 0 j, htodo, held_loop] at hcount
    simpa using hcount

/-- It subtracts again. -/
lemma Looping.pass_sub (h : Looping niters d todo) {id : Fin nthreads} {m : ℕ}
    (htodo : todo (some id) = .subAndFetch :: loop m) (hrounds : d.ninter id + (m + 1) ≤ niters)
    (hexec : perform (some id) .subAndFetch () d = (d', .pass)) :
    Looping niters d' (Function.update todo (some id) (loop m)) := by
  obtain ⟨rfl, -⟩ := Prod.mk.inj hexec
  have hheld : held id (todo (some id)) = inc id := by simp [held, htodo]
  refine ⟨by simp [h.main], fun j => ?_, ?_, h.out, fun hone j => ?_⟩
  · by_cases hj : j = id
    · subst hj
      refine ⟨m, .inl ⟨Function.update_self .., ?_⟩⟩
      simp only [Function.update_self]
      split_ifs <;> omega
    · simpa [Function.update_of_ne, hj] using h.threads j
  · rw [sum_held_update, hheld, held_loop, ← h.count]
    ring
  · subst hone
    obtain rfl : j = id := Subsingleton.elim _ _
    obtain ⟨hzero, hx⟩ := h.lone rfl j
    have hcount : d.count = inc j := by
      rw [h.count, Fin.sum_univ_one, Subsingleton.elim 0 j, hheld]
    have hread : d.x j = 0 := hx (by rw [htodo]; rfl)
    simp [hread, hcount, hzero, loop_head m]

lemma Printing.print {k : ℕ} (h : Printing niters k d todo) {id : Fin nthreads} (htodo : todo (some id) = a :: l) :
    id.val = k ∧ a = .print ∧ l = [] ∧
      d.out = ((List.finRange nthreads).take k).map fun id => (id, d.ninter id) := by
  have hid : id.val = k := by
    by_contra hne
    cases (h.others id hne).symm.trans htodo
  obtain ⟨m, hout, ⟨rfl, hprint⟩ | ⟨-, hnil⟩⟩ := h.out
  · obtain ⟨rfl, rfl⟩ := List.cons.inj (htodo.symm.trans (hprint id hid))
    exact ⟨hid, rfl, rfl, hout⟩
  · cases (hnil id hid).symm.trans htodo

lemma Printing.pass_print {k : ℕ} (h : Printing niters k d todo) {id : Fin nthreads}
    (htodo : todo (some id) = a :: l) (hexec : perform (some id) a () d = (d', .pass)) :
    Printing niters k d' (Function.update todo (some id) l) := by
  obtain ⟨hid, rfl, rfl, hout⟩ := h.print htodo
  obtain ⟨rfl, -⟩ := Prod.mk.inj hexec
  refine ⟨h.count, h.ninter, h.lone, by simpa using h.main, fun j hj => ?_, k + 1, ?_,
    .inr ⟨rfl, fun j hj => ?_⟩⟩
  · rw [Function.update_of_ne (by simp only [ne_eq, Option.some.injEq]; rintro rfl; exact hj hid)]
    exact h.others j hj
  · have hget : (List.finRange nthreads)[k]? = some id := by
      rw [List.getElem?_eq_getElem (by simp [← hid]), List.getElem_finRange]
      exact congrArg some (Fin.ext hid.symm)
    simp [List.take_add_one, hget, hout]
  · obtain rfl : j = id := Fin.ext (hj.trans hid.symm)
    exact Function.update_self ..

lemma Printing.pass_copy {k : ℕ} (h : Printing niters k d todo) (htodo : todo none = a :: l)
    (hexec : perform none a () d = (d', .pass)) : Printing niters k d' (Function.update todo none l) := by
  obtain ⟨-, hcopy⟩ | ⟨hnil, -⟩ := h.main
  · obtain ⟨rfl, rfl⟩ := List.cons.inj (htodo.symm.trans hcopy)
    obtain ⟨rfl, -⟩ := Prod.mk.inj hexec
    exact ⟨h.count, h.ninter, h.lone, .inr ⟨Function.update_self .., h.count⟩, by simpa using h.others,
      by simpa using h.out⟩
  · cases hnil.symm.trans htodo

lemma Looping.cons (h : Looping niters d todo) (htodo : todo i = a :: l) : ∃ id m, i = some id ∧
    ((a = .fetchAndAdd ∧ l = .subAndFetch :: loop m ∧ todo (some id) = loop (m + 1) ∧
        d.ninter id + (m + 1) ≤ niters) ∨
      (a = .subAndFetch ∧ l = loop m ∧ todo (some id) = .subAndFetch :: loop m ∧ d.ninter id + (m + 1) ≤ niters)) := by
  cases i with
  | none => cases h.main.symm.trans htodo
  | some id =>
    obtain ⟨m, ⟨hm, hrounds⟩ | ⟨hm, hrounds⟩⟩ := h.threads id
    · cases m with
      | zero => cases htodo.symm.trans hm
      | succ m =>
        obtain ⟨rfl, rfl⟩ := List.cons.inj (htodo.symm.trans (hm.trans (loop_succ m)))
        exact ⟨id, m, rfl, .inl ⟨rfl, rfl, hm, hrounds⟩⟩
    · obtain ⟨rfl, rfl⟩ := List.cons.inj (htodo.symm.trans hm)
      exact ⟨id, m, rfl, .inr ⟨rfl, rfl, hm, hrounds⟩⟩

lemma perform_pass (i : Party nthreads) (a : Op) (d : Shared nthreads) : (perform i a () d).2 = .pass := by
  cases i with
  | none => cases a <;> rfl
  | some id =>
    cases a with
    | checkId => simp [perform, Nat.not_lt.mpr id.isLt.le]
    | fetchAndAdd | subAndFetch | print | copy => rfl

lemma Claim.pass {k : ℕ} (h : Claim niters k d todo) (htodo : todo i = a :: l)
    (hexec : perform i a () d = (d', .pass)) : Claim niters k d' (Function.update todo i l) := by
  match k with
  | 0 =>
    obtain ⟨rfl, hmain, hthreads⟩ := h
    cases i with
    | none => cases hmain.symm.trans htodo
    | some id =>
      obtain rfl := hthreads id a (by simp [htodo])
      obtain ⟨rfl, -⟩ := Prod.mk.inj hexec
      refine ⟨rfl, by simpa using hmain, fun j b hb => ?_⟩
      by_cases hj : j = id
      · subst hj
        rw [Function.update_self] at hb
        exact hthreads j b (by simp [htodo, hb])
      · rw [Function.update_of_ne (by simpa using hj)] at hb
        exact hthreads j b hb
  | 1 =>
    obtain ⟨id, m, rfl, ⟨rfl, rfl, hm, hrounds⟩ | ⟨rfl, rfl, hm, hrounds⟩⟩ := Looping.cons h htodo
    · obtain ⟨rfl, -⟩ := Prod.mk.inj hexec
      exact Looping.pass_add h hm hrounds
    · exact Looping.pass_sub h hm hrounds hexec
  | k + 2 =>
    cases i with
    | none => exact Printing.pass_copy h htodo hexec
    | some id => exact Printing.pass_print h htodo hexec

lemma Claim.next {k : ℕ} (hk : k < nthreads + 2) (h : Claim niters k d fun _ => []) :
    Claim niters (k + 1) d fun i => phase (program nthreads niters i) (k + 1) := by
  match k with
  | 0 =>
    obtain ⟨rfl, -, -⟩ := h
    have hthread : ∀ id : Fin nthreads, phase (program nthreads niters (some id)) 1 = loop niters := fun id =>
      phase_program (some id) 1
    refine ⟨phase_program none 1, fun id => ⟨niters, .inl ⟨hthread id, by simp [initial]⟩⟩, ?_, rfl, fun _ id => ?_⟩
    · rw [Finset.sum_eq_zero fun id _ => by rw [hthread, held_loop]]
      rfl
    · refine ⟨rfl, fun hhead => absurd hhead ?_⟩
      rw [hthread]
      exact loop_head niters
  | 1 =>
    have hcount : d.count = 0 := (Looping.count h).trans (Finset.sum_eq_zero fun id _ => rfl)
    refine ⟨hcount, fun id => ?_, fun hone id => (Looping.lone h hone id).1, .inl ⟨rfl, phase_program none 2⟩,
      fun id hid => ?_, 0, ?_, .inl ⟨rfl, fun id hid => ?_⟩⟩
    · obtain ⟨m, ⟨-, hrounds⟩ | ⟨hm, -⟩⟩ := Looping.threads h id
      · omega
      · cases hm
    · rw [phase_program]
      simp [hid]
    · rw [Looping.out h]
      rfl
    · rw [phase_program]
      simp [hid]
  | k + 2 =>
    obtain ⟨-, hcopy⟩ | ⟨-, hc⟩ := Printing.main h
    · cases hcopy
    · obtain ⟨m, hout, ⟨-, hprint⟩ | ⟨rfl, -⟩⟩ := Printing.out h
      · cases hprint ⟨k, by omega⟩ rfl
      · refine ⟨Printing.count h, Printing.ninter h, Printing.lone h, .inr ⟨by simp [phase_program], hc⟩,
          fun id hid => ?_, k + 1, hout, .inl ⟨rfl, fun id hid => ?_⟩⟩
        · rw [phase_program]
          simp [Ne.symm hid]
        · rw [phase_program]
          simp [hid]

/-- In every phase count is what the threads between their two operations have added. -/
lemma Claim.count_eq {k : ℕ} (h : Claim niters k d todo) : d.count = ∑ id, held id (todo (some id)) := by
  match k with
  | 0 =>
    obtain ⟨rfl, -, hthreads⟩ := h
    refine (Finset.sum_eq_zero fun id _ => if_neg fun hhead => ?_).symm
    cases hthreads id _ (List.mem_of_mem_head? hhead)
  | 1 => exact Looping.count h
  | k + 2 =>
    refine (Printing.count h).trans (Finset.sum_eq_zero fun id _ => if_neg fun hhead => ?_).symm
    obtain ⟨l, hl⟩ := List.head?_eq_some_iff.mp hhead
    cases (Printing.print h hl).2.1

lemma Claim.ninter_le {k : ℕ} (h : Claim niters k d todo) (id : Fin nthreads) :
    d.ninter id ≤ niters ∧ (nthreads = 1 → d.ninter id = 0) := by
  match k with
  | 0 =>
    obtain ⟨rfl, -⟩ := h
    exact ⟨Nat.zero_le _, fun _ => rfl⟩
  | 1 =>
    refine ⟨?_, fun hone => (Looping.lone h hone id).1⟩
    obtain ⟨m, ⟨-, hrounds⟩ | ⟨-, hrounds⟩⟩ := Looping.threads h id
    · omega
    · omega
  | k + 2 => exact ⟨Printing.ninter h id, fun hone => Printing.lone h hone id⟩

lemma Claim.out_prefix {k : ℕ} (h : Claim niters k d todo) :
    d.out <+: (List.finRange nthreads).map fun id => (id, d.ninter id) := by
  match k with
  | 0 =>
    obtain ⟨rfl, -⟩ := h
    exact List.nil_prefix
  | 1 =>
    rw [Looping.out h]
    exact List.nil_prefix
  | k + 2 =>
    obtain ⟨m, hout, -⟩ := Printing.out h
    rw [hout]
    exact (List.take_prefix m _).map _

/-- With all threads at their ends. -/
lemma Printing.finished (h : Printing niters nthreads d fun _ => []) :
    d.c = 0 ∧ d.out = (List.finRange nthreads).map fun id => (id, d.ninter id) := by
  obtain ⟨-, hcopy⟩ | ⟨-, hc⟩ := h.main
  · cases hcopy
  · refine ⟨hc, ?_⟩
    obtain ⟨m, hout, hm⟩ := h.out
    have hle : nthreads ≤ m := by
      obtain ⟨hm, -⟩ | ⟨hm, -⟩ := hm
      · exact hm.ge
      · omega
    rw [hout, List.take_of_length_le (by simpa using hle)]

theorem phaseRule (nthreads niters : ℕ) :
    PhaseRule (program nthreads niters) perform (initial nthreads) (Claim niters) where
  start := by
    refine ⟨rfl, phase_program none 0, fun id a ha => ?_⟩
    have hphase : phase (program nthreads niters (some id)) 0 = [.checkId] := phase_program (some id) 0
    have ha' : a ∈ phase (program nthreads niters (some id)) 0 := ha
    rw [hphase] at ha'
    exact List.mem_singleton.mp ha'
  again k d d' todo i a l _ _ _ hexec := by
    have hpass := perform_pass i a d
    rw [hexec] at hpass
    cases hpass
  pass k d d' todo i a l _ h htodo hexec := h.pass htodo hexec
  fail k d todo i a l _ _ _ := by
    rw [perform_pass]
    exact Verdict.noConfusion
  next k d hwaits h := h.next (by simpa [waits_program] using hwaits none)

end Phases

section Runs
variable {c : Config (Party nthreads) Op (Shared nthreads)}

/-- The thread is between the two operations of a round. -/
def InRound (c : Config (Party nthreads) Op (Shared nthreads)) (id : Fin nthreads) : Prop :=
  (current c.sync (some id)).head? = some .subAndFetch

instance (c : Config (Party nthreads) Op (Shared nthreads)) (id : Fin nthreads) : Decidable (InRound c id) :=
  inferInstanceAs (Decidable (_ = _))

/-- Nobody fails, count is what the threads between their two operations have added, no thread counts more
interleavings than rounds, and a single one none; the lines come in the order of the threads, the process can
always get to its end, and it passes there. -/
structure Sound (niters : ℕ) (c : Config (Party nthreads) Op (Shared nthreads)) : Prop where
  ok : ∀ i, c.sync.failed i = false
  count : c.data.count = ∑ id, if InRound c id then inc id else 0
  ninter : ∀ id, c.data.ninter id ≤ niters ∧ (nthreads = 1 → c.data.ninter id = 0)
  out : c.data.out <+: (List.finRange nthreads).map fun id => (id, c.data.ninter id)
  ends : ∀ e c', c.step perform e = some c' → work c'.sync < work c.sync
  goesOn : ∃ more, exitStatus (Interleaving.run (Config.step perform) c more) = some exitPass
  final : ∀ status, exitStatus c = some status → status = exitPass ∧ c.data.c = 0 ∧
    c.data.out = (List.finRange nthreads).map fun id => (id, c.data.ninter id)

theorem sound_of_inv (hinv : c.Inv (program nthreads niters) (Claim niters)) : Sound niters c := by
  have hpass : ∀ c : Config (Party nthreads) Op (Shared nthreads), c.Inv (program nthreads niters) (Claim niters) →
      Finished c.sync → exitStatus c = some exitPass ∧ c.data.c = 0 ∧
        c.data.out = (List.finRange nthreads).map fun id => (id, c.data.ninter id) := by
    intro c hinv hend
    have hfinal := Printing.finished (hinv.claim_finished (fun i => waits_program i) hend)
    refine ⟨?_, hfinal⟩
    rw [exitStatus, if_neg (by simp [hinv.ok]), if_pos (show ∀ i, c.sync.todo i = [] from hend),
      if_neg (by simp [hfinal.1])]
  have hagain : ∀ i a (u : Unit) (d : Shared nthreads), (perform i a u d).2 ≠ .again := fun i a u d => by
    rw [perform_pass]
    exact Verdict.noConfusion
  constructor
  · exact hinv.ok
  · exact hinv.claim.count_eq
  · exact hinv.claim.ninter_le
  · exact hinv.claim.out_prefix
  · exact fun e c' => Config.work_lt hagain hinv.toPlaced
  · obtain ⟨more, hmore⟩ := hinv.exists_finished (phaseRule nthreads niters) (fun i => waits_program i)
      fun k d todo i a l _ htodo => ⟨i, a, l, (), htodo, hagain i a () d⟩
    refine ⟨more, (hpass _ ?_ hmore).1⟩
    exact Interleaving.run_inv hinv (fun _ _ _ h hstep => Config.step_inv (phaseRule nthreads niters) h hstep) more
  · intro status hstatus
    have hend : Finished c.sync := by
      unfold exitStatus at hstatus
      split_ifs at hstatus with hany hend hc
      · obtain ⟨i, hi⟩ := hany
        simp [hinv.ok i] at hi
      · exact hend
      · exact hend
    obtain ⟨hexit, hfinal⟩ := hpass c hinv hend
    exact ⟨Option.some.inj (hstatus.symm.trans hexit), hfinal⟩

/-- Every interleaving of main and the threads. -/
theorem threads_cancel_out (nthreads niters : ℕ) (schedule : List (Event (Party nthreads) Unit)) :
    Sound niters (run nthreads niters schedule) :=
  sound_of_inv (Config.run_inv (phaseRule nthreads niters) schedule)

end Runs

end PipTestsuite.Atomic
