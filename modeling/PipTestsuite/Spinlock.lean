import PipTestsuite.ExitCode
import PipTestsuite.Lib.PhaseRuns
import Mathlib.Data.BitVec

/-! porting/spinlock.c: threads add to one counter and subtract again, first without a lock and then with
it, and main reads the counter behind each of the two loops. -/
namespace PipTestsuite.Spinlock
open BarrierProgram

/-- What main and the threads do between their barriers: count = 0, the read and the write of count += inc or
count -= inc, pip_spin_trylock until it succeeds, pip_spin_unlock, the check of main, and c = count. -/
inductive Op where
  | reset | load | add | sub | lock | unlock | check | copy
  deriving DecidableEq

/-- main (none) and the threads. -/
abbrev Party (nthreads : ℕ) := Option (Fin nthreads)

/-- count, what each of them has read of it, who holds the lock, what the check of main has read, and c. -/
structure Shared (nthreads : ℕ) where
  count : BitVec 32
  loaded : Party nthreads → BitVec 32
  holder : Option (Party nthreads)
  seen : Option (BitVec 32)
  c : BitVec 32

/-- The lock is free, and the other variables have no value yet that is read. -/
def initial (nthreads : ℕ) : Shared nthreads := ⟨0, fun _ => 0, none, none, 0⟩

/-- inc = id + 10 -/
def inc {nthreads : ℕ} : Party nthreads → BitVec 32
  | none => 0
  | some id => BitVec.ofNat 32 (id + 10)

/-- The check of main fails. -/
def Unraced (nthreads : ℕ) (count : BitVec 32) : Prop := nthreads > 1 ∧ count = 0

instance (nthreads : ℕ) (count : BitVec 32) : Decidable (Unraced nthreads count) :=
  inferInstanceAs (Decidable (_ ∧ _))

/-- A correct lock is taken only while nobody holds it; it may refuse all the same. -/
def perform {nthreads : ℕ} : Exec (Party nthreads) Op Bool (Shared nthreads)
  | _, .reset, _, d => ({ d with count := 0 }, .pass)
  | i, .load, _, d => ({ d with loaded := Function.update d.loaded i d.count }, .pass)
  | i, .add, _, d => ({ d with count := d.loaded i + inc i }, .pass)
  | i, .sub, _, d => ({ d with count := d.loaded i - inc i }, .pass)
  | i, .lock, taken, d =>
    if d.holder = none ∧ taken = true then ({ d with holder := some i }, .pass) else (d, .again)
  | _, .unlock, _, d => ({ d with holder := none }, .pass)
  | _, .check, _, d => ({ d with seen := some d.count }, if Unraced nthreads d.count then .fail else .pass)
  | _, .copy, _, d => ({ d with c := d.count }, .pass)

/-- The loop without the lock. -/
def nolock (niters : ℕ) : List Op := (List.replicate niters [.load, .add, .load, .sub]).flatten

/-- The loop with the lock. -/
def locked (niters : ℕ) : List Op :=
  (List.replicate niters [.lock, .load, .add, .unlock, .lock, .load, .sub, .unlock]).flatten

def threadMain (nthreads niters : ℕ) : List (Instr Op) :=
  ([.wait] ++ (nolock niters).map .act) ++ ([.wait, .wait] ++ (locked niters).map .act) ++
    List.replicate (nthreads + 1) .wait

def main (nthreads : ℕ) : List (Instr Op) :=
  [.act .reset, .wait, .wait, .act .check, .act .reset, .wait, .wait, .act .copy] ++ List.replicate nthreads .wait

def program (nthreads niters : ℕ) : Party nthreads → List (Instr Op)
  | none => main nthreads
  | some _ => threadMain nthreads niters

def run (nthreads niters : ℕ) (schedule : List (Event (Party nthreads) Bool)) :
    Config (Party nthreads) Op (Shared nthreads) :=
  Config.run perform (program nthreads niters) (initial nthreads) schedule

/-- The exit status of the process, which ends where somebody fails, or where main has joined all threads. -/
def exitStatus {nthreads : ℕ} (c : Config (Party nthreads) Op (Shared nthreads)) : Option ℕ :=
  if ∃ i, c.sync.failed i then some exitFail
  else if ∀ i, c.sync.todo i = [] then some (if c.data.c ≠ 0 then exitFail else exitPass)
  else none

section Programs
variable {nthreads niters : ℕ}

lemma phase_threadMain (k : ℕ) :
    phase (threadMain nthreads niters) k = if k = 1 then nolock niters else if k = 3 then locked niters else [] := by
  have hwaits : ∀ l : List Op, waits ([.wait] ++ l.map .act) = 1 := fun l => by simp [waits]
  have hphase : ∀ (l : List Op) m, phase ([.wait] ++ l.map .act) m = if m = 1 then l else [] := by
    intro l m
    cases m with
    | zero => rfl
    | succ m => simp [phase]
  have hphase' : ∀ (l : List Op) m, phase ([.wait, .wait] ++ l.map .act) m = if m = 2 then l else [] := by
    intro l m
    rcases m with _ | _ | m
    · rfl
    · rfl
    · simp [phase]
  rw [threadMain, phase_append, phase_replicate_wait, List.append_nil, ite_self,
    phase_append ([Instr.wait] ++ (nolock niters).map Instr.act), hwaits, hphase, hphase']
  rcases k with _ | _ | _ | _ | k
  · rfl
  · simp
  · rfl
  · rfl
  · simp

lemma phase_main (k : ℕ) :
    phase (main nthreads) k =
      if k = 0 then [.reset] else if k = 2 then [.check, .reset] else if k = 4 then [.copy] else [] := by
  match k with
  | 0 => simp [main, phase]
  | 1 => simp [main, phase]
  | 2 => simp [main, phase]
  | 3 => simp [main, phase]
  | 4 => simp [main, phase]
  | k + 5 => simp [main, phase]

lemma waits_program (i : Party nthreads) : waits (program nthreads niters i) = nthreads + 4 := by
  cases i with
  | none => simp [program, main, waits]
  | some id =>
    simp only [program, threadMain, waits_append, waits_map_act, waits_replicate_wait, waits]
    omega

end Programs

/-- Where a thread is in a round of its second loop. -/
inductive Spot where
  | outside | holding | fresh

/-- What is to be done from such a spot: the lock is taken first, each change of count follows a read of it, and
the lock is given back at the end. -/
def Guarded : Spot → List Op → Prop
  | .outside, [] => True
  | .outside, .lock :: l => Guarded .holding l
  | .holding, .load :: l => Guarded .fresh l
  | .holding, .unlock :: l => Guarded .outside l
  | .fresh, .add :: l => Guarded .holding l
  | .fresh, .sub :: l => Guarded .holding l
  | _, _ => False

/-- What these operations add to count on the whole. -/
def effect (inc : BitVec 32) : List Op → BitVec 32
  | [] => 0
  | .add :: l => inc + effect inc l
  | .sub :: l => -inc + effect inc l
  | _ :: l => effect inc l

lemma guarded_outside_cons {a : Op} {l : List Op} :
    Guarded .outside (a :: l) ↔ a = .lock ∧ Guarded .holding l := by
  cases a <;> simp [Guarded]

lemma guarded_holding_cons {a : Op} {l : List Op} :
    Guarded .holding (a :: l) ↔ a = .load ∧ Guarded .fresh l ∨ a = .unlock ∧ Guarded .outside l := by
  cases a <;> simp [Guarded]

lemma guarded_fresh_cons {a : Op} {l : List Op} :
    Guarded .fresh (a :: l) ↔ (a = .add ∨ a = .sub) ∧ Guarded .holding l := by
  cases a <;> simp [Guarded]

lemma guarded_locked (niters : ℕ) : Guarded .outside (locked niters) := by
  induction niters with
  | zero => trivial
  | succ n ih =>
    rw [locked, List.replicate_succ, List.flatten_cons]
    exact ih

lemma effect_locked (inc : BitVec 32) (niters : ℕ) : effect inc (locked niters) = 0 := by
  induction niters with
  | zero => rfl
  | succ n ih =>
    rw [locked, List.replicate_succ, List.flatten_cons]
    show inc + (-inc + effect inc (locked n)) = 0
    rw [ih]
    ring

section Phases
variable {nthreads niters : ℕ}

/-- One of the participants in the phase with the lock. -/
def Stands (d : Shared nthreads) (i : Party nthreads) (todo : List Op) : Prop :=
  (d.holder ≠ some i ∧ Guarded .outside todo) ∨
    (d.holder = some i ∧ (Guarded .holding todo ∨ Guarded .fresh todo ∧ d.loaded i = d.count))

/-- What is still to be done with the lock brings count back to 0. -/
structure Locked (d : Shared nthreads) (todo : Party nthreads → List Op) : Prop where
  stands : ∀ i, Stands d i (todo i)
  balance : d.count + ∑ i, effect (inc i) (todo i) = 0

/-- Nobody has to do with the lock. -/
structure Unlocked (d : Shared nthreads) (todo : Party nthreads → List Op) : Prop where
  free : d.holder = none
  ops : ∀ i, ∀ a ∈ todo i, a ≠ .lock ∧ a ≠ .unlock

/-- What holds in each phase, if the check of main passes. -/
def Claim : ℕ → Shared nthreads → (Party nthreads → List Op) → Prop
  | 0, d, todo => Unlocked d todo
  | 1, d, todo => Unlocked d todo
  | 2, d, todo =>
    d.holder = none ∧ (∀ id, todo (some id) = []) ∧
      (todo none = [.check, .reset] ∨ todo none = [.reset] ∨ todo none = [] ∧ d.count = 0)
  | 3, d, todo => Locked d todo
  | 4, d, todo => (∀ id, todo (some id) = []) ∧ (todo none = [.copy] ∧ d.count = 0 ∨ todo none = [] ∧ d.c = 0)
  | _ + 5, d, todo => (∀ i, todo i = []) ∧ d.c = 0

lemma sum_update (f : Party nthreads → List Op → BitVec 32) (todo : Party nthreads → List Op) (i : Party nthreads)
    (l : List Op) :
    ∑ j, f j (Function.update todo i l j) = ∑ j, f j (todo j) + (f i l - f i (todo i)) := by
  have hsum : ∀ g : Party nthreads → List Op, ∑ j, f j (g j) = f i (g i) + ∑ j ∈ Finset.univ.erase i, f j (g j) :=
    fun g => (Finset.add_sum_erase _ _ (Finset.mem_univ i)).symm
  have hrest : ∑ j ∈ Finset.univ.erase i, f j (Function.update todo i l j) =
      ∑ j ∈ Finset.univ.erase i, f j (todo j) :=
    Finset.sum_congr rfl fun j hj => by rw [Function.update_of_ne (Finset.ne_of_mem_erase hj)]
  rw [hsum, hrest, hsum todo, Function.update_self]
  ring

/-- The check of main always passes. -/
def lenient : Exec (Party nthreads) Op Bool (Shared nthreads)
  | _, .check, _, d => ({ d with seen := some d.count }, .pass)
  | i, a, choice, d => perform i a choice d

lemma stands_of_ne {d : Shared nthreads} {i j : Party nthreads} {l : List Op} (hj : Stands d j l)
    (hi : d.holder = some i) (hne : j ≠ i) : Guarded .outside l := by
  obtain ⟨-, hl⟩ | ⟨hholder, -⟩ := hj
  · exact hl
  · exact absurd (Option.some.inj (hholder.symm.trans hi)) hne

/-- The participant at an operation keeps the rule of the lock, if the others do not depend on what it changes. -/
lemma Locked.step {d d' : Shared nthreads} {todo : Party nthreads → List Op} {i : Party nthreads} {l : List Op}
    (h : Locked d todo) (hi : Stands d' i l) (hothers : ∀ j ≠ i, Stands d' j (todo j))
    (hbalance : d'.count + effect (inc i) l = d.count + effect (inc i) (todo i)) :
    Locked d' (Function.update todo i l) := by
  constructor
  · intro j
    by_cases hj : j = i
    · subst hj
      rwa [Function.update_self]
    · rw [Function.update_of_ne hj]
      exact hothers j hj
  · rw [sum_update fun j => effect (inc j)]
    linear_combination h.balance + hbalance

/-- With the lock each change of count is its own. -/
lemma Locked.pass {d d' : Shared nthreads} {todo : Party nthreads → List Op} {i : Party nthreads} {a : Op}
    {l : List Op} {choice : Bool} (h : Locked d todo) (htodo : todo i = a :: l)
    (hexec : lenient i a choice d = (d', .pass)) : Locked d' (Function.update todo i l) := by
  have hi := h.stands i
  rw [htodo] at hi
  obtain ⟨hne, hguard⟩ | ⟨hheld, hguard | ⟨hguard, hread⟩⟩ := hi
  · obtain ⟨rfl, hguard⟩ := guarded_outside_cons.mp hguard
    simp only [lenient, perform] at hexec
    split_ifs at hexec with hfree
    · obtain ⟨rfl, -⟩ := Prod.mk.inj hexec
      refine h.step (.inr ⟨rfl, .inl hguard⟩) (fun j hj => ?_) (by rw [htodo]; rfl)
      obtain ⟨-, hout⟩ | ⟨hholder, -⟩ := h.stands j
      · exact .inl ⟨fun heq => hj (Option.some.inj heq).symm, hout⟩
      · rw [hfree.1] at hholder
        cases hholder
    · cases (Prod.mk.inj hexec).2
  · have hothers : ∀ j ≠ i, Guarded .outside (todo j) := fun j hj => stands_of_ne (h.stands j) hheld hj
    obtain ⟨rfl, hguard⟩ | ⟨rfl, hguard⟩ := guarded_holding_cons.mp hguard
    · obtain ⟨rfl, -⟩ := Prod.mk.inj hexec
      refine h.step (.inr ⟨hheld, .inr ⟨hguard, by simp⟩⟩) (fun j hj => .inl ⟨?_, hothers j hj⟩) (by rw [htodo]; rfl)
      exact fun heq => hj (Option.some.inj (heq.symm.trans hheld))
    · obtain ⟨rfl, -⟩ := Prod.mk.inj hexec
      exact h.step (.inl ⟨by simp, hguard⟩) (fun j hj => .inl ⟨by simp, hothers j hj⟩) (by rw [htodo]; rfl)
  · have hothers : ∀ j ≠ i, d.holder ≠ some j ∧ Guarded .outside (todo j) := fun j hj =>
      ⟨fun heq => hj (Option.some.inj (heq.symm.trans hheld)), stands_of_ne (h.stands j) hheld hj⟩
    obtain ⟨rfl | rfl, hguard⟩ := guarded_fresh_cons.mp hguard
    · obtain ⟨rfl, -⟩ := Prod.mk.inj hexec
      refine h.step (.inr ⟨hheld, .inl hguard⟩) (fun j hj => .inl (hothers j hj)) ?_
      rw [htodo, effect, hread]
      ring
    · obtain ⟨rfl, -⟩ := Prod.mk.inj hexec
      refine h.step (.inr ⟨hheld, .inl hguard⟩) (fun j hj => .inl (hothers j hj)) ?_
      rw [htodo, effect, hread]
      ring

lemma Unlocked.pass {d d' : Shared nthreads} {todo : Party nthreads → List Op} {i : Party nthreads} {a : Op}
    {l : List Op} {choice : Bool} (h : Unlocked d todo) (htodo : todo i = a :: l)
    (hexec : lenient i a choice d = (d', .pass)) : Unlocked d' (Function.update todo i l) := by
  constructor
  · have hops := h.ops i a (by rw [htodo]; exact List.mem_cons_self)
    have hfree := h.free
    cases a with
    | lock => exact absurd rfl hops.1
    | unlock => exact absurd rfl hops.2
    | reset | load | add | sub | check | copy =>
      obtain ⟨rfl, -⟩ := Prod.mk.inj hexec
      exact hfree
  · intro j b hb
    by_cases hj : j = i
    · subst hj
      rw [Function.update_self] at hb
      exact h.ops j b (by rw [htodo]; exact List.mem_cons_of_mem a hb)
    · rw [Function.update_of_ne hj] at hb
      exact h.ops j b hb

lemma lenient_again {d d' : Shared nthreads} {i : Party nthreads} {a : Op} {choice : Bool}
    (hexec : lenient i a choice d = (d', .again)) : d' = d := by
  cases a with
  | lock =>
    simp only [lenient, perform] at hexec
    split_ifs at hexec
    · cases (Prod.mk.inj hexec).2
    · exact (Prod.mk.inj hexec).1.symm
  | reset | load | add | sub | unlock | check | copy => cases (Prod.mk.inj hexec).2

lemma lenient_ne_fail (i : Party nthreads) (a : Op) (choice : Bool) (d : Shared nthreads) :
    (lenient i a choice d).2 ≠ .fail := by
  cases a with
  | lock =>
    simp only [lenient, perform]
    split_ifs <;> exact Verdict.noConfusion
  | reset | load | add | sub | unlock | check | copy => exact Verdict.noConfusion

lemma nolock_ops (niters : ℕ) : ∀ a ∈ nolock niters, a ≠ .lock ∧ a ≠ .unlock := by
  intro a ha
  obtain ⟨l, hl, ha⟩ := List.mem_flatten.mp ha
  rw [List.eq_of_mem_replicate hl] at ha
  fin_cases ha <;> decide

lemma phase_program (k : ℕ) (i : Party nthreads) :
    phase (program nthreads niters i) k = match i with
      | none => if k = 0 then [.reset] else if k = 2 then [.check, .reset] else if k = 4 then [.copy] else []
      | some _ => if k = 1 then nolock niters else if k = 3 then locked niters else [] := by
  cases i with
  | none => exact phase_main k
  | some id => exact phase_threadMain k

lemma claim_next {k : ℕ} {d : Shared nthreads} (h : Claim k d fun _ => []) :
    Claim (k + 1) d fun i => phase (program nthreads niters i) (k + 1) := by
  match k with
  | 0 =>
    refine ⟨h.free, fun i a ha => ?_⟩
    rw [phase_program] at ha
    cases i with
    | none => simp at ha
    | some id => exact nolock_ops niters a ha
  | 1 =>
    exact ⟨h.free, fun id => (phase_program _ _).trans rfl, .inl ((phase_program _ _).trans rfl)⟩
  | 2 =>
    obtain ⟨hfree, -, hmain | hmain | ⟨-, hcount⟩⟩ := h
    · cases hmain
    · cases hmain
    · constructor
      · intro i
        rw [phase_program]
        refine .inl ⟨by simp [hfree], ?_⟩
        cases i with
        | none => trivial
        | some id => exact guarded_locked niters
      · have heffect : ∀ i : Party nthreads, effect (inc i) (phase (program nthreads niters i) 3) = 0 := by
          intro i
          rw [phase_program]
          cases i with
          | none => rfl
          | some id => exact effect_locked _ niters
        rw [hcount, Finset.sum_congr rfl fun i _ => heffect i, Finset.sum_const_zero, add_zero]
  | 3 =>
    refine ⟨fun id => (phase_program _ _).trans rfl, .inl ⟨(phase_program _ _).trans rfl, ?_⟩⟩
    simpa [effect] using h.balance
  | 4 =>
    obtain ⟨-, ⟨hmain, -⟩ | ⟨-, hc⟩⟩ := h
    · cases hmain
    · refine ⟨fun i => (phase_program _ _).trans ?_, hc⟩
      cases i <;> rfl
  | k + 5 =>
    refine ⟨fun i => (phase_program _ _).trans ?_, h.2⟩
    cases i with
    | none => simp
    | some id => simp

/-- An operation of main, where the threads have nothing to do. -/
lemma main_only {todo : Party nthreads → List Op} {i : Party nthreads} {a : Op} {l : List Op}
    (hthreads : ∀ id, todo (some id) = []) (htodo : todo i = a :: l) :
    i = none ∧ todo none = a :: l ∧ ∀ id, Function.update todo i l (some id) = [] := by
  cases i with
  | none => exact ⟨rfl, htodo, fun id => by rw [Function.update_of_ne (by simp), hthreads]⟩
  | some id =>
    rw [hthreads id] at htodo
    cases htodo

lemma claim_pass {k : ℕ} {d d' : Shared nthreads} {todo : Party nthreads → List Op} {i : Party nthreads} {a : Op}
    {l : List Op} {choice : Bool} (h : Claim k d todo) (htodo : todo i = a :: l)
    (hexec : lenient i a choice d = (d', .pass)) : Claim k d' (Function.update todo i l) := by
  match k with
  | 0 => exact Unlocked.pass h htodo hexec
  | 1 => exact Unlocked.pass h htodo hexec
  | 2 =>
    obtain ⟨hfree, hthreads, hmain⟩ := h
    obtain ⟨rfl, hnone, hthreads'⟩ := main_only hthreads htodo
    obtain hmain | hmain | ⟨hmain, -⟩ := hmain
    · obtain ⟨rfl, rfl⟩ := List.cons.inj (hnone.symm.trans hmain)
      obtain ⟨rfl, -⟩ := Prod.mk.inj hexec
      exact ⟨hfree, hthreads', .inr (.inl (Function.update_self ..))⟩
    · obtain ⟨rfl, rfl⟩ := List.cons.inj (hnone.symm.trans hmain)
      obtain ⟨rfl, -⟩ := Prod.mk.inj hexec
      exact ⟨hfree, hthreads', .inr (.inr ⟨Function.update_self .., rfl⟩)⟩
    · cases hnone.symm.trans hmain
  | 3 => exact Locked.pass h htodo hexec
  | 4 =>
    obtain ⟨hthreads, hmain⟩ := h
    obtain ⟨rfl, hnone, hthreads'⟩ := main_only hthreads htodo
    obtain ⟨hmain, hcount⟩ | ⟨hmain, -⟩ := hmain
    · obtain ⟨rfl, rfl⟩ := List.cons.inj (hnone.symm.trans hmain)
      obtain ⟨rfl, -⟩ := Prod.mk.inj hexec
      exact ⟨hthreads', .inr ⟨Function.update_self .., hcount⟩⟩
    · cases hnone.symm.trans hmain
  | k + 5 => cases (h.1 i).symm.trans htodo

theorem lenient_phaseRule (nthreads niters : ℕ) :
    PhaseRule (program nthreads niters) lenient (initial nthreads) Claim where
  start := by
    refine ⟨rfl, fun i a ha => ?_⟩
    rw [phase_program] at ha
    cases i with
    | none =>
      rw [List.mem_singleton.mp ha]
      decide
    | some id => simp at ha
  again k d d' todo i a l choice h _ hexec := by rwa [lenient_again hexec]
  pass k d d' todo i a l choice h htodo hexec := claim_pass h htodo hexec
  fail k d todo i a l choice _ _ := lenient_ne_fail i a choice d
  next k d _ h := claim_next h

lemma lenient_eq (i : Party nthreads) (a : Op) (choice : Bool) (d : Shared nthreads)
    (h : (perform i a choice d).2 ≠ .fail) : lenient i a choice d = perform i a choice d := by
  cases a with
  | check =>
    simp only [perform] at h ⊢
    rw [if_neg fun hunraced => h (by rw [if_pos hunraced])]
    rfl
  | reset | load | add | sub | lock | unlock | copy => rfl

lemma perform_ne_again {i : Party nthreads} {a : Op} {d : Shared nthreads} (h : a ≠ .lock ∨ d.holder = none) :
    (perform i a true d).2 ≠ .again := by
  cases a with
  | lock =>
    rw [perform, if_pos ⟨h.resolve_left (not_not.mpr rfl), rfl⟩]
    exact Verdict.noConfusion
  | check =>
    simp only [perform]
    split_ifs <;> exact Verdict.noConfusion
  | reset | load | add | sub | unlock | copy => exact Verdict.noConfusion

lemma perform_again {i : Party nthreads} {a : Op} {choice : Bool} {d d' : Shared nthreads}
    (h : perform i a choice d = (d', .again)) : d' = d := by
  refine lenient_again ((lenient_eq i a choice d ?_).trans h)
  rw [h]
  exact Verdict.noConfusion

/-- Who holds the lock comes next to an operation other than taking it. -/
lemma Stands.next {d : Shared nthreads} {i : Party nthreads} {l : List Op} (h : Stands d i l)
    (hholder : d.holder = some i) : ∃ a m, l = a :: m ∧ a ≠ .lock := by
  obtain ⟨hne, -⟩ | ⟨-, hguard⟩ := h
  · exact absurd hholder hne
  · cases l with
    | nil => exact absurd hguard (by simp [Guarded])
    | cons a m =>
      refine ⟨a, m, rfl, ?_⟩
      rintro rfl
      exact absurd hguard (by simp [Guarded])

/-- Whoever waits for the lock waits for somebody who can go on. -/
lemma claim_progress {k : ℕ} {d : Shared nthreads} {todo : Party nthreads → List Op} (h : Claim k d todo)
    {i : Party nthreads} {a : Op} {l : List Op} (htodo : todo i = a :: l) :
    ∃ j b m choice, todo j = b :: m ∧ (perform j b choice d).2 ≠ .again := by
  have hself : a ≠ .lock ∨ d.holder = none → ∃ j b m choice, todo j = b :: m ∧ (perform j b choice d).2 ≠ .again :=
    fun hfree => ⟨i, a, l, true, htodo, perform_ne_again hfree⟩
  match k with
  | 0 => exact hself (.inr h.free)
  | 1 => exact hself (.inr h.free)
  | 2 => exact hself (.inr h.1)
  | 3 =>
    cases hholder : d.holder with
    | none => exact hself (.inr hholder)
    | some j =>
      obtain ⟨b, m, hj, hb⟩ := (h.stands j).next hholder
      exact ⟨j, b, m, true, hj, perform_ne_again (.inl hb)⟩
  | 4 =>
    obtain ⟨hthreads, ⟨hmain, -⟩ | ⟨hmain, -⟩⟩ := h
    · obtain ⟨rfl, hnone, -⟩ := main_only hthreads htodo
      obtain ⟨rfl, -⟩ := List.cons.inj (hnone.symm.trans hmain)
      exact hself (.inl (by decide))
    · obtain ⟨rfl, hnone, -⟩ := main_only hthreads htodo
      cases hnone.symm.trans hmain
  | k + 5 => cases (h.1 i).symm.trans htodo

end Phases

section Runs
variable {nthreads niters : ℕ} {c c' : Config (Party nthreads) Op (Shared nthreads)}

/-- What the check of main has to do with the failure of somebody. -/
structure Checked (c : Config (Party nthreads) Op (Shared nthreads)) : Prop where
  ops : ∀ id, .act .check ∉ c.sync.todo (some id)
  threads : ∀ id, c.sync.failed (some id) = false
  main : c.sync.failed none = true ↔ ∃ count, c.data.seen = some count ∧ Unraced nthreads count
  stopped : c.sync.failed none = true → c.sync.todo none = []

lemma perform_of_ne_check {i : Party nthreads} {a : Op} {choice : Bool} (ha : a ≠ .check) (d : Shared nthreads) :
    (perform i a choice d).1.seen = d.seen ∧ (perform i a choice d).2 ≠ .fail := by
  cases a with
  | check => exact absurd rfl ha
  | lock =>
    simp only [perform]
    split_ifs <;> exact ⟨rfl, Verdict.noConfusion⟩
  | reset | load | add | sub | unlock | copy => exact ⟨rfl, Verdict.noConfusion⟩

lemma Checked.ops_act {i : Party nthreads} {a : Op} {rest l : List (Instr Op)} (h : Checked c)
    (htodo : c.sync.todo i = .act a :: rest) (hl : l = rest ∨ l = []) (id : Fin nthreads) :
    .act .check ∉ Function.update c.sync.todo i l (some id) := by
  intro hmem
  by_cases hid : some id = i
  · subst hid
    rw [Function.update_self] at hmem
    rcases hl with rfl | rfl
    · exact h.ops id (by rw [htodo]; exact List.mem_cons_of_mem _ hmem)
    · cases hmem
  · rw [Function.update_of_ne hid] at hmem
    exact h.ops id hmem

/-- Who has something to do has not failed. -/
lemma Checked.running {a : Op} {rest : List (Instr Op)} (h : Checked c) (htodo : c.sync.todo none = .act a :: rest) :
    c.sync.failed none = false := by
  by_contra hfailed
  rw [Bool.not_eq_false] at hfailed
  cases (h.stopped hfailed).symm.trans htodo

lemma Checked.act {i : Party nthreads} {choice ok : Bool} {a : Op} {rest : List (Instr Op)} {d : Shared nthreads}
    {log : List (Party nthreads × Op)} (h : Checked c) (hin : c.sync.inside i = none)
    (htodo : c.sync.todo i = .act a :: rest)
    (hexec : perform i a choice c.data = (d, if ok then .pass else .fail)) :
    Checked ⟨{ c.sync with
      todo := Function.update c.sync.todo i (if ok then rest else [])
      failed := if ok then c.sync.failed else Function.update c.sync.failed i true
      log := log }, d⟩ := by
  have hops := h.ops_act htodo (l := if ok then rest else []) (by cases ok <;> simp)
  by_cases ha : a = .check
  · subst ha
    have hi : i = none := by
      cases i with
      | none => rfl
      | some id => exact absurd (by rw [htodo]; exact List.mem_cons_self) (h.ops id)
    subst hi
    have hrunning := h.running htodo
    obtain ⟨rfl, hverdict⟩ := Prod.mk.inj hexec
    cases ok with
    | true =>
      have hraced : ¬ Unraced nthreads c.data.count := fun hunraced => by
        rw [if_pos hunraced] at hverdict
        cases hverdict
      refine ⟨hops, h.threads, ?_, fun hfailed => absurd hfailed (by simp [hrunning])⟩
      simp [hrunning, hraced]
    | false =>
      have hunraced : Unraced nthreads c.data.count := by
        by_contra hraced
        rw [if_neg hraced] at hverdict
        cases hverdict
      exact ⟨hops, by simpa using h.threads, by simpa using hunraced, fun _ => by simp⟩
  · obtain ⟨hseen, hverdict⟩ : (perform i a choice c.data).1.seen = c.data.seen ∧ _ := perform_of_ne_check ha c.data
    rw [hexec] at hseen hverdict
    have hsame : d.seen = c.data.seen := hseen
    cases ok with
    | false => exact absurd rfl hverdict
    | true =>
      refine ⟨hops, h.threads, by simpa [hsame] using h.main, fun hfailed => ?_⟩
      by_cases hi : none = i
      · subst hi
        exact absurd hfailed (by simp [h.running htodo])
      · simp [Function.update_of_ne hi, h.stopped hfailed]

lemma Checked.step {e : Event (Party nthreads) Bool} (h : Checked c) (hstep : c.step perform e = some c') :
    Checked c' := by
  obtain ⟨i, choice, a, rest, d, -, hin, htodo, ⟨hexec, rfl⟩ | ⟨ok, s, hexec, hs, rfl⟩⟩ |
    ⟨i, s, -, hs, rfl⟩ | ⟨i, s, -, hs, rfl⟩ := Config.step_cases hstep
  · obtain rfl := perform_again hexec
    exact h
  · rw [step_act hin htodo] at hs
    obtain rfl := Option.some.inj hs
    exact h.act hin htodo hexec
  · obtain ⟨j, ok, x, rest, hact, -⟩ | ⟨j, rest, -, -, -, rfl⟩ | ⟨j, g, hleave, -⟩ := BarrierProgram.step_cases hs
    · cases hact
    · constructor
      · simpa only [release_todo] using h.ops
      · simpa only [release_failed] using h.threads
      · simpa only [release_failed] using h.main
      · simpa only [release_failed, release_todo] using h.stopped
    · cases hleave
  · obtain ⟨j, ok, x, rest, hact, -⟩ | ⟨j, rest, harrive, -⟩ | ⟨j, g, -, -, -, rfl⟩ := BarrierProgram.step_cases hs
    · cases hact
    · cases harrive
    · refine ⟨fun id hmem => ?_, h.threads, h.main, fun hfailed => ?_⟩
      · by_cases hid : some id = j
        · subst hid
          exact h.ops id (List.mem_of_mem_tail (by simpa using hmem))
        · exact h.ops id (by simpa [Function.update_of_ne hid] using hmem)
      · by_cases hj : none = j
        · subst hj
          simp [h.stopped hfailed]
        · simp [Function.update_of_ne hj, h.stopped hfailed]

lemma start_checked (nthreads niters : ℕ) : Checked (run nthreads niters []) where
  ops id hmem := by
    have hrest : .act .check ∉ threadMain nthreads niters := by
      have hnolock : Op.check ∉ nolock niters := fun h => by
        obtain ⟨l, hl, h⟩ := List.mem_flatten.mp h
        rw [List.eq_of_mem_replicate hl] at h
        exact absurd h (by decide)
      have hlocked : Op.check ∉ locked niters := fun h => by
        obtain ⟨l, hl, h⟩ := List.mem_flatten.mp h
        rw [List.eq_of_mem_replicate hl] at h
        exact absurd h (by decide)
      simp [threadMain, hnolock, hlocked]
    exact hrest hmem
  threads _ := rfl
  main := by simp [run, Config.run, Interleaving.run, BarrierProgram.start, initial]
  stopped h := by cases h

/-- Main has failed by its check, or everybody is where the phases have it. -/
structure Sound (niters : ℕ) (c : Config (Party nthreads) Op (Shared nthreads)) : Prop extends Checked c where
  placed : c.Inv (program nthreads niters) Claim ∨ c.sync.failed none = true

lemma Sound.step {e : Event (Party nthreads) Bool} (h : Sound niters c) (hstep : c.step perform e = some c') :
    Sound niters c' := by
  have hchecked := h.toChecked.step hstep
  refine ⟨hchecked, ?_⟩
  obtain hplaced | hfailed := h.placed
  · obtain hplaced | ⟨i, hi⟩ := Config.step_inv_or_failed (lenient_phaseRule nthreads niters) lenient_eq hplaced hstep
    · exact .inl hplaced
    · cases i with
      | none => exact .inr hi
      | some id =>
        rw [hchecked.threads id] at hi
        cases hi
  · exact .inr (Config.step_failed hfailed hstep)

theorem run_sound (nthreads niters : ℕ) (schedule : List (Event (Party nthreads) Bool)) :
    Sound niters (run nthreads niters schedule) :=
  Interleaving.run_inv ⟨start_checked nthreads niters, .inl (Config.run_inv (lenient_phaseRule nthreads niters) [])⟩
    (fun _ _ _ h hstep => h.step hstep) schedule

lemma claim_finished_c {d : Shared nthreads} (h : Claim (nthreads + 4) d fun _ => []) : d.c = 0 := by
  cases nthreads with
  | zero =>
    obtain ⟨-, ⟨hmain, -⟩ | ⟨-, hc⟩⟩ := h
    · cases hmain
    · exact hc
  | succ n =>
    rw [show n + 1 + 4 = n + 5 by omega] at h
    exact h.2

/-- What the process ends with. -/
lemma Sound.exitStatus_eq (h : Sound niters c) {status : ℕ} (hstatus : exitStatus c = some status) :
    status = if 1 < nthreads ∧ c.data.seen = some 0 then exitFail else exitPass := by
  have hseen : c.sync.failed none = true ↔ 1 < nthreads ∧ c.data.seen = some 0 := by
    rw [h.main]
    constructor
    · rintro ⟨_, hseen, hmany, rfl⟩
      exact ⟨hmany, hseen⟩
    · exact fun ⟨hmany, hseen⟩ => ⟨0, hseen, hmany, rfl⟩
  rw [exitStatus] at hstatus
  split_ifs at hstatus with hany hend hc
  · obtain ⟨i, hi⟩ := hany
    cases i with
    | none => rw [if_pos (hseen.mp hi), Option.some.inj hstatus]
    | some id =>
      rw [h.threads id] at hi
      cases hi
  · have hok : ¬ c.sync.failed none = true := fun hfailed => hany ⟨none, hfailed⟩
    have hfinished := (h.placed.resolve_right hok).claim_finished (fun i => waits_program i) hend
    exact absurd (claim_finished_c hfinished) hc
  · rw [if_neg fun hcond => hany ⟨none, hseen.mpr hcond⟩, Option.some.inj hstatus]

/-- As long as the process has not ended somebody can go on. -/
lemma Sound.progress (h : Sound niters c) : (exitStatus c).isSome = true ∨
    ∃ e c', c.step perform e = some c' ∧ Sound niters c' ∧ work c'.sync < work c.sync := by
  obtain hplaced | hfailed := h.placed
  · obtain hend | ⟨e, c', hstep, hlt⟩ := hplaced.finished_or_progress perform (fun i => waits_program i)
      fun i a l hcurrent => claim_progress hplaced.claim hcurrent
    · refine .inl ?_
      rw [exitStatus, if_neg (by simp [hplaced.ok]), if_pos (show ∀ i, c.sync.todo i = [] from hend)]
      rfl
    · exact .inr ⟨e, c', hstep, h.step hstep, hlt⟩
  · refine .inl ?_
    rw [exitStatus, if_pos ⟨none, hfailed⟩]
    rfl

/-- The process always comes to its end. It ends with EXIT_FAIL exactly where main, with more than one thread,
reads 0 behind the loops without the lock, and with 0 else; no thread fails. -/
theorem exitStatus_run (nthreads niters : ℕ) (schedule : List (Event (Party nthreads) Bool)) :
    (∀ status, exitStatus (run nthreads niters schedule) = some status →
      status = if 1 < nthreads ∧ (run nthreads niters schedule).data.seen = some 0 then exitFail else exitPass) ∧
    (∀ id, (run nthreads niters schedule).sync.failed (some id) = false) ∧
    ∃ more, (exitStatus (run nthreads niters (schedule ++ more))).isSome = true := by
  have hsound := run_sound nthreads niters schedule
  refine ⟨fun status => hsound.exitStatus_eq, hsound.threads, ?_⟩
  obtain ⟨more, hmore⟩ := Interleaving.exists_run_of_measure (P := Sound niters) (fun c => work c.sync)
    (fun _ h => h.progress) hsound
  exact ⟨more, by rwa [run, Config.run, Interleaving.run_append]⟩

end Runs

section Unraced
variable {nthreads niters : ℕ}

/-- A thread that runs its loop without the lock alone leaves count as it is. -/
lemma does_nolock (niters : ℕ) (i : Party nthreads) (d : Shared nthreads) :
    ∃ d', Does perform i (nolock niters) d d' ∧ d'.count = d.count := by
  induction niters generalizing d with
  | zero => exact ⟨d, .nil d, rfl⟩
  | succ n ih =>
    rw [nolock, List.replicate_succ, List.flatten_cons]
    have hround : ∃ d', Does perform i [.load, .add, .load, .sub] d d' ∧ d'.count = d.count := by
      refine ⟨_, .cons true rfl (.cons true rfl (.cons true rfl (.cons true rfl (.nil _)))), ?_⟩
      simp
    obtain ⟨d₁, hround, hcount⟩ := hround
    obtain ⟨d₂, hrest, hcount'⟩ := ih d₁
    exact ⟨d₂, hround.append hrest, hcount'.trans hcount⟩

/-- What is behind the first barrier, and behind the second one. -/
def behind (nthreads niters : ℕ) (second : Bool) : Party nthreads → List (Instr Op)
  | none => (if second then [] else [.wait]) ++
      ([.act .check, .act .reset, .wait, .wait, .act .copy] ++ List.replicate nthreads .wait)
  | some _ => (if second then [] else (nolock niters).map .act ++ [.wait]) ++
      ([.wait] ++ (locked niters).map .act ++ List.replicate (nthreads + 1) .wait)

/-- Behind the first barrier main has set count. -/
lemma exists_leads_first (nthreads niters : ℕ) : ∃ log d, d.count = 0 ∧ Leads perform
    ⟨BarrierProgram.start (program nthreads niters), initial nthreads⟩
    ⟨{ BarrierProgram.start (program nthreads niters) with
      todo := behind nthreads niters false, gen := 1, log := log }, d⟩ := by
  refine exists_leads_of_kept perform (P := fun d => d.count = 0) (l := fun i => phase (program nthreads niters i) 0)
    (fun i d hd => ?_) (behind nthreads niters false) rfl (fun i => ?_) fun _ => rfl
  · rw [phase_program]
    cases i with
    | none => exact ⟨_, .cons true rfl (.nil _), rfl⟩
    | some id => exact ⟨d, .nil d, hd⟩
  · rw [phase_program]
    cases i with
    | none => simp [BarrierProgram.start, program, main, behind]
    | some id => simp [BarrierProgram.start, program, threadMain, behind]

/-- Behind the second one the threads have run their loops without the lock, one after another. -/
lemma exists_leads_second {s : State (Party nthreads) Op} {d : Shared nthreads} (hd : d.count = 0)
    (htodo : s.todo = behind nthreads niters false) (hinside : ∀ i, s.inside i = none) : ∃ log d', d'.count = 0 ∧
    Leads perform ⟨s, d⟩ ⟨{ s with todo := behind nthreads niters true, gen := s.gen + 1, log := log }, d'⟩ := by
  refine exists_leads_of_kept perform (P := fun d => d.count = 0) (l := fun i => phase (program nthreads niters i) 1)
    (fun i d hd => ?_) (behind nthreads niters true) hd (fun i => ?_) hinside
  · rw [phase_program]
    cases i with
    | none => exact ⟨d, .nil d, hd⟩
    | some id =>
      obtain ⟨d', hdoes, hcount⟩ := does_nolock niters (some id) d
      exact ⟨d', hdoes, hcount.trans hd⟩
  · rw [phase_program, htodo]
    cases i with
    | none => simp [behind]
    | some id => simp [behind]

/-- Where the threads run their loops without the lock one after another the check of main fails. -/
theorem exists_exitFail (hmany : 1 < nthreads) (niters : ℕ) :
    ∃ schedule, exitStatus (run nthreads niters schedule) = some exitFail := by
  obtain ⟨log₁, d₁, hd₁, hlead₁⟩ := exists_leads_first nthreads niters
  obtain ⟨log₂, d₂, hd₂, hlead₂⟩ := exists_leads_second (s := { BarrierProgram.start (program nthreads niters) with
    todo := behind nthreads niters false, gen := 1, log := log₁ }) hd₁ rfl fun _ => rfl
  obtain ⟨schedule, hschedule⟩ := hlead₁.trans hlead₂
  refine ⟨schedule ++ [.act none true], ?_⟩
  rw [run, Config.run, Interleaving.run_append, hschedule]
  have hunraced : Unraced nthreads d₂.count := ⟨hmany, hd₂⟩
  have hfailed : ∀ s : State (Party nthreads) Op, s.inside none = none → s.todo = behind nthreads niters true →
      (Interleaving.run (Config.step perform) ⟨s, d₂⟩ [.act none true]).sync.failed none = true := by
    intro s hin htodo
    simp [Interleaving.run, Config.step, hin, htodo, behind, perform, hunraced, BarrierProgram.step]
  rw [exitStatus, if_pos ⟨none, hfailed _ rfl rfl⟩]

/-- Two threads and NITERS iterations: the test fails with a correct lock. -/
theorem exitFail_two : ∃ schedule, exitStatus (run 2 (1000 * 1000) schedule) = some exitFail :=
  exists_exitFail (by omega) (1000 * 1000)

end Unraced

end PipTestsuite.Spinlock
