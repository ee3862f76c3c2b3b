import PipTestsuite.Lib.BarrierPhases
import PipTestsuite.TestRoot

/-! compat/pagefault.c: behind the guards of its number of tasks, the root and its tasks map a page each and publish it
in an array of the root, all of them write to all pages between two barriers, and each unmaps its own page again. -/
namespace PipTestsuite.Pagefault
open BarrierProgram Checked

/-- The root (none) and its tasks. -/
abbrev Party (ntasks : ℕ) := Option (Fin ntasks)

/-- mmap, maps[...] = map, pip_barrier_init, pip_spawn, the begin of a task, *((int*)(maps[j])) = 0, pip_wait,
munmap, and the end of a task. -/
inductive Op (ntasks : ℕ) where
  | mmap
  | publish
  | barrierInit
  | spawn (i : Fin ntasks)
  | begin
  | touch (j : ℕ)
  | wait (i : Fin ntasks)
  | munmap
  | exit
  deriving DecidableEq

/-- The exported array, whose pointers are named after who has mapped the page; which pages are mapped, how often
each participant has written to each page, and which tasks run and have terminated. -/
structure Shared (ntasks : ℕ) where
  maps : ℕ → Option (Party ntasks)
  mapped : Party ntasks → Bool
  touched : Party ntasks → Party ntasks → ℕ
  barrierReady : Bool
  spawned : Fin ntasks → Bool
  exited : Fin ntasks → Bool

def initial (ntasks : ℕ) : Shared ntasks :=
  ⟨fun _ => none, fun _ => false, fun _ _ => 0, false, fun _ => false, fun _ => false⟩

variable {ntasks : ℕ}

/-- The index in the array: the tasks have their pipids, and the root comes behind them. -/
def slot : Party ntasks → ℕ
  | none => ntasks
  | some i => i

/-- The array has NTASKS+1 elements; to access another one, a null pointer or a page that is not mapped is a
fault. -/
def perform (ntasksMax : ℕ) : Exec (Party ntasks) (Op ntasks) Unit (Shared ntasks)
  | p, .mmap, _, d => ({ d with mapped := Function.update d.mapped p true }, .pass)
  | p, .publish, _, d =>
    if slot p < ntasksMax + 1 then ({ d with maps := Function.update d.maps (slot p) (some p) }, .pass)
    else (d, .fail)
  | _, .barrierInit, _, d => ({ d with barrierReady := true }, .pass)
  | _, .spawn i, _, d => ({ d with spawned := Function.update d.spawned i true }, .pass)
  | none, .begin, _, d => (d, .pass)
  | some i, .begin, _, d => (d, if d.spawned i then .pass else .again)
  | p, .touch j, _, d =>
    if j < ntasksMax + 1 then
      match d.maps j with
      | some q =>
        if d.mapped q then
          let touches := Function.update (d.touched p) q (d.touched p q + 1)
          ({ d with touched := Function.update d.touched p touches }, .pass)
        else (d, .fail)
      | none => (d, .fail)
    else (d, .fail)
  | _, .wait i, _, d => (d, if d.exited i then .pass else .again)
  | p, .munmap, _, d => ({ d with mapped := Function.update d.mapped p false }, .pass)
  | none, .exit, _, d => (d, .pass)
  | some i, .exit, _, d => ({ d with exited := Function.update d.exited i true }, .pass)

def setup : Party ntasks → List (Op ntasks)
  | none => [.mmap, .publish, .barrierInit] ++ (List.finRange ntasks).map .spawn
  | some _ => [.begin, .mmap, .publish]

/-- for( i=0; i<ntasks+1; i++ ) in the root; for( i=pipid; i<ntasks+1; i++ ) and for( i=0; i<pipid; i++ ) in a
task. -/
def touches : Party ntasks → List ℕ
  | none => List.range (ntasks + 1)
  | some i => List.range' i (ntasks + 1 - i) ++ List.range i

def teardown : Party ntasks → List (Op ntasks)
  | none => (List.finRange ntasks).map .wait ++ [.munmap]
  | some _ => [.munmap, .exit]

def main (p : Party ntasks) : List (Instr (Op ntasks)) :=
  (setup p).map .act ++ .wait :: (((touches p).map .touch).map .act ++ .wait :: (teardown p).map .act)

/-- The interleavings behind pip_init. -/
def runPages (ntasksMax ntasks : ℕ) (schedule : List (Event (Party ntasks) Unit)) :
    Config (Party ntasks) (Op ntasks) (Shared ntasks) :=
  Config.run (perform ntasksMax) main (initial ntasks) schedule

/-- The number of tasks that main takes from its argument. -/
def count (args : TestRoot.Args) : ℕ := (args.ntasks args.ntasksMax).toNat

/-- main up to its mmap, where the root may leave it. Its tasks have its arguments and its environment, so they pass
the same guard when they begin. -/
def prologue (args : TestRoot.Args) (pipInit : ℤ) : Except ℕ Unit := do
  check (args.tooMany args.ntasksMax (args.ntasks args.ntasksMax)) exitUntested
  check (pipInit ≠ 0) exitFail

/-- The root leaves main with an exit status before it touches anything, or the interleavings begin. -/
def run (args : TestRoot.Args) (pipInit : ℤ) (schedule : List (Event (Party (count args)) Unit)) :
    Except ℕ (Config (Party (count args)) (Op (count args)) (Shared (count args))) := do
  prologue args pipInit
  return runPages args.ntasksMax.toNat (count args) schedule

section Programs

lemma phase_main (p : Party ntasks) (k : ℕ) :
    phase (main p) k =
      if k = 0 then setup p else if k = 1 then (touches p).map .touch else if k = 2 then teardown p else [] := by
  have hphase : ∀ l m n : List (Op ntasks), phase (l.map .act ++ .wait :: (m.map .act ++ .wait :: n.map .act)) k =
      if k = 0 then l else if k = 1 then m else if k = 2 then n else [] := by
    intro l m n
    rcases k with _ | _ | _ | k
    · simp [phase_append, phase]
    · simp [phase_append, phase]
    · simp [phase_append, phase]
    · simp [phase_append, phase]
  exact hphase _ _ _

lemma waits_main (p : Party ntasks) : waits (main p) = 2 := by
  simp only [main, waits_append, waits_map_act, waits]

lemma slot_le (p : Party ntasks) : slot p ≤ ntasks := by
  cases p with
  | none => exact le_rfl
  | some i => exact i.isLt.le

lemma slot_injective : Function.Injective (slot : Party ntasks → ℕ) := by
  intro p q h
  cases p with
  | none =>
    cases q with
    | none => rfl
    | some j => exact absurd h (Ne.symm j.isLt.ne)
  | some i =>
    cases q with
    | none => exact absurd h i.isLt.ne
    | some j => exact congrArg some (Fin.ext h)

/-- Every page is the one of somebody. -/
lemma exists_slot {j : ℕ} (hj : j ≤ ntasks) : ∃ q : Party ntasks, slot q = j := by
  obtain hlt | heq := Nat.lt_or_eq_of_le hj
  · exact ⟨some ⟨j, hlt⟩, rfl⟩
  · exact ⟨none, heq.symm⟩

lemma mem_touches {p : Party ntasks} {j : ℕ} : j ∈ touches p ↔ j ≤ ntasks := by
  cases p with
  | none => simp [touches]
  | some i =>
    have := i.isLt
    simp only [touches, List.mem_append, List.mem_range'_1, List.mem_range]
    omega

lemma nodup_touches (p : Party ntasks) : (touches p).Nodup := by
  cases p with
  | none => exact List.nodup_range
  | some i =>
    refine List.nodup_append.mpr ⟨List.nodup_range', List.nodup_range, fun a ha b hb => ?_⟩
    rw [List.mem_range'_1] at ha
    rw [List.mem_range] at hb
    omega

/-- The loops come to each page once. -/
lemma count_touches (p q : Party ntasks) :
    ((touches p).map (.touch : ℕ → Op ntasks)).count (.touch (slot q)) = 1 := by
  refine List.count_eq_one_of_mem ((nodup_touches p).map fun a b h => Op.touch.inj h) ?_
  exact List.mem_map_of_mem (mem_touches.mpr (slot_le q))

/-- What the participants do before the first barrier; the tasks are spawned behind its initialisation. -/
lemma suffix_setup {p : Party ntasks} {a : Op ntasks} {l : List (Op ntasks)} (h : a :: l <:+ setup p) :
    a = .mmap ∨ a = .publish ∨ (p = none ∧ (a = .barrierInit ∨ ∃ i, a = .spawn i ∧ .barrierInit ∉ l)) ∨
      ∃ i, p = some i ∧ a = .begin := by
  cases p with
  | none =>
    obtain ha | hsuffix := cons_suffix_append h
    · rcases (by simpa using ha : a = .mmap ∨ a = .publish ∨ a = .barrierInit) with rfl | rfl | rfl <;> simp
    · have hspawn : ∀ b ∈ a :: l, ∃ i, b = Op.spawn i := fun b hb => by
        obtain ⟨i, -, rfl⟩ := List.mem_map.mp (hsuffix.subset hb)
        exact ⟨i, rfl⟩
      obtain ⟨i, rfl⟩ := hspawn a List.mem_cons_self
      refine .inr (.inr (.inl ⟨rfl, .inr ⟨i, rfl, fun hl => ?_⟩⟩))
      obtain ⟨j, hj⟩ := hspawn _ (List.mem_cons_of_mem _ hl)
      cases hj
  | some i =>
    have ha := h.subset List.mem_cons_self
    rcases (by simpa [setup] using ha : a = .begin ∨ a = .mmap ∨ a = .publish) with rfl | rfl | rfl <;> simp

/-- What the participants do behind the second barrier. -/
lemma suffix_teardown {p : Party ntasks} {a : Op ntasks} {l : List (Op ntasks)} (h : a :: l <:+ teardown p) :
    (p = none ∧ ∃ i, a = .wait i) ∨ a = .munmap ∨ ∃ i, p = some i ∧ a = .exit ∧ l = [] := by
  cases p with
  | none =>
    obtain ha | hsuffix := cons_suffix_append h
    · obtain ⟨i, -, rfl⟩ := List.mem_map.mp ha
      exact .inl ⟨rfl, i, rfl⟩
    · exact .inr (.inl (by simpa using hsuffix.subset List.mem_cons_self))
  | some i =>
    simp only [teardown, List.suffix_cons_iff, List.suffix_nil, List.cons.injEq, reduceCtorEq, or_false] at h
    rcases h with ⟨rfl, rfl⟩ | ⟨rfl, rfl⟩
    · exact .inr (.inl rfl)
    · exact .inr (.inr ⟨i, rfl, rfl, rfl⟩)

end Programs

section Setup
variable {ntasksMax : ℕ} {d d' : Shared ntasks} {todo : Party ntasks → List (Op ntasks)} {p : Party ntasks}
variable {a : Op ntasks} {l : List (Op ntasks)}

/-- Before the first barrier: what is not to be done any more has been done, and nobody has written yet. -/
structure Setup (d : Shared ntasks) (todo : Party ntasks → List (Op ntasks)) : Prop where
  suffix : ∀ p, todo p <:+ setup p
  mapped : ∀ p, .mmap ∉ todo p → d.mapped p = true
  published : ∀ p, .publish ∉ todo p → d.maps (slot p) = some p
  ready : .barrierInit ∉ todo none → d.barrierReady = true
  spawns : ∀ i, .spawn i ∉ todo none → d.spawned i = true
  began : ∀ i, .begin ∉ todo (some i) → d.barrierReady = true
  spawned : ∀ i, d.spawned i = true → d.barrierReady = true
  untouched : ∀ p q, d.touched p q = 0
  running : ∀ i, d.exited i = false

lemma initial_setup : Setup (initial ntasks) fun p => phase (main p) 0 where
  suffix p := by
    rw [phase_main]
    exact List.suffix_rfl
  mapped p h := absurd (by cases p <;> simp [phase_main, setup]) h
  published p h := absurd (by cases p <;> simp [phase_main, setup]) h
  ready h := absurd (by simp [phase_main, setup]) h
  spawns i h := absurd (by simp [phase_main, setup]) h
  began i h := absurd (by simp [phase_main, setup]) h
  spawned i h := by cases h
  untouched p q := rfl
  running i := rfl

/-- What has been done is as before, but for one thing. -/
lemma notMem_of_ne {b : Op ntasks} {q : Party ntasks} (htodo : todo p = a :: l) (hne : b ≠ a)
    (hb : b ∉ Function.update todo p l q) : b ∉ todo q :=
  (notMem_update htodo hb).resolve_left fun h => hne h.2

lemma Setup.pass_mmap (h : Setup d todo) (htodo : todo p = .mmap :: l) :
    Setup { d with mapped := Function.update d.mapped p true } (Function.update todo p l) := by
  refine ⟨suffix_update h.suffix htodo, fun q hq => ?_, fun q hq => h.published q (notMem_of_ne htodo (by simp) hq),
    fun hq => h.ready (notMem_of_ne htodo (by simp) hq), fun i hq => h.spawns i (notMem_of_ne htodo (by simp) hq),
    fun i hq => h.began i (notMem_of_ne htodo (by simp) hq), h.spawned, h.untouched, h.running⟩
  by_cases hqp : q = p
  · simp [hqp]
  · rw [Function.update_of_ne hqp] at hq
    simpa [hqp] using h.mapped q hq

lemma Setup.pass_publish (h : Setup d todo) (htodo : todo p = .publish :: l) :
    Setup { d with maps := Function.update d.maps (slot p) (some p) } (Function.update todo p l) := by
  refine ⟨suffix_update h.suffix htodo, fun q hq => h.mapped q (notMem_of_ne htodo (by simp) hq), fun q hq => ?_,
    fun hq => h.ready (notMem_of_ne htodo (by simp) hq), fun i hq => h.spawns i (notMem_of_ne htodo (by simp) hq),
    fun i hq => h.began i (notMem_of_ne htodo (by simp) hq), h.spawned, h.untouched, h.running⟩
  by_cases hqp : q = p
  · simp [hqp]
  · rw [Function.update_of_ne hqp] at hq
    simpa [slot_injective.ne hqp] using h.published q hq

lemma Setup.pass_barrierInit (h : Setup d todo) (htodo : todo none = .barrierInit :: l) :
    Setup { d with barrierReady := true } (Function.update todo none l) :=
  ⟨suffix_update h.suffix htodo, fun q hq => h.mapped q (notMem_of_ne htodo (by simp) hq),
    fun q hq => h.published q (notMem_of_ne htodo (by simp) hq), fun _ => rfl,
    fun i hq => h.spawns i (notMem_of_ne htodo (by simp) hq), fun _ _ => rfl, fun _ _ => rfl, h.untouched, h.running⟩

lemma Setup.pass_spawn (h : Setup d todo) {i : Fin ntasks} (htodo : todo none = .spawn i :: l)
    (hready : .barrierInit ∉ l) :
    Setup { d with spawned := Function.update d.spawned i true } (Function.update todo none l) := by
  have hset : d.barrierReady = true := h.ready (by simp [htodo, hready])
  refine ⟨suffix_update h.suffix htodo, fun q hq => h.mapped q (notMem_of_ne htodo (by simp) hq),
    fun q hq => h.published q (notMem_of_ne htodo (by simp) hq), fun _ => hset, fun j hq => ?_, fun _ _ => hset,
    fun _ _ => hset, h.untouched, h.running⟩
  by_cases hj : j = i
  · simp [hj]
  · simpa [hj] using h.spawns j (notMem_of_ne htodo (by simpa using hj) hq)

lemma Setup.pass_begin (h : Setup d todo) {i : Fin ntasks} (htodo : todo (some i) = .begin :: l)
    (hspawned : d.spawned i = true) : Setup d (Function.update todo (some i) l) :=
  ⟨suffix_update h.suffix htodo, fun q hq => h.mapped q (notMem_of_ne htodo (by simp) hq),
    fun q hq => h.published q (notMem_of_ne htodo (by simp) hq),
    fun hq => h.ready (notMem_of_ne htodo (by simp) hq), fun j hq => h.spawns j (notMem_of_ne htodo (by simp) hq),
    fun _ _ => h.spawned i hspawned, h.spawned, h.untouched, h.running⟩

/-- What somebody comes to before the first barrier. -/
lemma Setup.cons (h : Setup d todo) (htodo : todo p = a :: l) :
    a = .mmap ∨ a = .publish ∨ (p = none ∧ (a = .barrierInit ∨ ∃ i, a = .spawn i ∧ .barrierInit ∉ l)) ∨
      ∃ i, p = some i ∧ a = .begin := by
  have hsuffix := h.suffix p
  rw [htodo] at hsuffix
  exact suffix_setup hsuffix

lemma Setup.pass (h : Setup d todo) (htodo : todo p = a :: l)
    (hexec : perform ntasksMax p a () d = (d', .pass)) : Setup d' (Function.update todo p l) := by
  obtain rfl | rfl | ⟨rfl, rfl | ⟨i, rfl, hready⟩⟩ | ⟨i, rfl, rfl⟩ := h.cons htodo
  · obtain rfl := (Prod.mk.inj hexec).1
    exact h.pass_mmap htodo
  · simp only [perform] at hexec
    split_ifs at hexec
    · obtain rfl := (Prod.mk.inj hexec).1
      exact h.pass_publish htodo
    · cases (Prod.mk.inj hexec).2
  · obtain rfl := (Prod.mk.inj hexec).1
    exact h.pass_barrierInit htodo
  · obtain rfl := (Prod.mk.inj hexec).1
    exact h.pass_spawn htodo hready
  · obtain ⟨rfl, hverdict⟩ := Prod.mk.inj hexec
    refine h.pass_begin htodo ?_
    by_contra hnot
    rw [if_neg hnot] at hverdict
    cases hverdict

lemma Setup.not_fail (h : Setup d todo) (hfits : ntasks ≤ ntasksMax) (htodo : todo p = a :: l) :
    (perform ntasksMax p a () d).2 ≠ .fail := by
  obtain rfl | rfl | ⟨rfl, rfl | ⟨i, rfl, -⟩⟩ | ⟨i, rfl, rfl⟩ := h.cons htodo
  · exact Verdict.noConfusion
  · have hslot := slot_le p
    rw [perform, if_pos (by omega)]
    exact Verdict.noConfusion
  · exact Verdict.noConfusion
  · exact Verdict.noConfusion
  · simp only [perform]
    split_ifs <;> exact Verdict.noConfusion

/-- A task that waits for its spawn waits for the root. -/
lemma Setup.progress (h : Setup d todo) (htodo : todo p = a :: l) :
    ∃ q b m, todo q = b :: m ∧ (perform ntasksMax q b () d).2 ≠ .again := by
  have hgo : ∀ q b m, todo q = b :: m → (∀ i, q = some i → b = .begin → d.spawned i = true) →
      (perform ntasksMax q b () d).2 ≠ .again := by
    intro q b m hq hspawned
    obtain rfl | rfl | ⟨rfl, rfl | ⟨i, rfl, -⟩⟩ | ⟨i, rfl, rfl⟩ := h.cons hq
    · exact Verdict.noConfusion
    · simp only [perform]
      split_ifs <;> exact Verdict.noConfusion
    · exact Verdict.noConfusion
    · exact Verdict.noConfusion
    · simp [perform, hspawned i rfl rfl]
  by_cases hspawned : ∀ i, p = some i → a = .begin → d.spawned i = true
  · exact ⟨p, a, l, htodo, hgo p a l htodo hspawned⟩
  · push Not at hspawned
    obtain ⟨i, rfl, rfl, hnot⟩ := hspawned
    obtain ⟨b, m, hb⟩ := List.exists_cons_of_ne_nil (l := todo none) fun hnil =>
      hnot (h.spawns i (by simp [hnil]))
    exact ⟨none, b, m, hb, hgo none b m hb fun i hi => by cases hi⟩

end Setup

section Pages
variable {ntasksMax k : ℕ} {d d' : Shared ntasks} {todo : Party ntasks → List (Op ntasks)} {p : Party ntasks}
variable {a : Op ntasks} {l : List (Op ntasks)}

/-- Between the barriers all pages are there, and each participant has still to write to the ones to which it has
not written. -/
structure Touching (d : Shared ntasks) (todo : Party ntasks → List (Op ntasks)) : Prop where
  mapped : ∀ p, d.mapped p = true
  published : ∀ p, d.maps (slot p) = some p
  ready : d.barrierReady = true
  counts : ∀ p q, d.touched p q + (todo p).count (.touch (slot q)) = 1
  ops : ∀ p, ∀ a ∈ todo p, ∃ q : Party ntasks, a = .touch (slot q)
  running : ∀ i, d.exited i = false

/-- Behind the second barrier everybody has written once to each page. -/
structure Leaving (d : Shared ntasks) (todo : Party ntasks → List (Op ntasks)) : Prop where
  suffix : ∀ p, todo p <:+ teardown p
  ready : d.barrierReady = true
  touched : ∀ p q, d.touched p q = 1
  unmapped : ∀ p, .munmap ∉ todo p → d.mapped p = false
  exits : ∀ i, .exit ∉ todo (some i) → d.exited i = true

lemma Touching.perform_touch (h : Touching d todo) (hfits : ntasks ≤ ntasksMax) (p q : Party ntasks) :
    perform ntasksMax p (.touch (slot q)) () d = ({ d with
      touched := Function.update d.touched p (Function.update (d.touched p) q (d.touched p q + 1)) }, .pass) := by
  have hslot := slot_le q
  rw [perform, if_pos (by omega), h.published q]
  exact if_pos (h.mapped q)

lemma Touching.pass (h : Touching d todo) (hfits : ntasks ≤ ntasksMax) (htodo : todo p = a :: l)
    (hexec : perform ntasksMax p a () d = (d', .pass)) : Touching d' (Function.update todo p l) := by
  obtain ⟨q, rfl⟩ := h.ops p a (by simp [htodo])
  rw [h.perform_touch hfits] at hexec
  obtain ⟨rfl, -⟩ := Prod.mk.inj hexec
  refine ⟨h.mapped, h.published, h.ready, fun p' q' => ?_, fun p' b hb => ?_, h.running⟩
  · have hcount := h.counts p' q'
    by_cases hp : p' = p
    · subst hp
      rw [htodo, List.count_cons] at hcount
      by_cases hq : q' = q
      · subst hq
        simp only [Function.update_self, beq_self_eq_true, if_true] at hcount ⊢
        omega
      · have hne : slot q ≠ slot q' := fun heq => hq (slot_injective heq.symm)
        simpa [hq, hne] using hcount
    · simpa [hp] using hcount
  · by_cases hp : p' = p
    · subst hp
      rw [Function.update_self] at hb
      exact h.ops p' b (by simp [htodo, hb])
    · rw [Function.update_of_ne hp] at hb
      exact h.ops p' b hb

lemma Leaving.cons (h : Leaving d todo) (htodo : todo p = a :: l) :
    (p = none ∧ ∃ i, a = .wait i) ∨ a = .munmap ∨ ∃ i, p = some i ∧ a = .exit ∧ l = [] := by
  have hsuffix := h.suffix p
  rw [htodo] at hsuffix
  exact suffix_teardown hsuffix

lemma Leaving.pass (h : Leaving d todo) (htodo : todo p = a :: l)
    (hexec : perform ntasksMax p a () d = (d', .pass)) : Leaving d' (Function.update todo p l) := by
  obtain ⟨rfl, i, rfl⟩ | rfl | ⟨i, rfl, rfl, rfl⟩ := h.cons htodo
  · obtain ⟨rfl, -⟩ := Prod.mk.inj hexec
    exact ⟨suffix_update h.suffix htodo, h.ready, h.touched,
      fun q hq => h.unmapped q (notMem_of_ne htodo (by simp) hq),
      fun j hq => h.exits j (notMem_of_ne htodo (by simp) hq)⟩
  · obtain ⟨rfl, -⟩ := Prod.mk.inj hexec
    refine ⟨suffix_update h.suffix htodo, h.ready, h.touched, fun q hq => ?_,
      fun j hq => h.exits j (notMem_of_ne htodo (by simp) hq)⟩
    by_cases hqp : q = p
    · simp [hqp]
    · rw [Function.update_of_ne hqp] at hq
      simpa [hqp] using h.unmapped q hq
  · obtain ⟨rfl, -⟩ := Prod.mk.inj hexec
    refine ⟨suffix_update h.suffix htodo, h.ready, h.touched,
      fun q hq => h.unmapped q (notMem_of_ne htodo (by simp) hq), fun j hq => ?_⟩
    by_cases hj : j = i
    · simp [hj]
    · rw [Function.update_of_ne (by simpa using hj)] at hq
      simpa [hj] using h.exits j hq

lemma Leaving.not_fail (h : Leaving d todo) (htodo : todo p = a :: l) : (perform ntasksMax p a () d).2 ≠ .fail := by
  obtain ⟨rfl, i, rfl⟩ | rfl | ⟨i, rfl, rfl, -⟩ := h.cons htodo
  · simp only [perform]
    split_ifs <;> exact Verdict.noConfusion
  · exact Verdict.noConfusion
  · exact Verdict.noConfusion

/-- The root waits for tasks that can go on. -/
lemma Leaving.progress (h : Leaving d todo) (htodo : todo p = a :: l) :
    ∃ q b m, todo q = b :: m ∧ (perform ntasksMax q b () d).2 ≠ .again := by
  have htask : ∀ i b m, todo (some i) = b :: m → (perform ntasksMax (some i) b () d).2 ≠ .again := by
    intro i b m hb
    obtain ⟨hi, -⟩ | rfl | ⟨j, -, rfl, -⟩ := h.cons hb
    · cases hi
    · exact Verdict.noConfusion
    · exact Verdict.noConfusion
  cases p with
  | some i => exact ⟨some i, a, l, htodo, htask i a l htodo⟩
  | none =>
    obtain ⟨-, i, rfl⟩ | rfl | ⟨i, hi, -⟩ := h.cons htodo
    · by_cases hexited : d.exited i = true
      · exact ⟨none, _, l, htodo, by simp [perform, hexited]⟩
      · obtain ⟨b, m, hb⟩ := List.exists_cons_of_ne_nil (l := todo (some i)) fun hnil =>
          hexited (h.exits i (by simp [hnil]))
        exact ⟨some i, b, m, hb, htask i b m hb⟩
    · exact ⟨none, _, l, htodo, Verdict.noConfusion⟩
    · cases hi

/-- An operation that waits leaves everything as it is. -/
lemma perform_again (hexec : perform ntasksMax p a () d = (d', .again)) : d' = d := by
  cases a with
  | mmap | barrierInit | spawn i | munmap => cases (Prod.mk.inj hexec).2
  | wait i => exact (Prod.mk.inj hexec).1.symm
  | begin | exit =>
    cases p with
    | none => cases (Prod.mk.inj hexec).2
    | some i => first | exact (Prod.mk.inj hexec).1.symm | cases (Prod.mk.inj hexec).2
  | publish =>
    simp only [perform] at hexec
    split_ifs at hexec
    · cases (Prod.mk.inj hexec).2
    · cases (Prod.mk.inj hexec).2
  | touch j =>
    simp only [perform] at hexec
    split_ifs at hexec
    · split at hexec
      · split_ifs at hexec
        · cases (Prod.mk.inj hexec).2
        · cases (Prod.mk.inj hexec).2
      · cases (Prod.mk.inj hexec).2
    · cases (Prod.mk.inj hexec).2

def Claim : ℕ → Shared ntasks → (Party ntasks → List (Op ntasks)) → Prop
  | 0, d, todo => Setup d todo
  | 1, d, todo => Touching d todo
  | _ + 2, d, todo => Leaving d todo

lemma Setup.next (h : Setup d fun _ => []) : Touching d fun p => phase (main p) 1 := by
  have hphase : ∀ p : Party ntasks, phase (main p) 1 = (touches p).map .touch := fun p => phase_main p 1
  refine ⟨fun p => h.mapped p (by simp), fun p => h.published p (by simp), h.ready (by simp), fun p q => ?_,
    fun p a ha => ?_, h.running⟩
  · rw [hphase, h.untouched, count_touches]
  · rw [hphase] at ha
    obtain ⟨j, hj, rfl⟩ := List.mem_map.mp ha
    obtain ⟨q, rfl⟩ := exists_slot (mem_touches.mp hj)
    exact ⟨q, rfl⟩

lemma Touching.next (h : Touching d fun _ => []) : Leaving d fun p => phase (main p) 2 := by
  have hphase : ∀ p : Party ntasks, phase (main p) 2 = teardown p := fun p => phase_main p 2
  refine ⟨fun p => ?_, h.ready, fun p q => h.counts p q, fun p hp => ?_, fun i hi => ?_⟩
  · exact (hphase p).symm ▸ List.suffix_rfl
  · rw [hphase] at hp
    exact absurd (by cases p <;> simp [teardown]) hp
  · rw [hphase] at hi
    exact absurd (by simp [teardown]) hi

theorem phaseRule (hfits : ntasks ≤ ntasksMax) :
    PhaseRule main (perform ntasksMax) (initial ntasks) Claim where
  start := initial_setup
  again k d d' todo p a l _ h _ hexec := by rwa [perform_again hexec]
  pass k d d' todo p a l _ h htodo hexec := by
    match k with
    | 0 => exact Setup.pass h htodo hexec
    | 1 => exact Touching.pass h hfits htodo hexec
    | k + 2 => exact Leaving.pass h htodo hexec
  fail k d todo p a l _ h htodo := by
    match k with
    | 0 => exact Setup.not_fail h hfits htodo
    | 1 =>
      obtain ⟨q, rfl⟩ := Touching.ops h p a (by simp [htodo])
      rw [Touching.perform_touch h hfits]
      exact Verdict.noConfusion
    | k + 2 => exact Leaving.not_fail h htodo
  next k d hwaits h := by
    have hk : k < 2 := by simpa [waits_main] using hwaits none
    match k with
    | 0 => exact Setup.next h
    | 1 => exact Touching.next h

lemma Claim.progress (h : Claim k d todo) (hfits : ntasks ≤ ntasksMax) (htodo : todo p = a :: l) :
    ∃ q b m choice, todo q = b :: m ∧ (perform ntasksMax q b choice d).2 ≠ .again := by
  have hex : ∃ q b m, todo q = b :: m ∧ (perform ntasksMax q b () d).2 ≠ .again := by
    match k with
    | 0 => exact Setup.progress h htodo
    | 1 =>
      obtain ⟨q, rfl⟩ := Touching.ops h p a (by simp [htodo])
      exact ⟨p, _, l, htodo, by rw [Touching.perform_touch h hfits]; exact Verdict.noConfusion⟩
    | k + 2 => exact Leaving.progress h htodo
  obtain ⟨q, b, m, hq, hne⟩ := hex
  exact ⟨q, b, m, (), hq, hne⟩

end Pages

section Runs
variable {ntasksMax : ℕ} {c : Config (Party ntasks) (Op ntasks) (Shared ntasks)}

/-- Nothing faults and no CHECK fails; nobody comes to the barrier before its initialisation, and nobody to its
munmap before all have written once to all pages; everybody can always get to the end, where nothing is left
mapped. -/
structure Sound (ntasksMax : ℕ) (c : Config (Party ntasks) (Op ntasks) (Shared ntasks)) : Prop where
  ok : ∀ p, c.sync.failed p = false
  barrier : ∀ p rest, c.sync.todo p = .wait :: rest → c.data.barrierReady = true
  once : ∀ p q, c.data.touched p q ≤ 1
  unmaps : ∀ p, c.AboutTo p .munmap → ∀ p q, c.data.touched p q = 1
  ends : ∀ e c', c.step (perform ntasksMax) e = some c' → c' = c ∨ work c'.sync < work c.sync
  goesOn : ∃ more, Finished (Interleaving.run (Config.step (perform ntasksMax)) c more).sync
  final : Finished c.sync → ∀ p, c.data.mapped p = false ∧ ∀ q, c.data.touched p q = 1

lemma barrierReady_of_wait (h : c.Inv main Claim) {p : Party ntasks} {rest : List (Instr (Op ntasks))}
    (htodo : c.sync.todo p = .wait :: rest) : c.data.barrierReady = true := by
  have hclaim := h.claim
  generalize hgen : c.sync.gen = k at hclaim
  match k with
  | 0 =>
    have hcurrent : current c.sync p = [] := by
      rw [current_of_gen_zero hgen, htodo]
      rfl
    have hsetup : Setup c.data (current c.sync) := hclaim
    cases p with
    | none => exact hsetup.ready (by simp [hcurrent])
    | some i => exact hsetup.began i (by simp [hcurrent])
  | 1 => exact Touching.ready hclaim
  | k + 2 => exact Leaving.ready hclaim

theorem sound_of_inv (hfits : ntasks ≤ ntasksMax) (hinv : c.Inv main Claim) : Sound ntasksMax c := by
  constructor
  · exact hinv.ok
  · exact fun p rest => barrierReady_of_wait hinv
  · intro p q
    have hclaim := hinv.claim
    match hgen : c.sync.gen with
    | 0 => exact (Setup.untouched (hgen ▸ hclaim) p q).trans_le (Nat.zero_le _)
    | 1 => exact (Nat.le_add_right _ _).trans (Touching.counts (hgen ▸ hclaim) p q).le
    | k + 2 => exact (Leaving.touched (hgen ▸ hclaim) p q).le
  · intro p hp
    obtain ⟨l, hl⟩ := hp.exists_current
    have hclaim := hinv.claim
    generalize c.sync.gen = k at hclaim
    match k with
    | 0 =>
      have hcons := Setup.cons hclaim hl
      simp at hcons
    | 1 =>
      obtain ⟨q, hq⟩ := Touching.ops hclaim p _ (by rw [hl]; exact List.mem_cons_self)
      cases hq
    | k + 2 => exact Leaving.touched hclaim
  · exact fun e c' => Config.eq_or_work_lt (fun p a u d d' => perform_again) hinv.toPlaced
  · exact hinv.exists_finished (phaseRule hfits) waits_main fun k d todo p a l hclaim htodo =>
      hclaim.progress hfits htodo
  · intro hend p
    have hclaim : Leaving c.data fun _ => [] := hinv.claim_finished waits_main hend
    exact ⟨hclaim.unmapped p (by simp), hclaim.touched p⟩

/-- The first steps of the root with an array that is too small. -/
lemma root_fails (hmany : ntasksMax < ntasks) :
    (runPages ntasksMax ntasks [.act none (), .act none ()]).sync.failed none = true := by
  have hslot : ¬ slot (none : Party ntasks) ≤ ntasksMax := by
    simp only [slot]
    omega
  simp [runPages, Config.run, Interleaving.run, Config.step, BarrierProgram.start, main, setup, perform, hslot,
    BarrierProgram.step]

/-- Every interleaving is without a fault just where the array has an element for each participant. -/
lemma pages_safe_iff (ntasksMax ntasks : ℕ) :
    (∀ schedule, Sound ntasksMax (runPages ntasksMax ntasks schedule)) ↔ ntasks ≤ ntasksMax := by
  constructor
  · intro h
    by_contra hmany
    have hok := (h [.act none (), .act none ()]).ok none
    rw [root_fails (by omega)] at hok
    cases hok
  · exact fun hfits schedule => sound_of_inv hfits (Config.run_inv (phaseRule hfits) schedule)

end Runs

section Guards
variable {args : TestRoot.Args} {pipInit : ℤ}

/-- Where the root leaves, it is with the exit status that it has by its verdict. -/
lemma pagefault_of_prologue {calls : TestRoot.Calls} {code : ℕ} (h : prologue args calls.pipInit = .error code) :
    TestRoot.pagefault args calls = .error code := by
  unfold prologue at h
  unfold TestRoot.pagefault
  by_cases hmany : args.tooMany args.ntasksMax (args.ntasks args.ntasksMax) = true
  · simpa [check, hmany, bind, Except.bind] using h
  · by_cases hinit : calls.pipInit = 0
    · simp [check, hmany, hinit, bind, Except.bind] at h
    · simpa [check, hmany, hinit, bind, Except.bind] using h

lemma prologue_eq_ok : prologue args pipInit = .ok () ↔
    args.tooMany args.ntasksMax (args.ntasks args.ntasksMax) = false ∧ pipInit = 0 := by
  simp [prologue, bind_eq_ok, check_eq_ok]

lemma count_le_iff : count args ≤ args.ntasksMax.toNat ↔ args.ntasks args.ntasksMax ≤ args.ntasksMax := by
  unfold count TestRoot.Args.ntasks
  dsimp only
  split_ifs <;> omega

end Guards

/-- Every interleaving of the root and its tasks is without a fault, unless $NTASKS lets pass, and pip_init takes,
more tasks than the array has elements for. -/
theorem touches_safe_iff (args : TestRoot.Args) (pipInit : ℤ) :
    (∀ schedule c, run args pipInit schedule = .ok c → Sound args.ntasksMax.toNat c) ↔
      ¬ (pipInit = 0 ∧ args.ntasksMax < args.ntasks args.ntasksMax ∧
        ∃ ntenv ∈ args.ntenv, args.ntasks args.ntasksMax ≤ ntenv) := by
  have hrun : ∀ schedule c, run args pipInit schedule = .ok c ↔
      prologue args pipInit = .ok () ∧ runPages args.ntasksMax.toNat (count args) schedule = c := by
    intro schedule c
    unfold run
    cases prologue args pipInit with
    | error code => simp
    | ok u => simp
  have hsafe : (∀ schedule c, run args pipInit schedule = .ok c → Sound args.ntasksMax.toNat c) ↔
      (prologue args pipInit = .ok () → count args ≤ args.ntasksMax.toNat) := by
    rw [← pages_safe_iff]
    constructor
    · exact fun h hok schedule => h schedule _ ((hrun schedule _).mpr ⟨hok, rfl⟩)
    · rintro h schedule c hc
      obtain ⟨hok, rfl⟩ := (hrun schedule c).mp hc
      exact h hok schedule
  rw [hsafe, prologue_eq_ok, count_le_iff]
  unfold TestRoot.Args.tooMany
  cases args.ntenv with
  | none =>
    simp only [gt_iff_lt, decide_eq_false_iff_not, not_lt, Option.mem_def, reduceCtorEq, false_and, exists_false,
      and_false, not_false_eq_true, iff_true]
    exact fun h => h.1
  | some ntenv =>
    simp only [gt_iff_lt, decide_eq_false_iff_not, not_lt, Option.mem_def, Option.some.injEq, exists_eq_left']
    constructor
    · rintro h ⟨hinit, hmany, hle⟩
      exact absurd (h ⟨hle, hinit⟩) (not_le.mpr hmany)
    · rintro h ⟨hle, hinit⟩
      exact not_lt.mp fun hmany => h ⟨hinit, hmany, hle⟩

end PipTestsuite.Pagefault
