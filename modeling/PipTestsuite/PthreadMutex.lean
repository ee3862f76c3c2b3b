import PipTestsuite.BltMutex

/-! pthread/pthread_mutex.c: the root spawns the tasks, all of them increment one count under a mutex behind a
barrier, and the root checks the count when it has waited for all tasks. -/
namespace PipTestsuite.PthreadMutex
open BarrierProgram
open LockedCounter (Cell Locked Guarded Path effect summand)
open BltMutex (intMax)

/-- The initialisations and tcp->count = 0, pip_spawn, the begin of a task, the single accesses of the loop, the
end of a task, pip_wait, and the last printf and CHECK. -/
inductive Op (ntasks : ℕ) where
  | barrierInit
  | mutexInit
  | clear
  | spawn (i : Fin ntasks)
  | begin
  | loop (op : LockedCounter.Op ℕ)
  | exit
  | wait (i : Fin ntasks)
  | print
  | checkCount
  deriving DecidableEq

/-- The root (none) and its tasks. -/
abbrev Party (ntasks : ℕ) := Option (Fin ntasks)

/-- struct task_comm of the root, whose count has no value before it is set, what each of them has read of the
count, which tasks run and which have terminated, and what the root has printed as count. -/
structure Shared (ntasks : ℕ) where
  barrierReady : Bool
  mutexReady : Bool
  count : Option ℕ
  holder : Option (Party ntasks)
  loaded : Party ntasks → ℕ
  spawned : Fin ntasks → Bool
  exited : Fin ntasks → Bool
  printed : Option ℕ

def initial (ntasks : ℕ) : Shared ntasks :=
  ⟨false, false, none, none, fun _ => 0, fun _ => false, fun _ => false, none⟩

variable {ntasks ntimes : ℕ}

/-- pthread_mutex_lock, tcp->count ++ and pthread_mutex_unlock; what does not fit in an int has no meaning. -/
def performLoop (i : Party ntasks) (d : Shared ntasks) : LockedCounter.Op ℕ → Shared ntasks × Verdict
  | .lock =>
    if ¬ d.mutexReady then (d, .fail)
    else if d.holder = none then ({ d with holder := some i }, .pass) else (d, .again)
  | .load =>
    match d.count with
    | some count => ({ d with loaded := Function.update d.loaded i count }, .pass)
    | none => (d, .fail)
  | .store g =>
    if d.loaded i + g ≤ intMax then ({ d with count := some (d.loaded i + g) }, .pass) else (d, .fail)
  | .unlock => if d.mutexReady ∧ d.holder = some i then ({ d with holder := none }, .pass) else (d, .fail)

def perform (ntimes : ℕ) : Exec (Party ntasks) (Op ntasks) Unit (Shared ntasks)
  | _, .barrierInit, _, d => ({ d with barrierReady := true }, .pass)
  | _, .mutexInit, _, d => ({ d with mutexReady := true }, .pass)
  | _, .clear, _, d => ({ d with count := some 0 }, .pass)
  | _, .spawn i, _, d => ({ d with spawned := Function.update d.spawned i true }, .pass)
  | none, .begin, _, d => (d, .pass)
  | some i, .begin, _, d => (d, if d.spawned i then .pass else .again)
  | i, .loop op, _, d => performLoop i d op
  | none, .exit, _, d => (d, .pass)
  | some i, .exit, _, d => ({ d with exited := Function.update d.exited i true }, .pass)
  | _, .wait i, _, d => (d, if d.exited i then .pass else .again)
  | _, .print, _, d => ({ d with printed := d.count }, .pass)
  | _, .checkCount, _, d =>
    (d, if ntimes * (ntasks + 1) ≤ intMax ∧ d.count = some (ntimes * (ntasks + 1)) then .pass else .fail)

def setup (ntasks : ℕ) : List (Op ntasks) :=
  [.barrierInit, .mutexInit, .clear] ++ (List.finRange ntasks).map .spawn

def loop (ntasks ntimes : ℕ) : List (Op ntasks) :=
  (List.replicate ntimes [.loop .lock, .loop .load, .loop (.store 1), .loop .unlock]).flatten

def rest (ntasks : ℕ) : List (Op ntasks) := (List.finRange ntasks).map .wait ++ [.print, .checkCount]

def main (ntasks ntimes : ℕ) : Party ntasks → List (Instr (Op ntasks))
  | none => (setup ntasks).map .act ++ .wait :: (loop ntasks ntimes ++ rest ntasks).map .act
  | some _ => .act .begin :: .wait :: (loop ntasks ntimes ++ [Op.exit]).map .act

def run (ntasks ntimes : ℕ) (schedule : List (Event (Party ntasks) Unit)) :
    Config (Party ntasks) (Op ntasks) (Shared ntasks) :=
  Config.run (perform ntimes) (main ntasks ntimes) (initial ntasks) schedule

def view : Op ntasks → Option (LockedCounter.Op ℕ)
  | .loop op => some op
  | _ => none

section Programs

lemma phase_main (i : Party ntasks) (k : ℕ) :
    phase (main ntasks ntimes i) k = match i with
      | none => if k = 0 then setup ntasks else if k = 1 then loop ntasks ntimes ++ rest ntasks else []
      | some _ => if k = 0 then [.begin] else if k = 1 then loop ntasks ntimes ++ [.exit] else [] := by
  have hphase : ∀ l m : List (Op ntasks), phase (l.map .act ++ .wait :: m.map .act) k =
      if k = 0 then l else if k = 1 then m else [] := by
    intro l m
    rcases k with _ | _ | k
    · simp [phase_append, phase]
    · simp [phase_append, phase]
    · simp [phase_append, phase]
  cases i with
  | none => exact hphase _ _
  | some i => exact hphase [.begin] _

lemma waits_main (i : Party ntasks) : waits (main ntasks ntimes i) = 1 := by
  cases i with
  | none => simp only [main, waits_append, waits_map_act, waits]
  | some i => simp only [main, waits, waits_map_act]

lemma path_loop (ntasks ntimes : ℕ) : Guarded view (loop ntasks ntimes) .outside := by
  refine Path.flatten_replicate ?_ ntimes
  exact ⟨_, .lock, _, .load, _, .store 1, _, .unlock, rfl⟩

lemma effect_loop (ntasks ntimes : ℕ) : effect view (loop ntasks ntimes) = ntimes := by
  rw [loop, LockedCounter.effect_flatten_replicate]
  simp [view, summand]

lemma mem_loop {a : Op ntasks} (ha : a ∈ loop ntasks ntimes) : ∃ op, a = .loop op := by
  obtain ⟨r, hr, ha⟩ := List.mem_flatten.mp ha
  rw [List.eq_of_mem_replicate hr] at ha
  fin_cases ha <;> exact ⟨_, rfl⟩

/-- The tasks are spawned behind everything else. -/
lemma suffix_setup {a : Op ntasks} {l : List (Op ntasks)} (h : a :: l <:+ setup ntasks) :
    a = .barrierInit ∨ a = .mutexInit ∨ a = .clear ∨
      ∃ i, a = .spawn i ∧ .barrierInit ∉ l ∧ .mutexInit ∉ l ∧ .clear ∉ l := by
  obtain ha | hsuffix := cons_suffix_append h
  · simp only [List.mem_cons, List.not_mem_nil, or_false] at ha
    rcases ha with rfl | rfl | rfl <;> simp
  · have hspawn : ∀ b ∈ a :: l, ∃ i, b = Op.spawn i := fun b hb => by
      obtain ⟨i, -, rfl⟩ := List.mem_map.mp (hsuffix.subset hb)
      exact ⟨i, rfl⟩
    obtain ⟨i, rfl⟩ := hspawn a List.mem_cons_self
    refine .inr (.inr (.inr ⟨i, rfl, ?_, ?_, ?_⟩))
    · intro hl
      obtain ⟨j, hj⟩ := hspawn _ (List.mem_cons_of_mem _ hl)
      cases hj
    · intro hl
      obtain ⟨j, hj⟩ := hspawn _ (List.mem_cons_of_mem _ hl)
      cases hj
    · intro hl
      obtain ⟨j, hj⟩ := hspawn _ (List.mem_cons_of_mem _ hl)
      cases hj

/-- The root prints and checks the count behind everything else. -/
lemma suffix_rest {a : Op ntasks} {l : List (Op ntasks)} (h : a :: l <:+ loop ntasks ntimes ++ rest ntasks) :
    (∃ op, a = .loop op) ∨ (∃ i, a = .wait i) ∨
      ((a = .print ∨ a = .checkCount) ∧ ∀ b ∈ a :: l, b = .print ∨ b = .checkCount) := by
  obtain ha | hsuffix := cons_suffix_append h
  · exact .inl (mem_loop ha)
  · obtain ha | hsuffix := cons_suffix_append hsuffix
    · obtain ⟨i, -, rfl⟩ := List.mem_map.mp ha
      exact .inr (.inl ⟨i, rfl⟩)
    · have hlast : ∀ b ∈ a :: l, b = .print ∨ b = .checkCount := fun b hb => by
        simpa using hsuffix.subset hb
      exact .inr (.inr ⟨hlast a List.mem_cons_self, hlast⟩)

end Programs

section Setup
variable {d d' : Shared ntasks} {todo : Party ntasks → List (Op ntasks)} {i : Party ntasks} {a : Op ntasks}
variable {l : List (Op ntasks)}

/-- The variables that the root shares have their values. -/
structure Ready (d : Shared ntasks) : Prop where
  barrier : d.barrierReady = true
  mutex : d.mutexReady = true
  count : d.count = some 0

/-- Before the barrier: a task that runs has been spawned, behind all initialisations. -/
structure Setup (d : Shared ntasks) (todo : Party ntasks → List (Op ntasks)) : Prop where
  suffix : todo none <:+ setup ntasks
  tasks : ∀ i, todo (some i) = [.begin] ∨ todo (some i) = [] ∧ d.spawned i = true
  barrier : .barrierInit ∉ todo none → d.barrierReady = true
  mutex : .mutexInit ∉ todo none → d.mutexReady = true
  count : .clear ∉ todo none → d.count = some 0
  spawns : ∀ i, .spawn i ∉ todo none → d.spawned i = true
  ready : ∀ i, d.spawned i = true → Ready d
  free : d.holder = none
  running : ∀ i, d.exited i = false
  unprinted : d.printed = none

lemma initial_setup : Setup (initial ntasks) fun i => phase (main ntasks ntimes i) 0 where
  suffix := by
    rw [phase_main]
    exact List.suffix_rfl
  tasks i := .inl (phase_main _ 0)
  barrier h := absurd (by simp [phase_main, setup]) h
  mutex h := absurd (by simp [phase_main, setup]) h
  count h := absurd (by simp [phase_main, setup]) h
  spawns i h := absurd (by simp [phase_main, setup]) h
  ready i h := by cases h
  free := rfl
  running i := rfl
  unprinted := rfl

lemma notMem_of_cons {b : Op ntasks} (htodo : todo none = a :: l) (hb : b ∉ l) (hne : b ≠ a) : b ∉ todo none := by
  simp [htodo, hb, hne]

/-- The root makes one step of its setup. -/
lemma Setup.pass_root (h : Setup d todo) (htodo : todo none = a :: l)
    (hexec : perform ntimes none a () d = (d', .pass)) : Setup d' (Function.update todo none l) := by
  have hsuffix := h.suffix
  rw [htodo] at hsuffix
  have hrest : l <:+ setup ntasks := (List.suffix_cons a l).trans hsuffix
  have hkeep : ∀ b, b ≠ a → b ∉ Function.update todo none l none → b ∉ todo none := fun b hne hb => by
    rw [Function.update_self] at hb
    exact notMem_of_cons htodo hb hne
  obtain rfl | rfl | rfl | ⟨i, rfl, hbarrier, hmutex, hcount⟩ := suffix_setup hsuffix
  · obtain ⟨rfl, -⟩ := Prod.mk.inj hexec
    exact ⟨by simpa using hrest, by simpa using h.tasks, fun _ => rfl, fun hb => h.mutex (hkeep _ (by simp) hb),
      fun hb => h.count (hkeep _ (by simp) hb), fun i hb => h.spawns i (hkeep _ (by simp) hb),
      fun i hi => ⟨rfl, (h.ready i hi).mutex, (h.ready i hi).count⟩, h.free, h.running, h.unprinted⟩
  · obtain ⟨rfl, -⟩ := Prod.mk.inj hexec
    exact ⟨by simpa using hrest, by simpa using h.tasks, fun hb => h.barrier (hkeep _ (by simp) hb), fun _ => rfl,
      fun hb => h.count (hkeep _ (by simp) hb), fun i hb => h.spawns i (hkeep _ (by simp) hb),
      fun i hi => ⟨(h.ready i hi).barrier, rfl, (h.ready i hi).count⟩, h.free, h.running, h.unprinted⟩
  · obtain ⟨rfl, -⟩ := Prod.mk.inj hexec
    exact ⟨by simpa using hrest, by simpa using h.tasks, fun hb => h.barrier (hkeep _ (by simp) hb),
      fun hb => h.mutex (hkeep _ (by simp) hb), fun _ => rfl, fun i hb => h.spawns i (hkeep _ (by simp) hb),
      fun i hi => ⟨(h.ready i hi).barrier, (h.ready i hi).mutex, rfl⟩, h.free, h.running, h.unprinted⟩
  · obtain ⟨rfl, -⟩ := Prod.mk.inj hexec
    have hready : Ready d := ⟨h.barrier (notMem_of_cons htodo hbarrier (by simp)),
      h.mutex (notMem_of_cons htodo hmutex (by simp)), h.count (notMem_of_cons htodo hcount (by simp))⟩
    refine ⟨by simpa using hrest, fun j => ?_, fun _ => hready.barrier, fun _ => hready.mutex, fun _ => hready.count,
      fun j hb => ?_, fun _ _ => ⟨hready.barrier, hready.mutex, hready.count⟩, h.free, h.running, h.unprinted⟩
    · rw [Function.update_of_ne (by simp)]
      obtain hbegin | ⟨hnil, hj⟩ := h.tasks j
      · exact .inl hbegin
      · refine .inr ⟨hnil, ?_⟩
        by_cases hji : j = i
        · simp [hji]
        · simpa [hji] using hj
    · by_cases hji : j = i
      · simp [hji]
      · simpa [hji] using h.spawns j (hkeep _ (by simpa using hji) hb)

/-- A task begins. -/
lemma Setup.pass_task (h : Setup d todo) {i : Fin ntasks} (htodo : todo (some i) = a :: l)
    (hexec : perform ntimes (some i) a () d = (d', .pass)) : Setup d' (Function.update todo (some i) l) := by
  obtain hbegin | ⟨hnil, -⟩ := h.tasks i
  · obtain ⟨rfl, rfl⟩ := List.cons.inj (htodo.symm.trans hbegin)
    obtain ⟨rfl, hverdict⟩ := Prod.mk.inj hexec
    have hspawned : d.spawned i = true := by
      by_contra hnot
      rw [if_neg hnot] at hverdict
      cases hverdict
    have hroot : Function.update todo (some i) [] none = todo none := Function.update_of_ne (by simp) ..
    refine ⟨by rw [hroot]; exact h.suffix, fun j => ?_, by rw [hroot]; exact h.barrier, by rw [hroot]; exact h.mutex,
      by rw [hroot]; exact h.count, by rw [hroot]; exact h.spawns, h.ready, h.free, h.running, h.unprinted⟩
    by_cases hj : j = i
    · subst hj
      exact .inr ⟨Function.update_self .., hspawned⟩
    · rw [Function.update_of_ne (by simpa using hj)]
      exact h.tasks j
  · cases htodo.symm.trans hnil

lemma Setup.not_fail (h : Setup d todo) (htodo : todo i = a :: l) : (perform ntimes i a () d).2 ≠ .fail := by
  cases i with
  | none =>
    have hsuffix := h.suffix
    rw [htodo] at hsuffix
    obtain rfl | rfl | rfl | ⟨i, rfl, -⟩ := suffix_setup hsuffix
    all_goals exact Verdict.noConfusion
  | some i =>
    obtain hbegin | ⟨hnil, -⟩ := h.tasks i
    · obtain ⟨rfl, -⟩ := List.cons.inj (htodo.symm.trans hbegin)
      simp only [perform]
      split_ifs <;> exact Verdict.noConfusion
    · cases htodo.symm.trans hnil

/-- A task that waits for its spawn waits for the root. -/
lemma Setup.progress (h : Setup d todo) (htodo : todo i = a :: l) :
    ∃ j b m, todo j = b :: m ∧ (perform ntimes j b () d).2 ≠ .again := by
  have hroot : ∀ b m, todo none = b :: m → (perform ntimes none b () d).2 ≠ .again := by
    intro b m hb
    have hsuffix := h.suffix
    rw [hb] at hsuffix
    obtain rfl | rfl | rfl | ⟨i, rfl, -⟩ := suffix_setup hsuffix
    all_goals exact Verdict.noConfusion
  cases i with
  | none => exact ⟨none, a, l, htodo, hroot a l htodo⟩
  | some i =>
    obtain hbegin | ⟨hnil, -⟩ := h.tasks i
    · obtain ⟨rfl, -⟩ := List.cons.inj (htodo.symm.trans hbegin)
      by_cases hspawned : d.spawned i = true
      · exact ⟨some i, _, l, htodo, by simp [perform, hspawned]⟩
      · obtain ⟨b, m, hb⟩ := List.exists_cons_of_ne_nil (l := todo none) fun hnil =>
          hspawned (h.spawns i (by simp [hnil]))
        exact ⟨none, b, m, hb, hroot b m hb⟩
    · cases htodo.symm.trans hnil

end Setup

section Work
variable {d d' : Shared ntasks} {todo : Party ntasks → List (Op ntasks)} {i : Party ntasks} {a : Op ntasks}
variable {l : List (Op ntasks)}

/-- The count under its mutex. -/
def cell (d : Shared ntasks) : Cell (Party ntasks) ℕ := ⟨d.count.getD 0, d.loaded, d.holder⟩

/-- Behind the barrier: a task has terminated where it has nothing left to do, and whom the root has waited for
has terminated. -/
structure Working (ntimes : ℕ) (d : Shared ntasks) (todo : Party ntasks → List (Op ntasks)) : Prop where
  barrier : d.barrierReady = true
  mutex : d.mutexReady = true
  counted : d.count ≠ none
  locked : Locked view (ntimes * (ntasks + 1)) (cell d) todo
  root : todo none <:+ loop ntasks ntimes ++ rest ntasks
  tasks : ∀ i, (d.exited i = true ∧ todo (some i) = []) ∨
    (d.exited i = false ∧ ∃ m, todo (some i) = m ++ [.exit] ∧ ∀ a ∈ m, ∃ op, a = .loop op)
  joined : ∀ i, .wait i ∉ todo none → d.exited i = true
  printed : d.printed = none ∧ .print ∈ todo none ∨ d.printed = some (ntimes * (ntasks + 1))

/-- What a task comes to behind the barrier. -/
lemma Working.task_cons (h : Working ntimes d todo) {i : Fin ntasks} (htodo : todo (some i) = a :: l) :
    d.exited i = false ∧ ((a = .exit ∧ l = []) ∨
      ((∃ op, a = .loop op) ∧ ∃ m, l = m ++ [.exit] ∧ ∀ a ∈ m, ∃ op, a = .loop op)) := by
  obtain ⟨-, hnil⟩ | ⟨hrunning, m, hm, hloops⟩ := h.tasks i
  · cases htodo.symm.trans hnil
  · refine ⟨hrunning, ?_⟩
    rw [htodo] at hm
    cases m with
    | nil => exact .inl (by simpa using hm)
    | cons b m =>
      rw [List.cons_append, List.cons.injEq] at hm
      obtain ⟨rfl, rfl⟩ := hm
      exact .inr ⟨hloops a List.mem_cons_self, m, rfl, fun b hb => hloops b (List.mem_cons_of_mem a hb)⟩

lemma Working.root_cons (h : Working ntimes d todo) (htodo : todo none = a :: l) :
    (∃ op, a = .loop op) ∨ (∃ i, a = .wait i) ∨
      ((a = .print ∨ a = .checkCount) ∧ ∀ b ∈ todo none, b = .print ∨ b = .checkCount) := by
  have hroot := h.root
  rw [htodo] at hroot ⊢
  exact suffix_rest hroot

/-- With all initialised the loop does what the operations on one locked counter do. -/
lemma Working.loop_eq (h : Working ntimes d todo) (hfits : ntimes * (ntasks + 1) ≤ intMax)
    {op : LockedCounter.Op ℕ} (htodo : todo i = .loop op :: l) :
    ∃ count holder loaded, performLoop i d op =
        ({ d with count := some count, holder := holder, loaded := loaded },
          (LockedCounter.perform i op (cell d)).2) ∧
      (LockedCounter.perform i op (cell d)).1 = ⟨count, loaded, holder⟩ := by
  obtain ⟨count, hcount⟩ := Option.ne_none_iff_exists'.mp h.counted
  have hcell : cell d = ⟨count, d.loaded, d.holder⟩ := by rw [cell, hcount, Option.getD_some]
  rw [hcell]
  cases op with
  | lock =>
    have hlock : performLoop i d .lock =
        if d.holder = none then ({ d with holder := some i }, .pass) else (d, .again) := by
      simp [performLoop, h.mutex]
    rw [hlock, LockedCounter.perform]
    split_ifs with hfree
    · exact ⟨count, some i, d.loaded, by rw [← hcount], rfl⟩
    · exact ⟨count, d.holder, d.loaded, by rw [← hcount], rfl⟩
  | load =>
    simp only [performLoop, hcount, LockedCounter.perform]
    exact ⟨count, d.holder, Function.update d.loaded i count, rfl, rfl⟩
  | store g =>
    have hle : d.loaded i + g ≤ intMax := (h.locked.store_le htodo rfl).trans hfits
    simp only [performLoop, if_pos hle, LockedCounter.perform]
    exact ⟨d.loaded i + g, d.holder, d.loaded, rfl, rfl⟩
  | unlock =>
    have hholder : d.holder = some i := h.locked.holder_eq htodo rfl (by simp)
    have hunlock : performLoop i d .unlock = ({ d with holder := none }, .pass) :=
      if_pos ⟨h.mutex, hholder⟩
    rw [hunlock]
    exact ⟨count, none, d.loaded, by rw [← hcount]; rfl, rfl⟩

/-- Behind the waits all increments are there. -/
lemma Working.count_eq (h : Working ntimes d todo) (hlast : ∀ b ∈ todo none, b = .print ∨ b = .checkCount) :
    d.count = some (ntimes * (ntasks + 1)) := by
  have hvalue : (cell d).value = ntimes * (ntasks + 1) := by
    refine h.locked.value_eq fun i => ?_
    cases i with
    | none =>
      refine LockedCounter.effect_of_other fun b hb => ?_
      obtain rfl | rfl := hlast b hb
      · rfl
      · rfl
    | some i =>
      have hexited : d.exited i = true := h.joined i fun hwait => by
        obtain heq | heq := hlast _ hwait
        · cases heq
        · cases heq
      obtain ⟨-, hnil⟩ | ⟨hrunning, -⟩ := h.tasks i
      · rw [hnil]
        rfl
      · simp [hexited] at hrunning
  obtain ⟨count, hcount⟩ := Option.ne_none_iff_exists'.mp h.counted
  rw [← hvalue, cell, hcount, Option.getD_some]

lemma Working.pass_loop (h : Working ntimes d todo) (hfits : ntimes * (ntasks + 1) ≤ intMax)
    {op : LockedCounter.Op ℕ} (htodo : todo i = .loop op :: l)
    (hexec : performLoop i d op = (d', .pass)) : Working ntimes d' (Function.update todo i l) := by
  obtain ⟨count, holder, loaded, hloop, hcell⟩ := h.loop_eq hfits htodo
  obtain ⟨rfl, hverdict⟩ := Prod.mk.inj (hloop.symm.trans hexec)
  have hlocked : Locked view (ntimes * (ntasks + 1)) ⟨count, loaded, holder⟩ (Function.update todo i l) :=
    h.locked.pass htodo (by rw [LockedCounter.act, view, ← hcell, ← hverdict])
  cases i with
  | none =>
    have hroot := h.root
    rw [htodo] at hroot
    have hkeep : ∀ b, (∀ op, b ≠ .loop op) → b ∉ l → b ∉ todo none := fun b hb hl => by simp [htodo, hl, hb op]
    refine ⟨h.barrier, h.mutex, by simp, hlocked, ?_, by simpa using h.tasks, fun i hi => ?_, ?_⟩
    · rw [Function.update_self]
      exact (List.suffix_cons _ l).trans hroot
    · rw [Function.update_self] at hi
      exact h.joined i (hkeep _ (by simp) hi)
    · rw [Function.update_self]
      obtain ⟨hnone, hmem⟩ | hprinted := h.printed
      · refine .inl ⟨hnone, ?_⟩
        by_contra hl
        exact hkeep _ (by simp) hl hmem
      · exact .inr hprinted
  | some i =>
    obtain ⟨hrunning, ⟨hexit, -⟩ | ⟨-, m, rfl, hloops⟩⟩ := h.task_cons htodo
    · cases hexit
    · have hnone : Function.update todo (some i) (m ++ [.exit]) none = todo none := Function.update_of_ne (by simp) ..
      refine ⟨h.barrier, h.mutex, by simp, hlocked, by rw [hnone]; exact h.root, fun j => ?_,
        by rw [hnone]; exact h.joined, by rw [hnone]; exact h.printed⟩
      by_cases hj : j = i
      · subst hj
        exact .inr ⟨hrunning, m, Function.update_self .., hloops⟩
      · rw [Function.update_of_ne (by simpa using hj)]
        exact h.tasks j

lemma Working.pass_exit (h : Working ntimes d todo) {i : Fin ntasks} (htodo : todo (some i) = .exit :: l)
    (hexec : perform ntimes (some i) .exit () d = (d', .pass)) :
    Working ntimes d' (Function.update todo (some i) l) := by
  obtain ⟨-, ⟨-, rfl⟩ | ⟨⟨op, hop⟩, -⟩⟩ := h.task_cons htodo
  · obtain ⟨rfl, -⟩ := Prod.mk.inj hexec
    have hnone : Function.update todo (some i) [] none = todo none := Function.update_of_ne (by simp) ..
    refine ⟨h.barrier, h.mutex, h.counted, h.locked.pass htodo rfl, by rw [hnone]; exact h.root, fun j => ?_,
      fun j hj => ?_, by rw [hnone]; exact h.printed⟩
    · by_cases hj : j = i
      · subst hj
        exact .inl ⟨Function.update_self .., Function.update_self ..⟩
      · have htasks := h.tasks j
        simpa [Function.update_of_ne, hj] using htasks
    · rw [hnone] at hj
      by_cases hji : j = i
      · simp [hji]
      · simpa [hji] using h.joined j hj
  · cases hop

/-- A step of the root behind its loop. -/
lemma Working.pass_rest (h : Working ntimes d todo) (hother : view a = none) (htodo : todo none = a :: l)
    (hsame : { d' with printed := d.printed } = d) (hwait : ∀ i, a = .wait i → d.exited i = true)
    (hprinted : d'.printed = some (ntimes * (ntasks + 1)) ∨ a ≠ .print ∧ d'.printed = d.printed) :
    Working ntimes d' (Function.update todo none l) := by
  have hroot := h.root
  rw [htodo] at hroot
  have hbarrier := congrArg Shared.barrierReady hsame
  have hmutex := congrArg Shared.mutexReady hsame
  have hcount := congrArg Shared.count hsame
  have hcell := congrArg cell hsame
  have hexited := congrArg Shared.exited hsame
  simp only at hbarrier hmutex hcount hexited
  refine ⟨hbarrier.trans h.barrier, hmutex.trans h.mutex, by rw [hcount]; exact h.counted, ?_, ?_, ?_, ?_, ?_⟩
  · refine h.locked.pass htodo ?_
    rw [LockedCounter.act, hother, ← hcell]
    rfl
  · rw [Function.update_self]
    exact (List.suffix_cons a l).trans hroot
  · rw [hexited]
    simpa using h.tasks
  · intro i hi
    rw [Function.update_self] at hi
    rw [hexited]
    by_cases ha : a = .wait i
    · exact hwait i ha
    · exact h.joined i (by simp [htodo, hi, Ne.symm ha])
  · rw [Function.update_self]
    obtain hset | ⟨hne, hkept⟩ := hprinted
    · exact .inr hset
    · rw [hkept]
      obtain ⟨hnone, hmem⟩ | hprinted := h.printed
      · rw [htodo] at hmem
        exact .inl ⟨hnone, (List.mem_cons.mp hmem).resolve_left (Ne.symm hne)⟩
      · exact .inr hprinted

lemma Working.pass (h : Working ntimes d todo) (hfits : ntimes * (ntasks + 1) ≤ intMax) (htodo : todo i = a :: l)
    (hexec : perform ntimes i a () d = (d', .pass)) : Working ntimes d' (Function.update todo i l) := by
  cases i with
  | none =>
    obtain ⟨op, rfl⟩ | ⟨j, rfl⟩ | ⟨rfl | rfl, hlast⟩ := h.root_cons htodo
    · exact h.pass_loop hfits htodo hexec
    · obtain ⟨rfl, hverdict⟩ := Prod.mk.inj hexec
      have hexited : d.exited j = true := by
        by_contra hnot
        rw [if_neg hnot] at hverdict
        cases hverdict
      refine h.pass_rest rfl htodo rfl (fun i hi => ?_) (.inr ⟨by simp, rfl⟩)
      rwa [← Op.wait.inj hi]
    · obtain ⟨rfl, -⟩ := Prod.mk.inj hexec
      exact h.pass_rest rfl htodo rfl (fun i hi => by cases hi) (.inl (h.count_eq hlast))
    · obtain ⟨rfl, -⟩ := Prod.mk.inj hexec
      exact h.pass_rest rfl htodo rfl (fun i hi => by cases hi) (.inr ⟨by simp, rfl⟩)
  | some i =>
    obtain ⟨-, ⟨rfl, -⟩ | ⟨⟨op, rfl⟩, -⟩⟩ := h.task_cons htodo
    · exact h.pass_exit htodo hexec
    · exact h.pass_loop hfits htodo hexec

lemma Working.not_fail (h : Working ntimes d todo) (hfits : ntimes * (ntasks + 1) ≤ intMax) (htodo : todo i = a :: l) :
    (perform ntimes i a () d).2 ≠ .fail := by
  have hloop : ∀ op, todo i = .loop op :: l → (performLoop i d op).2 ≠ .fail := by
    intro op htodo
    obtain ⟨count, holder, loaded, hloop, -⟩ := h.loop_eq hfits htodo
    rw [hloop]
    exact LockedCounter.perform_ne_fail i op (cell d)
  cases i with
  | none =>
    obtain ⟨op, rfl⟩ | ⟨j, rfl⟩ | ⟨rfl | rfl, hlast⟩ := h.root_cons htodo
    · exact hloop op htodo
    · simp only [perform]
      split_ifs <;> exact Verdict.noConfusion
    · exact Verdict.noConfusion
    · simp [perform, hfits, h.count_eq hlast]
  | some i =>
    obtain ⟨-, ⟨rfl, -⟩ | ⟨⟨op, rfl⟩, -⟩⟩ := h.task_cons htodo
    · exact Verdict.noConfusion
    · exact hloop op htodo

/-- Whoever waits for the mutex, or for the end of a task, waits for somebody who can go on. -/
lemma Working.progress (h : Working ntimes d todo) (hfits : ntimes * (ntasks + 1) ≤ intMax) (htodo : todo i = a :: l) :
    ∃ j b m, todo j = b :: m ∧ (perform ntimes j b () d).2 ≠ .again := by
  have hloop : ∀ j op m, todo j = .loop op :: m → (op = .lock → d.holder = none) →
      (perform ntimes j (.loop op) () d).2 ≠ .again := by
    intro j op m hj hfree
    obtain ⟨count, holder, loaded, hloop, -⟩ := h.loop_eq hfits hj
    rw [perform, hloop]
    exact LockedCounter.perform_ne_again hfree
  have htask : ∀ j b m, todo (some j) = b :: m → (view b = some .lock → d.holder = none) →
      (perform ntimes (some j) b () d).2 ≠ .again := by
    intro j b m hj hfree
    obtain ⟨-, ⟨rfl, -⟩ | ⟨⟨op, rfl⟩, -⟩⟩ := h.task_cons hj
    · exact Verdict.noConfusion
    · exact hloop (some j) op m hj fun hop => hfree (congrArg some hop)
  obtain ⟨j, b, m, hj, hfree⟩ := h.locked.progress htodo
  cases j with
  | some j => exact ⟨some j, b, m, hj, htask j b m hj hfree⟩
  | none =>
    obtain ⟨op, rfl⟩ | ⟨k, rfl⟩ | ⟨rfl | rfl, -⟩ := h.root_cons hj
    · exact ⟨none, _, m, hj, hloop none op m hj fun hop => hfree (congrArg some hop)⟩
    · obtain ⟨hexited, -⟩ | ⟨-, r, hr, -⟩ := h.tasks k
      · exact ⟨none, _, m, hj, by simp [perform, hexited]⟩
      · -- the task is still running, and the root does not hold the mutex that it may want
        obtain ⟨b, n, hb⟩ : ∃ b n, todo (some k) = b :: n := List.exists_cons_of_ne_nil (by simp [hr])
        obtain ⟨j, b, m, hne, hj, hfree⟩ := h.locked.progress_of_other hj rfl (by simp) hb
        cases j with
        | some j => exact ⟨some j, b, m, hj, htask j b m hj hfree⟩
        | none => exact absurd rfl hne
    · exact ⟨none, _, m, hj, Verdict.noConfusion⟩
    · refine ⟨none, _, m, hj, ?_⟩
      simp only [perform]
      split_ifs <;> exact Verdict.noConfusion

/-- An operation that waits leaves everything as it is. -/
lemma perform_again (hexec : perform ntimes i a () d = (d', .again)) : d' = d := by
  cases a with
  | barrierInit | mutexInit | clear | spawn j | print => cases (Prod.mk.inj hexec).2
  | wait j | checkCount => exact (Prod.mk.inj hexec).1.symm
  | begin =>
    cases i with
    | none => cases (Prod.mk.inj hexec).2
    | some i => exact (Prod.mk.inj hexec).1.symm
  | exit =>
    cases i with
    | none => cases (Prod.mk.inj hexec).2
    | some i => cases (Prod.mk.inj hexec).2
  | loop op =>
    simp only [perform] at hexec
    cases op with
    | lock =>
      simp only [performLoop] at hexec
      split_ifs at hexec
      · cases (Prod.mk.inj hexec).2
      · exact (Prod.mk.inj hexec).1.symm
      · cases (Prod.mk.inj hexec).2
    | load =>
      simp only [performLoop] at hexec
      split at hexec
      · cases (Prod.mk.inj hexec).2
      · cases (Prod.mk.inj hexec).2
    | store g | unlock =>
      simp only [performLoop] at hexec
      split_ifs at hexec
      · cases (Prod.mk.inj hexec).2
      · cases (Prod.mk.inj hexec).2

def Claim (ntimes : ℕ) : ℕ → Shared ntasks → (Party ntasks → List (Op ntasks)) → Prop
  | 0, d, todo => Setup d todo
  | _ + 1, d, todo => Working ntimes d todo

/-- All have come to the barrier. -/
lemma Setup.next (h : Setup d fun _ => []) : Working ntimes d fun i => phase (main ntasks ntimes i) 1 := by
  have hcount : d.count = some 0 := h.count (by simp)
  refine ⟨h.barrier (by simp), h.mutex (by simp), by simp [hcount], ?_, ?_, fun i => .inr ⟨h.running i, ?_⟩,
    fun i hi => ?_, ?_⟩
  · refine .of_guarded h.free (fun i => ?_) ?_
    · rw [phase_main]
      cases i with
      | none =>
        refine (path_loop ntasks ntimes).append (Path.of_other fun a ha => ?_)
        obtain ha | ha := List.mem_append.mp ha
        · obtain ⟨j, -, rfl⟩ := List.mem_map.mp ha
          rfl
        · rcases (by simpa using ha : a = .print ∨ a = .checkCount) with rfl | rfl <;> rfl
      | some i =>
        exact (path_loop ntasks ntimes).append ⟨_, .other, rfl⟩
    · have hrest : effect view (rest ntasks) = 0 := LockedCounter.effect_of_other fun a ha => by
        obtain ha | ha := List.mem_append.mp ha
        · obtain ⟨j, -, rfl⟩ := List.mem_map.mp ha
          rfl
        · rcases (by simpa using ha : a = .print ∨ a = .checkCount) with rfl | rfl <;> rfl
      have heffect : ∀ i : Party ntasks, effect view (phase (main ntasks ntimes i) 1) = ntimes := fun i => by
        rw [phase_main]
        cases i with
        | none => simp [effect_loop, hrest]
        | some i => simp [effect_loop, view, summand]
      have hzero : (cell d).value = 0 := by rw [cell, hcount, Option.getD_some]
      rw [Finset.sum_congr rfl fun i _ => heffect i, hzero]
      simp [Nat.mul_comm]
  · rw [phase_main]
    exact List.suffix_rfl
  · exact ⟨loop ntasks ntimes, phase_main (some i) 1, fun a => mem_loop⟩
  · exact absurd (by simp [phase_main, rest]) hi
  · exact .inl ⟨h.unprinted, by simp [phase_main, rest]⟩

theorem phaseRule (hfits : ntimes * (ntasks + 1) ≤ intMax) :
    PhaseRule (main ntasks ntimes) (perform ntimes) (initial ntasks) (Claim ntimes) where
  start := initial_setup
  again k d d' todo i a l _ h _ hexec := by rwa [perform_again hexec]
  pass k d d' todo i a l _ h htodo hexec := by
    cases k with
    | zero =>
      cases i with
      | none => exact Setup.pass_root h htodo hexec
      | some i => exact Setup.pass_task h htodo hexec
    | succ k => exact Working.pass h hfits htodo hexec
  fail k d todo i a l _ h htodo := by
    cases k with
    | zero => exact Setup.not_fail h htodo
    | succ k => exact Working.not_fail h hfits htodo
  next k d hwaits h := by
    obtain rfl : k = 0 := by
      have := hwaits none
      rw [waits_main] at this
      omega
    exact Setup.next h

lemma Claim.progress {k : ℕ} (h : Claim ntimes k d todo) (hfits : ntimes * (ntasks + 1) ≤ intMax)
    (htodo : todo i = a :: l) : ∃ j b m choice, todo j = b :: m ∧ (perform ntimes j b choice d).2 ≠ .again := by
  have hex : ∃ j b m, todo j = b :: m ∧ (perform ntimes j b () d).2 ≠ .again := by
    cases k with
    | zero => exact Setup.progress h htodo
    | succ k => exact Working.progress h hfits htodo
  obtain ⟨j, b, m, hj, hne⟩ := hex
  exact ⟨j, b, m, (), hj, hne⟩

end Work

section Runs

/-- No CHECK fails and nothing without a meaning is done, one participant at a time is between lock and unlock,
it writes over the count that it has read, nobody comes to the barrier before its initialisation, the root comes to its
print and its check behind the ends of all tasks, with all increments there, and everybody can always get to the end. -/
structure Sound (ntimes : ℕ) (c : Config (Party ntasks) (Op ntasks) (Shared ntasks)) : Prop where
  ok : ∀ i, c.sync.failed i = false
  exclusive : ∀ i j o o', c.AboutTo i (.loop o) → c.AboutTo j (.loop o') → o ≠ .lock → o' ≠ .lock → i = j
  loaded : ∀ i g, c.AboutTo i (.loop (.store g)) → c.data.count = some (c.data.loaded i)
  barrier : ∀ i rest, c.sync.todo i = .wait :: rest → c.data.barrierReady = true
  joined : c.AboutTo none .print ∨ c.AboutTo none .checkCount →
    (∀ i, c.data.exited i = true) ∧ c.data.count = some (ntimes * (ntasks + 1))
  ends : ∀ e c', c.step (perform ntimes) e = some c' → c' = c ∨ work c'.sync < work c.sync
  goesOn : ∃ more, Finished (Interleaving.run (Config.step (perform ntimes)) c more).sync
  final : Finished c.sync → c.data.printed = some (ntimes * (ntasks + 1))

variable {c : Config (Party ntasks) (Op ntasks) (Shared ntasks)}

lemma barrierReady_of_wait (h : c.Inv (main ntasks ntimes) (Claim ntimes)) {i : Party ntasks}
    {rest : List (Instr (Op ntasks))} (htodo : c.sync.todo i = .wait :: rest) : c.data.barrierReady = true := by
  have hclaim := h.claim
  generalize hgen : c.sync.gen = k at hclaim
  cases k with
  | zero =>
    have hcurrent : current c.sync i = [] := by
      rw [current_of_gen_zero hgen, htodo]
      rfl
    have hsetup : Setup c.data (current c.sync) := hclaim
    cases i with
    | none => exact hsetup.barrier (by simp [hcurrent])
    | some i =>
      obtain hbegin | ⟨-, hspawned⟩ := hsetup.tasks i
      · cases hcurrent.symm.trans hbegin
      · exact (hsetup.ready i hspawned).barrier
  | succ k => exact Working.barrier hclaim

lemma Working.joined_of_last {d : Shared ntasks} {todo : Party ntasks → List (Op ntasks)}
    (h : Working ntimes d todo) (hlast : ∀ b ∈ todo none, b = .print ∨ b = .checkCount) :
    (∀ i, d.exited i = true) ∧ d.count = some (ntimes * (ntasks + 1)) := by
  refine ⟨fun i => h.joined i fun hwait => ?_, h.count_eq hlast⟩
  obtain heq | heq := hlast _ hwait
  · cases heq
  · cases heq

/-- Before the barrier nobody is in the loop. -/
lemma Setup.ne_loop {d : Shared ntasks} {todo : Party ntasks → List (Op ntasks)} (h : Setup d todo)
    {i : Party ntasks} {a : Op ntasks} {l : List (Op ntasks)} (htodo : todo i = a :: l) (o : LockedCounter.Op ℕ) :
    a ≠ .loop o := by
  rintro rfl
  cases i with
  | none =>
    have hsuffix := h.suffix
    rw [htodo] at hsuffix
    simpa using suffix_setup hsuffix
  | some i =>
    obtain hbegin | ⟨hnil, -⟩ := h.tasks i
    · simp [htodo] at hbegin
    · simp [htodo] at hnil

theorem sound_of_inv (hfits : ntimes * (ntasks + 1) ≤ intMax)
    (hinv : c.Inv (main ntasks ntimes) (Claim ntimes)) : Sound ntimes c := by
  have hlast : ∀ a, c.AboutTo none a → a = .print ∨ a = .checkCount →
      (∀ i, c.data.exited i = true) ∧ c.data.count = some (ntimes * (ntasks + 1)) := by
    intro a hi ha
    obtain ⟨l, hl⟩ := hi.exists_current
    have hclaim := hinv.claim
    generalize c.sync.gen = k at hclaim
    cases k with
    | zero =>
      have hsuffix := Setup.suffix hclaim
      rw [hl] at hsuffix
      rcases ha with rfl | rfl <;> simpa using suffix_setup hsuffix
    | succ k =>
      obtain ⟨op, rfl⟩ | ⟨j, rfl⟩ | ⟨-, hlast⟩ := Working.root_cons hclaim hl
      · simp at ha
      · simp at ha
      · exact Working.joined_of_last hclaim hlast
  constructor
  · exact hinv.ok
  · intro i j o o' hi hj ho ho'
    obtain ⟨l, hl⟩ := hi.exists_current
    obtain ⟨m, hm⟩ := hj.exists_current
    have hclaim := hinv.claim
    generalize c.sync.gen = k at hclaim
    cases k with
    | zero => exact absurd rfl (Setup.ne_loop hclaim hl o)
    | succ k =>
      have hlocked := Working.locked hclaim
      have hholder := hlocked.holder_eq hl rfl ho
      exact Option.some.inj (hholder.symm.trans (hlocked.holder_eq hm rfl ho'))
  · intro i g hi
    obtain ⟨l, hl⟩ := hi.exists_current
    have hclaim := hinv.claim
    generalize c.sync.gen = k at hclaim
    cases k with
    | zero => exact absurd rfl (Setup.ne_loop hclaim hl (.store g))
    | succ k =>
      obtain ⟨count, hcount⟩ := Option.ne_none_iff_exists'.mp (Working.counted hclaim)
      have hread : c.data.loaded i = (cell c.data).value := (Working.locked hclaim).loaded_eq hl rfl
      rw [hread, cell, hcount, Option.getD_some]
  · exact fun i rest => barrierReady_of_wait hinv
  · rintro (hi | hi)
    · exact hlast _ hi (.inl rfl)
    · exact hlast _ hi (.inr rfl)
  · exact fun e c' => Config.eq_or_work_lt (fun i a u d d' => perform_again) hinv.toPlaced
  · exact hinv.exists_finished (phaseRule hfits) (fun i => waits_main i) fun k d todo i a l hclaim htodo =>
      hclaim.progress hfits htodo
  · intro hend
    have hclaim : Working ntimes c.data fun _ => [] := hinv.claim_finished (fun i => waits_main i) hend
    obtain ⟨-, hmem⟩ | hprinted := hclaim.printed
    · cases hmem
    · exact hprinted

/-- Every interleaving of the root and its tasks, if the count fits in an int. -/
theorem root_prints_all (ntasks ntimes : ℕ) (hfits : ntimes * (ntasks + 1) ≤ intMax)
    (schedule : List (Event (Party ntasks) Unit)) : Sound ntimes (run ntasks ntimes schedule) :=
  sound_of_inv hfits (Config.run_inv (phaseRule hfits) schedule)

/-- One step of two tasks, which have come to their begin before they are spawned, and of the root. -/
def oneEach : List (Event (Party 2) Unit) :=
  ((List.finRange 2).map some ++ [none]).flatMap fun i => [.act i (), .arrive i, .leave i]

/-- Two increments of each up to the check of the root, with the waits for the mutex and for the tasks. -/
theorem root_prints_all_two :
    let c := run 2 2 (List.replicate 35 oneEach).flatten
    (∀ i, c.sync.todo i = []) ∧ Sound 2 c :=
  ⟨by decide +kernel, root_prints_all 2 2 (by decide) _⟩

end Runs

end PipTestsuite.PthreadMutex
