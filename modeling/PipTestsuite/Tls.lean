import PipTestsuite.ExitCode
import PipTestsuite.TimerScale
import PipTestsuite.Lib.BarrierPhases
import PipTestsuite.Lib.Numeral

/-! porting/tls.c: threads save and load their TLS registers many times, check that a thread local variable has kept
its value, and print what they have found one after another. -/
namespace PipTestsuite.Tls
open BarrierProgram
open Numeral (numeral)
open Timer (toInt strtol)

/-- NTHREADS -/
def maxThreads : ℕ := 100

/-- WARMUP -/
def warmup : ℕ := 100

/-- nthreads of main, where main goes on if it is not negative. -/
def nthreads (arg : Option Word) : ℤ :=
  let nthreads : ℤ := arg.elim 10 fun arg => toInt (strtol (numeral arg))
  let nthreads := if nthreads = 0 then (maxThreads : ℤ) else nthreads
  if nthreads > maxThreads then maxThreads else nthreads

/-- The TLS registers of the threads, &tlsvar and pthread_self() for a TLS register, and each thread has its tlsvar. -/
structure Storage (n : ℕ) where
  base : Fin n → ℕ
  tlsvar : ℕ → ℕ
  self : ℕ → ℕ
  apart : Function.Injective fun id => tlsvar (base id)

/-- The CHECK of id, tlsvar = id, pip_save_tls, pip_load_tls, the CHECK of tlsvar, thr = pthread_self() and the
two printf. -/
inductive Op where
  | checkId | setVar | save | load | checkVar | self | header | row
  deriving DecidableEq

/-- What is printed for a thread: its id, tls, thr (none if it is the same) and &tlsvar. -/
inductive Line (n : ℕ) where
  | header
  | row (id : Fin n) (tls : ℕ) (thr : Option ℕ) (tlsvar : ℕ)

/-- The TLS registers, tls and thr of each thread, the memory for tlsvar, and what has been printed. -/
structure Data (n : ℕ) where
  reg : Fin n → ℕ
  tls : Fin n → Option ℕ
  thr : Fin n → Option ℕ
  var : ℕ → ℕ
  out : List (Line n)

variable {n : ℕ}

def initial (storage : Storage n) : Data n := ⟨storage.base, fun _ => none, fun _ => none, fun _ => 0, []⟩

/-- A variable that has no value must not be used. -/
def perform (storage : Storage n) : Exec (Fin n) Op Unit (Data n)
  | id, .checkId, _, d => (d, if id.val > n then .fail else .pass)
  | id, .setVar, _, d => ({ d with var := Function.update d.var (storage.tlsvar (d.reg id)) id }, .pass)
  | id, .save, _, d => ({ d with tls := Function.update d.tls id (some (d.reg id)) }, .pass)
  | id, .load, _, d =>
    match d.tls id with
    | some tls => ({ d with reg := Function.update d.reg id tls }, .pass)
    | none => (d, .fail)
  | id, .checkVar, _, d => (d, if d.var (storage.tlsvar (d.reg id)) ≠ id then .fail else .pass)
  | id, .self, _, d => ({ d with thr := Function.update d.thr id (some (storage.self (d.reg id))) }, .pass)
  | _, .header, _, d => ({ d with out := d.out ++ [.header] }, .pass)
  | id, .row, _, d =>
    match d.tls id, d.thr id with
    | some tls, some thr =>
      let line := .row id tls (if tls = thr then none else some thr) (storage.tlsvar (d.reg id))
      ({ d with out := d.out ++ [line] }, .pass)
    | _, _ => (d, .fail)

/-- thread_main before the last loop -/
def saveAndLoad (niters : ℕ) : List Op :=
  [.checkId, .setVar] ++ (List.replicate (warmup + niters) .save ++ (List.replicate (warmup + niters) .load ++
    (.checkVar :: List.replicate niters .self)))

/-- The two printf of round i of the last loop. -/
def prints (id : Fin n) (i : ℕ) : List Op :=
  (if i = 0 ∧ id.val = 0 then [.header] else []) ++ if i = id.val then [.row] else []

def threadMain (niters : ℕ) (id : Fin n) : List (Instr Op) :=
  (saveAndLoad niters).map .act ++ rounds n fun i => (prints id i).map .act ++ [.wait]

def run (storage : Storage n) (niters : ℕ) (schedule : List (Event (Fin n) Unit)) : Config (Fin n) Op (Data n) :=
  Config.run (perform storage) (threadMain niters) (initial storage) schedule

/-- The exit status of the process, which ends where a thread fails, or where main has joined all threads. -/
def exitStatus (c : Config (Fin n) Op (Data n)) : Option ℕ :=
  if ∃ i, c.sync.failed i then some exitFail
  else if ∀ i, c.sync.todo i = [] then some exitPass
  else none

section Programs

lemma nthreads_ne_zero (arg : Option Word) : nthreads arg ≠ 0 := by
  unfold nthreads maxThreads
  dsimp only
  split_ifs <;> omega

/-- A round of the last loop has one wait, behind its prints. -/
lemma waits_round (id : Fin n) (i : ℕ) : waits ((prints id i).map .act ++ [.wait]) = 1 := by
  rw [waits_append, waits_map_act]
  rfl

lemma phase_threadMain {niters : ℕ} (id : Fin n) (k : ℕ) :
    phase (threadMain niters id) k =
      (if k = 0 then saveAndLoad niters else []) ++ if k < n then prints id k else [] := by
  have hclosed : ∀ i, phase ((prints id i).map .act ++ [.wait]) 1 = [] := fun i => by
    rw [phase_append, waits_map_act, phase_map_act]
    rfl
  have hrounds := phase_rounds_append Nat.one_pos (waits_round id) hclosed n [] k
  rw [List.append_nil] at hrounds
  rw [threadMain, phase_act_append, hrounds, Nat.mul_one, Nat.div_one, Nat.mod_one]
  simp [phase_append, phase]

lemma waits_threadMain {niters : ℕ} (id : Fin n) : waits (threadMain niters id) = n := by
  simp only [threadMain, waits_append, waits_map_act, waits_rounds (waits_round id)]
  omega

lemma mem_prints {id : Fin n} {i : ℕ} {a : Op} (ha : a ∈ prints id i) : id.val = i ∧ (a = .header ∨ a = .row) := by
  unfold prints at ha
  obtain ha | ha := List.mem_append.mp ha
  · obtain ⟨⟨hi, hid⟩, ha⟩ := List.mem_ite_nil_right.mp ha
    exact ⟨hid.trans hi.symm, .inl (List.mem_singleton.mp ha)⟩
  · obtain ⟨hi, ha⟩ := List.mem_ite_nil_right.mp ha
    exact ⟨hi.symm, .inr (List.mem_singleton.mp ha)⟩

/-- The order of the actions: checkId, setVar, pip_save_tls, pip_load_tls, checkVar, pthread_self and printf. -/
lemma suffix_phase {niters k : ℕ} {id : Fin n} {a : Op} {l : List Op} (h : a :: l <:+ phase (threadMain niters id) k) :
    (a ≠ .checkId → .setVar ∉ l) ∧ (a ≠ .checkId → a ≠ .setVar → a ≠ .save → .save ∉ l) ∧
      (a = .row → .self ∉ l) := by
  rw [phase_threadMain] at h
  have hprints : ∀ b ∈ if k < n then prints id k else [], b = .header ∨ b = .row := by
    intro b hb
    split_ifs at hb with hk
    · exact (mem_prints hb).2
    · cases hb
  generalize (if k < n then prints id k else []) = printed at h hprints
  have hnot : ∀ b, b ≠ .header → b ≠ .row → b ∉ printed := by
    intro b hheader hrow hb
    exact (hprints b hb).elim hheader hrow
  by_cases hk : k = 0
  · rw [if_pos hk] at h
    simp only [saveAndLoad, List.append_assoc, List.cons_append, List.nil_append] at h
    rcases List.suffix_cons_iff.mp h with heq | h
    · obtain ⟨rfl, -⟩ := List.cons.inj heq
      simp
    rcases List.suffix_cons_iff.mp h with heq | h
    · obtain ⟨rfl, rfl⟩ := List.cons.inj heq
      simp [hnot]
    have hset : Op.setVar ∉ l := fun hl => by
      have hmem := h.subset (List.mem_cons_of_mem a hl)
      simp [hnot] at hmem
    obtain ha | h := cons_suffix_append h
    · obtain rfl := List.eq_of_mem_replicate ha
      simp [hset]
    have hsave : Op.save ∉ l := fun hl => by
      have hmem := h.subset (List.mem_cons_of_mem a hl)
      simp [hnot] at hmem
    refine ⟨fun _ => hset, fun _ _ _ => hsave, ?_⟩
    rintro rfl hl
    obtain ha | h := cons_suffix_append h
    · cases List.eq_of_mem_replicate ha
    rcases List.suffix_cons_iff.mp h with heq | h
    · cases heq
    obtain ha | h := cons_suffix_append h
    · cases List.eq_of_mem_replicate ha
    exact hnot _ (by decide) (by decide) (h.subset (List.mem_cons_of_mem _ hl))
  · rw [if_neg hk, List.nil_append] at h
    have hl : ∀ b, b ≠ .header → b ≠ .row → b ∉ l := fun b hheader hrow hb =>
      hnot b hheader hrow (h.subset (List.mem_cons_of_mem a hb))
    exact ⟨fun _ => hl _ (by decide) (by decide), fun _ _ _ => hl _ (by decide) (by decide),
      fun _ => hl _ (by decide) (by decide)⟩

end Programs

section Lines
variable (storage : Storage n)

/-- What the thread is to print as its line. -/
def rowOf (id : Fin n) : Line n :=
  let tls := storage.base id
  let thr := storage.self tls
  .row id tls (if tls = thr then none else some thr) (storage.tlsvar tls)

def lineOf (id : Fin n) : Op → Option (Line n)
  | .header => some .header
  | .row => some (rowOf storage id)
  | _ => none

def linesOf (id : Fin n) : List (Line n) := (if id.val = 0 then [.header] else []) ++ [rowOf storage id]

/-- The lines of all threads in the order of their ids. -/
def lines : List (Line n) := (List.finRange n).flatMap (linesOf storage)

/-- The lines that a thread has still to print in phase k. -/
def share (k : ℕ) (todo : Fin n → List Op) (id : Fin n) : List (Line n) :=
  if id.val < k then []
  else if id.val = k then (todo id).filterMap (lineOf storage id)
  else linesOf storage id

def future (k : ℕ) (todo : Fin n → List Op) : List (Line n) := (List.finRange n).flatMap (share storage k todo)

variable {storage} {todo : Fin n → List Op} {k : ℕ} {id : Fin n} {a : Op} {l : List Op}

lemma future_of_none (htodo : todo id = a :: l) (ha : lineOf storage id a = none) :
    future storage k (Function.update todo id l) = future storage k todo := by
  refine List.flatMap_congr fun j _ => ?_
  by_cases hj : j = id
  · subst hj
    rw [share, share, Function.update_self, htodo, List.filterMap_cons_none ha]
  · rw [share, share, Function.update_of_ne hj]

/-- The threads before this one have nothing to print any more, and those behind it do so later. -/
lemma future_of_some {line : Line n} (htodo : todo id = a :: l) (ha : lineOf storage id a = some line)
    (hid : id.val = k) : future storage k todo = line :: future storage k (Function.update todo id l) := by
  obtain ⟨s, t, hsplit⟩ := List.append_of_mem (List.mem_finRange id)
  have hsorted := List.pairwise_lt_finRange n
  rw [hsplit, List.pairwise_append, List.pairwise_cons] at hsorted
  obtain ⟨-, ⟨hbehind, -⟩, hbefore⟩ := hsorted
  have hnil : ∀ todo, s.flatMap (share storage k todo) = [] := fun todo =>
    List.flatMap_eq_nil_iff.mpr fun j hj => if_pos (hid ▸ hbefore j hj id List.mem_cons_self)
  have hlater : t.flatMap (share storage k (Function.update todo id l)) = t.flatMap (share storage k todo) :=
    List.flatMap_congr fun j hj => by
      rw [share, share, Function.update_of_ne (hbehind j hj).ne']
  have hown : share storage k todo id = line :: share storage k (Function.update todo id l) id := by
    rw [share, share, Function.update_self, htodo, List.filterMap_cons_some ha, if_neg (by omega), if_pos hid,
      if_neg (by omega), if_pos hid]
  rw [future, future, hsplit, List.flatMap_append, List.flatMap_append, List.flatMap_cons, List.flatMap_cons, hnil,
    hnil, hlater, hown]
  rfl

lemma filterMap_saveAndLoad (niters : ℕ) (id : Fin n) : (saveAndLoad niters).filterMap (lineOf storage id) = [] := by
  refine List.filterMap_eq_nil_iff.mpr fun a ha => ?_
  simp only [saveAndLoad, List.mem_append, List.mem_cons, List.mem_replicate, List.not_mem_nil, or_false] at ha
  obtain (rfl | rfl) | ⟨-, rfl⟩ | ⟨-, rfl⟩ | rfl | ⟨-, rfl⟩ := ha <;> rfl

lemma filterMap_prints (id : Fin n) : (prints id id.val).filterMap (lineOf storage id) = linesOf storage id := by
  by_cases h : id.val = 0 <;> simp [prints, linesOf, h, lineOf]

/-- A phase in which a thread has its prints begins with all lines from there on. -/
lemma future_phase (niters k : ℕ) : future storage k (fun id => phase (threadMain niters id) k) =
    (List.finRange n).flatMap fun id => if id.val < k then [] else linesOf storage id := by
  refine List.flatMap_congr fun id _ => ?_
  rw [share]
  split_ifs with hlt heq
  · rfl
  · have hwork : (if k = 0 then saveAndLoad niters else []).filterMap (lineOf storage id) = [] := by
      split_ifs
      · exact filterMap_saveAndLoad niters id
      · rfl
    rw [phase_threadMain, List.filterMap_append, hwork, ← heq, if_pos id.isLt, filterMap_prints, List.nil_append]
  · rfl

/-- Behind a phase its thread has nothing to print any more. -/
lemma future_nil (k : ℕ) : future storage k (fun _ => []) =
    (List.finRange n).flatMap fun id => if id.val < k + 1 then [] else linesOf storage id := by
  refine List.flatMap_congr fun id _ => ?_
  rw [share]
  split_ifs with hlt heq <;> first | rfl | omega

end Lines

section Phases
variable {storage : Storage n} {niters k : ℕ} {d d' : Data n} {todo : Fin n → List Op} {id : Fin n} {a : Op}
variable {l : List Op}

/-- What the threads have still to do in phase k, that they use their own TLS, and what they have done. -/
structure Claim (storage : Storage n) (niters k : ℕ) (d : Data n) (todo : Fin n → List Op) : Prop where
  suffix : ∀ id, todo id <:+ phase (threadMain niters id) k
  reg : d.reg = storage.base
  var : ∀ id, .setVar ∉ todo id → d.var (storage.tlsvar (storage.base id)) = id
  saved : ∀ id, .save ∉ todo id → d.tls id = some (storage.base id)
  thr : ∀ id, .self ∉ todo id → d.thr id = some (storage.self (storage.base id))
  out : d.out ++ future storage k todo = lines storage

lemma Claim.suffix_todo (h : Claim storage niters k d todo) (htodo : todo id = a :: l) :
    a :: l <:+ phase (threadMain niters id) k := htodo ▸ h.suffix id

/-- A printf is due in the phase of its thread. -/
lemma Claim.phase_eq (h : Claim storage niters k d todo) (htodo : todo id = a :: l) {line : Line n}
    (ha : lineOf storage id a = some line) : id.val = k := by
  have hmem := (h.suffix_todo htodo).subset List.mem_cons_self
  rw [phase_threadMain, List.mem_append] at hmem
  obtain hmem | hmem := hmem
  · have hnone : (saveAndLoad niters).filterMap (lineOf storage id) = [] := filterMap_saveAndLoad niters id
    have := List.filterMap_eq_nil_iff.mp hnone a (List.mem_ite_nil_right.mp hmem).2
    rw [ha] at this
    cases this
  · exact (mem_prints (List.mem_ite_nil_right.mp hmem).2).1

/-- An action of a thread leaves alone what has been done, or does it again. -/
lemma Claim.update (h : Claim storage niters k d todo) (htodo : todo id = a :: l) (hreg : d'.reg = storage.base)
    (hvar : ∀ j, d'.var (storage.tlsvar (storage.base j)) = d.var (storage.tlsvar (storage.base j)) ∨
      d'.var (storage.tlsvar (storage.base j)) = j)
    (hsaved : ∀ j, d'.tls j = d.tls j ∨ d'.tls j = some (storage.base j))
    (hthr : ∀ j, d'.thr j = d.thr j ∨ d'.thr j = some (storage.self (storage.base j)))
    (hset : a = .setVar → d'.var (storage.tlsvar (storage.base id)) = id)
    (hsave : a = .save → d'.tls id = some (storage.base id))
    (hself : a = .self → d'.thr id = some (storage.self (storage.base id)))
    (hout : d'.out ++ future storage k (Function.update todo id l) = lines storage) :
    Claim storage niters k d' (Function.update todo id l) where
  suffix := suffix_update h.suffix htodo
  reg := hreg
  var j hj := by
    obtain ⟨rfl, ha⟩ | hj := notMem_update htodo hj
    · exact hset ha.symm
    · exact (hvar j).elim (fun hsame => hsame.trans (h.var j hj)) fun hdone => hdone
  saved j hj := by
    obtain ⟨rfl, ha⟩ | hj := notMem_update htodo hj
    · exact hsave ha.symm
    · exact (hsaved j).elim (fun hsame => hsame.trans (h.saved j hj)) fun hdone => hdone
  thr j hj := by
    obtain ⟨rfl, ha⟩ | hj := notMem_update htodo hj
    · exact hself ha.symm
    · exact (hthr j).elim (fun hsame => hsame.trans (h.thr j hj)) fun hdone => hdone
  out := hout

lemma update_own {β : Type} (f own : Fin n → β) (id j : Fin n) :
    Function.update f id (own id) j = f j ∨ Function.update f id (own id) j = own j := by
  by_cases hj : j = id
  · exact .inr (hj ▸ Function.update_self ..)
  · exact .inl (Function.update_of_ne hj ..)

/-- One case for each action of a thread. -/
lemma Claim.perform (h : Claim storage niters k d todo) (htodo : todo id = a :: l) :
    ∃ d', perform storage id a () d = (d', .pass) ∧ Claim storage niters k d' (Function.update todo id l) := by
  obtain ⟨hset, hsave, hself⟩ := suffix_phase (h.suffix_todo htodo)
  have hreg : d.reg id = storage.base id := congrFun h.reg id
  have hout : lineOf storage id a = none → d.out ++ future storage k (Function.update todo id l) = lines storage :=
    fun ha => by rw [future_of_none htodo ha, h.out]
  have hprint : ∀ line, lineOf storage id a = some line →
      (d.out ++ [line]) ++ future storage k (Function.update todo id l) = lines storage := by
    intro line ha
    rw [List.append_assoc, List.singleton_append, ← future_of_some htodo ha (h.phase_eq htodo ha), h.out]
  have htls : a ≠ .checkId → a ≠ .setVar → a ≠ .save → d.tls id = some (storage.base id) := by
    intro hcheckId hsetVar hne
    refine h.saved id ?_
    rw [htodo]
    exact List.not_mem_cons_of_ne_of_not_mem hne.symm (hsave hcheckId hsetVar hne)
  cases a with
  | checkId =>
    exact ⟨d, by simp [Tls.perform, id.isLt.le],
      h.update htodo h.reg (fun _ => .inl rfl) (fun _ => .inl rfl) (fun _ => .inl rfl) nofun nofun nofun (hout rfl)⟩
  | setVar =>
    refine ⟨{ d with var := Function.update d.var (storage.tlsvar (storage.base id)) id }, by rw [← hreg]; rfl,
      h.update htodo h.reg (fun j => ?_) (fun _ => .inl rfl) (fun _ => .inl rfl) (fun _ => Function.update_self ..)
      nofun nofun (hout rfl)⟩
    by_cases hj : j = id
    · exact .inr (hj ▸ Function.update_self ..)
    · exact .inl (Function.update_of_ne (storage.apart.ne hj) ..)
  | save =>
    exact ⟨{ d with tls := Function.update d.tls id (some (storage.base id)) }, by rw [← hreg]; rfl,
      h.update htodo h.reg (fun _ => .inl rfl) (update_own d.tls (fun j => some (storage.base j)) id)
      (fun _ => .inl rfl) nofun (fun _ => Function.update_self ..) nofun (hout rfl)⟩
  | load =>
    refine ⟨{ d with reg := Function.update d.reg id (storage.base id) }, ?_, h.update htodo ?_ (fun _ => .inl rfl)
      (fun _ => .inl rfl) (fun _ => .inl rfl) nofun nofun nofun (hout rfl)⟩
    · simp only [Tls.perform, htls (by decide) (by decide) (by decide)]
    · rw [← hreg, Function.update_eq_self, h.reg]
  | checkVar =>
    have hvar : d.var (storage.tlsvar (d.reg id)) = id := by
      rw [hreg]
      refine h.var id ?_
      rw [htodo]
      exact List.not_mem_cons_of_ne_of_not_mem (by decide) (hset (by decide))
    exact ⟨d, by simp [Tls.perform, hvar],
      h.update htodo h.reg (fun _ => .inl rfl) (fun _ => .inl rfl) (fun _ => .inl rfl) nofun nofun nofun (hout rfl)⟩
  | self =>
    exact ⟨{ d with thr := Function.update d.thr id (some (storage.self (storage.base id))) }, by rw [← hreg]; rfl,
      h.update htodo h.reg (fun _ => .inl rfl) (fun _ => .inl rfl)
      (update_own d.thr (fun j => some (storage.self (storage.base j))) id) nofun nofun
      (fun _ => Function.update_self ..) (hout rfl)⟩
  | header =>
    exact ⟨_, rfl, h.update htodo h.reg (fun _ => .inl rfl) (fun _ => .inl rfl) (fun _ => .inl rfl) nofun nofun nofun
      (hprint _ rfl)⟩
  | row =>
    have hthr : d.thr id = some (storage.self (storage.base id)) := by
      refine h.thr id ?_
      rw [htodo]
      exact List.not_mem_cons_of_ne_of_not_mem (by decide) (hself rfl)
    refine ⟨{ d with out := d.out ++ [rowOf storage id] }, ?_, h.update htodo h.reg (fun _ => .inl rfl)
      (fun _ => .inl rfl) (fun _ => .inl rfl) nofun nofun nofun (hprint _ rfl)⟩
    simp only [Tls.perform, htls (by decide) (by decide) (by decide), hthr, hreg]
    rfl

/-- At the start everything is still to be done. -/
lemma claim_start (hniters : 0 < niters) :
    Claim storage niters 0 (initial storage) fun id => phase (threadMain niters id) 0 := by
  have hmem : ∀ a : Op, a ∈ saveAndLoad niters → ∀ id : Fin n, a ∈ phase (threadMain niters id) 0 := by
    intro a ha id
    rw [phase_threadMain, if_pos rfl]
    exact List.mem_append_left _ ha
  refine ⟨fun _ => List.suffix_rfl, rfl, fun id hid => ?_, fun id hid => ?_, fun id hid => ?_, ?_⟩
  · exact absurd (hmem _ (by simp [saveAndLoad]) id) hid
  · exact absurd (hmem _ (by simp [saveAndLoad, warmup]) id) hid
  · exact absurd (hmem _ (by simp [saveAndLoad, hniters.ne']) id) hid
  · rw [future_phase]
    rfl

lemma Claim.next (h : Claim storage niters k d fun _ => []) :
    Claim storage niters (k + 1) d fun id => phase (threadMain niters id) (k + 1) := by
  refine ⟨fun _ => List.suffix_rfl, h.reg, fun id _ => ?_, fun id _ => ?_, fun id _ => ?_, ?_⟩
  · exact h.var id List.not_mem_nil
  · exact h.saved id List.not_mem_nil
  · exact h.thr id List.not_mem_nil
  · rw [future_phase, ← future_nil]
    exact h.out

theorem phaseRule (storage : Storage n) (hniters : 0 < niters) :
    PhaseRule (threadMain niters) (perform storage) (initial storage) (Claim storage niters) where
  start := claim_start hniters
  again k d d' todo i a l _ h htodo hexec := by
    obtain ⟨d₁, hpass, -⟩ := h.perform htodo
    cases hpass.symm.trans hexec
  pass k d d' todo i a l _ h htodo hexec := by
    obtain ⟨d₁, hpass, hclaim⟩ := h.perform htodo
    obtain ⟨rfl, -⟩ := Prod.mk.inj (hpass.symm.trans hexec)
    exact hclaim
  fail k d todo i a l _ h htodo := by
    obtain ⟨d₁, hpass, -⟩ := h.perform htodo
    rw [hpass]
    exact Verdict.noConfusion
  next k d _ h := h.next

lemma perform_ne_again (id : Fin n) (a : Op) (u : Unit) (d : Data n) : (perform storage id a u d).2 ≠ .again := by
  cases a with
  | checkId =>
    simp only [Tls.perform]
    split_ifs <;> exact Verdict.noConfusion
  | checkVar =>
    simp only [Tls.perform]
    split_ifs <;> exact Verdict.noConfusion
  | load =>
    simp only [Tls.perform]
    split <;> exact Verdict.noConfusion
  | row =>
    simp only [Tls.perform]
    split <;> exact Verdict.noConfusion
  | _ => exact Verdict.noConfusion

end Phases

section Runs
variable {storage : Storage n} {niters : ℕ} {c : Config (Fin n) Op (Data n)}

/-- Nobody fails, each thread has its own TLS register, and the lines come in the order of the threads; the process
can always get to its end, and there it passes and has printed all lines. -/
structure Sound (storage : Storage n) (c : Config (Fin n) Op (Data n)) : Prop where
  ok : ∀ id, c.sync.failed id = false
  reg : c.data.reg = storage.base
  out : c.data.out <+: lines storage
  ends : ∀ e c', c.step (perform storage) e = some c' → BarrierProgram.work c'.sync < BarrierProgram.work c.sync
  goesOn : ∃ more, exitStatus (Interleaving.run (Config.step (perform storage)) c more) = some exitPass
  final : ∀ status, exitStatus c = some status → status = exitPass ∧ c.data.out = lines storage

lemma exitStatus_finished [NeZero n] (hinv : c.Inv (threadMain niters) (Claim storage niters))
    (hend : Finished c.sync) : exitStatus c = some exitPass ∧ c.data.out = lines storage := by
  constructor
  · rw [exitStatus, if_neg (by simp [hinv.ok]), if_pos (show ∀ i, c.sync.todo i = [] from hend)]
  · have hclaim := hinv.claim_finished (fun id => waits_threadMain id) hend
    have hnil : future storage n (fun _ => []) = [] := by
      rw [future_nil]
      exact List.flatMap_eq_nil_iff.mpr fun id _ => if_pos (by omega)
    rw [← hclaim.out, hnil, List.append_nil]

theorem sound_of_inv (hniters : 0 < niters) [NeZero n] (hinv : c.Inv (threadMain niters) (Claim storage niters)) :
    Sound storage c where
  ok := hinv.ok
  reg := hinv.claim.reg
  out := ⟨_, hinv.claim.out⟩
  ends e c' := Config.work_lt perform_ne_again hinv.toPlaced
  goesOn := by
    obtain ⟨more, hmore⟩ := hinv.exists_finished (phaseRule storage hniters) (fun id => waits_threadMain id)
      fun k d todo i a l _ htodo => ⟨i, a, l, (), htodo, perform_ne_again i a () d⟩
    have hrun : (Interleaving.run (Config.step (perform storage)) c more).Inv (threadMain niters)
        (Claim storage niters) :=
      Interleaving.run_inv hinv (fun _ _ _ h hstep => Config.step_inv (phaseRule storage hniters) h hstep) more
    exact ⟨more, (exitStatus_finished hrun hmore).1⟩
  final status hstatus := by
    have hend : Finished c.sync := by
      unfold exitStatus at hstatus
      split_ifs at hstatus with hany hend
      · obtain ⟨i, hi⟩ := hany
        simp [hinv.ok i] at hi
      · exact hend
    obtain ⟨hexit, hout⟩ := exitStatus_finished hinv hend
    exact ⟨Option.some.inj (hstatus.symm.trans hexit), hout⟩

/-- Every interleaving of the threads. -/
theorem threads_report (arg : Option Word) {n niters : ℕ} (hn : nthreads arg = n) (hniters : 0 < niters)
    (storage : Storage n) (schedule : List (Event (Fin n) Unit)) : Sound storage (run storage niters schedule) := by
  have hne : NeZero n := ⟨fun h => nthreads_ne_zero arg (by rw [hn, h, Nat.cast_zero])⟩
  exact sound_of_inv hniters (Config.run_inv (phaseRule storage hniters) schedule)

/-- Two threads with a TLS register of their own, which is what pthread_self() returns. -/
def twoBlocks : Storage 2 where
  base id := 4096 * id
  tlsvar tls := tls + 16
  self tls := tls
  apart i j h := by
    dsimp only at h
    exact Fin.ext (by omega)

/-- Both threads in step up to their prints, and through the barriers behind them. -/
def twoThreads : List (Event (Fin 2) Unit) :=
  (List.replicate 204 ((List.finRange 2).map (.act · ()))).flatten ++
    (List.replicate 8 ((List.finRange 2).flatMap fun id => [.act id (), .arrive id, .leave id])).flatten

/-- Up to the end of the process, with an iteration. -/
theorem threads_report_two : exitStatus (run twoBlocks 1 twoThreads) = some exitPass ∧
    Sound twoBlocks (run twoBlocks 1 twoThreads) :=
  ⟨by decide +kernel, threads_report (some "2".toList) (by decide) (by decide) twoBlocks _⟩

end Runs

end PipTestsuite.Tls
