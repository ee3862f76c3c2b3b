import PipTestsuite.Lib.Interleaving

/-! Participants that run straight-line programs and synchronise by one barrier only. A program is cut
into phases by its waits; where each phase index has one owner, the owners act in turn. -/
namespace BarrierProgram

inductive Instr (α : Type*) where
  | act (a : α)
  | wait
  deriving DecidableEq

section Programs
variable {α : Type*}

def waits : List (Instr α) → ℕ
  | [] => 0
  | .act _ :: p => waits p
  | .wait :: p => waits p + 1

/-- The actions between wait number k and the next one. -/
def phase : List (Instr α) → ℕ → List α
  | [], _ => []
  | .act a :: p, 0 => a :: phase p 0
  | .act _ :: p, k + 1 => phase p (k + 1)
  | .wait :: _, 0 => []
  | .wait :: p, k + 1 => phase p k

def loop (n : ℕ) (body : List (Instr α)) : List (Instr α) := (List.replicate n body).flatten

@[simp] lemma waits_append (p q : List (Instr α)) : waits (p ++ q) = waits p + waits q := by
  induction p with
  | nil => simp [waits]
  | cons x p ih =>
    cases x with
    | act a => exact ih
    | wait =>
      rw [List.cons_append, waits, waits, ih]
      omega

@[simp] lemma waits_map_act (l : List α) : waits (l.map .act) = 0 := by
  induction l with
  | nil => rfl
  | cons a l ih => simpa [waits] using ih

@[simp] lemma waits_replicate_wait (n : ℕ) : waits (List.replicate n (.wait : Instr α)) = n := by
  induction n with
  | zero => rfl
  | succ n ih => simp [List.replicate_succ, waits, ih]

@[simp] lemma waits_loop (n : ℕ) (body : List (Instr α)) : waits (loop n body) = n * waits body := by
  induction n with
  | zero => simp [loop, waits]
  | succ n ih =>
    rw [loop, List.replicate_succ, List.flatten_cons, waits_append, ← loop, ih]
    ring

lemma phase_eq_nil {p : List (Instr α)} {k : ℕ} (h : waits p < k) : phase p k = [] := by
  induction p generalizing k with
  | nil => rfl
  | cons x p ih =>
    obtain ⟨k, rfl⟩ := Nat.exists_eq_succ_of_ne_zero (Nat.ne_zero_of_lt h)
    cases x with
    | act a => exact ih h
    | wait => exact ih (by simpa [waits] using h)

/-- The last phase of the first program goes on with the first phase of the second one. -/
lemma phase_append (p q : List (Instr α)) (k : ℕ) :
    phase (p ++ q) k =
      if k < waits p then phase p k
      else phase p k ++ phase q (k - waits p) := by
  induction p generalizing k with
  | nil => simp [phase, waits]
  | cons x p ih =>
    cases x with
    | act a =>
      cases k with
      | zero => by_cases h : 0 < waits p <;> simp [phase, waits, ih, h]
      | succ k => exact ih (k + 1)
    | wait =>
      cases k with
      | zero => simp [phase, waits]
      | succ k => simpa [phase, waits] using ih k

/-- Behind a program that ends with a wait another one begins with a phase of its own. -/
lemma phase_append_closed {p q : List (Instr α)} {n : ℕ} (hw : waits p = n) (hclosed : phase p n = []) (k : ℕ) :
    phase (p ++ q) k = if k < n then phase p k else phase q (k - n) := by
  rw [phase_append, hw]
  split_ifs with hk
  · rfl
  · have hnil : phase p k = [] := by
      obtain hlt | heq := Nat.lt_or_eq_of_le (not_lt.mp hk)
      · exact phase_eq_nil (by rwa [hw])
      · rw [← heq, hclosed]
    rw [hnil, List.nil_append]

@[simp] lemma phase_map_act (l : List α) (k : ℕ) : phase (l.map .act) k = if k = 0 then l else [] := by
  induction l with
  | nil => simp [phase]
  | cons a l ih => cases k <;> simp_all [phase]

@[simp] lemma phase_replicate_wait (n k : ℕ) : phase (List.replicate n (.wait : Instr α)) k = [] := by
  induction n generalizing k with
  | zero => rfl
  | succ n ih =>
    rw [List.replicate_succ]
    cases k with
    | zero => rfl
    | succ k => exact ih k

/-- A loop whose body depends on the number of the round. -/
def rounds (n : ℕ) (body : ℕ → List (Instr α)) : List (Instr α) := (List.range n).flatMap body

lemma rounds_succ (n : ℕ) (body : ℕ → List (Instr α)) : rounds (n + 1) body = rounds n body ++ body n := by
  simp [rounds, List.range_succ]

section Rounds
variable {body : ℕ → List (Instr α)} {m : ℕ}

lemma waits_rounds (hw : ∀ i, waits (body i) = m) (n : ℕ) : waits (rounds n body) = n * m := by
  induction n with
  | zero => simp [rounds, waits]
  | succ n ih =>
    rw [rounds_succ, waits_append, ih, hw]
    ring

/-- Round number k / m has the phase. -/
lemma phase_rounds_append (hm : 0 < m) (hw : ∀ i, waits (body i) = m) (hclosed : ∀ i, phase (body i) m = [])
    (n : ℕ) (rest : List (Instr α)) (k : ℕ) :
    phase (rounds n body ++ rest) k =
      if k < n * m then phase (body (k / m)) (k % m) else phase rest (k - n * m) := by
  induction n generalizing rest with
  | zero => simp [rounds]
  | succ n ih =>
    have hsum : (n + 1) * m = n * m + m := by ring
    rw [rounds_succ, List.append_assoc, ih, phase_append_closed (hw n) (hclosed n), hsum]
    by_cases hlt : k < n * m
    · rw [if_pos hlt, if_pos (by omega)]
    · rw [if_neg hlt]
      obtain ⟨r, rfl⟩ := Nat.exists_eq_add_of_le (not_lt.mp hlt)
      rw [Nat.add_sub_cancel_left]
      by_cases hr : r < m
      · have hdiv : (n * m + r) / m = n := by
          rw [Nat.add_comm, Nat.add_mul_div_right _ _ hm, Nat.div_eq_of_lt hr, Nat.zero_add]
        have hmod : (n * m + r) % m = r := by
          rw [Nat.add_comm, Nat.add_mul_mod_self_right, Nat.mod_eq_of_lt hr]
        rw [if_pos hr, if_pos (by omega), hdiv, hmod]
      · rw [if_neg hr, if_neg (by omega), Nat.add_sub_add_left]

end Rounds

end Programs

section Turns
variable {ι α : Type*}

/-- Only the owner of a phase index has actions there. -/
def Owned (prog : ι → List (Instr α)) (owner : ℕ → ι) : Prop :=
  ∀ k i, phase (prog i) k ≠ [] → i = owner k

/-- The owner's actions of the first k phases, in turn. -/
def turns (prog : ι → List (Instr α)) (owner : ℕ → ι) (k : ℕ) : List (ι × α) :=
  (List.range k).flatMap fun m => (phase (prog (owner m)) m).map (owner m, ·)

lemma turns_succ (prog : ι → List (Instr α)) (owner : ℕ → ι) (k : ℕ) :
    turns prog owner (k + 1) = turns prog owner k ++ (phase (prog (owner k)) k).map (owner k, ·) := by
  simp [turns, List.range_succ]

lemma turns_mono (prog : ι → List (Instr α)) (owner : ℕ → ι) {k m : ℕ} (h : k ≤ m) :
    turns prog owner k <+: turns prog owner m := by
  induction m, h using Nat.le_induction with
  | base => exact List.prefix_rfl
  | succ m _ ih =>
    rw [turns_succ]
    exact ih.trans (List.prefix_append _ _)

/-- A round of programs that end with a wait, as many for each participant. -/
structure Round (body : ι → List (Instr α)) (n : ℕ) : Prop where
  waits : ∀ i, waits (body i) = n
  closed : ∀ i, phase (body i) n = []

section Loops
variable {body rest : ι → List (Instr α)} {owner : ℕ → ι} {n : ℕ}

lemma Round.phase_append (h : Round body n) (i : ι) (k : ℕ) :
    phase (body i ++ rest i) k = if k < n then phase (body i) k else phase (rest i) (k - n) :=
  phase_append_closed (h.waits i) (h.closed i) k

lemma Round.owned_append (h : Round body n) (hper : ∀ k, owner (k + n) = owner k) (hbody : Owned body owner)
    (hrest : Owned rest owner) : Owned (fun i => body i ++ rest i) owner := by
  intro k i hk
  rw [h.phase_append] at hk
  split_ifs at hk with hlt
  · exact hbody k i hk
  · have := hrest (k - n) i hk
    rwa [← hper, Nat.sub_add_cancel (not_lt.mp hlt)] at this

lemma Round.turns_append (h : Round body n) (hper : ∀ k, owner (k + n) = owner k) (k : ℕ) :
    turns (fun i => body i ++ rest i) owner (n + k) = turns body owner n ++ turns rest owner k := by
  simp only [turns, List.range_add, List.flatMap_append, List.flatMap_map]
  congr 1
  · refine List.flatMap_congr fun m hm => ?_
    rw [h.phase_append, if_pos (List.mem_range.mp hm)]
  · refine List.flatMap_congr fun m _ => ?_
    rw [h.phase_append, if_neg (by omega), Nat.add_sub_cancel_left, Nat.add_comm n m, hper]

lemma loop_succ (m : ℕ) (p : List (Instr α)) : loop (m + 1) p = p ++ loop m p := by
  rw [loop, List.replicate_succ, List.flatten_cons, loop]

lemma Round.owned_loop_append (h : Round body n) (hper : ∀ k, owner (k + n) = owner k)
    (hbody : Owned body owner) (hrest : Owned rest owner) (m : ℕ) :
    Owned (fun i => loop m (body i) ++ rest i) owner := by
  induction m with
  | zero => simpa [loop] using hrest
  | succ m ih =>
    simp only [loop_succ, List.append_assoc]
    exact h.owned_append hper hbody ih

lemma Round.turns_loop_append (h : Round body n) (hper : ∀ k, owner (k + n) = owner k) (m k : ℕ) :
    turns (fun i => loop m (body i) ++ rest i) owner (m * n + k) =
      (List.replicate m (turns body owner n)).flatten ++ turns rest owner k := by
  induction m with
  | zero => simp [loop]
  | succ m ih =>
    have hsum : (m + 1) * n + k = n + (m * n + k) := by ring
    simp only [loop_succ, List.append_assoc, hsum]
    rw [h.turns_append hper, ih, List.replicate_succ, List.flatten_cons, List.append_assoc]

lemma phase_act_append (l : List α) (p : List (Instr α)) (k : ℕ) :
    phase (l.map .act ++ p) k = (if k = 0 then l else []) ++ phase p k := by
  simp [phase_append]

/-- Actions of the first owner in front. -/
lemma owned_act_append {l : ι → List α} (hl : ∀ i, l i ≠ [] → i = owner 0) (hrest : Owned rest owner) :
    Owned (fun i => (l i).map .act ++ rest i) owner := by
  intro k i hk
  rw [phase_act_append] at hk
  by_cases hseg : phase (rest i) k = []
  · rw [hseg, List.append_nil] at hk
    split_ifs at hk with h0
    · rw [h0]
      exact hl i hk
    · exact absurd rfl hk
  · exact hrest k i hseg

lemma turns_act_append (l : ι → List α) (k : ℕ) :
    turns (fun i => (l i).map .act ++ rest i) owner (k + 1) =
      (l (owner 0)).map (owner 0, ·) ++ turns rest owner (k + 1) := by
  simp only [turns, List.range_succ_eq_map, List.flatMap_cons, List.flatMap_map, phase_act_append]
  simp

end Loops

end Turns

/-- What each participant has still to do, the generation it waits for, if it is inside the barrier, and
whether it has left early; the number of generations released, and all actions so far. -/
structure State (ι α : Type*) where
  todo : ι → List (Instr α)
  inside : ι → Option ℕ
  failed : ι → Bool
  gen : ℕ
  log : List (ι × α)

inductive Action (ι : Type*) where
  | act (i : ι) (ok : Bool)
  | arrive (i : ι)
  | leave (i : ι)
  deriving DecidableEq

variable {ι α : Type*}

section Steps
variable [Fintype ι] [DecidableEq ι]

/-- The barrier releases a generation when all participants have arrived. -/
def release (s : State ι α) : State ι α :=
  if ∀ i, s.inside i = some s.gen then { s with gen := s.gen + 1 } else s

/-- A participant that finds its action to have failed leaves for good. -/
def step (s : State ι α) : Action ι → Option (State ι α)
  | .act i ok =>
    match s.inside i, s.todo i with
    | none, .act a :: rest =>
      some { s with
        todo := Function.update s.todo i (if ok then rest else [])
        failed := if ok then s.failed else Function.update s.failed i true
        log := s.log ++ [(i, a)] }
    | _, _ => none
  | .arrive i =>
    match s.inside i, s.todo i with
    | none, .wait :: _ => some (release { s with inside := Function.update s.inside i (some s.gen) })
    | _, _ => none
  | .leave i =>
    match s.inside i with
    | some g =>
      if g < s.gen then
        some { s with
          todo := Function.update s.todo i (s.todo i).tail
          inside := Function.update s.inside i none }
      else none
    | none => none

def start (prog : ι → List (Instr α)) : State ι α :=
  { todo := prog, inside := fun _ => none, failed := fun _ => false, gen := 0, log := [] }

/-- The state after a schedule; an action that is not possible is passed over. -/
def run (prog : ι → List (Instr α)) (schedule : List (Action ι)) : State ι α :=
  schedule.foldl (fun s a => (step s a).getD s) (start prog)

end Steps

def Finished (s : State ι α) : Prop := ∀ i, s.todo i = []

/-- The participant is between two waits of its own with an action between them. -/
def InTurn (prog : ι → List (Instr α)) (s : State ι α) (i : ι) : Prop :=
  s.failed i = false ∧ s.inside i = none ∧
    phase (prog i) (waits (prog i) - waits (s.todo i)) ≠ []

/-- What a participant has to do behind a wait that the barrier has released. -/
def left (s : State ι α) (i : ι) : List (Instr α) :=
  match s.inside i with
  | some g => if g < s.gen then (s.todo i).tail else s.todo i
  | none => s.todo i

/-- The rest of a program, which stands in phase k. -/
structure At (p : List (Instr α)) (k : ℕ) (rest : List (Instr α)) : Prop where
  waits : waits rest + k = waits p
  current : ∃ done, done ++ phase rest 0 = phase p k
  later : ∀ m, phase rest (m + 1) = phase p (k + m + 1)

/-- The current phase is done in parts, by its owner. -/
def OwnerActs (prog : ι → List (Instr α)) (s : State ι α) (i : ι) (done : List α) : Prop :=
  if s.failed i then done <+: phase (prog i) s.gen
  else done ++ phase (left s i) 0 = phase (prog i) s.gen

/-- Where everybody stands. -/
structure Placed (prog : ι → List (Instr α)) (s : State ι α) : Prop where
  pos : ∀ i, s.failed i = false → At (prog i) s.gen (left s i)
  inside : ∀ i g, s.inside i = some g → g ≤ s.gen ∧ s.failed i = false ∧ ∃ rest, s.todo i = .wait :: rest
  failed : ∀ i, s.failed i = true → s.todo i = []
  gen_le : ∀ i, s.gen ≤ waits (prog i)

/-- Where everybody stands, and what the log tells of it. -/
structure Standing (prog : ι → List (Instr α)) (owner : ℕ → ι) (s : State ι α) : Prop where
  pos : ∀ i, s.failed i = false → At (prog i) s.gen (left s i)
  inside : ∀ i g, s.inside i = some g → g ≤ s.gen ∧ s.failed i = false ∧ ∃ rest, s.todo i = .wait :: rest
  failed : ∀ i, s.failed i = true → s.todo i = []
  gen_le : ∀ i, s.gen ≤ waits (prog i)
  log : ∃ done, s.log = turns prog owner s.gen ++ done.map (owner s.gen, ·) ∧
    OwnerActs prog s (owner s.gen) done

/-- After each step somebody has not yet arrived at the next wait. -/
structure Inv (prog : ι → List (Instr α)) (owner : ℕ → ι) (s : State ι α) : Prop extends
    Standing prog owner s where
  outside : ∃ i, s.inside i ≠ some s.gen

section Invariant
variable {prog : ι → List (Instr α)} {owner : ℕ → ι} {s s' : State ι α} {a : Action ι}

lemma At.start (p : List (Instr α)) : At p 0 p :=
  ⟨by omega, ⟨[], by simp⟩, fun m => by rw [Nat.zero_add]⟩

lemma At.act {p rest : List (Instr α)} {k : ℕ} {x : α} (h : At p k (.act x :: rest)) : At p k rest := by
  obtain ⟨done, hdone⟩ := h.current
  exact ⟨h.waits, ⟨done ++ [x], by simpa [phase] using hdone⟩, h.later⟩

lemma At.wait {p rest : List (Instr α)} {k : ℕ} (h : At p k (.wait :: rest)) :
    At p (k + 1) rest ∧ phase rest 0 = phase p (k + 1) := by
  have hzero : phase rest 0 = phase p (k + 1) := h.later 0
  refine ⟨⟨?_, ⟨[], hzero⟩, fun m => ?_⟩, hzero⟩
  · have := h.waits
    simp only [BarrierProgram.waits] at this
    omega
  · have := h.later (m + 1)
    rwa [show k + (m + 1) + 1 = k + 1 + m + 1 by omega] at this

theorem start_placed (prog : ι → List (Instr α)) : Placed prog (start prog) where
  pos i _ := At.start (prog i)
  inside i g h := by simp [start] at h
  failed i h := by simp [start] at h
  gen_le i := Nat.zero_le _

lemma Standing.placed (h : Standing prog owner s) : Placed prog s := ⟨h.pos, h.inside, h.failed, h.gen_le⟩

/-- The log of a participant's actions, on top of where everybody stands. -/
lemma Placed.standing (h : Placed prog s)
    (hlog : ∃ done, s.log = turns prog owner s.gen ++ done.map (owner s.gen, ·) ∧
      OwnerActs prog s (owner s.gen) done) : Standing prog owner s :=
  ⟨h.pos, h.inside, h.failed, h.gen_le, hlog⟩

theorem start_inv (prog : ι → List (Instr α)) (owner : ℕ → ι) : Inv prog owner (start prog) where
  toStanding := (start_placed prog).standing ⟨[], by simp [start, turns, OwnerActs, left]⟩
  outside := ⟨owner 0, by simp [start]⟩

lemma Placed.not_failed (h : Placed prog s) {i : ι} {x : Instr α} {rest : List (Instr α)}
    (htodo : s.todo i = x :: rest) : s.failed i = false := by
  by_contra hfailed
  have hnil := h.failed i (by simpa using hfailed)
  simp [htodo] at hnil

/-- What a participant does next belongs to the current phase of its program. -/
lemma Placed.current (h : Placed prog s) {i : ι} {x : α} {rest : List (Instr α)} (hin : s.inside i = none)
    (htodo : s.todo i = .act x :: rest) : phase (prog i) s.gen ≠ [] := by
  have hpos := h.pos i (h.not_failed htodo)
  simp only [left, hin, htodo] at hpos
  obtain ⟨done, hdone⟩ := hpos.current
  intro hnil
  rw [hnil] at hdone
  simp [phase] at hdone

/-- An action that is done belongs to the owner of the current phase. -/
lemma Inv.owner_eq (h : Inv prog owner s) (howner : Owned prog owner) {i : ι}
    {x : α} {rest : List (Instr α)} (hin : s.inside i = none) (htodo : s.todo i = .act x :: rest) :
    s.failed i = false ∧ i = owner s.gen :=
  ⟨h.placed.not_failed htodo, howner s.gen i (h.placed.current hin htodo)⟩

/-- Whom the barrier has released has the first actions of the next phase before it. -/
lemma Placed.next_phase (h : Placed prog s) (hall : ∀ i, s.inside i = some s.gen) (i : ι) :
    phase (left s i) 0 = [] ∧ phase (left { s with gen := s.gen + 1 } i) 0 = phase (prog i) (s.gen + 1) := by
  obtain ⟨-, hf, rest, hrest⟩ := h.inside i _ (hall i)
  have hpos := h.pos i hf
  simp only [left, hall i, lt_irrefl, if_false, hrest] at hpos
  refine ⟨?_, ?_⟩
  · simp [left, hall i, hrest, phase]
  · simpa [left, hall i, hrest] using hpos.wait.2

section Release
variable [Fintype ι]

/-- The last arrival moves all participants on to their next phases; each of the others only waits. -/
lemma Placed.release (h : Placed prog s) : Placed prog (release s) := by
  unfold BarrierProgram.release
  split_ifs with hall
  · have hnext : ∀ j, At (prog j) (s.gen + 1) (s.todo j).tail := by
      intro j
      obtain ⟨-, hf, rest, hrest⟩ := h.inside j _ (hall j)
      have hpos := h.pos j hf
      simp only [left, hall j, lt_irrefl, if_false, hrest] at hpos
      simpa [hrest] using hpos.wait.1
    refine ⟨?_, ?_, h.failed, ?_⟩
    · intro j _
      simpa [left, hall j] using hnext j
    · intro j g hj
      obtain ⟨hle, hrest⟩ := h.inside j g hj
      exact ⟨Nat.le_succ_of_le hle, hrest⟩
    · intro j
      have := (hnext j).waits
      show s.gen + 1 ≤ _
      omega
  · exact h

lemma outside_release [Nonempty ι] (s : State ι α) :
    ∃ i, (BarrierProgram.release s).inside i ≠ some (BarrierProgram.release s).gen := by
  unfold BarrierProgram.release
  split_ifs with hall
  · obtain ⟨i⟩ := ‹Nonempty ι›
    exact ⟨i, by simp [hall i]⟩
  · simpa using hall

lemma Standing.release (h : Standing prog owner s) : Inv prog owner (release s) := by
  have hne : Nonempty ι := ⟨owner 0⟩
  refine ⟨h.placed.release.standing ?_, outside_release s⟩
  obtain ⟨done, hlog, hacts⟩ := h.log
  unfold BarrierProgram.release
  split_ifs with hall
  · obtain ⟨hend, -⟩ := h.placed.next_phase hall (owner s.gen)
    have hf := (h.inside _ _ (hall (owner s.gen))).2.1
    have hdone : done = phase (prog (owner s.gen)) s.gen := by
      simpa [OwnerActs, hf, hend] using hacts
    obtain ⟨-, hbegin⟩ := h.placed.next_phase hall (owner (s.gen + 1))
    have hf' := (h.inside _ _ (hall (owner (s.gen + 1)))).2.1
    refine ⟨[], ?_, ?_⟩
    · simp [hlog, hdone, turns_succ]
    · simpa [OwnerActs, hf'] using hbegin
  · exact ⟨done, hlog, hacts⟩

end Release

section Steps
variable [DecidableEq ι]

/-- A participant that goes on or leaves for good; where the others stand is as before. -/
lemma Placed.act (h : Placed prog s) {i : ι} {ok : Bool} {x : α} {rest : List (Instr α)}
    (hin : s.inside i = none) (htodo : s.todo i = .act x :: rest) :
    Placed prog { s with
      todo := Function.update s.todo i (if ok then rest else [])
      failed := if ok then s.failed else Function.update s.failed i true
      log := s.log ++ [(i, x)] } := by
  have hfailed := h.not_failed htodo
  have hleft : left s i = .act x :: rest := by simp [left, hin, htodo]
  refine ⟨?_, ?_, ?_, h.gen_le⟩
  · intro j hj
    by_cases hji : j = i
    · subst hji
      cases ok with
      | true => simpa [left, hin] using (hleft ▸ h.pos j hfailed).act
      | false => simp at hj
    · have hjf : s.failed j = false := by cases ok <;> simpa [hji] using hj
      simpa [left, hji] using h.pos j hjf
  · intro j g hj
    by_cases hji : j = i
    · subst hji
      simp [hin] at hj
    · obtain ⟨hle, hf, htail⟩ := h.inside j g hj
      refine ⟨hle, ?_, by simpa [hji] using htail⟩
      cases ok <;> simp [hji, hf]
  · intro j hj
    by_cases hji : j = i
    · subst hji
      cases ok with
      | true => simp [hfailed] at hj
      | false => simp
    · have hjf : s.failed j = true := by cases ok <;> simpa [hji] using hj
      simpa [hji] using h.failed j hjf

lemma act_inv (h : Inv prog owner s) (howner : Owned prog owner) {i : ι}
    {ok : Bool} {x : α} {rest : List (Instr α)} (hin : s.inside i = none)
    (htodo : s.todo i = .act x :: rest) :
    Inv prog owner { s with
      todo := Function.update s.todo i (if ok then rest else [])
      failed := if ok then s.failed else Function.update s.failed i true
      log := s.log ++ [(i, x)] } := by
  obtain ⟨hfailed, hi⟩ := h.owner_eq howner hin htodo
  have hleft : left s i = .act x :: rest := by simp [left, hin, htodo]
  obtain ⟨done, hlog, hacts⟩ := h.log
  rw [← hi] at hlog hacts
  simp only [OwnerActs, hfailed, hleft, phase] at hacts
  refine ⟨(h.placed.act hin htodo).standing ⟨done ++ [x], ?_, ?_⟩, h.outside⟩
  · simp [hlog, ← hi]
  · rw [← hi]
    cases ok with
    | true => simpa [OwnerActs, hfailed, left, hin] using hacts
    | false =>
      have hpre : done ++ [x] <+: phase (prog i) s.gen := ⟨phase rest 0, by simpa using hacts⟩
      simpa [OwnerActs] using hpre

lemma left_arrive {i : ι} (hin : s.inside i = none) :
    left { s with inside := Function.update s.inside i (some s.gen) } = left s := by
  funext j
  by_cases hji : j = i
  · subst hji
    simp [left, hin]
  · simp [left, hji]

lemma left_leave {i : ι} {g : ℕ} (hin : s.inside i = some g) (hg : g < s.gen) :
    left { s with
      todo := Function.update s.todo i (s.todo i).tail
      inside := Function.update s.inside i none } = left s := by
  funext j
  by_cases hji : j = i
  · subst hji
    simp [left, hin, hg]
  · simp [left, hji]

lemma Placed.leave (h : Placed prog s) {i : ι} {g : ℕ} (hin : s.inside i = some g) (hg : g < s.gen) :
    Placed prog { s with
      todo := Function.update s.todo i (s.todo i).tail
      inside := Function.update s.inside i none } := by
  refine ⟨?_, ?_, ?_, h.gen_le⟩
  · intro j hj
    rw [left_leave hin hg]
    exact h.pos j hj
  · intro j g' hj
    by_cases hji : j = i
    · subst hji
      simp at hj
    · have hj' : s.inside j = some g' := by simpa [hji] using hj
      simpa [hji] using h.inside j g' hj'
  · intro j hj
    have := h.failed j hj
    by_cases hji : j = i
    · subst hji
      simp [this]
    · simpa [hji] using this

lemma leave_inv (h : Inv prog owner s) {i : ι} {g : ℕ} (hin : s.inside i = some g) (hg : g < s.gen) :
    Inv prog owner { s with
      todo := Function.update s.todo i (s.todo i).tail
      inside := Function.update s.inside i none } := by
  refine ⟨(h.placed.leave hin hg).standing ?_, i, by simp⟩
  obtain ⟨done, hlog, hacts⟩ := h.log
  refine ⟨done, hlog, ?_⟩
  unfold OwnerActs at hacts ⊢
  rwa [left_leave hin hg]

lemma Placed.arrive (h : Placed prog s) {i : ι} {rest : List (Instr α)} (hin : s.inside i = none)
    (htodo : s.todo i = .wait :: rest) :
    Placed prog { s with inside := Function.update s.inside i (some s.gen) } := by
  refine ⟨?_, ?_, h.failed, h.gen_le⟩
  · intro j hj
    rw [left_arrive hin]
    exact h.pos j hj
  · intro j g hj
    by_cases hji : j = i
    · subst hji
      have hg : s.gen = g := by simpa using hj
      exact ⟨hg.ge, h.not_failed htodo, rest, htodo⟩
    · exact h.inside j g (by simpa [hji] using hj)

lemma Inv.arrive (h : Inv prog owner s) {i : ι} {rest : List (Instr α)} (hin : s.inside i = none)
    (htodo : s.todo i = .wait :: rest) :
    Standing prog owner { s with inside := Function.update s.inside i (some s.gen) } := by
  refine (h.placed.arrive hin htodo).standing ?_
  obtain ⟨done, hlog, hacts⟩ := h.log
  refine ⟨done, hlog, ?_⟩
  unfold OwnerActs at hacts ⊢
  rwa [left_arrive hin]

variable [Fintype ι]

lemma step_act {i : ι} {x : α} {rest : List (Instr α)} (hin : s.inside i = none)
    (htodo : s.todo i = .act x :: rest) (ok : Bool) :
    step s (.act i ok) = some { s with
      todo := Function.update s.todo i (if ok then rest else [])
      failed := if ok then s.failed else Function.update s.failed i true
      log := s.log ++ [(i, x)] } := by
  simp only [step, hin, htodo]

lemma step_arrive {i : ι} {rest : List (Instr α)} (hin : s.inside i = none)
    (htodo : s.todo i = .wait :: rest) :
    step s (.arrive i) = some (release { s with inside := Function.update s.inside i (some s.gen) }) := by
  simp only [step, hin, htodo]

lemma step_leave {i : ι} {g : ℕ} (hin : s.inside i = some g) (hg : g < s.gen) :
    step s (.leave i) = some { s with
      todo := Function.update s.todo i (s.todo i).tail
      inside := Function.update s.inside i none } := by
  simp only [step, hin, if_pos hg]

/-- What a step can do. -/
lemma step_cases (h : step s a = some s') :
    (∃ i ok x rest, a = .act i ok ∧ s.inside i = none ∧ s.todo i = .act x :: rest ∧
      s' = { s with
        todo := Function.update s.todo i (if ok then rest else [])
        failed := if ok then s.failed else Function.update s.failed i true
        log := s.log ++ [(i, x)] }) ∨
    (∃ i rest, a = .arrive i ∧ s.inside i = none ∧ s.todo i = .wait :: rest ∧
      s' = release { s with inside := Function.update s.inside i (some s.gen) }) ∨
    (∃ i g, a = .leave i ∧ s.inside i = some g ∧ g < s.gen ∧
      s' = { s with
        todo := Function.update s.todo i (s.todo i).tail
        inside := Function.update s.inside i none }) := by
  cases a with
  | act i ok =>
    simp only [step] at h
    split at h
    · exact .inl ⟨i, ok, _, _, rfl, ‹_›, ‹_›, (Option.some.inj h).symm⟩
    · cases h
  | arrive i =>
    simp only [step] at h
    split at h
    · exact .inr (.inl ⟨i, _, rfl, ‹_›, ‹_›, (Option.some.inj h).symm⟩)
    · cases h
  | leave i =>
    simp only [step] at h
    split at h
    · split at h
      · exact .inr (.inr ⟨i, _, rfl, ‹_›, ‹_›, (Option.some.inj h).symm⟩)
      · cases h
    · cases h

theorem step_placed (h : Placed prog s) (hstep : step s a = some s') : Placed prog s' := by
  obtain ⟨i, ok, x, rest, -, hin, htodo, rfl⟩ | ⟨i, rest, -, hin, htodo, rfl⟩ | ⟨i, g, -, hin, hg, rfl⟩ :=
    step_cases hstep
  · exact h.act hin htodo
  · exact (h.arrive hin htodo).release
  · exact h.leave hin hg

/-- Somebody has not yet arrived at the next wait. -/
theorem step_outside [Nonempty ι] (h : ∃ i, s.inside i ≠ some s.gen) (hstep : step s a = some s') :
    ∃ i, s'.inside i ≠ some s'.gen := by
  obtain ⟨i, ok, x, rest, -, hin, htodo, rfl⟩ | ⟨i, rest, -, hin, htodo, rfl⟩ | ⟨i, g, -, hin, hg, rfl⟩ :=
    step_cases hstep
  · exact h
  · exact outside_release _
  · exact ⟨i, by simp⟩

theorem step_inv (howner : Owned prog owner) (h : Inv prog owner s)
    (hstep : step s a = some s') : Inv prog owner s' := by
  obtain ⟨i, ok, x, rest, -, hin, htodo, rfl⟩ | ⟨i, rest, -, hin, htodo, rfl⟩ | ⟨i, g, -, hin, hg, rfl⟩ :=
    step_cases hstep
  · exact act_inv h howner hin htodo
  · exact (h.arrive hin htodo).release
  · exact leave_inv h hin hg

theorem run_inv (howner : Owned prog owner) (schedule : List (Action ι)) :
    Inv prog owner (run prog schedule) :=
  Interleaving.run_inv (start_inv prog owner) (fun _ _ _ h hstep => step_inv howner h hstep) schedule

end Steps

/-- Two participants are never in their turns at the same time. -/
theorem Inv.inTurn_eq (h : Inv prog owner s) (howner : Owned prog owner)
    {i : ι} (hi : InTurn prog s i) : i = owner s.gen := by
  obtain ⟨hfailed, hin, hturn⟩ := hi
  have hpos := h.pos i hfailed
  have hleft : left s i = s.todo i := by simp [left, hin]
  rw [hleft] at hpos
  have hphase : waits (prog i) - waits (s.todo i) = s.gen := by
    have := hpos.waits
    omega
  rw [hphase] at hturn
  exact howner _ _ hturn

/-- The actions so far are the first ones of the owners' actions in turn. -/
theorem Inv.log_of_turns (h : Inv prog owner s) {n : ℕ} (hn : ∀ i, waits (prog i) = n) :
    s.log <+: turns prog owner (n + 1) := by
  obtain ⟨done, hlog, hacts⟩ := h.log
  have hdone : done <+: phase (prog (owner s.gen)) s.gen := by
    unfold OwnerActs at hacts
    split at hacts
    · exact hacts
    · exact ⟨_, hacts⟩
  have hcurrent : s.log <+: turns prog owner (s.gen + 1) := by
    rw [hlog, turns_succ]
    exact (List.prefix_append_right_inj _).mpr (hdone.map _)
  have hle : s.gen + 1 ≤ n + 1 := by
    have := h.gen_le (owner 0)
    rw [hn] at this
    omega
  exact hcurrent.trans (turns_mono prog owner hle)

/-- When all participants are at the end, the actions are complete. -/
theorem Inv.log_finished (h : Inv prog owner s) {n : ℕ} (hn : ∀ i, waits (prog i) = n)
    (hok : ∀ i, s.failed i = false) (hend : Finished s) : s.log = turns prog owner (n + 1) := by
  obtain ⟨done, hlog, hacts⟩ := h.log
  have hleft : ∀ i, left s i = [] := by
    intro i
    unfold left
    split
    · simp [hend i]
    · exact hend i
  have hgen : s.gen = n := by
    have := (h.pos (owner 0) (hok _)).waits
    rw [hleft, hn] at this
    simpa [waits] using this
  simp only [OwnerActs, hok, hleft, phase, Bool.false_eq_true, if_false, List.append_nil] at hacts
  rw [hlog, hacts, ← hgen, turns_succ]

section Progress
variable [Fintype ι]

/-- The steps that a participant has still to make. -/
def stepsOf (s : State ι α) (i : ι) : ℕ := 2 * (s.todo i).length + if s.inside i = none then 1 else 0

def work (s : State ι α) : ℕ := ∑ i, stepsOf s i

lemma work_lt {i : ι} (hi : stepsOf s' i < stepsOf s i) (hother : ∀ j ≠ i, stepsOf s' j = stepsOf s j) :
    work s' < work s := by
  refine Finset.sum_lt_sum (fun j _ => ?_) ⟨i, Finset.mem_univ i, hi⟩
  by_cases hji : j = i
  · rw [hji]
    exact hi.le
  · exact (hother j hji).le

lemma release_failed (t : State ι α) : (release t).failed = t.failed := by
  unfold release
  split_ifs <;> rfl

lemma release_todo (t : State ι α) : (release t).todo = t.todo := by
  unfold release
  split_ifs <;> rfl

lemma release_inside (t : State ι α) : (release t).inside = t.inside := by
  unfold release
  split_ifs <;> rfl

lemma stepsOf_release (t : State ι α) (i : ι) : stepsOf (release t) i = stepsOf t i := by
  unfold release
  split_ifs <;> rfl

variable [DecidableEq ι]

/-- Where all programs have the same number of waits and nobody has left, somebody can go on until all
are at the end. -/
theorem Placed.finished_or_step (h : Placed prog s) (hout' : ∃ i, s.inside i ≠ some s.gen) {n : ℕ} (hn : ∀ i, waits (prog i) = n)
    (hok : ∀ i, s.failed i = false) : Finished s ∨ ∃ a s', step s a = some s' ∧ s'.failed = s.failed := by
  by_contra hstuck
  rw [not_or] at hstuck
  obtain ⟨hend, hstuck⟩ := hstuck
  have hout : ∀ i, s.inside i = none → s.todo i = [] := by
    intro i hin
    cases htodo : s.todo i with
    | nil => rfl
    | cons x rest =>
      cases x with
      | act x => exact absurd ⟨_, _, step_act hin htodo true, rfl⟩ hstuck
      | wait => exact absurd ⟨_, _, step_arrive hin htodo, release_failed _⟩ hstuck
  have hins : ∀ i g, s.inside i = some g → g = s.gen := by
    intro i g hin
    by_contra hne
    have hlt : g < s.gen := lt_of_le_of_ne (h.inside i g hin).1 hne
    exact absurd ⟨_, _, step_leave hin hlt, rfl⟩ hstuck
  obtain ⟨j, hj⟩ := hout'
  have hjnone : s.inside j = none := by
    cases hin : s.inside j with
    | none => rfl
    | some g => exact absurd (by rw [hin, hins j g hin]) hj
  have hgen : s.gen = n := by
    have := (h.pos j (hok j)).waits
    rw [hn, left, hjnone] at this
    simpa [hout j hjnone, waits] using this
  apply hend
  intro i
  cases hin : s.inside i with
  | none => exact hout i hin
  | some g =>
    obtain ⟨-, -, rest, hrest⟩ := h.inside i g hin
    have := (h.pos i (hok i)).waits
    rw [hn, left, hin] at this
    simp [hins i g hin, hrest, waits] at this
    omega

/-- No run goes on forever. -/
theorem Placed.work_step (h : Placed prog s) (hstep : step s a = some s') : work s' < work s := by
  obtain ⟨i, ok, x, rest, -, hin, htodo, rfl⟩ | ⟨i, rest, -, hin, htodo, rfl⟩ | ⟨i, g, -, hin, hg, rfl⟩ :=
    step_cases hstep
  · refine work_lt (i := i) ?_ fun j hji => by simp [stepsOf, hji]
    cases ok <;> simp [stepsOf, htodo]
  · refine work_lt (i := i) ?_ fun j hji => ?_
    · rw [stepsOf_release]
      simp [stepsOf, htodo, hin]
    · rw [stepsOf_release]
      simp [stepsOf, hji]
  · refine work_lt (i := i) ?_ fun j hji => by simp [stepsOf, hji]
    obtain ⟨-, -, rest, htodo⟩ := h.inside i g hin
    simp [stepsOf, htodo, hin]
    omega

end Progress

end Invariant

end BarrierProgram
