import PipTestsuite.Lib.Interleaving

/-! pip_namexp.c: in each iteration a pointer to the counter of task 0 goes round the ring of tasks by named
exports and imports, forward and then backward, and every task increments the counter on the way. -/
namespace PipTestsuite.PipNamexp

/-- Round the ring from task 0 to task 1, or from task 0 to the last task. -/
inductive Direction where
  | forward | backward
  deriving DecidableEq

/-- "must be found", "barrier", "forward:%d" and "backward:%d" -/
inductive Name where
  | mustBeFound
  | barrier
  | pass (d : Direction) (i : ℕ)
  deriving DecidableEq

/-- What a task does next in a pass. A pointer is the pipid of the task whose count it points to. -/
inductive Stage where
  | reset
  | export (countp : ℕ)
  | import
  | checkPointer (cp : ℕ)
  | checkCount (cp : ℕ)
  | load (countp : ℕ)
  | store (countp : ℕ) (value : ℤ)
  deriving DecidableEq

inductive Pc where
  | magic
  | namedBarrier
  | pass (i : ℕ) (d : Direction) (stage : Stage)
  | finalBarrier
  | failed
  deriving DecidableEq

/-- Where each task is, its variable count, what each task has exported, and who is inside or behind the
first barrier; the step that leaves this barrier is the first one of the loop. -/
@[ext]
structure State where
  pc : ℕ → Pc
  count : ℕ → ℤ
  exported : ℕ → Name → Option ℕ
  arrived : ℕ → Bool

def magic : ℤ := 314

def prev (ntasks pipid : ℕ) : ℕ := if pipid = 0 then ntasks - 1 else pipid - 1

def next (ntasks pipid : ℕ) : ℕ := if pipid = ntasks - 1 then 0 else pipid + 1

/-- From whom a task imports in a pass. -/
def source (ntasks pipid : ℕ) : Direction → ℕ
  | .forward => prev ntasks pipid
  | .backward => next ntasks pipid

def State.goTo (s : State) (k : ℕ) (pc : Pc) : State := { s with pc := Function.update s.pc k pc }

def State.setCount (s : State) (p : ℕ) (value : ℤ) : State := { s with count := Function.update s.count p value }

def pipNamedExport (k : ℕ) (name : Name) (p : ℕ) (s : State) : State :=
  { s with exported := Function.update s.exported k (Function.update (s.exported k) name (some p)) }

/-- The first stage of a pass: task 0 sets its counter, the others import the pointer. -/
def firstStage (k : ℕ) : Stage := if k = 0 then .reset else .import

/-- Behind a pass is the backward one of the iteration, the next iteration, or the end of the loop. -/
def afterPass (niters k i : ℕ) : Direction → Pc
  | .forward => .pass i .backward (firstStage k)
  | .backward => if i + 1 < niters then .pass (i + 1) .forward (firstStage k) else .finalBarrier

/-- The body of the loop, in a pass. -/
def passStep (ntasks niters k i : ℕ) (d : Direction) (s : State) : Stage → Option State
  | .reset => some ((s.setCount k 1).goTo k (.pass i d (.export k)))
  | .export countp =>
    let s := pipNamedExport k (.pass d i) countp s
    some (s.goTo k (if k = 0 then .pass i d .import else afterPass niters k i d))
  | .import =>
    match s.exported (source ntasks k d) (.pass d i) with
    | none => none
    | some p => some (s.goTo k (.pass i d (if k = 0 then .checkPointer p else .load p)))
  | .checkPointer cp => some (s.goTo k (if cp ≠ k then .failed else .pass i d (.checkCount cp)))
  | .checkCount cp => some (s.goTo k (if s.count cp ≠ ntasks then .failed else afterPass niters k i d))
  | .load countp => some (s.goTo k (.pass i d (.store countp (s.count countp))))
  | .store countp value => some ((s.setCount countp (value + 1)).goTo k (.pass i d (.export countp)))

/-- The next step of task k. -/
def step (ntasks niters : ℕ) (s : State) (k : ℕ) : Option State :=
  if k < ntasks then
    match s.pc k with
    | .magic =>
      -- the import of what was never exported fails, and that of an own export finds the own pointer
      some ((pipNamedExport k .mustBeFound k (s.setCount k magic)).goTo k .namedBarrier)
    | .namedBarrier =>
      let arrive (s : State) : State := { s with arrived := Function.update s.arrived k true }.goTo k
        (if 0 < niters then .pass 0 .forward (firstStage k) else .finalBarrier)
      if k = 0 then some (arrive (pipNamedExport 0 .barrier 0 s))
      else if (s.exported 0 .barrier).isSome then some (arrive s) else none
    | .pass i d stage =>
      if ∀ k' < ntasks, s.arrived k' then passStep ntasks niters k i d s stage else none
    | .finalBarrier => none
    | .failed => none
  else none

def start : State where
  pc _ := .magic
  count _ := 0
  exported _ _ := none
  arrived _ := false

def run (ntasks niters : ℕ) (schedule : List ℕ) : State :=
  Interleaving.run (step ntasks niters) start schedule

/-- The passes of all iterations are numbered through. -/
def passNo (i : ℕ) : Direction → ℕ
  | .forward => 2 * i
  | .backward => 2 * i + 1

def directionOf (t : ℕ) : Direction := if t % 2 = 0 then .forward else .backward

/-- The place of a task in the order of a pass. -/
def place (ntasks k : ℕ) : Direction → ℕ
  | .forward => k
  | .backward => if k = 0 then 0 else ntasks - k

/-- The task at a place. -/
def taskAt (ntasks m : ℕ) : Direction → ℕ
  | .forward => m
  | .backward => if m = 0 then 0 else ntasks - m

/-- Where a task begins pass number t. -/
def beginPass (niters t k : ℕ) : Pc :=
  if t < 2 * niters then .pass (t / 2) (directionOf t) (firstStage k) else .finalBarrier

/-- Before the first barrier: each task has made so many of its steps up to there. -/
def prelude (ntasks niters : ℕ) (steps : ℕ → ℕ) : State where
  pc k :=
    if k < ntasks then
      if steps k = 0 then .magic else if steps k = 1 then .namedBarrier else beginPass niters 0 k
    else .magic
  count k := if k < ntasks ∧ steps k ≠ 0 then magic else 0
  exported k
    | .mustBeFound => if k < ntasks ∧ steps k ≠ 0 then some k else none
    | .barrier => if k = 0 ∧ 2 ≤ steps 0 then some 0 else none
    | .pass _ _ => none
  arrived k := k < ntasks ∧ 2 ≤ steps k

/-- Where a task waits in pass number t, when the tasks at the places below m have exported the pointer. -/
def waitsAt (ntasks niters t m k : ℕ) : Pc :=
  if k = 0 then .pass (t / 2) (directionOf t) .import
  else beginPass niters (if place ntasks k (directionOf t) < m then t + 1 else t) k

/-- Pass number t, when the tasks at the places below m have exported the pointer, with one active task. -/
def ring (ntasks niters t m active : ℕ) (pc : Pc) (value : ℤ) : State where
  pc k := if k < ntasks then if k = active then pc else waitsAt ntasks niters t m k else .magic
  count k := if k = 0 then value else if k < ntasks then magic else 0
  exported k
    | .mustBeFound => if k < ntasks then some k else none
    | .barrier => if k = 0 then some 0 else none
    | .pass d i =>
      if k < ntasks ∧ (passNo i d < t ∨ passNo i d = t ∧ place ntasks k d < m) then some 0 else none
  arrived k := k < ntasks

section Arithmetic
variable {ntasks niters t m k : ℕ} {d : Direction}

lemma passNo_of (t : ℕ) : passNo (t / 2) (directionOf t) = t := by
  obtain h | h := Nat.mod_two_eq_zero_or_one t
  · simp only [directionOf, h, if_true, passNo]
    omega
  · simp only [directionOf, h, one_ne_zero, if_false, passNo]
    omega

lemma passNo_eq_iff (i : ℕ) : passNo i d = t ↔ d = directionOf t ∧ i = t / 2 := by
  constructor
  · rintro rfl
    cases d with
    | forward => simp [passNo, directionOf]
    | backward =>
      have hmod : (2 * i + 1) % 2 = 1 := by omega
      have hdiv : i = (2 * i + 1) / 2 := by omega
      simp [passNo, directionOf, hmod, ← hdiv]
  · rintro ⟨rfl, rfl⟩
    exact passNo_of t

lemma afterPass_eq (ht : t < 2 * niters) (k : ℕ) :
    afterPass niters k (t / 2) (directionOf t) = beginPass niters (t + 1) k := by
  obtain h | h := Nat.mod_two_eq_zero_or_one t
  · have hsucc : (t + 1) % 2 = 1 := by omega
    have hdiv : (t + 1) / 2 = t / 2 := by omega
    have hlt : t + 1 < 2 * niters := by omega
    simp [directionOf, h, hsucc, afterPass, beginPass, hdiv, hlt]
  · have hsucc : (t + 1) % 2 = 0 := by omega
    have hdiv : (t + 1) / 2 = t / 2 + 1 := by omega
    have hlt : t / 2 + 1 < niters ↔ t + 1 < 2 * niters := by omega
    simp [directionOf, h, hsucc, afterPass, beginPass, hdiv, hlt]

lemma place_lt (hk : k < ntasks) : place ntasks k d < ntasks := by
  cases d with
  | forward => exact hk
  | backward =>
    simp only [place]
    split_ifs <;> omega

lemma place_pos (hk : k < ntasks) (h0 : k ≠ 0) : 0 < place ntasks k d := by
  cases d with
  | forward => exact Nat.pos_of_ne_zero h0
  | backward =>
    simp only [place, if_neg h0]
    omega

lemma place_inj {k' : ℕ} (hk : k < ntasks) (hk' : k' < ntasks) (h : place ntasks k d = place ntasks k' d) :
    k = k' := by
  cases d with
  | forward => exact h
  | backward =>
    simp only [place] at h
    split_ifs at h <;> omega

lemma taskAt_lt (hm : m < ntasks) : taskAt ntasks m d < ntasks := by
  cases d with
  | forward => exact hm
  | backward =>
    simp only [taskAt]
    split_ifs <;> omega

lemma place_taskAt (hm : m < ntasks) : place ntasks (taskAt ntasks m d) d = m := by
  cases d with
  | forward => rfl
  | backward =>
    simp only [place, taskAt]
    split_ifs <;> omega

lemma source_lt (hk : k < ntasks) : source ntasks k d < ntasks := by
  cases d <;> simp only [source, prev, next] <;> split_ifs <;> omega

/-- The pointer comes from the task at the place before, and to task 0 from the one at the last place. -/
lemma place_source (htwo : 2 ≤ ntasks) (hk : k < ntasks) : place ntasks (source ntasks k d) d =
    if k = 0 then ntasks - 1 else place ntasks k d - 1 := by
  cases d with
  | forward => simp only [source, prev, place]
  | backward =>
    obtain h0 | hlast | ⟨h0, hlast⟩ : k = 0 ∨ k = ntasks - 1 ∨ k ≠ 0 ∧ k ≠ ntasks - 1 := by omega
    · have hne : 0 ≠ ntasks - 1 := by omega
      simp [source, next, place, h0, hne]
    · have hne : ntasks - 1 ≠ 0 := by omega
      simp only [source, next, place, hlast, if_true, if_neg hne]
      omega
    · simp only [source, next, place, if_neg hlast, if_neg h0, if_neg (Nat.succ_ne_zero k)]
      omega

end Arithmetic

/-- The states that a run goes through. -/
inductive Token (ntasks niters : ℕ) : State → Prop
  | prelude (steps : ℕ → ℕ) (hwait : ∃ k < ntasks, steps k < 2) : Token ntasks niters (prelude ntasks niters steps)
  | reset (t : ℕ) (value : ℤ) (ht : t ≤ 2 * niters) :
    Token ntasks niters (ring ntasks niters t 0 0 (beginPass niters t 0) value)
  | export0 (t : ℕ) (ht : t < 2 * niters) :
    Token ntasks niters (ring ntasks niters t 0 0 (.pass (t / 2) (directionOf t) (.export 0)) 1)
  | relay (t m : ℕ) (stage : Stage) (value : ℤ) (ht : t < 2 * niters) (h0 : 0 < m) (hm : m < ntasks)
    (hstage : (stage = .import ∨ stage = .load 0 ∨ stage = .store 0 m) ∧ value = m ∨
      stage = .export 0 ∧ value = m + 1) :
    Token ntasks niters (ring ntasks niters t m (taskAt ntasks m (directionOf t))
      (.pass (t / 2) (directionOf t) stage) value)
  | back (t : ℕ) (stage : Stage) (ht : t < 2 * niters)
    (hstage : stage = .import ∨ stage = .checkPointer 0 ∨ stage = .checkCount 0) :
    Token ntasks niters (ring ntasks niters t ntasks 0 (.pass (t / 2) (directionOf t) stage) ntasks)

section Steps
variable {ntasks niters t m a k : ℕ} {s s' : State} {pc pc' : Pc} {value value' : ℤ}

lemma ring_pc_active (ha : a < ntasks) : (ring ntasks niters t m a pc value).pc a = pc := by
  simp [ring, ha]

lemma ring_pc_waits (hk : k < ntasks) (hne : k ≠ a) :
    (ring ntasks niters t m a pc value).pc k = waitsAt ntasks niters t m k := by
  simp [ring, hk, hne]

@[simp] lemma ring_arrived : (ring ntasks niters t m a pc value).arrived k = decide (k < ntasks) := rfl

@[simp] lemma ring_count_zero : (ring ntasks niters t m a pc value).count 0 = value := rfl

lemma ring_exported (d : Direction) (i : ℕ) : (ring ntasks niters t m a pc value).exported k (.pass d i) =
    if k < ntasks ∧ (passNo i d < t ∨ passNo i d = t ∧ place ntasks k d < m) then some 0 else none := rfl

lemma ring_goTo (ha : a < ntasks) : (ring ntasks niters t m a pc value).goTo a pc' =
    ring ntasks niters t m a pc' value := by
  ext k : 2 <;> simp only [ring, State.goTo]
  by_cases hk : k = a
  · subst hk
    simp [ha]
  · simp [hk]

lemma ring_setCount : (ring ntasks niters t m a pc value).setCount 0 value' =
    ring ntasks niters t m a pc value' := by
  ext k : 2 <;> simp only [ring, State.setCount]
  by_cases hk : k = 0 <;> simp [hk]

/-- When the active task waits like the others, any task may count as the active one. -/
lemma ring_active_eq (a' : ℕ) : ring ntasks niters t m a (waitsAt ntasks niters t m a) value =
    ring ntasks niters t m a' (waitsAt ntasks niters t m a') value := by
  have hpc : ∀ a k, (ring ntasks niters t m a (waitsAt ntasks niters t m a) value).pc k =
      if k < ntasks then waitsAt ntasks niters t m k else .magic := by
    intro a k
    simp only [ring]
    obtain rfl | hk := eq_or_ne k a <;> simp [*]
  ext k : 2
  · rw [hpc, hpc]
  all_goals rfl

/-- With its export the active task waits too. -/
lemma ring_export (hm : m < ntasks) (ha : a = taskAt ntasks m (directionOf t)) :
    (pipNamedExport a (.pass (directionOf t) (t / 2)) 0 (ring ntasks niters t m a pc value)).goTo a
      (waitsAt ntasks niters t (m + 1) a) =
        ring ntasks niters t (m + 1) a (waitsAt ntasks niters t (m + 1) a) value := by
  have halt : a < ntasks := ha ▸ taskAt_lt hm
  have hplace : place ntasks a (directionOf t) = m := ha ▸ place_taskAt hm
  have hplacene : ∀ k < ntasks, k ≠ a → place ntasks k (directionOf t) ≠ m :=
    fun k hk hne h => hne (place_inj hk halt (h.trans hplace.symm))
  ext k : 2
  · simp only [ring, State.goTo, pipNamedExport]
    obtain rfl | hk := eq_or_ne k a
    · simp [halt]
    · by_cases hlt : k < ntasks
      · have hiff : place ntasks k (directionOf t) < m + 1 ↔ place ntasks k (directionOf t) < m := by
          have hne := hplacene k hlt hk
          omega
        simp [hk, hlt, waitsAt, hiff]
      · simp [hk, hlt]
  · rfl
  · funext name
    simp only [ring, State.goTo, pipNamedExport]
    obtain rfl | hk := eq_or_ne k a
    · cases name with
      | mustBeFound => simp
      | barrier => simp
      | pass d i =>
        by_cases hpass : passNo i d = t
        · obtain ⟨rfl, rfl⟩ := passNo_eq_iff i |>.mp hpass
          simp [passNo_of, halt, hplace]
        · have hname : ¬ (d = directionOf t ∧ i = t / 2) := fun h => hpass ((passNo_eq_iff i).mpr h)
          simp [hname, hpass]
    · rw [Function.update_of_ne hk]
      cases name with
      | mustBeFound => rfl
      | barrier => rfl
      | pass d i =>
        by_cases hpass : passNo i d = t
        · obtain ⟨rfl, rfl⟩ := passNo_eq_iff i |>.mp hpass
          by_cases hlt : k < ntasks
          · have hne := hplacene k hlt hk
            have hiff : place ntasks k (directionOf t) < m + 1 ↔ place ntasks k (directionOf t) < m := by omega
            simp [hiff]
          · simp [hlt]
        · simp [hpass]
  · rfl

/-- When the pointer is back at task 0 and checked, the next pass begins. -/
lemma ring_succ : ring ntasks niters t ntasks 0 pc value = ring ntasks niters (t + 1) 0 0 pc value := by
  ext k : 2
  · simp only [ring]
    by_cases hlt : k < ntasks
    · obtain rfl | hk := eq_or_ne k 0
      · simp
      · simp [hlt, hk, waitsAt, place_lt hlt]
    · simp [hlt]
  · rfl
  · funext name
    cases name with
    | mustBeFound => rfl
    | barrier => rfl
    | pass d i =>
      by_cases hlt : k < ntasks
      · have hiff : passNo i d < t ∨ passNo i d = t ↔ passNo i d < t + 1 := by omega
        simp [ring_exported, hlt, place_lt hlt, hiff]
      · simp [ring_exported, hlt]
  · rfl

lemma step_ring {i : ℕ} {d : Direction} {stage : Stage} (ha : a < ntasks) :
    step ntasks niters (ring ntasks niters t m a (.pass i d stage) value) a =
      passStep ntasks niters a i d (ring ntasks niters t m a (.pass i d stage) value) stage := by
  simp [step, ha, ring_pc_active ha]

/-- Who waits for a pointer that is not exported yet does nothing. -/
lemma step_waits (htwo : 2 ≤ ntasks) (hne : k ≠ a) (hzero : k = 0 → m < ntasks)
    (hplace : k < ntasks → k ≠ 0 → place ntasks k (directionOf t) ≠ m) :
    step ntasks niters (ring ntasks niters t m a pc value) k = none := by
  by_cases hk : k < ntasks
  swap
  · simp [step, hk]
  have himport : ∀ {i d}, (ring ntasks niters t m a pc value).exported (source ntasks k d) (.pass d i) = none →
      passStep ntasks niters k i d (ring ntasks niters t m a pc value) .import = none := by
    intro i d hnone
    simp only [passStep, hnone]
  have hblocked : ∀ t', t ≤ t' → (t' = t → ¬ place ntasks (source ntasks k (directionOf t')) (directionOf t') < m) →
      (ring ntasks niters t m a pc value).exported (source ntasks k (directionOf t'))
        (.pass (directionOf t') (t' / 2)) = none := by
    intro t' hle hnot
    have hfalse : ¬ (t' < t ∨ t' = t ∧ place ntasks (source ntasks k (directionOf t')) (directionOf t') < m) := by
      rintro (hlt | ⟨heq, hlt⟩)
      · omega
      · exact hnot heq hlt
    simp only [ring_exported, passNo_of, hfalse, and_false, if_false]
  obtain rfl | h0 := eq_or_ne k 0
  · have hpc : (ring ntasks niters t m a pc value).pc 0 = .pass (t / 2) (directionOf t) .import := by
      rw [ring_pc_waits hk hne, waitsAt, if_pos rfl]
    have hlast : ¬ place ntasks (source ntasks 0 (directionOf t)) (directionOf t) < m := by
      rw [place_source htwo hk, if_pos rfl]
      have := hzero rfl
      omega
    simp [step, hk, hpc, himport (hblocked t le_rfl fun _ => hlast)]
  · have hpos := place_pos (d := directionOf t) hk h0
    have hnot : ∀ t', (t' = if place ntasks k (directionOf t) < m then t + 1 else t) →
        step ntasks niters (ring ntasks niters t m a pc value) k = none := by
      intro t' ht'
      have hpc : (ring ntasks niters t m a pc value).pc k = beginPass niters t' k := by
        rw [ring_pc_waits hk hne, waitsAt, if_neg h0, ht']
      have hnone := hblocked t' (by split_ifs at ht' <;> omega) fun heq => by
        subst heq
        rw [place_source htwo hk, if_neg h0]
        have := hplace hk h0
        split_ifs at ht' <;> omega
      by_cases hlt : t' < 2 * niters
      · simp [step, hk, hpc, beginPass, hlt, firstStage, h0, himport hnone]
      · simp [step, hk, hpc, beginPass, hlt]
    exact hnot _ rfl

lemma taskAt_zero (ntasks : ℕ) (d : Direction) : taskAt ntasks 0 d = 0 := by cases d <;> rfl

/-- The task at the place of the pointer is the only one that can do a step; behind the last place it is
task 0. -/
lemma active_of_step (htwo : 2 ≤ ntasks)
    (ha : m < ntasks ∧ a = taskAt ntasks m (directionOf t) ∨ m = ntasks ∧ a = 0)
    (hstep : step ntasks niters (ring ntasks niters t m a pc value) k = some s') : k = a := by
  by_contra hne
  rw [step_waits htwo hne] at hstep
  · cases hstep
  · rintro rfl
    obtain ⟨hm, -⟩ | ⟨-, rfl⟩ := ha
    · exact hm
    · exact absurd rfl hne
  · intro hk _ hplace
    obtain ⟨hm, rfl⟩ | ⟨rfl, rfl⟩ := ha
    · exact hne (place_inj hk (taskAt_lt hm) (hplace.trans (place_taskAt hm).symm))
    · exact absurd hplace (place_lt hk).ne

lemma taskAt_ne_zero (h0 : 0 < m) (hm : m < ntasks) {d : Direction} : taskAt ntasks m d ≠ 0 := by
  cases d with
  | forward => exact h0.ne'
  | backward =>
    simp only [taskAt, if_neg h0.ne']
    omega

/-- At the place of the pointer it is exported by the task before. -/
lemma ring_source (htwo : 2 ≤ ntasks)
    (ha : (0 < m ∧ m < ntasks) ∧ a = taskAt ntasks m (directionOf t) ∨ m = ntasks ∧ a = 0) :
    (ring ntasks niters t m a pc value).exported (source ntasks a (directionOf t))
      (.pass (directionOf t) (t / 2)) = some 0 := by
  obtain ⟨⟨h0, hm⟩, rfl⟩ | ⟨rfl, rfl⟩ := ha
  · have hlt : m - 1 < m := by omega
    simp [ring_exported, passNo_of, source_lt (taskAt_lt hm), place_source htwo (taskAt_lt hm),
      taskAt_ne_zero h0 hm, place_taskAt hm, hlt]
  · have hpos : 0 < m := by omega
    simp [ring_exported, passNo_of, source_lt hpos, place_source htwo hpos, hpos]

lemma beginPass_zero (niters k : ℕ) :
    beginPass niters 0 k = if 0 < niters then .pass 0 .forward (firstStage k) else .finalBarrier := by
  simp [beginPass, directionOf]

section Prelude
variable {steps : ℕ → ℕ}

lemma start_eq : start = prelude ntasks niters fun _ => 0 := by
  ext k : 2
  · simp [start, prelude]
  · simp [start, prelude]
  · funext name
    cases name <;> simp [start, prelude]
  · simp [start, prelude]

lemma prelude_magic (hk : k < ntasks) (hsteps : steps k = 0) :
    (pipNamedExport k .mustBeFound k ((prelude ntasks niters steps).setCount k magic)).goTo k .namedBarrier =
      prelude ntasks niters (Function.update steps k 1) := by
  ext k' : 2 <;> simp only [prelude, State.goTo, pipNamedExport, State.setCount]
  · obtain rfl | hne := eq_or_ne k' k <;> simp [*]
  · obtain rfl | hne := eq_or_ne k' k <;> simp [*]
  · funext name
    obtain rfl | hne := eq_or_ne k' k
    · cases name with
      | mustBeFound => simp [hk]
      | barrier =>
        have : ¬ (k' = 0 ∧ 2 ≤ steps 0) := by
          rintro ⟨rfl, htwo⟩
          omega
        obtain rfl | h0 := eq_or_ne k' 0 <;> simp [*]
      | pass d i => simp
    · cases name with
      | mustBeFound => simp [hne]
      | barrier =>
        obtain rfl | h0 := eq_or_ne k' 0 <;> simp [*]
      | pass d i => simp [hne]
  · obtain rfl | hne := eq_or_ne k' k <;> simp [*]

lemma prelude_arrive (hk : k < ntasks) (hsteps : steps k = 1) (s : State)
    (hs : s = if k = 0 then pipNamedExport 0 .barrier 0 (prelude ntasks niters steps)
      else prelude ntasks niters steps) :
    State.goTo { s with arrived := Function.update s.arrived k true } k (beginPass niters 0 k) =
      prelude ntasks niters (Function.update steps k 2) := by
  subst hs
  ext k' : 2 <;> simp only [prelude, State.goTo, pipNamedExport]
  · obtain rfl | h0 := eq_or_ne k 0
    · obtain rfl | hne := eq_or_ne k' 0 <;> simp [*]
    · obtain rfl | hne := eq_or_ne k' k <;> simp [*]
  · obtain rfl | h0 := eq_or_ne k 0
    · obtain rfl | hne := eq_or_ne k' 0 <;> simp [*]
    · obtain rfl | hne := eq_or_ne k' k <;> simp [*]
  · funext name
    obtain rfl | h0 := eq_or_ne k 0
    · obtain rfl | hne := eq_or_ne k' 0 <;> cases name <;> simp [*]
    · have h0' := h0.symm
      obtain rfl | hne := eq_or_ne k' k <;> cases name <;> simp [*]
  · obtain rfl | h0 := eq_or_ne k 0
    · obtain rfl | hne := eq_or_ne k' 0 <;> simp [*]
    · obtain rfl | hne := eq_or_ne k' k <;> simp [*]

/-- When the last task is in the barrier, all are behind it. -/
lemma prelude_eq_ring (hpos : 0 < ntasks) (hall : ∀ k < ntasks, 2 ≤ steps k) :
    prelude ntasks niters steps = ring ntasks niters 0 0 0 (beginPass niters 0 0) magic := by
  have hzero : ∀ k < ntasks, steps k ≠ 0 ∧ steps k ≠ 1 := fun k hk => by
    have := hall k hk
    omega
  ext k : 2
  · by_cases hk : k < ntasks
    · obtain rfl | h0 := eq_or_ne k 0 <;> simp [prelude, ring, waitsAt, *]
    · simp [prelude, ring, hk]
  · by_cases hk : k < ntasks
    · simp [prelude, ring, hk, hzero k hk]
    · simp [prelude, ring, hk, show k ≠ 0 by omega]
  · funext name
    cases name with
    | mustBeFound =>
      by_cases hk : k < ntasks <;> simp [prelude, ring, hk]
      exact (hzero k hk).1
    | barrier => simp [prelude, ring, hall 0 hpos]
    | pass d i => simp [prelude, ring]
  · simp only [prelude, ring]
    by_cases hk : k < ntasks <;> simp [hk, hall]

/-- A task goes on to the barrier, and behind it only when all are there. -/
lemma prelude_step (hwait : ∃ k < ntasks, steps k < 2)
    (hstep : step ntasks niters (prelude ntasks niters steps) k = some s') :
    k < ntasks ∧ ∃ steps', s' = prelude ntasks niters steps' := by
  by_cases hk : k < ntasks
  swap
  · simp [step, hk] at hstep
  refine ⟨hk, ?_⟩
  have hpc : (prelude ntasks niters steps).pc k =
      if steps k = 0 then .magic else if steps k = 1 then .namedBarrier else beginPass niters 0 k := by
    simp [prelude, hk]
  obtain h0 | h1 | h2 : steps k = 0 ∨ steps k = 1 ∨ 2 ≤ steps k := by omega
  · rw [if_pos h0] at hpc
    simp only [step, hk, if_true, hpc, Option.some.injEq, prelude_magic hk h0] at hstep
    exact ⟨_, hstep.symm⟩
  · rw [if_neg (by omega), if_pos h1] at hpc
    simp only [step, hk, if_true, hpc, ← beginPass_zero] at hstep
    have harrive : State.goTo _ k (beginPass niters 0 k) = prelude ntasks niters _ := prelude_arrive hk h1 _ rfl
    split_ifs at hstep with hk0 hexported
    · rw [if_pos hk0] at harrive
      exact ⟨_, (Option.some.inj hstep).symm.trans harrive⟩
    · rw [if_neg hk0] at harrive
      exact ⟨_, (Option.some.inj hstep).symm.trans harrive⟩
  · rw [if_neg (by omega), if_neg (by omega)] at hpc
    have hnot : ¬ ∀ k' < ntasks, (prelude ntasks niters steps).arrived k' = true := by
      intro hall
      obtain ⟨k', hk', hlt⟩ := hwait
      have := hall k' hk'
      simp only [prelude, decide_eq_true_eq] at this
      omega
    simp only [step, hk, if_true, hpc, beginPass] at hstep
    split_ifs at hstep

end Prelude

lemma reset_token (ht : t ≤ 2 * niters) (value : ℤ) :
    Token ntasks niters (ring ntasks niters t 0 0 (beginPass niters t 0) value) := .reset t value ht

lemma prelude_token (hpos : 0 < ntasks) (steps : ℕ → ℕ) : Token ntasks niters (prelude ntasks niters steps) := by
  by_cases hwait : ∃ k < ntasks, steps k < 2
  · exact .prelude steps hwait
  · rw [prelude_eq_ring hpos fun k hk => not_lt.mp fun hlt => hwait ⟨k, hk, hlt⟩]
    exact reset_token (Nat.zero_le _) _

/-- Behind an export comes the import at the next place. -/
lemma relay_token (ht : t < 2 * niters) (h0 : 0 < m) (hm : m ≤ ntasks) :
    Token ntasks niters (ring ntasks niters t m a (waitsAt ntasks niters t m a) m) := by
  obtain hlt | rfl := Nat.lt_or_eq_of_le hm
  · rw [ring_active_eq (taskAt ntasks m (directionOf t))]
    have hne : taskAt ntasks m (directionOf t) ≠ 0 := taskAt_ne_zero h0 hlt
    have hwaits : waitsAt ntasks niters t m (taskAt ntasks m (directionOf t)) =
        .pass (t / 2) (directionOf t) .import := by
      simp [waitsAt, hne, place_taskAt hlt, beginPass, ht, firstStage]
    rw [hwaits]
    exact .relay t m .import m ht h0 hlt (.inl ⟨.inl rfl, rfl⟩)
  · rw [ring_active_eq 0]
    exact .back t .import ht (.inl rfl)

/-- Whoever has the pointer passes it on, and nobody else can do anything. -/
theorem token_step (htwo : 2 ≤ ntasks) (htoken : Token ntasks niters s) (hstep : step ntasks niters s k = some s') :
    Token ntasks niters s' := by
  have hpos : 0 < ntasks := by omega
  cases htoken with
  | prelude steps hwait =>
    obtain ⟨-, steps', rfl⟩ := prelude_step hwait hstep
    exact prelude_token hpos steps'
  | reset t value ht =>
    obtain rfl := active_of_step htwo (.inl ⟨hpos, (taskAt_zero _ _).symm⟩) hstep
    obtain hlt | rfl := Nat.lt_or_eq_of_le ht
    · simp only [beginPass, hlt, if_true, step_ring hpos, firstStage, passStep, ring_setCount, ring_goTo hpos,
        Option.some.injEq] at hstep
      rw [← hstep]
      exact .export0 t hlt
    · simp [step, hpos, ring_pc_active hpos, beginPass] at hstep
  | export0 t ht =>
    obtain rfl := active_of_step htwo (.inl ⟨hpos, (taskAt_zero _ _).symm⟩) hstep
    have hwaits : waitsAt ntasks niters t 1 0 = .pass (t / 2) (directionOf t) .import := by simp [waitsAt]
    simp only [step_ring hpos, passStep, if_true, ← hwaits, Option.some.injEq,
      ring_export hpos (taskAt_zero _ _).symm] at hstep
    rw [← hstep]
    exact relay_token (m := 1) ht one_pos hpos
  | relay t m stage value ht h0 hm hstage =>
    obtain rfl := active_of_step htwo (.inl ⟨hm, rfl⟩) hstep
    have ha := taskAt_lt (d := directionOf t) hm
    have hne : taskAt ntasks m (directionOf t) ≠ 0 := taskAt_ne_zero h0 hm
    rw [step_ring ha] at hstep
    obtain ⟨rfl | rfl | rfl, rfl⟩ | ⟨rfl, rfl⟩ := hstage
    · simp only [passStep, ring_source htwo (.inl ⟨⟨h0, hm⟩, rfl⟩), if_neg hne, ring_goTo ha,
        Option.some.injEq] at hstep
      rw [← hstep]
      exact .relay t m _ _ ht h0 hm (.inl ⟨.inr (.inl rfl), rfl⟩)
    · simp only [passStep, ring_count_zero, ring_goTo ha, Option.some.injEq] at hstep
      rw [← hstep]
      exact .relay t m _ _ ht h0 hm (.inl ⟨.inr (.inr rfl), rfl⟩)
    · simp only [passStep, ring_setCount, ring_goTo ha, Option.some.injEq] at hstep
      rw [← hstep]
      exact .relay t m _ _ ht h0 hm (.inr ⟨rfl, rfl⟩)
    · have hwaits : waitsAt ntasks niters t (m + 1) (taskAt ntasks m (directionOf t)) =
          afterPass niters (taskAt ntasks m (directionOf t)) (t / 2) (directionOf t) := by
        simp [waitsAt, hne, place_taskAt hm, afterPass_eq ht]
      simp only [passStep, if_neg hne, ← hwaits, ring_export hm rfl, Option.some.injEq] at hstep
      rw [← hstep]
      exact_mod_cast relay_token (m := m + 1) ht (Nat.succ_pos m) hm
  | back t stage ht hstage =>
    obtain rfl := active_of_step htwo (.inr ⟨rfl, rfl⟩) hstep
    rw [step_ring hpos] at hstep
    obtain rfl | rfl | rfl := hstage
    · simp only [passStep, ring_source htwo (.inr ⟨rfl, rfl⟩), if_true, ring_goTo hpos, Option.some.injEq] at hstep
      rw [← hstep]
      exact .back t _ ht (.inr (.inl rfl))
    · simp only [passStep, ne_eq, not_true, if_false, ring_goTo hpos, Option.some.injEq] at hstep
      rw [← hstep]
      exact .back t _ ht (.inr (.inr rfl))
    · simp only [passStep, ring_count_zero, ne_eq, not_true, if_false, ring_goTo hpos, Option.some.injEq,
        ring_succ, afterPass_eq ht] at hstep
      rw [← hstep]
      exact reset_token ht _

theorem run_token (htwo : 2 ≤ ntasks) (schedule : List ℕ) : Token ntasks niters (run ntasks niters schedule) := by
  refine Interleaving.run_inv ?_ (fun _ _ _ htoken hstep => token_step htwo htoken hstep) schedule
  rw [start_eq]
  exact prelude_token (by omega) _

end Steps

/-- Counter p is read or written by the next step of task k. -/
def State.accesses (s : State) (k p : ℕ) : Prop :=
  match s.pc k with
  | .pass _ _ .reset => p = k
  | .pass _ _ (.checkCount cp) => p = cp
  | .pass _ _ (.load countp) => p = countp
  | .pass _ _ (.store countp _) => p = countp
  | _ => False

/-- A task has the pointer from its import, and task 0 from the reset, until the export. -/
def State.hasPointer (s : State) (k : ℕ) : Prop := ∃ i d stage, s.pc k = .pass i d stage ∧ stage ≠ .import

/-- How many of its steps in a pass a task has left. -/
def Stage.left (k : ℕ) : Stage → ℕ
  | .load _ => if k = 0 then 7 else 3
  | .store _ _ => if k = 0 then 6 else 2
  | .reset => 5
  | .export _ => if k = 0 then 4 else 1
  | .import => if k = 0 then 3 else 4
  | .checkPointer _ => 2
  | .checkCount _ => 1

/-- How many steps a task has at most left. -/
def Pc.left (niters k : ℕ) : Pc → ℕ
  | .magic => 16 * niters + 17
  | .namedBarrier => 16 * niters + 16
  | .pass i .forward stage => 16 * (niters - i) + 8 + stage.left k
  | .pass i .backward stage => 16 * (niters - i) + stage.left k
  | .finalBarrier | .failed => 0

def State.work (ntasks niters : ℕ) (s : State) : ℕ := ∑ k ∈ Finset.range ntasks, (s.pc k).left niters k

/-- How many passes a task has behind it. -/
def Pc.passed (niters : ℕ) : Pc → ℕ
  | .magic | .namedBarrier | .failed => 0
  | .pass i d _ => passNo i d
  | .finalBarrier => 2 * niters

/-- Only the counter of task 0 is used, by one task at a time, and nobody else has the pointer meanwhile;
task 0 gets back its own pointer, to a full count. Somebody can go on until all are at the barrier, and no run goes
on for ever. -/
structure RingSafe (ntasks niters : ℕ) (s : State) : Prop where
  counter : ∀ k p, s.accesses k p → p = 0 ∧ s.hasPointer k
  oneTask : ∀ k k', s.hasPointer k → s.hasPointer k' → k = k'
  ownPointer : ∀ i d cp, s.pc 0 = .pass i d (.checkPointer cp) → cp = 0 ∧ s.count cp = ntasks
  fullCount : ∀ i d cp, s.pc 0 = .pass i d (.checkCount cp) → cp = 0 ∧ s.count cp = ntasks
  ok : ∀ k, s.pc k ≠ .failed
  goesOn : (∀ k < ntasks, s.pc k = .finalBarrier) ∨ ∃ k s', step ntasks niters s k = some s'
  ends : ∀ k s', step ntasks niters s k = some s' → s'.work ntasks niters < s.work ntasks niters
  finishes : ∃ more, ∀ k < ntasks, (Interleaving.run (step ntasks niters) s more).pc k = .finalBarrier

/-- Where a task is that has no pointer. -/
def Pc.idle : Pc → Prop
  | .pass _ _ stage => stage = .import
  | .failed => False
  | _ => True

/-- What a task does that has the pointer. -/
def InTurn (ntasks : ℕ) (value : ℤ) (a : ℕ) (stage : Stage) : Prop :=
  a = 0 ∧ stage = .reset ∨ (stage = .load 0 ∨ (∃ v, stage = .store 0 v) ∨ stage = .export 0) ∨
    a = 0 ∧ value = ntasks ∧ (stage = .checkPointer 0 ∨ stage = .checkCount 0)

/-- Where the active task is. -/
def Active (ntasks : ℕ) (value : ℤ) (a : ℕ) (pc : Pc) : Prop :=
  pc.idle ∨ ∃ i d stage, pc = .pass i d stage ∧ InTurn ntasks value a stage

section Ring
variable {ntasks niters t m a k : ℕ} {s : State} {pc : Pc} {value : ℤ}

lemma beginPass_idle (t : ℕ) (h0 : k ≠ 0) : (beginPass niters t k).idle := by
  unfold beginPass firstStage
  split_ifs <;> simp [Pc.idle]

lemma ring_idle (hne : k ≠ a) : ((ring ntasks niters t m a pc value).pc k).idle := by
  by_cases hk : k < ntasks
  · rw [ring_pc_waits hk hne, waitsAt]
    split_ifs with h0
    · rfl
    all_goals exact beginPass_idle _ h0
  · simp [ring, hk, Pc.idle]

lemma beginPass_active (t : ℕ) (value : ℤ) : Active ntasks value 0 (beginPass niters t 0) := by
  unfold beginPass
  split_ifs
  · exact .inr ⟨_, _, _, rfl, .inl ⟨rfl, rfl⟩⟩
  · exact .inl trivial

lemma prelude_active (steps : ℕ → ℕ) : (∀ k ≠ 0, ((prelude ntasks niters steps).pc k).idle) ∧
    Active ntasks ((prelude ntasks niters steps).count 0) 0 ((prelude ntasks niters steps).pc 0) := by
  constructor
  · intro k h0
    simp only [prelude]
    split_ifs
    · trivial
    · trivial
    · exact beginPass_idle 0 h0
    · trivial
  · generalize (prelude ntasks niters steps).count 0 = value
    simp only [prelude]
    split_ifs
    · exact .inl trivial
    · exact .inl trivial
    · exact beginPass_active 0 _
    · exact .inl trivial

lemma Token.active (h : Token ntasks niters s) (hpos : 0 < ntasks) :
    ∃ a, (∀ k ≠ a, (s.pc k).idle) ∧ Active ntasks (s.count 0) a (s.pc a) := by
  cases h with
  | prelude steps hwait => exact ⟨0, prelude_active steps⟩
  | reset t value ht => exact ⟨0, fun k hk => ring_idle hk, ring_pc_active hpos ▸ beginPass_active t _⟩
  | export0 t ht =>
    refine ⟨0, fun k hk => ring_idle hk, ?_⟩
    rw [ring_pc_active hpos]
    exact .inr ⟨_, _, _, rfl, .inr (.inl (.inr (.inr rfl)))⟩
  | relay t m stage value ht h0 hm hstage =>
    refine ⟨_, fun k hk => ring_idle hk, ?_⟩
    rw [ring_pc_active (taskAt_lt hm)]
    obtain ⟨rfl | rfl | rfl, -⟩ | ⟨rfl, -⟩ := hstage
    · exact .inl rfl
    · exact .inr ⟨_, _, _, rfl, .inr (.inl (.inl rfl))⟩
    · exact .inr ⟨_, _, _, rfl, .inr (.inl (.inr (.inl ⟨_, rfl⟩)))⟩
    · exact .inr ⟨_, _, _, rfl, .inr (.inl (.inr (.inr rfl)))⟩
  | back t stage ht hstage =>
    refine ⟨0, fun k hk => ring_idle hk, ?_⟩
    rw [ring_pc_active hpos]
    obtain rfl | hstage := hstage
    · exact .inl rfl
    · exact .inr ⟨_, _, _, rfl, .inr (.inr ⟨rfl, rfl, hstage⟩)⟩

lemma goesOn_of_ne_none (h : step ntasks niters s k ≠ none) : ∃ k s', step ntasks niters s k = some s' := by
  obtain ⟨s', hs⟩ := Option.ne_none_iff_exists'.mp h
  exact ⟨k, s', hs⟩

lemma passStep_ne_none {i : ℕ} {d : Direction} {stage : Stage} (hstage : stage ≠ .import) :
    passStep ntasks niters k i d s stage ≠ none := by
  cases stage <;> first | contradiction | simp [passStep]

/-- Before the first barrier task 0 can go on until it has exported the barrier, and then the others. -/
lemma prelude_goesOn {steps : ℕ → ℕ} (hpos : 0 < ntasks) (hwait : ∃ k < ntasks, steps k < 2) :
    ∃ k s', step ntasks niters (prelude ntasks niters steps) k = some s' := by
  have hstep : ∀ k < ntasks, steps k < 2 → (k = 0 ∨ 2 ≤ steps 0) →
      step ntasks niters (prelude ntasks niters steps) k ≠ none := by
    intro k hk hlt hbarrier
    have hpc : (prelude ntasks niters steps).pc k = if steps k = 0 then .magic else .namedBarrier := by
      have hiff : steps k = 1 ↔ steps k ≠ 0 := by omega
      simp only [prelude, hk, if_true, hiff]
      split_ifs <;> rfl
    by_cases h0 : steps k = 0
    · rw [if_pos h0] at hpc
      simp [step, hk, hpc]
    · rw [if_neg h0] at hpc
      obtain rfl | htwo := hbarrier
      · simp [step, hk, hpc]
      · obtain rfl | hk0 := eq_or_ne k 0
        · simp [step, hk, hpc]
        · have hexported : (prelude ntasks niters steps).exported 0 .barrier = some 0 := by simp [prelude, htwo]
          simp [step, hk, hpc, hk0, hexported]
  obtain ⟨k, hk, hlt⟩ := hwait
  by_cases hzero : steps 0 < 2
  · exact goesOn_of_ne_none (hstep 0 hpos hzero (.inl rfl))
  · exact goesOn_of_ne_none (hstep k hk hlt (.inr (not_lt.mp hzero)))

/-- Whoever has the pointer can go on. -/
lemma Token.goesOn (h : Token ntasks niters s) (htwo : 2 ≤ ntasks) :
    (∀ k < ntasks, s.pc k = .finalBarrier) ∨ ∃ k s', step ntasks niters s k = some s' := by
  have hpos : 0 < ntasks := by omega
  cases h with
  | prelude steps hwait => exact .inr (prelude_goesOn hpos hwait)
  | reset t value ht =>
    obtain hlt | rfl := Nat.lt_or_eq_of_le ht
    · refine .inr (goesOn_of_ne_none (k := 0) ?_)
      simp only [beginPass, hlt, if_true, step_ring hpos, firstStage]
      exact passStep_ne_none (by simp)
    · left
      intro k hk
      obtain rfl | h0 := eq_or_ne k 0
      · simp [ring_pc_active hpos, beginPass]
      · simp [ring_pc_waits hk h0, waitsAt, h0, beginPass]
  | export0 t ht =>
    refine .inr (goesOn_of_ne_none (k := 0) ?_)
    rw [step_ring hpos]
    exact passStep_ne_none (by simp)
  | relay t m stage value ht h0 hm hstage =>
    refine .inr (goesOn_of_ne_none (k := taskAt ntasks m (directionOf t)) ?_)
    rw [step_ring (taskAt_lt hm)]
    by_cases himport : stage = .import
    · simp [himport, passStep, ring_source htwo (.inl ⟨⟨h0, hm⟩, rfl⟩)]
    · exact passStep_ne_none himport
  | back t stage ht hstage =>
    refine .inr (goesOn_of_ne_none (k := 0) ?_)
    rw [step_ring hpos]
    by_cases himport : stage = .import
    · simp [himport, passStep, ring_source htwo (.inr ⟨rfl, rfl⟩)]
    · exact passStep_ne_none himport

/-- Where a step of a pass leads to: to a later stage of it, behind it, or to a failure. -/
lemma passStep_pc {i : ℕ} {d : Direction} {stage : Stage} {s' : State}
    (hstep : passStep ntasks niters k i d s stage = some s') :
    (∀ k' ≠ k, s'.pc k' = s.pc k') ∧ (s'.pc k = .failed ∨
      (∃ stage', s'.pc k = .pass i d stage' ∧ stage'.left k < stage.left k) ∨
      s'.pc k = afterPass niters k i d ∧ (k = 0 → ∃ cp, stage = .checkCount cp)) := by
  have hgoTo : ∀ (s₁ : State) (pc : Pc), s₁.pc = s.pc →
      (∀ k' ≠ k, (s₁.goTo k pc).pc k' = s.pc k') ∧ (s₁.goTo k pc).pc k = pc := by
    intro s₁ pc hpc
    exact ⟨fun k' hk' => by simp [State.goTo, hk', hpc], by simp [State.goTo]⟩
  -- to another stage of the pass
  have hstay : ∀ (s₁ : State) (stage' : Stage), s₁.pc = s.pc → stage'.left k < stage.left k →
      s' = s₁.goTo k (.pass i d stage') → (∀ k' ≠ k, s'.pc k' = s.pc k') ∧ (s'.pc k = .failed ∨
        (∃ stage', s'.pc k = .pass i d stage' ∧ stage'.left k < stage.left k) ∨
        s'.pc k = afterPass niters k i d ∧ (k = 0 → ∃ cp, stage = .checkCount cp)) := by
    rintro s₁ stage' hpc hlt rfl
    exact ⟨(hgoTo s₁ _ hpc).1, .inr (.inl ⟨stage', (hgoTo s₁ _ hpc).2, hlt⟩)⟩
  cases stage with
  | reset =>
    exact hstay (s.setCount k 1) (.export k) rfl (by simp only [Stage.left]; split_ifs <;> omega)
      (Option.some.inj hstep).symm
  | «export» countp =>
    obtain rfl | h0 := eq_or_ne k 0
    · exact hstay (pipNamedExport 0 (.pass d i) countp s) .import rfl (by simp [Stage.left])
        (Option.some.inj hstep).symm
    · obtain rfl := Option.some.inj hstep
      rw [if_neg h0]
      exact ⟨(hgoTo _ _ rfl).1, .inr (.inr ⟨(hgoTo _ _ rfl).2, fun h => absurd h h0⟩)⟩
  | «import» =>
    simp only [passStep] at hstep
    cases hexported : s.exported (source ntasks k d) (.pass d i) with
    | none => simp [hexported] at hstep
    | some p =>
      simp only [hexported, Option.some.injEq] at hstep
      refine hstay s (if k = 0 then .checkPointer p else .load p) rfl ?_ hstep.symm
      split_ifs with h0 <;> simp [Stage.left, h0]
  | checkPointer cp =>
    by_cases hcp : cp = k
    · exact hstay s (.checkCount cp) rfl (by simp [Stage.left]) (by simpa [passStep, hcp] using hstep.symm)
    · obtain rfl := Option.some.inj hstep
      rw [if_pos hcp]
      exact ⟨(hgoTo s _ rfl).1, .inl (hgoTo s _ rfl).2⟩
  | checkCount cp =>
    obtain rfl := Option.some.inj hstep
    refine ⟨(hgoTo s _ rfl).1, ?_⟩
    rw [(hgoTo s _ rfl).2]
    split_ifs
    · exact .inl rfl
    · exact .inr (.inr ⟨rfl, fun _ => ⟨cp, rfl⟩⟩)
  | load countp =>
    exact hstay s (.store countp (s.count countp)) rfl (by simp only [Stage.left]; split_ifs <;> omega)
      (Option.some.inj hstep).symm
  | store countp value =>
    exact hstay (s.setCount countp (value + 1)) (.export countp) rfl (by simp only [Stage.left]; split_ifs <;> omega)
      (Option.some.inj hstep).symm

lemma firstStage_left (k : ℕ) : (firstStage k).left k ≤ 5 := by
  unfold firstStage
  split_ifs with h0 <;> simp [Stage.left, h0]

/-- What is behind a pass is less than any stage of it. -/
lemma afterPass_left (i : ℕ) (d : Direction) (stage : Stage) :
    (afterPass niters k i d).left niters k < (Pc.pass i d stage).left niters k := by
  have hfirst := firstStage_left k
  have hpos : 0 < stage.left k := by
    cases stage <;> simp only [Stage.left] <;> (try split_ifs) <;> omega
  cases d with
  | forward =>
    simp only [afterPass, Pc.left]
    omega
  | backward =>
    simp only [afterPass]
    split_ifs
    · simp only [Pc.left]
      omega
    · simp only [Pc.left]
      omega

/-- A step of a task is one of those that it has left. -/
lemma step_left {s' : State} (hstep : step ntasks niters s k = some s') :
    k < ntasks ∧ (s'.pc k).left niters k < (s.pc k).left niters k ∧ ∀ k' ≠ k, s'.pc k' = s.pc k' := by
  have hk : k < ntasks := by
    by_contra hle
    simp [step, hle] at hstep
  simp only [step, hk, if_true] at hstep
  refine ⟨hk, ?_⟩
  have hfirst := firstStage_left k
  cases hpc : s.pc k with
  | magic =>
    simp only [hpc, Option.some.injEq] at hstep
    subst hstep
    refine ⟨by simp [State.goTo, Pc.left], fun k' hk' => by simp [State.goTo, pipNamedExport, State.setCount, hk']⟩
  | namedBarrier =>
    have hbegin : (if 0 < niters then Pc.pass 0 .forward (firstStage k) else .finalBarrier).left niters k <
        Pc.left niters k .namedBarrier := by
      split_ifs <;> simp only [Pc.left] <;> omega
    simp only [hpc] at hstep
    generalize (if 0 < niters then Pc.pass 0 .forward (firstStage k) else .finalBarrier) = pc at hstep hbegin
    split_ifs at hstep
    all_goals
      obtain rfl := Option.some.inj hstep
      exact ⟨by simpa [State.goTo] using hbegin, fun k' hk' => by simp [State.goTo, pipNamedExport, hk']⟩
  | pass i d stage =>
    simp only [hpc] at hstep
    split_ifs at hstep
    obtain ⟨hother, hself⟩ := passStep_pc hstep
    refine ⟨?_, hother⟩
    have hafter : (afterPass niters k i d).left niters k < _ := afterPass_left i d stage
    obtain hfailed | ⟨stage', hstage, hlt⟩ | ⟨hdone, -⟩ := hself
    · rw [hfailed]
      exact (Nat.zero_le _).trans_lt hafter
    · rw [hstage]
      cases d <;> simp only [Pc.left] <;> omega
    · rwa [hdone]
  | finalBarrier | failed => simp [hpc] at hstep

lemma work_lt {s' : State} (hstep : step ntasks niters s k = some s') :
    s'.work ntasks niters < s.work ntasks niters := by
  obtain ⟨hk, hlt, hother⟩ := step_left hstep
  refine Finset.sum_lt_sum (fun k' _ => ?_) ⟨k, Finset.mem_range.mpr hk, hlt⟩
  obtain rfl | hne := eq_or_ne k' k
  · exact hlt.le
  · rw [hother k' hne]

lemma Token.finishes (htwo : 2 ≤ ntasks) (h : Token ntasks niters s) :
    ∃ more, ∀ k < ntasks, (Interleaving.run (step ntasks niters) s more).pc k = .finalBarrier := by
  have hprogress : ∀ s, Token ntasks niters s → (∀ k < ntasks, s.pc k = .finalBarrier) ∨
      ∃ k s', step ntasks niters s k = some s' ∧ Token ntasks niters s' ∧
        s'.work ntasks niters < s.work ntasks niters := by
    intro s h
    obtain hend | ⟨k, s', hstep⟩ := h.goesOn htwo
    · exact .inl hend
    · exact .inr ⟨k, s', hstep, token_step htwo h hstep, work_lt hstep⟩
  exact Interleaving.exists_run_of_measure (State.work ntasks niters) hprogress h

lemma Token.ok (h : Token ntasks niters s) (hpos : 0 < ntasks) (k : ℕ) : s.pc k ≠ .failed := by
  obtain ⟨a, hidle, hactive⟩ := h.active hpos
  intro hfailed
  obtain rfl | hne := eq_or_ne k a
  · rw [hfailed] at hactive
    obtain hfalse | ⟨_, _, _, heq, -⟩ := hactive
    · exact hfalse
    · cases heq
  · have hfalse := hidle k hne
    rw [hfailed] at hfalse
    exact hfalse

/-- Task 0 comes to its last check with the pointer back, to a full count. -/
lemma Token.checkCount (h : Token ntasks niters s) (hpos : 0 < ntasks) {i cp : ℕ} {d : Direction}
    (hpc : s.pc 0 = .pass i d (.checkCount cp)) :
    ∃ t < 2 * niters, i = t / 2 ∧ d = directionOf t ∧ cp = 0 ∧ s.count 0 = ntasks := by
  have hbegin : ∀ t, beginPass niters t 0 ≠ .pass i d (.checkCount cp) := by
    intro t
    unfold beginPass firstStage
    split_ifs <;> simp
  cases h with
  | prelude steps hwait =>
    simp only [PipNamexp.prelude] at hpc
    split_ifs at hpc
    exact absurd hpc (hbegin 0)
  | reset t value ht => exact absurd ((ring_pc_active hpos).symm.trans hpc) (hbegin t)
  | export0 t ht =>
    rw [ring_pc_active hpos] at hpc
    simp at hpc
  | relay t m stage value ht h0 hm hstage =>
    rw [ring_pc_waits hpos (taskAt_ne_zero h0 hm).symm] at hpc
    simp [waitsAt] at hpc
  | back t stage ht hstage =>
    rw [ring_pc_active hpos] at hpc
    simp only [Pc.pass.injEq] at hpc
    obtain ⟨rfl, rfl, rfl⟩ := hpc
    refine ⟨t, ht, rfl, rfl, ?_, rfl⟩
    simpa using hstage

lemma beginPass_passed (ht : t ≤ 2 * niters) (k : ℕ) : (beginPass niters t k).passed niters = t := by
  unfold beginPass
  split_ifs
  · exact passNo_of t
  · simp only [Pc.passed]
    omega

/-- Task 0 gets behind a pass by its last check only. -/
lemma Token.step_passed (h : Token ntasks niters s) (htwo : 2 ≤ ntasks) {s' : State}
    (hstep : step ntasks niters s k = some s') : (s'.pc 0).passed niters = (s.pc 0).passed niters ∨
      (s'.pc 0).passed niters = (s.pc 0).passed niters + 1 ∧ s.count 0 = ntasks ∧
        ∃ i d, s.pc 0 = .pass i d (.checkCount 0) := by
  have hpos : 0 < ntasks := by omega
  have hok := (token_step htwo h hstep).ok hpos 0
  obtain rfl | hne := eq_or_ne k 0
  swap
  · exact .inl (by rw [(step_left hstep).2.2 0 hne.symm])
  simp only [step, hpos, if_true] at hstep
  cases hpc : s.pc 0 with
  | magic =>
    simp only [hpc, Option.some.injEq] at hstep
    subst hstep
    simp [State.goTo, Pc.passed]
  | namedBarrier =>
    simp only [hpc, Option.some.injEq] at hstep
    subst hstep
    left
    simp only [State.goTo, Function.update_self]
    split_ifs
    · rfl
    · simp only [Pc.passed]
      omega
  | pass i d stage =>
    simp only [hpc] at hstep
    split_ifs at hstep
    obtain hfailed | ⟨stage', hstage, -⟩ | ⟨hafter, hcheck⟩ := (passStep_pc hstep).2
    · exact absurd hfailed hok
    · exact .inl (by rw [hstage]; rfl)
    · obtain ⟨cp, rfl⟩ := hcheck rfl
      obtain ⟨t, ht, rfl, rfl, rfl, hcount⟩ := h.checkCount hpos hpc
      refine .inr ⟨?_, hcount, _, _, rfl⟩
      rw [hafter, afterPass_eq ht, beginPass_passed ht]
      exact congrArg (· + 1) (passNo_of t).symm
  | finalBarrier | failed => simp [hpc] at hstep

/-- Each pass that task 0 has behind it has ended with its check. -/
theorem run_passed (htwo : 2 ≤ ntasks) (schedule : List ℕ) :
    ∀ t < ((run ntasks niters schedule).pc 0).passed niters, ∃ l, l <+: schedule ∧
      (run ntasks niters l).pc 0 = .pass (t / 2) (directionOf t) (.checkCount 0) ∧
        (run ntasks niters l).count 0 = ntasks := by
  induction schedule using List.reverseRecOn with
  | nil => simp [run, Interleaving.run, start, Pc.passed]
  | append_singleton schedule k ih =>
    have hbefore : ∀ t < ((run ntasks niters schedule).pc 0).passed niters, ∃ l, l <+: schedule ++ [k] ∧
        (run ntasks niters l).pc 0 = .pass (t / 2) (directionOf t) (.checkCount 0) ∧
          (run ntasks niters l).count 0 = ntasks := by
      intro t ht
      obtain ⟨l, hl, hpc⟩ := ih t ht
      exact ⟨l, hl.trans (List.prefix_append _ _), hpc⟩
    intro t ht
    rw [run, Interleaving.run_concat, ← run] at ht
    cases hstep : step ntasks niters (run ntasks niters schedule) k with
    | none =>
      rw [hstep] at ht
      exact hbefore t ht
    | some s' =>
      rw [hstep, Option.getD_some] at ht
      obtain hsame | ⟨hnext, hcount, i, d, hpc⟩ := (run_token htwo schedule).step_passed htwo hstep
      · exact hbefore t (hsame ▸ ht)
      · rw [hnext] at ht
        obtain hlt | rfl := Nat.lt_succ_iff_lt_or_eq.mp ht
        · exact hbefore t hlt
        · have hno : ((run ntasks niters schedule).pc 0).passed niters = passNo i d := by
            rw [hpc]
            rfl
          obtain ⟨hd, hi⟩ := (passNo_eq_iff (d := d) i).mp rfl
          rw [hno, ← hd, ← hi]
          exact ⟨schedule, List.prefix_append _ _, hpc, hcount⟩

end Ring

/-- Every interleaving, from before the first barrier. -/
theorem ring_safe (ntasks niters : ℕ) (htwo : 2 ≤ ntasks) (schedule : List ℕ) :
    RingSafe ntasks niters (run ntasks niters schedule) ∧
    ∀ t < ((run ntasks niters schedule).pc 0).passed niters, ∃ l, l <+: schedule ∧
      (run ntasks niters l).pc 0 = .pass (t / 2) (directionOf t) (.checkCount 0) ∧
        (run ntasks niters l).count 0 = ntasks := by
  refine ⟨?_, run_passed htwo schedule⟩
  have htoken : Token ntasks niters (run ntasks niters schedule) := run_token htwo schedule
  generalize run ntasks niters schedule = s at htoken ⊢
  obtain ⟨a, hidle, hactive⟩ := htoken.active (by omega)
  have hpointer : ∀ k i d stage, s.pc k = .pass i d stage → stage ≠ .import →
      k = a ∧ InTurn ntasks (s.count 0) a stage := by
    intro k i d stage hpc himport
    obtain rfl | hne := eq_or_ne k a
    · rw [hpc] at hactive
      obtain hstage | ⟨i', d', stage', heq, hturn⟩ := hactive
      · exact absurd hstage himport
      · cases heq
        exact ⟨rfl, hturn⟩
    · have hstage := hidle k hne
      rw [hpc] at hstage
      exact absurd hstage himport
  constructor
  · intro k p haccess
    unfold State.accesses at haccess
    cases hpc : s.pc k with
    | pass i d stage =>
      rw [hpc] at haccess
      have himport : stage ≠ .import := by
        rintro rfl
        exact haccess.elim
      obtain ⟨rfl, hturn⟩ := hpointer k i d stage hpc himport
      refine ⟨?_, i, d, stage, hpc, himport⟩
      obtain ⟨rfl, rfl⟩ | (rfl | ⟨v, rfl⟩ | rfl) | ⟨rfl, -, rfl | rfl⟩ := hturn
      all_goals first | exact haccess | exact haccess.elim
    | magic | namedBarrier | finalBarrier | failed =>
      rw [hpc] at haccess
      exact haccess.elim
  · rintro k k' ⟨i, d, stage, hpc, himport⟩ ⟨i', d', stage', hpc', himport'⟩
    exact (hpointer k _ _ _ hpc himport).1.trans (hpointer k' _ _ _ hpc' himport').1.symm
  · intro i d cp hpc
    obtain ⟨-, hturn⟩ := hpointer 0 _ _ _ hpc (by simp)
    obtain ⟨-, hvalue, rfl⟩ : a = 0 ∧ s.count 0 = ntasks ∧ cp = 0 := by simpa [InTurn] using hturn
    exact ⟨rfl, hvalue⟩
  · intro i d cp hpc
    obtain ⟨-, hturn⟩ := hpointer 0 _ _ _ hpc (by simp)
    obtain ⟨-, hvalue, rfl⟩ : a = 0 ∧ s.count 0 = ntasks ∧ cp = 0 := by simpa [InTurn] using hturn
    exact ⟨rfl, hvalue⟩
  · exact htoken.ok (by omega)
  · exact htoken.goesOn htwo
  · exact fun k s' hstep => work_lt hstep
  · exact htoken.finishes htwo

/-- The steps of three tasks in one iteration, with those up to the first barrier. -/
def threeTasks : List ℕ :=
  [0, 1, 2, 0, 1, 2] ++ [0, 0, 1, 1, 1, 1, 2, 2, 2, 2, 0, 0, 0] ++ [0, 0, 2, 2, 2, 2, 1, 1, 1, 1, 0, 0, 0]

/-- Up to the end of both passes, the second of which has ended with the check. -/
theorem ring_safe_three : (run 3 1 threeTasks).pc 0 = .finalBarrier ∧ RingSafe 3 1 (run 3 1 threeTasks) ∧
    ∃ l, l <+: threeTasks ∧ (run 3 1 l).pc 0 = .pass 0 .backward (.checkCount 0) ∧ (run 3 1 l).count 0 = 3 := by
  obtain ⟨hsafe, hpassed⟩ := ring_safe 3 1 (by decide) threeTasks
  exact ⟨by decide +kernel, hsafe, hpassed 1 (by decide +kernel)⟩

end PipTestsuite.PipNamexp
