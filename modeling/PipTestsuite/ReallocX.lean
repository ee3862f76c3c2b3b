import PipTestsuite.MallocX

/-! compat/realloc-x.c: each task again and again draws a slot of another task and resizes the region in it. -/
namespace PipTestsuite.ReallocX

open MallocX (Region names)

def MAX : ℕ := 1024 * 1024

/-- What a task does next, in iteration i of its loop with the slot n. -/
inductive Pc where
  | share (i : ℕ)
  | firstMalloc
  | firstRegion (r : Region)
  | firstWho
  | barrier
  | inside
  | loop (i : ℕ)
  | countp (i : ℕ)
  | draw (i : ℕ)
  | checkWho (i n : ℕ)
  | trylock (i n : ℕ)
  | size (i n : ℕ)
  | mprobe (i n sz : ℕ)
  | realloc (i n sz : ℕ)
  | region (i n : ℕ) (r : Option Region)
  | who (i n : ℕ)
  | unlock (i n : ℕ)
  | done
  | finished
  | failed
  deriving DecidableEq

/-- The same state as in malloc-x.c, where the tasks are at steps of their own. -/
structure State where
  pc : ℕ → Pc
  region : ℕ → Option Region
  who : ℕ → ℤ
  lock : ℕ → Bool
  count : ℤ
  exported : ℕ
  arrived : ℕ → Bool
  live : Finset Region
  freed : Finset Region
  serial : ℕ

def State.goTo (s : State) (t : ℕ) (pc : Pc) : State := { s with pc := Function.update s.pc t pc }

def malloc (t sz : ℕ) (s : State) : Region × State :=
  let r : Region := ⟨t, s.serial, sz, false⟩
  (r, { s with live := insert r s.live, serial := s.serial + 1 })

def State.free (s : State) (r : Region) : State := { s with live := s.live.erase r, freed := insert r s.freed }

/-- realloc() by task t. What it returns counts as another region, wherever that is; with a size of 0 it only
releases the one that it is given. -/
def realloc (t sz : ℕ) (s : State) : Option Region → Option Region × State
  | some r => if sz = 0 then (none, s.free r) else (malloc t sz (s.free r)).map some id
  | none => (malloc t sz s).map some id

/-- mprobe() finds a live region. -/
def State.probed (s : State) (n : ℕ) : Prop := ∃ r ∈ s.live, s.region n = some r

instance (s : State) (n : ℕ) : Decidable (s.probed n) := inferInstanceAs (Decidable (∃ r ∈ s.live, s.region n = some r))

/-- The next step of task t; choice is what random() returns, and what mprobe() says of a region that is not a
live one. -/
def step (nt niters : ℕ) (s : State) : ℕ × ℕ → Option State
  | (t, choice) =>
    if t < nt then
      match s.pc t with
      | .share i =>
        let after := if i + 1 < names then .share (i + 1) else .firstMalloc
        if t = 0 then some ({ s with exported := i + 1 }.goTo t after)
        else if i < s.exported then some (s.goTo t after) else none
      | .firstMalloc =>
        let (r, s) := malloc t 1024 s
        some (s.goTo t (.firstRegion r))
      | .firstRegion r => some ({ s with region := Function.update s.region t (some r) }.goTo t .firstWho)
      | .firstWho => some ({ s with who := Function.update s.who t t }.goTo t .barrier)
      | .barrier => some ({ s with arrived := Function.update s.arrived t true }.goTo t .inside)
      | .inside => if ∀ u < nt, s.arrived u then some (s.goTo t (.loop 0)) else none
      | .loop i => some (s.goTo t (if i < niters then .countp i else .done))
      | .countp i => some (s.goTo t (if s.count = 0 then .done else .draw i))
      | .draw i => some (s.goTo t (.checkWho i (choice % nt)))
      | .checkWho i n => some (s.goTo t (if s.who n = t then .countp i else .trylock i n))
      | .trylock i n =>
        if s.lock n then some (s.goTo t (.countp i))
        else some ({ s with lock := Function.update s.lock n true }.goTo t (.size i n))
      | .size i n => some (s.goTo t (.mprobe i n (choice % MAX)))
      -- with MCHECK_HEAD, MCHECK_TAIL or MCHECK_FREE the task ends, with MCHECK_DISABLED it goes on
      | .mprobe i n sz => some (s.goTo t (if s.probed n ∨ choice = 0 then .realloc i n sz else .failed))
      | .realloc i n sz =>
        let (r, s) := realloc t sz s (s.region n)
        some (s.goTo t (.region i n r))
      | .region i n r => some ({ s with region := Function.update s.region n r }.goTo t (.who i n))
      | .who i n => some ({ s with who := Function.update s.who n t }.goTo t (.unlock i n))
      | .unlock i n => some ({ s with lock := Function.update s.lock n false }.goTo t (.loop (i + 1)))
      | .done => some ({ s with count := s.count - 1 }.goTo t .finished)
      | .finished => none
      | .failed => none
    else none

/-- Task 0 has set up the slots, and exported nothing. -/
def start (nt : ℕ) : State where
  pc _ := .share 0
  region _ := none
  who _ := -1
  lock _ := false
  count := nt - 1
  exported := 0
  arrived _ := false
  live := ∅
  freed := ∅
  serial := 0

def run (nt niters : ℕ) (schedule : List (ℕ × ℕ)) : State :=
  Interleaving.run (step nt niters) (start nt) schedule

/-- malloc-x.c frees the region and allocates another one, where realloc-x.c resizes it. -/
def Pc.mallocX : Pc → MallocX.Pc
  | .share i => .share i
  | .firstMalloc => .firstMalloc
  | .firstRegion r => .firstRegion r
  | .firstWho => .firstWho
  | .barrier => .barrier
  | .inside => .inside
  | .loop i => .loop i
  | .countp i => .countp i
  | .draw i => .draw i
  | .checkWho i n => .checkWho i n
  | .trylock i n => .trylock i n
  | .size i n => .size i n
  | .mprobe i n sz => .mprobe i n sz
  | .realloc i n sz => .free i n sz
  | .region i n (some r) => .region i n r
  | .region _ _ none => .failed
  | .who i n => .who i n
  | .unlock i n => .unlock i n
  | .done => .done
  | .finished => .finished
  | .failed => .failed

@[simps] def State.mallocX (s : State) : MallocX.State where
  pc t := (s.pc t).mallocX
  region := s.region
  who := s.who
  lock := s.lock
  count := s.count
  exported := s.exported
  arrived := s.arrived
  live := s.live
  freed := s.freed
  serial := s.serial

/-- The size that a task has drawn. -/
def Pc.drawn : Pc → Option ℕ
  | .mprobe _ _ sz | .realloc _ _ sz => some sz
  | _ => none

/-- The slot that a task has locked. -/
def Pc.holds : Pc → Option ℕ
  | .size _ n | .mprobe _ n _ | .realloc _ n _ | .region _ n _ | .who _ n | .unlock _ n => some n
  | _ => none

/-- The slots and the regions are those of malloc-x.c, and no size is 0. -/
structure Inv (nt : ℕ) (s : State) : Prop where
  mallocX : ∃ cell, MallocX.Inv nt cell s.mallocX
  drawn : ∀ t < nt, (s.pc t).drawn ≠ some 0

section Inv
variable {nt niters t choice : ℕ} {s s' : State} {pc : Pc}

lemma State.goTo_mallocX (s : State) (t : ℕ) (pc : Pc) : (s.goTo t pc).mallocX = s.mallocX.goTo t pc.mallocX := by
  have hpc : (fun u => (Function.update s.pc t pc u).mallocX) = Function.update (fun u => (s.pc u).mallocX) t pc.mallocX := by
    funext u
    exact Function.apply_update (fun _ => Pc.mallocX) s.pc t pc u
  simp only [State.mallocX, State.goTo, MallocX.State.goTo, hpc]

/-- But for the calls that look into the region, the steps are those of malloc-x.c. -/
lemma step_mallocX (hprobe : ∀ i n sz, s.pc t ≠ .mprobe i n sz) (hrealloc : ∀ i n sz, s.pc t ≠ .realloc i n sz)
    (hregion : ∀ i n, s.pc t ≠ .region i n none) :
    MallocX.step .mallocX nt niters s.mallocX (t, choice) = (step nt niters s (t, choice)).map State.mallocX := by
  by_cases ht : t < nt
  swap
  · simp [step, MallocX.step, ht]
  simp only [step, MallocX.step, ht, if_true, State.mallocX_pc]
  cases h : s.pc t with
  | mprobe i n sz => exact absurd h (hprobe i n sz)
  | realloc i n sz => exact absurd h (hrealloc i n sz)
  | region i n r =>
    cases r with
    | none => exact absurd h (hregion i n)
    | some r =>
      simp only [Pc.mallocX, Option.map_some, State.goTo_mallocX]
      rfl
  | share | inside | loop | countp | checkWho | trylock =>
    simp only [Pc.mallocX, State.mallocX_exported, State.mallocX_arrived, State.mallocX_count, State.mallocX_who,
      State.mallocX_lock]
    split_ifs <;> simp only [Option.map_some, Option.map_none, State.goTo_mallocX, Pc.mallocX] <;> rfl
  | draw => simp only [Pc.mallocX, Option.map_some, State.goTo_mallocX]
  | firstMalloc | firstRegion | firstWho | barrier | size | who | unlock | done =>
    simp only [Pc.mallocX, Option.map_some, State.goTo_mallocX]
    rfl
  | finished | failed => rfl

lemma start_inv : Inv nt (start nt) where
  mallocX := ⟨_, MallocX.start_inv⟩
  drawn := by simp [start, Pc.drawn]

/-- What a task that has locked a slot finds in it. -/
lemma Inv.probed (h : Inv nt s) (ht : t < nt) {i n sz : ℕ} (hpc : s.pc t = .mprobe i n sz ∨ s.pc t = .realloc i n sz) :
    s.probed n := by
  obtain ⟨cell, hinv⟩ := h.mallocX
  have hknows := hinv.knows t ht
  have hslot : s.mallocX.slotHolds cell n (s.mallocX.who n) ∧ (s.mallocX.pc t).touches t = some n := by
    unfold MallocX.State.knows at hknows
    rw [State.mallocX_pc] at hknows ⊢
    obtain hpc | hpc := hpc <;> rw [hpc] at hknows ⊢ <;> exact ⟨hknows.1, rfl⟩
  obtain ⟨⟨r, hregion, hcell, -⟩, htouch⟩ := hslot
  have hn := hinv.bound t ht n htouch
  exact ⟨r, (hinv.kept.mem_live r).mpr ⟨n, Finset.mem_range.mpr hn, hcell⟩, hregion⟩

/-- What task t does in a step, which takes it to pc: it draws a size, or keeps it; it counts itself out, or
goes on; and it may lock the slot that it holds then, or unlock the one that it held. -/
structure Turn (s s' : State) (t choice : ℕ) (pc : Pc) : Prop where
  goTo : s'.pc = Function.update s.pc t pc
  drawn : ∀ sz, pc.drawn = some sz → (s.pc t).drawn = some sz ∨ ∃ i n, s.pc t = .size i n ∧ sz = choice % MAX
  count : pc = .finished ∧ s.pc t = .done ∧ s'.count = s.count - 1 ∨ pc ≠ .finished ∧ s'.count = s.count
  lock : ∀ n, s'.lock n = true → pc.holds = some n ∨ s.lock n = true ∧ (s.pc t).holds ≠ some n ∨ pc = .failed

/-- A turn that changes neither the counter nor a lock. -/
lemma Turn.move {s₁ : State} (hsame : s₁.pc = s.pc ∧ s₁.count = s.count ∧ s₁.lock = s.lock) (hgoing : pc ≠ .finished)
    (hdrawn : ∀ sz, pc.drawn = some sz → (s.pc t).drawn = some sz ∨ ∃ i n, s.pc t = .size i n ∧ sz = choice % MAX)
    (hholds : pc.holds = (s.pc t).holds ∨ pc = .failed) : Turn s (s₁.goTo t pc) t choice pc where
  goTo := by rw [State.goTo, hsame.1]
  drawn := hdrawn
  count := .inr ⟨hgoing, hsame.2.1⟩
  lock := by
    intro n hn
    simp only [State.goTo, hsame.2.2] at hn
    obtain hholds | hfailed := hholds
    · by_cases hself : (s.pc t).holds = some n
      · exact .inl (hholds.trans hself)
      · exact .inr (.inl ⟨hn, hself⟩)
    · exact .inr (.inr hfailed)

lemma realloc_same (t sz : ℕ) (s : State) (p : Option Region) :
    (realloc t sz s p).2.pc = s.pc ∧ (realloc t sz s p).2.count = s.count ∧ (realloc t sz s p).2.lock = s.lock := by
  cases p with
  | none => exact ⟨rfl, rfl, rfl⟩
  | some r =>
    unfold realloc
    split_ifs <;> exact ⟨rfl, rfl, rfl⟩

lemma step_turn (hstep : step nt niters s (t, choice) = some s') : t < nt ∧ ∃ pc, Turn s s' t choice pc := by
  have ht : t < nt := by
    by_contra hnot
    simp [step, hnot] at hstep
  refine ⟨ht, ?_⟩
  simp only [step, ht, if_true] at hstep
  cases hpc : s.pc t <;> simp only [hpc, Option.some.injEq, reduceCtorEq] at hstep
  case share | inside =>
    split_ifs at hstep <;> obtain rfl := Option.some.inj hstep <;>
      exact ⟨_, .move ⟨rfl, rfl, rfl⟩ (by simp) (by simp [Pc.drawn]) (by simp [hpc, Pc.holds])⟩
  case trylock i n =>
    split_ifs at hstep <;> obtain rfl := Option.some.inj hstep
    · exact ⟨_, .move ⟨rfl, rfl, rfl⟩ (by simp) (by simp [Pc.drawn]) (by simp [hpc, Pc.holds])⟩
    · refine ⟨_, rfl, by simp [Pc.drawn], .inr ⟨by simp, rfl⟩, fun m hm => ?_⟩
      obtain rfl | hmn := eq_or_ne m n
      · exact .inl rfl
      · simp only [State.goTo, Function.update_of_ne hmn] at hm
        exact .inr (.inl ⟨hm, by simp [hpc, Pc.holds]⟩)
  case unlock i n =>
    subst hstep
    refine ⟨_, rfl, by simp [Pc.drawn], .inr ⟨by simp, rfl⟩, fun m hm => ?_⟩
    obtain rfl | hmn := eq_or_ne m n
    · simp [State.goTo] at hm
    · simp only [State.goTo, Function.update_of_ne hmn] at hm
      exact .inr (.inl ⟨hm, by simp [hpc, Pc.holds, hmn.symm]⟩)
  case done =>
    subst hstep
    exact ⟨_, rfl, by simp [Pc.drawn], .inl ⟨rfl, hpc, rfl⟩, fun m hm => .inr (.inl ⟨hm, by simp [hpc, Pc.holds]⟩)⟩
  case loop | countp | checkWho | mprobe =>
    subst hstep
    split_ifs <;> exact ⟨_, .move ⟨rfl, rfl, rfl⟩ (by simp) (by simp [hpc, Pc.drawn]) (by simp [hpc, Pc.holds])⟩
  case realloc i n sz =>
    subst hstep
    exact ⟨_, .move (realloc_same t sz s (s.region n)) (by simp) (by simp [Pc.drawn]) (by simp [hpc, Pc.holds])⟩
  case firstMalloc | firstRegion | firstWho | barrier | draw | size | region | who =>
    subst hstep
    exact ⟨_, .move ⟨rfl, rfl, rfl⟩ (by simp) (by simp [hpc, Pc.drawn]) (by simp [hpc, Pc.holds])⟩

/-- A region that is resized is one that malloc-x.c frees, and then the one that it allocates. -/
lemma MallocX.Inv.realloc {cell : ℕ → Option Region} {i n sz : ℕ} {r : Region} (hinv : MallocX.Inv nt cell s.mallocX)
    (ht : t < nt) (hpc : s.pc t = .realloc i n sz) (hregion : s.region n = some r) :
    ∃ cell, MallocX.Inv nt cell
      ((malloc t sz (s.free r)).2.goTo t (.region i n (some (malloc t sz (s.free r)).1))).mallocX := by
  have hfree : MallocX.step .mallocX nt 0 s.mallocX (t, 0) =
      some ((s.mallocX.free (some r)).goTo t (.malloc i n sz)) := by
    simp only [MallocX.step, ht, if_true, State.mallocX_pc, hpc, Pc.mallocX, State.mallocX_region, hregion]
  obtain ⟨cell', hinv'⟩ := MallocX.step_inv hinv hfree
  refine @MallocX.step_inv nt t cell' _ _ .mallocX 0 0 hinv' ?_
  rw [State.goTo_mallocX]
  simp only [MallocX.step, ht, if_true, MallocX.State.goTo, MallocX.allocate, MallocX.State.free, Function.update_self,
    Function.update_idem, reduceCtorEq, false_and, decide_false]
  rfl

/-- What a step keeps that does not draw the size 0. -/
theorem step_inv (h : Inv nt s) (hstep : step nt niters s (t, choice) = some s')
    (hdraw : ∀ i n, s.pc t = .size i n → choice % MAX ≠ 0) : Inv nt s' := by
  have ht : t < nt := by
    by_contra hnot
    simp [step, hnot] at hstep
  obtain ⟨cell, hinv⟩ := h.mallocX
  have hknows := hinv.knows t ht
  have hdrawn := h.drawn t ht
  -- the steps that both programs take
  have hcommon : (∀ i n sz, s.pc t ≠ .mprobe i n sz) → (∀ i n sz, s.pc t ≠ .realloc i n sz) →
      ∃ cell, MallocX.Inv nt cell s'.mallocX := by
    intro hprobe hrealloc
    refine @MallocX.step_inv nt t cell _ _ .mallocX niters choice hinv ?_
    rw [step_mallocX hprobe hrealloc, hstep, Option.map_some]
    intro i n hpc
    simp [MallocX.State.knows, hpc, Pc.mallocX] at hknows
  constructor
  · cases hpc : s.pc t with
    | mprobe i n sz =>
      have hprobed := h.probed ht (.inl hpc)
      have hs' : s' = s.goTo t (.realloc i n sz) := by
        simpa [step, ht, hpc, hprobed] using hstep.symm
      have hlive : ∃ r ∈ s.mallocX.live, s.mallocX.region n = some r := hprobed
      refine @MallocX.step_inv nt t cell _ _ .mallocX niters choice hinv ?_
      rw [hs', State.goTo_mallocX]
      simp only [MallocX.step, ht, if_true, State.mallocX_pc, hpc, Pc.mallocX, if_pos hlive]
    | realloc i n sz =>
      obtain ⟨r, -, hregion⟩ := h.probed ht (.inr hpc)
      have hsz : sz ≠ 0 := by
        rintro rfl
        exact hdrawn (by rw [hpc]; rfl)
      have hs' : s' = (malloc t sz (s.free r)).2.goTo t (.region i n (some (malloc t sz (s.free r)).1)) := by
        simpa [step, ht, hpc, hregion, realloc, hsz] using hstep.symm
      rw [hs']
      exact MallocX.Inv.realloc hinv ht hpc hregion
    | _ => exact hcommon (by simp [hpc]) (by simp [hpc])
  · obtain ⟨-, pc, hturn⟩ := step_turn hstep
    intro u hu hzero
    rw [hturn.goTo] at hzero
    obtain rfl | hne := eq_or_ne u t
    · rw [Function.update_self] at hzero
      obtain hold | ⟨i, n, hpc, hsz⟩ := hturn.drawn 0 hzero
      · exact hdrawn hold
      · exact hdraw i n hpc hsz.symm
    · rw [Function.update_of_ne hne] at hzero
      exact h.drawn u hu hzero

theorem run_inv {schedule : List (ℕ × ℕ)}
    (hdraws : ∀ l t choice s', l ++ [(t, choice)] <+: schedule → step nt niters (run nt niters l) (t, choice) = some s' →
      ∀ i n, (run nt niters l).pc t = .size i n → choice % MAX ≠ 0) {l : List (ℕ × ℕ)} (hl : l <+: schedule) :
    Inv nt (run nt niters l) := by
  refine Interleaving.run_inv_of_steps (P := Inv nt) start_inv ?_ hl
  rintro l ⟨t, choice⟩ s' hl h hstep
  exact step_inv h hstep (hdraws l t choice s' hl hstep)

end Inv

/-- A task that is about to probe or to resize the region of a slot finds a live one there. -/
def State.liveProbes (nt : ℕ) (s : State) : Prop :=
  ∀ t < nt, ∀ i n sz, s.pc t = .mprobe i n sz ∨ s.pc t = .realloc i n sz → s.probed n

/-- In a run that does not draw the size 0 all states are right. -/
theorem probes_live_of_nonzero_sizes (nt niters : ℕ) (schedule : List (ℕ × ℕ))
    (hdraws : ∀ l t choice s', l ++ [(t, choice)] <+: schedule → step nt niters (run nt niters l) (t, choice) = some s' →
      ∀ i n, (run nt niters l).pc t = .size i n → choice % MAX ≠ 0) :
    ∀ l, l <+: schedule → (run nt niters l).liveProbes nt := by
  intro l hl t ht i n sz hpc
  exact (run_inv hdraws hl).probed ht hpc

/-- Two tasks and no draw but 1. -/
def sizeOne : List (ℕ × ℕ) := List.replicate 7 (0, 1) ++ List.replicate 8 (1, 1) ++ List.replicate 8 (0, 1)

theorem probes_live_sizeOne : (run 2 2 sizeOne).pc 0 = .realloc 0 1 1 ∧
    ∀ l, l <+: sizeOne → (run 2 2 l).liveProbes 2 := by
  refine ⟨by decide +kernel, probes_live_of_nonzero_sizes 2 2 sizeOne ?_⟩
  intro l t choice s' hl _ i n _
  have hmem : (t, choice) ∈ sizeOne := hl.subset (by simp)
  have hone : ∀ a ∈ sizeOne, a.2 % MAX ≠ 0 := by decide
  exact hone _ hmem

/-- Two tasks: task 0 draws the size 0 for the slot of task 1, which then locks it and probes NULL. -/
def zeroSize : List (ℕ × ℕ) :=
  List.replicate 7 (0, 0) ++ List.replicate 8 (1, 0) ++ [(0, 0), (0, 0), (0, 0), (0, 1)] ++ List.replicate 8 (0, 0) ++
    [(1, 0), (1, 0), (1, 1), (1, 0), (1, 0), (1, 5)]

theorem null_probed : ¬ ∀ nt niters schedule, 1 ≤ nt → (run nt niters schedule).liveProbes nt := by
  intro h
  have hpc : (run 2 2 zeroSize).pc 1 = .mprobe 0 1 5 := by decide +kernel
  have hnot : ¬ (run 2 2 zeroSize).probed 1 := by decide +kernel
  exact hnot (h 2 2 zeroSize (by decide) 1 (by decide) 0 1 5 (.inl hpc))

end PipTestsuite.ReallocX
