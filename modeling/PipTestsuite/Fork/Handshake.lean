import PipTestsuite.Fork.Run

/-! The named exports and imports of compat/fork.c: no task waits before all tasks have forked, and task 0
returns last. -/
namespace PipTestsuite.Fork

/-- How far a task is: before the table, forking, behind its forks, at the import of "CHECK", reaping, behind
that, and at its end. -/
def Pc.phase : Pc → ℕ
  | .allocate | .exportTable | .importTable => 0
  | .fork _ | .record _ _ => 1
  | .importForked _ | .exportForked => 2
  | .importCheck => 3
  | .wait | .search _ _ _ | .found _ _ _ | .loopEnd => 4
  | .importDone _ | .exportDone => 5
  | .finished => 6
  | .failed => 7

/-- The places of the source that only task 0, or only the other tasks get to. -/
def Pc.isFor (t : ℕ) : Pc → Prop
  | .allocate | .exportTable | .importForked _ | .importDone _ => t = 0
  | .importTable | .exportForked | .importCheck | .exportDone => t ≠ 0
  | .failed => False
  | _ => True

/-- What a task has exported by a phase. -/
def published (t : ℕ) (phase : ℕ) : Name → Bool
  | .table => t = 0 ∧ 1 ≤ phase
  | .forked => t ≠ 0 ∧ 3 ≤ phase
  | .check => t = 0 ∧ 4 ≤ phase
  | .done => t ≠ 0 ∧ 6 ≤ phase

/-- What the imports up to a place of task t say about the phases of the tasks. -/
structure Reached (ntasks : ℕ) (phase : ℕ → ℕ) (t : ℕ) (pc : Pc) : Prop where
  isFor : pc.isFor t
  begun : t ≠ 0 → 1 ≤ pc.phase → 1 ≤ phase 0
  checked : t ≠ 0 → 4 ≤ pc.phase → 4 ≤ phase 0
  someForked : ∀ i, pc = .importForked i → 1 ≤ i ∧ ∀ u < i, u ≠ 0 → 3 ≤ phase u
  allForked : t = 0 → 4 ≤ pc.phase → ∀ u < ntasks, u ≠ 0 → 3 ≤ phase u
  someDone : ∀ i, pc = .importDone i → 1 ≤ i ∧ ∀ u < i, u ≠ 0 → 6 ≤ phase u
  allDone : t = 0 → 6 ≤ pc.phase → ∀ u < ntasks, u ≠ 0 → 6 ≤ phase u

def State.phase (s : State) (t : ℕ) : ℕ := (s.pc t).phase

/-- The named exports and imports keep the tasks together: nobody waits before all have forked. -/
structure Handshake (ntasks : ℕ) (s : State) : Prop where
  exports : ∀ t name, s.exported t name = published t (s.phase t) name
  reached : ∀ t, Reached ntasks s.phase t (s.pc t)

section Handshake
variable {ntasks t : ℕ} {s s' : State} {pc pc' : Pc} {phase phase' : ℕ → ℕ}

lemma Reached.mono (h : Reached ntasks phase t pc) (hle : ∀ u, phase u ≤ phase' u) :
    Reached ntasks phase' t pc where
  isFor := h.isFor
  begun ht hpc := (h.begun ht hpc).trans (hle 0)
  checked ht hpc := (h.checked ht hpc).trans (hle 0)
  someForked i hi := ⟨(h.someForked i hi).1, fun u hu h0 => ((h.someForked i hi).2 u hu h0).trans (hle u)⟩
  allForked ht hpc u hu h0 := (h.allForked ht hpc u hu h0).trans (hle u)
  someDone i hi := ⟨(h.someDone i hi).1, fun u hu h0 => ((h.someDone i hi).2 u hu h0).trans (hle u)⟩
  allDone ht hpc u hu h0 := (h.allDone ht hpc u hu h0).trans (hle u)

/-- Within a phase there is nothing more to say, but at the imports of a loop. -/
lemma Reached.stay (h : Reached ntasks phase t pc) (hphase : pc'.phase = pc.phase) (hfor : pc'.isFor t)
    (hforked : ∀ i, pc' ≠ .importForked i) (hdone : ∀ i, pc' ≠ .importDone i) : Reached ntasks phase t pc' where
  isFor := hfor
  begun := hphase ▸ h.begun
  checked := hphase ▸ h.checked
  someForked i hi := absurd hi (hforked i)
  allForked := hphase ▸ h.allForked
  someDone i hi := absurd hi (hdone i)
  allDone := hphase ▸ h.allDone

lemma start_handshake (garbage : ℕ → ℤ) : Handshake ntasks (start garbage) := by
  have hphase : ∀ t, (start garbage).phase t = 0 := by
    intro t
    simp only [State.phase, start]
    split_ifs <;> rfl
  constructor
  · intro t name
    rw [hphase]
    cases name <;> simp [start, published]
  · intro t
    have hpc : (start garbage).pc t = .allocate ∧ t = 0 ∨ (start garbage).pc t = .importTable ∧ t ≠ 0 := by
      simp only [start]
      split_ifs with ht
      · exact .inl ⟨rfl, ht⟩
      · exact .inr ⟨rfl, ht⟩
    obtain ⟨hpc, ht⟩ | ⟨hpc, ht⟩ := hpc <;> rw [hpc] <;> constructor <;> simp [ht, Pc.isFor, Pc.phase]

/-- A task gets from one place to another, with the exports on the way. -/
lemma Handshake.goTo (h : Handshake ntasks s) (hpc : s'.pc = Function.update s.pc t pc)
    (hexported : ∀ u ≠ t, s'.exported u = s.exported u)
    (hexports : ∀ name, s'.exported t name = published t pc.phase name) (hle : (s.pc t).phase ≤ pc.phase)
    (hreached : Reached ntasks s.phase t pc) : Handshake ntasks s' := by
  have hself : s'.pc t = pc := by simp [hpc]
  have hother : ∀ u ≠ t, s'.pc u = s.pc u := fun u hu => by simp [hpc, hu]
  have hmono : ∀ u, s.phase u ≤ s'.phase u := by
    intro u
    obtain rfl | hu := eq_or_ne u t
    · rw [State.phase, State.phase, hself]
      exact hle
    · rw [State.phase, State.phase, hother u hu]
  constructor
  · intro u name
    obtain rfl | hu := eq_or_ne u t
    · rw [hexports, State.phase, hself]
    · rw [hexported u hu, State.phase, hother u hu]
      exact h.exports u name
  · intro u
    obtain rfl | hu := eq_or_ne u t
    · rw [hself]
      exact hreached.mono hmono
    · rw [hother u hu]
      exact (h.reached u).mono hmono

/-- A step within a phase. -/
lemma Handshake.stay (h : Handshake ntasks s) (hpc : s'.pc = Function.update s.pc t pc)
    (hexported : s'.exported = s.exported) (hphase : pc.phase = (s.pc t).phase) (hfor : pc.isFor t)
    (hforked : ∀ i, pc ≠ .importForked i) (hdone : ∀ i, pc ≠ .importDone i) : Handshake ntasks s' := by
  apply h.goTo hpc
  · exact fun u _ => by rw [hexported]
  · intro name
    rw [hexported, hphase]
    exact h.exports t name
  · exact hphase.ge
  · exact (h.reached t).stay hphase hfor hforked hdone

lemma Handshake.exported_iff (h : Handshake ntasks s) (t : ℕ) (name : Name) :
    s.exported t name = true ↔ published t (s.phase t) name = true := by rw [h.exports]

/-- A step of a task without an export. -/
lemma Handshake.advance (h : Handshake ntasks s) (hpc : s'.pc = Function.update s.pc t pc)
    (hexported : s'.exported = s.exported) (hle : (s.pc t).phase ≤ pc.phase)
    (hsame : published t (s.pc t).phase = published t pc.phase) (hreached : Reached ntasks s.phase t pc) :
    Handshake ntasks s' := by
  apply h.goTo hpc
  · exact fun u _ => by rw [hexported]
  · intro name
    rw [hexported, h.exports t name, State.phase, hsame]
  · exact hle
  · exact hreached

/-- A step of a task with the export of a name. -/
lemma Handshake.export (h : Handshake ntasks s) (name : Name) (hpc : s'.pc = Function.update s.pc t pc)
    (hexported : s'.exported = (pipNamedExport t name s).exported) (hle : (s.pc t).phase ≤ pc.phase)
    (hname : Function.update (published t (s.pc t).phase) name true = published t pc.phase)
    (hreached : Reached ntasks s.phase t pc) : Handshake ntasks s' := by
  apply h.goTo hpc
  · intro u hu
    simp [hexported, pipNamedExport, hu]
  · intro name'
    have hold : s.exported t = published t (s.pc t).phase := funext (h.exports t)
    simp only [hexported, pipNamedExport, Function.update_self, hold, hname]
  · exact hle
  · exact hreached

/-- A task that fails nowhere goes on to what its imports tell. -/
lemma Handshake.taskStep {thrd : Bool} {nfork : ℕ} (h : Handshake ntasks s)
    (hstep : taskStep thrd ntasks nfork s t = some s') (hok : s'.pc t ≠ .failed) : Handshake ntasks s' := by
  have hreached := h.reached t
  have hfor := hreached.isFor
  unfold Fork.taskStep at hstep
  cases hpc : s.pc t with
  | allocate =>
    simp only [hpc, Option.some.injEq] at hstep
    subst hstep
    rw [hpc] at hfor
    exact h.stay rfl rfl (by rw [hpc]; rfl) hfor (by simp) (by simp)
  | exportTable =>
    simp only [hpc, Option.some.injEq] at hstep
    subst hstep
    rw [hpc] at hfor
    obtain rfl : t = 0 := hfor
    refine h.export .table rfl rfl ?_ ?_ ?_
    · simp [hpc, Pc.phase]
    · funext name
      cases name <;> simp [hpc, Pc.phase, published]
    · constructor <;> simp [Pc.isFor, Pc.phase]
  | importTable =>
    simp only [hpc] at hstep
    split_ifs at hstep with htable
    obtain rfl := Option.some.inj hstep
    rw [hpc] at hfor
    have hbegun : 1 ≤ s.phase 0 := by simpa [published] using (h.exported_iff 0 .table).mp htable
    refine h.advance rfl rfl ?_ ?_ ?_
    · simp [hpc, Pc.phase]
    · funext name
      cases name <;> simp [hpc, Pc.phase, published]
      exact hfor
    · constructor <;> simp [Pc.isFor, Pc.phase, hbegun]
  | fork i =>
    simp only [hpc] at hstep
    split_ifs at hstep with hi h0
    · obtain rfl := Option.some.inj hstep
      refine h.advance rfl rfl ?_ ?_ ?_
      · simp [hpc, Pc.phase]
      · funext name
        cases name <;> simp [hpc, Pc.phase, published]
      · constructor <;> simp [Pc.isFor, Pc.phase, h0]
    · obtain rfl := Option.some.inj hstep
      refine h.advance rfl rfl ?_ ?_ ?_
      · simp [hpc, Pc.phase]
      · funext name
        cases name <;> simp [hpc, Pc.phase, published]
      · have hbegun := hreached.begun h0 (by simp [hpc, Pc.phase])
        constructor <;> simp [Pc.isFor, Pc.phase, h0, hbegun]
  | record i pid =>
    simp only [hpc, Option.some.injEq] at hstep
    subst hstep
    exact h.stay rfl rfl (by rw [hpc]; rfl) trivial (by simp) (by simp)
  | importForked i =>
    rw [hpc] at hfor
    obtain rfl : t = 0 := hfor
    obtain ⟨hpos, hsome⟩ := hreached.someForked i hpc
    simp only [hpc] at hstep
    split_ifs at hstep with hi hforked
    · obtain rfl := Option.some.inj hstep
      have hnext : 3 ≤ s.phase i :=
        (by simpa [published] using (h.exported_iff i .forked).mp hforked : ¬ i = 0 ∧ 3 ≤ s.phase i).2
      refine h.advance rfl rfl ?_ ?_ ?_
      · simp [hpc, Pc.phase]
      · rw [hpc]
        rfl
      · constructor <;> simp [Pc.isFor, Pc.phase]
        intro u hu h0
        obtain hlt | rfl := Nat.lt_or_eq_of_le hu
        · exact hsome u hlt h0
        · exact hnext
    · obtain rfl := Option.some.inj hstep
      refine h.export .check rfl rfl ?_ ?_ ?_
      · simp [hpc, Pc.phase]
      · funext name
        cases name <;> simp [hpc, Pc.phase, published]
      · constructor <;> simp [Pc.isFor, Pc.phase]
        exact fun u hu => hsome u (by omega)
  | exportForked =>
    simp only [hpc, Option.some.injEq] at hstep
    subst hstep
    rw [hpc] at hfor
    refine h.export .forked rfl rfl ?_ ?_ ?_
    · simp [hpc, Pc.phase]
    · funext name
      cases name <;> simp [hpc, Pc.phase, published]
      exact hfor
    · have hbegun := hreached.begun hfor (by simp [hpc, Pc.phase])
      constructor <;> simp [Pc.isFor, Pc.phase, hbegun]
      exact hfor
  | importCheck =>
    simp only [hpc] at hstep
    split_ifs at hstep with hcheck
    obtain rfl := Option.some.inj hstep
    rw [hpc] at hfor
    have hchecked : 4 ≤ s.phase 0 := by simpa [published] using (h.exported_iff 0 .check).mp hcheck
    refine h.advance rfl rfl ?_ ?_ ?_
    · simp [hpc, Pc.phase]
    · funext name
      cases name <;> simp [hpc, Pc.phase, published]
      exact hfor
    · have h0 : t ≠ 0 := hfor
      have hbegun := hreached.begun h0 (by simp [hpc, Pc.phase])
      constructor <;> simp [Pc.isFor, Pc.phase, hbegun, hchecked, h0]
  | wait =>
    simp only [hpc] at hstep
    split_ifs at hstep
    obtain rfl := Option.some.inj hstep
    simp [State.goTo] at hok
  | search pid j k =>
    simp only [hpc] at hstep
    split_ifs at hstep
    all_goals
      obtain rfl := Option.some.inj hstep
      exact h.stay rfl rfl (by rw [hpc]; rfl) trivial (by simp) (by simp)
  | found pid j k =>
    simp only [hpc, Option.some.injEq] at hstep
    subst hstep
    exact h.stay rfl rfl (by rw [hpc]; rfl) trivial (by simp) (by simp)
  | loopEnd =>
    simp only [hpc, Option.some.injEq] at hstep
    subst hstep
    have hchecked := hreached.checked
    have hall := hreached.allForked
    split_ifs with hn h0
    · exact h.stay rfl rfl (by rw [hpc]; rfl) trivial (by simp) (by simp)
    · refine h.advance rfl rfl ?_ ?_ ?_
      · simp [hpc, Pc.phase]
      · funext name
        cases name <;> simp [hpc, Pc.phase, published]
      · constructor <;> simp [Pc.isFor, Pc.phase, h0]
        simpa [hpc, Pc.phase] using hall h0
    · refine h.advance rfl rfl ?_ ?_ ?_
      · simp [hpc, Pc.phase]
      · funext name
        cases name <;> simp [hpc, Pc.phase, published]
      · have hbegun := hreached.begun h0 (by simp [hpc, Pc.phase])
        constructor <;> simp [Pc.isFor, Pc.phase, h0, hbegun]
        simpa [hpc, Pc.phase] using hchecked h0
  | importDone i =>
    rw [hpc] at hfor
    obtain rfl : t = 0 := hfor
    obtain ⟨hpos, hsome⟩ := hreached.someDone i hpc
    have hall := hreached.allForked rfl (by simp [hpc, Pc.phase])
    simp only [hpc] at hstep
    split_ifs at hstep with hi hdone
    · obtain rfl := Option.some.inj hstep
      have hnext : 6 ≤ s.phase i :=
        (by simpa [published] using (h.exported_iff i .done).mp hdone : ¬ i = 0 ∧ 6 ≤ s.phase i).2
      refine h.advance rfl rfl ?_ ?_ ?_
      · simp [hpc, Pc.phase]
      · rw [hpc]
        rfl
      · constructor <;> simp [Pc.isFor, Pc.phase]
        · exact hall
        · intro u hu h0
          obtain hlt | rfl := Nat.lt_or_eq_of_le hu
          · exact hsome u hlt h0
          · exact hnext
    · obtain rfl := Option.some.inj hstep
      refine h.advance rfl rfl ?_ ?_ ?_
      · simp [hpc, Pc.phase]
      · funext name
        cases name <;> simp [hpc, Pc.phase, published]
      · constructor <;> simp [Pc.isFor, Pc.phase]
        · exact hall
        · exact fun u hu => hsome u (by omega)
  | exportDone =>
    simp only [hpc, Option.some.injEq] at hstep
    subst hstep
    rw [hpc] at hfor
    have h0 : t ≠ 0 := hfor
    refine h.export .done rfl rfl ?_ ?_ ?_
    · simp [hpc, Pc.phase]
    · funext name
      cases name <;> simp [hpc, Pc.phase, published, h0]
    · have hbegun := hreached.begun h0 (by simp [hpc, Pc.phase])
      have hchecked := hreached.checked h0 (by simp [hpc, Pc.phase])
      constructor <;> simp [Pc.isFor, Pc.phase, h0, hbegun, hchecked]
  | finished => simp [hpc] at hstep
  | failed => simp [hpc] at hstep

lemma Handshake.forked_of_waiting (h : Handshake ntasks s) {u : ℕ} (hphase : 4 ≤ s.phase u) (t : ℕ)
    (ht : t < ntasks) : 3 ≤ s.phase t := by
  have hroot : 4 ≤ s.phase 0 := by
    obtain rfl | h0 := eq_or_ne u 0
    · exact hphase
    · exact (h.reached u).checked h0 hphase
  obtain rfl | h0 := eq_or_ne t 0
  · omega
  · exact (h.reached 0).allForked rfl hroot t ht h0

end Handshake

end PipTestsuite.Fork
