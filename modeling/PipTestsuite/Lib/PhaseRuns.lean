import PipTestsuite.Lib.BarrierPhases

/-! Runs in which the participants of a barrier do what they have to do in a phase one after another. -/
namespace BarrierProgram
variable {ι α κ δ : Type*} {exec : Exec ι α κ δ}

/-- The participant can do these actions in a row. -/
inductive Does (exec : Exec ι α κ δ) (i : ι) : List α → δ → δ → Prop where
  | nil (d : δ) : Does exec i [] d d
  | cons {a : α} {l : List α} {d d' d'' : δ} (choice : κ) (hpass : exec i a choice d = (d', .pass))
      (hrest : Does exec i l d' d'') : Does exec i (a :: l) d d''

/-- Some participants can do their actions in this order. -/
inductive DoAll (exec : Exec ι α κ δ) (l : ι → List α) : List ι → δ → δ → Prop where
  | nil (d : δ) : DoAll exec l [] d d
  | cons {i : ι} {is : List ι} {d d' d'' : δ} (hdoes : Does exec i (l i) d d') (hrest : DoAll exec l is d' d'') :
      DoAll exec l (i :: is) d d''

lemma Does.append {i : ι} {l m : List α} {d d' d'' : δ} (h : Does exec i l d d') (hm : Does exec i m d' d'') :
    Does exec i (l ++ m) d d'' := by
  induction h with
  | nil d => exact hm
  | cons choice hpass _ ih => exact .cons choice hpass (ih hm)

/-- What each of them can keep while doing its actions all of them can keep. -/
lemma DoAll.exists_of_kept (exec : Exec ι α κ δ) {P : δ → Prop} {l : ι → List α}
    (h : ∀ i d, P d → ∃ d', Does exec i (l i) d d' ∧ P d') (order : List ι) {d : δ} (hd : P d) :
    ∃ d', DoAll exec l order d d' ∧ P d' := by
  induction order generalizing d with
  | nil => exact ⟨d, .nil d, hd⟩
  | cons i order ih =>
    obtain ⟨d', hdoes, hd'⟩ := h i d hd
    obtain ⟨d'', hrest, hd''⟩ := ih hd'
    exact ⟨d'', .cons hdoes hrest, hd''⟩

variable [Fintype ι] [DecidableEq ι]

/-- Some schedule leads from one configuration to the other. -/
def Leads (exec : Exec ι α κ δ) (c c' : Config ι α δ) : Prop :=
  ∃ schedule, Interleaving.run (Config.step exec) c schedule = c'

lemma Leads.refl (c : Config ι α δ) : Leads exec c c := ⟨[], rfl⟩

lemma Leads.trans {c c' c'' : Config ι α δ} (h : Leads exec c c') (h' : Leads exec c' c'') : Leads exec c c'' := by
  obtain ⟨schedule, rfl⟩ := h
  obtain ⟨more, rfl⟩ := h'
  exact ⟨schedule ++ more, Interleaving.run_append ..⟩

lemma Leads.step {c c' : Config ι α δ} {e : Event ι κ} (h : c.step exec e = some c') : Leads exec c c' :=
  ⟨[e], by rw [Interleaving.run, List.foldl_cons, h]; rfl⟩

lemma Leads.act {c : Config ι α δ} {i : ι} {a : α} {rest : List (Instr α)} {choice : κ} {d : δ}
    (hin : c.sync.inside i = none) (htodo : c.sync.todo i = .act a :: rest)
    (hpass : exec i a choice c.data = (d, .pass)) :
    Leads exec c ⟨{ c.sync with
      todo := Function.update c.sync.todo i rest
      log := c.sync.log ++ [(i, a)] }, d⟩ := by
  refine .step (e := .act i choice) ?_
  simp [Config.step, hin, htodo, hpass, step_act hin htodo]

lemma Does.leads {i : ι} {l : List α} {d d' : δ} (h : Does exec i l d d') {s : State ι α} {rest : List (Instr α)}
    (hin : s.inside i = none) (htodo : s.todo i = l.map .act ++ rest) :
    ∃ log, Leads exec ⟨s, d⟩ ⟨{ s with todo := Function.update s.todo i rest, log := log }, d'⟩ := by
  induction h generalizing s with
  | nil d =>
    refine ⟨s.log, ?_⟩
    rw [show Function.update s.todo i rest = s.todo by rw [Function.update_eq_self_iff, htodo]; rfl]
    exact .refl _
  | @cons a l d d' d'' choice hpass _ ih =>
    set t : State ι α := { s with
      todo := Function.update s.todo i (l.map .act ++ rest)
      log := s.log ++ [(i, a)] } with ht
    have hact : Leads exec ⟨s, d⟩ ⟨t, d'⟩ := Leads.act hin htodo hpass
    obtain ⟨log, hlog⟩ := ih (s := t) hin (Function.update_self ..)
    refine ⟨log, hact.trans ?_⟩
    simpa only [ht, Function.update_idem] using hlog

section Phase
variable (l : ι → List α) (rest : ι → List (Instr α)) (failed : ι → Bool) (gen : ℕ)

/-- Some have done their actions and arrived at the barrier. -/
def arriving (arrived : Finset ι) (log : List (ι × α)) : State ι α where
  todo i := if i ∈ arrived then .wait :: rest i else (l i).map .act ++ .wait :: rest i
  inside i := if i ∈ arrived then some gen else none
  failed := failed
  gen := gen
  log := log

/-- All have arrived, and some have left the barrier. -/
def leaving (gone : Finset ι) (log : List (ι × α)) : State ι α where
  todo i := if i ∈ gone then rest i else .wait :: rest i
  inside i := if i ∈ gone then none else some gen
  failed := failed
  gen := gen + 1
  log := log

lemma leads_arriving {arrived : Finset ι} {i : ι} (hi : i ∉ arrived) {d d' : δ} (h : Does exec i (l i) d d')
    (log : List (ι × α)) : ∃ log', Leads exec ⟨arriving l rest failed gen arrived log, d⟩
      ⟨release (arriving l rest failed gen (insert i arrived) log'), d'⟩ := by
  have hin : (arriving l rest failed gen arrived log).inside i = none := if_neg hi
  obtain ⟨log', hdone⟩ := h.leads hin (if_neg hi)
  refine ⟨log', hdone.trans (.step (e := .arrive i) ?_)⟩
  have htodo : Function.update (arriving l rest failed gen arrived log).todo i (.wait :: rest i) =
      (arriving l rest failed gen (insert i arrived) log').todo := by
    funext j
    by_cases hj : j = i
    · subst hj
      simp [arriving]
    · simp [arriving, hj]
  have hinside : Function.update (arriving l rest failed gen arrived log).inside i (some gen) =
      (arriving l rest failed gen (insert i arrived) log').inside := by
    funext j
    by_cases hj : j = i
    · subst hj
      simp [arriving]
    · simp [arriving, hj]
  have harrive := step_arrive (s := { arriving l rest failed gen arrived log with
    todo := Function.update (arriving l rest failed gen arrived log).todo i (.wait :: rest i)
    log := log' }) hin (Function.update_self ..)
  rw [Config.step, harrive, Option.map_some]
  have hstate := congrArg₂ (fun todo inside => ({ todo, inside, failed, gen, log := log' } : State ι α)) htodo hinside
  exact congrArg (fun s => some (⟨release s, d'⟩ : Config ι α δ)) hstate

/-- All of them do their actions and arrive, the last one at a barrier that lets them go. -/
lemma leads_released {order : List ι} {arrived : Finset ι} (hnodup : order.Nodup) (hnew : ∀ i ∈ order, i ∉ arrived)
    (hall : ∀ i, i ∈ arrived ∨ i ∈ order) (hne : order ≠ []) {d d' : δ} (h : DoAll exec l order d d')
    (log : List (ι × α)) : ∃ log', Leads exec ⟨arriving l rest failed gen arrived log, d⟩
      ⟨leaving rest failed gen ∅ log', d'⟩ := by
  induction h generalizing arrived log with
  | nil d => exact absurd rfl hne
  | @cons i is d d' d'' hdoes hrest ih =>
    obtain ⟨log₁, hfirst⟩ := leads_arriving l rest failed gen (hnew i List.mem_cons_self) hdoes log
    obtain ⟨hi, hnodup⟩ := List.nodup_cons.mp hnodup
    by_cases hlast : is = []
    · subst hlast
      cases hrest
      have hinside : ∀ j, j ∈ insert i arrived := fun j => by
        obtain hj | hj := hall j
        · exact Finset.mem_insert_of_mem hj
        · rw [List.mem_singleton.mp hj]
          exact Finset.mem_insert_self i arrived
      have hrelease : release (arriving l rest failed gen (insert i arrived) log₁) =
          leaving rest failed gen ∅ log₁ := by
        have hin : ∀ j, (arriving l rest failed gen (insert i arrived) log₁).inside j =
            some (arriving l rest failed gen (insert i arrived) log₁).gen := fun j => if_pos (hinside j)
        rw [release, if_pos hin]
        simp only [arriving, leaving, hinside, if_true, Finset.notMem_empty, if_false]
      exact ⟨log₁, hrelease ▸ hfirst⟩
    · obtain ⟨j, hj⟩ := List.exists_mem_of_ne_nil is hlast
      have hstays : ∀ m ∈ is, m ∉ insert i arrived := fun m hm hmem => by
        obtain rfl | hmem := Finset.mem_insert.mp hmem
        · exact hi hm
        · exact hnew m (List.mem_cons_of_mem i hm) hmem
      have hrelease : release (arriving l rest failed gen (insert i arrived) log₁) =
          arriving l rest failed gen (insert i arrived) log₁ := by
        refine if_neg fun hinside => ?_
        cases (hinside j).symm.trans (if_neg (hstays j hj))
      have hothers : ∀ m, m ∈ insert i arrived ∨ m ∈ is := fun m => by
        obtain hm | hm := hall m
        · exact .inl (Finset.mem_insert_of_mem hm)
        · obtain rfl | hm := List.mem_cons.mp hm
          · exact .inl (Finset.mem_insert_self m arrived)
          · exact .inr hm
      obtain ⟨log₂, hsecond⟩ := ih hnodup hstays hothers hlast log₁
      exact ⟨log₂, (hrelease ▸ hfirst).trans hsecond⟩

/-- All of them leave the barrier. -/
lemma leads_left (exec : Exec ι α κ δ) (gone : Finset ι) (log : List (ι × α)) (d : δ) :
    Leads exec ⟨leaving rest failed gen gone log, d⟩ ⟨leaving rest failed gen Finset.univ log, d⟩ := by
  induction hn : goneᶜ.card using Nat.strong_induction_on generalizing gone with
  | _ n ih =>
    by_cases hall : gone = Finset.univ
    · rw [hall]
      exact .refl _
    · obtain ⟨i, hi⟩ : ∃ i, i ∉ gone := by simpa [Finset.eq_univ_iff_forall] using hall
      have hlt : (insert i gone)ᶜ.card < n := by
        rw [Finset.compl_insert, ← hn]
        exact Finset.card_erase_lt_of_mem (Finset.mem_compl.mpr hi)
      refine Leads.trans (.step (e := .leave i) ?_) (ih _ hlt (insert i gone) rfl)
      have hleave := step_leave (s := leaving rest failed gen gone log) (i := i) (if_neg hi) (Nat.lt_succ_self gen)
      have htodo : Function.update (leaving rest failed gen gone log).todo i
          ((leaving rest failed gen gone log).todo i).tail = (leaving rest failed gen (insert i gone) log).todo := by
        funext j
        by_cases hj : j = i
        · subst hj
          simp [leaving, hi]
        · simp [leaving, hj]
      have hinside : Function.update (leaving rest failed gen gone log).inside i none =
          (leaving rest failed gen (insert i gone) log).inside := by
        funext j
        by_cases hj : j = i
        · subst hj
          simp [leaving]
        · simp [leaving, hj]
      rw [Config.step, hleave, Option.map_some, htodo, hinside]
      rfl

end Phase

/-- A phase in which all do their actions, in this order, and go through the barrier. -/
theorem DoAll.leads {l : ι → List α} {order : List ι} {d d' : δ} (h : DoAll exec l order d d') (hnodup : order.Nodup)
    (hall : ∀ i, i ∈ order) (hne : order ≠ []) (rest : ι → List (Instr α)) {s : State ι α}
    (htodo : ∀ i, s.todo i = (l i).map .act ++ .wait :: rest i) (hinside : ∀ i, s.inside i = none) :
    ∃ log, Leads exec ⟨s, d⟩ ⟨{ s with todo := rest, gen := s.gen + 1, log := log }, d'⟩ := by
  have hstart : s = arriving l rest s.failed s.gen ∅ s.log := by
    have htodo' : s.todo = (arriving l rest s.failed s.gen ∅ s.log).todo := funext htodo
    have hinside' : s.inside = (arriving l rest s.failed s.gen ∅ s.log).inside := funext hinside
    exact congrArg₂ (fun todo inside => { s with todo, inside }) htodo' hinside'
  obtain ⟨log, hreleased⟩ := leads_released l rest s.failed s.gen hnodup (fun _ _ => Finset.notMem_empty _)
    (fun i => .inr (hall i)) hne h s.log
  rw [← hstart] at hreleased
  have hend : leaving rest s.failed s.gen Finset.univ log =
      { s with todo := rest, gen := s.gen + 1, log := log } := by
    simp only [leaving, Finset.mem_univ, if_true, funext hinside]
  exact ⟨log, hend ▸ hreleased.trans (leads_left rest s.failed s.gen exec ∅ log d')⟩

/-- What each of them can keep while doing its actions holds behind the barrier, if they come one after another. -/
theorem exists_leads_of_kept [Nonempty ι] (exec : Exec ι α κ δ) {P : δ → Prop} {l : ι → List α}
    (h : ∀ i d, P d → ∃ d', Does exec i (l i) d d' ∧ P d') (rest : ι → List (Instr α)) {s : State ι α} {d : δ}
    (hd : P d) (htodo : ∀ i, s.todo i = (l i).map .act ++ .wait :: rest i) (hinside : ∀ i, s.inside i = none) :
    ∃ log d', P d' ∧ Leads exec ⟨s, d⟩ ⟨{ s with todo := rest, gen := s.gen + 1, log := log }, d'⟩ := by
  have hall : ∀ i : ι, i ∈ Finset.univ.toList := fun i => by simp
  obtain ⟨d', hdo, hd'⟩ := DoAll.exists_of_kept exec h Finset.univ.toList hd
  obtain ⟨log, hlead⟩ := hdo.leads (Finset.nodup_toList _) hall (List.ne_nil_of_mem (hall (Classical.arbitrary ι)))
    rest htodo hinside
  exact ⟨log, d', hd', hlead⟩

end BarrierProgram
