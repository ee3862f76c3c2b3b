import Mathlib.Tactic

/-! Runs of guarded steps under a schedule that picks any step at any time, and the rule that carries an
invariant from one step to all runs. -/
namespace Interleaving
variable {σ α : Type*} {step : σ → α → Option σ} {P : σ → Prop} {s : σ}

/-- The state after a schedule; a step that is not possible is passed over. -/
def run (step : σ → α → Option σ) (s : σ) (schedule : List α) : σ :=
  schedule.foldl (fun s a => (step s a).getD s) s

lemma run_concat (step : σ → α → Option σ) (s : σ) (schedule : List α) (a : α) :
    run step s (schedule ++ [a]) = (step (run step s schedule) a).getD (run step s schedule) := by
  rw [run, List.foldl_append, List.foldl_cons, List.foldl_nil, ← run]

lemma run_append (step : σ → α → Option σ) (s : σ) (schedule more : List α) :
    run step s (schedule ++ more) = run step (run step s schedule) more := List.foldl_append

/-- Where some step lowers a measure as long as the goal is not met, a run can be continued up to it. -/
theorem exists_run_of_measure {goal : σ → Prop} (measure : σ → ℕ)
    (hstep : ∀ s, P s → goal s ∨ ∃ a s', step s a = some s' ∧ P s' ∧ measure s' < measure s) (hs : P s) :
    ∃ more, goal (run step s more) := by
  induction hn : measure s using Nat.strong_induction_on generalizing s with
  | _ n ih =>
    obtain hgoal | ⟨a, s', hs', hP, hlt⟩ := hstep s hs
    · exact ⟨[], hgoal⟩
    · obtain ⟨more, hmore⟩ := ih (measure s') (hn ▸ hlt) hP rfl
      refine ⟨a :: more, ?_⟩
      rwa [run, List.foldl_cons, hs', Option.getD_some, ← run]

/-- What holds at the start and is kept by each step holds after each schedule. -/
theorem run_inv (hstart : P s) (hstep : ∀ s a s', P s → step s a = some s' → P s') (schedule : List α) :
    P (run step s schedule) := by
  induction schedule using List.reverseRecOn with
  | nil => exact hstart
  | append_singleton schedule a ih =>
    rw [run_concat]
    cases h : step (run step s schedule) a with
    | none => exact ih
    | some s' => exact hstep _ a s' ih h

/-- The same for the states of one run, when its own steps keep the property. -/
lemma run_inv_of_steps {schedule : List α} (hstart : P s)
    (hstep : ∀ l a s', l ++ [a] <+: schedule → P (run step s l) → step (run step s l) a = some s' → P s')
    {l : List α} (hl : l <+: schedule) : P (run step s l) := by
  induction l using List.reverseRecOn with
  | nil => exact hstart
  | append_singleton l a ih =>
    have hkept := ih ((List.prefix_append l [a]).trans hl)
    rw [run_concat]
    cases h : step (run step s l) a with
    | none => exact hkept
    | some s' => exact hstep l a s' hl hkept h

/-- A run has a property in all its states if and only if all its steps meet a condition, when a step that meets
it keeps an invariant and a step that does not leads to a state without the property. -/
theorem run_states_iff {inv : σ → Prop} {cond : σ → α → Prop} (hstart : inv s) (hinv : ∀ s, inv s → P s)
    (hkeep : ∀ s a s', inv s → step s a = some s' → cond s a → inv s')
    (hbreak : ∀ s a s', inv s → step s a = some s' → ¬ cond s a → ¬ P s') (schedule : List α) :
    (∀ l, l <+: schedule → P (run step s l)) ↔
      ∀ l a s', l ++ [a] <+: schedule → step (run step s l) a = some s' → cond (run step s l) a := by
  constructor
  · intro hstates l a s' hl hstep
    have hcond : ∀ l a s', l ++ [a] <+: schedule → inv (run step s l) → step (run step s l) a = some s' →
        cond (run step s l) a := by
      intro l a s' hl hinv' hstep
      by_contra hnot
      apply hbreak _ a s' hinv' hstep hnot
      have hafter := hstates _ hl
      rwa [run_concat, hstep, Option.getD_some] at hafter
    have hkept : inv (run step s l) :=
      run_inv_of_steps hstart (fun l a s' hl hinv' hstep => hkeep _ a s' hinv' hstep (hcond l a s' hl hinv' hstep))
        ((List.prefix_append l [a]).trans hl)
    exact hcond l a s' hl hkept hstep
  · intro hcond l hl
    exact hinv _ (run_inv_of_steps hstart
      (fun l a s' hl hinv' hstep => hkeep _ a s' hinv' hstep (hcond l a s' hl hstep)) hl)

end Interleaving
