import PipTestsuite.Lib.BarrierProgram

/-! Participants of one barrier that work on shared data. Within a phase they interleave freely, and the
barrier parts the phases: what holds of the data is shown phase by phase, or, where each phase has one
owner, action by action along the turns. -/
namespace BarrierProgram

/-- What an action comes to: it goes on, it is over, or it has failed. -/
inductive Verdict where
  | again | pass | fail
  deriving DecidableEq

/-- What a participant's action does to the data, under a choice of its environment. -/
abbrev Exec (ι α κ δ : Type*) := ι → α → κ → δ → δ × Verdict

inductive Event (ι κ : Type*) where
  | act (i : ι) (choice : κ)
  | arrive (i : ι)
  | leave (i : ι)
  deriving DecidableEq

structure Config (ι α δ : Type*) where
  sync : State ι α
  data : δ

variable {ι α κ δ : Type*}

section Steps
variable [Fintype ι] [DecidableEq ι]

def Config.step (exec : Exec ι α κ δ) (c : Config ι α δ) : Event ι κ → Option (Config ι α δ)
  | .act i choice =>
    match c.sync.inside i, c.sync.todo i with
    | none, .act a :: _ =>
      match exec i a choice c.data with
      | (d, .again) => some ⟨c.sync, d⟩
      | (d, .pass) => (BarrierProgram.step c.sync (.act i true)).map (⟨·, d⟩)
      | (d, .fail) => (BarrierProgram.step c.sync (.act i false)).map (⟨·, d⟩)
    | _, _ => none
  | .arrive i => (BarrierProgram.step c.sync (.arrive i)).map (⟨·, c.data⟩)
  | .leave i => (BarrierProgram.step c.sync (.leave i)).map (⟨·, c.data⟩)

def Config.run (exec : Exec ι α κ δ) (prog : ι → List (Instr α)) (d : δ) (schedule : List (Event ι κ)) :
    Config ι α δ :=
  Interleaving.run (Config.step exec) ⟨start prog, d⟩ schedule

end Steps

/-- What the participants have still to do in the current phase. -/
def current (s : State ι α) (i : ι) : List α := phase (left s i) 0

section Invariant
variable {prog : ι → List (Instr α)} {exec : Exec ι α κ δ} {c c' : Config ι α δ} {e : Event ι κ}
variable {s : State ι α}

lemma current_arrive [DecidableEq ι] {i : ι} (hin : s.inside i = none) :
    current { s with inside := Function.update s.inside i (some s.gen) } = current s := by
  funext j
  rw [current, left_arrive hin, current]

lemma current_leave [DecidableEq ι] {i : ι} {g : ℕ} (hin : s.inside i = some g) (hg : g < s.gen) :
    current { s with
      todo := Function.update s.todo i (s.todo i).tail
      inside := Function.update s.inside i none } = current s := by
  funext j
  rw [current, left_leave hin hg, current]

lemma current_act [DecidableEq ι] {i : ι} {x : α} {rest : List (Instr α)} (hin : s.inside i = none) :
    current { s with
      todo := Function.update s.todo i rest
      log := s.log ++ [(i, x)] } = Function.update (current s) i (phase rest 0) := by
  funext j
  by_cases hji : j = i
  · subst hji
    simp [current, left, hin]
  · simp [current, left, hji]

/-- A claim about the data in each phase, and about what is still to do there. It holds at the start, no
action of the phase fails or breaks it, and with the phase done it holds of the next one. -/
structure PhaseRule (prog : ι → List (Instr α)) (exec : Exec ι α κ δ) (d : δ)
    (Q : ℕ → δ → (ι → List α) → Prop) [DecidableEq ι] : Prop where
  start : Q 0 d fun i => phase (prog i) 0
  again : ∀ k d d' todo i a l choice, Q k d todo → todo i = a :: l →
    exec i a choice d = (d', .again) → Q k d' todo
  pass : ∀ k d d' todo i a l choice, Q k d todo → todo i = a :: l →
    exec i a choice d = (d', .pass) → Q k d' (Function.update todo i l)
  fail : ∀ k d todo i a l choice, Q k d todo → todo i = a :: l → (exec i a choice d).2 ≠ .fail
  next : ∀ k d, (∀ i, k < waits (prog i)) → Q k d (fun _ => []) → Q (k + 1) d fun i => phase (prog i) (k + 1)

/-- Nobody has failed, and the claim holds of the current phase. -/
structure Config.Inv (prog : ι → List (Instr α)) (Q : ℕ → δ → (ι → List α) → Prop) (c : Config ι α δ) :
    Prop extends Placed prog c.sync where
  ok : ∀ i, c.sync.failed i = false
  outside : ∃ i, c.sync.inside i ≠ some c.sync.gen
  claim : Q c.sync.gen c.data (current c.sync)

/-- Where everybody is at the end, the last phase is done. -/
theorem Config.Inv.claim_finished [Nonempty ι] {Q : ℕ → δ → (ι → List α) → Prop}
    (h : c.Inv prog Q) {n : ℕ} (hn : ∀ i, waits (prog i) = n)
    (hend : Finished c.sync) : Q n c.data fun _ => [] := by
  have hleft : ∀ i, left c.sync i = [] := by
    intro i
    unfold left
    split
    · simp [hend i]
    · exact hend i
  obtain ⟨i⟩ := ‹Nonempty ι›
  have hgen : c.sync.gen = n := by
    have := (h.pos i (h.ok i)).waits
    rw [hleft, hn] at this
    simpa [waits] using this
  have hcurrent : current c.sync = fun _ => [] := funext fun j => by rw [current, hleft, phase]
  rw [← hgen, ← hcurrent]
  exact h.claim

section Steps
variable [Fintype ι] [DecidableEq ι] {d : δ} {Q : ℕ → δ → (ι → List α) → Prop}

/-- What a step of a configuration can do. -/
lemma Config.step_cases (h : c.step exec e = some c') :
    (∃ i choice a rest d, e = .act i choice ∧ c.sync.inside i = none ∧ c.sync.todo i = .act a :: rest ∧
      ((exec i a choice c.data = (d, .again) ∧ c' = ⟨c.sync, d⟩) ∨
        ∃ ok s, exec i a choice c.data = (d, if ok then .pass else .fail) ∧
          BarrierProgram.step c.sync (.act i ok) = some s ∧ c' = ⟨s, d⟩)) ∨
    (∃ i s, e = .arrive i ∧ BarrierProgram.step c.sync (.arrive i) = some s ∧ c' = ⟨s, c.data⟩) ∨
    (∃ i s, e = .leave i ∧ BarrierProgram.step c.sync (.leave i) = some s ∧ c' = ⟨s, c.data⟩) := by
  cases e with
  | act i choice =>
    simp only [Config.step] at h
    split at h
    · rename_i a rest hin htodo
      split at h
      · rename_i d hexec
        exact .inl ⟨i, choice, a, rest, d, rfl, hin, htodo, .inl ⟨hexec, (Option.some.inj h).symm⟩⟩
      · rename_i d hexec
        obtain ⟨s, hs, rfl⟩ := Option.map_eq_some_iff.mp h
        exact .inl ⟨i, choice, a, rest, d, rfl, hin, htodo, .inr ⟨true, s, hexec, hs, rfl⟩⟩
      · rename_i d hexec
        obtain ⟨s, hs, rfl⟩ := Option.map_eq_some_iff.mp h
        exact .inl ⟨i, choice, a, rest, d, rfl, hin, htodo, .inr ⟨false, s, hexec, hs, rfl⟩⟩
    · cases h
  | arrive i =>
    obtain ⟨s, hs, rfl⟩ := Option.map_eq_some_iff.mp h
    exact .inr (.inl ⟨i, s, rfl, hs, rfl⟩)
  | leave i =>
    obtain ⟨s, hs, rfl⟩ := Option.map_eq_some_iff.mp h
    exact .inr (.inr ⟨i, s, rfl, hs, rfl⟩)

/-- What the barrier programs can do, some event of the environment does. -/
lemma Config.exists_step [Nonempty κ] (exec : Exec ι α κ δ) {a : Action ι}
    (h : BarrierProgram.step c.sync a = some s) : ∃ e c', c.step exec e = some c' := by
  obtain ⟨choice⟩ := ‹Nonempty κ›
  obtain ⟨i, ok, x, rest, rfl, hin, htodo, -⟩ | ⟨i, rest, rfl, -⟩ | ⟨i, g, rfl, -⟩ :=
    BarrierProgram.step_cases h
  · rcases hexec : exec i x choice c.data with ⟨d, v⟩
    refine ⟨.act i choice, ?_⟩
    cases v <;> simp [Config.step, hin, htodo, hexec, step_act hin htodo]
  · exact ⟨.arrive i, ⟨s, c.data⟩, by simp [Config.step, h]⟩
  · exact ⟨.leave i, ⟨s, c.data⟩, by simp [Config.step, h]⟩

lemma release_claim (hrule : PhaseRule prog exec d Q) {s : State ι α} {d' : δ} (hplaced : Placed prog s)
    (hQ : Q s.gen d' (current s)) : Q (release s).gen d' (current (release s)) := by
  have hreleased := hplaced.release
  unfold release at hreleased ⊢
  split_ifs with hall
  · rw [if_pos hall] at hreleased
    have hend : current s = fun _ => [] := funext fun i => (hplaced.next_phase hall i).1
    have hbegin : current { s with gen := s.gen + 1 } = fun i => phase (prog i) (s.gen + 1) :=
      funext fun i => (hplaced.next_phase hall i).2
    rw [hend] at hQ
    rw [hbegin]
    exact hrule.next s.gen d' hreleased.gen_le hQ
  · exact hQ

theorem Config.step_inv [Nonempty ι] (hrule : PhaseRule prog exec d Q) (h : c.Inv prog Q)
    (hstep : c.step exec e = some c') : c'.Inv prog Q := by
  obtain ⟨i, choice, a, rest, d', -, hin, htodo, ⟨hexec, rfl⟩ | ⟨ok, s, hexec, hs, rfl⟩⟩ |
    ⟨i, s, -, hs, rfl⟩ | ⟨i, s, -, hs, rfl⟩ := Config.step_cases hstep
  · have hcurrent : current c.sync i = a :: phase rest 0 := by simp [current, left, hin, htodo, phase]
    exact { h with claim := hrule.again _ _ _ _ i a _ choice h.claim hcurrent hexec }
  · have hcurrent : current c.sync i = a :: phase rest 0 := by simp [current, left, hin, htodo, phase]
    have hok : ok = true := by
      cases ok with
      | true => rfl
      | false => exact absurd (by rw [hexec]; rfl) (hrule.fail _ _ _ i a _ choice h.claim hcurrent)
    subst hok
    have hpost := hrule.pass _ _ _ _ i a _ choice h.claim hcurrent hexec
    refine ⟨step_placed h.toPlaced hs, ?_, step_outside h.outside hs, ?_⟩
    · rw [step_act hin htodo] at hs
      obtain rfl := Option.some.inj hs
      exact h.ok
    · rw [step_act hin htodo] at hs
      obtain rfl := Option.some.inj hs
      simpa only [if_true, current_act hin] using hpost
  · have hplaced := step_placed h.toPlaced hs
    have hout := step_outside h.outside hs
    obtain ⟨i, ok, x, rest, ha, -⟩ | ⟨i, rest, -, hin, htodo, rfl⟩ | ⟨i, g, ha, -⟩ := BarrierProgram.step_cases hs
    · cases ha
    · refine ⟨hplaced, fun j => by rw [release_failed]; exact h.ok j, hout, ?_⟩
      refine release_claim hrule (h.toPlaced.arrive hin htodo) ?_
      rw [current_arrive hin]
      exact h.claim
    · cases ha
  · have hplaced := step_placed h.toPlaced hs
    have hout := step_outside h.outside hs
    obtain ⟨i, ok, x, rest, ha, -⟩ | ⟨i, rest, ha, -⟩ | ⟨i, g, -, hin, hg, rfl⟩ := BarrierProgram.step_cases hs
    · cases ha
    · cases ha
    · refine ⟨hplaced, h.ok, hout, ?_⟩
      rw [current_leave hin hg]
      exact h.claim

/-- Who has failed does not come back. -/
lemma Config.step_failed {i : ι} (hfailed : c.sync.failed i = true) (hstep : c.step exec e = some c') :
    c'.sync.failed i = true := by
  obtain ⟨j, choice, a, rest, d', -, hin, htodo, ⟨-, rfl⟩ | ⟨ok, s, -, hs, rfl⟩⟩ |
    ⟨j, s, -, hs, rfl⟩ | ⟨j, s, -, hs, rfl⟩ := Config.step_cases hstep
  · exact hfailed
  · rw [step_act hin htodo] at hs
    obtain rfl := Option.some.inj hs
    cases ok with
    | true => exact hfailed
    | false =>
      by_cases hij : i = j
      · simp [hij]
      · simpa [Function.update_of_ne hij] using hfailed
  · obtain ⟨j, ok, x, rest, ha, -⟩ | ⟨j, rest, -, hin, htodo, rfl⟩ | ⟨j, g, ha, -⟩ := BarrierProgram.step_cases hs
    · cases ha
    · rwa [release_failed]
    · cases ha
  · obtain ⟨j, ok, x, rest, ha, -⟩ | ⟨j, rest, ha, -⟩ | ⟨j, g, -, hin, hg, rfl⟩ := BarrierProgram.step_cases hs
    · cases ha
    · cases ha
    · exact hfailed

/-- The same where the actions may fail, but do else what those of the rule do. -/
theorem Config.step_inv_or_failed [Nonempty ι] {lenient : Exec ι α κ δ} (hrule : PhaseRule prog lenient d Q)
    (hlenient : ∀ i a choice d, (exec i a choice d).2 ≠ .fail → lenient i a choice d = exec i a choice d)
    (h : c.Inv prog Q) (hstep : c.step exec e = some c') : c'.Inv prog Q ∨ ∃ i, c'.sync.failed i = true := by
  have hsame : c.step lenient e = some c' → c'.Inv prog Q ∨ ∃ i, c'.sync.failed i = true := fun hstep' =>
    .inl (Config.step_inv hrule h hstep')
  obtain ⟨i, choice, a, rest, d', rfl, hin, htodo, ⟨hexec, rfl⟩ | ⟨ok, s, hexec, hs, rfl⟩⟩ |
    ⟨i, s, rfl, hs, rfl⟩ | ⟨i, s, rfl, hs, rfl⟩ := Config.step_cases hstep
  · have hexec' := hlenient i a choice c.data (by rw [hexec]; exact Verdict.noConfusion)
    refine hsame ?_
    simp only [Config.step, hin, htodo, hexec', hexec]
  · cases ok with
    | true =>
      have hexec' := hlenient i a choice c.data (by rw [hexec]; exact Verdict.noConfusion)
      refine hsame ?_
      simp only [Config.step, hin, htodo, hexec', hexec, if_true, hs, Option.map_some]
    | false =>
      rw [step_act hin htodo] at hs
      obtain rfl := Option.some.inj hs
      exact .inr ⟨i, Function.update_self ..⟩
  · refine hsame ?_
    simp only [Config.step, hs, Option.map_some]
  · refine hsame ?_
    simp only [Config.step, hs, Option.map_some]

/-- In every run nobody fails, and the claim holds of each phase. -/
theorem Config.run_inv [Nonempty ι] (hrule : PhaseRule prog exec d Q) (schedule : List (Event ι κ)) :
    (Config.run exec prog d schedule).Inv prog Q := by
  refine Interleaving.run_inv ⟨start_placed prog, fun _ => rfl, ?_, hrule.start⟩
    (fun _ _ _ h hstep => Config.step_inv hrule h hstep) schedule
  obtain ⟨i⟩ := ‹Nonempty ι›
  exact ⟨i, by simp [start]⟩

/-- Who has an action to do in the current phase stands before it, or has still to leave the barrier. -/
lemma act_or_leave (hplaced : Placed prog s) {i : ι} {a : α} {l : List α} (hcurrent : current s i = a :: l) :
    (s.inside i = none ∧ ∃ rest, s.todo i = .act a :: rest) ∨ ∃ s', BarrierProgram.step s (.leave i) = some s' := by
  cases hin : s.inside i with
  | some g =>
    obtain ⟨-, -, rest, htodo⟩ := hplaced.inside i g hin
    by_cases hg : g < s.gen
    · exact .inr ⟨_, step_leave hin hg⟩
    · simp [current, left, hin, hg, htodo, phase] at hcurrent
  | none =>
    simp only [current, left, hin] at hcurrent
    rcases htodo : s.todo i with _ | ⟨x | _, rest⟩
    · simp [htodo, phase] at hcurrent
    · rw [htodo, phase, List.cons.injEq] at hcurrent
      exact .inl ⟨rfl, rest, by rw [hcurrent.1]⟩
    · simp [htodo, phase] at hcurrent

lemma Config.exists_leave (exec : Exec ι α κ δ) (hplaced : Placed prog c.sync) {i : ι}
    (h : BarrierProgram.step c.sync (.leave i) = some s) :
    ∃ e c', c.step exec e = some c' ∧ work c'.sync < work c.sync :=
  ⟨.leave i, ⟨s, c.data⟩, by simp [Config.step, h], hplaced.work_step h⟩

/-- An action that does not have to be repeated lowers the work. -/
lemma Config.exists_act (hplaced : Placed prog c.sync) {i : ι} {a : α} {rest : List (Instr α)} {choice : κ}
    (hin : c.sync.inside i = none) (htodo : c.sync.todo i = .act a :: rest)
    (hexec : (exec i a choice c.data).2 ≠ .again) : ∃ e c', c.step exec e = some c' ∧ work c'.sync < work c.sync := by
  rcases hresult : exec i a choice c.data with ⟨d, v⟩
  rw [hresult] at hexec
  refine ⟨.act i choice, ?_⟩
  cases v with
  | again => exact absurd rfl hexec
  | pass =>
    refine ⟨⟨_, d⟩, ?_, hplaced.work_step (step_act hin htodo true)⟩
    simp [Config.step, hin, htodo, hresult, step_act hin htodo]
  | fail =>
    refine ⟨⟨_, d⟩, ?_, hplaced.work_step (step_act hin htodo false)⟩
    simp [Config.step, hin, htodo, hresult, step_act hin htodo]

/-- Somebody goes on until all are at the end, if whoever has an action to do can go on with it or waits for
somebody else who can. -/
theorem Config.Inv.finished_or_progress (h : c.Inv prog Q) (exec : Exec ι α κ δ) {n : ℕ}
    (hn : ∀ i, waits (prog i) = n)
    (hact : ∀ i a l, current c.sync i = a :: l → ∃ j b m choice, current c.sync j = b :: m ∧
      (exec j b choice c.data).2 ≠ .again) :
    Finished c.sync ∨ ∃ e c', c.step exec e = some c' ∧ work c'.sync < work c.sync := by
  obtain hend | ⟨a, s, hstep, -⟩ := h.toPlaced.finished_or_step h.outside hn h.ok
  · exact .inl hend
  · refine .inr ?_
    obtain ⟨i, ok, x, rest, rfl, hin, htodo, -⟩ | ⟨i, rest, rfl, -⟩ | ⟨i, g, rfl, -⟩ := BarrierProgram.step_cases hstep
    · obtain ⟨j, b, m, choice, hcurrent, hexec⟩ := hact i x (phase rest 0) (by simp [current, left, hin, htodo, phase])
      obtain ⟨hin', rest', htodo'⟩ | ⟨s', hleave⟩ := act_or_leave h.toPlaced hcurrent
      · exact Config.exists_act h.toPlaced hin' htodo' hexec
      · exact Config.exists_leave exec h.toPlaced hleave
    · exact ⟨.arrive i, ⟨s, c.data⟩, by simp [Config.step, hstep], h.toPlaced.work_step hstep⟩
    · exact Config.exists_leave exec h.toPlaced hstep

theorem Config.Inv.finished_or_step [Nonempty κ] (h : c.Inv prog Q) (exec : Exec ι α κ δ) {n : ℕ}
    (hn : ∀ i, waits (prog i) = n) : Finished c.sync ∨ ∃ e c', c.step exec e = some c' := by
  obtain hend | ⟨a, s, hstep, -⟩ := h.toPlaced.finished_or_step h.outside hn h.ok
  · exact .inl hend
  · exact .inr (Config.exists_step exec hstep)

/-- Everybody can always get to the end, if whoever waits in some phase waits for somebody who can go on. -/
theorem Config.Inv.exists_finished [Nonempty ι] (hrule : PhaseRule prog exec d Q) {n : ℕ}
    (hn : ∀ i, waits (prog i) = n) (hprogress : ∀ k d todo i a l, Q k d todo → todo i = a :: l →
      ∃ j b m choice, todo j = b :: m ∧ (exec j b choice d).2 ≠ .again) (h : c.Inv prog Q) :
    ∃ more, Finished (Interleaving.run (Config.step exec) c more).sync := by
  have hstep : ∀ c : Config ι α δ, c.Inv prog Q → Finished c.sync ∨
      ∃ e c', c.step exec e = some c' ∧ c'.Inv prog Q ∧ work c'.sync < work c.sync := by
    intro c h
    obtain hend | ⟨e, c', hstep, hlt⟩ := h.finished_or_progress exec hn
      fun i a l hcurrent => hprogress _ _ _ i a l h.claim hcurrent
    · exact .inl hend
    · exact .inr ⟨e, c', hstep, Config.step_inv hrule h hstep, hlt⟩
  exact Interleaving.exists_run_of_measure (fun c => work c.sync) hstep h

/-- Where an action that has to be repeated changes nothing, every other step lowers the work. -/
lemma Config.eq_or_work_lt (hagain : ∀ i a choice d d', exec i a choice d = (d', .again) → d' = d)
    (hplaced : Placed prog c.sync) (hstep : c.step exec e = some c') : c' = c ∨ work c'.sync < work c.sync := by
  obtain ⟨i, choice, a, rest, d, -, -, -, ⟨hexec, rfl⟩ | ⟨ok, s, -, hs, rfl⟩⟩ | ⟨i, s, -, hs, rfl⟩ |
    ⟨i, s, -, hs, rfl⟩ := Config.step_cases hstep
  · rw [hagain i a choice c.data d hexec]
    exact .inl rfl
  · exact .inr (hplaced.work_step hs)
  · exact .inr (hplaced.work_step hs)
  · exact .inr (hplaced.work_step hs)

/-- Where no action has to be repeated every step lowers the work. -/
lemma Config.work_lt (hagain : ∀ i a choice d, (exec i a choice d).2 ≠ .again) (hplaced : Placed prog c.sync)
    (hstep : c.step exec e = some c') : work c'.sync < work c.sync := by
  obtain ⟨i, choice, a, rest, d, -, -, -, ⟨hexec, -⟩ | ⟨ok, s, -, hs, rfl⟩⟩ | ⟨i, s, -, hs, rfl⟩ |
    ⟨i, s, -, hs, rfl⟩ := Config.step_cases hstep
  · exact absurd (by rw [hexec]) (hagain i a choice c.data)
  · exact hplaced.work_step hs
  · exact hplaced.work_step hs
  · exact hplaced.work_step hs

end Steps

/-- The rest of two programs in a row begins in the first one, or is a rest of the second one. -/
lemma cons_suffix_append {a : α} {l x y : List α} (h : a :: l <:+ x ++ y) : a ∈ x ∨ a :: l <:+ y := by
  obtain ⟨t, ht⟩ := h
  obtain ⟨m, rfl, hm⟩ | ⟨m, -, hm⟩ := List.append_eq_append_iff.mp ht
  · cases m with
    | nil => exact .inr (by rw [hm, List.nil_append])
    | cons b m =>
      rw [List.cons_append, List.cons.injEq] at hm
      exact .inl (by simp [hm.1])
  · exact .inr ⟨m, hm.symm⟩

/-- What is not to be done any more, now that one thing is done, is that thing, or was not to be done before. -/
lemma notMem_update [DecidableEq ι] {todo : ι → List α} {i j : ι} {a b : α} {l : List α} (htodo : todo i = a :: l)
    (hb : b ∉ Function.update todo i l j) : (j = i ∧ b = a) ∨ b ∉ todo j := by
  by_cases hj : j = i
  · subst hj
    rw [Function.update_self] at hb
    by_cases hba : b = a
    · exact .inl ⟨rfl, hba⟩
    · exact .inr (by simpa [htodo, hba] using hb)
  · exact .inr (by rwa [Function.update_of_ne hj] at hb)

/-- The rests of programs stay rests. -/
lemma suffix_update [DecidableEq ι] {todo full : ι → List α} {i : ι} {a : α} {l : List α}
    (h : ∀ j, todo j <:+ full j) (htodo : todo i = a :: l) (j : ι) : Function.update todo i l j <:+ full j := by
  by_cases hj : j = i
  · subst hj
    rw [Function.update_self]
    have hsuffix := h j
    rw [htodo] at hsuffix
    exact (List.suffix_cons a l).trans hsuffix
  · rw [Function.update_of_ne hj]
    exact h j

/-- The participant comes to this action next. -/
def Config.AboutTo (c : Config ι α δ) (i : ι) (a : α) : Prop :=
  c.sync.inside i = none ∧ ∃ rest, c.sync.todo i = .act a :: rest

lemma Config.AboutTo.exists_current {i : ι} {a : α} (h : c.AboutTo i a) : ∃ l, current c.sync i = a :: l := by
  obtain ⟨hin, rest, htodo⟩ := h
  exact ⟨phase rest 0, by simp [current, left, hin, htodo, phase]⟩

/-- Before the barrier has released anybody. -/
lemma current_of_gen_zero (hgen : s.gen = 0) (i : ι) : current s i = phase (s.todo i) 0 := by
  unfold current left
  split
  · rw [if_neg (by omega)]
  · rfl

section Turns
variable {owner : ℕ → ι} {n : ℕ} {d : δ} {Flow : δ → List (ι × α) → Prop}

/-- What the owners have to do from phase k on, in turn. -/
def remaining (prog : ι → List (Instr α)) (owner : ℕ → ι) (n k : ℕ) : List (ι × α) :=
  (List.range' k (n + 1 - k)).flatMap fun m => (phase (prog (owner m)) m).map (owner m, ·)

lemma remaining_zero (prog : ι → List (Instr α)) (owner : ℕ → ι) (n : ℕ) :
    remaining prog owner n 0 = turns prog owner (n + 1) := by
  simp [remaining, turns, List.range_eq_range']

lemma remaining_cons (prog : ι → List (Instr α)) (owner : ℕ → ι) {n k : ℕ} (h : k ≤ n) :
    remaining prog owner n k =
      (phase (prog (owner k)) k).map (owner k, ·) ++ remaining prog owner n (k + 1) := by
  have hlen : n + 1 - k = (n + 1 - (k + 1)) + 1 := by omega
  rw [remaining, hlen, List.range'_succ, List.flatMap_cons, remaining]

/-- A claim about the data and about the actions that are still to come, one after the other. -/
structure TurnRule (exec : Exec ι α κ δ) (d : δ) (expected : List (ι × α)) (Flow : δ → List (ι × α) → Prop) :
    Prop where
  start : Flow d expected
  step : ∀ d i a l choice, Flow d ((i, a) :: l) → ∃ d',
    (exec i a choice d = (d', .again) ∧ Flow d' ((i, a) :: l)) ∨ (exec i a choice d = (d', .pass) ∧ Flow d' l)

/-- The owner of the current phase goes on with the turns, and nobody else has anything to do. -/
def InTurns (prog : ι → List (Instr α)) (owner : ℕ → ι) (n : ℕ) (Flow : δ → List (ι × α) → Prop)
    (k : ℕ) (d : δ) (todo : ι → List α) : Prop :=
  (∀ i ≠ owner k, todo i = []) ∧
    Flow d ((todo (owner k)).map (owner k, ·) ++ remaining prog owner n (k + 1))

variable [DecidableEq ι]

/-- Where each phase has one owner, any interleaving is as good as the turns one after the other. -/
theorem TurnRule.phaseRule (h : TurnRule exec d (turns prog owner (n + 1)) Flow) (howner : Owned prog owner)
    (hn : ∀ i, waits (prog i) = n) : PhaseRule prog exec d (InTurns prog owner n Flow) := by
  have hothers : ∀ k, ∀ i ≠ owner k, phase (prog i) k = [] := fun k i hi => by
    by_contra hne
    exact hi (howner k i hne)
  have howns : ∀ {k d todo i a l}, InTurns prog owner n Flow k d todo → todo i = a :: l →
      i = owner k ∧ Flow d ((i, a) :: (l.map (owner k, ·) ++ remaining prog owner n (k + 1))) := by
    rintro k d todo i a l ⟨hnil, hflow⟩ htodo
    have hi : i = owner k := by
      by_contra hne
      simp [hnil i hne] at htodo
    subst hi
    exact ⟨rfl, by simpa [htodo] using hflow⟩
  constructor
  · refine ⟨hothers 0, ?_⟩
    rw [← remaining_cons prog owner (Nat.zero_le n), remaining_zero]
    exact h.start
  · intro k d d' todo i a l choice hclaim htodo hexec
    obtain ⟨rfl, hflow⟩ := howns hclaim htodo
    obtain ⟨d'', ⟨hexec', hflow'⟩ | ⟨hexec', -⟩⟩ := h.step d _ a _ choice hflow
    · obtain ⟨rfl, -⟩ := Prod.mk.inj (hexec'.symm.trans hexec)
      exact ⟨hclaim.1, by simpa [htodo] using hflow'⟩
    · cases hexec'.symm.trans hexec
  · intro k d d' todo i a l choice hclaim htodo hexec
    obtain ⟨rfl, hflow⟩ := howns hclaim htodo
    obtain ⟨d'', ⟨hexec', -⟩ | ⟨hexec', hflow'⟩⟩ := h.step d _ a _ choice hflow
    · cases hexec'.symm.trans hexec
    · obtain ⟨rfl, -⟩ := Prod.mk.inj (hexec'.symm.trans hexec)
      exact ⟨fun j hj => by rw [Function.update_of_ne hj, hclaim.1 j hj], by simpa using hflow'⟩
  · intro k d todo i a l choice hclaim htodo
    obtain ⟨d', ⟨hexec, -⟩ | ⟨hexec, -⟩⟩ := h.step d i a _ choice (howns hclaim htodo).2 <;> simp [hexec]
  · intro k d hk hclaim
    have hle : k + 1 ≤ n := by
      have := hk (owner k)
      rwa [hn] at this
    refine ⟨hothers (k + 1), ?_⟩
    rw [← remaining_cons prog owner hle]
    simpa using hclaim.2

end Turns

end Invariant

end BarrierProgram
