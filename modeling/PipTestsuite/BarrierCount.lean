import PipTestsuite.ExitCode
import PipTestsuite.Lib.BarrierPhases

/-! pip_barrier.c, pip_barrier2.c and blt/pip_barrier.c: all participants check a shared count in each
iteration, and one of them increments it between the two barriers of the iteration. -/
namespace PipTestsuite.BarrierCount
open BarrierProgram

/-- The single accesses to count: CHECK( count!=i ), and the read and the write of count++ in iteration i. -/
inductive Access where
  | check (i : ℕ)
  | load (i : ℕ)
  | store (i : ℕ)
  deriving DecidableEq

/-- count, what each participant has read for its count++, and who has written it in which iteration. -/
structure Shared (ι : Type) where
  count : ℕ
  loaded : ι → ℕ
  updates : List (ι × ℕ)

/-- exp.count = 0 -/
def initial (ι : Type) : Shared ι := ⟨0, fun _ => 0, []⟩

def access {ι : Type} [DecidableEq ι] : Exec ι Access Unit (Shared ι)
  | _, .check i, _, d => (d, if d.count ≠ i then .fail else .pass)
  | j, .load _, _, d => ({ d with loaded := Function.update d.loaded j d.count }, .pass)
  | j, .store i, _, d => ({ d with count := d.loaded j + 1, updates := d.updates ++ [(j, i)] }, .pass)

/-- An iteration of a participant that increments count in it or not. -/
def iteration (increments : Bool) (i : ℕ) : List (Instr Access) :=
  [.act (.check i), .wait] ++ (if increments then [.act (.load i), .act (.store i)] else []) ++ [.wait]

/-- A task of pip_barrier.c. -/
def pipBarrier (ntasks niters : ℕ) (pipid : Fin ntasks) : List (Instr Access) :=
  rounds niters (fun i => iteration (i % ntasks = pipid) i) ++ [.wait]

/-- The root of pip_barrier2.c (none) and its tasks. -/
def pipBarrier2 (ntasks niters : ℕ) : Option (Fin ntasks) → List (Instr Access)
  | none => rounds niters fun i => [.act (.check i), .wait, .wait]
  | some pipid => rounds niters fun i => iteration (i % ntasks = pipid) i

/-- A task of blt/pip_barrier.c. -/
def bltPipBarrier (ntasks niters : ℕ) (pipid : Fin ntasks) : List (Instr Access) :=
  rounds niters (fun i => iteration (i % ntasks = pipid) i) ++
    if pipid.val = 0 then [.act (.check niters)] else []

/-- The end of main in the root of pip_barrier.c and pip_barrier2.c, where all tasks have terminated. -/
def rootExit {ι : Type} [Fintype ι] (niters : ℕ) (c : Config ι Access (Shared ι)) : Option ℕ :=
  if ∀ j, c.sync.todo j = [] then
    if ∃ j, c.sync.failed j then some exitFail
    else if ¬ c.data.count = niters then some exitFail
    else some exitPass
  else none

section Participants
variable {ι : Type}

/-- The access that a participant comes to next. -/
def AboutTo (c : Config ι Access (Shared ι)) (j : ι) (a : Access) : Prop :=
  c.sync.inside j = none ∧ ∃ rest, c.sync.todo j = .act a :: rest

def Access.OfUpdate : Access → Prop
  | .check _ => False
  | .load _ => True
  | .store _ => True

/-- count stands at i, and the updates of all iterations before are made. -/
def Counted (updater : ℕ → ι) (i : ℕ) (d : Shared ι) : Prop :=
  d.count = i ∧ d.updates = (List.range i).map fun m => (updater m, m)

/-- Between the two barriers of iteration i. -/
def Updating (updater : ℕ → ι) (i : ℕ) (d : Shared ι) (todo : ι → List Access) : Prop :=
  (∀ j ≠ updater i, todo j = []) ∧
    ((todo (updater i) = [.load i, .store i] ∧ Counted updater i d) ∨
      (todo (updater i) = [.store i] ∧ Counted updater i d ∧ d.loaded (updater i) = i) ∨
      (todo (updater i) = [] ∧ Counted updater (i + 1) d))

/-- The even phases are the checks, the odd ones the updates; behind the loop count is only read. -/
def Claim (updater : ℕ → ι) (niters k : ℕ) (d : Shared ι) (todo : ι → List Access) : Prop :=
  if k < 2 * niters ∧ k % 2 = 1 then Updating updater (k / 2) d todo
  else Counted updater (min (k / 2) niters) d ∧ ∀ j, ∀ a ∈ todo j, a = .check (min (k / 2) niters)

/-- A phase ends with its own update, if it has one. -/
lemma Claim.counted {updater : ℕ → ι} {niters k : ℕ} {d : Shared ι} (h : Claim updater niters k d fun _ => []) :
    Counted updater (min ((k + 1) / 2) niters) d := by
  unfold Claim at h
  split_ifs at h with hk
  · obtain ⟨-, ⟨hnil, -⟩ | ⟨hnil, -⟩ | ⟨-, hd⟩⟩ := h
    · cases hnil
    · cases hnil
    · have hmin : min ((k + 1) / 2) niters = k / 2 + 1 := by omega
      rwa [hmin]
  · have hmin : min ((k + 1) / 2) niters = min (k / 2) niters := by omega
    rw [hmin]
    exact h.1

variable [DecidableEq ι]

/-- Programs whose phases are those of such a loop, with nothing but checks of niters behind it. -/
structure IsLoop (updater : ℕ → ι) (niters n : ℕ) (prog : ι → List (Instr Access)) : Prop where
  inside : ∀ j, ∀ k < 2 * niters, phase (prog j) k =
    if k % 2 = 0 then [.check (k / 2)]
    else if updater (k / 2) = j then [.load (k / 2), .store (k / 2)] else []
  behind : ∀ j k, 2 * niters ≤ k → ∀ a ∈ phase (prog j) k, a = .check niters
  waits : ∀ j, waits (prog j) = n
  length : 2 * niters ≤ n

section Rule
variable {updater : ℕ → ι} {niters n k : ℕ} {prog : ι → List (Instr Access)} {d d' : Shared ι}
variable {todo : ι → List Access}

lemma access_ne_again (j : ι) (a : Access) (u : Unit) (d : Shared ι) : (access j a u d).2 ≠ .again := by
  cases a with
  | check i =>
    simp only [access]
    split_ifs <;> decide
  | load i => simp [access]
  | store i => simp [access]

/-- A phase begins with the updates of the iterations before. -/
lemma IsLoop.claim_begin (h : IsLoop updater niters n prog) (hd : Counted updater (min (k / 2) niters) d) :
    Claim updater niters k d fun j => phase (prog j) k := by
  unfold Claim
  split_ifs with hk
  · obtain ⟨hlt, hodd⟩ := hk
    have hmin : min (k / 2) niters = k / 2 := by omega
    rw [hmin] at hd
    refine ⟨fun j hj => ?_, .inl ⟨?_, hd⟩⟩
    · simp [h.inside j k hlt, hodd, Ne.symm hj]
    · simp [h.inside (updater (k / 2)) k hlt, hodd]
  · refine ⟨hd, fun j a ha => ?_⟩
    by_cases hlt : k < 2 * niters
    · have heven : k % 2 = 0 := by omega
      have hmin : min (k / 2) niters = k / 2 := by omega
      simp only [h.inside j k hlt, if_pos heven] at ha
      rw [hmin, List.mem_singleton.mp ha]
    · have hmin : min (k / 2) niters = niters := by omega
      rw [hmin]
      exact h.behind j k (by omega) a ha

lemma Claim.pass {j : ι} {a : Access} {l : List Access} {u : Unit} (h : Claim updater niters k d todo)
    (htodo : todo j = a :: l) (hexec : access j a u d = (d', .pass)) :
    Claim updater niters k d' (Function.update todo j l) := by
  unfold Claim at h ⊢
  split_ifs at h ⊢ with hk
  · obtain ⟨hothers, hupdate⟩ := h
    have hj : j = updater (k / 2) := by
      by_contra hne
      rw [hothers j hne] at htodo
      cases htodo
    subst hj
    refine ⟨fun j' hj' => by rw [Function.update_of_ne hj', hothers j' hj'], ?_⟩
    rw [Function.update_self]
    obtain ⟨hall, hcount, hupdates⟩ | ⟨hall, ⟨hcount, hupdates⟩, hloaded⟩ | ⟨hnil, -⟩ := hupdate
    · -- the load
      rw [htodo] at hall
      obtain ⟨rfl, rfl⟩ := List.cons_eq_cons.mp hall
      obtain ⟨rfl, -⟩ := Prod.mk.inj hexec
      exact .inr (.inl ⟨rfl, ⟨hcount, hupdates⟩, by simp [hcount]⟩)
    · -- the store
      rw [htodo] at hall
      obtain ⟨rfl, rfl⟩ := List.cons_eq_cons.mp hall
      obtain ⟨rfl, -⟩ := Prod.mk.inj hexec
      exact .inr (.inr ⟨rfl, by simp [hloaded], by simp [hupdates, List.range_succ]⟩)
    · rw [htodo] at hnil
      cases hnil
  · obtain ⟨hcounted, hchecks⟩ := h
    have ha := hchecks j a (by simp [htodo])
    subst ha
    obtain ⟨rfl, -⟩ := Prod.mk.inj hexec
    refine ⟨hcounted, fun j' b hb => ?_⟩
    by_cases hj' : j' = j
    · subst hj'
      rw [Function.update_self] at hb
      exact hchecks j' b (by simp [htodo, hb])
    · rw [Function.update_of_ne hj'] at hb
      exact hchecks j' b hb

lemma Claim.not_fail {j : ι} {a : Access} {l : List Access} {u : Unit} (h : Claim updater niters k d todo)
    (htodo : todo j = a :: l) : (access j a u d).2 ≠ .fail := by
  cases a with
  | check i =>
    unfold Claim at h
    split_ifs at h
    · obtain ⟨hothers, hupdate⟩ := h
      by_cases hj : j = updater (k / 2)
      · subst hj
        simp [htodo] at hupdate
      · simp [hothers j hj] at htodo
    · obtain ⟨⟨hcount, -⟩, hchecks⟩ := h
      have hi := hchecks j _ (by rw [htodo]; exact List.mem_cons_self)
      simp [access, hcount, Access.check.inj hi]
  | load i => simp [access]
  | store i => simp [access]

omit [DecidableEq ι] in
lemma Claim.exists_counted (h : Claim updater niters k d todo) : ∃ i, Counted updater i d := by
  unfold Claim at h
  split_ifs at h
  · obtain ⟨-, ⟨-, hd⟩ | ⟨-, hd, -⟩ | ⟨-, hd⟩⟩ := h
    · exact ⟨_, hd⟩
    · exact ⟨_, hd⟩
    · exact ⟨_, hd⟩
  · exact ⟨_, h.1⟩

/-- Only its updater accesses count in a phase with an update. -/
lemma Claim.eq_updater {j j' : ι} {a a' : Access} {l l' : List Access} (h : Claim updater niters k d todo)
    (htodo : todo j = a :: l) (htodo' : todo j' = a' :: l') (ha : a.OfUpdate) : j = j' := by
  unfold Claim at h
  split_ifs at h
  · have hupdater : ∀ i b t, todo i = b :: t → i = updater (k / 2) := by
      intro i b t hi
      by_contra hne
      simp [h.1 i hne] at hi
    rw [hupdater j a l htodo, hupdater j' a' l' htodo']
  · have hcheck := h.2 j a (by simp [htodo])
    subst hcheck
    exact ha.elim

lemma IsLoop.rule (h : IsLoop updater niters n prog) :
    PhaseRule prog access (initial ι) (Claim updater niters) where
  start := h.claim_begin (by simp [Counted, initial])
  again k d d' todo j a l u _ _ hexec := absurd (by rw [hexec]) (access_ne_again j a u d)
  pass k d d' todo j a l u hclaim htodo hexec := hclaim.pass htodo hexec
  fail k d todo j a l u hclaim htodo := hclaim.not_fail htodo
  next k d _ hclaim := h.claim_begin hclaim.counted

end Rule

variable [Fintype ι]

/-- No CHECK fails, the updates are made once for each iteration, by the given participant, while nobody
else comes to an access, and everybody gets to the end. -/
structure Sound (updater : ℕ → ι) (niters : ℕ) (c : Config ι Access (Shared ι)) : Prop where
  ok : ∀ j, c.sync.failed j = false
  reads : ∀ j i, AboutTo c j (.check i) → c.data.count = i
  updates : c.data.updates = (List.range c.data.count).map fun i => (updater i, i)
  exclusive : ∀ j j' a a', AboutTo c j a → AboutTo c j' a' → a.OfUpdate → j = j'
  goesOn : Finished c.sync ∨ ∃ e c', c.step access e = some c'
  ends : ∀ e c', c.step access e = some c' → work c'.sync < work c.sync
  final : Finished c.sync → c.data.count = niters

variable {updater : ℕ → ι} {niters n : ℕ} {prog : ι → List (Instr Access)} {c : Config ι Access (Shared ι)}

omit [DecidableEq ι] [Fintype ι] in
lemma AboutTo.current {j : ι} {a : Access} (h : AboutTo c j a) : ∃ l, current c.sync j = a :: l := by
  obtain ⟨hin, rest, htodo⟩ := h
  exact ⟨phase rest 0, by simp [BarrierProgram.current, left, hin, htodo, phase]⟩

/-- Every interleaving of the participants of such a loop. -/
theorem IsLoop.sound (h : IsLoop updater niters n prog) (schedule : List (Event ι Unit)) :
    Sound updater niters (Config.run access prog (initial ι) schedule) := by
  have hne : Nonempty ι := ⟨updater 0⟩
  have hinv := Config.run_inv h.rule schedule
  generalize Config.run access prog (initial ι) schedule = c at hinv ⊢
  constructor
  · exact hinv.ok
  · intro j i hj
    obtain ⟨l, hl⟩ := hj.current
    by_contra hcount
    exact hinv.claim.not_fail (u := ()) hl (by simp [access, hcount])
  · obtain ⟨i, hcount, hupdates⟩ := hinv.claim.exists_counted
    rw [hupdates, hcount]
  · intro j j' a a' hj hj' ha
    obtain ⟨l, hl⟩ := hj.current
    obtain ⟨l', hl'⟩ := hj'.current
    exact hinv.claim.eq_updater hl hl' ha
  · exact hinv.finished_or_step access h.waits
  · intro e c' hstep
    obtain ⟨i, u, a, rest, d, -, -, -, ⟨hagain, -⟩ | ⟨ok, s, -, hs, rfl⟩⟩ | ⟨i, s, -, hs, rfl⟩ |
      ⟨i, s, -, hs, rfl⟩ := Config.step_cases hstep
    · exact absurd (by rw [hagain]) (access_ne_again i a u c.data)
    · exact hinv.toPlaced.work_step hs
    · exact hinv.toPlaced.work_step hs
    · exact hinv.toPlaced.work_step hs
  · intro hend
    have hclaim := hinv.claim_finished h.waits hend
    unfold Claim at hclaim
    have hlength := h.length
    rw [if_neg (by omega)] at hclaim
    obtain ⟨⟨hcount, -⟩, -⟩ := hclaim
    omega

/-- With all tasks terminated the root exits with EXIT_PASS. -/
lemma Sound.rootExit (h : Sound updater niters c) (status : ℕ)
    (hstatus : rootExit niters c = some status) : status = exitPass := by
  unfold BarrierCount.rootExit at hstatus
  split_ifs at hstatus with hend hfailed hcount
  · obtain ⟨j, hj⟩ := hfailed
    simp [h.ok j] at hj
  · exact (Option.some.inj hstatus).symm
  · exact absurd (h.final hend) hcount

end Participants

lemma waits_iteration (increments : Bool) (i : ℕ) : waits (iteration increments i) = 2 := by
  cases increments <;> rfl

lemma phase_iteration_two (increments : Bool) (i : ℕ) : phase (iteration increments i) 2 = [] := by
  cases increments <;> rfl

/-- A loop of iterations whose updater is known, with only checks of niters behind it. -/
lemma isLoop_rounds {ι : Type} [DecidableEq ι] {updater : ℕ → ι} {mine : ι → ℕ → Bool} {niters w : ℕ}
    {final : ι → List (Instr Access)} (hmine : ∀ j i, mine j i = decide (updater i = j))
    (hfinal : ∀ j k, ∀ a ∈ phase (final j) k, a = .check niters) (hw : ∀ j, waits (final j) = w) :
    IsLoop updater niters (2 * niters + w)
      fun j => rounds niters (fun i => iteration (mine j i) i) ++ final j := by
  have hphase : ∀ j k, phase (rounds niters (fun i => iteration (mine j i) i) ++ final j) k =
      if k < niters * 2 then phase (iteration (mine j (k / 2)) (k / 2)) (k % 2)
      else phase (final j) (k - niters * 2) :=
    fun j k => phase_rounds_append two_pos (fun i => waits_iteration _ i) (fun i => phase_iteration_two _ i) _ _ _
  constructor
  · intro j k hk
    rw [hphase, if_pos (by omega), hmine]
    obtain heven | hodd := Nat.mod_two_eq_zero_or_one k
    · simp [heven, iteration, phase]
    · by_cases hj : updater (k / 2) = j <;> simp [hodd, hj, iteration, phase]
  · intro j k hk a ha
    rw [hphase, if_neg (by omega)] at ha
    exact hfinal j _ a ha
  · intro j
    rw [waits_append, waits_rounds (fun i => waits_iteration _ i), hw]
    omega
  · omega

/-- Who increments count in iteration i. -/
def updater (ntasks : ℕ) (hpos : 0 < ntasks) (i : ℕ) : Fin ntasks := ⟨i % ntasks, Nat.mod_lt i hpos⟩

section Tests
variable {ntasks : ℕ} (hpos : 0 < ntasks) (niters : ℕ)

lemma mine_eq (pipid : Fin ntasks) (i : ℕ) :
    decide (i % ntasks = pipid) = decide (updater ntasks hpos i = pipid) := by
  simp [updater, Fin.ext_iff]

lemma pipBarrier_isLoop : IsLoop (updater ntasks hpos) niters (2 * niters + 1) (pipBarrier ntasks niters) :=
  isLoop_rounds (mine_eq hpos) (fun _ k => by cases k <;> simp [phase]) fun _ => rfl

lemma pipBarrier2_isLoop :
    IsLoop (fun i => some (updater ntasks hpos i)) niters (2 * niters) (pipBarrier2 ntasks niters) := by
  have hprog : pipBarrier2 ntasks niters = fun j => rounds niters (fun i =>
      iteration (decide (some (updater ntasks hpos i) = j)) i) ++ [] := by
    funext j
    cases j with
    | none => simp [pipBarrier2, iteration]
    | some pipid => simp [pipBarrier2, updater, Fin.ext_iff]
  rw [hprog]
  exact isLoop_rounds (w := 0) (fun _ _ => rfl) (by simp [phase]) fun _ => rfl

lemma bltPipBarrier_isLoop : IsLoop (updater ntasks hpos) niters (2 * niters) (bltPipBarrier ntasks niters) := by
  refine isLoop_rounds (w := 0) (mine_eq hpos) (fun j k a ha => ?_) fun j => ?_
  · split_ifs at ha
    · cases k <;> simp [phase] at ha
      exact ha
    · simp [phase] at ha
  · split_ifs <;> rfl

end Tests

/-- Every interleaving of each of the three tests. -/
theorem barrier_counts_sound (ntasks niters : ℕ) (hpos : 0 < ntasks) :
    (∀ schedule, let c := Config.run access (pipBarrier ntasks niters) (initial _) schedule
      Sound (updater ntasks hpos) niters c ∧ ∀ status, rootExit niters c = some status → status = exitPass) ∧
    (∀ schedule, let c := Config.run access (pipBarrier2 ntasks niters) (initial _) schedule
      Sound (fun i => some (updater ntasks hpos i)) niters c ∧
        ∀ status, rootExit niters c = some status → status = exitPass) ∧
    ∀ schedule, Sound (updater ntasks hpos) niters
      (Config.run access (bltPipBarrier ntasks niters) (initial _) schedule) := by
  refine ⟨fun schedule => ?_, fun schedule => ?_, fun schedule => ?_⟩
  · have hsound := (pipBarrier_isLoop hpos niters).sound schedule
    exact ⟨hsound, hsound.rootExit⟩
  · have hsound := (pipBarrier2_isLoop hpos niters).sound schedule
    exact ⟨hsound, hsound.rootExit⟩
  · exact (bltPipBarrier_isLoop hpos niters).sound schedule

/-- An iteration of three tasks, whose updater is task 0 or task 1. -/
def threeTasks : List (Event (Fin 3) Unit) :=
  [2, 0, 1].map (.act · ()) ++ [2, 0, 1].map .arrive ++ [1, 2, 0].map .leave ++
    [0, 0, 1, 1].map (.act · ()) ++ [1, 0, 2].map .arrive ++ [0, 1, 2].map .leave

/-- Two iterations, and the check of task 0 behind them. -/
theorem barrier_counts_sound_three :
    let c := Config.run access (bltPipBarrier 3 2) (initial _) (threeTasks ++ threeTasks ++ [.act 0 ()])
    (∀ j, c.sync.todo j = []) ∧ Sound (updater 3 (by decide)) 2 c :=
  ⟨by decide +kernel, (barrier_counts_sound 3 2 (by decide)).2.2 _⟩

end PipTestsuite.BarrierCount
