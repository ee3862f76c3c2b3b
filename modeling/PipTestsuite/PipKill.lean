import PipTestsuite.Lib.Interleaving

/-! pip_kill.c: two kinds of signals go round the ring of the root and its tasks. A signal that is already
pending is not queued, and the sender leaves its pipid in a shared variable, so everything rests on there
being one signal at a time. -/
namespace PipTestsuite.PipKill

/-- SIGUSR1 and SIGUSR2 -/
inductive Signo where
  | usr1 | usr2
  deriving DecidableEq

/-- PIP_PIPID_ROOT, or the pipid of a task. -/
inductive Pid where
  | root
  | task (pipid : ℕ)
  deriving DecidableEq

/-- What a participant does next in its call of wait_signal_root or wait_signal_task. -/
inductive Stage where
  | setSender
  | kill
  | sigwait
  | checkSig (sig : Signo)
  | checkSender (sig : Signo)
  deriving DecidableEq

/-- The signos of the calls that have not returned, where the first one of them is, the signals pending,
expp->pipid_sender, and who has left by a CHECK. -/
@[ext]
structure State where
  calls : Pid → List Signo
  stage : Pid → Stage
  pending : Pid → Finset Signo
  sender : Pid
  failed : Pid → Bool

def next (ntasks pipid : ℕ) : Pid := if pipid + 1 ≥ ntasks then .root else .task (pipid + 1)

def prev (pipid : ℕ) : Pid := if (pipid : ℤ) - 1 < 0 then .root else .task (pipid - 1)

/-- The participants have blocked the signal, so it stays pending. -/
def pipKill (dest : Pid) (signo : Signo) (s : State) : State :=
  { s with pending := Function.update s.pending dest (insert signo (s.pending dest)) }

def State.goTo (s : State) (p : Pid) (stage : Stage) : State :=
  { s with stage := Function.update s.stage p stage }

/-- sigwait( &sigusrs, &sig ) blocks without a pending signal, and takes one of them. -/
def sigwait (p : Pid) (sig : Signo) (after : Stage) (s : State) : Option State :=
  if sig ∈ s.pending p then
    some ({ s with pending := Function.update s.pending p ((s.pending p).erase sig) }.goTo p after)
  else none

/-- exit(EXIT_FAIL) -/
def exitFail (p : Pid) (s : State) : State := { s with failed := Function.update s.failed p true }

def State.return (s : State) (p : Pid) (rest : List Signo) (stage : Stage) : State :=
  { s with calls := Function.update s.calls p rest }.goTo p stage

def waitSignalRoot (ntasks : ℕ) (signo : Signo) (rest : List Signo) (sig : Signo) (s : State) : Option State :=
  match s.stage .root with
  | .setSender => some ({ s with sender := .root }.goTo .root .kill)
  | .kill => some ((pipKill (.task 0) signo s).goTo .root .sigwait)
  | .sigwait => sigwait .root sig (.checkSender sig) s
  | .checkSender sig =>
    if s.sender ≠ .task (ntasks - 1) then some (exitFail .root s) else some (s.goTo .root (.checkSig sig))
  | .checkSig sig => if sig ≠ signo then some (exitFail .root s) else some (s.return .root rest .setSender)

def waitSignalTask (ntasks pipid : ℕ) (signo : Signo) (rest : List Signo) (sig : Signo) (s : State) :
    Option State :=
  match s.stage (.task pipid) with
  | .sigwait => sigwait (.task pipid) sig (.checkSig sig) s
  | .checkSig sig =>
    if sig ≠ signo then some (exitFail (.task pipid) s) else some (s.goTo (.task pipid) (.checkSender sig))
  | .checkSender _ =>
    if s.sender ≠ prev pipid then some (exitFail (.task pipid) s) else some (s.goTo (.task pipid) .setSender)
  | .setSender => some ({ s with sender := .task pipid }.goTo (.task pipid) .kill)
  | .kill => some ((pipKill (next ntasks pipid) signo s).return (.task pipid) rest .sigwait)

/-- The next step of a participant; sig is the signal that a sigwait picks. -/
def step (ntasks : ℕ) (s : State) : Pid × Signo → Option State
  | (p, sig) =>
    if s.failed p then none
    else match s.calls p with
      | [] => none
      | signo :: rest =>
        match p with
        | .root => waitSignalRoot ntasks signo rest sig s
        | .task pipid => waitSignalTask ntasks pipid signo rest sig s

/-- for( j=0; j<niters; j++ ) { wait_signal( SIGUSR1 ); wait_signal( SIGUSR2 ); } -/
def loopCalls (niters : ℕ) : List Signo := (List.replicate niters [.usr1, .usr2]).flatten

/-- Everybody behind the first barrier, with expp cleared. -/
def start (ntasks niters : ℕ) : State where
  calls
    | .root => loopCalls niters
    | .task pipid => if pipid < ntasks then loopCalls niters else []
  stage
    | .root => .setSender
    | .task _ => .sigwait
  pending _ := ∅
  sender := .task 0
  failed _ := false

def run (ntasks niters : ℕ) (schedule : List (Pid × Signo)) : State :=
  Interleaving.run (step ntasks) (start ntasks niters) schedule

/-- The participant before this one in the ring. -/
def predecessor (ntasks : ℕ) : Pid → Pid
  | .root => .task (ntasks - 1)
  | .task pipid => prev pipid

/-- The signal of call number r. -/
def signoOf (r : ℕ) : Signo := if r % 2 = 0 then .usr1 else .usr2

/-- Round r, in which the tasks up to h have passed the signal on. Nobody but the active participant does
anything else than to wait for a signal, and nobody but the given one has a signal pending. -/
def round (ntasks niters r h : ℕ) (active : Option (Pid × Stage)) (waiting : Option Pid) (sender : Pid) :
    State where
  calls
    | .root => (loopCalls niters).drop r
    | .task pipid => if pipid < ntasks then (loopCalls niters).drop (if pipid < h then r + 1 else r) else []
  stage p := match active with
    | some (q, stage) => if p = q then stage else .sigwait
    | none => .sigwait
  pending p := if waiting = some p then {signoOf r} else ∅
  sender := sender
  failed _ := false

/-- The places of the token in round r. -/
inductive Token (ntasks niters : ℕ) : State → Prop
  | lead (r : ℕ) (sender : Pid) (hr : r ≤ 2 * niters) :
    Token ntasks niters (round ntasks niters r 0 (some (.root, .setSender)) none sender)
  | rootKills (r : ℕ) (hr : r < 2 * niters) :
    Token ntasks niters (round ntasks niters r 0 (some (.root, .kill)) none .root)
  | toTask (r h : ℕ) (hr : r < 2 * niters) (hh : h < ntasks) :
    Token ntasks niters (round ntasks niters r h none (some (.task h)) (prev h))
  | atTask (r h : ℕ) (stage : Stage) (hr : r < 2 * niters) (hh : h < ntasks)
    (hstage : stage = .checkSig (signoOf r) ∨ stage = .checkSender (signoOf r) ∨ stage = .setSender) :
    Token ntasks niters (round ntasks niters r h (some (.task h, stage)) none (prev h))
  | taskKills (r h : ℕ) (hr : r < 2 * niters) (hh : h < ntasks) :
    Token ntasks niters (round ntasks niters r h (some (.task h, .kill)) none (.task h))
  | toRoot (r : ℕ) (hr : r < 2 * niters) :
    Token ntasks niters (round ntasks niters r ntasks none (some .root) (.task (ntasks - 1)))
  | atRoot (r : ℕ) (stage : Stage) (hr : r < 2 * niters)
    (hstage : stage = .checkSender (signoOf r) ∨ stage = .checkSig (signoOf r)) :
    Token ntasks niters (round ntasks niters r ntasks (some (.root, stage)) none (.task (ntasks - 1)))

section Steps
variable {ntasks niters r h : ℕ} {s s' : State} {p : Pid} {sig : Signo}

lemma drop_loopCalls (hr : r < 2 * niters) :
    (loopCalls niters).drop r = signoOf r :: (loopCalls niters).drop (r + 1) := by
  induction niters generalizing r with
  | zero => omega
  | succ n ih =>
    have hcalls : loopCalls (n + 1) = .usr1 :: .usr2 :: loopCalls n := rfl
    obtain _ | _ | r := r
    · simp [hcalls, signoOf]
    · simp [hcalls, signoOf]
    · have hsigno : signoOf (r + 2) = signoOf r := by simp [signoOf]
      simpa [hcalls, hsigno] using ih (r := r) (by omega)

lemma length_loopCalls (niters : ℕ) : (loopCalls niters).length = 2 * niters := by
  simp [loopCalls, Nat.mul_comm]

/-- Who waits for a signal that is not there does nothing. -/
lemma step_idle (hstage : s.stage p = .sigwait) (hpending : s.pending p = ∅) : step ntasks s (p, sig) = none := by
  cases hcalls : s.calls p with
  | nil => simp [step, hcalls]
  | cons signo rest =>
    cases p with
    | root => simp [step, hcalls, waitSignalRoot, hstage, sigwait, hpending]
    | task pipid => simp [step, hcalls, waitSignalTask, hstage, sigwait, hpending]

section Round
variable {q sender : Pid} {stage stage' : Stage} {waiting : Option Pid}

lemma round_calls_root (hr : r < 2 * niters) (active : Option (Pid × Stage)) :
    (round ntasks niters r h active waiting sender).calls .root =
      signoOf r :: (loopCalls niters).drop (r + 1) := drop_loopCalls hr

lemma round_calls_task (hr : r < 2 * niters) (hh : h < ntasks) (active : Option (Pid × Stage)) :
    (round ntasks niters r h active waiting sender).calls (.task h) =
      signoOf r :: (loopCalls niters).drop (r + 1) := by
  simp [round, hh, drop_loopCalls hr]

@[simp] lemma round_stage (active : Option (Pid × Stage)) :
    (round ntasks niters r h active waiting sender).stage p = match active with
      | some (q, stage) => if p = q then stage else .sigwait
      | none => .sigwait := rfl

@[simp] lemma round_pending (active : Option (Pid × Stage)) :
    (round ntasks niters r h active waiting sender).pending p =
      if waiting = some p then {signoOf r} else ∅ := rfl

@[simp] lemma round_failed (active : Option (Pid × Stage)) :
    (round ntasks niters r h active waiting sender).failed p = false := rfl

@[simp] lemma round_sender (active : Option (Pid × Stage)) :
    (round ntasks niters r h active waiting sender).sender = sender := rfl

lemma round_goTo : (round ntasks niters r h (some (q, stage)) waiting sender).goTo q stage' =
    round ntasks niters r h (some (q, stage')) waiting sender := by
  ext p <;> simp only [round, State.goTo]
  by_cases hp : p = q <;> simp [hp]

lemma round_setSender (sender' : Pid) :
    State.goTo { round ntasks niters r h (some (q, stage)) waiting sender with sender := sender' } q stage' =
      round ntasks niters r h (some (q, stage')) waiting sender' :=
  round_goTo

lemma round_goTo_sigwait : (round ntasks niters r h (some (q, stage)) waiting sender).goTo q .sigwait =
    round ntasks niters r h none waiting sender := by
  ext p <;> simp only [round, State.goTo]
  by_cases hp : p = q <;> simp [hp]

lemma round_pipKill (active : Option (Pid × Stage)) :
    pipKill q (signoOf r) (round ntasks niters r h active none sender) =
      round ntasks niters r h active (some q) sender := by
  ext p : 3 <;> simp only [round, pipKill]
  by_cases hp : p = q
  · subst hp
    simp
  · simp [hp, Ne.symm hp]

/-- The one signal that is pending is the one of the round. -/
lemma round_sigwait (hsig : sigwait q sig stage (round ntasks niters r h none (some q) sender) = some s') :
    sig = signoOf r ∧ s' = round ntasks niters r h (some (q, stage)) none sender := by
  unfold sigwait at hsig
  split_ifs at hsig with hmem
  have hsigno : sig = signoOf r := by simpa [round] using hmem
  refine ⟨hsigno, ?_⟩
  rw [← Option.some.inj hsig]
  ext p : 3 <;> simp only [round, State.goTo]
  · by_cases hp : p = q <;> simp [hp]
  · by_cases hp : p = q
    · subst hp
      simp [hsigno]
    · simp [hp, Ne.symm hp]

lemma round_return_task (hh : h < ntasks) :
    (round ntasks niters r h (some (.task h, stage)) waiting sender).return (.task h)
      ((loopCalls niters).drop (r + 1)) .sigwait = round ntasks niters r (h + 1) none waiting sender := by
  ext p : 3 <;> simp only [round, State.return, State.goTo]
  · cases p with
    | root => simp
    | task pipid =>
      by_cases hp : pipid = h
      · subst hp
        simp [hh]
      · have hlt : pipid < h + 1 ↔ pipid < h := by omega
        simp [hp, hlt]
  · by_cases hp : p = .task h <;> simp [hp]

/-- Behind the call of the root the next round begins. -/
lemma round_return_root : (round ntasks niters r ntasks (some (.root, stage)) none sender).return .root
    ((loopCalls niters).drop (r + 1)) .setSender =
      round ntasks niters (r + 1) 0 (some (.root, .setSender)) none sender := by
  ext p : 3 <;> simp only [round, State.return, State.goTo]
  · cases p with
    | root => simp
    | task pipid => by_cases hp : pipid < ntasks <;> simp [hp]
  · by_cases hp : p = .root <;> simp [hp]
  · simp

end Round

lemma step_root {signo : Signo} {rest : List Signo} (hcalls : s.calls .root = signo :: rest)
    (hfailed : s.failed .root = false) :
    step ntasks s (.root, sig) = waitSignalRoot ntasks signo rest sig s := by
  simp [step, hcalls, hfailed]

lemma step_task {signo : Signo} {rest : List Signo} {pipid : ℕ} (hcalls : s.calls (.task pipid) = signo :: rest)
    (hfailed : s.failed (.task pipid) = false) :
    step ntasks s (.task pipid, sig) = waitSignalTask ntasks pipid signo rest sig s := by
  simp [step, hcalls, hfailed]

lemma start_token : Token ntasks niters (start ntasks niters) := by
  have hstart : start ntasks niters = round ntasks niters 0 0 (some (.root, .setSender)) none (.task 0) := by
    ext p : 3 <;> simp only [round, start]
    · cases p <;> simp
    · cases p <;> simp
    · simp
  rw [hstart]
  exact .lead 0 _ (Nat.zero_le _)

lemma next_eq (hh : h < ntasks) : next ntasks h = if h + 1 < ntasks then .task (h + 1) else .root := by
  unfold next
  split_ifs <;> first | rfl | omega

lemma prev_succ (h : ℕ) : prev (h + 1) = .task h := by simp [prev]

/-- Whoever has the token passes it on, and nobody else can do anything. -/
theorem token_step (hpos : 0 < ntasks) (htoken : Token ntasks niters s)
    (hstep : step ntasks s (p, sig) = some s') : Token ntasks niters s' := by
  have hactive : ∀ {r h q stage sender}, step ntasks (round ntasks niters r h (some (q, stage)) none sender)
      (p, sig) = some s' → p = q := by
    intro r h q stage sender hstep
    by_contra hp
    rw [step_idle (by simp [hp]) (by simp)] at hstep
    cases hstep
  have hwaiting : ∀ {r h q sender}, step ntasks (round ntasks niters r h none (some q) sender) (p, sig) = some s' →
      p = q := by
    intro r h q sender hstep
    by_contra hp
    rw [step_idle (by simp) (by simp [Ne.symm hp])] at hstep
    cases hstep
  cases htoken with
  | lead r sender hr =>
    obtain rfl := hactive hstep
    obtain hlt | rfl := Nat.lt_or_eq_of_le hr
    · rw [step_root (round_calls_root hlt _) rfl] at hstep
      simp only [waitSignalRoot, round_stage, if_true, Option.some.injEq, round_setSender] at hstep
      rw [← hstep]
      exact .rootKills r hlt
    · have hcalls : (round ntasks niters (2 * niters) 0 (some (.root, .setSender)) none sender).calls .root = [] := by
        simp [round, length_loopCalls]
      simp [step, hcalls] at hstep
  | rootKills r hr =>
    obtain rfl := hactive hstep
    rw [step_root (round_calls_root hr _) rfl] at hstep
    simp only [waitSignalRoot, round_stage, if_true, Option.some.injEq, round_pipKill, round_goTo_sigwait] at hstep
    rw [← hstep]
    exact .toTask r 0 hr hpos
  | toTask r h hr hh =>
    obtain rfl := hwaiting hstep
    rw [step_task (round_calls_task hr hh _) rfl] at hstep
    simp only [waitSignalTask, round_stage] at hstep
    obtain ⟨rfl, rfl⟩ := round_sigwait hstep
    exact .atTask r h _ hr hh (.inl rfl)
  | atTask r h stage hr hh hstage =>
    obtain rfl := hactive hstep
    rw [step_task (round_calls_task hr hh _) rfl] at hstep
    obtain rfl | rfl | rfl := hstage
    · simp only [waitSignalTask, round_stage, if_true, ne_eq, not_true, if_false, Option.some.injEq,
        round_goTo] at hstep
      rw [← hstep]
      exact .atTask r h _ hr hh (.inr (.inl rfl))
    · simp only [waitSignalTask, round_stage, if_true, ne_eq, not_true, if_false, Option.some.injEq,
        round_sender, round_goTo] at hstep
      rw [← hstep]
      exact .atTask r h _ hr hh (.inr (.inr rfl))
    · simp only [waitSignalTask, round_stage, if_true, Option.some.injEq, round_setSender] at hstep
      rw [← hstep]
      exact .taskKills r h hr hh
  | taskKills r h hr hh =>
    obtain rfl := hactive hstep
    rw [step_task (round_calls_task hr hh _) rfl] at hstep
    simp only [waitSignalTask, round_stage, if_true, Option.some.injEq, round_pipKill, round_return_task hh,
      next_eq hh] at hstep
    rw [← hstep]
    split_ifs with hlast
    · exact prev_succ h ▸ .toTask r (h + 1) hr hlast
    · obtain rfl : ntasks = h + 1 := by omega
      exact .toRoot r hr
  | toRoot r hr =>
    obtain rfl := hwaiting hstep
    rw [step_root (round_calls_root hr _) rfl] at hstep
    simp only [waitSignalRoot, round_stage] at hstep
    obtain ⟨rfl, rfl⟩ := round_sigwait hstep
    exact .atRoot r _ hr (.inl rfl)
  | atRoot r stage hr hstage =>
    obtain rfl := hactive hstep
    rw [step_root (round_calls_root hr _) rfl] at hstep
    obtain rfl | rfl := hstage
    · simp only [waitSignalRoot, round_stage, if_true, ne_eq, not_true, if_false, Option.some.injEq,
        round_sender, round_goTo] at hstep
      rw [← hstep]
      exact .atRoot r _ hr (.inr rfl)
    · simp only [waitSignalRoot, round_stage, if_true, ne_eq, not_true, if_false, Option.some.injEq,
        round_return_root] at hstep
      rw [← hstep]
      exact .lead (r + 1) _ (by omega)

theorem run_token (hpos : 0 < ntasks) (schedule : List (Pid × Signo)) :
    Token ntasks niters (run ntasks niters schedule) :=
  Interleaving.run_inv start_token (fun _ _ _ htoken hstep => token_step hpos htoken hstep)
    schedule

end Steps

/-- How many of its stages a call has left. -/
def Stage.left : Pid → Stage → ℕ
  | .root, .setSender | .task _, .sigwait => 4
  | .root, .kill | .task _, .checkSig _ => 3
  | .root, .sigwait | .task _, .checkSender _ => 2
  | .root, .checkSender _ | .task _, .setSender => 1
  | .root, .checkSig _ | .task _, .kill => 0

/-- How many steps a participant has left. -/
def State.left (s : State) (p : Pid) : ℕ :=
  if s.failed p then 0 else 5 * (s.calls p).length + (s.stage p).left p

def State.work (ntasks : ℕ) (s : State) : ℕ :=
  s.left .root + ∑ pipid ∈ Finset.range ntasks, s.left (.task pipid)

/-- One signal at a time goes round the ring, each one is the one that its receiver waits for and comes from
the participant before it. Somebody can go on until all loops are at their ends, and no run goes on for ever. -/
structure RingKept (ntasks niters : ℕ) (s : State) : Prop where
  onePending : ∀ p q sig sig', sig ∈ s.pending p → sig' ∈ s.pending q → p = q ∧ sig = sig'
  notMerged : ∀ p, s.stage p = .kill → ∀ q, s.pending q = ∅
  expected : ∀ p sig, s.stage p = .sigwait → sig ∈ s.pending p →
    (∃ rest, s.calls p = sig :: rest) ∧ s.sender = predecessor ntasks p
  ok : ∀ p, s.failed p = false
  goesOn : (∀ p, s.calls p = []) ∨ ∃ a s', step ntasks s a = some s'
  ends : ∀ a s', step ntasks s a = some s' → s'.work ntasks < s.work ntasks
  finishes : ∃ more, ∀ p, (Interleaving.run (step ntasks) s more).calls p = []
  final : (∀ p, s.calls p = []) → ∀ p, s.pending p = ∅

section Ring
variable {ntasks niters : ℕ} {s : State}

/-- Where a signal is pending, its receiver waits for it in the current round. -/
lemma Token.waiting (h : Token ntasks niters s) {p : Pid} {sig : Signo} (hsig : sig ∈ s.pending p) :
    ∃ r h sender, r < 2 * niters ∧ sig = signoOf r ∧ s = round ntasks niters r h none (some p) sender ∧
      sender = predecessor ntasks p ∧ s.calls p = signoOf r :: (loopCalls niters).drop (r + 1) := by
  cases h with
  | toTask r h hr hh =>
    simp only [round_pending, Option.some.injEq] at hsig
    split_ifs at hsig with hp
    · subst hp
      exact ⟨r, h, _, hr, Finset.mem_singleton.mp hsig, rfl, rfl, round_calls_task hr hh _⟩
    · simp at hsig
  | toRoot r hr =>
    simp only [round_pending, Option.some.injEq] at hsig
    split_ifs at hsig with hp
    · subst hp
      exact ⟨r, ntasks, _, hr, Finset.mem_singleton.mp hsig, rfl, rfl, round_calls_root hr _⟩
    · simp at hsig
  | lead | rootKills | atTask | taskKills | atRoot => simp at hsig

lemma goesOn_of_ne_none {a : Pid × Signo} (h : step ntasks s a ≠ none) : ∃ a s', step ntasks s a = some s' := by
  obtain ⟨s', hs⟩ := Option.ne_none_iff_exists'.mp h
  exact ⟨a, s', hs⟩

/-- Whoever has the token can go on. -/
lemma Token.goesOn (h : Token ntasks niters s) :
    (∀ p, s.calls p = []) ∨ ∃ a s', step ntasks s a = some s' := by
  cases h with
  | lead r sender hr =>
    obtain hlt | rfl := Nat.lt_or_eq_of_le hr
    · refine .inr (goesOn_of_ne_none (a := (.root, .usr1)) ?_)
      rw [step_root (round_calls_root hlt _) rfl]
      simp [waitSignalRoot]
    · left
      intro p
      cases p <;> simp [round, length_loopCalls]
  | rootKills r hr =>
    refine .inr (goesOn_of_ne_none (a := (.root, .usr1)) ?_)
    rw [step_root (round_calls_root hr _) rfl]
    simp [waitSignalRoot]
  | toTask r h hr hh =>
    refine .inr (goesOn_of_ne_none (a := (.task h, signoOf r)) ?_)
    rw [step_task (round_calls_task hr hh _) rfl]
    simp [waitSignalTask, sigwait]
  | atTask r h stage hr hh hstage =>
    refine .inr (goesOn_of_ne_none (a := (.task h, .usr1)) ?_)
    rw [step_task (round_calls_task hr hh _) rfl]
    obtain rfl | rfl | rfl := hstage <;> simp [waitSignalTask]
  | taskKills r h hr hh =>
    refine .inr (goesOn_of_ne_none (a := (.task h, .usr1)) ?_)
    rw [step_task (round_calls_task hr hh _) rfl]
    simp [waitSignalTask]
  | toRoot r hr =>
    refine .inr (goesOn_of_ne_none (a := (.root, signoOf r)) ?_)
    rw [step_root (round_calls_root hr _) rfl]
    simp [waitSignalRoot, sigwait]
  | atRoot r stage hr hstage =>
    refine .inr (goesOn_of_ne_none (a := (.root, .usr1)) ?_)
    rw [step_root (round_calls_root hr _) rfl]
    obtain rfl | rfl := hstage <;> simp [waitSignalRoot]

/-- A step of a participant is one of those that it has left, and of nobody else. -/
lemma step_left {s' : State} {p : Pid} {sig : Signo} (hstep : step ntasks s (p, sig) = some s') :
    s'.left p < s.left p ∧ ∀ q ≠ p, s'.left q = s.left q := by
  unfold step at hstep
  simp only at hstep
  split_ifs at hstep with hfailed
  cases hcalls : s.calls p with
  | nil => simp [hcalls] at hstep
  | cons signo rest =>
    cases p with
    | root =>
      simp only [hcalls, waitSignalRoot, sigwait, exitFail] at hstep
      cases hstage : s.stage .root <;> simp only [hstage] at hstep
      all_goals
        try split_ifs at hstep
        all_goals
          obtain rfl := Option.some.inj hstep
          constructor
          · simp [State.left, State.goTo, State.return, pipKill, Stage.left, hcalls, hstage, hfailed]
            try omega
          · intro q hq
            simp [State.left, State.goTo, State.return, pipKill, hq]
    | task pipid =>
      simp only [hcalls, waitSignalTask, sigwait, exitFail] at hstep
      cases hstage : s.stage (.task pipid) <;> simp only [hstage] at hstep
      all_goals
        try split_ifs at hstep
        all_goals
          obtain rfl := Option.some.inj hstep
          constructor
          · simp [State.left, State.goTo, State.return, pipKill, Stage.left, hcalls, hstage, hfailed]
            try omega
          · intro q hq
            simp [State.left, State.goTo, State.return, pipKill, hq]

/-- There are no other participants. -/
lemma Token.calls_outside (h : Token ntasks niters s) {pipid : ℕ} (hle : ntasks ≤ pipid) :
    s.calls (.task pipid) = [] := by
  have hnot : ¬ pipid < ntasks := not_lt.mpr hle
  cases h <;> simp [round, hnot]

/-- No run goes on for ever. -/
lemma Token.work_lt (h : Token ntasks niters s) {s' : State} {a : Pid × Signo} (hstep : step ntasks s a = some s') :
    s'.work ntasks < s.work ntasks := by
  obtain ⟨p, sig⟩ := a
  obtain ⟨hlt, hother⟩ := step_left hstep
  unfold State.work
  cases p with
  | root =>
    have htasks : ∑ pipid ∈ Finset.range ntasks, s'.left (.task pipid) =
        ∑ pipid ∈ Finset.range ntasks, s.left (.task pipid) :=
      Finset.sum_congr rfl fun pipid _ => hother _ (by simp)
    omega
  | task pipid =>
    have hmem : pipid < ntasks := by
      by_contra hle
      simp [step, h.calls_outside (not_lt.mp hle)] at hstep
    have hroot : s'.left .root = s.left .root := hother _ (by simp)
    have htasks : ∑ pipid ∈ Finset.range ntasks, s'.left (.task pipid) <
        ∑ pipid ∈ Finset.range ntasks, s.left (.task pipid) := by
      refine Finset.sum_lt_sum (fun pipid' _ => ?_) ⟨pipid, Finset.mem_range.mpr hmem, hlt⟩
      obtain rfl | hne := eq_or_ne pipid' pipid
      · exact hlt.le
      · exact (hother _ (by simpa using hne)).le
    omega

lemma Token.finishes (hpos : 0 < ntasks) (h : Token ntasks niters s) :
    ∃ more, ∀ p, (Interleaving.run (step ntasks) s more).calls p = [] := by
  have hprogress : ∀ s, Token ntasks niters s → (∀ p, s.calls p = []) ∨
      ∃ a s', step ntasks s a = some s' ∧ Token ntasks niters s' ∧ s'.work ntasks < s.work ntasks := by
    intro s h
    obtain hend | ⟨a, s', hstep⟩ := h.goesOn
    · exact .inl hend
    · exact .inr ⟨a, s', hstep, token_step hpos h hstep, h.work_lt hstep⟩
  exact Interleaving.exists_run_of_measure (State.work ntasks) hprogress h

end Ring

/-- Every interleaving behind the first barrier. -/
theorem ring_kept (ntasks niters : ℕ) (hpos : 0 < ntasks) (schedule : List (Pid × Signo)) :
    RingKept ntasks niters (run ntasks niters schedule) := by
  have htoken : Token ntasks niters (run ntasks niters schedule) := run_token hpos schedule
  generalize run ntasks niters schedule = s at htoken ⊢
  constructor
  · intro p q sig sig' hp hq
    obtain ⟨r, h, sender, -, rfl, rfl, -⟩ := htoken.waiting hp
    simp only [round_pending, Option.some.injEq] at hq
    split_ifs at hq with hpq
    · exact ⟨hpq, (Finset.mem_singleton.mp hq).symm⟩
    · simp at hq
  · intro p hp q
    by_contra hne
    obtain ⟨sig, hsig⟩ := Finset.nonempty_iff_ne_empty.mpr hne
    obtain ⟨r, h, sender, -, -, rfl, -⟩ := htoken.waiting hsig
    simp at hp
  · intro p sig _ hsig
    obtain ⟨r, h, sender, -, rfl, rfl, hsender, hcalls⟩ := htoken.waiting hsig
    exact ⟨⟨_, hcalls⟩, hsender⟩
  · intro p
    cases htoken <;> rfl
  · exact htoken.goesOn
  · exact fun a s' hstep => htoken.work_lt hstep
  · exact htoken.finishes hpos
  · intro hend p
    by_contra hne
    obtain ⟨sig, hsig⟩ := Finset.nonempty_iff_ne_empty.mpr hne
    obtain ⟨r, h, sender, -, -, -, -, hcalls⟩ := htoken.waiting hsig
    rw [hend p] at hcalls
    cases hcalls

/-- The steps of a round with three tasks. -/
def threeTasks (sig : Signo) : List (Pid × Signo) :=
  List.replicate 2 (.root, sig) ++ [0, 1, 2].flatMap (fun pipid => List.replicate 5 (.task pipid, sig)) ++
    List.replicate 3 (.root, sig)

/-- Up to the end of all loops. -/
theorem ring_kept_three : (run 3 1 (threeTasks .usr1 ++ threeTasks .usr2)).calls .root = [] ∧
    RingKept 3 1 (run 3 1 (threeTasks .usr1 ++ threeTasks .usr2)) :=
  ⟨by decide +kernel, ring_kept 3 1 (by decide) _⟩

end PipTestsuite.PipKill
