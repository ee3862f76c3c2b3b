import PipTestsuite.ExitCode

/-! timer.c: the watchdog counts the ticks at which the machine has no load, and cleans the target up
when the period is over. Its signal handler and the wait of main share the variables of State. -/
namespace PipTestsuite.Timer

/-- The arguments of main, and what its system calls answer. -/
structure Env where
  argc : ℕ
  /-- strtol( argv[1] ) -/
  time : ℤ
  /-- strtol( PIP_TEST_TIMER_SCALE ), where it starts with a digit -/
  timerScale : Option ℤ
  debug : Bool
  dockerenv : Bool
  fork : Bool
  sigaction : Bool
  setitimer : Bool
  nprocessorsOnln : ℤ
  getconf : Option ℤ
  /-- where SIGCHLD is ignored, wait() fails as soon as the target has ended -/
  sigchldIgnored : Bool

/-- The conversion of a long value into an int. -/
def toInt (z : ℤ) : ℤ := z.bmod (2 ^ 32)

def debugScale : ℤ := 3
def vmScale : ℤ := 5

/-- The time that main gives to set_timer. -/
def Env.period (e : Env) : ℤ :=
  let time := toInt e.time
  let time := if time < 0 then toInt (-time) else time
  let time := match e.timerScale with
    | some scale => toInt (time * scale)
    | none => time
  let time := if e.debug then toInt (time * debugScale) else time
  if e.dockerenv then toInt (time * vmScale) else time

/-- The conversion of a floating value into an int. -/
def trunc (q : ℚ) : ℤ := q.num.tdiv q.den

def Env.ncores (e : Env) : ℤ :=
  let ncores := if e.nprocessorsOnln < 0 then e.getconf.getD e.nprocessorsOnln else e.nprocessorsOnln
  if ncores ≤ 0 then 2 else ncores

/-- get_load, where /proc/loadavg cannot be opened or has the given value. -/
def getLoad (e : Env) (loadavg : Option ℚ) : ℤ :=
  let invNc := trunc (1 / e.ncores)
  match loadavg with
  | some load => trunc (load * invNc)
  | none => trunc 0

/-- Where main is: in wait(), behind it, behind unset_timer(), or gone. -/
inductive Main where
  | waiting
  | returned (rv : Option WaitStatus)
  | unset (rv : Option WaitStatus)
  | exited (code : ℕ)
  deriving DecidableEq

structure State where
  timerCount : ℤ
  timerActual : ℤ := 0
  timedout : Bool := false
  /-- timer_watcher is the handler of SIGALRM -/
  armed : Bool
  cleanedUp : Bool := false
  target : Option WaitStatus := none
  main : Main
  deriving DecidableEq

/-- SIGALRM, the end of the target, a wait() that fails with EINTR, and the next step of main. -/
inductive Event where
  | tick (loadavg : Option ℚ)
  | target (status : WaitStatus)
  | interrupted
  | main
  deriving DecidableEq

def unsetTimer (s : State) : State := { s with armed := false }

/-- The signals of cleanup: what the target does about them is a later event. -/
def cleanup (s : State) : State := { s with cleanedUp := true }

def timerWatcher (e : Env) (loadavg : Option ℚ) (s : State) : State :=
  if s.timedout then s
  else
    let ld := getLoad e loadavg
    let s := { s with timerActual := toInt (s.timerActual + 1) }
    if ld = 0 then
      let s := { s with timerCount := toInt (s.timerCount - 1) }
      if s.timerCount ≤ 0 then cleanup { unsetTimer s with timedout := true } else s
    else s

/-- The exit at the end of main. -/
def exitCode : Option WaitStatus → ℕ
  | none => exitUnresolved
  | some (.exited code) => code
  | some (.signaled _) => exitUnresolved

def setTimer (e : Env) (s : State) : State :=
  let s := { s with timerCount := e.period }
  if e.sigaction = false then { cleanup s with main := .exited exitUntested }
  else if e.setitimer = false then { cleanup s with main := .exited exitUntested }
  else { s with armed := true, main := .waiting }

/-- main up to its first wait(). -/
def start (e : Env) : State :=
  let s : State := { timerCount := 0, armed := false, main := .exited exitUntested }
  if e.argc < 3 then s else if e.fork then setTimer e s else s

def step (e : Env) (s : State) : Event → State
  | .tick loadavg => if s.armed then timerWatcher e loadavg s else s
  | .target status => if s.target.isNone then { s with target := some status } else s
  | .interrupted => s
  | .main =>
    match s.main with
    | .waiting =>
      match s.target with
      | none => s
      | some status => { s with main := .returned (if e.sigchldIgnored then none else some status) }
    | .returned rv => { unsetTimer s with main := .unset rv }
    | .unset rv => { s with main := .exited (exitCode rv) }
    | .exited _ => s

def run (e : Env) (events : List Event) : State := events.foldl (step e) (start e)

/-- The timer had expired when wait() returned. -/
def ExpiredInTime (e : Env) (events : List Event) : Prop :=
  ∃ before event after, events = before ++ event :: after ∧ (run e before).main = .waiting ∧
    (run e (before ++ [event])).main ≠ .waiting ∧ (run e before).timedout = true

/-- The first step of main after the end of the target, if any, is not yet made. -/
def Blocks : Bool → List Event → Prop
  | _, [] => True
  | _, .target _ :: events => Blocks true events
  | ended, .main :: events => ended = false ∧ Blocks ended events
  | ended, _ :: events => Blocks ended events

def firstEnd : List Event → Option WaitStatus
  | [] => none
  | .target status :: _ => some status
  | _ :: events => firstEnd events

def Event.IsUnloaded (e : Env) : Event → Bool
  | .tick loadavg => getLoad e loadavg = 0
  | _ => false

def Env.Starts (e : Env) : Prop := 3 ≤ e.argc ∧ e.fork = true ∧ e.sigaction = true ∧ e.setitimer = true

/-- How many ticks without load it takes. Below the least int the count wraps, and comes down all the way again. -/
def Env.ticksNeeded (e : Env) : ℤ := if e.period = -2 ^ 31 then 2 ^ 31 else max 1 e.period

/-- When wait() returns, enough ticks without load are over, and the target has ended by exit(0). -/
def LatePass (e : Env) (events : List Event) : Prop :=
  e.Starts ∧ e.sigchldIgnored = false ∧ ∃ before after, events = before ++ .main :: after ∧
    Blocks false before ∧ firstEnd before = some .exitZero ∧
      e.ticksNeeded ≤ before.countP (Event.IsUnloaded e)

/-- What holds as long as main waits: the handler counts the ticks without load, and expires once. -/
structure Watching (e : Env) (unloaded : ℕ) (s : State) : Prop where
  main : s.main = .waiting
  expired : s.timedout = true ↔ e.ticksNeeded ≤ unloaded
  counting : s.timedout = false → s.armed = true ∧ s.timerCount = toInt (e.period - unloaded)

section Count
variable {z : ℤ}

lemma toInt_range (z : ℤ) : -2 ^ 31 ≤ toInt z ∧ toInt z < 2 ^ 31 := by
  have hlow := Int.le_bmod (x := z) (m := 2 ^ 32) (by norm_num)
  have hhigh := Int.bmod_lt (x := z) (m := 2 ^ 32) (by norm_num)
  unfold toInt
  omega

lemma toInt_eq_self (hlow : -2 ^ 31 ≤ z) (hhigh : z < 2 ^ 31) : toInt z = z := by
  apply Int.bmod_eq_of_le <;> norm_num at * <;> omega

lemma period_range (e : Env) : -2 ^ 31 ≤ e.period ∧ e.period < 2 ^ 31 := by
  have htime : ∀ time : ℤ, -2 ^ 31 ≤ time ∧ time < 2 ^ 31 →
      ∀ (p : Prop) [Decidable p] (z : ℤ), -2 ^ 31 ≤ (if p then toInt z else time) ∧
        (if p then toInt z else time) < 2 ^ 31 := by
    intro time htime p _ z
    split_ifs
    · exact toInt_range z
    · exact htime
  unfold Env.period
  refine htime _ (htime _ ?_ _ _) _ _
  cases e.timerScale with
  | none => exact htime _ (toInt_range _) _ _
  | some scale => exact toInt_range _

lemma ticksNeeded_pos (e : Env) : 1 ≤ e.ticksNeeded := by
  unfold Env.ticksNeeded
  split_ifs <;> omega

/-- The count is not positive just after as many ticks as it takes. -/
lemma count_le_zero_iff {e : Env} {n : ℕ} (h : n < e.ticksNeeded) :
    toInt (e.period - n - 1) ≤ 0 ↔ e.ticksNeeded ≤ n + 1 := by
  obtain ⟨hlow, hhigh⟩ := period_range e
  unfold Env.ticksNeeded at *
  split_ifs at * with hleast
  · have hwrapped : toInt (e.period - n - 1) = 2 ^ 31 - n - 1 := by
      have hcount : toInt (e.period - n - 1) = toInt (2 ^ 31 - n - 1) := by
        have hsum : e.period - n - 1 = 2 ^ 31 - n - 1 + (2 ^ 32) * (-1) := by omega
        rw [hsum]
        exact Int.add_mul_bmod_self_left _ (2 ^ 32) _
      rw [hcount]
      apply toInt_eq_self <;> omega
    omega
  · rw [toInt_eq_self] <;> omega

end Count

lemma start_watching {e : Env} (h : e.Starts) : Watching e 0 (start e) := by
  obtain ⟨hargc, hfork, hsig, htimer⟩ := h
  have hstart : start e = { timerCount := e.period, armed := true, main := .waiting } := by
    simp [start, setTimer, hfork, hsig, htimer]
    omega
  rw [hstart]
  have hpos := ticksNeeded_pos e
  refine ⟨rfl, ?_, fun _ => ⟨rfl, ?_⟩⟩
  · simp only [Bool.false_eq_true, Nat.cast_zero, false_iff]
    omega
  · rw [Nat.cast_zero, sub_zero, toInt_eq_self (period_range e).1 (period_range e).2]

lemma start_of_not_starts {e : Env} (h : ¬ e.Starts) : (start e).main = .exited exitUntested := by
  unfold start setTimer
  grind [Env.Starts]

/-- What the handler does: nothing any more, count the tick, count it down, or expire. -/
lemma timerWatcher_cases (e : Env) (loadavg : Option ℚ) (s : State) :
    (s.timedout = true ∧ timerWatcher e loadavg s = s) ∨
    (s.timedout = false ∧ getLoad e loadavg ≠ 0 ∧
      timerWatcher e loadavg s = { s with timerActual := toInt (s.timerActual + 1) }) ∨
    (s.timedout = false ∧ getLoad e loadavg = 0 ∧ 0 < toInt (s.timerCount - 1) ∧ timerWatcher e loadavg s =
      { s with timerActual := toInt (s.timerActual + 1), timerCount := toInt (s.timerCount - 1) }) ∨
    (s.timedout = false ∧ getLoad e loadavg = 0 ∧ toInt (s.timerCount - 1) ≤ 0 ∧ timerWatcher e loadavg s =
      { s with
        timerActual := toInt (s.timerActual + 1), timerCount := toInt (s.timerCount - 1)
        timedout := true, armed := false, cleanedUp := true }) := by
  cases ht : s.timedout with
  | true => exact .inl ⟨rfl, by simp [timerWatcher, ht]⟩
  | false =>
    right
    by_cases hload : getLoad e loadavg = 0
    · right
      by_cases hend : toInt (s.timerCount - 1) ≤ 0
      · exact .inr ⟨rfl, hload, hend, by simp [timerWatcher, ht, hload, hend, cleanup, unsetTimer]⟩
      · exact .inl ⟨rfl, hload, not_le.mp hend, by simp [timerWatcher, ht, hload, hend]⟩
    · exact .inl ⟨rfl, hload, by simp [timerWatcher, ht, hload]⟩

/-- A tick brings the end nearer by one, if there is no load. -/
lemma timerWatcher_watching {e : Env} {n : ℕ} {s : State} (hs : Watching e n s) (loadavg : Option ℚ) :
    Watching e (n + (Event.IsUnloaded e (.tick loadavg)).toNat) (timerWatcher e loadavg s) := by
  have hexp := hs.expired
  have hcounting := hs.counting
  have hdown : s.timedout = false → n < e.ticksNeeded ∧ toInt (s.timerCount - 1) = toInt (e.period - n - 1) := by
    intro ht
    refine ⟨?_, ?_⟩
    · by_contra hle
      simp [hexp.mpr (not_lt.mp hle)] at ht
    · rw [(hcounting ht).2]
      exact Int.bmod_sub_bmod
  obtain ⟨ht, hs'⟩ | ⟨ht, hload, hs'⟩ | ⟨ht, hload, hcount, hs'⟩ | ⟨ht, hload, hcount, hs'⟩ :=
    timerWatcher_cases e loadavg s
  · have hle := hexp.mp ht
    rw [hs']
    refine ⟨hs.main, ⟨fun _ => ?_, fun _ => ht⟩, fun h => by simp [ht] at h⟩
    push_cast
    omega
  · have hzero : (Event.IsUnloaded e (.tick loadavg)).toNat = 0 := by simp [Event.IsUnloaded, hload]
    rw [hs', hzero]
    exact ⟨hs.main, hexp, hcounting⟩
  · have hone : (Event.IsUnloaded e (.tick loadavg)).toNat = 1 := by simp [Event.IsUnloaded, hload]
    obtain ⟨hlt, hleft⟩ := hdown ht
    rw [hleft] at hcount
    rw [hs', hone, hleft]
    refine ⟨hs.main, ⟨fun h => by simp [ht] at h, fun h => ?_⟩, fun _ => ⟨(hcounting ht).1, ?_⟩⟩
    · exact absurd ((count_le_zero_iff hlt).mpr (by exact_mod_cast h)) (not_le.mpr hcount)
    · rw [Nat.cast_add, Nat.cast_one, sub_add_eq_sub_sub]
  · have hone : (Event.IsUnloaded e (.tick loadavg)).toNat = 1 := by simp [Event.IsUnloaded, hload]
    obtain ⟨hlt, hleft⟩ := hdown ht
    rw [hleft] at hcount
    rw [hs', hone]
    refine ⟨hs.main, ⟨fun _ => ?_, fun _ => rfl⟩, fun h => by simp at h⟩
    exact_mod_cast (count_le_zero_iff hlt).mp hcount

@[simp] lemma timerWatcher_target (e : Env) (loadavg : Option ℚ) (s : State) :
    (timerWatcher e loadavg s).target = s.target := by
  obtain ⟨_, h⟩ | ⟨_, _, h⟩ | ⟨_, _, _, h⟩ | ⟨_, _, _, h⟩ := timerWatcher_cases e loadavg s <;> rw [h]

@[simp] lemma timerWatcher_main (e : Env) (loadavg : Option ℚ) (s : State) :
    (timerWatcher e loadavg s).main = s.main := by
  obtain ⟨_, h⟩ | ⟨_, _, h⟩ | ⟨_, _, _, h⟩ | ⟨_, _, _, h⟩ := timerWatcher_cases e loadavg s <;> rw [h]

/-- A step of any kind after which main still waits. -/
lemma step_watching {e : Env} {n : ℕ} {s : State} (hs : Watching e n s) (ev : Event)
    (hmain : (step e s ev).main = .waiting) : Watching e (n + (ev.IsUnloaded e).toNat) (step e s ev) := by
  cases ev with
  | tick loadavg =>
    by_cases harmed : s.armed = true
    · simpa only [step, harmed, if_true] using timerWatcher_watching hs loadavg
    · have ht : s.timedout = true := by
        by_contra ht
        exact harmed (hs.counting (by simpa using ht)).1
      have hsame : step e s (.tick loadavg) = timerWatcher e loadavg s := by
        simp [step, harmed, timerWatcher, ht]
      rw [hsame]
      exact timerWatcher_watching hs loadavg
  | target status =>
    obtain ⟨h₁, h₂, h₃⟩ := hs
    cases htarget : s.target <;>
      exact ⟨by simp [step, htarget, h₁], by simpa [step, htarget, Event.IsUnloaded] using h₂,
        by simpa [step, htarget, Event.IsUnloaded] using h₃⟩
  | interrupted => simpa [step, Event.IsUnloaded] using hs
  | main =>
    cases htarget : s.target with
    | none => simpa [step, hs.main, htarget, Event.IsUnloaded] using hs
    | some status => simp [step, hs.main, htarget] at hmain

/-- Main does not come back to its wait(). -/
lemma step_waiting {e : Env} {s : State} {ev : Event} (h : (step e s ev).main = .waiting) :
    s.main = .waiting := by
  cases ev with
  | tick loadavg =>
    by_cases harmed : s.armed = true <;> simpa [step, harmed] using h
  | target status =>
    cases htarget : s.target <;> simpa [step, htarget] using h
  | interrupted => exact h
  | main =>
    by_contra hne
    cases hmain : s.main <;> simp_all [step]

@[simp] lemma run_append_singleton (e : Env) (events : List Event) (ev : Event) :
    run e (events ++ [ev]) = step e (run e events) ev := by
  simp [run]

/-- As long as main waits the state tells the number of ticks without load. -/
theorem run_watching {e : Env} {events : List Event} (h : (run e events).main = .waiting) :
    e.Starts ∧ Watching e (events.countP (Event.IsUnloaded e)) (run e events) := by
  induction events using List.reverseRecOn with
  | nil =>
    have hstarts : e.Starts := by
      by_contra hne
      have hexit : (start e).main = .exited exitUntested := start_of_not_starts hne
      simp [run, hexit] at h
    exact ⟨hstarts, start_watching hstarts⟩
  | append_singleton events ev ih =>
    rw [run_append_singleton] at h ⊢
    obtain ⟨hstarts, hw⟩ := ih (step_waiting h)
    have hcount : (events ++ [ev]).countP (Event.IsUnloaded e) =
        events.countP (Event.IsUnloaded e) + (ev.IsUnloaded e).toNat := by
      cases hev : ev.IsUnloaded e <;> simp [hev]
    rw [hcount]
    exact ⟨hstarts, step_watching hw ev h⟩

lemma blocks_append (ended : Bool) (events : List Event) (ev : Event) :
    Blocks ended (events ++ [ev]) ↔
      Blocks ended events ∧ (ev = .main → ended = false ∧ firstEnd events = none) := by
  induction events generalizing ended with
  | nil => cases ev <;> simp [Blocks, firstEnd]
  | cons a events ih =>
    cases a with
    | tick loadavg => simpa [Blocks, firstEnd] using ih ended
    | target status => simpa [Blocks, firstEnd] using ih true
    | interrupted => simpa [Blocks, firstEnd] using ih ended
    | main => simp [Blocks, firstEnd, ih ended, and_assoc]

lemma firstEnd_append (events : List Event) (ev : Event) :
    firstEnd (events ++ [ev]) = (firstEnd events).or (firstEnd [ev]) := by
  induction events with
  | nil => simp [firstEnd]
  | cons a events ih => cases a <;> simp [firstEnd, ih]

/-- The target's status is that of its first end. -/
lemma run_target (e : Env) (events : List Event) : (run e events).target = firstEnd events := by
  induction events using List.reverseRecOn with
  | nil =>
    have h : (start e).target = none := by
      unfold start setTimer cleanup
      grind
    simpa [run, firstEnd] using h
  | append_singleton events ev ih =>
    rw [run_append_singleton, firstEnd_append, ← ih]
    cases ev with
    | tick loadavg => by_cases harmed : (run e events).armed = true <;> simp [step, harmed, firstEnd]
    | target status => cases htarget : (run e events).target <;> simp [step, htarget, firstEnd]
    | interrupted => simp [step, firstEnd]
    | main =>
      cases hmain : (run e events).main <;> cases htarget : (run e events).target <;>
        simp [step, hmain, htarget, firstEnd, unsetTimer]

/-- Main waits exactly until its first step behind the end of the target. -/
lemma run_waiting_iff (e : Env) (events : List Event) :
    (run e events).main = .waiting ↔ e.Starts ∧ Blocks false events := by
  induction events using List.reverseRecOn with
  | nil =>
    refine ⟨fun h => ⟨(run_watching h).1, trivial⟩, fun h => (start_watching h.1).main⟩
  | append_singleton events ev ih =>
    rw [run_append_singleton, blocks_append, ← and_assoc, ← ih, ← run_target e events]
    refine ⟨fun h => ⟨step_waiting h, fun hev => ⟨rfl, ?_⟩⟩, fun ⟨hw, hev⟩ => ?_⟩
    · subst hev
      by_contra hne
      obtain ⟨status, hst⟩ := Option.ne_none_iff_exists'.mp hne
      simp [step, step_waiting h, hst] at h
    · cases ev with
      | tick loadavg => by_cases harmed : (run e events).armed = true <;> simp [step, harmed, hw]
      | target status => cases htarget : (run e events).target <;> simp [step, htarget, hw]
      | interrupted => exact hw
      | main => simp [step, hw, (hev rfl).2]

/-- Main is behind its wait(), with what this returned. -/
def Heading (rv : Option WaitStatus) (m : Main) : Prop :=
  m = .returned rv ∨ m = .unset rv ∨ m = .exited (exitCode rv)

lemma step_heading {e : Env} {rv : Option WaitStatus} {s : State} (h : Heading rv s.main) (ev : Event) :
    Heading rv (step e s ev).main := by
  cases ev with
  | tick loadavg => by_cases harmed : s.armed = true <;> simpa [step, harmed] using h
  | target status => cases htarget : s.target <;> simpa [step, htarget] using h
  | interrupted => exact h
  | main =>
    obtain h | h | h := h
    · exact .inr (.inl (by simp [step, h]))
    · exact .inr (.inr (by simp [step, h]))
    · exact .inr (.inr (by simp [step, h]))

lemma run_heading {e : Env} {rv : Option WaitStatus} {before : List Event}
    (h : Heading rv (run e before).main) (after : List Event) :
    Heading rv (run e (before ++ after)).main := by
  induction after using List.reverseRecOn with
  | nil => simpa using h
  | append_singleton after ev ih =>
    rw [← List.append_assoc, run_append_singleton]
    exact step_heading ih ev

/-- Behind the wait() nothing looks at timedout: main exits with what wait() returned. -/
lemma run_exitCode {e : Env} {before after : List Event} {status : WaitStatus} {code : ℕ}
    (hwait : (run e before).main = .waiting) (hend : firstEnd before = some status)
    (hexit : (run e (before ++ .main :: after)).main = .exited code) :
    code = exitCode (if e.sigchldIgnored then none else some status) := by
  have hreturn : Heading (if e.sigchldIgnored then none else some status) (run e (before ++ [.main])).main := by
    left
    rw [run_append_singleton]
    simp [step, hwait, run_target, hend]
  have hrun := run_heading hreturn after
  rw [List.append_assoc, List.singleton_append, hexit] at hrun
  simpa [Heading] using hrun

/-- wait() returns at a step of main, once the target has ended. -/
lemma step_returns {e : Env} {s : State} {ev : Event} (hwait : s.main = .waiting)
    (hreturn : (step e s ev).main ≠ .waiting) : ev = .main ∧ ∃ status, s.target = some status := by
  cases ev with
  | tick loadavg => by_cases harmed : s.armed = true <;> simp [step, harmed, hwait] at hreturn
  | target status => cases htarget : s.target <;> simp [step, htarget, hwait] at hreturn
  | interrupted => exact absurd hwait hreturn
  | main =>
    refine ⟨rfl, Option.ne_none_iff_exists'.mp fun hnone => hreturn ?_⟩
    simp [step, hwait, hnone]

lemma expiredInTime_of_latePass {e : Env} {events : List Event} (h : LatePass e events) :
    ExpiredInTime e events := by
  obtain ⟨hstarts, -, before, after, rfl, hblocks, hend, hticks⟩ := h
  have hwait : (run e before).main = .waiting := (run_waiting_iff e before).mpr ⟨hstarts, hblocks⟩
  refine ⟨before, .main, after, rfl, hwait, ?_, (run_watching hwait).2.expired.mpr hticks⟩
  rw [run_append_singleton]
  simp [step, hwait, run_target, hend]

/-- An expired timer exits with EXIT_PASS if and only if the target, when wait() returns, has ended by
exit(0) after as many ticks without load as it takes. -/
theorem expired_not_pass_iff (e : Env) (events : List Event) (code : ℕ)
    (hexit : (run e events).main = .exited code) :
    (ExpiredInTime e events → code ≠ exitPass) ↔ ¬ LatePass e events := by
  constructor
  · intro hclaim hlate
    refine hclaim (expiredInTime_of_latePass hlate) ?_
    obtain ⟨hstarts, hreap, before, after, rfl, hblocks, hend, -⟩ := hlate
    rw [run_exitCode ((run_waiting_iff e before).mpr ⟨hstarts, hblocks⟩) hend hexit, hreap]
    rfl
  · rintro hlate ⟨before, ev, after, rfl, hwait, hreturn, hexpired⟩ hpass
    rw [run_append_singleton] at hreturn
    obtain ⟨rfl, status, hstatus⟩ := step_returns hwait hreturn
    rw [run_target] at hstatus
    obtain ⟨hstarts, hblocks⟩ := (run_waiting_iff e before).mp hwait
    have hcode := run_exitCode hwait hstatus hexit
    have hticks := (run_watching hwait).2.expired.mp hexpired
    apply hlate
    rw [hpass] at hcode
    cases hreap : e.sigchldIgnored with
    | true => simp [hreap, exitCode, exitPass, exitUnresolved] at hcode
    | false =>
      refine ⟨hstarts, hreap, before, after, rfl, hblocks, ?_, hticks⟩
      cases status with
      | exited c =>
        have hc : c = 0 := by
          apply Fin.ext
          simpa [hreap, exitCode, exitPass] using hcode.symm
        rw [hstatus, hc]
      | signaled sig => simp [hreap, exitCode, exitPass, exitUnresolved] at hcode

/-- A target that ends in time. -/
theorem expired_not_pass_iff_inTime :
    let e : Env := ⟨3, 2, none, false, false, true, true, true, 4, none, false⟩
    let events : List Event := [.tick none, .target (.exited 0), .main, .main, .main]
    (run e events).main = .exited exitPass ∧
      ((ExpiredInTime e events → exitPass ≠ exitPass) ↔ ¬ LatePass e events) := by
  have h : (run ⟨3, 2, none, false, false, true, true, true, 4, none, false⟩
      [.tick none, .target (.exited 0), .main, .main, .main]).main = .exited exitPass := by decide
  exact ⟨h, expired_not_pass_iff _ _ _ h⟩

/-- With period 0 the first tick expires, the target catches SIGTERM and exits with 0. -/
theorem expired_timer_passes :
    let e : Env := ⟨3, 0, none, false, false, true, true, true, 4, none, false⟩
    let events : List Event := [.tick none, .target (.exited 0), .main, .main, .main]
    ExpiredInTime e events ∧ (run e events).main = .exited exitPass := by
  refine ⟨⟨[.tick none, .target (.exited 0)], .main, [.main, .main], rfl, ?_, ?_, ?_⟩, ?_⟩ <;> decide

end PipTestsuite.Timer
