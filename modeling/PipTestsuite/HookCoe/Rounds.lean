import PipTestsuite.HookCoe.Alive
import PipTestsuite.HookCoe.Root
import PipTestsuite.HookCoe.Stream

/-! The rounds of the root of hook_and_coe.c: the loop that reads a round back ends after its first read(), so
that a round is complete exactly when this one returns all of it. -/
namespace PipTestsuite.HookCoe
open DescriptorTable

lemma strncmp_eq_zero {s t : List UInt8} {n : ℕ} (h : s.take n = t.take n) : strncmp s t n = 0 := by
  induction n generalizing s t with
  | zero => simp [strncmp]
  | succ n ih =>
    cases s with
    | nil => simp [strncmp]
    | cons a s =>
      cases t with
      | nil => simp [strncmp]
      | cons b t =>
        obtain ⟨rfl, htake⟩ := List.cons.inj h
        simp [strncmp, ih htake]

lemma put_take (buf bytes : List UInt8) : (put buf 0 bytes).take bytes.length = bytes := by simp [put]

lemma length_le_put (buf bytes : List UInt8) : bytes.length ≤ (put buf 0 bytes).length := by simp [put]

/-- Before the root closes fd_out. -/
def Line.inRounds (l : Line) : Prop :=
  l = .setup ∨ l = .readFile ∨ l = .write ∨ l = .readBack ∨ l = .compare

/-- What holds in a run whose reads have all been complete. -/
structure Rounds (ntasks : ℕ) (s : Test) : Prop where
  wired : Wired ntasks s.chain
  flow : Flow ntasks s.chain
  alive : s.line.inRounds → Alive ntasks s.chain
  between : s.line = .setup ∨ s.line = .readFile ∨ s.line = .compare → s.chain.readBack = s.chain.written
  writing : s.line = .write → ∃ n : ℕ, s.cc = n ∧ s.ccc = n ∧ s.ccr = n - s.pw ∧ s.pw < n ∧ n ≤ s.buff.length ∧
    s.chain.written = s.chain.readBack ++ s.buff.take s.pw
  reading : s.line = .readBack → ∃ n : ℕ, 0 < n ∧ s.cc = n ∧ s.ccc = n ∧ s.pc = 0 ∧ n ≤ s.buff.length ∧
    s.chain.written = s.chain.readBack ++ s.buff.take n
  compared : s.line = .compare → s.check.take s.cc.toNat = s.buff.take s.cc.toNat

variable {ntasks cap choice : ℕ} {s s' : Test}

lemma testStart_rounds (T : Table ℕ) (file buff check : List UInt8) :
    Rounds ntasks (testStart ntasks T file buff check) where
  wired := start_wired T
  flow := start_flow T
  alive _ := start_alive T
  between _ := rfl
  writing h := by cases h
  reading h := by cases h
  compared h := by cases h

lemma Rounds.complete (h : Rounds ntasks s) : roundComplete s := by
  intro hline _
  have htake := h.compared hline
  exact ⟨htake, strncmp_eq_zero htake.symm, h.between (.inr (.inr hline))⟩

lemma Rounds.task {i : ℕ} (h : Rounds ntasks s) (hstep : testStep ntasks cap s (.task i choice) = some s') :
    Rounds ntasks s' := by
  obtain ⟨c, hc, rfl⟩ := Option.map_eq_some_iff.mp hstep
  obtain ⟨hi, hmove⟩ := h.wired.taskMove hc
  obtain ⟨-, -, -, hwritten, hreadBack⟩ := hmove.root
  refine ⟨h.wired.task_step hi hmove, h.flow.task h.wired hi hmove, fun hline => ?_, ?_, ?_, ?_, h.compared⟩
  · exact (h.alive hline).task h.wired hi hmove
  · simpa only [hwritten, hreadBack] using h.between
  · simpa only [hwritten, hreadBack] using h.writing
  · simpa only [hwritten, hreadBack] using h.reading

lemma Rounds.setup (h : Rounds ntasks s) (hpos : 0 < ntasks) (hline : s.line = .setup)
    (hstep : s.rootStep ntasks cap choice = some s') : Rounds ntasks s' := by
  have halive := h.alive (.inl hline)
  have hbetween := h.between (.inl hline)
  simp only [Test.rootStep, hline] at hstep
  split_ifs at hstep with htodo
  · obtain rfl := Option.some.inj hstep
    exact ⟨h.wired, h.flow, fun _ => halive, fun _ => hbetween, nofun, nofun, nofun⟩
  · obtain ⟨c, hc, rfl⟩ := Option.map_eq_some_iff.mp hstep
    have hmove := h.wired.setupMove hc
    obtain ⟨-, -, hwritten, hreadBack⟩ := hmove.data
    refine ⟨h.wired.setup_step hpos hc, h.flow.setup hmove, fun _ => halive.setup hpos h.wired hc, fun _ => ?_,
      nofun, nofun, nofun⟩
    rw [hwritten, hreadBack, hbetween]

lemma Rounds.readFile (h : Rounds ntasks s) (hline : s.line = .readFile)
    (hstep : s.rootStep ntasks cap choice = some s') : Rounds ntasks s' := by
  have halive := h.alive (.inr (.inl hline))
  have hbetween := h.between (.inr (.inl hline))
  simp only [Test.rootStep, hline] at hstep
  split_ifs at hstep with hgot
  · obtain rfl := Option.some.inj hstep
    exact ⟨h.wired, h.flow, by simp [Line.inRounds], nofun, nofun, nofun, nofun⟩
  · obtain rfl := Option.some.inj hstep
    refine ⟨h.wired, h.flow, fun _ => halive, nofun, fun _ => ?_, nofun, nofun⟩
    have hlen := List.length_pos_iff.mpr hgot
    exact ⟨_, rfl, rfl, by simp, hlen, length_le_put _ _, by simpa using hbetween.symm⟩

lemma amount_le (choice limit : ℕ) : amount choice limit ≤ limit := min_le_right _ _

lemma amount_pos {limit : ℕ} (choice : ℕ) (h : 0 < limit) : 0 < amount choice limit := lt_min (Nat.succ_pos choice) h

/-- The write loop sends the buffer piece by piece. -/
lemma Rounds.write (h : Rounds ntasks s) (hline : s.line = .write)
    (hstep : s.rootStep ntasks cap choice = some s') : Rounds ntasks s' := by
  obtain ⟨n, hcc, hccc, hccr, hlt, hlen, hwritten⟩ := h.writing hline
  have halive := h.alive (.inr (.inr (.inl hline)))
  simp only [Test.rootStep, hline] at hstep
  obtain ⟨c, hc, rfl⟩ := Option.map_eq_some_iff.mp hstep
  have hleft : s.ccr.toNat = n - s.pw := by omega
  have hle := amount_le choice s.ccr.toNat
  generalize amount choice s.ccr.toNat = ccw at hc hle
  have hflow := h.flow.rootWrite h.wired hc
  obtain ⟨-, -, rfl⟩ := h.wired.rootWrite hc
  have hwired : Wired ntasks { s.chain with
      pipe := Function.update s.chain.pipe 0 (s.chain.pipe 0 ++ (s.buff.drop s.pw).take ccw)
      written := s.chain.written ++ (s.buff.drop s.pw).take ccw } := h.wired.congr rfl rfl rfl rfl rfl
  have hsent : s.chain.written ++ (s.buff.drop s.pw).take ccw = s.chain.readBack ++ s.buff.take (s.pw + ccw) := by
    rw [hwritten, List.append_assoc, ← List.take_add]
  have hccr' : s.ccr - ccw = n - (s.pw + ccw : ℕ) := by
    push_cast
    omega
  split_ifs with hmore
  · have hmore' : 0 < s.ccr - ccw := hmore
    have hrest : s.pw + ccw < n := by omega
    refine ⟨hwired, hflow, fun _ => halive.congr rfl rfl rfl rfl, by simp, fun _ => ?_, by simp, by simp⟩
    exact ⟨n, hcc, hccc, hccr', hrest, hlen, hsent⟩
  · have hmore' : ¬ 0 < s.ccr - ccw := hmore
    have hall : s.pw + ccw = n := by omega
    rw [hall] at hsent
    refine ⟨hwired, hflow, fun _ => halive.congr rfl rfl rfl rfl, by simp, by simp, fun _ => ?_, by simp⟩
    exact ⟨n, by omega, hcc, hccc, rfl, hlen, hsent⟩

/-- The loop ends after the first read(), which has got something. -/
lemma Rounds.read_eq (h : Rounds ntasks s) (hpos : 0 < ntasks) (hline : s.line = .readBack)
    (hstep : s.rootStep ntasks cap choice = some s') :
    ∃ c got, s.chain.rootRead ntasks s.ccc.toNat choice = some (c, got) ∧ 0 < got.length ∧
      s' = { s with
        chain := c
        check := put s.check s.pc got
        ccr := got.length
        ccc := -got.length
        pc := s.pc + got.length
        line := .compare } := by
  obtain ⟨n, hn, -, hccc, -⟩ := h.reading hline
  have halive := h.alive (.inr (.inr (.inr (.inl hline))))
  simp only [Test.rootStep, hline] at hstep
  obtain ⟨⟨c, got⟩, hread, rfl⟩ := Option.map_eq_some_iff.mp hstep
  obtain ⟨-, -, hgot, -⟩ := h.wired.rootRead hread
  have hne : got ≠ [] := by
    have hlimit : 0 < s.ccc.toNat := by omega
    rw [hgot, Ne, List.take_eq_nil_iff, not_or]
    exact ⟨(amount_pos choice hlimit).ne', halive.rootRead hpos h.wired hread⟩
  have hlen := List.length_pos_iff.mpr hne
  have hdone : ¬ (-(got.length : ℤ) > 0) := by omega
  refine ⟨c, got, hread, hlen, ?_⟩
  simp only [if_neg hne, if_neg hdone]

/-- What is in the chain is a part of the round. -/
lemma Rounds.pipe_prefix (h : Rounds ntasks s) {n : ℕ}
    (hwritten : s.chain.written = s.chain.readBack ++ s.buff.take n) : s.chain.pipe ntasks <+: s.buff.take n := by
  have hstream := h.flow.stream
  rw [← delivered_append_inTransit, Chain.delivered, List.append_assoc, hwritten] at hstream
  exact ⟨_, List.append_cancel_left hstream⟩

lemma Rounds.readBack (h : Rounds ntasks s) (hpos : 0 < ntasks) (hline : s.line = .readBack)
    (hstep : s.rootStep ntasks cap choice = some s') (hall : readsAll ntasks s (.root choice)) :
    Rounds ntasks s' := by
  obtain ⟨n, hn, hcc, hccc, hpc, hlen, hwritten⟩ := h.reading hline
  have halive := h.alive (.inr (.inr (.inr (.inl hline))))
  obtain ⟨c, got, hread, -, rfl⟩ := h.read_eq hpos hline hstep
  have hflow := h.flow.rootRead h.wired hread
  obtain ⟨-, rfl, hgot, -⟩ := h.wired.rootRead hread
  have hwhole : n ≤ choice + 1 ∧ n ≤ (s.chain.pipe ntasks).length := by
    have hle := hall hline
    omega
  have htake : (s.buff.take n).length = n := List.length_take_of_le hlen
  have hpipe : s.chain.pipe ntasks = s.buff.take n := by
    apply (h.pipe_prefix hwritten).eq_of_length_le
    rw [htake]
    exact hwhole.2
  have hdata : got = s.buff.take n := by
    have hamount : amount choice s.ccc.toNat = n := by
      rw [hccc, Int.toNat_natCast, amount, min_eq_right hwhole.1]
    rw [hgot, hamount, hpipe, List.take_take, min_self]
  refine ⟨h.wired.congr rfl rfl rfl rfl rfl, hflow, fun _ => halive.congr rfl rfl rfl rfl, fun _ => ?_, nofun, nofun,
    fun _ => ?_⟩
  · rw [hwritten, hdata]
  · have hput : (put s.check 0 got).take n = got := by
      have htake' := put_take s.check got
      rwa [hdata, htake, ← hdata] at htake'
    rw [hpc, hcc, Int.toNat_natCast, hput, hdata]

/-- After a read() that has not returned all, the round ends with bytes left over. -/
lemma Rounds.short_read (h : Rounds ntasks s) (hpos : 0 < ntasks) (hline : s.line = .readBack)
    (hstep : s.rootStep ntasks cap choice = some s') (hshort : ¬ readsAll ntasks s (.root choice)) :
    ¬ roundComplete s' := by
  obtain ⟨n, hn, hcc, hccc, hpc, hlen, hwritten⟩ := h.reading hline
  obtain ⟨c, got, hread, hgot, rfl⟩ := h.read_eq hpos hline hstep
  obtain ⟨-, rfl, heq, -⟩ := h.wired.rootRead hread
  have hless : got.length < n := by
    have hlt : ¬ (n : ℤ) ≤ min (choice + 1) (s.chain.pipe ntasks).length := by
      rw [← hccc]
      exact fun hle => hshort fun _ => hle
    rw [heq, List.length_take, hccc, Int.toNat_natCast, amount]
    omega
  intro hcomplete
  obtain ⟨-, -, hall⟩ := hcomplete rfl (by simp only; omega)
  have hlength := congrArg List.length hall
  simp only [hwritten, List.length_append, List.length_take] at hlength
  omega

/-- When the root has left its loop. -/
lemma rounds_of_closing (hwired : Wired ntasks s.chain) (hflow : Flow ntasks s.chain) (hline : ¬ s.line.inRounds) :
    Rounds ntasks s := by
  simp only [Line.inRounds, not_or] at hline
  obtain ⟨hsetup, hreadFile, hwrite, hreadBack, hcompare⟩ := hline
  refine ⟨hwired, hflow, ?_, ?_, fun h => absurd h hwrite, fun h => absurd h hreadBack, fun h => absurd h hcompare⟩
  · rintro (h | h | h | h | h) <;> contradiction
  · rintro (h | h | h) <;> contradiction

lemma Rounds.compare (h : Rounds ntasks s) (hline : s.line = .compare)
    (hstep : s.rootStep ntasks cap choice = some s') : Rounds ntasks s' := by
  have hcomparison : strncmp s.buff s.check s.cc.toNat = 0 := strncmp_eq_zero (h.compared hline).symm
  simp only [Test.rootStep, hline, hcomparison, ne_eq, not_true_eq_false, if_false] at hstep
  obtain rfl := Option.some.inj hstep
  have halive := h.alive (.inr (.inr (.inr (.inr hline))))
  exact ⟨h.wired, h.flow, fun _ => halive, fun _ => h.between (.inr (.inr hline)), nofun, nofun, nofun⟩

/-- close( fd_out ), close( fd_in ) and the calls of pip_wait() -/
lemma Rounds.leave (h : Rounds ntasks s) (hline : ¬ s.line.inRounds)
    (hstep : s.rootStep ntasks cap choice = some s') : Rounds ntasks s' := by
  have hclose : ∀ i side c l, (i = 0 ∧ side = .write ∨ i = ntasks ∧ side = .read) →
      s.chain.rootClose i side = some c → ¬ l.inRounds → Rounds ntasks { s with chain := c, line := l } := by
    intro i side c l hend hc hl
    exact rounds_of_closing (h.wired.rootClose hend hc).1 (h.flow.rootClose hc) hl
  have hmove : ∀ l, ¬ l.inRounds → Rounds ntasks { s with line := l } :=
    fun l hl => rounds_of_closing h.wired h.flow hl
  cases hline' : s.line with
  | setup | readFile | write | readBack | compare => simp [Line.inRounds, hline'] at hline
  | closeOut =>
    simp only [Test.rootStep, hline'] at hstep
    split at hstep
    · next c hc =>
      obtain rfl := Option.some.inj hstep
      exact hclose 0 .write c .closeIn (.inl ⟨rfl, rfl⟩) hc (by simp [Line.inRounds])
    · obtain rfl := Option.some.inj hstep
      exact hmove .exitFail (by simp [Line.inRounds])
  | closeIn =>
    simp only [Test.rootStep, hline'] at hstep
    split at hstep
    · next c hc =>
      obtain rfl := Option.some.inj hstep
      exact hclose ntasks .read c (.wait 0) (.inr ⟨rfl, rfl⟩) hc (by simp [Line.inRounds])
    · obtain rfl := Option.some.inj hstep
      exact hmove .exitFail (by simp [Line.inRounds])
  | wait i =>
    simp only [Test.rootStep, hline'] at hstep
    split_ifs at hstep
    · obtain rfl := Option.some.inj hstep
      exact hmove (.wait (i + 1)) (by simp [Line.inRounds])
    · obtain rfl := Option.some.inj hstep
      exact hmove .exit (by simp [Line.inRounds])
  | exit | exitFail => simp [Test.rootStep, hline'] at hstep

theorem Rounds.step (hpos : 0 < ntasks) (a : Act) (h : Rounds ntasks s) (hstep : testStep ntasks cap s a = some s')
    (hall : readsAll ntasks s a) : Rounds ntasks s' := by
  cases a with
  | task i choice => exact h.task hstep
  | root choice =>
    cases hline : s.line with
    | setup => exact h.setup hpos hline hstep
    | readFile => exact h.readFile hline hstep
    | write => exact h.write hline hstep
    | readBack => exact h.readBack hpos hline hstep hall
    | compare => exact h.compare hline hstep
    | closeOut | closeIn | wait | exit | exitFail => exact h.leave (by simp [Line.inRounds, hline]) hstep

theorem Rounds.step_short (hpos : 0 < ntasks) (a : Act) (h : Rounds ntasks s)
    (hstep : testStep ntasks cap s a = some s') (hshort : ¬ readsAll ntasks s a) : ¬ roundComplete s' := by
  cases a with
  | task i choice => exact absurd trivial hshort
  | root choice =>
    have hline : s.line = .readBack := by
      by_contra hne
      exact hshort fun hline => absurd hline hne
    exact h.short_read hpos hline hstep hshort

/-- The rounds are complete in all states of a run if and only if each read() of fd_in returns all that the round
still expects. -/
theorem rounds_complete_iff (hpos : 0 < ntasks) (cap : ℕ) (T : Table ℕ) (file buff check : List UInt8)
    (schedule : List Act) :
    (∀ l, l <+: schedule → roundComplete (runTest ntasks cap T file buff check l)) ↔
      ∀ l a s', l ++ [a] <+: schedule → testStep ntasks cap (runTest ntasks cap T file buff check l) a = some s' →
        readsAll ntasks (runTest ntasks cap T file buff check l) a :=
  Interleaving.run_states_iff (testStart_rounds T file buff check) (fun _ => Rounds.complete)
    (fun _ a _ => Rounds.step hpos a) (fun _ a _ => Rounds.step_short hpos a) schedule

/-- One task, a file with two bytes, and a buffer that is full of zeros. -/
def runAb (schedule : List Act) : Test :=
  runTest 1 65536 Table.empty [97, 98] (List.replicate 1025 0) (List.replicate 1025 0) schedule

/-- The setup, the read() of the file and the write() to fd_out. -/
def sendAb : List Act := List.replicate 8 (.root 0) ++ [.root 1023, .root 1023]

/-- The task relays the two bytes together. -/
def relayAb : List Act := sendAb ++ [.task 0 1, .task 0 1, .root 1023, .root 0]

theorem rounds_complete_ab : (runAb relayAb).chain.readBack = [97, 98] ∧
    ∀ l a s', l ++ [a] <+: relayAb → testStep 1 65536 (runAb l) a = some s' → readsAll 1 (runAb l) a := by
  have hstates : ∀ n < 15, roundComplete (runAb (relayAb.take n)) := by decide
  refine ⟨by decide, (rounds_complete_iff Nat.one_pos 65536 Table.empty [97, 98] _ _ relayAb).mp fun l hl => ?_⟩
  have hlen : l.length < 15 := Nat.lt_succ_of_le hl.length_le
  rw [List.prefix_iff_eq_take.mp hl]
  exact hstates l.length hlen

/-- The task relays the first byte before the second one. -/
theorem short_read_fails : ¬ roundComplete (runAb (sendAb ++ [.task 0 0, .task 0 0, .root 1023])) ∧
    (runAb (sendAb ++ [.task 0 0, .task 0 0, .root 1023, .root 0])).line = .exitFail := by decide

end PipTestsuite.HookCoe
