import PipTestsuite.Timer

/-! timer.c: the ticks that the handler counts as unloaded, against those at which no core has a whole load. -/
namespace PipTestsuite.Timer

/-- The load average, as often as it covers all cores. -/
def coreLoad (e : Env) (loadavg : ℚ≥0) : ℤ := ⌊(loadavg : ℚ) / e.ncores⌋

/-- SIGALRM again and again, with the readings of /proc/loadavg. -/
def ticks (readings : List ℚ≥0) : List Event := readings.map fun load : ℚ≥0 => .tick (some (load : ℚ))

def unloaded (e : Env) (readings : List ℚ≥0) : ℕ := readings.countP fun load : ℚ≥0 => coreLoad e load = 0

/-- The timer expires when it has seen max(1, period) ticks without load, with all ticks in timer_actual, and no
tick with a load counts. -/
structure CountsUnloaded (e : Env) (readings : List ℚ≥0) : Prop where
  expires : ∀ l, l <+: readings → ((run e (ticks l)).timedout = true ↔ max 1 e.period ≤ unloaded e l)
  loaded : ∀ l load, l ++ [load] <+: readings → 1 ≤ coreLoad e load →
    (run e (ticks (l ++ [load]))).timerCount = (run e (ticks l)).timerCount
  actual : ∀ l load, l ++ [load] <+: readings → (run e (ticks l)).timedout = false →
    (run e (ticks (l ++ [load]))).timedout = true → (run e (ticks (l ++ [load]))).timerActual = (l ++ [load]).length

section Load
variable {e : Env} {readings l : List ℚ≥0} {load : ℚ≥0}

lemma trunc_eq_floor {q : ℚ} (h : 0 ≤ q) : trunc q = ⌊q⌋ := by
  rw [trunc, Rat.floor_def', Int.tdiv_eq_ediv_of_nonneg (Rat.num_nonneg.mpr h)]

lemma ncores_pos (e : Env) : 0 < e.ncores := by
  unfold Env.ncores
  dsimp only
  split_ifs <;> omega

/-- The reciprocal of the number of cores is an int. -/
lemma trunc_reciprocal (e : Env) : trunc (1 / e.ncores) = if e.ncores = 1 then 1 else 0 := by
  have hpos := ncores_pos e
  split_ifs with hone
  · simp [hone, trunc]
  · have hcores : (1 : ℚ) < e.ncores := by
      have htwo : 1 < e.ncores := by omega
      exact_mod_cast htwo
    rw [trunc_eq_floor (by positivity), Int.floor_eq_zero_iff]
    exact ⟨by positivity, (div_lt_one (by positivity)).mpr hcores⟩

/-- With one core it is the load that counts, and with more none does. -/
lemma getLoad_eq (e : Env) (load : ℚ≥0) :
    getLoad e (some load) = if e.ncores = 1 then coreLoad e load else 0 := by
  simp only [getLoad, trunc_reciprocal]
  split_ifs with hone
  · rw [Int.cast_one, mul_one, trunc_eq_floor (NNRat.coe_nonneg load), coreLoad, hone, Int.cast_one, div_one]
  · simp [trunc]

lemma coreLoad_nonneg (e : Env) (load : ℚ≥0) : 0 ≤ coreLoad e load := by
  have hpos := ncores_pos e
  apply Int.floor_nonneg.mpr
  positivity

lemma unloaded_le_length (e : Env) (l : List ℚ≥0) : unloaded e l ≤ l.length := List.countP_le_length

@[simp] lemma ticks_append (l : List ℚ≥0) (load : ℚ≥0) : ticks (l ++ [load]) = ticks l ++ [.tick (some load)] := by
  simp [ticks]

lemma blocks_ticks (l : List ℚ≥0) : Blocks false (ticks l) := by
  induction l with
  | nil => trivial
  | cons load l ih => exact ih

lemma ticks_watching (hstarts : e.Starts) (l : List ℚ≥0) :
    Watching e ((ticks l).countP (Event.IsUnloaded e)) (run e (ticks l)) :=
  (run_watching ((run_waiting_iff e (ticks l)).mpr ⟨hstarts, blocks_ticks l⟩)).2

lemma ticks_countP (e : Env) (l : List ℚ≥0) :
    (ticks l).countP (Event.IsUnloaded e) = if e.ncores = 1 then unloaded e l else l.length := by
  rw [ticks, List.countP_map]
  split_ifs with hone
  · apply List.countP_congr
    intro load _
    simp [Event.IsUnloaded, getLoad_eq, hone]
  · apply List.countP_eq_length.mpr
    intro load _
    simp [Event.IsUnloaded, getLoad_eq, hone]

lemma timedout_iff (hstarts : e.Starts) (l : List ℚ≥0) : (run e (ticks l)).timedout = true ↔
    e.ticksNeeded ≤ (if e.ncores = 1 then unloaded e l else l.length : ℕ) := by
  rw [(ticks_watching hstarts l).expired, ticks_countP]

/-- The handler is called at each tick, though it does nothing after the end. -/
lemma run_tick (hstarts : e.Starts) (l : List ℚ≥0) (load : ℚ≥0) :
    run e (ticks (l ++ [load])) = timerWatcher e (some load) (run e (ticks l)) := by
  rw [ticks_append, run_append_singleton]
  cases htimedout : (run e (ticks l)).timedout with
  | false => simp [step, ((ticks_watching hstarts l).counting htimedout).1]
  | true => cases harmed : (run e (ticks l)).armed <;> simp [step, harmed, timerWatcher, htimedout]

/-- timer_actual is an int too. -/
lemma run_actual (hstarts : e.Starts) (l : List ℚ≥0) :
    (run e (ticks l)).timedout = false → (run e (ticks l)).timerActual = toInt l.length := by
  induction l using List.reverseRecOn with
  | nil =>
    obtain ⟨hargc, hfork, hsig, htimer⟩ := hstarts
    intro _
    have hargc' : ¬ e.argc < 3 := by omega
    have hzero : toInt 0 = 0 := by decide
    simp [ticks, run, start, setTimer, hargc', hfork, hsig, htimer, hzero]
  | append_singleton l load ih =>
    have hcount : toInt (toInt l.length + 1) = toInt ((l.length + 1 : ℕ) : ℤ) := by
      push_cast
      exact Int.bmod_add_bmod
    rw [run_tick hstarts, List.length_append, List.length_singleton]
    intro htimedout
    obtain ⟨ht, hs⟩ | ⟨ht, -, hs⟩ | ⟨ht, -, -, hs⟩ | ⟨ht, -, -, hs⟩ :=
      timerWatcher_cases e (some load) (run e (ticks l)) <;> rw [hs] at htimedout ⊢
    · rw [ht] at htimedout
      cases htimedout
    · rw [ih ht, hcount]
    · rw [ih ht, hcount]
    · cases htimedout

/-- The tick at which the timer expires is counted. -/
lemma expired_actual (hstarts : e.Starts) (hbefore : (run e (ticks l)).timedout = false) :
    (run e (ticks (l ++ [load]))).timerActual = toInt (l ++ [load]).length := by
  have hactual : toInt ((run e (ticks l)).timerActual + 1) = toInt (l ++ [load]).length := by
    rw [run_actual hstarts l hbefore, List.length_append, List.length_singleton]
    push_cast
    exact Int.bmod_add_bmod
  rw [run_tick hstarts]
  obtain ⟨ht, -⟩ | ⟨-, -, hs⟩ | ⟨-, -, -, hs⟩ | ⟨-, -, -, hs⟩ :=
    timerWatcher_cases e (some load) (run e (ticks l))
  · rw [ht] at hbefore
    cases hbefore
  all_goals rw [hs, hactual]

lemma toInt_sub_one_ne (z : ℤ) : toInt (z - 1) ≠ z := by
  have hdvd := Int.dvd_self_sub_bmod (x := z - 1) (m := 2 ^ 32)
  unfold toInt
  omega

/-- A tick leaves timer_count, if it comes late or with a load. -/
lemma timerCount_eq_iff (hstarts : e.Starts) (l : List ℚ≥0) (load : ℚ≥0) :
    (run e (ticks (l ++ [load]))).timerCount = (run e (ticks l)).timerCount ↔
      (run e (ticks l)).timedout = true ∨ getLoad e (some load) ≠ 0 := by
  rw [run_tick hstarts]
  obtain ⟨ht, hs⟩ | ⟨ht, hload, hs⟩ | ⟨ht, hload, -, hs⟩ | ⟨ht, hload, -, hs⟩ :=
    timerWatcher_cases e (some load) (run e (ticks l)) <;> rw [hs] <;> simp [ht, toInt_sub_one_ne]
  all_goals exact hload

lemma ticksNeeded_of_ne (hleast : e.period ≠ -2 ^ 31) : e.ticksNeeded = max 1 e.period := if_neg hleast

lemma max_le_ticksNeeded (e : Env) : max 1 e.period ≤ e.ticksNeeded := by
  unfold Env.ticksNeeded
  split_ifs <;> omega

/-- The reading with which so many have been unloaded. -/
lemma exists_unloaded {n : ℕ} (hpos : 0 < n) (hn : n ≤ unloaded e readings) :
    ∃ l load, l ++ [load] <+: readings ∧ unloaded e l < n ∧ unloaded e (l ++ [load]) = n := by
  induction readings using List.reverseRecOn with
  | nil =>
    simp only [unloaded, List.countP_nil] at hn
    omega
  | append_singleton readings load ih =>
    by_cases hbefore : n ≤ unloaded e readings
    · obtain ⟨l, load', hl, hlt, heq⟩ := ih hbefore
      exact ⟨l, load', hl.trans (List.prefix_append _ _), hlt, heq⟩
    · refine ⟨readings, load, List.prefix_refl _, by omega, ?_⟩
      simp only [unloaded, List.countP_append, List.countP_singleton] at hn hbefore ⊢
      split_ifs at hn ⊢ <;> omega

lemma unloaded_mono {l l' : List ℚ≥0} (h : l <+: l') : unloaded e l ≤ unloaded e l' := h.sublist.countP_le

end Load

/-- What it takes for this: with more than one core no reading up to the end of the period may be that of a load,
and the two ints do not wrap. -/
structure CanCount (e : Env) (readings : List ℚ≥0) : Prop where
  cores : e.ncores = 1 ∨ ∀ load ∈ readings.take (max 1 e.period).toNat, coreLoad e load = 0
  period : e.period = -2 ^ 31 → unloaded e readings = 0
  soon : max 1 e.period ≤ unloaded e readings → max 1 e.period ≤ unloaded e (readings.take (2 ^ 31 - 1))

section Exactly
variable {e : Env} {readings l : List ℚ≥0} {load : ℚ≥0}

/-- With one core just the ticks without load count. -/
lemma countsUnloaded_one (hstarts : e.Starts) (hone : e.ncores = 1) :
    CountsUnloaded e readings ↔ CanCount e readings := by
  have hexpired : ∀ l, (run e (ticks l)).timedout = true ↔ e.ticksNeeded ≤ unloaded e l := by
    intro l
    rw [timedout_iff hstarts, if_pos hone]
  constructor
  · intro h
    refine ⟨.inl hone, fun hleast => ?_, fun hover => ?_⟩
    · by_contra hne
      obtain ⟨l, load, hl, -, hcount⟩ := exists_unloaded Nat.one_pos (Nat.one_le_iff_ne_zero.mpr hne)
      have hnow := h.expires _ hl
      rw [hexpired, hcount, Env.ticksNeeded, if_pos hleast, hleast] at hnow
      omega
    · obtain ⟨n, hn⟩ : ∃ n : ℕ, (n : ℤ) = max 1 e.period := ⟨(max 1 e.period).toNat, by omega⟩
      rw [← hn] at hover ⊢
      obtain ⟨l, load, hl, hlt, hcount⟩ := exists_unloaded (by omega) (Nat.cast_le.mp hover)
      have hbefore : (run e (ticks l)).timedout = false := by
        have hle := max_le_ticksNeeded e
        rw [← Bool.not_eq_true, hexpired]
        omega
      have hafter := (h.expires _ hl).mpr (by omega)
      have hactual := h.actual l load hl hbefore hafter
      rw [expired_actual hstarts hbefore] at hactual
      have hrange := (toInt_range (l ++ [load]).length).2
      have htaken : l ++ [load] <+: readings.take (2 ^ 31 - 1) := List.prefix_take_iff.mpr ⟨hl, by omega⟩
      rw [← hcount]
      exact_mod_cast unloaded_mono htaken
  · intro h
    refine ⟨fun l hl => ?_, fun l load _ hload => ?_, fun l load hl hbefore hafter => ?_⟩
    · rw [hexpired]
      by_cases hleast : e.period = -2 ^ 31
      · have hzero := unloaded_mono (e := e) hl
        rw [h.period hleast] at hzero
        have hpos := ticksNeeded_pos e
        omega
      · rw [ticksNeeded_of_ne hleast]
    · rw [timerCount_eq_iff hstarts, getLoad_eq, if_pos hone]
      omega
    · rw [expired_actual hstarts hbefore]
      rw [← Bool.not_eq_true, hexpired, not_le] at hbefore
      rw [hexpired] at hafter
      have hall := unloaded_mono (e := e) hl
      have hle := max_le_ticksNeeded e
      have hsoon := h.soon (by omega)
      have hleast : e.period ≠ -2 ^ 31 := by
        intro hleast
        have hzero := h.period hleast
        omega
      rw [ticksNeeded_of_ne hleast] at hbefore hafter
      have hlength : (l ++ [load]).length ≤ 2 ^ 31 - 1 := by
        by_contra hlong
        have hpart : readings.take (2 ^ 31 - 1) <+: l := by
          rw [List.length_append, List.length_singleton] at hlong
          refine List.prefix_of_prefix_length_le (List.take_prefix _ _) ((List.prefix_append l [load]).trans hl) ?_
          rw [List.length_take]
          omega
        have hfew := unloaded_mono (e := e) hpart
        omega
      apply toInt_eq_self <;> omega

/-- With more cores all ticks count, so there may be none with a load. -/
lemma countsUnloaded_more (hstarts : e.Starts) (hone : e.ncores ≠ 1) :
    CountsUnloaded e readings ↔ CanCount e readings := by
  have hexpired : ∀ l, (run e (ticks l)).timedout = true ↔ e.ticksNeeded ≤ l.length := by
    intro l
    rw [timedout_iff hstarts, if_neg hone]
  have hle := max_le_ticksNeeded e
  -- up to the end of the period
  have htaken : (∀ load ∈ readings.take (max 1 e.period).toNat, coreLoad e load = 0) → ∀ l, l <+: readings →
      max 1 e.period ≤ l.length → max 1 e.period ≤ unloaded e (l.take (max 1 e.period).toNat) := by
    intro hidle l hl hlength
    have hcount : unloaded e (l.take (max 1 e.period).toNat) = (l.take (max 1 e.period).toNat).length := by
      apply List.countP_eq_length.mpr
      intro load hmem
      exact decide_eq_true (hidle load ((hl.take (max 1 e.period).toNat).subset hmem))
    rw [hcount, List.length_take]
    omega
  constructor
  · intro h
    have hidle : ∀ load ∈ readings.take (max 1 e.period).toNat, coreLoad e load = 0 := by
      intro load hmem
      by_contra hload
      -- this reading is counted, though it is that of a load
      obtain ⟨l, r, htake⟩ := List.append_of_mem hmem
      have hpart : l ++ [load] <+: readings.take (max 1 e.period).toNat := ⟨r, by rw [htake]; simp⟩
      have hlength : l.length < (max 1 e.period).toNat := by
        have hlen := hpart.length_le
        simp only [List.length_append, List.length_singleton, List.length_take] at hlen
        omega
      have hsame := h.loaded l load (hpart.trans (List.take_prefix _ _)) (by
        have hnonneg := coreLoad_nonneg e load
        omega)
      rw [timerCount_eq_iff hstarts, getLoad_eq, if_neg hone, hexpired] at hsame
      omega
    have hperiod : e.period = -2 ^ 31 → unloaded e readings = 0 := by
      intro hleast
      cases readings with
      | nil => rfl
      | cons first rest =>
        have hone' : (max 1 e.period).toNat = 1 := by omega
        have hfirst : coreLoad e first = 0 := hidle first (by simp [hone'])
        have hnow := h.expires [first] ⟨rest, rfl⟩
        rw [hexpired, Env.ticksNeeded, if_pos hleast, hleast] at hnow
        simp [unloaded, hfirst] at hnow
    refine ⟨.inr hidle, hperiod, fun hover => ?_⟩
    have hlength : max 1 e.period ≤ readings.length := hover.trans (by exact_mod_cast unloaded_le_length e readings)
    refine (htaken hidle readings (List.prefix_refl _) hlength).trans ?_
    have hrange := (period_range e).2
    exact_mod_cast unloaded_mono (List.take_prefix_take_left (by omega))
  · rintro ⟨hcores, hperiod, -⟩
    have hidle := hcores.resolve_left hone
    by_cases hleast : e.period = -2 ^ 31
    · have hnil : readings = [] := by
        cases readings with
        | nil => rfl
        | cons first rest =>
          have hone' : (max 1 e.period).toNat = 1 := by omega
          have hfirst : coreLoad e first = 0 := hidle first (by simp [hone'])
          have hzero := hperiod hleast
          simp [unloaded, hfirst] at hzero
      subst hnil
      refine ⟨fun l hl => ?_, fun l load hl => ?_, fun l load hl => ?_⟩
      · obtain rfl := List.prefix_nil.mp hl
        rw [hexpired]
        simp only [unloaded, List.countP_nil, List.length_nil, Nat.cast_zero]
        omega
      all_goals
        have hlen := hl.length_le
        simp at hlen
    · rw [ticksNeeded_of_ne hleast] at hexpired
      refine ⟨fun l hl => ?_, fun l load hl hload => ?_, fun l load hl hbefore _ => ?_⟩
      · rw [hexpired]
        constructor
        · intro hlength
          refine (htaken hidle l hl hlength).trans ?_
          exact_mod_cast unloaded_mono (List.take_prefix _ _)
        · intro hcount
          exact hcount.trans (by exact_mod_cast unloaded_le_length e l)
      · rw [timerCount_eq_iff hstarts, hexpired]
        left
        by_contra hlength
        have hpart : l ++ [load] <+: readings.take (max 1 e.period).toNat := by
          refine List.prefix_take_iff.mpr ⟨hl, ?_⟩
          rw [List.length_append, List.length_singleton]
          omega
        have hmem : load ∈ readings.take (max 1 e.period).toNat := hpart.subset (by simp)
        rw [hidle load hmem] at hload
        omega
      · rw [expired_actual hstarts hbefore]
        rw [← Bool.not_eq_true, hexpired] at hbefore
        have hrange := (period_range e).2
        rw [List.length_append, List.length_singleton]
        apply toInt_eq_self <;> omega

end Exactly

/-- Exactly: no load up to the end of the period, or one core, and no int that wraps. -/
theorem counts_unloaded_iff (e : Env) (readings : List ℚ≥0) (hstarts : e.Starts) :
    CountsUnloaded e readings ↔ CanCount e readings := by
  by_cases hone : e.ncores = 1
  · exact countsUnloaded_one hstarts hone
  · exact countsUnloaded_more hstarts hone

/-- Two cores, and a period of two seconds. -/
def twoCores : Env := ⟨3, 2, none, false, false, true, true, true, 2, none, false⟩

lemma twoCores_starts : twoCores.Starts := ⟨by decide, rfl, rfl, rfl⟩

lemma twoCores_coreLoad (load : ℚ≥0) : coreLoad twoCores load = ⌊(load : ℚ) / 2⌋ := rfl

theorem counts_unloaded_twoCores : CountsUnloaded twoCores [1, 1 / 2, 7] := by
  refine (counts_unloaded_iff twoCores [1, 1 / 2, 7] twoCores_starts).mpr ⟨.inr ?_, by decide, fun h => h⟩
  have htwo : (max 1 twoCores.period).toNat = 2 := by decide
  rw [htwo]
  intro load hmem
  simp only [List.take_succ_cons, List.take_zero, List.mem_cons, List.not_mem_nil, or_false] at hmem
  obtain rfl | rfl := hmem <;> rw [twoCores_coreLoad, Int.floor_eq_zero_iff] <;> norm_num

/-- Both cores are loaded twice at each tick, and the timer expires. -/
theorem load_counted : ¬ ∀ e readings, e.Starts → CountsUnloaded e readings := by
  intro h
  have htimedout : (run twoCores (ticks [4, 4])).timedout = true :=
    (timedout_iff twoCores_starts [4, 4]).mpr (by decide)
  have hcount := ((h twoCores [4, 4] twoCores_starts).expires [4, 4] (List.prefix_refl _)).mp htimedout
  have hfour : coreLoad twoCores 4 ≠ 0 := by
    rw [twoCores_coreLoad]
    norm_num
  simp [unloaded, hfour] at hcount

end PipTestsuite.Timer
