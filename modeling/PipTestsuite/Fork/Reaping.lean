import PipTestsuite.Fork.Children

/-! compat/fork.c over all runs: each wait finds one entry, nobody is left without a child to wait for, and
every child is waited for once. -/
namespace PipTestsuite.Fork

section Children
variable {thrd : Bool} {ntasks nfork t : ℕ} {s s' : State}

/-- Behind the handshake the table holds the pids of all children that nobody has found yet. -/
lemma Children.entry {j k : ℕ} {pid : ℤ} (h : Children thrd ntasks nfork s) (hshake : Handshake ntasks s)
    (hphase : 4 ≤ s.phase t) (hj : j < ntasks) (hk : k < nfork) (hpos : 0 < pid)
    (hentry : s.forked (idx nfork j k) = pid) : s.child j k ≠ .unborn ∧ s.pid j k = pid ∧
      ∀ u, s.child j k = .reaped u → (s.pc u).pending (s.matched u) = some pid := by
  have hlate := hshake.forked_of_waiting hphase j hj
  have hforks : (s.pc j).forks nfork = nfork := Pc.forks_of_phase hlate
  have hborn : s.child j k ≠ .unborn := by
    rw [Ne, h.unborn, hforks]
    omega
  have hrecord : ∀ pid, s.pc j ≠ .record k pid := by
    intro pid hpc
    simp [State.phase, hpc, Pc.phase] at hlate
  have hreaped : ∀ u, s.child j k = .reaped u →
      s.pid j k = pid ∧ (s.pc u).pending (s.matched u) = some pid := by
    intro u hu
    rw [h.cleared j k u hu] at hentry
    split_ifs at hentry with hpending
    · exact ⟨hentry, hentry ▸ hpending⟩
    · omega
  refine ⟨hborn, ?_, fun u hu => (hreaped u hu).2⟩
  cases hc : s.child j k with
  | unborn => exact absurd hc hborn
  | running => exact (h.recorded j k (.inl hc) hrecord).symm.trans hentry
  | zombie => exact (h.recorded j k (.inr hc) hrecord).symm.trans hentry
  | reaped u => exact (hreaped u hc).1

/-- A step of the search leaves no entry of the pid behind. -/
lemma Children.search {j k : ℕ} {pid : ℤ} (h : Children thrd ntasks nfork s) (hshake : Handshake ntasks s)
    (hpc : s.pc t = .search pid j k) (hstep : taskStep thrd ntasks nfork s t = some s') :
    Children thrd ntasks nfork s' := by
  have hphase : s.phase t = 4 := by rw [State.phase, hpc]; rfl
  have hcount := h.count t hphase.ge
  obtain ⟨j', k', hreaped, hpid, hplace⟩ : ∃ j' k', s.child j' k' = .reaped t ∧ s.pid j' k' = pid ∧
      (s.matched t = 0 ∧ 1 ≤ s.n t ∧ (j < j' ∨ j = j' ∧ k ≤ k') ∨ s.matched t = 1 ∧ 0 ≤ s.n t) := by
    have hplace := h.place t
    rwa [State.atPlace, hpc] at hplace
  obtain ⟨hj', hk'⟩ := h.lt (j := j') (k := k') (by simp [hreaped])
  have hvisible := (h.reaper _ _ _ hreaped).2.2
  have hpos : 0 < pid := hpid ▸ h.positive j' k' (by simp [hreaped])
  -- a step to another place of the search, that still is not behind the entry
  have hahead : ∀ j₁ k₁, (s.matched t = 0 → j₁ < j' ∨ j₁ = j' ∧ k₁ ≤ k') →
      Children thrd ntasks nfork (s.goTo t (.search pid j₁ k₁)) := by
    intro j₁ k₁ hahead
    refine h.goTo rfl (fun _ _ => rfl) rfl rfl rfl rfl (by rw [hpc]; rfl) (fun _ _ => by simp [hpc])
      (by rw [hpc]; rfl) (by rw [hpc]; rfl) (fun _ => by rw [hpc] at hcount; exact hcount) ?_
    simp only [State.atPlace, State.goTo, Function.update_self]
    refine ⟨j', k', hreaped, hpid, ?_⟩
    obtain ⟨hzero, hn, -⟩ | hdone := hplace
    · exact .inl ⟨hzero, hn, hahead hzero⟩
    · exact .inr hdone
  have hnow : s.matched t = 0 → j < j' ∨ j = j' ∧ k ≤ k' := by
    intro hzero
    obtain ⟨-, -, hahead⟩ | ⟨hone, -⟩ := hplace
    · exact hahead
    · omega
  unfold taskStep at hstep
  simp only [hpc] at hstep
  by_cases hj : j < ntasks
  swap
  · rw [if_neg hj] at hstep
    obtain rfl := Option.some.inj hstep
    obtain ⟨hzero, -⟩ | ⟨hone, hn⟩ := hplace
    · have := hnow hzero
      omega
    · refine h.goTo rfl (fun _ _ => rfl) rfl rfl rfl rfl (by rw [hpc]; rfl) (fun _ _ => by simp [hpc])
        (by rw [hpc]; rfl) (by simp [hpc, Pc.pending, hone]) (fun _ => ?_) ?_
      · rw [hpc] at hcount
        simpa [Pc.pending, hone, State.goTo] using hcount
      · simp only [State.atPlace, State.goTo, Function.update_self]
        exact ⟨hone, hn⟩
  rw [if_pos hj] at hstep
  by_cases hskip : visible thrd t j
  swap
  · rw [if_pos hskip] at hstep
    obtain rfl := Option.some.inj hstep
    refine hahead _ _ fun hzero => ?_
    obtain hlt | ⟨rfl, -⟩ := hnow hzero
    · omega
    · exact absurd hvisible hskip
  rw [if_neg (not_not.mpr hskip)] at hstep
  by_cases hk : k < nfork
  swap
  · rw [if_neg hk] at hstep
    obtain rfl := Option.some.inj hstep
    refine hahead _ _ fun hzero => ?_
    obtain hlt | ⟨rfl, hle⟩ := hnow hzero
    · omega
    · omega
  rw [if_pos hk] at hstep
  obtain rfl := Option.some.inj hstep
  by_cases hmatch : s.forked (idx nfork j k) = pid
  · obtain ⟨hborn, hpid', hpending⟩ := h.entry hshake hphase.ge hj hk hpos hmatch
    obtain ⟨rfl, rfl⟩ := h.distinct j k j' k' hborn (by simp [hreaped]) (hpid'.trans hpid.symm)
    have hzero : s.matched t = 0 := by
      have := hpending t hreaped
      rw [hpc] at this
      by_contra hne
      simp [Pc.pending, hne] at this
    have hn : 1 ≤ s.n t := by
      obtain ⟨-, hn, -⟩ | ⟨hone, -⟩ := hplace
      · exact hn
      · omega
    rw [if_pos hmatch]
    refine h.goTo rfl (fun _ _ => rfl) rfl rfl rfl rfl (by rw [hpc]; rfl) (fun _ _ => by simp [hpc])
      (by rw [hpc]; rfl) (by simp [hpc, Pc.pending, hzero]) (fun _ => ?_) ?_
    · rw [hpc] at hcount
      simpa [Pc.pending, hzero, State.goTo] using hcount
    · simp only [State.atPlace, State.goTo, Function.update_self]
      exact ⟨hreaped, hpid, hzero, hn⟩
  · rw [if_neg hmatch]
    refine hahead _ _ fun hzero => ?_
    obtain hlt | ⟨rfl, hle⟩ := hnow hzero
    · exact .inl hlt
    · obtain hlt | rfl := Nat.lt_or_eq_of_le hle
      · exact .inr ⟨rfl, hlt⟩
      · have hentry := h.cleared j k t hreaped
        rw [hpc] at hentry
        simp only [Pc.pending, hzero, if_true, hpid] at hentry
        exact absurd hentry hmatch

lemma Children.reapedBy_le (h : Children thrd ntasks nfork s) (t : ℕ) :
    reapedBy ntasks nfork s.child t ≤ nfork := by
  obtain hlt | hle := lt_or_ge (s.phase t) 4
  · rw [h.reapedBy_eq_zero hlt]
    exact Nat.zero_le _
  · have hcount := h.count t hle
    have hplace := h.place t
    unfold State.atPlace at hplace
    cases hpc : s.pc t <;> rw [hpc] at hplace hcount <;> simp [State.phase, hpc, Pc.phase] at hle
    case failed => exact hplace.elim
    case search pid j k =>
      obtain ⟨-, -, -, -, ⟨hzero, hn, -⟩ | ⟨hone, hn⟩⟩ := hplace
      · simp [Pc.pending, hzero] at hcount
        omega
      · simp [Pc.pending, hone] at hcount
        omega
    all_goals
      simp [Pc.pending] at hcount hplace
      omega

/-- Together the tasks have waited for no child twice. -/
lemma sum_reapedBy (child : ℕ → ℕ → Child) : ∑ t ∈ Finset.range ntasks, reapedBy ntasks nfork child t =
    ((Finset.range ntasks ×ˢ Finset.range nfork).filter fun x =>
      ∃ t ∈ Finset.range ntasks, child x.1 x.2 = .reaped t).card := by
  simp only [reapedBy]
  rw [← Finset.card_biUnion]
  · congr 1
    ext x
    simp only [Finset.mem_biUnion, Finset.mem_filter]
    constructor
    · rintro ⟨t, ht, hx, hreaped⟩
      exact ⟨hx, t, ht, hreaped⟩
    · rintro ⟨hx, t, ht, hreaped⟩
      exact ⟨t, ht, hx, hreaped⟩
  · intro t _ t' _ hne
    rw [Function.onFun, Finset.disjoint_left]
    intro x hx hx'
    have heq := (Finset.mem_filter.mp hx).2.symm.trans (Finset.mem_filter.mp hx').2
    cases heq
    exact hne rfl

/-- All children that a task could wait for cannot be gone while it still waits. -/
lemma Children.present_of_wait (h : Children thrd ntasks nfork s) (hshake : Handshake ntasks s) (ht : t < ntasks)
    (hpc : s.pc t = .wait) : ∃ j < ntasks, visible thrd t j ∧ ∃ k < nfork, (s.child j k).present := by
  have hphase : s.phase t = 4 := by rw [State.phase, hpc]; rfl
  have hlt : reapedBy ntasks nfork s.child t < nfork := by
    have hcount := h.count t hphase.ge
    have hplace := h.place t
    rw [State.atPlace, hpc] at hplace
    rw [hpc] at hcount
    simp [Pc.pending] at hcount hplace
    omega
  by_contra hnone
  have hreaped : ∀ j < ntasks, visible thrd t j → ∀ k < nfork, ∃ u, s.child j k = .reaped u := by
    intro j hj hvisible k hk
    have hforks : (s.pc j).forks nfork = nfork :=
      Pc.forks_of_phase (hshake.forked_of_waiting hphase.ge j hj)
    cases hc : s.child j k with
    | unborn =>
      rw [h.unborn, hforks] at hc
      omega
    | running => exact absurd ⟨j, hj, hvisible, k, hk, .inl hc⟩ hnone
    | zombie => exact absurd ⟨j, hj, hvisible, k, hk, .inr hc⟩ hnone
    | reaped u => exact ⟨u, rfl⟩
  cases thrd with
  | false =>
    -- all its own children, which nobody else can wait for
    have hsub : ((Finset.range nfork).image fun k => (t, k)) ⊆
        (Finset.range ntasks ×ˢ Finset.range nfork).filter fun x => s.child x.1 x.2 = .reaped t := by
      intro x hx
      obtain ⟨k, hk, rfl⟩ := Finset.mem_image.mp hx
      obtain ⟨u, hu⟩ := hreaped t ht (.inr rfl) k (Finset.mem_range.mp hk)
      obtain hfalse | rfl := (h.reaper t k u hu).2.2
      · cases hfalse
      · simp [ht, Finset.mem_range.mp hk, hu]
    have hcard := Finset.card_le_card hsub
    rw [Finset.card_image_of_injective _ fun _ _ heq => (Prod.mk.inj heq).2, Finset.card_range] at hcard
    exact absurd hcard (not_le.mpr hlt)
  | true =>
    -- all children of all tasks, more than the tasks have waited for
    have hall : ((Finset.range ntasks ×ˢ Finset.range nfork).filter fun x =>
        ∃ u ∈ Finset.range ntasks, s.child x.1 x.2 = .reaped u) = Finset.range ntasks ×ˢ Finset.range nfork := by
      refine Finset.filter_eq_self.mpr fun x hx => ?_
      obtain ⟨hj, hk⟩ := Finset.mem_product.mp hx
      obtain ⟨u, hu⟩ := hreaped x.1 (Finset.mem_range.mp hj) (.inl rfl) x.2 (Finset.mem_range.mp hk)
      exact ⟨u, Finset.mem_range.mpr (h.reaper _ _ _ hu).1, hu⟩
    have hsum : ∑ u ∈ Finset.range ntasks, reapedBy ntasks nfork s.child u < ∑ _u ∈ Finset.range ntasks, nfork :=
      Finset.sum_lt_sum (fun u _ => h.reapedBy_le u) ⟨t, Finset.mem_range.mpr ht, hlt⟩
    rw [sum_reapedBy, hall, Finset.card_product, Finset.card_range, Finset.card_range, Finset.sum_const,
      Finset.card_range, smul_eq_mul] at hsum
    exact lt_irrefl _ hsum

/-- When each task has waited for its number of children, all children have been waited for. -/
lemma Children.reaped_of_counts (h : Children thrd ntasks nfork s)
    (hall : ∀ t < ntasks, reapedBy ntasks nfork s.child t = nfork) {j k : ℕ} (hj : j < ntasks) (hk : k < nfork) :
    ∃ t < ntasks, s.child j k = .reaped t ∧ visible thrd t j := by
  have hsum : ∑ t ∈ Finset.range ntasks, reapedBy ntasks nfork s.child t = ntasks * nfork := by
    rw [Finset.sum_congr rfl fun t ht => hall t (Finset.mem_range.mp ht)]
    simp
  rw [sum_reapedBy] at hsum
  have heq := Finset.eq_of_subset_of_card_le (Finset.filter_subset (fun x : ℕ × ℕ =>
    ∃ t ∈ Finset.range ntasks, s.child x.1 x.2 = .reaped t) (Finset.range ntasks ×ˢ Finset.range nfork))
    (by rw [hsum]; simp)
  have hmem : (j, k) ∈ Finset.range ntasks ×ˢ Finset.range nfork := by simp [hj, hk]
  rw [← heq] at hmem
  obtain ⟨-, t, ht, hreaped⟩ := Finset.mem_filter.mp hmem
  exact ⟨t, Finset.mem_range.mp ht, hreaped, (h.reaper _ _ _ hreaped).2.2⟩

/-- Before the first fork the contents of the table do not matter. -/
lemma Children.clear (h : Children thrd ntasks nfork s) (hunborn : ∀ j k, s.child j k = .unborn) (forked : ℕ → ℤ) :
    Children thrd ntasks nfork { s with forked := forked } where
  toBirths := h.toBirths.congr (fun _ => rfl) (fun _ _ => Iff.rfl) rfl fun _ _ _ => id
  reaper := h.reaper
  recorded j k hpresent := by
    simp only [hunborn, Child.present] at hpresent
    obtain hc | hc := hpresent <;> cases hc
  cleared j k t hreaped := by
    simp only [hunborn] at hreaped
    cases hreaped
  count := h.count
  place t := (h.place t).congr rfl rfl rfl fun _ _ hreaped => ⟨hreaped, rfl⟩

/-- A task that begins to wait has not reaped anything. -/
lemma Children.beginWait (hpos : 0 < nfork) (h : Children thrd ntasks nfork s) (exported : ℕ → Name → Bool)
    (hpc : (∃ i, s.pc t = .importForked i) ∨ s.pc t = .importCheck) : Children thrd ntasks nfork
      (State.goTo { s with exported := exported, n := Function.update s.n t (nfork : ℤ) } t .wait) := by
  have hnone : reapedBy ntasks nfork s.child t = 0 := by
    apply h.reapedBy_eq_zero
    rcases hpc with ⟨i, hpc⟩ | hpc <;> simp [State.phase, hpc, Pc.phase]
  rcases hpc with ⟨i, hpc⟩ | hpc
  all_goals
    refine h.goTo rfl (fun u hu => ?_) rfl rfl rfl rfl ?_ ?_ ?_ ?_ ?_ ?_
    · simp [State.goTo, hu]
    all_goals simp [hpc, Pc.forks, Pc.phase, Pc.pending, State.atPlace, State.goTo]
    · exact hnone
    · omega

/-- Nobody fails, and what holds of the children is kept by all other steps of a task. -/
lemma Children.taskStep (hpos : 0 < nfork) (h : Children thrd ntasks nfork s) (hshake : Handshake ntasks s)
    (ht : t < ntasks) (hstep : taskStep thrd ntasks nfork s t = some s') :
    Children thrd ntasks nfork s' ∧ s'.pc t ≠ .failed := by
  have hforks := h.forks t
  have hplace := h.place t
  unfold State.atPlace at hplace
  cases hpc : s.pc t with
  | allocate =>
    simp only [Fork.taskStep, hpc, Option.some.injEq] at hstep
    subst hstep
    have hfor := (hshake.reached t).isFor
    rw [hpc] at hfor
    obtain rfl : t = 0 := hfor
    have hunborn : ∀ j k, s.child j k = .unborn := by
      intro j k
      have hphase : s.phase j = 0 := by
        by_contra hne
        have hbegun : 1 ≤ s.phase 0 := by
          obtain rfl | h0 := eq_or_ne j 0
          · omega
          · exact (hshake.reached j).begun h0 (Nat.pos_of_ne_zero hne)
        simp [State.phase, hpc, Pc.phase] at hbegun
      have hzero : (s.pc j).forks nfork = 0 := by
        cases hpcj : s.pc j <;> simp [State.phase, hpcj, Pc.phase] at hphase <;> rfl
      rw [h.unborn, hzero]
      exact Nat.zero_le k
    refine ⟨(h.clear hunborn fun _ => 0).goTo rfl (fun _ _ => rfl) rfl rfl rfl rfl ?_ ?_ ?_ ?_ ?_ ?_,
      by simp [State.goTo]⟩ <;> simp [hpc, Pc.forks, Pc.phase, Pc.pending, State.atPlace, State.goTo]
  | exportTable =>
    simp only [Fork.taskStep, hpc, Option.some.injEq] at hstep
    subst hstep
    refine ⟨h.goTo rfl (fun _ _ => rfl) rfl rfl rfl rfl ?_ ?_ ?_ ?_ ?_ ?_, by simp [State.goTo]⟩ <;>
      simp [hpc, Pc.forks, Pc.phase, Pc.pending, State.atPlace, State.goTo]
  | importTable =>
    simp only [Fork.taskStep, hpc] at hstep
    split_ifs at hstep
    obtain rfl := Option.some.inj hstep
    refine ⟨h.goTo rfl (fun _ _ => rfl) rfl rfl rfl rfl ?_ ?_ ?_ ?_ ?_ ?_, by simp [State.goTo]⟩ <;>
      simp [hpc, Pc.forks, Pc.phase, Pc.pending, State.atPlace, State.goTo]
  | fork i =>
    simp only [Fork.taskStep, hpc] at hstep
    rw [hpc] at hforks
    have hle : i ≤ nfork := hforks
    split_ifs at hstep with hi h0
    all_goals
      obtain rfl := Option.some.inj hstep
      have heq : nfork = i := by omega
      refine ⟨h.goTo rfl (fun _ _ => rfl) rfl rfl rfl rfl ?_ ?_ ?_ ?_ ?_ ?_, by simp [State.goTo]⟩ <;>
        simp [hpc, Pc.forks, Pc.phase, Pc.pending, State.atPlace, State.goTo, heq]
  | record i pid =>
    simp only [Fork.taskStep, hpc, Option.some.injEq] at hstep
    subst hstep
    exact ⟨h.record hshake ht hpc, by simp [State.goTo]⟩
  | importForked i =>
    simp only [Fork.taskStep, hpc] at hstep
    split_ifs at hstep
    · obtain rfl := Option.some.inj hstep
      refine ⟨h.goTo rfl (fun _ _ => rfl) rfl rfl rfl rfl ?_ ?_ ?_ ?_ ?_ ?_, by simp [State.goTo]⟩ <;>
        simp [hpc, Pc.forks, Pc.phase, Pc.pending, State.atPlace, State.goTo]
    · obtain rfl := Option.some.inj hstep
      exact ⟨h.beginWait hpos _ (.inl ⟨i, hpc⟩), by simp [State.goTo]⟩
  | exportForked =>
    simp only [Fork.taskStep, hpc, Option.some.injEq] at hstep
    subst hstep
    refine ⟨h.goTo rfl (fun _ _ => rfl) rfl rfl rfl rfl ?_ ?_ ?_ ?_ ?_ ?_, by simp [State.goTo]⟩ <;>
      simp [hpc, Pc.forks, Pc.phase, Pc.pending, State.atPlace, State.goTo]
  | importCheck =>
    simp only [Fork.taskStep, hpc] at hstep
    split_ifs at hstep
    obtain rfl := Option.some.inj hstep
    exact ⟨h.beginWait hpos _ (.inr hpc), by simp [State.goTo]⟩
  | wait =>
    obtain ⟨j, hj, hvisible, k, hk, hpresent⟩ := h.present_of_wait hshake ht hpc
    simp only [Fork.taskStep, hpc] at hstep
    split_ifs at hstep with hgone
    exact absurd hpresent (hgone j hj hvisible k hk)
  | search pid j k =>
    refine ⟨h.search hshake hpc hstep, ?_⟩
    simp only [Fork.taskStep, hpc] at hstep
    split_ifs at hstep <;> obtain rfl := Option.some.inj hstep <;> simp [State.goTo]
  | found pid j k =>
    simp only [Fork.taskStep, hpc, Option.some.injEq] at hstep
    subst hstep
    exact ⟨h.found hpc, by simp [State.goTo]⟩
  | loopEnd =>
    have hcount := h.count t (by simp [State.phase, hpc, Pc.phase])
    simp only [Fork.taskStep, hpc, Option.some.injEq] at hstep
    subst hstep
    rw [hpc] at hplace hcount
    split_ifs with hn h0
    all_goals
      refine ⟨h.goTo rfl (fun _ _ => rfl) rfl rfl rfl rfl ?_ ?_ ?_ ?_ ?_ ?_, by simp [State.goTo]⟩ <;>
        simp [hpc, Pc.forks, Pc.phase, Pc.pending, State.atPlace, State.goTo] at hplace hcount ⊢ <;> omega
  | importDone i =>
    have hcount := h.count t (by simp [State.phase, hpc, Pc.phase])
    simp only [Fork.taskStep, hpc] at hstep
    rw [hpc] at hplace hcount
    split_ifs at hstep
    all_goals
      obtain rfl := Option.some.inj hstep
      refine ⟨h.goTo rfl (fun _ _ => rfl) rfl rfl rfl rfl ?_ ?_ ?_ ?_ ?_ ?_, by simp [State.goTo]⟩ <;>
        simp [hpc, Pc.forks, Pc.phase, Pc.pending, State.atPlace, State.goTo] at hplace hcount ⊢ <;> omega
  | exportDone =>
    have hcount := h.count t (by simp [State.phase, hpc, Pc.phase])
    simp only [Fork.taskStep, hpc, Option.some.injEq] at hstep
    subst hstep
    rw [hpc] at hplace hcount
    refine ⟨h.goTo rfl (fun _ _ => rfl) rfl rfl rfl rfl ?_ ?_ ?_ ?_ ?_ ?_, by simp [State.goTo]⟩ <;>
      simp [hpc, Pc.forks, Pc.phase, Pc.pending, State.atPlace, State.goTo, pipNamedExport] at hplace hcount ⊢ <;>
      omega
  | finished => simp [Fork.taskStep, hpc] at hstep
  | failed => simp [Fork.taskStep, hpc] at hstep

/-- What one event keeps. -/
theorem step_inv (hpos : 0 < nfork) {e : Event} (hshake : Handshake ntasks s) (h : Children thrd ntasks nfork s)
    (hstep : step thrd ntasks nfork s e = some s') : Handshake ntasks s' ∧ Children thrd ntasks nfork s' := by
  cases e with
  | task t =>
    simp only [step] at hstep
    split_ifs at hstep with ht
    obtain ⟨hchildren, hok⟩ := h.taskStep hpos hshake ht hstep
    exact ⟨hshake.taskStep hstep hok, hchildren⟩
  | fork t pid =>
    unfold step at hstep
    cases hpc : s.pc t with
    | fork i =>
      simp only [hpc] at hstep
      split_ifs at hstep with hguard
      obtain ⟨ht, hi, hpid, hfresh⟩ := hguard
      obtain rfl := Option.some.inj hstep
      exact ⟨hshake.stay rfl rfl (by rw [hpc]; rfl) trivial (by simp) (by simp),
        h.fork hshake ht hpc hi hpid hfresh⟩
    | _ => simp [hpc] at hstep
  | wait t j k =>
    simp only [step] at hstep
    split_ifs at hstep with hguard
    obtain ⟨ht, hpc, hj, hk, hvisible, hzombie⟩ := hguard
    obtain rfl := Option.some.inj hstep
    exact ⟨hshake.stay rfl rfl (by rw [hpc]; rfl) trivial (by simp) (by simp), h.wait hshake ht hpc hvisible hzombie⟩
  | interrupt t =>
    simp only [step] at hstep
    split_ifs at hstep
    obtain rfl := Option.some.inj hstep
    exact ⟨hshake, h⟩
  | exit j k =>
    simp only [step] at hstep
    split_ifs at hstep with hguard
    obtain rfl := Option.some.inj hstep
    exact ⟨⟨hshake.exports, hshake.reached⟩, h.exit hguard.2.2⟩

theorem run_inv (hpos : 0 < nfork) (garbage : ℕ → ℤ) (schedule : List Event) :
    Handshake ntasks (run thrd ntasks nfork garbage schedule) ∧
      Children thrd ntasks nfork (run thrd ntasks nfork garbage schedule) := by
  apply Interleaving.run_inv (P := fun s => Handshake ntasks s ∧ Children thrd ntasks nfork s)
  · exact ⟨start_handshake garbage, start_children⟩
  · exact fun s e s' h hstep => step_inv hpos h.1 h.2 hstep

end Children

/-- A task waits for an export, or is at its end. -/
def State.blocked (ntasks : ℕ) (s : State) (t : ℕ) : Prop :=
  match s.pc t with
  | .importTable => s.exported 0 .table = false
  | .importForked i => i < ntasks ∧ s.exported i .forked = false
  | .importCheck => s.exported 0 .check = false
  | .importDone i => i < ntasks ∧ s.exported i .done = false
  | .finished => True
  | _ => False

/-- How many steps a task has at most left, besides those for the children that it is still to wait for. -/
def Pc.left (ntasks nfork : ℕ) : Pc → ℕ
  | .allocate => 2 * ntasks + 2 * nfork + 7
  | .exportTable | .importTable => 2 * ntasks + 2 * nfork + 6
  | .fork i => 2 * ntasks + 5 + 2 * (nfork - i)
  | .record i _ => 2 * ntasks + 6 + 2 * (nfork - (i + 1))
  | .importForked i => ntasks + 3 + (ntasks - i)
  | .exportForked => ntasks + 4
  | .importCheck => ntasks + 3
  | .wait => ntasks + 2
  | .search _ j k => ntasks + 4 + (ntasks - j) * (nfork + 3) + (nfork + 1 - k)
  | .found _ j _ => ntasks + 4 + (ntasks - j) * (nfork + 3)
  | .loopEnd => ntasks + 3
  | .importDone i => 1 + (ntasks - i)
  | .exportDone => 1
  | .finished | .failed => 0

/-- The end of a child, and what a task does for it behind its wait(). -/
def Child.left (ntasks nfork : ℕ) : Child → ℕ
  | .unborn | .running => ntasks * (nfork + 3) + nfork + 5
  | .zombie => ntasks * (nfork + 3) + nfork + 4
  | .reaped _ => 0

def State.work (ntasks nfork : ℕ) (s : State) : ℕ :=
  ∑ t ∈ Finset.range ntasks, (s.pc t).left ntasks nfork +
    ∑ x ∈ Finset.range ntasks ×ˢ Finset.range nfork, (s.child x.1 x.2).left ntasks nfork

/-- No task starts to wait before every child has been recorded, each wait has matched one entry and lowered n
by one, and nobody fails or is stuck. Every run comes to its end, and there each task has waited for nfork children,
every child once. -/
structure AllReaped (thrd : Bool) (ntasks nfork : ℕ) (s : State) : Prop where
  recorded : ∀ t < ntasks, 4 ≤ s.phase t → ∀ j < ntasks, ∀ k < nfork, s.child j k ≠ .unborn ∧
    ((s.child j k).present → s.forked (idx nfork j k) = s.pid j k)
  once : ∀ t < ntasks, s.pc t = .loopEnd → s.matched t = 1
  counted : ∀ t < ntasks, s.pc t = .wait ∨ s.pc t = .loopEnd →
    s.n t + reapedBy ntasks nfork s.child t = nfork
  waited : ∀ t < ntasks, 5 ≤ s.phase t → reapedBy ntasks nfork s.child t = nfork
  all : (∀ t < ntasks, 5 ≤ s.phase t) → ∀ j < ntasks, ∀ k < nfork,
    ∃ t < ntasks, s.child j k = .reaped t ∧ visible thrd t j
  ok : ∀ t, s.pc t ≠ .failed
  goesOn : (∀ t < ntasks, s.pc t = .finished) ∨
    ∃ e s', (∀ t, e ≠ .interrupt t) ∧ step thrd ntasks nfork s e = some s'
  ends : ∀ e s', step thrd ntasks nfork s e = some s' →
    (∃ t, e = .interrupt t ∧ s' = s) ∨ s'.work ntasks nfork < s.work ntasks nfork
  finishes : ∃ more, ∀ t < ntasks, (Interleaving.run (step thrd ntasks nfork) s more).pc t = .finished ∧
    reapedBy ntasks nfork (Interleaving.run (step thrd ntasks nfork) s more).child t = nfork

section Progress
variable {thrd : Bool} {ntasks nfork t : ℕ} {s s' : State}

lemma fresh_pid (ntasks nfork : ℕ) (pid : ℕ → ℕ → ℤ) :
    ∃ p, 0 < p ∧ ∀ j < ntasks, ∀ k < nfork, pid j k ≠ p := by
  have hnonneg : ∀ x ∈ Finset.range ntasks ×ˢ Finset.range nfork, 0 ≤ |pid x.1 x.2| := fun x _ => abs_nonneg _
  refine ⟨∑ x ∈ Finset.range ntasks ×ˢ Finset.range nfork, |pid x.1 x.2| + 1,
    Int.lt_add_one_of_le (Finset.sum_nonneg hnonneg), ?_⟩
  intro j hj k hk heq
  have hmem : (j, k) ∈ Finset.range ntasks ×ˢ Finset.range nfork := by simp [hj, hk]
  have hle := Finset.single_le_sum hnonneg hmem
  have habs := le_abs_self (pid j k)
  simp only at hle
  omega

/-- Who does not wait for an export can go on; a task in wait() when a child terminates. -/
lemma Children.goesOn (h : Children thrd ntasks nfork s) (hshake : Handshake ntasks s) (ht : t < ntasks)
    (hfree : ¬ s.blocked ntasks t) :
    ∃ e s', (∀ t, e ≠ .interrupt t) ∧ step thrd ntasks nfork s e = some s' := by
  have htask : Fork.taskStep thrd ntasks nfork s t ≠ none →
      ∃ e s', (∀ t, e ≠ .interrupt t) ∧ step thrd ntasks nfork s e = some s' := by
    intro hne
    obtain ⟨s', hs'⟩ := Option.ne_none_iff_exists'.mp hne
    exact ⟨.task t, s', by simp, by simp [step, ht, hs']⟩
  unfold State.blocked at hfree
  cases hpc : s.pc t with
  | fork i =>
    by_cases hi : i < nfork
    · obtain ⟨p, hpos, hfresh⟩ := fresh_pid ntasks nfork s.pid
      have hstep : step thrd ntasks nfork s (.fork t p) ≠ none := by
        simp only [step, hpc]
        rw [if_pos ⟨ht, hi, hpos, fun j hj k hk _ => hfresh j hj k hk⟩]
        simp
      obtain ⟨s', hs'⟩ := Option.ne_none_iff_exists'.mp hstep
      exact ⟨.fork t p, s', by simp, hs'⟩
    · exact htask (by simp [Fork.taskStep, hpc, hi])
  | wait =>
    obtain ⟨j, hj, hvisible, k, hk, hrunning | hzombie⟩ := h.present_of_wait hshake ht hpc
    · exact ⟨.exit j k, _, by simp, if_pos ⟨hj, hk, hrunning⟩⟩
    · exact ⟨.wait t j k, _, by simp, if_pos ⟨ht, hpc, hj, hk, hvisible, hzombie⟩⟩
  | search pid j k =>
    apply htask
    simp only [Fork.taskStep, hpc]
    split_ifs <;> simp
  | failed =>
    have hplace := h.place t
    rw [State.atPlace, hpc] at hplace
    exact hplace.elim
  | finished => simp [hpc] at hfree
  | importForked i | importDone i =>
    apply htask
    simp only [hpc, not_and, Bool.not_eq_false] at hfree
    simp only [Fork.taskStep, hpc]
    split_ifs with hi hexported
    · simp
    · exact absurd (hfree hi) hexported
    · simp
  | _ =>
    apply htask
    simp_all [Fork.taskStep]

/-- Where a task other than 0 is blocked when the table has been exported. -/
lemma Handshake.blocked_cases (h : Handshake ntasks s) {i : ℕ} (h0 : i ≠ 0) (hbegun : 1 ≤ s.phase 0)
    (hblocked : s.blocked ntasks i) : s.phase i = 3 ∧ s.phase 0 < 4 ∨ s.phase i = 6 := by
  have hfor := (h.reached i).isFor
  unfold State.blocked at hblocked
  cases hpc : s.pc i <;> rw [hpc] at hblocked hfor
  case importTable =>
    have htable : s.phase 0 < 1 := by simpa [h.exports, published] using hblocked
    omega
  case importCheck =>
    have hcheck : s.phase 0 < 4 := by simpa [h.exports, published] using hblocked
    exact .inl ⟨by rw [State.phase, hpc]; rfl, hcheck⟩
  case importForked | importDone => exact absurd hfor h0
  case finished =>
    right
    rw [State.phase, hpc]
    rfl
  all_goals exact hblocked.elim

/-- The tasks do not all wait for exports of each other. -/
lemma Handshake.all_finished (h : Handshake ntasks s) (hok : ∀ t, s.pc t ≠ .failed) (hpos : 0 < ntasks)
    (hblocked : ∀ t < ntasks, s.blocked ntasks t) : ∀ t < ntasks, s.pc t = .finished := by
  have hzero := hblocked 0 hpos
  have hfor := (h.reached 0).isFor
  unfold State.blocked at hzero
  cases hpc : s.pc 0 <;> rw [hpc] at hzero hfor <;> try exact hzero.elim
  case importTable | importCheck => exact absurd rfl hfor
  case importForked i =>
    obtain ⟨hi, hexported⟩ := hzero
    obtain ⟨hone, -⟩ := (h.reached 0).someForked i hpc
    have hroot : s.phase 0 = 2 := by rw [State.phase, hpc]; rfl
    have hphase : s.phase i < 3 := by
      simpa [h.exports, published, show i ≠ 0 by omega] using hexported
    have hother := h.blocked_cases (by omega) (by omega) (hblocked i hi)
    omega
  case importDone i =>
    obtain ⟨hi, hexported⟩ := hzero
    obtain ⟨hone, -⟩ := (h.reached 0).someDone i hpc
    have hroot : s.phase 0 = 5 := by rw [State.phase, hpc]; rfl
    have hphase : s.phase i < 6 := by
      simpa [h.exports, published, show i ≠ 0 by omega] using hexported
    have hother := h.blocked_cases (by omega) (by omega) (hblocked i hi)
    omega
  case finished =>
    intro t ht
    obtain rfl | h0 := eq_or_ne t 0
    · exact hpc
    · have hphase := (h.reached 0).allDone rfl (by rw [hpc]; rfl) t ht h0
      have hok := hok t
      cases hpct : s.pc t <;> simp [State.phase, hpct, Pc.phase] at hphase hok ⊢

/-- A sum in which one term has changed. -/
lemma sum_of_others {ι : Type*} {S : Finset ι} (f f' : ι → ℕ) {a : ι} (ha : a ∈ S)
    (hother : ∀ x ∈ S, x ≠ a → f' x = f x) : ∑ x ∈ S, f' x + f a = ∑ x ∈ S, f x + f' a := by
  classical
  have hrest : ∑ x ∈ S.erase a, f' x = ∑ x ∈ S.erase a, f x :=
    Finset.sum_congr rfl fun x hx => hother x (Finset.mem_of_mem_erase hx) (Finset.ne_of_mem_erase hx)
  rw [← Finset.add_sum_erase S f' ha, ← Finset.add_sum_erase S f ha, hrest]
  ring

/-- A step of a task brings it nearer to its end. -/
lemma Children.taskStep_left (h : Children thrd ntasks nfork s)
    (hstep : Fork.taskStep thrd ntasks nfork s t = some s') :
    (s'.pc t).left ntasks nfork < (s.pc t).left ntasks nfork ∧ (∀ u ≠ t, s'.pc u = s.pc u) ∧ s'.child = s.child := by
  have hgoTo : ∀ (s₁ : State) (pc : Pc), s' = s₁.goTo t pc → s₁.pc = s.pc → s₁.child = s.child →
      pc.left ntasks nfork < (s.pc t).left ntasks nfork →
      (s'.pc t).left ntasks nfork < (s.pc t).left ntasks nfork ∧ (∀ u ≠ t, s'.pc u = s.pc u) ∧ s'.child = s.child := by
    rintro s₁ pc rfl hpc hchild hlt
    exact ⟨by simpa [State.goTo] using hlt, fun u hu => by simp [State.goTo, hu, hpc], hchild⟩
  have hnext : ∀ j, j < ntasks → (ntasks - j) * (nfork + 3) = (ntasks - (j + 1)) * (nfork + 3) + (nfork + 3) := by
    intro j hj
    obtain ⟨m, hm⟩ : ∃ m, ntasks - j = m + 1 := ⟨ntasks - j - 1, by omega⟩
    have hm' : ntasks - (j + 1) = m := by omega
    rw [hm, hm', Nat.succ_mul]
  have hplace := h.place t
  unfold State.atPlace at hplace
  cases hpc : s.pc t with
  | search pid j k =>
    simp only [Fork.taskStep, hpc] at hstep
    rw [← hpc]
    have hrow := hnext j
    split_ifs at hstep
    all_goals
      refine hgoTo _ _ (Option.some.inj hstep).symm rfl rfl ?_
      simp only [hpc, Pc.left]
      omega
  | found pid j k =>
    rw [hpc] at hplace
    have hj : j < ntasks := (h.lt (j := j) (k := k) (by simp [hplace.1])).1
    simp only [Fork.taskStep, hpc] at hstep
    rw [← hpc]
    refine hgoTo _ _ (Option.some.inj hstep).symm rfl rfl ?_
    have hrow := hnext j hj
    simp only [hpc, Pc.left]
    omega
  | finished | failed => simp [Fork.taskStep, hpc] at hstep
  | _ =>
    simp only [Fork.taskStep, hpc] at hstep
    rw [← hpc]
    try split_ifs at hstep
    all_goals
      refine hgoTo _ _ (Option.some.inj hstep).symm rfl rfl ?_
      simp only [hpc]
      try split_ifs
      all_goals
        simp only [Pc.left]
        omega

/-- The work left when a task goes on and a child changes. -/
lemma work_setChild (s s' : State) {j k : ℕ} (pc : Pc) (c : Child) (ht : t < ntasks) (hj : j < ntasks) (hk : k < nfork)
    (hpc : s'.pc = Function.update s.pc t pc) (hchild : s'.child = (s.setChild j k c).child) :
    s'.work ntasks nfork + ((s.pc t).left ntasks nfork + (s.child j k).left ntasks nfork) =
      s.work ntasks nfork + (pc.left ntasks nfork + c.left ntasks nfork) := by
  have hpcs := sum_of_others (fun u => (s.pc u).left ntasks nfork) (fun u => (s'.pc u).left ntasks nfork)
    (Finset.mem_range.mpr ht) fun u _ hu => by simp [hpc, hu]
  have hmem : (j, k) ∈ Finset.range ntasks ×ˢ Finset.range nfork := by simp [hj, hk]
  have hchildren := sum_of_others (fun x : ℕ × ℕ => (s.child x.1 x.2).left ntasks nfork)
    (fun x => (s'.child x.1 x.2).left ntasks nfork) hmem fun x _ hx => by
      rw [hchild, State.setChild]
      obtain hj' | hj' := eq_or_ne x.1 j
      · have hk' : x.2 ≠ k := fun hk' => hx (Prod.ext hj' hk')
        simp [hj', hk']
      · simp [hj']
  have hself : s'.child j k = c := by simp [hchild, State.setChild]
  simp only [hpc, Function.update_self] at hpcs
  simp only [hself] at hchildren
  unfold State.work
  simp only [hpc]
  omega

/-- An interrupted wait() is called again; any other event brings the run nearer to its end. -/
lemma Children.work_lt (h : Children thrd ntasks nfork s) {e : Event} (hstep : step thrd ntasks nfork s e = some s') :
    (∃ t, e = .interrupt t ∧ s' = s) ∨ s'.work ntasks nfork < s.work ntasks nfork := by
  cases e with
  | task t =>
    right
    simp only [step] at hstep
    split_ifs at hstep with ht
    obtain ⟨hlt, hother, hchild⟩ := h.taskStep_left hstep
    have hpcs := sum_of_others (fun u => (s.pc u).left ntasks nfork) (fun u => (s'.pc u).left ntasks nfork)
      (Finset.mem_range.mpr ht) fun u _ hu => by rw [hother u hu]
    simp only [State.work, hchild]
    omega
  | fork t pid =>
    right
    unfold step at hstep
    cases hpc : s.pc t with
    | fork i =>
      simp only [hpc] at hstep
      split_ifs at hstep with hguard
      obtain ⟨ht, hi, -, -⟩ := hguard
      have hs' := Option.some.inj hstep
      have hunborn : s.child t i = .unborn := by
        rw [h.unborn, hpc]
        exact le_rfl
      have hwork := work_setChild s s' (.record i pid) .running ht ht hi (by rw [← hs']; rfl)
        (by rw [← hs']; rfl)
      rw [hpc, hunborn] at hwork
      simp only [Pc.left, Child.left] at hwork
      omega
    | _ => simp [hpc] at hstep
  | wait t j k =>
    right
    simp only [step] at hstep
    split_ifs at hstep with hguard
    obtain ⟨ht, hpc, hj, hk, -, hzombie⟩ := hguard
    have hs' := Option.some.inj hstep
    -- the zombie pays for the search
    have hwork := work_setChild s s' (.search (s.pid j k) 0 0) (.reaped t) ht hj hk (by rw [← hs']; rfl)
      (by rw [← hs']; rfl)
    rw [hpc, hzombie] at hwork
    simp only [Pc.left, Child.left, Nat.sub_zero] at hwork
    omega
  | interrupt t =>
    simp only [step] at hstep
    split_ifs at hstep
    exact .inl ⟨t, rfl, (Option.some.inj hstep).symm⟩
  | exit j k =>
    right
    simp only [step] at hstep
    split_ifs at hstep with hguard
    obtain ⟨hj, hk, hrunning⟩ := hguard
    obtain rfl := Option.some.inj hstep
    have hwork := work_setChild s (s.setChild j k .zombie) (s.pc j) .zombie hj hj hk
      (Function.update_eq_self j s.pc).symm rfl
    rw [hrunning] at hwork
    simp only [Child.left] at hwork
    omega

/-- A task that is behind its waits has made as many as it has forked children. -/
lemma Children.reapedBy_eq (h : Children thrd ntasks nfork s) (hphase : 5 ≤ s.phase t) :
    reapedBy ntasks nfork s.child t = nfork := by
  have hcount := h.count t (by omega)
  have hplace := h.place t
  unfold State.atPlace at hplace
  cases hpc : s.pc t <;> rw [hpc] at hplace hcount <;> simp [State.phase, hpc, Pc.phase] at hphase
  case failed => exact hplace.elim
  all_goals
    simp [Pc.pending] at hcount hplace
    omega

lemma Children.ok (h : Children thrd ntasks nfork s) (t : ℕ) : s.pc t ≠ .failed := by
  intro hpc
  have hplace := h.place t
  rw [State.atPlace, hpc] at hplace
  exact hplace

/-- The tasks are all at their ends, or something happens. -/
lemma Children.progress (h : Children thrd ntasks nfork s) (hshake : Handshake ntasks s) (hntasks : 0 < ntasks) :
    (∀ t < ntasks, s.pc t = .finished) ∨
      ∃ e s', (∀ t, e ≠ .interrupt t) ∧ step thrd ntasks nfork s e = some s' := by
  by_cases hblocked : ∀ t < ntasks, s.blocked ntasks t
  · exact .inl (hshake.all_finished h.ok hntasks hblocked)
  · push Not at hblocked
    obtain ⟨t, ht, hfree⟩ := hblocked
    exact .inr (h.goesOn hshake ht hfree)

lemma Children.finishes (h : Children thrd ntasks nfork s) (hshake : Handshake ntasks s) (hntasks : 0 < ntasks)
    (hnfork : 0 < nfork) : ∃ more, ∀ t < ntasks, (Interleaving.run (step thrd ntasks nfork) s more).pc t = .finished ∧
      reapedBy ntasks nfork (Interleaving.run (step thrd ntasks nfork) s more).child t = nfork := by
  have hprogress : ∀ s, Handshake ntasks s ∧ Children thrd ntasks nfork s →
      (∀ t < ntasks, s.pc t = .finished ∧ reapedBy ntasks nfork s.child t = nfork) ∨
        ∃ e s', step thrd ntasks nfork s e = some s' ∧ (Handshake ntasks s' ∧ Children thrd ntasks nfork s') ∧
          s'.work ntasks nfork < s.work ntasks nfork := by
    rintro s ⟨hshake, h⟩
    obtain hend | ⟨e, s', hne, hstep⟩ := h.progress hshake hntasks
    · refine .inl fun t ht => ⟨hend t ht, h.reapedBy_eq ?_⟩
      simp [State.phase, hend t ht, Pc.phase]
    · refine .inr ⟨e, s', hstep, step_inv hnfork hshake h hstep, ?_⟩
      obtain ⟨t, rfl, -⟩ | hlt := h.work_lt hstep
      · exact absurd rfl (hne t)
      · exact hlt
  exact Interleaving.exists_run_of_measure (State.work ntasks nfork) hprogress ⟨hshake, h⟩

end Progress

/-- Every interleaving, with threads and without, whatever pids fork() gives. -/
theorem all_reaped (thrd : Bool) (ntasks nfork : ℕ) (hntasks : 0 < ntasks) (hnfork : 0 < nfork)
    (garbage : ℕ → ℤ) (schedule : List Event) :
    AllReaped thrd ntasks nfork (run thrd ntasks nfork garbage schedule) := by
  obtain ⟨hshake, h⟩ : Handshake ntasks (run thrd ntasks nfork garbage schedule) ∧ _ :=
    run_inv hnfork garbage schedule
  generalize run thrd ntasks nfork garbage schedule = s at hshake h ⊢
  constructor
  · intro t ht hphase j hj k hk
    have hlate := hshake.forked_of_waiting hphase j hj
    have hforks : (s.pc j).forks nfork = nfork := Pc.forks_of_phase hlate
    constructor
    · rw [Ne, h.unborn, hforks]
      omega
    · intro hpresent
      refine h.recorded j k hpresent fun pid hpc => ?_
      simp [State.phase, hpc, Pc.phase] at hlate
  · intro t _ hpc
    have hplace := h.place t
    rw [State.atPlace, hpc] at hplace
    exact hplace.1
  · rintro t _ (hpc | hpc)
    all_goals
      have hcount := h.count t (by simp [State.phase, hpc, Pc.phase])
      simpa [hpc, Pc.pending] using hcount
  · exact fun t _ hphase => h.reapedBy_eq hphase
  · exact fun hall j hj k hk => h.reaped_of_counts (fun t ht => h.reapedBy_eq (hall t ht)) hj hk
  · exact h.ok
  · exact h.progress hshake hntasks
  · exact fun e s' hstep => h.work_lt hstep
  · exact h.finishes hshake hntasks hnfork

/-- Two tasks with threads: both children have terminated, each task waits for the other one's and has its export
found. -/
def swapped : List Event :=
  [.task 0, .task 0, .task 1, .fork 0 5, .task 0, .task 0, .fork 1 6, .task 1, .task 1, .task 1, .task 0, .task 0,
    .task 1, .exit 0 0, .exit 1 0, .wait 0 1 0, .wait 1 0 0] ++ List.replicate 8 (.task 0) ++
    List.replicate 8 (.task 1) ++ List.replicate 2 (.task 0)

/-- Up to the end of both tasks, of which each has reaped the child of the other one. -/
theorem all_reaped_two : (run true 2 1 (fun _ => 7) swapped).pc 0 = .finished ∧
    (run true 2 1 (fun _ => 7) swapped).child 0 0 = .reaped 1 ∧
    AllReaped true 2 1 (run true 2 1 (fun _ => 7) swapped) :=
  ⟨by decide +kernel, by decide +kernel, all_reaped true 2 1 (by decide) (by decide) _ _⟩

end PipTestsuite.Fork
