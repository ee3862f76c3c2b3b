import PipTestsuite.Fork.Handshake

/-! The children of compat/fork.c and their entries in the table, over the events that change them. -/
namespace PipTestsuite.Fork

/-- How many children a task has forked. -/
def Pc.forks (nfork : ℕ) : Pc → ℕ
  | .allocate | .exportTable | .importTable => 0
  | .fork i => i
  | .record i _ => i + 1
  | _ => nfork

/-- The pid that a task has got from wait() and not yet found in the table. -/
def Pc.pending (matched : ℕ) : Pc → Option ℤ
  | .search pid _ _ => if matched = 0 then some pid else none
  | .found pid _ _ => some pid
  | _ => none

/-- The number of children that a task has waited for. -/
def reapedBy (ntasks nfork : ℕ) (child : ℕ → ℕ → Child) (t : ℕ) : ℕ :=
  ((Finset.range ntasks ×ˢ Finset.range nfork).filter fun x => child x.1 x.2 = .reaped t).card

/-- What a task knows at its place: how many children it still waits for, and that the entry it looks for is
ahead until it is found. -/
def State.atPlace (s : State) (t : ℕ) : Prop :=
  match s.pc t with
  | .wait => 1 ≤ s.n t
  | .search pid j k => ∃ j' k', s.child j' k' = .reaped t ∧ s.pid j' k' = pid ∧
      (s.matched t = 0 ∧ 1 ≤ s.n t ∧ (j < j' ∨ j = j' ∧ k ≤ k') ∨ s.matched t = 1 ∧ 0 ≤ s.n t)
  | .found pid j k => s.child j k = .reaped t ∧ s.pid j k = pid ∧ s.matched t = 0 ∧ 1 ≤ s.n t
  | .loopEnd => s.matched t = 1 ∧ 0 ≤ s.n t
  | .importDone _ | .exportDone | .finished => s.n t = 0
  | .failed => False
  | _ => True

/-- Which children have been forked, with pids of their own. -/
structure Births (ntasks nfork : ℕ) (s : State) : Prop where
  outside : ∀ t, ntasks ≤ t → (s.pc t).forks nfork = 0
  forks : ∀ t, (s.pc t).forks nfork ≤ nfork
  unborn : ∀ t k, s.child t k = .unborn ↔ (s.pc t).forks nfork ≤ k
  recording : ∀ t i pid, s.pc t = .record i pid → s.pid t i = pid
  positive : ∀ t k, s.child t k ≠ .unborn → 0 < s.pid t k
  distinct : ∀ t k t' k', s.child t k ≠ .unborn → s.child t' k' ≠ .unborn → s.pid t k = s.pid t' k' →
    t = t' ∧ k = k'

/-- The children, their entries in the table, and how many of them each task has waited for. -/
structure Children (thrd : Bool) (ntasks nfork : ℕ) (s : State) : Prop extends Births ntasks nfork s where
  reaper : ∀ j k t, s.child j k = .reaped t → t < ntasks ∧ 4 ≤ s.phase t ∧ visible thrd t j
  recorded : ∀ t k, (s.child t k).present → (∀ pid, s.pc t ≠ .record k pid) →
    s.forked (idx nfork t k) = s.pid t k
  cleared : ∀ j k t, s.child j k = .reaped t → s.forked (idx nfork j k) =
    if (s.pc t).pending (s.matched t) = some (s.pid j k) then s.pid j k else 0
  count : ∀ t, 4 ≤ s.phase t → s.n t + reapedBy ntasks nfork s.child t =
    nfork + if ((s.pc t).pending (s.matched t)).isSome then 1 else 0
  place : ∀ t, s.atPlace t

section Children
variable {thrd : Bool} {ntasks nfork t : ℕ} {s s' : State} {pc : Pc} {garbage : ℕ → ℤ}

lemma Pc.forks_of_phase (h : 3 ≤ pc.phase) : pc.forks nfork = nfork := by
  cases pc <;> simp [Pc.phase] at h <;> rfl

lemma idx_inj {p i p' i' : ℕ} (hi : i < nfork) (hi' : i' < nfork) (h : idx nfork p i = idx nfork p' i') :
    p = p' ∧ i = i' := by
  unfold idx at h
  have hpos : 0 < nfork := by omega
  have hp : p = p' := by
    have hdiv := congrArg (· / nfork) h
    simpa [Nat.add_comm _ i, Nat.add_comm _ i', Nat.add_mul_div_right _ _ hpos, Nat.div_eq_of_lt hi,
      Nat.div_eq_of_lt hi'] using hdiv
  subst hp
  exact ⟨rfl, by omega⟩

lemma start_children : Children thrd ntasks nfork (start garbage) := by
  have hpc : ∀ t, (start garbage).pc t = .allocate ∨ (start garbage).pc t = .importTable := by
    intro t
    simp only [start]
    split_ifs
    · exact .inl rfl
    · exact .inr rfl
  have hforks : ∀ t, ((start garbage).pc t).forks nfork = 0 := by
    intro t
    obtain h | h := hpc t <;> rw [h] <;> rfl
  have hphase : ∀ t, (start garbage).phase t = 0 := by
    intro t
    unfold State.phase
    obtain h | h := hpc t <;> rw [h] <;> rfl
  have hchild : ∀ t k, (start garbage).child t k = .unborn := fun _ _ => rfl
  have hplace : ∀ t, (start garbage).atPlace t := by
    intro t
    unfold State.atPlace
    obtain h | h := hpc t <;> simp [h]
  have hrecord : ∀ t i pid, (start garbage).pc t ≠ .record i pid := by
    intro t i pid
    obtain h | h := hpc t <;> simp [h]
  have hbirths : Births ntasks nfork (start garbage) := by
    constructor <;> simp [hforks, hchild, hrecord]
  constructor
  · exact hbirths
  all_goals simp [hphase, hchild, hplace, Child.present]

/-- A step without a fork() brings no new child. -/
lemma Births.congr (h : Births ntasks nfork s) (hforks : ∀ u, (s'.pc u).forks nfork = (s.pc u).forks nfork)
    (hunborn : ∀ j k, s'.child j k = .unborn ↔ s.child j k = .unborn) (hpid : s'.pid = s.pid)
    (hrecord : ∀ u i pid, s'.pc u = .record i pid → s.pc u = .record i pid) : Births ntasks nfork s' where
  outside u hu := (hforks u).trans (h.outside u hu)
  forks u := (hforks u).trans_le (h.forks u)
  unborn u k := by
    rw [hforks, hunborn]
    exact h.unborn u k
  recording u i pid hu := by
    rw [hpid]
    exact h.recording u i pid (hrecord u i pid hu)
  positive u k hne := by
    rw [hpid]
    exact h.positive u k (mt (hunborn u k).mpr hne)
  distinct j k j' k' hne hne' heq := by
    rw [hpid] at heq
    exact h.distinct j k j' k' (mt (hunborn _ _).mpr hne) (mt (hunborn _ _).mpr hne') heq

/-- What a task knows stays so when others step, which never change what it has waited for. -/
lemma State.atPlace.congr (h : s.atPlace t) (hpc : s'.pc t = s.pc t) (hn : s'.n t = s.n t)
    (hmatched : s'.matched t = s.matched t)
    (hchild : ∀ j k, s.child j k = .reaped t → s'.child j k = .reaped t ∧ s'.pid j k = s.pid j k) :
    s'.atPlace t := by
  unfold State.atPlace at h ⊢
  rw [hpc, hn, hmatched]
  cases hcase : s.pc t with
  | search pid j k =>
    rw [hcase] at h
    obtain ⟨j', k', hreaped, hpid, hrest⟩ := h
    obtain ⟨hreaped', hpid'⟩ := hchild j' k' hreaped
    exact ⟨j', k', hreaped', hpid'.trans hpid, hrest⟩
  | found pid j k =>
    rw [hcase] at h
    obtain ⟨hreaped, hpid, hrest⟩ := h
    obtain ⟨hreaped', hpid'⟩ := hchild j k hreaped
    exact ⟨hreaped', hpid'.trans hpid, hrest⟩
  | _ =>
    rw [hcase] at h
    exact h

/-- A step of task t that only gets it from one place to another, and may set its n. -/
lemma Children.goTo (h : Children thrd ntasks nfork s) (hpc : s'.pc = Function.update s.pc t pc)
    (hn : ∀ u ≠ t, s'.n u = s.n u) (hmatched : s'.matched = s.matched) (hforked : s'.forked = s.forked)
    (hchild : s'.child = s.child) (hpid : s'.pid = s.pid) (hforks : pc.forks nfork = (s.pc t).forks nfork)
    (hrecord : ∀ i pid, pc ≠ .record i pid ∧ s.pc t ≠ .record i pid) (hphase : (s.pc t).phase ≤ pc.phase)
    (hpending : pc.pending (s.matched t) = (s.pc t).pending (s.matched t))
    (hcount : 4 ≤ pc.phase → s'.n t + reapedBy ntasks nfork s.child t =
      nfork + if (pc.pending (s.matched t)).isSome then 1 else 0)
    (hplace : s'.atPlace t) : Children thrd ntasks nfork s' := by
  have hself : s'.pc t = pc := by simp [hpc]
  have hother : ∀ u ≠ t, s'.pc u = s.pc u := fun u hu => by simp [hpc, hu]
  have hforks' : ∀ u, (s'.pc u).forks nfork = (s.pc u).forks nfork := by
    intro u
    obtain rfl | hu := eq_or_ne u t
    · rw [hself, hforks]
    · rw [hother u hu]
  have hpending' : ∀ u, (s'.pc u).pending (s.matched u) = (s.pc u).pending (s.matched u) := by
    intro u
    obtain rfl | hu := eq_or_ne u t
    · rw [hself, hpending]
    · rw [hother u hu]
  have hphase' : ∀ u, s.phase u ≤ s'.phase u := by
    intro u
    obtain rfl | hu := eq_or_ne u t
    · rw [State.phase, State.phase, hself]
      exact hphase
    · rw [State.phase, State.phase, hother u hu]
  have hrecord' : ∀ u i pid, s'.pc u = .record i pid ↔ s.pc u = .record i pid := by
    intro u i pid
    obtain rfl | hu := eq_or_ne u t
    · rw [hself]
      exact iff_of_false (hrecord i pid).1 (hrecord i pid).2
    · rw [hother u hu]
  constructor
  · exact h.toBirths.congr hforks' (by simp [hchild]) hpid fun u i pid => (hrecord' u i pid).mp
  · intro j k u hu
    rw [hchild] at hu
    obtain ⟨hlt, hle, hvisible⟩ := h.reaper j k u hu
    exact ⟨hlt, hle.trans (hphase' u), hvisible⟩
  · intro u k hpresent hu
    rw [hchild] at hpresent
    rw [hforked, hpid]
    exact h.recorded u k hpresent fun pid hpc => hu pid ((hrecord' u k pid).mpr hpc)
  · intro j k u hu
    rw [hchild] at hu
    rw [hforked, hpid, hmatched, hpending']
    exact h.cleared j k u hu
  · intro u hu
    rw [hmatched, hchild]
    obtain rfl | hne := eq_or_ne u t
    · rw [State.phase, hself] at hu
      rw [hself]
      exact hcount hu
    · rw [State.phase, hother u hne] at hu
      rw [hn u hne, hother u hne]
      exact h.count u hu
  · intro u
    obtain rfl | hne := eq_or_ne u t
    · exact hplace
    · apply (h.place u).congr (hother u hne) (hn u hne) (by rw [hmatched])
      intro j k hreaped
      rw [hchild, hpid]
      exact ⟨hreaped, rfl⟩

/-- Before a task waits it has waited for nobody. -/
lemma Children.reapedBy_eq_zero (h : Children thrd ntasks nfork s) (hphase : s.phase t < 4) :
    reapedBy ntasks nfork s.child t = 0 := by
  rw [reapedBy, Finset.card_eq_zero, Finset.filter_eq_empty_iff]
  intro x _ hx
  have hle := (h.reaper _ _ _ hx).2.1
  omega

/-- While a task still forks nobody has waited for a child. -/
lemma Children.not_reaped (h : Children thrd ntasks nfork s) (hshake : Handshake ntasks s) (ht : t < ntasks)
    (hphase : s.phase t < 3) (j k u : ℕ) : s.child j k ≠ .reaped u := by
  intro hreaped
  have hlate := hshake.forked_of_waiting (h.reaper j k u hreaped).2.1 t ht
  omega

lemma Children.lt (h : Children thrd ntasks nfork s) {j k : ℕ} (hchild : s.child j k ≠ .unborn) :
    j < ntasks ∧ k < nfork := by
  have hborn : k < (s.pc j).forks nfork := not_le.mp fun hle => hchild ((h.unborn j k).mpr hle)
  constructor
  · by_contra hj
    rw [h.outside j (not_lt.mp hj)] at hborn
    exact Nat.not_lt_zero k hborn
  · exact hborn.trans_le (h.forks j)

@[simp] lemma setChild_child (j k : ℕ) (c : Child) (j' k' : ℕ) :
    (s.setChild j k c).child j' k' = if j' = j ∧ k' = k then c else s.child j' k' := by
  simp only [State.setChild, Function.update_apply]
  split_ifs with hj hk hboth <;> simp_all

/-- A child that has been forked keeps its place in the table of children when it terminates. -/
lemma Children.exit {j k : ℕ} (h : Children thrd ntasks nfork s) (hrunning : s.child j k = .running) :
    Children thrd ntasks nfork (s.setChild j k .zombie) := by
  have hunborn : ∀ j' k', (s.setChild j k .zombie).child j' k' = .unborn ↔ s.child j' k' = .unborn := by
    intro j' k'
    rw [setChild_child]
    split_ifs with heq
    · rw [heq.1, heq.2, hrunning]
      simp
    · rfl
  have hreaped : ∀ j' k' u, (s.setChild j k .zombie).child j' k' = .reaped u ↔ s.child j' k' = .reaped u := by
    intro j' k' u
    rw [setChild_child]
    split_ifs with heq
    · rw [heq.1, heq.2, hrunning]
      simp
    · rfl
  have hpresent : ∀ j' k', ((s.setChild j k .zombie).child j' k').present → (s.child j' k').present := by
    intro j' k' hpresent
    rw [setChild_child] at hpresent
    split_ifs at hpresent with heq
    · rw [heq.1, heq.2]
      exact .inl hrunning
    · exact hpresent
  have hcount : ∀ u, reapedBy ntasks nfork (s.setChild j k .zombie).child u = reapedBy ntasks nfork s.child u := by
    intro u
    simp only [reapedBy, hreaped]
  exact {
    toBirths := h.toBirths.congr (fun _ => rfl) hunborn rfl fun _ _ _ => id
    reaper := fun j' k' u hu => h.reaper j' k' u ((hreaped j' k' u).mp hu)
    recorded := fun t k' hp => h.recorded t k' (hpresent t k' hp)
    cleared := fun j' k' u hu => h.cleared j' k' u ((hreaped j' k' u).mp hu)
    count := fun u hu => by
      rw [hcount]
      exact h.count u hu
    place := fun u => (h.place u).congr rfl rfl rfl fun j' k' hu => ⟨(hreaped j' k' u).mpr hu, rfl⟩ }

/-- fork() returns a pid that no other child has: nobody has been waited for yet. -/
lemma Children.fork {i : ℕ} {pid : ℤ} (h : Children thrd ntasks nfork s) (hshake : Handshake ntasks s)
    (ht : t < ntasks) (hpc : s.pc t = .fork i) (hi : i < nfork) (hpos : 0 < pid)
    (hfresh : ∀ j < ntasks, ∀ k < nfork, (s.child j k).present → s.pid j k ≠ pid) :
    Children thrd ntasks nfork ({ s.setChild t i .running with
      pid := Function.update s.pid t (Function.update (s.pid t) i pid) }.goTo t (.record i pid)) := by
  have hphase : s.phase t = 1 := by rw [State.phase, hpc]; rfl
  have hnot := h.not_reaped hshake ht (by omega)
  have hborn : s.child t i = .unborn := (h.unborn t i).mpr (by rw [hpc]; exact le_rfl)
  have hfresh' : ∀ j k, s.child j k ≠ .unborn → s.pid j k ≠ pid := by
    intro j k hne
    obtain ⟨hj, hk⟩ := h.lt hne
    apply hfresh j hj k hk
    cases hc : s.child j k with
    | unborn => exact absurd hc hne
    | running => exact .inl rfl
    | zombie => exact .inr rfl
    | reaped u => exact absurd hc (hnot j k u)
  generalize hs' : State.goTo _ t (.record i pid) = s'
  have hself : s'.pc t = .record i pid := by simp [← hs', State.goTo]
  have hother : ∀ u ≠ t, s'.pc u = s.pc u := fun u hu => by simp [← hs', State.goTo, State.setChild, hu]
  have hchild : ∀ j k, s'.child j k = if j = t ∧ k = i then .running else s.child j k := by
    intro j k
    rw [← setChild_child, ← hs']
    rfl
  have hpid : ∀ j k, s'.pid j k = if j = t ∧ k = i then pid else s.pid j k := by
    intro j k
    rw [← hs']
    simp only [State.goTo, Function.update_apply]
    split_ifs <;> simp_all
  have hnew : s'.child t i = .running ∧ s'.pid t i = pid := by simp [hchild, hpid]
  have hold : ∀ j k, ¬ (j = t ∧ k = i) → s'.child j k = s.child j k ∧ s'.pid j k = s.pid j k := by
    intro j k hne
    rw [hchild, hpid, if_neg hne, if_neg hne]
    exact ⟨rfl, rfl⟩
  have hnot' : ∀ j k u, s'.child j k ≠ .reaped u := by
    intro j k u
    rw [hchild]
    split_ifs
    · simp
    · exact hnot j k u
  have hforked : s'.forked = s.forked := by rw [← hs']; rfl
  have hn : s'.n = s.n := by rw [← hs']; rfl
  have hmatched : s'.matched = s.matched := by rw [← hs']; rfl
  refine ⟨⟨?_, ?_, ?_, ?_, ?_, ?_⟩, ?_, ?_, ?_, ?_, ?_⟩
  · intro u hu
    rw [hother u (by omega)]
    exact h.outside u hu
  · intro u
    obtain rfl | hne := eq_or_ne u t
    · rw [hself]
      exact hi
    · rw [hother u hne]
      exact h.forks u
  · intro u k
    obtain rfl | hne := eq_or_ne u t
    · have hiff : s.child u k = .unborn ↔ i ≤ k := by
        have hiff := h.unborn u k
        rw [hpc] at hiff
        exact hiff
      rw [hself, hchild]
      change _ ↔ i + 1 ≤ k
      split_ifs with heq
      · simp [heq.2]
      · have hne : k ≠ i := fun hk => heq ⟨rfl, hk⟩
        rw [hiff]
        omega
    · rw [hother u hne, (hold u k fun heq => hne heq.1).1]
      exact h.unborn u k
  · intro u i' pid' hu
    obtain rfl | hne := eq_or_ne u t
    · rw [hself] at hu
      cases hu
      exact hnew.2
    · rw [hother u hne] at hu
      rw [(hold u i' fun heq => hne heq.1).2]
      exact h.recording u i' pid' hu
  · intro j k hne
    rw [hpid]
    rw [hchild] at hne
    split_ifs at hne ⊢
    · exact hpos
    · exact h.positive j k hne
  · intro j k j' k' hne hne' heq
    rw [hchild] at hne hne'
    rw [hpid, hpid] at heq
    split_ifs at hne hne' heq with h1 h2 h2
    · exact ⟨h1.1.trans h2.1.symm, h1.2.trans h2.2.symm⟩
    · exact absurd heq.symm (hfresh' j' k' hne')
    · exact absurd heq (hfresh' j k hne)
    · exact h.distinct j k j' k' hne hne' heq
  · exact fun j k u hu => absurd hu (hnot' j k u)
  · intro u k hpresent hrecord
    have hne : ¬ (u = t ∧ k = i) := by
      rintro ⟨rfl, rfl⟩
      exact hrecord pid hself
    rw [(hold u k hne).1] at hpresent
    rw [hforked, (hold u k hne).2]
    refine h.recorded u k hpresent fun pid' hu => ?_
    obtain rfl | hut := eq_or_ne u t
    · rw [hpc] at hu
      cases hu
    · exact hrecord pid' ((hother u hut).trans hu)
  · exact fun j k u hu => absurd hu (hnot' j k u)
  · intro u hu
    have hreaped : ∀ child : ℕ → ℕ → Child, (∀ j k v, child j k ≠ .reaped v) → reapedBy ntasks nfork child u = 0 := by
      intro child hchild
      rw [reapedBy, Finset.card_eq_zero, Finset.filter_eq_empty_iff]
      exact fun x _ => hchild x.1 x.2 u
    obtain rfl | hne := eq_or_ne u t
    · rw [State.phase, hself] at hu
      simp [Pc.phase] at hu
    · have hcount := h.count u (by rwa [State.phase, hother u hne] at hu)
      rw [hreaped _ hnot] at hcount
      rw [hother u hne, hn, hmatched, hreaped _ hnot']
      exact hcount
  · intro u
    obtain rfl | hne := eq_or_ne u t
    · simp [State.atPlace, hself]
    · exact (h.place u).congr (hother u hne) (by rw [hn]) (by rw [hmatched]) fun j k hu => absurd hu (hnot j k u)

lemma reapedBy_setChild {j k : ℕ} (hj : j < ntasks) (hk : k < nfork)
    (hzombie : s.child j k = .zombie) (u : ℕ) :
    reapedBy ntasks nfork (s.setChild j k (.reaped t)).child u =
      reapedBy ntasks nfork s.child u + if u = t then 1 else 0 := by
  have hmem : (j, k) ∈ Finset.range ntasks ×ˢ Finset.range nfork := by simp [hj, hk]
  have hnot : (j, k) ∉ (Finset.range ntasks ×ˢ Finset.range nfork).filter fun x => s.child x.1 x.2 = .reaped u := by
    simp [hzombie]
  simp only [reapedBy, setChild_child]
  split_ifs with hut
  · rw [← Finset.card_insert_of_notMem hnot]
    congr 1
    ext ⟨j', k'⟩
    by_cases heq : j' = j ∧ k' = k
    · simp [heq, hut, hj, hk]
    · simp only [Finset.mem_filter, Finset.mem_insert, Prod.mk.injEq, heq, if_false, false_or]
  · rw [Nat.add_zero]
    congr 1
    ext ⟨j', k'⟩
    by_cases heq : j' = j ∧ k' = k
    · simp [heq, hzombie, Ne.symm hut]
    · simp only [Finset.mem_filter, if_neg heq]

/-- wait() gives a child to one task, which goes to look for the pid in the table. -/
lemma Children.wait {j k : ℕ} (h : Children thrd ntasks nfork s) (hshake : Handshake ntasks s)
    (ht : t < ntasks) (hpc : s.pc t = .wait) (hvisible : visible thrd t j) (hzombie : s.child j k = .zombie) :
    Children thrd ntasks nfork ({ s.setChild j k (.reaped t) with
      matched := Function.update s.matched t 0 }.goTo t (.search (s.pid j k) 0 0)) := by
  obtain ⟨hj, hk⟩ := h.lt (j := j) (k := k) (by simp [hzombie])
  have hphase : s.phase t = 4 := by rw [State.phase, hpc]; rfl
  have hplace : 1 ≤ s.n t := by
    have := h.place t
    simpa [State.atPlace, hpc] using this
  have hreapedBy := reapedBy_setChild (t := t) hj hk hzombie
  generalize hs' : State.goTo _ t (.search (s.pid j k) 0 0) = s'
  have hself : s'.pc t = .search (s.pid j k) 0 0 := by simp [← hs', State.goTo]
  have hother : ∀ u ≠ t, s'.pc u = s.pc u := fun u hu => by simp [← hs', State.goTo, State.setChild, hu]
  have hchild : s'.child = (s.setChild j k (.reaped t)).child := by rw [← hs']; rfl
  have hnew : s'.child j k = .reaped t := by simp [hchild]
  have hold : ∀ j' k', ¬ (j' = j ∧ k' = k) → s'.child j' k' = s.child j' k' := by
    intro j' k' hne
    rw [hchild, setChild_child, if_neg hne]
  have hpid : s'.pid = s.pid := by rw [← hs']; rfl
  have hforked : s'.forked = s.forked := by rw [← hs']; rfl
  have hn : s'.n = s.n := by rw [← hs']; rfl
  have hmatched : s'.matched t = 0 := by simp [← hs', State.goTo]
  have hmatched' : ∀ u ≠ t, s'.matched u = s.matched u := fun u hu => by simp [← hs', State.goTo, hu]
  have hunborn : ∀ j' k', s'.child j' k' = .unborn ↔ s.child j' k' = .unborn := by
    intro j' k'
    by_cases heq : j' = j ∧ k' = k
    · rw [heq.1, heq.2, hnew, hzombie]
      simp
    · rw [hold j' k' heq]
  have hforks : ∀ u, (s'.pc u).forks nfork = (s.pc u).forks nfork := by
    intro u
    obtain rfl | hne := eq_or_ne u t
    · rw [hself, hpc]
      rfl
    · rw [hother u hne]
  have hphases : ∀ u, s'.phase u = s.phase u := by
    intro u
    obtain rfl | hne := eq_or_ne u t
    · rw [hphase, State.phase, hself]
      rfl
    · rw [State.phase, State.phase, hother u hne]
  constructor
  · refine h.toBirths.congr hforks hunborn hpid fun u i pid hu => ?_
    obtain rfl | hne := eq_or_ne u t
    · rw [hself] at hu
      cases hu
    · exact (hother u hne).symm.trans hu
  · intro j' k' u hu
    rw [hphases]
    by_cases heq : j' = j ∧ k' = k
    · rw [heq.1, heq.2, hnew] at hu
      cases hu
      exact ⟨ht, hphase.ge, heq.1 ▸ hvisible⟩
    · rw [hold j' k' heq] at hu
      exact h.reaper j' k' u hu
  · intro u k' hpresent hrecord
    have hne : ¬ (u = j ∧ k' = k) := by
      rintro ⟨rfl, rfl⟩
      rw [hnew] at hpresent
      obtain hc | hc := hpresent <;> cases hc
    rw [hold u k' hne] at hpresent
    rw [hforked, hpid]
    refine h.recorded u k' hpresent fun pid hu => ?_
    obtain rfl | hut := eq_or_ne u t
    · rw [hpc] at hu
      cases hu
    · exact hrecord pid ((hother u hut).trans hu)
  · intro j' k' u hu
    rw [hforked, hpid]
    by_cases heq : j' = j ∧ k' = k
    · obtain ⟨rfl, rfl⟩ := heq
      rw [hnew] at hu
      cases hu
      -- its parent has recorded it before the first wait
      have hrecord : ∀ pid, s.pc j' ≠ .record k' pid := by
        intro pid hrec
        have hlate := hshake.forked_of_waiting hphase.ge j' hj
        rw [State.phase, hrec] at hlate
        simp [Pc.phase] at hlate
      simp [hself, hmatched, Pc.pending, h.recorded j' k' (.inr hzombie) hrecord]
    · rw [hold j' k' heq] at hu
      rw [h.cleared j' k' u hu]
      obtain rfl | hne := eq_or_ne u t
      · have hpids : s.pid j k ≠ s.pid j' k' := by
          intro hpids
          obtain ⟨rfl, rfl⟩ := h.distinct j k j' k' (by simp [hzombie]) (by simp [hu]) hpids
          exact heq ⟨rfl, rfl⟩
        simp [hself, hmatched, hpc, Pc.pending, hpids]
      · rw [hother u hne, hmatched' u hne]
  · intro u hu
    rw [hphases] at hu
    have hcount := h.count u hu
    rw [hchild, hreapedBy, hn]
    obtain rfl | hne := eq_or_ne u t
    · rw [hself, hmatched]
      rw [hpc] at hcount
      simp only [Pc.pending, if_true, Option.isSome_some, Option.isSome_none] at hcount ⊢
      push_cast
      simp at hcount
      omega
    · rw [hother u hne, hmatched' u hne]
      simpa [hne] using hcount
  · intro u
    obtain rfl | hne := eq_or_ne u t
    · simp only [State.atPlace, hself, hmatched, hn, hpid]
      refine ⟨j, k, hnew, rfl, .inl ⟨trivial, hplace, ?_⟩⟩
      omega
    · refine (h.place u).congr (hother u hne) (by rw [hn]) (hmatched' u hne) fun j' k' hu => ?_
      have hne' : ¬ (j' = j ∧ k' = k) := by
        rintro ⟨rfl, rfl⟩
        rw [hzombie] at hu
        cases hu
      exact ⟨(hold j' k' hne').trans hu, by rw [hpid]⟩

/-- A task records the child that it has just forked. -/
lemma Children.record {i : ℕ} {pid : ℤ} (h : Children thrd ntasks nfork s) (hshake : Handshake ntasks s)
    (ht : t < ntasks) (hpc : s.pc t = .record i pid) :
    Children thrd ntasks nfork
      ({ s with forked := Function.update s.forked (idx nfork t i) pid }.goTo t (.fork (i + 1))) := by
  have hphase : s.phase t = 1 := by rw [State.phase, hpc]; rfl
  have hnot := h.not_reaped hshake ht (by omega)
  have hi : i < nfork := by
    have hforks := h.forks t
    rw [hpc] at hforks
    exact hforks
  have hpid : s.pid t i = pid := h.recording t i pid hpc
  generalize hs' : State.goTo _ t (.fork (i + 1)) = s'
  have hself : s'.pc t = .fork (i + 1) := by simp [← hs', State.goTo]
  have hother : ∀ u ≠ t, s'.pc u = s.pc u := fun u hu => by simp [← hs', State.goTo, hu]
  have hchild : s'.child = s.child := by rw [← hs']; rfl
  have hpids : s'.pid = s.pid := by rw [← hs']; rfl
  have hforked : s'.forked = Function.update s.forked (idx nfork t i) pid := by rw [← hs']; rfl
  have hn : s'.n = s.n := by rw [← hs']; rfl
  have hmatched : s'.matched = s.matched := by rw [← hs']; rfl
  have hforks : ∀ u, (s'.pc u).forks nfork = (s.pc u).forks nfork := by
    intro u
    obtain rfl | hne := eq_or_ne u t
    · rw [hself, hpc]
      rfl
    · rw [hother u hne]
  constructor
  · refine h.toBirths.congr hforks (by simp [hchild]) hpids fun u i' pid' hu => ?_
    obtain rfl | hne := eq_or_ne u t
    · rw [hself] at hu
      cases hu
    · exact (hother u hne).symm.trans hu
  · intro j k u hu
    rw [hchild] at hu
    exact absurd hu (hnot j k u)
  · intro u k hpresent hrecord
    rw [hchild] at hpresent
    rw [hforked, hpids]
    have hk : k < nfork := (h.lt (by rintro hc; rw [hc] at hpresent; obtain hc | hc := hpresent <;> cases hc)).2
    by_cases heq : u = t ∧ k = i
    · rw [heq.1, heq.2, Function.update_self, hpid]
    · rw [Function.update_of_ne fun hidx => heq (idx_inj hk hi hidx)]
      refine h.recorded u k hpresent fun pid' hu => ?_
      obtain rfl | hne := eq_or_ne u t
      · rw [hpc] at hu
        cases hu
        exact heq ⟨rfl, rfl⟩
      · exact hrecord pid' ((hother u hne).trans hu)
  · intro j k u hu
    rw [hchild] at hu
    exact absurd hu (hnot j k u)
  · intro u hu
    obtain rfl | hne := eq_or_ne u t
    · rw [State.phase, hself] at hu
      simp [Pc.phase] at hu
    · rw [State.phase, hother u hne] at hu
      rw [hother u hne, hn, hmatched, hchild]
      exact h.count u hu
  · intro u
    obtain rfl | hne := eq_or_ne u t
    · simp [State.atPlace, hself]
    · refine (h.place u).congr (hother u hne) (by rw [hn]) (by rw [hmatched]) fun j k hu => ?_
      exact absurd hu (hnot j k u)

/-- The entry of a child that has been waited for is found and cleared. -/
lemma Children.found {j k : ℕ} {pid : ℤ} (h : Children thrd ntasks nfork s) (hpc : s.pc t = .found pid j k) :
    Children thrd ntasks nfork ({ s with
      forked := Function.update s.forked (idx nfork j k) 0
      n := Function.update s.n t (s.n t - 1)
      matched := Function.update s.matched t (s.matched t + 1) }.goTo t (.search pid (j + 1) 0)) := by
  obtain ⟨hreaped, hpid, hzero, hpos⟩ : s.child j k = .reaped t ∧ s.pid j k = pid ∧ s.matched t = 0 ∧ 1 ≤ s.n t := by
    have hplace := h.place t
    rwa [State.atPlace, hpc] at hplace
  obtain ⟨hj, hk⟩ := h.lt (j := j) (k := k) (by simp [hreaped])
  generalize hs' : State.goTo _ t (.search pid (j + 1) 0) = s'
  have hself : s'.pc t = .search pid (j + 1) 0 := by simp [← hs', State.goTo]
  have hother : ∀ u ≠ t, s'.pc u = s.pc u := fun u hu => by simp [← hs', State.goTo, hu]
  have hchild : s'.child = s.child := by rw [← hs']; rfl
  have hpids : s'.pid = s.pid := by rw [← hs']; rfl
  have hforked : s'.forked = Function.update s.forked (idx nfork j k) 0 := by rw [← hs']; rfl
  have hn : s'.n t = s.n t - 1 := by simp [← hs', State.goTo]
  have hn' : ∀ u ≠ t, s'.n u = s.n u := fun u hu => by simp [← hs', State.goTo, hu]
  have hmatched : s'.matched t = 1 := by simp [← hs', State.goTo, hzero]
  have hmatched' : ∀ u ≠ t, s'.matched u = s.matched u := fun u hu => by simp [← hs', State.goTo, hu]
  have hforks : ∀ u, (s'.pc u).forks nfork = (s.pc u).forks nfork := by
    intro u
    obtain rfl | hne := eq_or_ne u t
    · rw [hself, hpc]
      rfl
    · rw [hother u hne]
  have hphases : ∀ u, s'.phase u = s.phase u := by
    intro u
    obtain rfl | hne := eq_or_ne u t
    · rw [State.phase, State.phase, hself, hpc]
      rfl
    · rw [State.phase, State.phase, hother u hne]
  constructor
  · refine h.toBirths.congr hforks (by simp [hchild]) hpids fun u i pid' hu => ?_
    obtain rfl | hne := eq_or_ne u t
    · rw [hself] at hu
      cases hu
    · exact (hother u hne).symm.trans hu
  · intro j' k' u hu
    rw [hchild] at hu
    rw [hphases]
    exact h.reaper j' k' u hu
  · intro u k' hpresent hrecord
    rw [hchild] at hpresent
    have hne : s.child u k' ≠ .unborn ∧ ¬ (u = j ∧ k' = k) := by
      constructor
      · intro hc
        rw [hc] at hpresent
        obtain hc | hc := hpresent <;> cases hc
      · rintro ⟨rfl, rfl⟩
        rw [hreaped] at hpresent
        obtain hc | hc := hpresent <;> cases hc
    rw [hforked, hpids, Function.update_of_ne fun hidx => hne.2 (idx_inj (h.lt hne.1).2 hk hidx)]
    refine h.recorded u k' hpresent fun pid' hu => ?_
    obtain rfl | hut := eq_or_ne u t
    · rw [hpc] at hu
      cases hu
    · exact hrecord pid' ((hother u hut).trans hu)
  · intro j' k' u hu
    rw [hchild] at hu
    rw [hforked, hpids]
    by_cases heq : j' = j ∧ k' = k
    · obtain ⟨rfl, rfl⟩ := heq
      rw [hreaped] at hu
      cases hu
      simp [hself, hmatched, Pc.pending]
    · have hk' := (h.lt (j := j') (k := k') (by simp [hu])).2
      rw [Function.update_of_ne fun hidx => heq (idx_inj hk' hk hidx), h.cleared j' k' u hu]
      obtain rfl | hne := eq_or_ne u t
      · have hne : pid ≠ s.pid j' k' := by
          intro hpids
          obtain ⟨rfl, rfl⟩ := h.distinct j k j' k' (by simp [hreaped]) (by simp [hu]) (hpid.trans hpids)
          exact heq ⟨rfl, rfl⟩
        simp [hself, hmatched, hpc, Pc.pending, hne]
      · rw [hother u hne, hmatched' u hne]
  · intro u hu
    rw [hphases] at hu
    have hcount := h.count u hu
    rw [hchild]
    obtain rfl | hne := eq_or_ne u t
    · rw [hself, hmatched, hn]
      rw [hpc] at hcount
      simp only [Pc.pending, Option.isSome_some, if_true, one_ne_zero, if_false, Option.isSome_none] at hcount ⊢
      simp only [Bool.false_eq_true, if_false]
      omega
    · rw [hother u hne, hn' u hne, hmatched' u hne]
      exact hcount
  · intro u
    obtain rfl | hne := eq_or_ne u t
    · simp only [State.atPlace, hself, hmatched, hn, hpids, hchild]
      exact ⟨j, k, hreaped, hpid, .inr ⟨trivial, by omega⟩⟩
    · refine (h.place u).congr (hother u hne) (hn' u hne) (hmatched' u hne) fun j' k' hu => ?_
      rw [hchild, hpids]
      exact ⟨hu, rfl⟩

end Children

end PipTestsuite.Fork
