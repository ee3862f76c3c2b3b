import PipTestsuite.HookCoe.Chain

/-! Which ends of the pipes the root and the tasks of hook_and_coe.c have open, from the first pipe() to the
end of the last task. -/
namespace PipTestsuite.HookCoe
open DescriptorTable

section Hook
variable {T : Table File} {f g : File}

/-- dup2() and close() open no other file. -/
lemma redirect_has {T' : Table File} {old new : ℕ} (h : redirect old new T = some T') (hf : T'.has f) : T.has f := by
  unfold redirect at h
  split_ifs at h
  · obtain ⟨T₁, hdup, hclose⟩ := Option.bind_eq_some_iff.mp h
    obtain ⟨-, rfl⟩ := Table.close_eq_some.mp hclose
    unfold Table.dup2 at hdup
    split at hdup
    · next g c hentry =>
      obtain rfl := Option.some.inj hdup
      obtain ⟨k, c', hk⟩ := Table.has_iff.mp (Table.has_of_set hf)
      rw [Table.set_entry] at hk
      split_ifs at hk
      · obtain ⟨rfl, -⟩ := Prod.mk.inj (Option.some.inj hk)
        exact Table.has_iff.mpr ⟨old, c, hentry⟩
      · exact Table.has_iff.mpr ⟨k, c', hk⟩
    · cases hdup
  · obtain rfl := Option.some.inj h
    exact hf

lemma bhook_has {T' : Table File} {pipe0 pipe1 : ℕ} (h : bhook pipe0 pipe1 T = some T') (hf : T'.has f) :
    T.has f := by
  obtain ⟨T₁, hin, hout⟩ := Option.bind_eq_some_iff.mp h
  exact redirect_has hin (redirect_has hout hf)

lemma redirect_spec {old : ℕ} (new : ℕ) (hf : T.entry old = some (f, false)) :
    ∃ T', redirect old new T = some T' ∧ T'.entry new = some (f, false) ∧
      ∀ k, k ≠ old → k ≠ new → T'.entry k = T.entry k := by
  unfold redirect
  split_ifs with hne
  · have hcopy : (T.set new (some (f, false))).entry old = some (f, false) := by simp [hne, hf]
    refine ⟨(T.set new (some (f, false))).set old none, ?_, ?_, ?_⟩
    · simp only [Table.dup2, hf, Option.bind_some, Table.close, hcopy]
    · simp [Ne.symm hne]
    · intro k hold hnew
      simp [hold, hnew]
  · obtain rfl := not_not.mp hne
    exact ⟨T, rfl, hf, fun _ _ _ => rfl⟩

/-- The hook puts its two descriptors into the places of the standard input and output. -/
lemma bhook_spec {pipe0 pipe1 : ℕ} (hf : T.entry pipe0 = some (f, false)) (hg : T.entry pipe1 = some (g, false))
    (hne : pipe0 ≠ pipe1) (hpos : 0 < pipe1) :
    ∃ T', bhook pipe0 pipe1 T = some T' ∧ T'.entry 0 = some (f, false) ∧ T'.entry 1 = some (g, false) := by
  obtain ⟨T₁, hT₁, hin, hother⟩ := redirect_spec 0 hf
  have hg₁ : T₁.entry pipe1 = some (g, false) := by rw [hother pipe1 hne.symm hpos.ne', hg]
  obtain ⟨T₂, hT₂, hout, hother₂⟩ := redirect_spec 1 hg₁
  refine ⟨T₂, ?_, ?_, hout⟩
  · rw [bhook, hT₁, Option.bind_some, hT₂]
  · rw [hother₂ 0 hpos.ne (by decide), hin]

end Hook

/-- The spawns from task i on. -/
def spawnsFrom (ntasks i : ℕ) : List Instr := (List.range' i (ntasks - i)).flatMap spawnAndClose

/-- The setup from pipe m on. -/
def pipesFrom (ntasks m : ℕ) : List Instr :=
  (List.range' m (ntasks + 1 - m)).map .pipe ++ .setCoeFlag ntasks .read :: spawnsFrom ntasks 0

lemma spawnsFrom_lt {ntasks i : ℕ} (hi : i < ntasks) :
    spawnsFrom ntasks i = .spawn i :: .close i .read :: .close (i + 1) .write :: spawnsFrom ntasks (i + 1) := by
  have hlen : ntasks - i = ntasks - (i + 1) + 1 := by omega
  rw [spawnsFrom, hlen, List.range'_succ, List.flatMap_cons]
  rfl

lemma spawnsFrom_ge {ntasks i : ℕ} (hi : ntasks ≤ i) : spawnsFrom ntasks i = [] := by
  rw [spawnsFrom, Nat.sub_eq_zero_of_le hi]
  rfl

lemma pipesFrom_le {ntasks m : ℕ} (hm : m ≤ ntasks) : pipesFrom ntasks m = .pipe m :: pipesFrom ntasks (m + 1) := by
  have hlen : ntasks + 1 - m = ntasks + 1 - (m + 1) + 1 := by omega
  rw [pipesFrom, hlen, List.range'_succ]
  rfl

lemma pipesFrom_succ (ntasks : ℕ) :
    pipesFrom ntasks (ntasks + 1) = .setCoeFlag ntasks .read :: spawnsFrom ntasks 0 := by simp [pipesFrom]

/-- The first task, those in the middle and the last one are spawned alike. -/
lemma spawnsFrom_zero {ntasks : ℕ} (hpos : 0 < ntasks) : spawnsFrom ntasks 0 =
    spawnAndClose 0 ++ (List.range' 1 (ntasks - 2)).flatMap spawnAndClose ++
      if ntasks > 1 then spawnAndClose (ntasks - 1) else [] := by
  obtain _ | _ | n := ntasks
  · omega
  · rfl
  · have hlen : n + 2 - 0 = n + 1 + 1 := by omega
    have hmid : n + 1 + 1 - 2 = n := rfl
    have hlast : 0 + 1 + 1 * n = n + 1 + 1 - 1 := by omega
    rw [spawnsFrom, hlen, List.range'_succ, List.flatMap_cons, List.range'_concat, hmid, hlast]
    simp

lemma setup_eq {ntasks : ℕ} (hpos : 0 < ntasks) :
    setup ntasks = .pipe 0 :: .setCoeFlag 0 .write :: pipesFrom ntasks 1 := by
  have hlen : ntasks + 1 - 1 = ntasks - 1 + 1 := by omega
  have hlast : 1 + (ntasks - 1) = ntasks := by omega
  rw [pipesFrom, spawnsFrom_zero hpos, hlen, List.range'_concat]
  simp [setup, hlast]

/-- How far the root is: how many pipes there are, how many read ends and write ends have been closed, how many
tasks have been spawned, which of fd_out and fd_in have the close-on-exec mark, and which of them are open. -/
structure Progress where
  made : ℕ
  readClosed : ℕ
  writeClosed : ℕ
  spawned : ℕ
  markOut : Bool
  markIn : Bool
  openOut : Bool
  openIn : Bool

/-- The places of the setup. -/
inductive Position (ntasks : ℕ) : List Instr → Progress → Prop
  | begin : Position ntasks (setup ntasks) ⟨0, 0, 0, 0, false, false, true, true⟩
  | markOut : Position ntasks (.setCoeFlag 0 .write :: pipesFrom ntasks 1) ⟨1, 0, 0, 0, false, false, true, true⟩
  | pipes (m : ℕ) (hpos : 1 ≤ m) (hm : m ≤ ntasks + 1) :
    Position ntasks (pipesFrom ntasks m) ⟨m, 0, 0, 0, true, false, true, true⟩
  | spawn (i : ℕ) (hi : i ≤ ntasks) :
    Position ntasks (spawnsFrom ntasks i) ⟨ntasks + 1, i, i, i, true, true, true, true⟩
  | closeRead (i : ℕ) (hi : i < ntasks) :
    Position ntasks (.close i .read :: .close (i + 1) .write :: spawnsFrom ntasks (i + 1))
      ⟨ntasks + 1, i, i, i + 1, true, true, true, true⟩
  | closeWrite (i : ℕ) (hi : i < ntasks) :
    Position ntasks (.close (i + 1) .write :: spawnsFrom ntasks (i + 1))
      ⟨ntasks + 1, i + 1, i, i + 1, true, true, true, true⟩
  | loop (openOut openIn : Bool) :
    Position ntasks [] ⟨ntasks + 1, ntasks, ntasks, ntasks, true, true, openOut, openIn⟩

/-- The ends of the pipes that the root has open. -/
def openEnds (ntasks : ℕ) (q : Progress) : File → Prop
  | .pipe p .read => q.readClosed ≤ p ∧ p < q.made ∧ (p = ntasks → q.openIn = true)
  | .pipe p .write => p < q.made ∧ if p = 0 then q.openOut = true else q.writeClosed < p
  | .other _ => False

def marks (ntasks : ℕ) (q : Progress) : File → Bool
  | .pipe p .read => p = ntasks && q.markIn
  | .pipe p .write => p = 0 && q.markOut
  | .other _ => false

def isEnd : File → Prop
  | .pipe _ _ => True
  | .other _ => False

def fdOf (pipes : ℕ → Side → ℕ) : File → ℕ
  | .pipe p side => pipes p side
  | .other _ => 0

variable {α : Type} {ntasks : ℕ} {s s' : Chain α} {q : Progress}

/-- The table of the root. The descriptors in the array pipes stay different when they have been closed. -/
structure RootTable (ntasks : ℕ) (s : Chain α) (q : Progress) : Prop where
  owns : Table.Owns s.root isEnd (fdOf s.pipes) (openEnds ntasks q) (marks ntasks q)
  inj : ∀ p side p' side', p < q.made → p' < q.made → s.pipes p side = s.pipes p' side' → p = p' ∧ side = side'
  pos : ∀ p < q.made, 0 < s.pipes p .write

/-- Before the first close() all ends of the pipes are open. -/
lemma openEnds_of_lt (hnone : q.readClosed = 0 ∧ q.writeClosed = 0 ∧ q.openOut = true ∧ q.openIn = true) (p : ℕ)
    (side : Side) : openEnds ntasks q (.pipe p side) ↔ p < q.made := by
  obtain ⟨hread, hwrite, hout, hin⟩ := hnone
  cases side with
  | read => simp [openEnds, hread, hin]
  | write =>
    simp only [openEnds, hwrite, hout, and_iff_left_iff_imp]
    intro _
    split_ifs with hp
    exact Nat.pos_of_ne_zero hp

/-- pipe() opens both ends of a new pipe, the write end above the read end. -/
lemma RootTable.pipe {rest : List Instr} (h : RootTable ntasks s q) (htodo : s.todo = .pipe q.made :: rest)
    (hnone : q.readClosed = 0 ∧ q.writeClosed = 0 ∧ q.openOut = true ∧ q.openIn = true)
    (hmarkIn : q.markIn = false) (hmarkOut : q.markOut = true → 0 < q.made) :
    ∃ s', s.setupStep = some s' ∧ s'.todo = rest ∧ s'.table = s.table ∧ s'.pc = s.pc ∧
      RootTable ntasks s' { q with made := q.made + 1 } := by
  have hopen : ∀ p side, openEnds ntasks q (.pipe p side) ↔ p < q.made := openEnds_of_lt hnone
  have hopen' : ∀ p side, openEnds ntasks { q with made := q.made + 1 } (.pipe p side) ↔ p < q.made + 1 :=
    openEnds_of_lt (q := { q with made := q.made + 1 }) hnone
  have hmark : marks ntasks q (.pipe q.made .write) = false := by
    simp only [marks, Bool.and_eq_false_iff, decide_eq_false_iff_not]
    by_cases hm : q.markOut = true
    · exact .inl (hmarkOut hm).ne'
    · exact .inr (Bool.not_eq_true _ ▸ hm)
  -- the two new descriptors were free
  have hread := h.owns.openFile (f := .pipe q.made .read) (by trivial) (by rw [hopen]; exact lt_irrefl _)
    (by simp [marks, hmarkIn])
  have hwrite := hread.openFile (f := .pipe q.made .write) (by trivial) (by simp [hopen]) hmark
  have hlt := s.root.lowestFree_lt_openFile (.pipe q.made .read)
  generalize hT : (s.root.openFile (.pipe q.made .read)).2 = T at hread hwrite hlt
  have hfree : ∀ p side, p < q.made → s.pipes p side ≠ s.root.lowestFree ∧ s.pipes p side ≠ T.lowestFree := by
    intro p side hp
    have hold := h.owns.entry (.pipe p side) ((hopen p side).mpr hp)
    have hnew := hread.entry (.pipe p side) (.inr ((hopen p side).mpr hp))
    have hne : File.pipe p side ≠ .pipe q.made .read := by
      simp only [ne_eq, File.pipe.injEq, not_and]
      omega
    rw [Function.update_of_ne hne] at hnew
    constructor
    · intro heq
      rw [fdOf, heq, s.root.lowestFree_entry] at hold
      cases hold
    · intro heq
      rw [fdOf, heq, T.lowestFree_entry] at hnew
      cases hnew
  have hstep : s.setupStep = some { s with
      todo := rest
      root := (T.openFile (.pipe q.made .write)).2
      pipes := Function.update s.pipes q.made (fds s.root.lowestFree T.lowestFree) } := by
    rw [Chain.setupStep, htodo, ← hT]
    rfl
  have hfds : ∀ p side p' side', p < q.made + 1 → p' < q.made + 1 →
      Function.update s.pipes q.made (fds s.root.lowestFree T.lowestFree) p side =
        Function.update s.pipes q.made (fds s.root.lowestFree T.lowestFree) p' side' → p = p' ∧ side = side' := by
    intro p side p' side' hp hp' heq
    obtain rfl | hne := eq_or_ne p q.made <;> obtain rfl | hne' := eq_or_ne p' q.made
    · rw [Function.update_self] at heq
      cases side <;> cases side' <;> simp only [fds] at heq <;> first | exact ⟨rfl, rfl⟩ | omega
    · rw [Function.update_self, Function.update_of_ne hne'] at heq
      obtain ⟨h1, h2⟩ := hfree p' side' (by omega)
      cases side
      · exact absurd heq.symm h1
      · exact absurd heq.symm h2
    · rw [Function.update_self, Function.update_of_ne hne] at heq
      obtain ⟨h1, h2⟩ := hfree p side (by omega)
      cases side'
      · exact absurd heq h1
      · exact absurd heq h2
    · rw [Function.update_of_ne hne, Function.update_of_ne hne'] at heq
      exact h.inj p side p' side' (by omega) (by omega) heq
  have hfdOf : fdOf (Function.update s.pipes q.made (fds s.root.lowestFree T.lowestFree)) =
      Function.update (Function.update (fdOf s.pipes) (.pipe q.made .read) s.root.lowestFree)
        (.pipe q.made .write) T.lowestFree := by
    funext f
    cases f with
    | other k => simp [fdOf]
    | pipe p side =>
      obtain rfl | hne := eq_or_ne p q.made
      · cases side <;> simp [fdOf, fds]
      · simp [fdOf, hne]
  refine ⟨_, hstep, rfl, rfl, rfl, ?_, hfds, ?_⟩
  · rw [hfdOf]
    refine hwrite.congr fun f => ?_
    cases f with
    | other k => simp [openEnds]
    | pipe p side =>
      rw [hopen', hopen]
      cases side <;> simp <;> omega
  · intro p hp
    have hlt' : p < q.made + 1 := hp
    obtain rfl | hne := eq_or_ne p q.made
    · simp only [Function.update_self, fds]
      omega
    · simp only [Function.update_of_ne hne]
      exact h.pos p (by omega)

/-- close() of an end of a pipe; the ends that are open afterwards are the others that were. -/
lemma RootTable.close {q' : Progress} {p : ℕ} {side : Side} {T : Table File} (h : RootTable ntasks s q)
    (hp : p < q.made) (hclose : s.root.close (s.pipes p side) = some T) (hroot : s'.root = T)
    (hpipes : s'.pipes = s.pipes) (hmade : q'.made = q.made)
    (hmark : q'.markOut = q.markOut ∧ q'.markIn = q.markIn)
    (hopen : ∀ p' side', openEnds ntasks q' (.pipe p' side') ↔
      openEnds ntasks q (.pipe p' side') ∧ ¬ (p' = p ∧ side' = side)) : RootTable ntasks s' q' := by
  have hlt : ∀ p' side', openEnds ntasks q (.pipe p' side') → p' < q.made := by
    intro p' side' hends
    cases side'
    · exact hends.2.1
    · exact hends.1
  have hmarks : marks ntasks q' = marks ntasks q := by
    funext f
    obtain ⟨p', side'⟩ | k := f
    · cases side' <;> simp [marks, hmark]
    · rfl
  constructor
  · rw [hroot, hpipes, hmarks]
    refine (h.owns.close hclose).congr fun f => ?_
    cases f with
    | other k => simp [openEnds]
    | pipe p' side' =>
      rw [hopen]
      refine and_congr_right fun hends => not_congr ⟨?_, ?_⟩
      · rintro ⟨rfl, rfl⟩
        rfl
      · exact fun heq => h.inj _ _ _ _ (hlt _ _ hends) hp heq
  · rw [hpipes, hmade]
    exact h.inj
  · rw [hpipes, hmade]
    exact h.pos

lemma RootTable.closeStep {q' : Progress} {p : ℕ} {side : Side} {rest : List Instr} (h : RootTable ntasks s q)
    (htodo : s.todo = .close p side :: rest) (hp : p < q.made) (hends : openEnds ntasks q (.pipe p side))
    (hmade : q'.made = q.made) (hmark : q'.markOut = q.markOut ∧ q'.markIn = q.markIn)
    (hopen : ∀ p' side', openEnds ntasks q' (.pipe p' side') ↔
      openEnds ntasks q (.pipe p' side') ∧ ¬ (p' = p ∧ side' = side)) :
    ∃ s', s.setupStep = some s' ∧ s'.todo = rest ∧ s'.table = s.table ∧ s'.pc = s.pc ∧ RootTable ntasks s' q' := by
  have hclose : s.root.close (s.pipes p side) = some (s.root.set (s.pipes p side) none) :=
    Table.close_eq_some.mpr ⟨⟨_, h.owns.entry _ hends⟩, rfl⟩
  refine ⟨{ s with todo := rest, root := s.root.set (s.pipes p side) none }, ?_, rfl, rfl, rfl,
    h.close hp hclose rfl rfl hmade hmark hopen⟩
  rw [Chain.setupStep, htodo]
  simp [hclose]

/-- set_coe_flag() -/
lemma RootTable.setCoeFlag {q' : Progress} {p : ℕ} {side : Side} {rest : List Instr} (h : RootTable ntasks s q)
    (htodo : s.todo = .setCoeFlag p side :: rest) (hends : openEnds ntasks q (.pipe p side))
    (hmade : q'.made = q.made) (hopen : openEnds ntasks q' = openEnds ntasks q)
    (hmark : marks ntasks q' = Function.update (marks ntasks q) (.pipe p side) true) :
    ∃ s', s.setupStep = some s' ∧ s'.todo = rest ∧ s'.table = s.table ∧ s'.pc = s.pc ∧ RootTable ntasks s' q' := by
  obtain ⟨T, hT, howns⟩ := h.owns.setCloseOnExec hends
  refine ⟨{ s with todo := rest, root := T }, ?_, rfl, rfl, rfl, ?_, ?_, ?_⟩
  · rw [Chain.setupStep, htodo]
    simp only [fdOf] at hT
    simp [hT]
  · rw [hopen, hmark]
    exact howns
  · rw [hmade]
    exact h.inj
  · rw [hmade]
    exact h.pos

/-- What a task has open: never a write end of its own pipe or of an earlier one. -/
structure TaskTable (s : Chain α) (i : ℕ) : Prop where
  later : ∀ p, (s.table i).has (.pipe p .write) → i < p
  stdin : s.pc i = .read ∨ s.pc i = .write ∨ s.pc i = .closeIn → (s.table i).entry 0 = some (.pipe i .read, false)
  stdout : s.pc i = .read ∨ s.pc i = .write ∨ s.pc i = .closeIn ∨ s.pc i = .closeOut →
    (s.table i).entry 1 = some (.pipe (i + 1) .write, false)
  gone : s.pc i = .unborn ∨ s.pc i = .terminated ∨ s.pc i = .failed → ∀ f, ¬ (s.table i).has f

/-- pip_spawn() with the hook. The root has closed the write ends of the pipes up to that of the task, but for
fd_out, which is not inherited. -/
lemma RootTable.spawn {i : ℕ} {rest : List Instr} (h : RootTable ntasks s q) (htodo : s.todo = .spawn i :: rest)
    (hi : i < ntasks) (hmade : q.made = ntasks + 1) (hclosed : q.readClosed = i ∧ q.writeClosed = i)
    (hmark : q.markOut = true) :
    ∃ s', s.setupStep = some s' ∧ s'.todo = rest ∧ s'.root = s.root ∧ s'.pipes = s.pipes ∧
      s'.pc = Function.update s.pc i .read ∧ (∀ j ≠ i, s'.table j = s.table j) ∧ TaskTable s' i := by
  obtain ⟨hreadClosed, hwriteClosed⟩ := hclosed
  have hread : openEnds ntasks q (.pipe i .read) := by
    simp only [openEnds, hreadClosed, hmade]
    exact ⟨le_rfl, by omega, fun heq => absurd heq hi.ne⟩
  have hwrite : openEnds ntasks q (.pipe (i + 1) .write) := by
    simp only [openEnds, hwriteClosed, hmade, if_neg (Nat.succ_ne_zero i)]
    omega
  have hinherit := h.owns.inherit
  have hin := hinherit.entry (.pipe i .read) ⟨hread, by simp [marks, hi.ne]⟩
  have hout := hinherit.entry (.pipe (i + 1) .write) ⟨hwrite, by simp [marks]⟩
  have hne : s.pipes i .read ≠ s.pipes (i + 1) .write := by
    intro heq
    have hsame := h.inj i .read (i + 1) .write (by omega) (by omega) heq
    cases hsame.2
  have hmarkIn : marks ntasks q (.pipe i .read) = false := by simp [marks, hi.ne]
  have hmarkOut : marks ntasks q (.pipe (i + 1) .write) = false := by simp [marks]
  rw [hmarkIn] at hin
  rw [hmarkOut] at hout
  obtain ⟨T, hT, hzero, hone⟩ := bhook_spec hin hout hne (h.pos (i + 1) (by omega))
  refine ⟨Chain.goTo { s with todo := rest, table := Function.update s.table i T } i .read, ?_, rfl, rfl, rfl, rfl,
    fun j hj => ?_, ⟨fun p hp => ?_, fun _ => ?_, fun _ => ?_, fun hpc => ?_⟩⟩
  · rw [Chain.setupStep, htodo]
    simp only [fdOf] at hT
    simp [hT]
  · simp [Chain.goTo, hj]
  · simp only [Chain.goTo, Function.update_self] at hp
    obtain ⟨hends, hmarkp⟩ := (hinherit.has_iff (f := .pipe p .write) (by trivial)).mp (bhook_has hT hp)
    have hp0 : p ≠ 0 := by
      rintro rfl
      simp [marks, hmark] at hmarkp
    simp only [openEnds, if_neg hp0, hwriteClosed] at hends
    exact hends.2
  · simpa [Chain.goTo] using hzero
  · simpa [Chain.goTo] using hone
  · simp [Chain.goTo] at hpc

structure RootAt (ntasks : ℕ) (s : Chain α) (q : Progress) : Prop where
  position : Position ntasks s.todo q
  table : RootTable ntasks s q
  spawned : ∀ i < ntasks, s.pc i = .unborn ↔ q.spawned ≤ i

/-- What the processes have open all the time. -/
structure Wired (ntasks : ℕ) (s : Chain α) : Prop where
  root : ∃ q, RootAt ntasks s q
  task : ∀ i < ntasks, TaskTable s i

lemma TaskTable.congr {i : ℕ} (h : TaskTable s i) (hpc : s'.pc i = s.pc i) (htable : s'.table i = s.table i) :
    TaskTable s' i where
  later := htable ▸ h.later
  stdin := hpc ▸ htable ▸ h.stdin
  stdout := hpc ▸ htable ▸ h.stdout
  gone := hpc ▸ htable ▸ h.gone

lemma start_rootAt (T : Table ℕ) :
    RootAt ntasks (start α ntasks T) ⟨0, 0, 0, 0, false, false, true, true⟩ where
  position := .begin
  table := by
    refine ⟨⟨?_, ?_, ?_⟩, ?_, ?_⟩
    · rintro (⟨p, _ | _⟩ | k) hf <;> simp [openEnds] at hf
    · intro k f c hf hk
      simp only [start, Table.map, Option.map_eq_some_iff] at hk
      obtain ⟨e, -, he⟩ := hk
      cases he
      exact hf.elim
    · rintro (⟨p, side⟩ | k) hf
      · trivial
      · exact hf
    · intro p side p' side' hp
      exact absurd hp (Nat.not_lt_zero p)
    · intro p hp
      exact absurd hp (Nat.not_lt_zero p)
  spawned i _ := by simp [start]

lemma start_wired (T : Table ℕ) : Wired ntasks (start α ntasks T) where
  root := ⟨_, start_rootAt T⟩
  task i hi := by
    constructor <;> simp [start, Table.not_empty_has]

/-- Only the calls on descriptors and a spawn count. -/
lemma RootAt.congr (h : RootAt ntasks s q) (htodo : s'.todo = s.todo) (hroot : s'.root = s.root)
    (hpipes : s'.pipes = s.pipes) (hpc : s'.pc = s.pc) : RootAt ntasks s' q := by
  obtain ⟨hposition, ⟨howns, hinj, hpos⟩, hspawned⟩ := h
  refine ⟨htodo ▸ hposition, ⟨?_, ?_, ?_⟩, ?_⟩
  · rwa [hroot, hpipes]
  · rwa [hpipes]
  · rwa [hpipes]
  · rwa [hpc]

lemma Wired.congr (h : Wired ntasks s) (htodo : s'.todo = s.todo) (hroot : s'.root = s.root)
    (hpipes : s'.pipes = s.pipes) (hpc : s'.pc = s.pc) (htable : s'.table = s.table) : Wired ntasks s' where
  root := by
    obtain ⟨q, hq⟩ := h.root
    exact ⟨q, hq.congr htodo hroot hpipes hpc⟩
  task i hi := (h.task i hi).congr (by rw [hpc]) (by rw [htable])

/-- What the calls of the setup do: all of them succeed, and only a spawn changes the tasks. -/
lemma Wired.setup_at (hpos : 0 < ntasks) (h : Wired ntasks s) (htodo : s.todo ≠ []) :
    ∃ s' q', s.setupStep = some s' ∧ RootAt ntasks s' q' ∧ (q'.openOut = true ∧ q'.openIn = true) ∧
      ∀ i < ntasks, TaskTable s' i := by
  obtain ⟨q, hposition, hroot, hspawned⟩ := h.root
  -- a call that does not spawn
  have hsame : ∀ rest q', Position ntasks rest q' → q'.spawned = q.spawned →
      q'.openOut = true ∧ q'.openIn = true →
      (∃ s', s.setupStep = some s' ∧ s'.todo = rest ∧ s'.table = s.table ∧ s'.pc = s.pc ∧ RootTable ntasks s' q') →
      ∃ s' q', s.setupStep = some s' ∧ RootAt ntasks s' q' ∧ (q'.openOut = true ∧ q'.openIn = true) ∧
        ∀ i < ntasks, TaskTable s' i := by
    rintro rest q' hrest hq hopen ⟨s', hstep, rfl, htable, hpc, hroot'⟩
    refine ⟨s', q', hstep, ⟨hrest, hroot', ?_⟩, hopen,
      fun i hi => (h.task i hi).congr (by rw [hpc]) (by rw [htable])⟩
    rw [hpc, hq]
    exact hspawned
  generalize htodo' : s.todo = todo at hposition htodo
  cases hposition with
  | begin =>
    rw [setup_eq hpos] at htodo'
    exact hsame _ _ .markOut rfl ⟨rfl, rfl⟩ (hroot.pipe htodo' ⟨rfl, rfl, rfl, rfl⟩ rfl (by simp))
  | markOut =>
    refine hsame _ _ (.pipes 1 le_rfl (by omega)) rfl ⟨rfl, rfl⟩ (hroot.setCoeFlag htodo' ?_ rfl rfl ?_)
    · simp [openEnds]
    · funext f
      obtain ⟨p, _ | _⟩ | k := f <;> simp [marks, Function.update_apply]
  | pipes m hm hle =>
    obtain hlt | rfl := Nat.lt_or_eq_of_le hle
    · rw [pipesFrom_le (by omega)] at htodo'
      exact hsame _ _ (.pipes (m + 1) (by omega) hlt) rfl ⟨rfl, rfl⟩
        (hroot.pipe htodo' ⟨rfl, rfl, rfl, rfl⟩ rfl fun _ => hm)
    · rw [pipesFrom_succ] at htodo'
      refine hsame _ _ (.spawn 0 (Nat.zero_le _)) rfl ⟨rfl, rfl⟩ (hroot.setCoeFlag htodo' ?_ rfl rfl ?_)
      · simp [openEnds]
      · funext f
        obtain ⟨p, _ | _⟩ | k := f <;> simp [marks, Function.update_apply]
  | spawn i hi =>
    obtain hlt | rfl := Nat.lt_or_eq_of_le hi
    swap
    · exact absurd (spawnsFrom_ge le_rfl) htodo
    rw [spawnsFrom_lt hlt] at htodo'
    obtain ⟨s', hstep, htodo'', hroot', hpipes, hpc, hother, htask⟩ :=
      hroot.spawn htodo' hlt rfl ⟨rfl, rfl⟩ rfl
    have hposition := Position.closeRead i hlt
    rw [← htodo''] at hposition
    refine ⟨s', _, hstep, ⟨hposition, ⟨?_, ?_, ?_⟩, ?_⟩, ⟨rfl, rfl⟩, ?_⟩
    · rw [hroot', hpipes]
      exact hroot.owns
    · rw [hpipes]
      exact hroot.inj
    · rw [hpipes]
      exact hroot.pos
    · intro j hj
      obtain rfl | hne := eq_or_ne j i
      · simp [hpc]
      · have hiff := hspawned j hj
        simp only at hiff ⊢
        rw [hpc, Function.update_of_ne hne, hiff]
        omega
    · intro j hj
      obtain rfl | hne := eq_or_ne j i
      · exact htask
      · exact (h.task j hj).congr (by simp [hpc, hne]) (hother j hne)
  | closeRead i hi =>
    refine hsame _ _ (.closeWrite i hi) rfl ⟨rfl, rfl⟩
      (hroot.closeStep htodo' (Nat.lt_succ_of_lt hi) ?_ rfl ⟨rfl, rfl⟩ ?_)
    · exact ⟨le_rfl, Nat.lt_succ_of_lt hi, fun _ => rfl⟩
    · intro p side
      cases side
      · simp [openEnds]
        omega
      · simp [openEnds]
  | closeWrite i hi =>
    refine hsame _ _ (.spawn (i + 1) hi) rfl ⟨rfl, rfl⟩
      (hroot.closeStep htodo' (Nat.succ_lt_succ hi) ?_ rfl ⟨rfl, rfl⟩ ?_)
    · exact ⟨Nat.succ_lt_succ hi, Nat.lt_succ_self i⟩
    · intro p side
      cases side
      · simp [openEnds]
      · obtain rfl | hp := eq_or_ne p 0
        · simp [openEnds]
        · simp only [openEnds, if_neg hp, and_true]
          omega
  | loop => exact absurd rfl htodo

lemma todo_ne_nil (hstep : s.setupStep = some s') : s.todo ≠ [] := by
  intro hnil
  simp [Chain.setupStep, hnil] at hstep

lemma Wired.setup_step (hpos : 0 < ntasks) (h : Wired ntasks s) (hstep : s.setupStep = some s') : Wired ntasks s' := by
  obtain ⟨s'', q', hstep'', hroot, -, htask⟩ := h.setup_at hpos (todo_ne_nil hstep)
  obtain rfl := Option.some.inj (hstep''.symm.trans hstep)
  exact ⟨⟨q', hroot⟩, htask⟩

/-- All pipes are there before the first task is. -/
lemma Position.pipe {rest : List Instr} {i : ℕ} (h : Position ntasks (.pipe i :: rest) q) : q.spawned = 0 := by
  generalize htodo : Instr.pipe i :: rest = todo at h
  cases h with
  | begin | markOut | pipes => rfl
  | spawn j hj =>
    obtain hlt | rfl := Nat.lt_or_eq_of_le hj
    · rw [spawnsFrom_lt hlt] at htodo
      cases htodo
    · rw [spawnsFrom_ge le_rfl] at htodo
      cases htodo
  | closeRead | closeWrite | loop => cases htodo

/-- The tasks are spawned in order. -/
lemma Position.spawned {rest : List Instr} {i : ℕ} (h : Position ntasks (.spawn i :: rest) q) : q.spawned = i := by
  generalize htodo : Instr.spawn i :: rest = todo at h
  cases h with
  | begin => cases htodo
  | markOut => cases htodo
  | pipes m hm hle =>
    obtain hlt | rfl := Nat.lt_or_eq_of_le hle
    · rw [pipesFrom_le (by omega)] at htodo
      cases htodo
    · rw [pipesFrom_succ] at htodo
      cases htodo
  | spawn j hj =>
    obtain hlt | rfl := Nat.lt_or_eq_of_le hj
    · rw [spawnsFrom_lt hlt] at htodo
      cases htodo
      rfl
    · rw [spawnsFrom_ge le_rfl] at htodo
      cases htodo
  | closeRead | closeWrite | loop => cases htodo

/-- What the setup leaves as it is. As soon as there are tasks no end of a pipe is opened any more. -/
structure SetupMove (ntasks : ℕ) (s s' : Chain α) : Prop where
  data : s'.pipe = s.pipe ∧ s'.buf = s.buf ∧ s'.written = s.written ∧ s'.readBack = s.readBack
  pc : ∀ i < ntasks, s'.pc i = s.pc i ∨ s.pc i = .unborn ∧ s'.pc i = .read
  held : (∀ i < ntasks, s'.pc i = .unborn) ∨ ∀ f, s'.held ntasks f → s.held ntasks f

lemma Wired.setupMove (h : Wired ntasks s) (hstep : s.setupStep = some s') : SetupMove ntasks s s' := by
  obtain ⟨q, hposition, hroot, hspawned⟩ := h.root
  have hroot_held : ∀ T rest, (∀ f, Table.has T f → s.root.has f) → ∀ f,
      Chain.held ntasks { s with todo := rest, root := T } f → s.held ntasks f :=
    fun T rest hT f hf => hf.imp_left (hT f)
  unfold Chain.setupStep at hstep
  split at hstep
  · cases hstep
  · next i rest htodo =>
    obtain rfl := Option.some.inj hstep
    rw [htodo] at hposition
    refine ⟨⟨rfl, rfl, rfl, rfl⟩, fun i _ => .inl rfl, .inl fun i hi => ?_⟩
    rw [hspawned i hi, hposition.pipe]
    exact Nat.zero_le i
  · next i side rest htodo =>
    obtain ⟨T, hT, rfl⟩ := Option.map_eq_some_iff.mp hstep
    exact ⟨⟨rfl, rfl, rfl, rfl⟩, fun i _ => .inl rfl, .inr (hroot_held T rest fun f => Table.has_of_setCloseOnExec hT)⟩
  · next i rest htodo =>
    obtain ⟨T, hT, rfl⟩ := Option.map_eq_some_iff.mp hstep
    rw [htodo] at hposition
    refine ⟨⟨rfl, rfl, rfl, rfl⟩, fun j hj => ?_, .inr fun f hf => ?_⟩
    · obtain rfl | hne := eq_or_ne j i
      · exact .inr ⟨(hspawned j hj).mpr hposition.spawned.le, by simp [Chain.goTo]⟩
      · exact .inl (by simp [Chain.goTo, hne])
    · obtain hf | ⟨j, hj, hf⟩ := hf
      · exact .inl hf
      · obtain rfl | hne := eq_or_ne j i
        · simp only [Chain.goTo, Function.update_self] at hf
          obtain ⟨k, c, hk⟩ := Table.has_iff.mp (bhook_has hT hf)
          exact .inl (Table.has_iff.mpr ⟨k, c, (Option.filter_eq_some_iff.mp hk).1⟩)
        · simp only [Chain.goTo, Function.update_of_ne hne] at hf
          exact .inr ⟨j, hj, hf⟩
  · next i side rest htodo =>
    obtain ⟨T, hT, rfl⟩ := Option.map_eq_some_iff.mp hstep
    obtain ⟨-, rfl⟩ := Table.close_eq_some.mp hT
    exact ⟨⟨rfl, rfl, rfl, rfl⟩, fun i _ => .inl rfl, .inr (hroot_held _ rest fun f => Table.has_of_set)⟩

section Task
variable {cap i choice : ℕ}

/-- What a step of a task can do with the descriptors that it has. -/
inductive TaskMove (ntasks : ℕ) (s : Chain α) (i : ℕ) : Chain α → Prop
  | read (n : ℕ) (hpc : s.pc i = .read) (hpipe : s.pipe i ≠ []) (hn : 0 < n) :
    TaskMove ntasks s i (Chain.goTo { s with
      buf := Function.update s.buf i ((s.pipe i).take n)
      pipe := Function.update s.pipe i ((s.pipe i).drop n) } i .write)
  | endOfFile (hpc : s.pc i = .read) (hpipe : s.pipe i = []) (hheld : ¬ s.held ntasks (.pipe i .write)) :
    TaskMove ntasks s i (s.goTo i .closeIn)
  | write (n : ℕ) (hpc : s.pc i = .write) (hn : 0 < n) :
    TaskMove ntasks s i (Chain.goTo { s with
      buf := Function.update s.buf i ((s.buf i).drop n)
      pipe := Function.update s.pipe (i + 1) (s.pipe (i + 1) ++ (s.buf i).take n) } i
        (if (s.buf i).drop n = [] then .read else .write))
  | noReader (hpc : s.pc i = .write) (hheld : ¬ s.held ntasks (.pipe (i + 1) .read)) : TaskMove ntasks s i (s.exit i .failed)
  | closeIn (hpc : s.pc i = .closeIn) :
    TaskMove ntasks s i (Chain.goTo { s with table := Function.update s.table i ((s.table i).set 0 none) } i .closeOut)
  | closeOut (hpc : s.pc i = .closeOut) :
    TaskMove ntasks s i (Chain.goTo { s with table := Function.update s.table i ((s.table i).set 1 none) } i .leave)
  | leave (hpc : s.pc i = .leave) : TaskMove ntasks s i (s.exit i .terminated)

lemma Wired.taskMove (h : Wired ntasks s) (hstep : s.taskStep ntasks cap i choice = some s') :
    i < ntasks ∧ TaskMove ntasks s i s' := by
  unfold Chain.taskStep at hstep
  by_cases hi : i < ntasks
  swap
  · rw [if_neg hi] at hstep
    cases hstep
  rw [if_pos hi] at hstep
  refine ⟨hi, ?_⟩
  have htask := h.task i hi
  cases hpc : s.pc i with
  | unborn | terminated | failed => simp [hpc] at hstep
  | read =>
    have hentry := htask.stdin (.inl hpc)
    simp only [hpc, hentry] at hstep
    split_ifs at hstep with hpipe hheld
    · obtain rfl := Option.some.inj hstep
      exact .endOfFile hpc hpipe hheld
    · obtain rfl := Option.some.inj hstep
      exact .read _ hpc hpipe (lt_min (Nat.succ_pos choice) (by decide))
  | write =>
    have hentry := htask.stdout (.inr (.inl hpc))
    simp only [hpc, hentry] at hstep
    by_cases hheld : s.held ntasks (.pipe (i + 1) .read)
    · rw [if_pos hheld] at hstep
      by_cases hzero : amount choice (cap - (s.pipe (i + 1)).length) = 0
      · rw [if_pos hzero] at hstep
        cases hstep
      · rw [if_neg hzero] at hstep
        obtain rfl := Option.some.inj hstep
        exact .write _ hpc (Nat.pos_of_ne_zero hzero)
    · rw [if_neg hheld] at hstep
      obtain rfl := Option.some.inj hstep
      exact .noReader hpc hheld
  | closeIn =>
    have hclose : (s.table i).close 0 = some ((s.table i).set 0 none) :=
      Table.close_eq_some.mpr ⟨⟨_, htask.stdin (.inr (.inr hpc))⟩, rfl⟩
    simp only [hpc, hclose, Option.some.injEq] at hstep
    subst hstep
    exact .closeIn hpc
  | closeOut =>
    have hclose : (s.table i).close 1 = some ((s.table i).set 1 none) :=
      Table.close_eq_some.mpr ⟨⟨_, htask.stdout (.inr (.inr (.inr hpc)))⟩, rfl⟩
    simp only [hpc, hclose, Option.some.injEq] at hstep
    subst hstep
    exact .closeOut hpc
  | leave =>
    simp only [hpc, Option.some.injEq] at hstep
    subst hstep
    exact .leave hpc

/-- The other tasks stay as they are. -/
lemma TaskMove.other {j : ℕ} (h : TaskMove ntasks s i s') (hj : j ≠ i) :
    s'.pc j = s.pc j ∧ s'.table j = s.table j ∧ s'.buf j = s.buf j := by
  cases h <;> simp [Chain.goTo, Chain.exit, hj]

/-- The root stays as it is. -/
lemma TaskMove.root (h : TaskMove ntasks s i s') : s'.todo = s.todo ∧ s'.root = s.root ∧ s'.pipes = s.pipes ∧
    s'.written = s.written ∧ s'.readBack = s.readBack := by
  cases h <;> exact ⟨rfl, rfl, rfl, rfl, rfl⟩

/-- A task opens nothing. -/
lemma TaskMove.has {f : File} (h : TaskMove ntasks s i s') (hf : (s'.table i).has f) : (s.table i).has f := by
  cases h with
  | read | endOfFile | write => exact hf
  | noReader | leave =>
    simp only [Chain.exit, Chain.goTo, Function.update_self] at hf
    exact absurd hf (Table.not_empty_has f)
  | closeIn | closeOut =>
    simp only [Chain.goTo, Function.update_self] at hf
    exact Table.has_of_set hf

lemma TaskMove.held {f : File} (h : TaskMove ntasks s i s') (hf : s'.held ntasks f) : s.held ntasks f := by
  obtain hf | ⟨j, hj, hf⟩ := hf
  · exact .inl (h.root.2.1 ▸ hf)
  · refine .inr ⟨j, hj, ?_⟩
    obtain rfl | hne := eq_or_ne j i
    · exact h.has hf
    · rwa [(h.other hne).2.1] at hf

lemma TaskMove.born (h : TaskMove ntasks s i s') : s.pc i ≠ .unborn ∧ s'.pc i ≠ .unborn := by
  cases h with
  | write n hpc hn =>
    refine ⟨by simp [hpc], ?_⟩
    simp only [Chain.goTo, Function.update_self]
    split_ifs <;> simp
  | read n hpc | endOfFile hpc | noReader hpc | closeIn hpc | closeOut hpc | leave hpc =>
    exact ⟨by simp [hpc], by simp [Chain.goTo, Chain.exit]⟩

lemma TaskMove.taskTable (h : TaskMove ntasks s i s') (htask : TaskTable s i) : TaskTable s' i := by
  have hlater : ∀ p, (s'.table i).has (.pipe p .write) → i < p := fun p hp => htask.later p (h.has hp)
  cases h with
  | read n hpc | endOfFile hpc =>
    refine ⟨hlater, fun _ => htask.stdin (.inl hpc), fun _ => htask.stdout (.inl hpc), fun hgone => ?_⟩
    simp [Chain.goTo] at hgone
  | write n hpc =>
    refine ⟨hlater, fun _ => htask.stdin (.inr (.inl hpc)), fun _ => htask.stdout (.inr (.inl hpc)), fun hgone => ?_⟩
    simp only [Chain.goTo, Function.update_self] at hgone
    split_ifs at hgone <;> simp at hgone
  | noReader | leave =>
    refine ⟨hlater, fun hpc => ?_, fun hpc => ?_, fun _ f => ?_⟩
    · simp [Chain.exit, Chain.goTo] at hpc
    · simp [Chain.exit, Chain.goTo] at hpc
    · simp [Chain.exit, Chain.goTo, Table.not_empty_has]
  | closeIn hpc =>
    refine ⟨hlater, fun hpc' => ?_, fun _ => ?_, fun hgone => ?_⟩
    · simp [Chain.goTo] at hpc'
    · simpa [Chain.goTo] using htask.stdout (.inr (.inr (.inl hpc)))
    · simp [Chain.goTo] at hgone
  | closeOut hpc =>
    refine ⟨hlater, fun hpc' => ?_, fun hpc' => ?_, fun hgone => ?_⟩
    · simp [Chain.goTo] at hpc'
    · simp [Chain.goTo] at hpc'
    · simp [Chain.goTo] at hgone

lemma RootAt.task_step (h : RootAt ntasks s q) (hmove : TaskMove ntasks s i s') : RootAt ntasks s' q := by
  obtain ⟨hposition, hroot, hspawned⟩ := h
  obtain ⟨htodo, hroot', hpipes, -⟩ := hmove.root
  refine ⟨htodo ▸ hposition, ⟨?_, ?_, ?_⟩, fun j hj => ?_⟩
  · rw [hroot', hpipes]
    exact hroot.owns
  · rw [hpipes]
    exact hroot.inj
  · rw [hpipes]
    exact hroot.pos
  · rw [← hspawned j hj]
    obtain rfl | hne := eq_or_ne j i
    · exact iff_of_false hmove.born.2 hmove.born.1
    · rw [(hmove.other hne).1]

lemma Wired.task_step (h : Wired ntasks s) (hi : i < ntasks) (hmove : TaskMove ntasks s i s') :
    Wired ntasks s' where
  root := by
    obtain ⟨q, hroot⟩ := h.root
    exact ⟨q, hroot.task_step hmove⟩
  task j hj := by
    obtain rfl | hne := eq_or_ne j i
    · exact hmove.taskTable (h.task j hj)
    · obtain ⟨hpc, htable, -⟩ := hmove.other hne
      exact (h.task j hj).congr hpc htable

end Task

section Root
variable {cap limit choice : ℕ} {bytes : List α}

/-- What the root has open when all is set up. -/
lemma Wired.inLoop (h : Wired ntasks s) (htodo : s.todo = []) : ∃ openOut openIn,
    RootTable ntasks s ⟨ntasks + 1, ntasks, ntasks, ntasks, true, true, openOut, openIn⟩ ∧
      ∀ i < ntasks, s.pc i ≠ .unborn := by
  obtain ⟨q, hposition, hroot, hspawned⟩ := h.root
  rw [htodo] at hposition
  generalize hnil : ([] : List Instr) = todo at hposition
  cases hposition with
  | loop openOut openIn => exact ⟨openOut, openIn, hroot, fun i hi => by rw [Ne, hspawned i hi]; exact not_le.mpr hi⟩
  | spawn i hi =>
    obtain hlt | rfl := Nat.lt_or_eq_of_le hi
    · rw [spawnsFrom_lt hlt] at hnil
      cases hnil
    · exact ⟨true, true, hroot, fun j hj => by rw [Ne, hspawned j hj]; exact not_le.mpr hj⟩
  | pipes m hm hle =>
    obtain hlt | rfl := Nat.lt_or_eq_of_le hle
    · rw [pipesFrom_le (by omega)] at hnil
      cases hnil
    · rw [pipesFrom_succ] at hnil
      cases hnil
  | begin =>
    have hne : HookCoe.setup ntasks ≠ [] := by simp [HookCoe.setup]
    exact absurd hnil.symm hne
  | markOut | closeRead | closeWrite => cases hnil

/-- fd_out is the write end of pipes[0], and fd_in the read end of pipes[ntasks]. -/
lemma Wired.rootWrite (h : Wired ntasks s) (hstep : s.rootWrite ntasks cap bytes = some s') :
    s.todo = [] ∧ s.root.has (.pipe 0 .write) ∧ s' = { s with
      pipe := Function.update s.pipe 0 (s.pipe 0 ++ bytes)
      written := s.written ++ bytes } := by
  unfold Chain.rootWrite at hstep
  split at hstep
  · next p c hentry =>
    split_ifs at hstep with hguard
    obtain ⟨openOut, openIn, hroot, -⟩ := h.inLoop hguard.1
    obtain ⟨hends, heq⟩ := hroot.owns.only _ (.pipe p .write) c (by trivial) hentry
    obtain ⟨rfl, -⟩ := hroot.inj 0 .write p .write (Nat.succ_pos ntasks) hends.1 heq
    exact ⟨hguard.1, Table.has_iff.mpr ⟨_, c, hentry⟩, (Option.some.inj hstep).symm⟩
  · cases hstep

lemma Wired.rootRead {got : List α} (h : Wired ntasks s)
    (hstep : s.rootRead ntasks limit choice = some (s', got)) : s.todo = [] ∧ s' = { s with
      pipe := Function.update s.pipe ntasks ((s.pipe ntasks).drop (amount choice limit))
      readBack := s.readBack ++ got } ∧ got = (s.pipe ntasks).take (amount choice limit) ∧
      (s.pipe ntasks ≠ [] ∨ ¬ s.held ntasks (.pipe ntasks .write)) := by
  unfold Chain.rootRead at hstep
  split at hstep
  · next p c hentry =>
    split_ifs at hstep with hguard
    obtain ⟨openOut, openIn, hroot, -⟩ := h.inLoop hguard.1
    obtain ⟨hends, heq⟩ := hroot.owns.only _ (.pipe p .read) c (by trivial) hentry
    obtain ⟨rfl, -⟩ := hroot.inj ntasks .read p .read (Nat.lt_succ_self ntasks) hends.2.1 heq
    obtain ⟨rfl, rfl⟩ := Prod.mk.inj (Option.some.inj hstep)
    exact ⟨hguard.1, rfl, rfl, hguard.2⟩
  · cases hstep

/-- The tasks do not see which descriptors the root closes. -/
lemma Wired.rootTable {T : Table File} (h : Wired ntasks s) (htodo : s.todo = []) (openOut openIn : Bool)
    (hroot : RootTable ntasks { s with root := T }
      ⟨ntasks + 1, ntasks, ntasks, ntasks, true, true, openOut, openIn⟩) : Wired ntasks { s with root := T } where
  root := by
    obtain ⟨-, -, -, hborn⟩ := h.inLoop htodo
    refine ⟨_, ?_, hroot, fun i hi => iff_of_false (hborn i hi) (not_le.mpr hi)⟩
    simp only [htodo]
    exact .loop openOut openIn
  task i hi := (h.task i hi).congr rfl rfl

/-- close( fd_out ) and close( fd_in ) -/
lemma Wired.rootClose {p : ℕ} {side : Side} (h : Wired ntasks s)
    (hend : p = 0 ∧ side = .write ∨ p = ntasks ∧ side = .read) (hstep : s.rootClose p side = some s') :
    Wired ntasks s' ∧ s' = { s with root := s.root.set (s.pipes p side) none } := by
  unfold Chain.rootClose at hstep
  split_ifs at hstep with htodo
  obtain ⟨T, hclose, rfl⟩ := Option.map_eq_some_iff.mp hstep
  obtain ⟨openOut, openIn, hroot, -⟩ := h.inLoop htodo
  refine ⟨?_, by rw [(Table.close_eq_some.mp hclose).2]⟩
  obtain ⟨rfl, rfl⟩ | ⟨rfl, rfl⟩ := hend
  · refine h.rootTable htodo false openIn
      (hroot.close (Nat.succ_pos ntasks) hclose rfl rfl rfl ⟨rfl, rfl⟩ fun p' side' => ?_)
    cases side'
    · simp [openEnds]
    · obtain rfl | hp := eq_or_ne p' 0
      · simp [openEnds]
      · simp [openEnds, hp]
  · refine h.rootTable htodo openOut false
      (hroot.close (Nat.lt_succ_self p) hclose rfl rfl rfl ⟨rfl, rfl⟩ fun p' side' => ?_)
    cases side'
    · simp [openEnds]
      omega
    · simp [openEnds]

end Root

theorem step_wired {cap : ℕ} (hpos : 0 < ntasks) (a : Event α) (h : Wired ntasks s)
    (hstep : step ntasks cap s a = some s') : Wired ntasks s' := by
  cases a with
  | setup => exact h.setup_step hpos hstep
  | task i choice =>
    obtain ⟨hi, hmove⟩ := h.taskMove hstep
    exact h.task_step hi hmove
  | write bytes =>
    obtain ⟨-, -, rfl⟩ := h.rootWrite hstep
    exact h.congr rfl rfl rfl rfl rfl
  | read limit choice =>
    obtain ⟨⟨s'', got⟩, hread, rfl⟩ := Option.map_eq_some_iff.mp hstep
    obtain ⟨-, rfl, -⟩ := h.rootRead hread
    exact h.congr rfl rfl rfl rfl rfl
  | closeOut => exact (h.rootClose (.inl ⟨rfl, rfl⟩) hstep).1
  | closeIn => exact (h.rootClose (.inr ⟨rfl, rfl⟩) hstep).1

theorem run_wired (hpos : 0 < ntasks) (cap : ℕ) (T : Table ℕ) (schedule : List (Event α)) :
    Wired ntasks (run ntasks cap T schedule) :=
  Interleaving.run_inv (start_wired T) (fun _ a _ => step_wired hpos a) schedule

end PipTestsuite.HookCoe
