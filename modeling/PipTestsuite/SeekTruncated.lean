import PipTestsuite.SeekStream

/-! What a participant of seek.c makes of an input that ends too early. my_read may come back with a part of the
record, the callers test only the sign of what it returns, and check still has what an earlier call has put there. -/
namespace PipTestsuite.Seek
open BarrierProgram

variable {ntasks : ℕ}

/-- A step of a participant, or a change of what is behind the descriptor by somebody else. -/
inductive Act (ntasks : ℕ) where
  | event (e : Event (Party ntasks) ℕ)
  | input (file : Word)

def actStep (c : Config (Party ntasks) Op (Io ntasks)) : Act ntasks → Option (Config (Party ntasks) Op (Io ntasks))
  | .event e => c.step io e
  | .input file => some { c with data := { c.data with file := file } }

/-- A run of seek with a mode, in which the input may become longer, shorter or another one at any time. -/
def inputRun (mode : Mode) (ntasks niters : ℕ) (file : Word) (schedule : List (Act ntasks)) :
    Config (Party ntasks) Op (Io ntasks) :=
  Interleaving.run actStep ⟨start (seek mode ntasks niters), opened ntasks file⟩ schedule

/-- Each my_read whose comparison has succeeded has got all bytes of the record. -/
def WholeRecords (c : Config (Party ntasks) Op (Io ntasks)) : Prop :=
  ∀ x ∈ c.data.got, c.sync.failed x.1 = false → x.2.length = (record x.1).length

instance (c : Config (Party ntasks) Op (Io ntasks)) : Decidable (WholeRecords c) :=
  inferInstanceAs (Decidable (∀ x ∈ c.data.got, _))

/-- The participant has read its record before, and what it has got of it in this call, if anything, has not
changed check. A task does not accept a call that has got nothing. -/
def Io.stale (d : Io ntasks) (i : Party ntasks) : Prop :=
  (∃ x ∈ d.got, x.1 = i) ∧ (d.check i).take (d.moved i) = (record i).take (d.moved i) ∧ (i = .root ∨ 0 < d.moved i)

instance (d : Io ntasks) (i : Party ntasks) : Decidable (d.stale i) := inferInstanceAs (Decidable (_ ∧ _))

/-- No read() meets the end of the input with a stale record in check. -/
def noStaleEnd (c : Config (Party ntasks) Op (Io ntasks)) : Act ntasks → Prop
  | .event (.act i _) =>
    (c.sync.todo i).head? = some (.act .read) → c.data.file.length ≤ c.data.offset → ¬ c.data.stale i
  | _ => True

section Strings
variable {i : Party ntasks} {base check : Word} {p : ℕ}

lemma ne_nul_of_mem_record {c : Char} (hc : c ∈ record i) : c ≠ nul := by
  rintro rfl
  cases i with
  | root => exact absurd hc (show nul ∉ List.leftpad 8 ' ' "ROOT".toList by decide)
  | task pipid =>
    rw [record, List.leftpad, List.mem_append, List.mem_replicate] at hc
    obtain hpad | hdigit := hc
    · exact absurd hpad.2 (by decide)
    · exact absurd (Nat.isDigit_of_mem_toDigits (by decide) le_rfl hdigit) (by decide)

lemma record_pos (i : Party ntasks) : 0 < (record i).length := by
  have hle : 8 ≤ (record i).length := by
    cases i with
    | root => exact le_rfl
    | task pipid =>
      rw [record, List.length_leftpad]
      exact le_max_left _ _
  omega

lemma cString_isPrefix (b : Word) : cString b <+: b := List.takeWhile_prefix _

lemma cString_append {r t : Word} (hr : ∀ c ∈ r, c ≠ nul) (ht : cString t = []) : cString (r ++ t) = r := by
  have hr' : ∀ c ∈ r, decide (c ≠ nul) = true := fun c hc => decide_eq_true (hr c hc)
  rw [cString, List.takeWhile_append_of_pos hr', ← cString, ht, List.append_nil]

lemma cString_replicate (n : ℕ) : cString (List.replicate n nul) = [] := by
  cases n <;> simp [cString, List.replicate_succ]

@[simp] lemma cString_buff (i : Party ntasks) : cString (buff i) = record i :=
  cString_append (fun _ => ne_nul_of_mem_record) (cString_replicate _)

/-- A buffer that was clear has no more characters than have been read. -/
lemma length_cString_le (h : check.drop p = List.replicate (bufSize - p) nul) : (cString check).length ≤ p := by
  by_contra hlt
  have hle := (cString_isPrefix check).length_le
  have hdrop : (check.drop p).head? = some nul := by
    have hlen := congrArg List.length h
    rw [List.length_drop, List.length_replicate] at hlen
    obtain ⟨n, hn⟩ := Nat.exists_eq_succ_of_ne_zero (show bufSize - p ≠ 0 by omega)
    rw [h, hn]
    rfl
  have hget : (cString check)[p]? = some nul := by
    rw [List.prefix_iff_eq_take.mp (cString_isPrefix check), List.getElem?_take_of_lt (by omega)]
    simpa [List.head?_drop] using hdrop
  have hmem := List.mem_of_getElem? hget
  rw [cString] at hmem
  have hall : ((check.takeWhile (· ≠ nul)).all (· ≠ nul)) = true := List.all_takeWhile
  simpa using List.all_eq_true.mp hall nul hmem

/-- With the record behind the bytes that have been read, these decide the comparison. -/
lemma cString_stale (hbase : cString base = record i) (h : check.drop p = base.drop p)
    (hp : p < (record i).length) :
    cString check = record i ↔ check.take p = (record i).take p := by
  have htake : base.take p = (record i).take p := by
    have hprefix := cString_isPrefix base
    rw [hbase] at hprefix
    obtain ⟨t, rfl⟩ := hprefix
    exact List.take_append_of_le_length hp.le
  constructor
  · intro heq
    have hprefix := cString_isPrefix check
    rw [heq] at hprefix
    obtain ⟨t, rfl⟩ := hprefix
    exact List.take_append_of_le_length hp.le
  · intro heq
    have hcheck : check = base := by rw [← List.take_append_drop p check, heq, h, ← htake, List.take_append_drop]
    rw [hcheck, hbase]

end Strings

/-- What an unfinished participant has in check, with h the next instruction of its program: only a my_read that
is not over has changed it since the last comparison. -/
structure Own (d : Io ntasks) (i : Party ntasks) (h : Option (Instr Op)) : Prop where
  place : d.moved i < (record i).length
  idle : h ≠ some (.act .read) → h ≠ some (.act .write) → d.moved i = 0
  whole : ∀ x ∈ d.got, x.1 = i → x.2.length = (record i).length
  base : ∃ base, (cString base = record i ∧ (∃ x ∈ d.got, x.1 = i) ∨
      base = List.replicate bufSize nul ∧ ∀ x ∈ d.got, x.1 ≠ i) ∧
    (d.check i).drop (d.moved i) = base.drop (d.moved i) ∧ (h ≠ some (.act .read) → d.check i = base)

section Own
variable {d d' : Io ntasks} {i j : Party ntasks} {h h' : Option (Instr Op)} {choice : ℕ} {v : Verdict}

lemma Own.congr (hown : Own d i h) (hmoved : d'.moved i = d.moved i) (hcheck : d'.check i = d.check i)
    (hgot : ∀ x, x.1 = i → (x ∈ d'.got ↔ x ∈ d.got)) : Own d' i h := by
  have hmem : (∃ x ∈ d'.got, x.1 = i) ↔ ∃ x ∈ d.got, x.1 = i := by
    constructor <;> rintro ⟨x, hx, hi⟩
    · exact ⟨x, (hgot x hi).mp hx, hi⟩
    · exact ⟨x, (hgot x hi).mpr hx, hi⟩
  obtain ⟨base, hkind, hdrop, hfull⟩ := hown.base
  refine ⟨hmoved ▸ hown.place, hmoved ▸ hown.idle, fun x hx hi => hown.whole x ((hgot x hi).mp hx) hi,
    base, ?_, by rw [hmoved, hcheck, hdrop], by rwa [hcheck]⟩
  refine hkind.imp (And.imp_right hmem.mpr) (And.imp_right fun hnone x hx hi => ?_)
  exact hnone x ((hgot x hi).mp hx) hi

/-- Between two calls check has not been changed at all. -/
lemma Own.next (hown : Own d i h) (hmoved : d.moved i = 0) (h' : Option (Instr Op)) : Own d i h' := by
  obtain ⟨base, hkind, hdrop, -⟩ := hown.base
  have hcheck : d.check i = base := by simpa [hmoved] using hdrop
  exact ⟨hown.place, fun _ _ => hmoved, hown.whole, base, hkind, hdrop, fun _ => hcheck⟩

/-- A read() of an open call: the input has come to its end, or some bytes of the record are added. -/
lemma myRead_spec (choice : ℕ) (hplace : d.moved i < (record i).length) :
    (d.file.length ≤ d.offset ∧ myRead i choice d = (d.finish i, some (d.moved i))) ∨
    d.offset < d.file.length ∧ ∃ bytes : Word, ∃ d₁, d₁ = { d with
        offset := d.offset + bytes.length
        moved := Function.update d.moved i (d.moved i + bytes.length)
        check := Function.update d.check i
          ((d.check i).take (d.moved i) ++ bytes ++ (d.check i).drop (d.moved i + bytes.length)) } ∧
      (d.moved i + bytes.length < (record i).length ∧ myRead i choice d = (d₁, none) ∨
        d.moved i + bytes.length = (record i).length ∧
          myRead i choice d = (d₁.finish i, some (record i).length)) := by
  obtain hend | hlt := le_or_gt d.file.length d.offset
  · refine .inl ⟨hend, ?_⟩
    simp [myRead, List.drop_eq_nil_of_le hend]
  · refine .inr ⟨hlt, (d.file.drop d.offset).take (min (choice + 1) ((record i).length - d.moved i)), _, rfl, ?_⟩
    have hle : ((d.file.drop d.offset).take (min (choice + 1) ((record i).length - d.moved i))).length ≤
        (record i).length - d.moved i := (List.length_take_le _ _).trans (min_le_right _ _)
    have hne : ((d.file.drop d.offset).take (min (choice + 1) ((record i).length - d.moved i))).length ≠ 0 := by
      rw [List.length_take, List.length_drop]
      omega
    simp only [myRead, if_neg hne]
    split_ifs with hmore
    · exact .inl ⟨by omega, rfl⟩
    · exact .inr ⟨by omega, rfl⟩

/-- The bytes of a call are put in front of what check has behind them. -/
lemma drop_splice (check bytes : Word) (p : ℕ) :
    (check.take p ++ bytes ++ check.drop (p + bytes.length)).drop (p + bytes.length) =
      check.drop (p + bytes.length) := by
  obtain hle | hlt := le_or_gt p check.length
  · have hlen : (check.take p ++ bytes).length = p + bytes.length := by
      rw [List.length_append, List.length_take_of_le hle]
    rw [← hlen, List.drop_left]
  · have hnil : check.drop (p + bytes.length) = [] := List.drop_eq_nil_of_le (by omega)
    rw [hnil, List.append_nil]
    apply List.drop_eq_nil_of_le
    rw [List.length_append, List.length_take]
    omega

/-- An operation of another participant. -/
lemma io_other {a : Op} (hne : j ≠ i) (hio : io i a choice d = (d', v)) :
    d'.moved j = d.moved j ∧ d'.check j = d.check j ∧ ∀ x, x.1 = j → (x ∈ d'.got ↔ x ∈ d.got) := by
  cases a with
  | fsync =>
    obtain ⟨rfl, -⟩ := Prod.mk.inj hio
    simp
  | lseek =>
    obtain ⟨rfl, -⟩ := Prod.mk.inj hio
    simp
  | write =>
    simp only [io, myWrite] at hio
    split_ifs at hio <;> obtain ⟨rfl, -⟩ := Prod.mk.inj hio <;> simp [Io.finish, hne]
  | read =>
    simp only [io, myRead] at hio
    have hmem : ∀ (x : Party ntasks × Word) w, x.1 = j → x ≠ (i, w) := by
      rintro x w hx rfl
      exact hne hx.symm
    split_ifs at hio <;> obtain ⟨rfl, -⟩ := Prod.mk.inj hio <;>
      exact ⟨by simp [Io.finish, hne], by simp [Io.finish, hne], fun x hx => by simp [Io.finish, hmem x _ hx]⟩

/-- my_write does not touch check. -/
lemma Own.write (hown : Own d i (some (.act .write))) (hio : io i .write choice d = (d', v)) :
    Own d' i (some (.act .write)) ∧ (v = .pass → d'.moved i = 0) := by
  obtain ⟨base, hkind, -, hfull⟩ := hown.base
  have hcheck : d.check i = base := hfull (by simp)
  simp only [io, myWrite] at hio
  split_ifs at hio with hmore <;> obtain ⟨rfl, rfl⟩ := Prod.mk.inj hio
  · refine ⟨⟨?_, by simp, hown.whole, base, hkind, by rw [hcheck], fun _ => hcheck⟩, by simp⟩
    simp only [Function.update_self]
    omega
  all_goals
    refine ⟨⟨by simpa [Io.finish] using record_pos i, by simp, hown.whole, base, hkind, ?_, fun _ => hcheck⟩, ?_⟩
    · simp [Io.finish, hcheck]
    · simp [Io.finish]

lemma badCount_eq_false (i : Party ntasks) (n : ℕ) : badCount i n = false ↔ i = .root ∨ 0 < n := by
  cases i <;> simp [badCount, Nat.pos_iff_ne_zero]

/-- The comparison behind a call that has met the end of the input. -/
lemma Own.compare_iff (hown : Own d i h) : cString (d.check i) = record i ↔
    (∃ x ∈ d.got, x.1 = i) ∧ (d.check i).take (d.moved i) = (record i).take (d.moved i) := by
  obtain ⟨base, ⟨hbase, hread⟩ | ⟨rfl, hnone⟩, hdrop, -⟩ := hown.base
  · rw [cString_stale hbase hdrop hown.place]
    simp only [hread, true_and]
  · have hnever : ¬ ∃ x ∈ d.got, x.1 = i := by
      rintro ⟨x, hx, hi⟩
      exact hnone x hx hi
    have hne : cString (d.check i) ≠ record i := by
      intro heq
      have hle := length_cString_le (hdrop.trans (List.drop_replicate))
      have hplace := hown.place
      rw [heq] at hle
      omega
    simp only [hne, hnever, false_and]

/-- Such a call is accepted exactly where a stale record is in check. -/
lemma Own.short (hown : Own d i h) (choice : ℕ) (hend : d.file.length ≤ d.offset) :
    io i .read choice d =
      ({ d.finish i with got := d.got ++ [(i, (d.check i).take (d.moved i))] },
        if d.stale i then .pass else .fail) := by
  obtain ⟨-, hcall⟩ | ⟨hlt, -⟩ := myRead_spec choice hown.place
  · have hstale : d.stale i ↔ cString (d.check i) = record i ∧ badCount i (d.moved i) = false := by
      rw [hown.compare_iff, badCount_eq_false, Io.stale, and_assoc]
    simp only [io, hcall, cString_buff, Io.finish, Prod.mk.injEq, true_and]
    by_cases hbad : badCount i (d.moved i) = true
    · simp [hstale, hbad]
    · by_cases heq : cString (d.check i) = record i
      · simp [hstale, hbad, heq]
      · simp [hstale, hbad, heq, Ne.symm heq]
  · omega

/-- my_read with its comparison, where no stale record is in check at the end of the input. -/
lemma Own.read (hown : Own d i (some (.act .read))) (hio : io i .read choice d = (d', v))
    (hend : d.file.length ≤ d.offset → ¬ d.stale i) (hv : v ≠ .fail) :
    Own d' i (some (.act .read)) ∧ (v = .pass → d'.moved i = 0) := by
  obtain ⟨hfile, -⟩ | ⟨-, bytes, d₁, rfl, hcall⟩ := myRead_spec choice hown.place
  · rw [hown.short choice hfile, if_neg (hend hfile)] at hio
    exact absurd (Prod.mk.inj hio).2.symm hv
  obtain ⟨base, hkind, hdrop, -⟩ := hown.base
  have hbehind : ((d.check i).take (d.moved i) ++ bytes ++ (d.check i).drop (d.moved i + bytes.length)).drop
      (d.moved i + bytes.length) = base.drop (d.moved i + bytes.length) := by
    rw [drop_splice, ← List.drop_drop, hdrop, List.drop_drop]
  obtain ⟨hlt, hcall⟩ | ⟨heq, hcall⟩ := hcall
  · simp only [io, hcall] at hio
    obtain ⟨rfl, rfl⟩ := Prod.mk.inj hio
    refine ⟨⟨by simpa using hlt, by simp, hown.whole, base, hkind, ?_, by simp⟩, by simp⟩
    simpa using hbehind
  · simp only [io, hcall, cString_buff] at hio
    obtain ⟨rfl, rfl⟩ := Prod.mk.inj hio
    generalize hcheck : (d.check i).take (d.moved i) ++ bytes ++ (d.check i).drop (d.moved i + bytes.length) = check
      at hv hbehind ⊢
    have hrecord : cString check = record i := by
      by_contra hne
      apply hv
      simp [Io.finish, Ne.symm hne]
    have hlen : (record i).length ≤ check.length := hrecord ▸ (cString_isPrefix check).length_le
    refine ⟨⟨by simpa [Io.finish] using record_pos i, by simp, ?_, check, .inl ⟨hrecord, ?_⟩, ?_, by simp⟩, ?_⟩
    · intro x hx hi
      obtain hx | rfl := by simpa [Io.finish] using hx
      · exact hown.whole x hx hi
      · simpa using hlen
    · exact ⟨(i, check.take (record i).length), by simp [Io.finish], rfl⟩
    · simp [Io.finish]
    · simp [Io.finish]

/-- Any operation that does not fail. -/
lemma Own.io {a : Op} (hown : Own d i (some (.act a))) (hio : io i a choice d = (d', v))
    (hend : a = .read → d.file.length ≤ d.offset → ¬ d.stale i) (hv : v ≠ .fail) :
    Own d' i (some (.act a)) ∧ (v = .pass → d'.moved i = 0) := by
  cases a with
  | write => exact hown.write hio
  | read => exact hown.read hio (hend rfl) hv
  | fsync =>
    obtain ⟨rfl, -⟩ := Prod.mk.inj hio
    exact ⟨hown, fun _ => hown.idle (by simp) (by simp)⟩
  | lseek =>
    obtain ⟨rfl, -⟩ := Prod.mk.inj hio
    exact ⟨hown.congr rfl rfl fun _ _ => Iff.rfl, fun _ => hown.idle (by simp) (by simp)⟩

end Own

/-- Where the unfinished participants are, when no short call has been accepted. -/
structure Sound (c : Config (Party ntasks) Op (Io ntasks)) : Prop where
  own : ∀ i, c.sync.failed i = false → Own c.data i (c.sync.todo i).head?
  inside : ∀ i g, c.sync.inside i = some g → (c.sync.todo i).head? = some .wait
  gone : ∀ i, c.sync.failed i = true → c.sync.todo i = []

section Runs
variable {c c' : Config (Party ntasks) Op (Io ntasks)}

lemma Sound.wholeRecords (h : Sound c) : WholeRecords c :=
  fun x hx hok => (h.own x.1 hok).whole x hx rfl

lemma start_sound (mode : Mode) (niters : ℕ) (file : Word) :
    Sound ⟨start (seek mode ntasks niters), opened ntasks file⟩ where
  own i _ := ⟨record_pos i, fun _ _ => rfl, by simp [opened], _, .inr ⟨rfl, by simp [opened]⟩, rfl, fun _ => rfl⟩
  inside i g hg := by simp [start] at hg
  gone i hi := by simp [start] at hi

lemma Sound.input (h : Sound c) (file : Word) : Sound { c with data := { c.data with file := file } } where
  own i hok := (h.own i hok).congr rfl rfl fun _ _ => Iff.rfl
  inside := h.inside
  gone := h.gone

/-- An operation that is over, or goes on, or has failed; the others do not notice. -/
lemma Sound.act {i : Party ntasks} {choice : ℕ} {a : Op} {d : Io ntasks} {v : Verdict}
    {s : State (Party ntasks) Op} (h : Sound c) (hin : c.sync.inside i = none)
    (htodo : (c.sync.todo i).head? = some (.act a)) (hio : io i a choice c.data = (d, v))
    (hend : a = .read → c.data.file.length ≤ c.data.offset → ¬ c.data.stale i)
    (hinside : s.inside = c.sync.inside) (hother : ∀ j ≠ i, s.todo j = c.sync.todo j ∧ s.failed j = c.sync.failed j)
    (hself : s.failed i = false → c.sync.failed i = false ∧
      (v = .again ∧ s.todo i = c.sync.todo i ∨ v = .pass))
    (hgone : s.failed i = true → s.todo i = []) : Sound ⟨s, d⟩ where
  own j hok := by
    obtain rfl | hne := eq_or_ne j i
    · obtain ⟨hok', hv⟩ := hself hok
      have hown := h.own j hok'
      rw [htodo] at hown
      obtain ⟨hown', hmoved⟩ := hown.io hio hend (by obtain ⟨rfl, -⟩ | rfl := hv <;> decide)
      obtain ⟨-, hsame⟩ | hpass := hv
      · simp only [hsame, htodo]
        exact hown'
      · exact hown'.next (hmoved hpass) _
    · obtain ⟨htodo', hfailed⟩ := hother j hne
      obtain ⟨hmoved, hcheck, hgot⟩ := io_other hne hio
      simp only [htodo']
      exact (h.own j (hfailed ▸ hok)).congr hmoved hcheck hgot
  inside j g hg := by
    simp only [hinside] at hg
    have hne : j ≠ i := by
      rintro rfl
      rw [hin] at hg
      cases hg
    simp only [(hother j hne).1]
    exact h.inside j g hg
  gone j hj := by
    obtain rfl | hne := eq_or_ne j i
    · exact hgone hj
    · obtain ⟨htodo', hfailed⟩ := hother j hne
      simp only [htodo']
      exact h.gone j (hfailed ▸ hj)

theorem Sound.step (a : Act ntasks) (h : Sound c) (hstep : actStep c a = some c') (hend : noStaleEnd c a) :
    Sound c' := by
  cases a with
  | input file =>
    obtain rfl := Option.some.inj hstep
    exact h.input file
  | event e =>
    obtain ⟨i, choice, a, rest, d, rfl, hin, htodo, hcase⟩ | ⟨i, s, rfl, hs, rfl⟩ | ⟨i, s, rfl, hs, rfl⟩ :=
      Config.step_cases hstep
    · have hhead : (c.sync.todo i).head? = some (.act a) := by rw [htodo]; rfl
      have hend' : a = .read → c.data.file.length ≤ c.data.offset → ¬ c.data.stale i := by
        rintro rfl
        exact hend hhead
      obtain ⟨hio, rfl⟩ | ⟨ok, s, hio, hs, rfl⟩ := hcase
      · exact h.act hin hhead hio hend' rfl (fun _ _ => ⟨rfl, rfl⟩) (fun hok => ⟨hok, .inl ⟨rfl, rfl⟩⟩) (h.gone i)
      · rw [step_act hin htodo] at hs
        obtain rfl := Option.some.inj hs
        refine h.act hin hhead hio hend' rfl (fun j hj => ?_) (fun hok => ?_) fun hfailed => ?_
        · cases ok <;> simp [hj]
        · cases ok
          · simp at hok
          · exact ⟨hok, .inr rfl⟩
        · cases ok
          · simp
          · rw [h.gone i hfailed] at htodo
            cases htodo
    · obtain ⟨_, _, _, _, hact, -⟩ | ⟨_, rest, harrive, hin, htodo, rfl⟩ | ⟨_, _, hleave, -⟩ :=
        BarrierProgram.step_cases hs
      · cases hact
      · obtain rfl := Action.arrive.inj harrive
        refine ⟨fun j hok => ?_, fun j g hg => ?_, fun j hj => ?_⟩
        · rw [release_failed] at hok
          simp only [release_todo]
          exact h.own j hok
        · simp only [release_inside, release_todo, Function.update_apply] at hg ⊢
          split_ifs at hg with hj
          · rw [hj, htodo]
            rfl
          · exact h.inside j g hg
        · rw [release_failed] at hj
          simp only [release_todo]
          exact h.gone j hj
      · cases hleave
    · obtain ⟨_, _, _, _, hact, -⟩ | ⟨_, _, harrive, -⟩ | ⟨_, g, hleave, hin, -, rfl⟩ :=
        BarrierProgram.step_cases hs
      · cases hact
      · cases harrive
      · obtain rfl := Action.leave.inj hleave
        refine ⟨fun j hok => ?_, fun j g' hg' => ?_, fun j hj => ?_⟩
        · have hown := h.own j hok
          obtain rfl | hne := eq_or_ne j i
          · have hwait := h.inside j g hin
            exact hown.next (hown.idle (by simp [hwait]) (by simp [hwait])) _
          · simp only [Function.update_of_ne hne]
            exact hown
        · simp only [Function.update_apply] at hg'
          split_ifs at hg' with hj
          simp only [Function.update_of_ne hj]
          exact h.inside j g' hg'
        · have hnil := h.gone j hj
          obtain rfl | hne := eq_or_ne j i
          · simp [hnil]
          · simpa [hne] using hnil

/-- A short call that is accepted leaves its short record behind. -/
theorem Sound.step_stale (a : Act ntasks) (h : Sound c) (hstep : actStep c a = some c') (hstale : ¬ noStaleEnd c a) :
    ¬ WholeRecords c' := by
  cases a with
  | input file => exact absurd trivial hstale
  | event e =>
    obtain ⟨i, choice, a, rest, d, rfl, hin, htodo, hcase⟩ | ⟨i, s, rfl, -⟩ | ⟨i, s, rfl, -⟩ := Config.step_cases hstep
    · simp only [noStaleEnd, htodo, List.head?_cons, Option.some.injEq, Instr.act.injEq, not_forall, not_not] at hstale
      obtain ⟨rfl, hfile, hstale⟩ := hstale
      have hok : c.sync.failed i = false := by
        by_contra hfailed
        rw [h.gone i (by simpa using hfailed)] at htodo
        cases htodo
      have hown := h.own i hok
      have hio := hown.short choice hfile
      rw [if_pos hstale] at hio
      obtain ⟨hagain, -⟩ | ⟨ok, s, hpass, hs, rfl⟩ := hcase
      · rw [hio] at hagain
        cases (Prod.mk.inj hagain).2
      · rw [hio] at hpass
        obtain ⟨rfl, hpass⟩ := Prod.mk.inj hpass
        cases ok
        · cases hpass
        · rw [step_act hin htodo] at hs
          obtain rfl := Option.some.inj hs
          intro hwhole
          have hlen := hwhole (i, (c.data.check i).take (c.data.moved i)) (by simp) hok
          have hle : ((c.data.check i).take (c.data.moved i)).length ≤ c.data.moved i := List.length_take_le _ _
          have hplace := hown.place
          simp only at hlen
          omega
    · exact absurd trivial hstale
    · exact absurd trivial hstale

end Runs

/-- No short call is accepted in a run if and only if no read() of it meets the end of the input with a stale
record in check. -/
theorem whole_records_iff (mode : Mode) (ntasks niters : ℕ) (file : Word) (schedule : List (Act ntasks)) :
    (∀ l, l <+: schedule → WholeRecords (inputRun mode ntasks niters file l)) ↔
      ∀ l a c', l ++ [a] <+: schedule → actStep (inputRun mode ntasks niters file l) a = some c' →
        noStaleEnd (inputRun mode ntasks niters file l) a :=
  Interleaving.run_states_iff (start_sound mode niters file) (fun _ => Sound.wholeRecords)
    (fun _ a _ => Sound.step a) (fun _ a _ => Sound.step_stale a) schedule

/-- The waits of the root and a task up to the next turn. -/
def meet : List (Act 1) :=
  [.event (.arrive .root), .event (.arrive (.task ⟨0, Nat.one_pos⟩)), .event (.leave .root),
    .event (.leave (.task ⟨0, Nat.one_pos⟩))]

/-- Two turns of one task that reads from stdin. -/
def twoTurns : List (Act 1) :=
  [.event (.act .root 7)] ++ meet ++ [.event (.act (.task ⟨0, Nat.one_pos⟩) 7)] ++ meet ++ meet ++
    [.event (.act (.task ⟨0, Nat.one_pos⟩) 7), .event (.act (.task ⟨0, Nat.one_pos⟩) 7)]

/-- Of the second record of the task only five bytes are there, which are blanks. -/
theorem truncated_record_accepted :
    ¬ WholeRecords (inputRun .stdin 1 2 "    ROOT       0     ".toList twoTurns) ∧
    (inputRun .stdin 1 2 "    ROOT       0     ".toList twoTurns).data.got =
      [(.root, "    ROOT".toList), (.task 0, "       0".toList), (.task 0, "     ".toList)] ∧
    ∀ i, (inputRun .stdin 1 2 "    ROOT       0     ".toList twoTurns).sync.failed i = false := by decide

end PipTestsuite.Seek
