import PipTestsuite.TimerScale

/-! my_read and my_write of basics/seek.c: loops of short transfers between a descriptor and a buffer. -/
namespace PipTestsuite.SeekTransfer
open Timer (toInt toInt_eq_self toInt_range)

/-- The results of the underlying calls, by their order and the count that they request. -/
structure Results where
  result : ℕ → ℤ → ℤ
  short : ∀ k l, 0 < l → result k l = -1 ∨ result k l = 0 ∨ (1 ≤ result k l ∧ result k l ≤ l)

/-- A call of read() or write(): where in the buffer, the count it requests, and its result. -/
structure Call where
  offset : ℕ
  requested : ℤ
  cc : ℤ
  deriving DecidableEq

/-- What my_read or my_write returns, and its calls. -/
structure Transfer where
  ret : ℤ
  calls : List Call
  deriving DecidableEq

/-- A call before a transfer. -/
def Transfer.after (rest : Transfer) (c : Call) : Transfer := ⟨rest.ret, c :: rest.calls⟩

/-- The loop with p - buff and l, from the k-th call on. The comparison of l with len is one of size_t values. -/
def transferLoop (call : ℕ → ℤ → ℤ) (len k p : ℕ) (l : ℤ) : Transfer :=
  if 0 < l then
    let cc := call k l
    if cc ≤ 0 then ⟨if l % 2 ^ 64 = len then cc else toInt p, [⟨p, l, cc⟩]⟩
    else (transferLoop call len (k + 1) (p + cc.toNat) (l - cc)).after ⟨p, l, cc⟩
  else ⟨toInt p, []⟩
termination_by l.toNat

/-- int l = len -/
def transfer (call : ℕ → ℤ → ℤ) (len : ℕ) : Transfer := transferLoop call len 0 0 (toInt len)

def myRead (read : Results) (len : ℕ) : Transfer := transfer read.result len
def myWrite (write : Results) (len : ℕ) : Transfer := transfer write.result len

/-- How many bytes a call transfers, and which of the buffer. -/
def Call.count (c : Call) : ℕ := c.cc.toNat
def Call.bytes (c : Call) : List ℕ := List.range' c.offset c.count

def Transfer.total (t : Transfer) : ℕ := (t.calls.map Call.count).sum

/-- The transfer of a buffer is exact. -/
structure Exact (len : ℕ) (t : Transfer) : Prop where
  terminates : t.calls.length ≤ len
  inside : ∀ c ∈ t.calls, 0 < c.requested ∧ c.offset + c.requested ≤ len
  consecutive : t.calls.flatMap Call.bytes = List.range t.total
  returned : 0 < t.ret ∨ 0 < t.total → t.ret = t.total
  first : t.ret ≤ 0 ↔ ∃ c ∈ t.calls.head?, c.cc ≤ 0

@[simp] lemma Transfer.after_ret (rest : Transfer) (c : Call) : (rest.after c).ret = rest.ret := rfl

@[simp] lemma Transfer.after_calls (rest : Transfer) (c : Call) : (rest.after c).calls = c :: rest.calls := rfl

@[simp] lemma Transfer.after_total (rest : Transfer) (c : Call) :
    (rest.after c).total = c.count + rest.total := List.sum_cons

section Loop
variable {call : ℕ → ℤ → ℤ} {len k p : ℕ} {l : ℤ}

lemma transferLoop_failed (hl : 0 < l) (hcc : call k l ≤ 0) : transferLoop call len k p l =
    ⟨if l % 2 ^ 64 = len then call k l else toInt p, [⟨p, l, call k l⟩]⟩ := by
  rw [transferLoop, if_pos hl, if_pos hcc]

lemma transferLoop_goes_on (hl : 0 < l) (hcc : ¬ call k l ≤ 0) : transferLoop call len k p l =
    (transferLoop call len (k + 1) (p + (call k l).toNat) (l - call k l)).after ⟨p, l, call k l⟩ := by
  rw [transferLoop, if_pos hl, if_neg hcc]

/-- Each request is for all that is left: p and l stay complementary. -/
lemma transferLoop_requested : ∀ c ∈ (transferLoop call len k p l).calls,
    0 < c.requested ∧ c.offset + c.requested = p + l := by
  fun_induction transferLoop with
  | case1 k p l hl cc hcc =>
    intro c hc
    rw [List.mem_singleton] at hc
    subst hc
    exact ⟨hl, rfl⟩
  | case2 k p l hl cc hcc ih =>
    intro c hc
    rcases List.mem_cons.mp hc with rfl | hrest
    · exact ⟨hl, rfl⟩
    · obtain ⟨hpos, hsum⟩ := ih c hrest
      exact ⟨hpos, by omega⟩
  | case3 k p l hl => simp

lemma Call.count_failed {cc : ℤ} (h : cc ≤ 0) : Call.count ⟨p, l, cc⟩ = 0 := Int.toNat_of_nonpos h

lemma transferLoop_bytes : (transferLoop call len k p l).calls.flatMap Call.bytes =
    List.range' p (transferLoop call len k p l).total := by
  fun_induction transferLoop with
  | case1 k p l hl cc hcc => simp [Transfer.total, Call.bytes, Call.count_failed hcc]
  | case2 k p l hl cc hcc ih =>
    rw [Transfer.after_calls, List.flatMap_cons, ih, Transfer.after_total]
    exact List.range'_append_1
  | case3 k p l hl => rfl

lemma transferLoop_length : (transferLoop call len k p l).calls.length ≤ l.toNat := by
  fun_induction transferLoop with
  | case1 k p l hl cc hcc =>
    rw [List.length_singleton]
    omega
  | case2 k p l hl cc hcc ih =>
    have hless : (l - cc).toNat < l.toNat := by omega
    exact Nat.succ_le_of_lt (ih.trans_lt hless)
  | case3 k p l hl => simp

/-- After a transfer, l is not len, and the loop returns what it has transferred even if a call fails. -/
lemma transferLoop_ret (hshort : ∀ k l, 0 < l → call k l ≤ l) (hp : 0 < p) (hlen : p + l ≤ len)
    (hint : p + l < 2 ^ 31) (hnonneg : 0 ≤ l) :
    (transferLoop call len k p l).ret = p + (transferLoop call len k p l).total := by
  fun_induction transferLoop with
  | case1 k p l hl cc hcc =>
    have hne : l % 2 ^ 64 ≠ len := by omega
    rw [if_neg hne, toInt_eq_self (by omega) (by omega)]
    simp [Transfer.total, Call.count_failed hcc]
  | case2 k p l hl cc hcc ih =>
    have hle : cc ≤ l := hshort k l hl
    rw [Transfer.after_ret, Transfer.after_total, ih (by omega) (by omega) (by omega) (by omega), Call.count]
    push_cast
    ring
  | case3 k p l hl =>
    rw [toInt_eq_self (by omega) (by omega)]
    simp [Transfer.total]

end Loop

section Transfer
variable {call : ℕ → ℤ → ℤ} {len : ℕ}

lemma toInt_pos_iff : 0 < toInt len ↔ 0 < len % 2 ^ 32 ∧ len % 2 ^ 32 < 2 ^ 31 := by
  rw [toInt, Int.bmod_def]
  split <;> omega

lemma toInt_le (hlen : 0 < toInt len) : toInt len ≤ len := by
  rw [toInt, Int.bmod_def] at *
  split at hlen <;> omega

lemma toInt_zero : toInt (0 : ℕ) = 0 := toInt_eq_self (by norm_num) (by norm_num)

/-- A length that is no count to an int: there is no call. -/
lemma transfer_no_call (hlen : ¬ 0 < toInt len) : transfer call len = ⟨0, []⟩ := by
  rw [transfer, transferLoop, if_neg hlen, toInt_zero]

/-- The first call fails: its result is returned, or 0 where len is more than l. -/
lemma transfer_first_failed (hlen : 0 < toInt len) (hcc : call 0 (toInt len) ≤ 0) : transfer call len =
    ⟨if toInt len % 2 ^ 64 = len then call 0 (toInt len) else 0, [⟨0, toInt len, call 0 (toInt len)⟩]⟩ := by
  rw [transfer, transferLoop_failed hlen hcc, toInt_zero]

/-- The first call succeeds. -/
lemma transfer_first_done (hlen : 0 < toInt len) (hcc : 0 < call 0 (toInt len)) :
    transfer call len = (transferLoop call len 1 (call 0 (toInt len)).toNat (toInt len - call 0 (toInt len))).after
      ⟨0, toInt len, call 0 (toInt len)⟩ := by
  rw [transfer, transferLoop_goes_on hlen hcc.not_ge, Nat.zero_add, Nat.zero_add]

lemma transfer_ret (hshort : ∀ k l, 0 < l → call k l ≤ l) (hlen : 0 < toInt len) (hcc : 0 < call 0 (toInt len)) :
    (transfer call len).ret = (transfer call len).total := by
  have hle := toInt_le hlen
  have hint := (toInt_range len).2
  have hfirst := hshort 0 _ hlen
  rw [transfer_first_done hlen hcc, Transfer.after_ret, Transfer.after_total, Nat.cast_add]
  exact transferLoop_ret hshort (by omega) (by omega) (by omega) (by omega)

/-- The loop is exact for each length that is a count to an int. -/
lemma transfer_exact (hshort : ∀ k l, 0 < l → call k l ≤ l) (hlen : 0 < toInt len) :
    Exact len (transfer call len) := by
  have hle := toInt_le hlen
  have hbytes : (transfer call len).calls.flatMap Call.bytes = List.range (transfer call len).total := by
    rw [List.range_eq_range']
    exact transferLoop_bytes
  have hlength : (transfer call len).calls.length ≤ len := transferLoop_length.trans (by omega)
  have hinside : ∀ c ∈ (transfer call len).calls, 0 < c.requested ∧ c.offset + c.requested ≤ len := fun c hc => by
    have hreq := transferLoop_requested c hc
    exact ⟨hreq.1, by omega⟩
  rcases le_or_gt (call 0 (toInt len)) 0 with hcc | hcc
  · have heq := transfer_first_failed hlen hcc
    have htotal : (transfer call len).total = 0 := by simp [heq, Transfer.total, Call.count_failed hcc]
    have hret : (transfer call len).ret ≤ 0 := by
      rw [heq]
      split_ifs
      · exact hcc
      · exact le_rfl
    refine ⟨hlength, hinside, hbytes, fun h => by omega, iff_of_true hret ?_⟩
    exact ⟨⟨0, toInt len, call 0 (toInt len)⟩, by rw [heq]; rfl, hcc⟩
  · have hret := transfer_ret hshort hlen hcc
    have htotal : 0 < (transfer call len).total := by
      rw [transfer_first_done hlen hcc, Transfer.after_total]
      exact Nat.add_pos_left (Int.pos_iff_toNat_pos.mp hcc) _
    refine ⟨hlength, hinside, hbytes, fun _ => hret, iff_of_false (by omega) ?_⟩
    rw [transfer_first_done hlen hcc, Transfer.after_calls]
    simpa using hcc

lemma exact_iff (hshort : ∀ k l, 0 < l → call k l ≤ l) :
    Exact len (transfer call len) ↔ 0 < len % 2 ^ 32 ∧ len % 2 ^ 32 < 2 ^ 31 := by
  rw [← toInt_pos_iff]
  constructor
  · intro h
    by_contra hlen
    rw [transfer_no_call hlen] at h
    simpa using h.first.mp le_rfl
  · exact transfer_exact hshort

end Transfer

lemma Results.result_le (r : Results) (k : ℕ) (l : ℤ) (hl : 0 < l) : r.result k l ≤ l := by
  rcases r.short k l hl with h | h | h <;> omega

/-- my_read and my_write are exact for just the lengths that are positive as an int. -/
theorem transfer_exact_iff (read write : Results) (len : ℕ) :
    (Exact len (myRead read len) ↔ 0 < len % 2 ^ 32 ∧ len % 2 ^ 32 < 2 ^ 31) ∧
    (Exact len (myWrite write len) ↔ 0 < len % 2 ^ 32 ∧ len % 2 ^ 32 < 2 ^ 31) :=
  ⟨exact_iff read.result_le, exact_iff write.result_le⟩

/-- Each call transfers one byte. -/
def single : Results where
  result _ _ := 1
  short _ _ hl := .inr (.inr ⟨le_rfl, hl⟩)

/-- A buffer of 2 GiB: neither loop makes a call, and 0 is returned without one. -/
theorem not_exact_twoGiB : myRead single (2 ^ 31) = ⟨0, []⟩ ∧ ¬ Exact (2 ^ 31) (myRead single (2 ^ 31)) ∧
    ¬ Exact (2 ^ 31) (myWrite single (2 ^ 31)) := by
  have hlen : ¬ 0 < toInt (2 ^ 31 : ℕ) := by
    rw [toInt_pos_iff]
    norm_num
  have hnot : ¬ Exact (2 ^ 31) (transfer single.result (2 ^ 31)) := by
    rw [exact_iff single.result_le]
    norm_num
  exact ⟨transfer_no_call hlen, hnot, hnot⟩

end PipTestsuite.SeekTransfer
