import PipTestsuite.ExitCode
import PipTestsuite.Lib.CBuffer

/-! signal_number of include/test.h: the number of a signal by its name, which is copied to a small buffer. -/
namespace PipTestsuite.SignalNumber
open CBuffer

/-- SIGNAM_LEN -/
def signamLen : ℕ := 16

/-- The bytes of an ASCII string. -/
def bytes (s : String) : List UInt8 := s.toList.map fun c => UInt8.ofNat c.toNat

/-- The entries of signam_tab in front of NULL. -/
def signamTab : List (List UInt8) :=
  ["(signal0)", "SIGHUP", "SIGINT", "SIGQUIT", "SIGILL", "SIGTRAP", "SIGABRT", "SIGBUS", "SIGFPE", "SIGKILL",
   "SIGUSR1", "SIGSEGV", "SIGUSR2", "SIGPIPE", "SIGALRM", "SIGTERM", "SIGSTKFLT", "SIGCHLD", "SIGCONT", "SIGSTOP",
   "SIGTSTP", "SIGTTIN", "SIGTTOU", "SIGURG", "SIGXCPU", "SIGXFSZ", "SIGVTALRM", "SIGPROF", "SIGWINCH", "SIGIO",
   "SIGPWR", "SIGSYS"].map bytes

def sig : List UInt8 := bytes "SIG"

/-- The loop of signal_number over the rest of signam_tab, from entry i on. -/
def search (name : Buffer) : ℕ → List (List UInt8) → Option ℤ
  | _, [] => some (-1)
  | i, entry :: tab => do
    if ← strcasecmp name (object entry) then some i else search name (i + 1) tab

/-- name, filled from signame; there is none where it is left. -/
def copyName (signame : List UInt8) : Option Buffer := do
  let name := List.replicate signamLen none
  if ← strncasecmp 3 (object signame) (object sig) then strncpy signamLen name 0 (object signame)
  else do
    let (name, p) ← stpcpy name 0 (object sig)
    strncpy (signamLen - 3) name p (object signame)

/-- There is no result where a buffer is left. -/
def signalNumber (signame : CString) : Option ℤ := do
  let name ← copyName signame
  search name 0 signamTab

/-- The string with SIG in front, unless it starts with it in any letter case. -/
def full (s : List UInt8) : List UInt8 := if fold (s.take 3) = fold sig then s else sig ++ s

lemma entries_short : ∀ entry ∈ signamTab, entry.length < signamLen := by
  have h : (signamTab.all fun entry => entry.length < signamLen) = true := by decide
  simpa using h

lemma entries_nul : ∀ entry ∈ signamTab, 0 ∉ entry := by
  have h : (signamTab.all fun entry => 0 ∉ entry) = true := by decide
  simpa using h

lemma entries_nodup : (signamTab.map fold).Nodup := by decide

section Copy
variable {s : List UInt8}

lemma nul_full (hs : 0 ∉ s) : 0 ∉ full s := by
  rw [full]
  split_ifs
  · exact hs
  · rw [List.mem_append, not_or]
    exact ⟨by decide, hs⟩

/-- name holds the first bytes of the full string, whichever way they get there. -/
lemma copyName_eq (hs : 0 ∉ s) : copyName s = some ((padded signamLen (full s)).map some) := by
  have hcompare : strncasecmp 3 (object s) (object sig) = some (decide (fold (s.take 3) = fold sig)) :=
    strncasecmp_object hs (by decide)
  have hempty : (List.replicate signamLen (none : Option UInt8)).length = signamLen := List.length_replicate
  simp only [copyName, Option.bind_eq_bind, hcompare, Option.bind_some]
  by_cases hprefix : fold (s.take 3) = fold sig
  · rw [if_pos (decide_eq_true hprefix), full, if_pos hprefix, strncpy_object hs (by rw [hempty, Nat.zero_add]),
      overwritten]
    simp
  · have hstart : stpcpy (List.replicate signamLen none) 0 (object sig) =
        some (overwritten (List.replicate signamLen none) 0 (sig ++ [0]), 3) :=
      stpcpy_object (by decide) (by rw [hempty]; decide)
    have hlength : (overwritten (List.replicate signamLen none) 0 (sig ++ [0])).length = 16 := rfl
    rw [if_neg (by simpa using hprefix), full, if_neg hprefix, hstart, Option.bind_some]
    dsimp only
    have hstarted : (overwritten (List.replicate signamLen none) 0 (sig ++ [0])).take 3 = sig.map some := rfl
    have hpadded : padded signamLen (sig ++ s) = sig ++ padded (signamLen - 3) s := by
      simp [sig, bytes, signamLen]
    rw [strncpy_object hs (by rw [hlength]; decide), overwritten, padded_length, hstarted, hpadded, List.map_append,
      List.drop_eq_nil_of_le (by rw [hlength]; decide), List.append_nil]

lemma fold_full_take (s : List UInt8) : (fold (full s)).take 3 = fold sig := by
  rw [full]
  split_ifs with h
  · rw [← h, fold, fold, List.map_take]
  · rfl

end Copy

/-- The search gives the number of an entry that is equal to the string, or -1 where there is none. -/
lemma search_eq {n : ℕ} {s : List UInt8} (hs : 0 ∉ s) (i : ℕ) (tab : List (List UInt8))
    (hshort : ∀ entry ∈ tab, entry.length < n) (hnul : ∀ entry ∈ tab, 0 ∉ entry) :
    ((∀ entry ∈ tab, fold s ≠ fold entry) ∧ search ((padded n s).map some) i tab = some (-1)) ∨
      ∃ j entry, tab[j]? = some entry ∧ fold s = fold entry ∧
        search ((padded n s).map some) i tab = some ((i + j : ℕ) : ℤ) := by
  induction tab generalizing i with
  | nil => exact .inl ⟨by simp, rfl⟩
  | cons entry tab ih =>
    rw [List.forall_mem_cons] at hshort hnul
    rw [search, strcasecmp_padded hs hnul.1 hshort.1, Option.bind_eq_bind, Option.bind_some]
    by_cases heq : fold s = fold entry
    · exact .inr ⟨0, entry, rfl, heq, by simp [heq]⟩
    · simp only [heq, decide_false, Bool.false_eq_true, if_false]
      obtain ⟨hno, hsearch⟩ | ⟨j, entry', hj, heq', hsearch⟩ := ih (i + 1) hshort.2 hnul.2
      · exact .inl ⟨List.forall_mem_cons.mpr ⟨heq, hno⟩, hsearch⟩
      · refine .inr ⟨j + 1, entry', hj, heq', ?_⟩
        rw [hsearch]
        congr 2
        omega

/-- signal_number never leaves its buffer, and gives the number of the entry that the string, with SIG in front,
is equal to apart from letter case. -/
theorem signalNumber_exact (signame : CString) :
    ∃ r, signalNumber signame = some r ∧
      (∀ (i : ℕ) (entry : List UInt8), signamTab[i]? = some entry → (r = i ↔ fold (full signame) = fold entry)) ∧
      (r = -1 ↔ ∀ entry ∈ signamTab, fold (full signame) ≠ fold entry) ∧ r ≠ 0 := by
  obtain ⟨s, hs⟩ := signame
  have hnumber : signalNumber ⟨s, hs⟩ = search ((padded signamLen (full s)).map some) 0 signamTab := by
    rw [signalNumber, copyName_eq hs, Option.bind_eq_bind, Option.bind_some]
  rw [hnumber]
  obtain ⟨hno, hsearch⟩ | ⟨j, entry, hj, heq, hsearch⟩ :=
    search_eq (n := signamLen) (nul_full hs) 0 signamTab entries_short entries_nul
  · refine ⟨-1, hsearch, fun i entry hi => iff_of_false (by omega) (hno entry (List.mem_of_getElem? hi)), ?_, by omega⟩
    exact iff_of_true rfl hno
  · rw [Nat.zero_add] at hsearch
    refine ⟨j, hsearch, fun i entry' hi => ⟨fun h => ?_, fun h => ?_⟩, iff_of_false (by omega) fun hno => ?_, ?_⟩
    · obtain rfl : j = i := by exact_mod_cast h
      rw [heq, Option.some.inj (hj.symm.trans hi)]
    · have hsame : (signamTab.map fold)[j]? = (signamTab.map fold)[i]? := by
        rw [List.getElem?_map, List.getElem?_map, hj, hi, Option.map_some, Option.map_some, ← heq, h]
      have hlt : j < (signamTab.map fold).length := by
        rw [List.length_map]
        exact (List.getElem?_eq_some_iff.mp hj).1
      rw [(List.getElem?_inj hlt entries_nodup).mp hsame]
    · exact hno entry (List.mem_of_getElem? hj) heq
    · rw [Nat.cast_ne_zero]
      rintro rfl
      have hfirst : entry = bytes "(signal0)" := (Option.some.inj hj).symm
      have htake := fold_full_take s
      rw [heq, hfirst] at htake
      exact absurd htake (by decide)

end PipTestsuite.SignalNumber
