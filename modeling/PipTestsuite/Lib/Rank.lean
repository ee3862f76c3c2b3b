import Mathlib.Tactic

/-! The members of a finite set by their rank, the number of members below. -/
namespace Rank
variable {α : Type*} [LinearOrder α] {s : Finset α} {a b : α}

def rank (s : Finset α) (a : α) : ℕ := (s.filter (· < a)).card

lemma rank_lt_rank (ha : a ∈ s) (hab : a < b) : rank s a < rank s b := by
  refine Finset.card_lt_card (Finset.ssubset_iff_of_subset (fun c hc => ?_) |>.mpr ⟨a, ?_, ?_⟩)
  · rw [Finset.mem_filter] at hc ⊢
    exact ⟨hc.1, hc.2.trans hab⟩
  · exact Finset.mem_filter.mpr ⟨ha, hab⟩
  · simp

lemma rank_injOn : Set.InjOn (rank s) s := by
  intro a ha b hb hab
  obtain h | h | h := lt_trichotomy a b
  · exact absurd hab (rank_lt_rank ha h).ne
  · exact h
  · exact absurd hab (rank_lt_rank hb h).ne'

lemma rank_lt_card (ha : a ∈ s) : rank s a < s.card :=
  Finset.card_lt_card (Finset.filter_ssubset.mpr ⟨a, ha, lt_irrefl a⟩)

/-- Each rank below the number of members is that of a member. -/
lemma exists_rank_eq {k : ℕ} (hk : k < s.card) : ∃ a ∈ s, rank s a = k := by
  have himage : s.image (rank s) = Finset.range s.card := by
    refine Finset.eq_of_subset_of_card_le (fun k hk => ?_) ?_
    · obtain ⟨a, ha, rfl⟩ := Finset.mem_image.mp hk
      exact Finset.mem_range.mpr (rank_lt_card ha)
    · rw [Finset.card_range, Finset.card_image_of_injOn rank_injOn]
  simpa using himage.ge (Finset.mem_range.mpr hk)

lemma rank_succ {s : Finset ℕ} (i : ℕ) : rank s (i + 1) = rank s i + if i ∈ s then 1 else 0 := by
  have hsplit : s.filter (· < i + 1) = s.filter (· < i) ∪ s.filter (· = i) := by
    ext c
    simp only [Finset.mem_filter, Finset.mem_union, Order.lt_add_one_iff, le_iff_lt_or_eq, and_or_left]
  rw [rank, hsplit, Finset.card_union_of_disjoint, Finset.filter_eq', rank]
  · split <;> rfl
  · exact Finset.disjoint_filter.mpr fun c _ hlt heq => by omega

lemma rank_zero {s : Finset ℕ} : rank s 0 = 0 := by simp [rank]

/-- Of n consecutive numbers each remainder modulo n is that of one. -/
lemma existsUnique_mod {n r : ℕ} (hr : r < n) (a : ℕ) : ∃! k, k ∈ Finset.Ico a (a + n) ∧ k % n = r := by
  obtain ⟨k, hk, hmod⟩ := Finset.mem_image.mp ((Nat.image_Ico_mod a n).ge (Finset.mem_range.mpr hr))
  refine ⟨k, ⟨hk, hmod⟩, fun k' hk' => Nat.mod_injOn_Ico a n hk'.1 hk ?_⟩
  exact hk'.2.trans hmod.symm

/-- Of n consecutive numbers, for n members, each member has the rank of one modulo n. -/
lemma existsUnique_rank (ha : a ∈ s) (start : ℕ) :
    ∃! k, k ∈ Finset.Ico start (start + s.card) ∧ rank s a = k % s.card := by
  simpa only [eq_comm] using existsUnique_mod (rank_lt_card ha) start

end Rank
