import Mathlib.Tactic

/-! A ledger of allocated things: each live one is in just one of finitely many cells, and none that has been
freed comes back. -/
namespace Ledger
variable {ι ρ : Type*}

/-- The cells hold just the live things, each one in one place. -/
structure Kept (cells : Finset ι) (cell : ι → Option ρ) (live freed : Finset ρ) : Prop where
  mem_live : ∀ r, r ∈ live ↔ ∃ i ∈ cells, cell i = some r
  inj : ∀ i ∈ cells, ∀ j ∈ cells, ∀ r, cell i = some r → cell j = some r → i = j
  not_live : ∀ r ∈ freed, r ∉ live

variable {cells : Finset ι} {cell : ι → Option ρ} {live freed : Finset ρ} {i : ι} {r : ρ}

lemma kept_empty (cells : Finset ι) : Kept cells (fun _ => none) (∅ : Finset ρ) ∅ where
  mem_live := by simp
  inj := by simp
  not_live := by simp

/-- A new thing goes to an empty cell. -/
lemma Kept.allocate [DecidableEq ι] [DecidableEq ρ] (h : Kept cells cell live freed) (hi : i ∈ cells)
    (hcell : cell i = none) (hlive : r ∉ live) (hfreed : r ∉ freed) : Kept cells (Function.update cell i (some r)) (insert r live) freed where
  mem_live r' := by
    rw [Finset.mem_insert, h.mem_live]
    constructor
    · rintro (rfl | ⟨j, hj, hr'⟩)
      · exact ⟨i, hi, by simp⟩
      · refine ⟨j, hj, ?_⟩
        rw [Function.update_of_ne, hr']
        rintro rfl
        rw [hcell] at hr'
        cases hr'
    · rintro ⟨j, hj, hr'⟩
      obtain rfl | hne := eq_or_ne j i
      · rw [Function.update_self] at hr'
        exact .inl (Option.some.inj hr').symm
      · rw [Function.update_of_ne hne] at hr'
        exact .inr ⟨j, hj, hr'⟩
  inj j hj k hk r' hjr hkr := by
    have hold : ∀ j ∈ cells, j ≠ i → Function.update cell i (some r) j = some r' → cell j = some r' ∧ r' ∈ live := by
      intro j hj hne hr'
      rw [Function.update_of_ne hne] at hr'
      exact ⟨hr', (h.mem_live r').mpr ⟨j, hj, hr'⟩⟩
    have hnew : ∀ j, j = i → Function.update cell i (some r) j = some r' → r = r' := by
      rintro j rfl hr'
      rw [Function.update_self] at hr'
      exact Option.some.inj hr'
    by_cases hji : j = i <;> by_cases hki : k = i
    · exact hji.trans hki.symm
    · exact absurd (hnew j hji hjr ▸ (hold k hk hki hkr).2) hlive
    · exact absurd (hnew k hki hkr ▸ (hold j hj hji hjr).2) hlive
    · exact h.inj j hj k hk r' (hold j hj hji hjr).1 (hold k hk hki hkr).1
  not_live r' hr' := by
    rw [Finset.mem_insert, not_or]
    refine ⟨?_, h.not_live r' hr'⟩
    rintro rfl
    exact hfreed hr'

/-- The thing in a cell is freed. -/
lemma Kept.free [DecidableEq ι] [DecidableEq ρ] (h : Kept cells cell live freed) (hi : i ∈ cells)
    (hcell : cell i = some r) : Kept cells (Function.update cell i none) (live.erase r) (insert r freed) where
  mem_live r' := by
    rw [Finset.mem_erase, h.mem_live]
    constructor
    · rintro ⟨hne, j, hj, hr'⟩
      refine ⟨j, hj, ?_⟩
      rw [Function.update_of_ne, hr']
      rintro rfl
      exact hne (Option.some.inj (hr'.symm.trans hcell))
    · rintro ⟨j, hj, hr'⟩
      have hne : j ≠ i := by
        rintro rfl
        simp at hr'
      rw [Function.update_of_ne hne] at hr'
      refine ⟨?_, j, hj, hr'⟩
      rintro rfl
      exact hne (h.inj j hj i hi r' hr' hcell)
  inj j hj k hk r' hjr hkr := by
    have hold : ∀ j, Function.update cell i none j = some r' → cell j = some r' := by
      intro j hr'
      have hne : j ≠ i := by
        rintro rfl
        simp at hr'
      rwa [Function.update_of_ne hne] at hr'
    exact h.inj j hj k hk r' (hold j hjr) (hold k hkr)
  not_live r' hr' := by
    rw [Finset.mem_erase, not_and]
    intro hne
    exact h.not_live r' ((Finset.mem_insert.mp hr').resolve_left hne)

/-- With a thing in each cell there are as many as cells. -/
lemma Kept.card_live [DecidableEq ρ] (h : Kept cells cell live freed) (hall : ∀ i ∈ cells, ∃ r, cell i = some r) :
    live.card = cells.card := by
  have himage : live.map Function.Embedding.some = cells.image cell := by
    ext o
    simp only [Finset.mem_map, Finset.mem_image, Function.Embedding.some_apply]
    constructor
    · rintro ⟨r, hr, rfl⟩
      exact (h.mem_live r).mp hr
    · rintro ⟨i, hi, rfl⟩
      obtain ⟨r, hr⟩ := hall i hi
      exact ⟨r, (h.mem_live r).mpr ⟨i, hi, hr⟩, hr.symm⟩
  rw [← Finset.card_map Function.Embedding.some, himage, Finset.card_image_of_injOn]
  intro i hi j hj heq
  obtain ⟨r, hr⟩ := hall i hi
  exact h.inj i hi j hj r hr (heq ▸ hr)

end Ledger
