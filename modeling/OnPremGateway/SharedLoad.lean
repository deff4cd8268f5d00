import Mathlib

/-!
# Sharing a load

Participants take part in cells. Each divides every cell it takes part in by the
number of participants it knows of there, itself included. The shares cover what
is taken part in, and they cover it exactly once when everyone knows of all the
others they meet.
-/

set_option autoImplicit false

namespace OnPremGateway.SharedLoad
open Finset

variable {ι κ : Type*} [DecidableEq κ]
variable (E : Finset ι) (cells : ι → Finset κ) (known : ι → Finset ι)

def load (k : κ) : ℕ := (E.filter fun i => k ∈ cells i).card

def seen (i : ι) (k : κ) : ℕ := ((known i).filter fun j => k ∈ cells j).card + 1

def share (i : ι) : ℚ := ∑ k ∈ cells i, (1 : ℚ) / seen cells known i k

def KnowsAll : Prop :=
  ∀ i ∈ E, ∀ j ∈ E, j ≠ i → (∃ k, k ∈ cells i ∧ k ∈ cells j) → j ∈ known i

/-- What is summed by participant may be summed cell by cell. -/
theorem sum_cells (f : ι → κ → ℚ) : ∑ i ∈ E, ∑ k ∈ cells i, f i k =
    ∑ k ∈ E.biUnion cells, ∑ i ∈ E.filter (fun i => k ∈ cells i), f i k := by
  apply sum_comm'
  intro i k
  rw [mem_biUnion, mem_filter]
  constructor
  · rintro ⟨hi,hk⟩
    exact ⟨⟨hi,hk⟩,i,hi,hk⟩
  · rintro ⟨⟨hi,hk⟩,-⟩
    exact ⟨hi,hk⟩

variable {E cells known}

theorem load_ne_zero {k : κ} (hk : k ∈ E.biUnion cells) : (load E cells k : ℚ) ≠ 0 := by
  obtain ⟨i,hi,hik⟩ := mem_biUnion.mp hk
  have hcard : 0 < load E cells k := card_pos.mpr ⟨i,mem_filter.mpr ⟨hi,hik⟩⟩
  exact_mod_cast hcard.ne'

theorem card_eq_sum_load : ((E.biUnion cells).card : ℚ) =
    ∑ k ∈ E.biUnion cells, ∑ _i ∈ E.filter (fun i => k ∈ cells i), (1 : ℚ) / load E cells k := by
  rw [card_eq_sum_ones, Nat.cast_sum]
  apply sum_congr rfl
  intro k hk
  rw [sum_const, nsmul_eq_mul, ← load, mul_one_div_cancel (load_ne_zero hk), Nat.cast_one]

variable [DecidableEq ι]

/-- Those a participant knows of in a cell take part in it, and so does it. -/
theorem seen_eq_card (hknown : ∀ i ∈ E, known i ⊆ E.erase i) {i : ι} (hi : i ∈ E) {k : κ}
    (hk : k ∈ cells i) :
    seen cells known i k = (insert i ((known i).filter fun j => k ∈ cells j)).card ∧
    insert i ((known i).filter fun j => k ∈ cells j) ⊆ E.filter fun j => k ∈ cells j := by
  constructor
  · refine (card_insert_of_notMem fun hself => ?_).symm
    exact notMem_erase i E (hknown i hi (mem_filter.mp hself).1)
  · intro j hj
    rw [mem_insert, mem_filter] at hj
    rw [mem_filter]
    rcases hj with rfl | hj
    · exact ⟨hi,hk⟩
    · exact ⟨mem_of_mem_erase (hknown i hi hj.1),hj.2⟩

/-- A participant knows of all in a cell exactly when it knows of each. -/
theorem seen_eq_load_iff (hknown : ∀ i ∈ E, known i ⊆ E.erase i) {i : ι} (hi : i ∈ E) {k : κ}
    (hk : k ∈ cells i) :
    seen cells known i k = load E cells k ↔ ∀ j ∈ E, j ≠ i → k ∈ cells j → j ∈ known i := by
  obtain ⟨hseen,hsub⟩ := seen_eq_card hknown hi hk
  rw [hseen, load]
  constructor
  · intro hcard j hj hne hjk
    have hmem := eq_of_subset_of_card_le hsub hcard.ge ▸ mem_filter.mpr ⟨hj,hjk⟩
    rw [mem_insert] at hmem
    exact (mem_filter.mp (hmem.resolve_left hne)).1
  · intro hall
    apply congrArg card
    apply Finset.Subset.antisymm hsub
    intro j hj
    rw [mem_filter] at hj
    rw [mem_insert, mem_filter]
    by_cases hji : j = i
    · exact Or.inl hji
    · exact Or.inr ⟨hall j hj.1 hji hj.2,hj.2⟩

/-- The shares are never less than what is taken part in, and no more exactly
when everyone knows of all the others. -/
theorem sum_share_le_iff (hknown : ∀ i ∈ E, known i ⊆ E.erase i) :
    ∑ i ∈ E, share cells known i ≤ ((E.biUnion cells).card : ℚ) ↔ KnowsAll E cells known := by
  have hcell : ∀ k ∈ E.biUnion cells, ∀ i ∈ E.filter (fun i => k ∈ cells i),
      (1 : ℚ) / load E cells k ≤ 1 / seen cells known i k := by
    intro k _ i hi
    obtain ⟨hi,hk⟩ := mem_filter.mp hi
    apply one_div_le_one_div_of_le
    · exact_mod_cast Nat.succ_pos _
    · obtain ⟨hseen,hsub⟩ := seen_eq_card hknown hi hk
      exact_mod_cast hseen.trans_le (card_le_card hsub)
  have hle : ∀ k ∈ E.biUnion cells,
      ∑ _i ∈ E.filter (fun i => k ∈ cells i), (1 : ℚ) / load E cells k ≤
        ∑ i ∈ E.filter (fun i => k ∈ cells i), (1 : ℚ) / seen cells known i k :=
    fun k hk => sum_le_sum (hcell k hk)
  rw [show ∑ i ∈ E, share cells known i = _ from sum_cells E cells _, card_eq_sum_load,
    (sum_le_sum hle).ge_iff_eq, sum_eq_sum_iff_of_le hle]
  constructor
  · intro heq i hi j hj hne ⟨k,hki,hkj⟩
    have hk : k ∈ E.biUnion cells := mem_biUnion.mpr ⟨i,hi,hki⟩
    have hall := (sum_eq_sum_iff_of_le (hcell k hk)).mp (heq k hk)
    have hinv := hall i (mem_filter.mpr ⟨hi,hki⟩)
    rw [one_div, one_div, inv_inj, Nat.cast_inj] at hinv
    exact (seen_eq_load_iff hknown hi hki).mp hinv.symm j hj hne hkj
  · intro hall k hk
    apply sum_congr rfl
    intro i hi
    obtain ⟨hi,hki⟩ := mem_filter.mp hi
    rw [(seen_eq_load_iff hknown hi hki).mpr fun j hj hne hkj => hall i hi j hj hne ⟨k,hki,hkj⟩]

/-- Weights that each divides between all that take part are covered exactly. -/
theorem sum_weighted_share (w : κ → ℚ) :
    ∑ i ∈ E, ∑ k ∈ cells i, w k/(seen cells (fun i => E.erase i) i k : ℚ) = ∑ k ∈ E.biUnion cells, w k := by
  rw [sum_cells]
  apply sum_congr rfl
  intro k hk
  have hload : ∀ i ∈ E.filter (fun i => k ∈ cells i),
      w k/(seen cells (fun i => E.erase i) i k : ℚ) = w k/(load E cells k : ℚ) := by
    intro i hi
    obtain ⟨hi,hki⟩ := mem_filter.mp hi
    rw [(seen_eq_load_iff (fun _ _ => Finset.Subset.rfl) hi hki).mpr fun j hj hne _ =>
      mem_erase.mpr ⟨hne,hj⟩]
  rw [sum_congr rfl hload, sum_const, nsmul_eq_mul, ← load,
    mul_div_cancel₀ _ (load_ne_zero hk)]

end OnPremGateway.SharedLoad
