import Mathlib.Data.Finset.Card
import Mathlib.Data.Nat.Find

/-! # The first free candidate

    Candidates are tried in order until one is free.  If they are all
    different and only finitely many values are taken, one of the first few is
    free, and the search ends there. -/

namespace FirstFree

variable {α : Type} {taken : α → Bool} {f : Nat → α} {k : Nat}

/-- Try at most `fuel` candidates from the `i`-th on, for the number of the
    first one that is free. -/
def search (taken : α → Bool) (f : Nat → α) : Nat → Nat → Option Nat
  | 0, _ => none
  | fuel + 1, i => if taken (f i) then search taken f fuel (i + 1) else some i

/-- The `k`-th candidate is free and those before it are not. -/
structure IsFirst (taken : α → Bool) (f : Nat → α) (k : Nat) : Prop where
  free : taken (f k) = false
  before : ∀ j < k, taken (f j) = true

/-- The search stops at the first free candidate, if it gets that far. -/
theorem IsFirst.search (h : IsFirst taken f k) {fuel i : Nat} (hi : i ≤ k)
    (hfuel : k < i + fuel) : FirstFree.search taken f fuel i = some k := by
  induction fuel generalizing i with
  | zero => exact absurd hfuel (Nat.not_lt.mpr hi)
  | succ fuel ih =>
      rw [FirstFree.search]
      rcases Nat.lt_or_eq_of_le hi with hlt | rfl
      · rw [if_pos (h.before i hlt)]
        exact ih hlt (by omega)
      · rw [if_neg (by rw [h.free]; decide)]

section Finite

variable [DecidableEq α] {s : Finset α}

/-- Of more different candidates than values, one is free. -/
theorem exists_free (hf : Function.Injective f) : ∃ k ≤ s.card, f k ∉ s := by
  have hcard : s.card < ((Finset.range (s.card + 1)).image f).card := by
    rw [Finset.card_image_of_injective _ hf, Finset.card_range]
    exact Nat.lt_succ_self _
  obtain ⟨a, hmem, hfree⟩ := Finset.exists_mem_notMem_of_card_lt_card hcard
  obtain ⟨k, hk, rfl⟩ := Finset.mem_image.mp hmem
  exact ⟨k, Nat.lt_succ_iff.mp (Finset.mem_range.mp hk), hfree⟩

/-- **THE SEARCH ENDS** within one more step than there are taken values. -/
theorem exists_first (hf : Function.Injective f) :
    ∃ k ≤ s.card, IsFirst (fun a => decide (a ∈ s)) f k := by
  obtain ⟨k, hk, hfree⟩ := exists_free (s := s) hf
  have hex : ∃ k, f k ∉ s := ⟨k, hfree⟩
  refine ⟨Nat.find hex, (Nat.find_min' hex hfree).trans hk, ?_, ?_⟩
  · exact decide_eq_false (Nat.find_spec hex)
  · intro j hj
    exact decide_eq_true (not_not.mp (Nat.find_min hex hj))

end Finite

end FirstFree
