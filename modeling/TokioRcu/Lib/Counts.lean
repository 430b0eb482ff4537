import Mathlib.Data.Finset.Card

/-!
# Counters

A counter that is incremented by everyone who acquires something and
decremented by everyone who gives it up counts those who have it, however many
could. A counter that wraps tells two moments apart until it has come round.
-/

namespace Lib

theorem eq_of_mod_eq {a b m : Nat} (h : a % m = b % m) (hle : b ≤ a) (hlt : a < b + m) : a = b := by
  have hsub : (a - b) % m = 0 := Nat.sub_mod_eq_zero_of_mod_eq h
  rw [Nat.mod_eq_of_lt (by omega)] at hsub
  omega

/-- Exactly `n` satisfy `p`. -/
def Counts {ι : Type*} (n : Nat) (p : ι → Prop) : Prop :=
  ∃ s : Finset ι, (∀ i, i ∈ s ↔ p i) ∧ s.card = n

namespace Counts

variable {ι : Type*} {n : Nat} {p q : ι → Prop} {i : ι}

theorem zero (h : ∀ i, ¬ p i) : Counts 0 p :=
  ⟨∅, fun i => by simp [h i], Finset.card_empty⟩

theorem congr (h : Counts n p) (hq : ∀ i, q i ↔ p i) : Counts n q := by
  obtain ⟨s, hs, hn⟩ := h
  exact ⟨s, fun i => (hs i).trans (hq i).symm, hn⟩

theorem pos (h : Counts n p) (hi : p i) : 0 < n := by
  obtain ⟨s, hs, rfl⟩ := h
  exact Finset.card_pos.mpr ⟨i, (hs i).mpr hi⟩

theorem add [DecidableEq ι] (h : Counts n p) (hi : ¬ p i) (hq : ∀ j, q j ↔ j = i ∨ p j) :
    Counts (n + 1) q := by
  obtain ⟨s, hs, rfl⟩ := h
  refine ⟨insert i s, fun j => ?_, Finset.card_insert_of_notMem fun hm => hi ((hs i).mp hm)⟩
  rw [Finset.mem_insert, hs j, hq j]

theorem remove [DecidableEq ι] (h : Counts n p) (hi : p i) (hq : ∀ j, q j ↔ j ≠ i ∧ p j) :
    Counts (n - 1) q := by
  obtain ⟨s, hs, rfl⟩ := h
  refine ⟨s.erase i, fun j => ?_, Finset.card_erase_of_mem ((hs i).mpr hi)⟩
  rw [Finset.mem_erase, hs j, hq j]

end Counts
end Lib
