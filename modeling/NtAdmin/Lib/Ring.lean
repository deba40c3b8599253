import Mathlib.Data.List.Basic
import Mathlib.Data.Nat.Notation
import Mathlib.Logic.Function.Basic

/-! A queue in a ring of `n` slots, with a cursor at its first element and a count. -/
namespace NtAdmin.Lib

variable {α : Type}

/-- The `count` elements from slot `first` on, oldest first. -/
def ringContents (n : ℕ) (slots : ℕ → α) : ℕ → ℕ → List α
  | _, 0 => []
  | first, count + 1 => slots first :: ringContents n slots ((first + 1) % n) count

theorem length_ringContents (n : ℕ) (slots : ℕ → α) (first count : ℕ) :
    (ringContents n slots first count).length = count := by
  induction count generalizing first with
  | zero => rfl
  | succ count ih => simp [ringContents, ih]

/-- The slots behind the first ones are where the count continues. -/
theorem ring_next (n first i : ℕ) : ((first + 1) % n + i) % n = (first + (i + 1)) % n := by
  rw [Nat.mod_add_mod, Nat.add_assoc, Nat.add_comm 1]

/-- A slot that holds none of the elements can be overwritten. -/
theorem ringContents_update {n : ℕ} (slots : ℕ → α) {first count j : ℕ} (a : α) (hf : first < n)
    (hj : ∀ i < count, (first + i) % n ≠ j) :
    ringContents n (Function.update slots j a) first count = ringContents n slots first count := by
  induction count generalizing first with
  | zero => rfl
  | succ count ih =>
    have hne : first ≠ j := by simpa [Nat.mod_eq_of_lt hf] using hj 0 (Nat.succ_pos count)
    have hrest : ∀ i < count, ((first + 1) % n + i) % n ≠ j := by
      intro i hi
      rw [ring_next]
      exact hj (i + 1) (Nat.succ_lt_succ hi)
    simp only [ringContents]
    rw [Function.update_of_ne hne, ih (Nat.mod_lt _ (Nat.lt_of_le_of_lt (Nat.zero_le _) hf)) hrest]

/-- The slot behind the elements holds none of them while one slot is free. -/
theorem ring_free {n first count i : ℕ} (hc : count < n) (hi : i < count) :
    (first + i) % n ≠ (first + count) % n := by
  intro h
  have hsub : (count - i) % n = 0 := by
    have := Nat.sub_mod_eq_zero_of_mod_eq h.symm
    rwa [Nat.add_sub_add_left] at this
  rw [Nat.mod_eq_of_lt (by omega)] at hsub
  omega

/-- The slot behind the elements becomes the last one. -/
theorem ringContents_succ {n : ℕ} (slots : ℕ → α) {first : ℕ} (count : ℕ) (hf : first < n) :
    ringContents n slots first (count + 1) =
      ringContents n slots first count ++ [slots ((first + count) % n)] := by
  induction count generalizing first with
  | zero => simp [ringContents, Nat.mod_eq_of_lt hf]
  | succ count ih =>
    have hn : (first + 1) % n < n := Nat.mod_lt _ (Nat.lt_of_le_of_lt (Nat.zero_le _) hf)
    rw [ringContents, ih hn, ring_next, ringContents, List.cons_append]

end NtAdmin.Lib
