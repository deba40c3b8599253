import Mathlib.Data.List.Range
import Mathlib.Order.Fin.Basic
import NtAdmin.Wmi.Esscli.SortedArray

/-! Arrays of query ids as sets: searches, insertion, removal and union. -/
namespace NtAdmin.Wmi.Esscli
open Lib

variable {A : ℕ → QueryID} {n : QueryID} {size : ℕ}

/-- The ids ascend, and an array of four-byte ids fits into 32 bits of address space. -/
structure IdSet (ids : ℕ → QueryID) (size : ℕ) : Prop where
  ascending : AscendingTo ids size
  fits : size < 2 ^ 30

/-! ### Searches -/

theorem pred32_eq {k : ℕ} (h : 0 < k) (hk : k < 2 ^ 32) : pred32 k = k - 1 := by
  unfold pred32
  omega

/-- The search ends with the id or between the two that it would come between. -/
theorem searchLoop_spec (fuel : ℕ) {l u : ℕ} (hlu : l < u) (hu : u < 2 ^ 32) (hl : A l < n)
    (hn : n < A u) (hfuel : u - l ≤ fuel) :
    ∃ found l' u' t, searchLoop A n fuel l u = some (found, l', u', t) ∧ u' ≤ u ∧ t ≤ u ∧
      (found = true → A t = n) ∧
      (found = false → A t ≠ n ∧ u' = l' + 1 ∧ A l' < n ∧ n < A u') ∧
      (A t = n → found = true) := by
  induction fuel generalizing l u with
  | zero => omega
  | succ fuel ih =>
    have htl : l ≤ (l + u) / 2 := by omega
    have htu : (l + u) / 2 < u := by omega
    rw [searchLoop]
    by_cases hlt : n < A ((l + u) / 2)
    · have hne : l ≠ (l + u) / 2 := fun heq => lt_asymm hl (heq ▸ hlt)
      simp only [if_pos hlt, pred32_eq (show 0 < (l + u) / 2 by omega) (by omega)]
      split_ifs with hgo
      · obtain ⟨found, l', u', t, hrun, hu', ht, hspec⟩ :=
          ih (show l < (l + u) / 2 by omega) (by omega) hl hlt (by omega)
        exact ⟨found, l', u', t, hrun, by omega, by omega, hspec⟩
      · exact ⟨false, _, _, _, rfl, htu.le, htu.le, nofun,
          fun _ => ⟨hlt.ne', by omega, hl, hlt⟩, fun heq => absurd heq hlt.ne'⟩
    · by_cases hgt : A ((l + u) / 2) < n
      · simp only [if_neg hlt, if_pos hgt, pred32_eq (show 0 < u by omega) hu]
        split_ifs with hgo
        · obtain ⟨found, l', u', t, hrun, hu', ht, hspec⟩ :=
            ih htu hu hgt hn (by omega)
          exact ⟨found, l', u', t, hrun, hu', ht, hspec⟩
        · exact ⟨false, _, _, _, rfl, le_rfl, htu.le, nofun,
            fun _ => ⟨hgt.ne, by omega, hgt, hn⟩, fun heq => absurd heq hgt.ne⟩
      · simp only [if_neg hlt, if_neg hgt]
        have heq : A ((l + u) / 2) = n := le_antisymm (not_lt.mp hlt) (not_lt.mp hgt)
        exact ⟨true, _, _, _, rfl, le_rfl, htu.le, fun _ => heq, nofun, fun _ => rfl⟩

/-- What is between two neighbours is not in the array. -/
theorem not_mem_between (hA : AscendingTo A size) {l : ℕ} (hu : l + 1 < size) (hl : A l < n)
    (hn : n < A (l + 1)) {k : ℕ} (hk : k < size) : A k ≠ n := by
  rintro rfl
  rcases Nat.lt_or_ge l k with hlk | hkl
  · exact absurd (hA.le (show l + 1 ≤ k by omega) hk) (not_le.mpr hn)
  · exact absurd (hA.le hkl (by omega)) (not_le.mpr hl)

theorem findId_spec (h : IdSet A size) (n : QueryID) :
    ∃ i, findId A size n = some i ∧
      (i < size ∧ A i = n ∨ i = InvalidID ∧ ∀ k < size, A k ≠ n) := by
  have hA := h.ascending
  have hfits := h.fits
  unfold findId
  by_cases hsize : size = 0
  · exact ⟨InvalidID, if_pos hsize, Or.inr ⟨rfl, fun k hk => by omega⟩⟩
  rw [if_neg hsize]
  by_cases hlast : n = A (size - 1)
  · exact ⟨_, if_pos hlast, Or.inl ⟨by omega, hlast.symm⟩⟩
  rw [if_neg hlast]
  by_cases hfirst : n = A 0
  · exact ⟨_, if_pos hfirst, Or.inl ⟨by omega, hfirst.symm⟩⟩
  rw [if_neg hfirst]
  by_cases hin : A 0 < n ∧ n < A (size - 1)
  · rw [if_pos hin]
    have hlu : 0 < size - 1 := by
      rcases Nat.eq_zero_or_pos (size - 1) with hzero | hpos
      · rw [hzero] at hin
        exact absurd hin.1 (lt_asymm hin.2)
      · exact hpos
    obtain ⟨found, l, u, t, hrun, hu, ht, htrue, hfalse, -⟩ :=
      searchLoop_spec size hlu (by omega) hin.1 hin.2 (by omega)
    rw [hrun]
    cases found with
    | true => exact ⟨t, rfl, Or.inl ⟨by omega, htrue rfl⟩⟩
    | false =>
      obtain ⟨-, rfl, hl, hn⟩ := hfalse rfl
      exact ⟨InvalidID, rfl, Or.inr ⟨rfl, fun k hk =>
        not_mem_between hA (by omega) hl hn hk⟩⟩
  · rw [if_neg hin]
    refine ⟨InvalidID, rfl, Or.inr ⟨rfl, fun k hk heq => hin ?_⟩⟩
    subst heq
    exact ⟨lt_of_le_of_ne (hA.le (Nat.zero_le k) hk) (Ne.symm hfirst),
      lt_of_le_of_ne (hA.le (show k ≤ size - 1 by omega) (by omega)) hlast⟩

/-! ### Insertion and removal -/

theorem mem_ids {x : QueryID} : x ∈ (List.range size).map A ↔ ∃ k < size, A k = x := by
  simp

namespace CFlexArray
variable {a : CFlexArray} {i : ℕ}

theorem place_apply (hi : i ≤ a.m_nSize) (x : QueryID) {k : ℕ} (hk : k ≤ a.m_nSize) :
    (a.place i x).m_pArray k =
      if k < i then a.m_pArray k else if k = i then x else a.m_pArray (k - 1) := by
  unfold place
  by_cases hlast : i = a.m_nSize
  · simp only [if_pos hlast]
    by_cases hki : k = i
    · rw [hki, ← hlast, Function.update_self, if_neg (lt_irrefl i), if_pos rfl]
    · rw [← hlast, Function.update_of_ne hki, if_pos (by omega)]
  · simp only [if_neg hlast]
    by_cases hki : k = i
    · rw [hki, Function.update_self, if_neg (lt_irrefl i), if_pos rfl]
    · rw [Function.update_of_ne hki, moveMemory]
      by_cases hlt : k < i
      · rw [if_neg (by omega), if_pos hlt]
      · rw [if_pos (by omega), if_neg hlt, if_neg hki]
        congr 1
        omega

theorem place_size (x : QueryID) : (a.place i x).m_nSize = a.m_nSize + 1 := by
  unfold place
  split_ifs <;> rfl

/-- An id comes into the place that it has by its size. -/
theorem place_spec (hA : AscendingTo a.m_pArray a.m_nSize) (hi : i ≤ a.m_nSize)
    (hbelow : ∀ k < i, a.m_pArray k < n) (habove : ∀ k, i ≤ k → k < a.m_nSize → n < a.m_pArray k) :
    AscendingTo (a.place i n).m_pArray (a.place i n).m_nSize ∧
      ∀ x, x ∈ (a.place i n).ids ↔ x ∈ a.ids ∨ x = n := by
  rw [place_size]
  constructor
  · intro k k' hk hk'
    rw [place_apply hi n (by omega), place_apply hi n (by omega)]
    by_cases hki : k < i
    · rw [if_pos hki]
      split_ifs with h₁ h₂
      · exact hA k k' hk (by omega)
      · exact hbelow k hki
      · exact (hbelow k hki).trans (habove (k' - 1) (by omega) (by omega))
    · rw [if_neg hki, if_neg (show ¬k' < i by omega), if_neg (show ¬k' = i by omega)]
      split_ifs with h₂
      · exact habove (k' - 1) (by omega) (by omega)
      · exact hA (k - 1) (k' - 1) (by omega) (by omega)
  · intro x
    unfold ids
    rw [place_size, mem_ids, mem_ids]
    constructor
    · rintro ⟨k, hk, rfl⟩
      rw [place_apply hi n (by omega)]
      split_ifs with h₁ h₂
      · exact Or.inl ⟨k, by omega, rfl⟩
      · exact Or.inr rfl
      · exact Or.inl ⟨k - 1, by omega, rfl⟩
    · rintro (⟨k, hk, rfl⟩ | rfl)
      · by_cases hki : k < i
        · exact ⟨k, by omega, by rw [place_apply hi n (by omega), if_pos hki]⟩
        · refine ⟨k + 1, by omega, ?_⟩
          rw [place_apply hi n (by omega), if_neg (by omega), if_neg (by omega),
            Nat.add_sub_cancel]
      · exact ⟨i, by omega, by rw [place_apply hi x hi, if_neg (lt_irrefl i), if_pos rfl]⟩

end CFlexArray

/-- An element leaves, and the ones behind it move up. -/
theorem ascending_without {A' : ℕ → QueryID} {i : ℕ} (hA : AscendingTo A size) (hi : i < size)
    (hA' : ∀ k < size - 1, A' k = if k < i then A k else A (k + 1)) :
    AscendingTo A' (size - 1) ∧
      ∀ x, x ∈ (List.range (size - 1)).map A' ↔ x ∈ (List.range size).map A ∧ x ≠ A i := by
  have hne : ∀ k < size, k ≠ i → A k ≠ A i := by
    intro k hk hki
    rcases Nat.lt_or_gt_of_ne hki with hlt | hgt
    · exact (hA k i hlt hi).ne
    · exact (hA i k hgt hk).ne'
  constructor
  · intro k k' hk hk'
    rw [hA' k (by omega), hA' k' hk']
    split_ifs
    · exact hA k k' hk (by omega)
    · exact hA k (k' + 1) (by omega) (by omega)
    · omega
    · exact hA (k + 1) (k' + 1) (by omega) (by omega)
  · intro x
    rw [mem_ids, mem_ids]
    constructor
    · rintro ⟨k, hk, rfl⟩
      rw [hA' k hk]
      split_ifs with hki
      · exact ⟨⟨k, by omega, rfl⟩, hne k (by omega) (by omega)⟩
      · exact ⟨⟨k + 1, by omega, rfl⟩, hne (k + 1) (by omega) (by omega)⟩
    · rintro ⟨⟨k, hk, rfl⟩, hxi⟩
      have hki : k ≠ i := fun heq => hxi (by rw [heq])
      rcases Nat.lt_or_gt_of_ne hki with hlt | hgt
      · exact ⟨k, by omega, by rw [hA' k (by omega), if_pos hlt]⟩
      · refine ⟨k - 1, by omega, ?_⟩
        rw [hA' (k - 1) (by omega), if_neg (by omega), Nat.sub_add_cancel (by omega)]

theorem removeAt_spec {a : CFlexArray} (hA : AscendingTo a.m_pArray a.m_nSize) {i : ℕ}
    (hi : i < a.m_nSize) :
    AscendingTo (a.removeAt i).m_pArray (a.removeAt i).m_nSize ∧
      ∀ x, x ∈ (a.removeAt i).ids ↔ x ∈ a.ids ∧ x ≠ a.m_pArray i := by
  have hrun : a.removeAt i = { a with
      m_pArray := Function.update (moveMemory a.m_pArray i (i + 1) (a.m_nSize - i - 1))
        (a.m_nSize - 1) 0
      m_nSize := a.m_nSize - 1 } := if_neg (by omega)
  rw [hrun]
  refine ascending_without hA hi fun k hk => ?_
  simp only [Function.update_of_ne (show k ≠ a.m_nSize - 1 by omega), moveMemory]
  split_ifs with h₁ h₂ h₂
  · omega
  · congr 1
    omega
  · rfl
  · omega

end NtAdmin.Wmi.Esscli
