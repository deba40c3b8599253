import Mathlib.Data.Int.Order.Basic
import Mathlib.Data.List.Pairwise
import Mathlib.Order.Basic
import Mathlib.Order.Lattice

/-! Two ascending sequences merged from their ends, by a comparison that need not tell the order. -/
namespace NtAdmin.Lib

variable {α : Type} (cmp : α → α → ℤ) (A B : ℕ → α)

/-- The first `i` elements of `A` and `j` of `B` come before `acc`, the larger last one first. Of
equal ones the one of `B` stays. `fuel` bounds the rounds. -/
def mergeBack : ℕ → ℕ → ℕ → List α → List α
  | _, 0, j, acc => (List.range j).map B ++ acc
  | _, i, 0, acc => (List.range i).map A ++ acc
  | 0, _ + 1, _ + 1, acc => acc
  | fuel + 1, i + 1, j + 1, acc =>
    if cmp (A i) (B j) < 0 then mergeBack fuel (i + 1) j (B j :: acc)
    else if 0 < cmp (A i) (B j) then mergeBack fuel i (j + 1) (A i :: acc)
    else mergeBack fuel i j (B j :: acc)

variable {cmp A B} {fuel i j : ℕ} {acc : List α}

theorem mergeBack_zero_right : mergeBack cmp A B fuel i 0 acc = (List.range i).map A ++ acc := by
  cases fuel <;> cases i <;> rfl

theorem exists_lt_succ (A : ℕ → α) (n : ℕ) (x : α) :
    (∃ k < n + 1, A k = x) ↔ (∃ k < n, A k = x) ∨ x = A n := by
  rw [Nat.exists_lt_succ_right, eq_comm]

/-- Everything is merged, whatever the comparison tells of different elements. -/
theorem mergeBack_append (hfuel : i + j ≤ fuel) (hzero : ∀ x y, cmp x y = 0 → x = y) :
    ∃ l, mergeBack cmp A B fuel i j acc = l ++ acc ∧
      ∀ x, x ∈ l ↔ (∃ k < i, A k = x) ∨ ∃ k < j, B k = x := by
  induction fuel generalizing i j acc with
  | zero =>
    obtain rfl : i = 0 := by omega
    obtain rfl : j = 0 := by omega
    exact ⟨[], rfl, by simp⟩
  | succ fuel ih =>
    rcases i with _ | i
    · exact ⟨_, rfl, by simp⟩
    rcases j with _ | j
    · exact ⟨_, mergeBack_zero_right, by simp⟩
    rw [mergeBack]
    split_ifs with hlt hgt
    · obtain ⟨l, hl, hmem⟩ := @ih (i + 1) j (B j :: acc) (by omega)
      refine ⟨l ++ [B j], by rw [hl]; simp, fun x => ?_⟩
      rw [List.mem_append, hmem, List.mem_singleton, exists_lt_succ B j]
      exact or_assoc
    · obtain ⟨l, hl, hmem⟩ := @ih i (j + 1) (A i :: acc) (by omega)
      refine ⟨l ++ [A i], by rw [hl]; simp, fun x => ?_⟩
      rw [List.mem_append, hmem, List.mem_singleton, exists_lt_succ A i]
      exact or_right_comm
    · have heq : A i = B j := hzero _ _ (by omega)
      obtain ⟨l, hl, hmem⟩ := @ih i j (B j :: acc) (by omega)
      refine ⟨l ++ [B j], by rw [hl]; simp, fun x => ?_⟩
      rw [List.mem_append, hmem, List.mem_singleton, exists_lt_succ A i, exists_lt_succ B j, heq]
      exact or_or_distrib_right

section order
variable [LinearOrder α]

/-- The first `n` elements ascend. -/
def AscendingTo (A : ℕ → α) (n : ℕ) : Prop := ∀ k k', k < k' → k' < n → A k < A k'

theorem AscendingTo.le {n k k' : ℕ} (h : AscendingTo A n) (hle : k ≤ k') (hlt : k' < n) :
    A k ≤ A k' := by
  rcases Nat.eq_or_lt_of_le hle with rfl | hk
  · exact le_rfl
  · exact (h k k' hk hlt).le

theorem AscendingTo.mono {n n' : ℕ} (h : AscendingTo A n) (hle : n' ≤ n) : AscendingTo A n' :=
  fun k k' hk hlt => h k k' hk (by omega)

theorem AscendingTo.pairwise {n : ℕ} (h : AscendingTo A n) :
    ((List.range n).map A).Pairwise (· < ·) := by
  rw [List.pairwise_map]
  refine (List.pairwise_lt_range (n := n)).imp_of_mem fun _ hb hlt => ?_
  exact h _ _ hlt (List.mem_range.mp hb)

variable (cmp A B i j)

/-- The comparison is right about the elements that are next to each other: none of `A` is between
them above the one of `A`, and none of `B` above the one of `B`. -/
def TellsNeighbours : Prop :=
  ∀ k < i, ∀ l < j, (k + 1 < i → B l < A (k + 1)) → (l + 1 < j → A k < B (l + 1)) →
    (cmp (A k) (B l) < 0 ↔ A k < B l)

variable {cmp A B i j}

theorem tellsNeighbours_of_lt (hA : AscendingTo A (i + 1)) (hlt : A i < B j)
    (htold : cmp (A i) (B j) < 0) :
    TellsNeighbours cmp A B (i + 1) (j + 1) ↔ TellsNeighbours cmp A B (i + 1) j := by
  constructor
  · intro h k hk l hl hkn hln
    refine h k hk l (by omega) hkn fun _ => ?_
    by_cases hlj : l + 1 < j
    · exact hln hlj
    · obtain rfl : l + 1 = j := by omega
      exact (hA.le (by omega) (by omega)).trans_lt hlt
  · intro h k hk l hl hkn hln
    by_cases hlj : l < j
    · exact h k hk l hlj hkn fun hlj' => hln (by omega)
    · obtain rfl : l = j := by omega
      by_cases hki : k < i
      · have hle : A (k + 1) ≤ A i := hA.le (by omega) (by omega)
        exact absurd ((hkn (by omega)).trans_le hle) (not_lt.mpr hlt.le)
      · obtain rfl : k = i := by omega
        exact iff_of_true htold hlt

theorem tellsNeighbours_of_gt (hB : AscendingTo B (j + 1)) (hlt : B j < A i)
    (htold : ¬cmp (A i) (B j) < 0) :
    TellsNeighbours cmp A B (i + 1) (j + 1) ↔ TellsNeighbours cmp A B i (j + 1) := by
  constructor
  · intro h k hk l hl hkn hln
    refine h k (by omega) l hl (fun _ => ?_) hln
    by_cases hki : k + 1 < i
    · exact hkn hki
    · obtain rfl : k + 1 = i := by omega
      exact (hB.le (by omega) (by omega)).trans_lt hlt
  · intro h k hk l hl hkn hln
    by_cases hki : k < i
    · exact h k hki l hl (fun hki' => hkn (by omega)) hln
    · obtain rfl : k = i := by omega
      by_cases hlj : l < j
      · have hle : B (l + 1) ≤ B j := hB.le (by omega) (by omega)
        exact absurd ((hln (by omega)).trans_le hle) (not_lt.mpr hlt.le)
      · obtain rfl : l = j := by omega
        exact iff_of_false htold (not_lt.mpr hlt.le)

theorem tellsNeighbours_of_eq (hA : AscendingTo A (i + 1)) (hB : AscendingTo B (j + 1))
    (heq : A i = B j) (htold : ¬cmp (A i) (B j) < 0) :
    TellsNeighbours cmp A B (i + 1) (j + 1) ↔ TellsNeighbours cmp A B i j := by
  constructor
  · intro h k hk l hl hkn hln
    refine h k (by omega) l (by omega) (fun _ => ?_) fun _ => ?_
    · by_cases hki : k + 1 < i
      · exact hkn hki
      · obtain rfl : k + 1 = i := by omega
        exact heq ▸ hB l j hl (by omega)
    · by_cases hlj : l + 1 < j
      · exact hln hlj
      · obtain rfl : l + 1 = j := by omega
        exact heq ▸ hA k i hk (by omega)
  · intro h k hk l hl hkn hln
    by_cases hki : k < i
    · by_cases hlj : l < j
      · exact h k hki l hlj (fun hki' => hkn (by omega)) fun hlj' => hln (by omega)
      · obtain rfl : l = j := by omega
        have hle : A (k + 1) ≤ A i := hA.le (by omega) (by omega)
        exact absurd ((hkn (by omega)).trans_le hle) (not_lt.mpr heq.le)
    · obtain rfl : k = i := by omega
      by_cases hlj : l < j
      · have hle : B (l + 1) ≤ B j := hB.le (by omega) (by omega)
        exact absurd ((hln (by omega)).trans_le hle) (not_lt.mpr heq.ge)
      · obtain rfl : l = j := by omega
        exact iff_of_false htold (not_lt.mpr heq.ge)

/-- What is put down in the wrong order stays in it. -/
theorem not_pairwise_mergeBack {x y : α} (hfuel : i + j ≤ fuel)
    (hzero : ∀ x y, cmp x y = 0 → x = y) (hx : (∃ k < i, A k = x) ∨ ∃ k < j, B k = x)
    (hyx : y < x) : ¬(mergeBack cmp A B fuel i j (y :: acc)).Pairwise (· < ·) := by
  obtain ⟨l, hl, hmem⟩ := @mergeBack_append _ _ _ _ _ _ _ (y :: acc) hfuel hzero
  rw [hl, List.pairwise_append]
  rintro ⟨-, -, hcross⟩
  exact absurd (hcross x ((hmem x).mpr hx) y List.mem_cons_self) (not_lt.mpr hyx.le)

/-- The merge ascends exactly if the comparison is right about neighbours. -/
theorem pairwise_mergeBack_iff (hfuel : i + j ≤ fuel) (hzero : ∀ x y, cmp x y = 0 ↔ x = y)
    (hA : AscendingTo A i) (hB : AscendingTo B j) (hacc : acc.Pairwise (· < ·))
    (hAacc : ∀ k < i, ∀ x ∈ acc, A k < x) (hBacc : ∀ k < j, ∀ x ∈ acc, B k < x) :
    (mergeBack cmp A B fuel i j acc).Pairwise (· < ·) ↔ TellsNeighbours cmp A B i j := by
  induction fuel generalizing i j acc with
  | zero =>
    obtain rfl : i = 0 := by omega
    obtain rfl : j = 0 := by omega
    exact iff_of_true hacc fun k hk => absurd hk (Nat.not_lt_zero k)
  | succ fuel ih =>
    rcases i with _ | i
    · refine iff_of_true ?_ fun k hk => absurd hk (Nat.not_lt_zero k)
      rw [mergeBack, List.pairwise_append]
      refine ⟨hB.pairwise, hacc, fun x hx y hy => ?_⟩
      obtain ⟨k, hk, rfl⟩ := List.mem_map.mp hx
      exact hBacc k (List.mem_range.mp hk) y hy
    rcases j with _ | j
    · refine iff_of_true ?_ fun k _ l hl => absurd hl (Nat.not_lt_zero l)
      rw [mergeBack_zero_right, List.pairwise_append]
      refine ⟨hA.pairwise, hacc, fun x hx y hy => ?_⟩
      obtain ⟨k, hk, rfl⟩ := List.mem_map.mp hx
      exact hAacc k (List.mem_range.mp hk) y hy
    have hzero' : ∀ x y, cmp x y = 0 → x = y := fun x y => (hzero x y).mp
    -- the next element is below what is merged, and above the rest if the comparison is right
    have hconsB : (B j :: acc).Pairwise (· < ·) :=
      List.pairwise_cons.mpr ⟨hBacc j (by omega), hacc⟩
    have hconsA : (A i :: acc).Pairwise (· < ·) :=
      List.pairwise_cons.mpr ⟨hAacc i (by omega), hacc⟩
    have hBB : ∀ k < j, ∀ x ∈ B j :: acc, B k < x := by
      intro k hk x hx
      rcases List.mem_cons.mp hx with rfl | hx
      · exact hB k j hk (by omega)
      · exact hBacc k (by omega) x hx
    have hAA : ∀ k < i, ∀ x ∈ A i :: acc, A k < x := by
      intro k hk x hx
      rcases List.mem_cons.mp hx with rfl | hx
      · exact hA k i hk (by omega)
      · exact hAacc k (by omega) x hx
    rw [mergeBack]
    split_ifs with hneg hpos
    · rcases lt_trichotomy (A i) (B j) with hlt | heq | hgt
      · rw [tellsNeighbours_of_lt hA hlt hneg]
        refine ih (by omega) hA (hB.mono (by omega)) hconsB (fun k hk x hx => ?_) hBB
        rcases List.mem_cons.mp hx with rfl | hx
        · exact (hA.le (by omega) (by omega)).trans_lt hlt
        · exact hAacc k hk x hx
      · have := (hzero _ _).mpr heq
        omega
      · refine iff_of_false ?_ fun h => ?_
        · exact not_pairwise_mergeBack (by omega) hzero' (Or.inl ⟨i, by omega, rfl⟩) hgt
        · have hiff := h i (by omega) j (by omega) (fun hi => absurd hi (by omega))
            fun hj => absurd hj (by omega)
          exact absurd (hiff.mp hneg) (not_lt.mpr hgt.le)
    · rcases lt_trichotomy (A i) (B j) with hlt | heq | hgt
      · refine iff_of_false ?_ fun h => ?_
        · exact not_pairwise_mergeBack (by omega) hzero' (Or.inr ⟨j, by omega, rfl⟩) hlt
        · have hiff := h i (by omega) j (by omega) (fun hi => absurd hi (by omega))
            fun hj => absurd hj (by omega)
          exact hneg (hiff.mpr hlt)
      · have := (hzero _ _).mpr heq
        omega
      · rw [tellsNeighbours_of_gt hB hgt hneg]
        refine ih (by omega) (hA.mono (by omega)) hB hconsA hAA (fun k hk x hx => ?_)
        rcases List.mem_cons.mp hx with rfl | hx
        · exact (hB.le (by omega) (by omega)).trans_lt hgt
        · exact hBacc k hk x hx
    · have heq : A i = B j := hzero' _ _ (by omega)
      rw [tellsNeighbours_of_eq hA hB heq hneg]
      refine ih (by omega) (hA.mono (by omega)) (hB.mono (by omega)) hconsB (fun k hk x hx => ?_) hBB
      rcases List.mem_cons.mp hx with rfl | hx
      · exact heq ▸ hA k i hk (by omega)
      · exact hAacc k (by omega) x hx

end order

end NtAdmin.Lib
