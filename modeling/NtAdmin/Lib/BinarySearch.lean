import Mathlib.Data.List.Basic
import Mathlib.Order.Nat
import Mathlib.Order.Compare

/-! Binary search in a list, guided by a comparison that need not be the one the list is sorted by. -/
namespace NtAdmin.Lib

variable {α : Type} (probe order : α → Ordering) (xs : List α)

/-- The search between `l` and `u`, exclusive. It gives an element that compares as equal, or where
one would have to be. `fuel` bounds the rounds. -/
def binarySearch : ℕ → ℕ → ℕ → ℕ → Bool × ℕ
  | 0, _, _, position => (false, position)
  | fuel + 1, l, u, position =>
    if l < u then
      let m := (l + u - 1) / 2
      match xs[m]? with
      | none => (false, position)
      | some x =>
        match probe x with
        | .lt => binarySearch fuel l m m
        | .gt => binarySearch fuel (m + 1) u (m + 1)
        | .eq => (true, m)
    else (false, position)

/-- At every element that the search looks at, `probe` tells the same as `order`. -/
def ProbesAgree : ℕ → ℕ → ℕ → Prop
  | 0, _, _ => True
  | fuel + 1, l, u =>
    l < u → ∀ x, xs[(l + u - 1) / 2]? = some x → probe x = order x ∧
      (order x = .lt → ProbesAgree fuel l ((l + u - 1) / 2)) ∧
      (order x = .gt → ProbesAgree fuel ((l + u - 1) / 2 + 1) u)

variable {probe order xs} {fuel l u position : ℕ}

/-- What is found lies in the range, and compares as equal. -/
theorem binarySearch_true (h : (binarySearch probe xs fuel l u position).1 = true) :
    l ≤ (binarySearch probe xs fuel l u position).2 ∧
      (binarySearch probe xs fuel l u position).2 < u ∧
      ∃ x, xs[(binarySearch probe xs fuel l u position).2]? = some x ∧ probe x = .eq := by
  induction fuel generalizing l u position with
  | zero => cases h
  | succ fuel ih =>
    rw [binarySearch] at h ⊢
    by_cases hlu : l < u
    · simp only [if_pos hlu] at h ⊢
      cases hx : xs[(l + u - 1) / 2]? with
      | none =>
        rw [hx] at h
        cases h
      | some x =>
        simp only [hx] at h ⊢
        cases hp : probe x with
        | lt =>
          simp only [hp] at h ⊢
          obtain ⟨h1, h2, h3⟩ := ih h
          exact ⟨h1, by omega, h3⟩
        | gt =>
          simp only [hp] at h ⊢
          obtain ⟨h1, h2, h3⟩ := ih h
          exact ⟨by omega, h2, h3⟩
        | eq => exact ⟨by dsimp only; omega, by dsimp only; omega, x, hx, hp⟩
    · simp [hlu] at h

theorem binarySearch_range {i : ℕ} (h : binarySearch probe xs fuel l u position = (true, i)) :
    l ≤ i ∧ i < u := by
  obtain ⟨hl, hu, -⟩ := binarySearch_true (Prod.ext_iff.mp h).1
  rw [h] at hl hu
  exact ⟨hl, hu⟩

/-- Nothing is found where nothing compares as equal. -/
theorem binarySearch_false (h : ∀ x ∈ xs, probe x ≠ .eq) :
    (binarySearch probe xs fuel l u position).1 = false := by
  rw [← Bool.not_eq_true]
  intro htrue
  obtain ⟨-, -, x, hx, heq⟩ := binarySearch_true htrue
  exact h x (List.mem_of_getElem? hx) heq

/-- An element of the list is found exactly if the probes tell on which side of it they are. -/
theorem binarySearch_iff {i : ℕ} (hi : i < xs.length)
    (horder : ∀ j x, xs[j]? = some x → order x = compare i j) (hfuel : u - l ≤ fuel)
    (hl : l ≤ i) (hu : i < u) (hlength : u ≤ xs.length) :
    binarySearch probe xs fuel l u position = (true, i) ↔ ProbesAgree probe order xs fuel l u := by
  induction fuel generalizing l u position with
  | zero => omega
  | succ fuel ih =>
    have hlu : l < u := by omega
    have hm : (l + u - 1) / 2 < xs.length := by omega
    rw [binarySearch, ProbesAgree, if_pos hlu]
    generalize hmid : (l + u - 1) / 2 = m at hm
    obtain ⟨x, hx⟩ : ∃ x, xs[m]? = some x := ⟨xs[m], List.getElem?_eq_getElem hm⟩
    have hox := horder m x hx
    simp only [hx, Option.some.injEq, forall_eq', hlu, true_imp_iff]
    rcases lt_trichotomy i m with him | rfl | hmi
    · rw [compare_lt_iff_lt.mpr him] at hox
      simp only [hox, reduceCtorEq, false_imp_iff, and_true, true_imp_iff]
      cases hp : probe x with
      | lt => simpa using ih (by omega) hl him (by omega)
      | eq =>
        simp only [reduceCtorEq, false_and, iff_false, Prod.mk.injEq, true_and]
        omega
      | gt =>
        simp only [reduceCtorEq, false_and, iff_false]
        intro hfound
        have hrange := binarySearch_range hfound
        omega
    · rw [compare_eq_iff_eq.mpr rfl] at hox
      simp only [hox, reduceCtorEq, false_imp_iff, and_true]
      cases hp : probe x with
      | eq => simp
      | lt =>
        simp only [reduceCtorEq, iff_false]
        intro hfound
        have hrange := binarySearch_range hfound
        omega
      | gt =>
        simp only [reduceCtorEq, iff_false]
        intro hfound
        have hrange := binarySearch_range hfound
        omega
    · rw [compare_gt_iff_gt.mpr hmi] at hox
      simp only [hox, reduceCtorEq, false_imp_iff, true_and, true_imp_iff]
      cases hp : probe x with
      | gt => simpa using ih (by omega) (by omega) hu hlength
      | eq =>
        simp only [reduceCtorEq, false_and, iff_false, Prod.mk.injEq, true_and]
        omega
      | lt =>
        simp only [reduceCtorEq, false_and, iff_false]
        intro hfound
        have hrange := binarySearch_range hfound
        omega

/-- Where the probes tell, for a position `p`, what is before it, at it and behind it, the search gives
`p`. -/
theorem binarySearch_eq {found : Bool} {p : ℕ}
    (hprobe : ∀ j x, xs[j]? = some x →
      probe x = if j < p then .gt else if j = p ∧ found = true then .eq else .lt)
    (hfuel : u - l ≤ fuel) (hl : l ≤ p) (hu : p ≤ u) (hfound : found = true → p < u)
    (hlength : u ≤ xs.length) (hposition : l = u → position = l) :
    binarySearch probe xs fuel l u position = (found, p) := by
  have hempty (hlu : l = u) : (false, position) = (found, p) := by
    have hfalse : found = false := by
      rw [← Bool.not_eq_true]
      intro htrue
      have := hfound htrue
      omega
    rw [hfalse, hposition hlu]
    exact Prod.ext rfl (by dsimp only; omega)
  induction fuel generalizing l u position with
  | zero => exact hempty (by omega)
  | succ fuel ih =>
    rw [binarySearch]
    split_ifs with hlu
    · have hm : (l + u - 1) / 2 < xs.length := by omega
      dsimp only
      generalize hmid : (l + u - 1) / 2 = m at hm
      obtain ⟨x, hx⟩ : ∃ x, xs[m]? = some x := ⟨xs[m], List.getElem?_eq_getElem hm⟩
      have hxm := hprobe m x hx
      simp only [hx]
      split_ifs at hxm with hmp hmeq
      · simp only [hxm]
        exact ih (by omega) (by omega) hu hfound hlength (fun _ => rfl) (by grind)
      · simp only [hxm]
        exact Prod.ext hmeq.2.symm hmeq.1
      · simp only [hxm]
        have hpm : found = true → p < m := fun htrue => by grind
        exact ih (by omega) hl (by omega) hpm (by omega) (fun heq => heq.symm) (by grind)
    · exact hempty (by omega)

/-- Where the probes fit a sorted list, the search gives an element that compares as equal, or there
is none and it gives where one would be. -/
theorem binarySearch_sorted
    (hsorted : ∀ (i j : ℕ) (x y : α), i < j → xs[i]? = some x → xs[j]? = some y →
      (probe x = .lt → probe y = .lt) ∧ (probe y = .gt → probe x = .gt))
    (hbelow : ∀ (j : ℕ) (x : α), j < l → xs[j]? = some x → probe x = .gt)
    (habove : ∀ (j : ℕ) (x : α), u ≤ j → xs[j]? = some x → probe x = .lt)
    (hlu : l ≤ u) (hfuel : u - l ≤ fuel) (hlength : u ≤ xs.length)
    (hposition : position = l ∨ position = u) :
    (∃ i x, binarySearch probe xs fuel l u position = (true, i) ∧ xs[i]? = some x ∧
      probe x = .eq) ∨
    ∃ i ≤ xs.length, binarySearch probe xs fuel l u position = (false, i) ∧
      (∀ (j : ℕ) (x : α), j < i → xs[j]? = some x → probe x = .gt) ∧
      ∀ (j : ℕ) (x : α), i ≤ j → xs[j]? = some x → probe x = .lt := by
  have hempty (hlu : l = u) : ∃ i ≤ xs.length, (false, position) = (false, i) ∧
      (∀ (j : ℕ) (x : α), j < i → xs[j]? = some x → probe x = .gt) ∧
      ∀ (j : ℕ) (x : α), i ≤ j → xs[j]? = some x → probe x = .lt := by
    have hl : position = l := by omega
    exact ⟨l, by omega, by rw [hl], hbelow, by rwa [hlu]⟩
  induction fuel generalizing l u position with
  | zero => exact Or.inr (hempty (by omega))
  | succ fuel ih =>
    rw [binarySearch]
    split_ifs with hlt
    · have hm : (l + u - 1) / 2 < xs.length := by omega
      dsimp only
      generalize hmid : (l + u - 1) / 2 = m at hm
      obtain ⟨x, hx⟩ : ∃ x, xs[m]? = some x := ⟨xs[m], List.getElem?_eq_getElem hm⟩
      simp only [hx]
      cases hp : probe x with
      | lt =>
        have habove' (j : ℕ) (y : α) (hj : m ≤ j) (hy : xs[j]? = some y) : probe y = .lt := by
          rcases Nat.eq_or_lt_of_le hj with rfl | hj
          · rw [hx, Option.some.injEq] at hy
            rwa [← hy]
          · exact (hsorted m j x y hj hx hy).1 hp
        exact ih hbelow habove' (by omega) (by omega) (by omega) (Or.inr rfl) (by grind)
      | eq => exact Or.inl ⟨m, x, rfl, hx, hp⟩
      | gt =>
        have hbelow' (j : ℕ) (y : α) (hj : j < m + 1) (hy : xs[j]? = some y) : probe y = .gt := by
          rcases Nat.eq_or_lt_of_le (Nat.le_of_lt_succ hj) with rfl | hj
          · rw [hx, Option.some.injEq] at hy
            rwa [← hy]
          · exact (hsorted j m y x hj hy hx).2 hp
        exact ih hbelow' habove (by omega) (by omega) hlength (Or.inl rfl) (by grind)
    · exact Or.inr (hempty (by omega))

/-- A search in the whole list. -/
theorem binarySearch_all {n : ℕ} (hn : xs.length ≤ n)
    (hsorted : ∀ (i j : ℕ) (x y : α), i < j → xs[i]? = some x → xs[j]? = some y →
      (probe x = .lt → probe y = .lt) ∧ (probe y = .gt → probe x = .gt)) :
    (∃ i x, binarySearch probe xs n 0 xs.length 0 = (true, i) ∧ xs[i]? = some x ∧
      probe x = .eq) ∨
    ∃ i ≤ xs.length, binarySearch probe xs n 0 xs.length 0 = (false, i) ∧
      (∀ (j : ℕ) (x : α), j < i → xs[j]? = some x → probe x = .gt) ∧
      ∀ (j : ℕ) (x : α), i ≤ j → xs[j]? = some x → probe x = .lt := by
  have hbelow (j : ℕ) (x : α) (hj : j < 0) (_ : xs[j]? = some x) : probe x = .gt :=
    absurd hj (Nat.not_lt_zero j)
  have habove (j : ℕ) (x : α) (hj : xs.length ≤ j) (hx : xs[j]? = some x) : probe x = .lt := by
    rw [List.getElem?_eq_none hj] at hx
    cases hx
  exact binarySearch_sorted hsorted hbelow habove (Nat.zero_le _) (by omega) (Nat.le_refl _)
    (Or.inl rfl)

end NtAdmin.Lib
