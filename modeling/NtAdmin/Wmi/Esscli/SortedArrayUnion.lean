import NtAdmin.Wmi.Esscli.SortedArraySpec

/-! `AddDataFrom` merges two arrays in place, from their ends. -/
namespace NtAdmin.Wmi.Esscli.CSortedArray
open Lib

variable {A B m : ℕ → QueryID} {i j d N : ℕ}

/-- The elements from `d` on. -/
def tail (m : ℕ → QueryID) (d N : ℕ) : List QueryID := (List.range (N - d)).map fun k => m (d + k)

theorem tail_self : tail m N N = [] := by
  rw [tail, Nat.sub_self]
  rfl

theorem tail_zero : tail m 0 N = (List.range N).map m := by
  rw [tail, Nat.sub_zero]
  simp only [Nat.zero_add]

theorem tail_update (hd : 0 < d) (hN : d ≤ N) (x : QueryID) :
    tail (Function.update m (d - 1) x) (d - 1) N = x :: tail m d N := by
  have hcount : N - (d - 1) = N - d + 1 := by omega
  rw [tail, hcount, List.range_succ_eq_map, List.map_cons, List.map_map, Nat.add_zero,
    Function.update_self]
  congr 1
  refine List.map_congr_left fun k _ => ?_
  have hk : d - 1 + (k + 1) = d + k := by omega
  show Function.update m (d - 1) x (d - 1 + (k + 1)) = m (d + k)
  rw [hk, Function.update_of_ne (by omega)]

/-- What is not yet merged of this array is below the place that is written. -/
theorem update_below (hm : ∀ k < i, m k = A k) (hi : i < d) (x : QueryID) :
    ∀ k < i, Function.update m (d - 1) x k = A k := fun k hk => by
  rw [Function.update_of_ne (by omega), hm k hk]

theorem mergeLoop_spec (fuel : ℕ) (hij : i + j ≤ d) (hfuel : i + j ≤ fuel) (hN : d ≤ N)
    (hm : ∀ k < i, m k = A k) :
    ∃ i' j' d' m', mergeLoop B fuel i j d m = (i', j', d', m') ∧ i' + j' ≤ d' ∧ d' ≤ N ∧
      (∀ k < i', m' k = A k) ∧ mergeBack nCompare A B fuel i j (tail m d N) =
        (List.range j').map B ++ ((List.range i').map A ++ tail m' d' N) := by
  induction fuel generalizing i j d m with
  | zero =>
    obtain rfl : i = 0 := by omega
    obtain rfl : j = 0 := by omega
    exact ⟨0, 0, d, m, rfl, by omega, hN, hm, rfl⟩
  | succ fuel ih =>
    rcases i with _ | i
    · exact ⟨0, j, d, m, rfl, hij, hN, hm, rfl⟩
    rcases j with _ | j
    · exact ⟨i + 1, 0, d, m, rfl, hij, hN, hm, rfl⟩
    have htail := fun x => tail_update (m := m) (show 0 < d by omega) hN x
    rw [mergeLoop, mergeBack, hm i (by omega)]
    split_ifs with hlt hgt
    · rw [← htail]
      exact ih (by omega) (by omega) (by omega) (update_below hm (by omega) _)
    · rw [← htail]
      refine ih (by omega) (by omega) (by omega) fun k hk => ?_
      exact update_below hm (by omega) _ k (by omega)
    · rw [← htail]
      refine ih (by omega) (by omega) (by omega) fun k hk => ?_
      exact update_below hm (by omega) _ k (by omega)

theorem copyThis_spec (hi : i ≤ d) (hN : d ≤ N) (hm : ∀ k < i, m k = A k) :
    ∃ m', copyThis i d m = (d - i, m') ∧
      tail m' (d - i) N = (List.range i).map A ++ tail m d N := by
  induction i generalizing d m with
  | zero => exact ⟨m, rfl, rfl⟩
  | succ i ih =>
    have hbelow := update_below (fun k hk => hm k (Nat.lt_succ_of_lt hk)) hi (m i)
    obtain ⟨m', hrun, htail⟩ := ih (d := d - 1) (by omega) (by omega) hbelow
    have hd : d - 1 - i = d - (i + 1) := by omega
    rw [hd] at hrun htail
    refine ⟨m', hrun, ?_⟩
    rw [htail, tail_update (by omega) hN, hm i (by omega), List.range_succ, List.map_append,
      List.append_assoc]
    rfl

theorem copyOther_spec (hj : j ≤ d) (hN : d ≤ N) :
    ∃ m', copyOther B j d m = (d - j, m') ∧
      tail m' (d - j) N = (List.range j).map B ++ tail m d N := by
  induction j generalizing d m with
  | zero => exact ⟨m, rfl, rfl⟩
  | succ j ih =>
    obtain ⟨m', hrun, htail⟩ := @ih (Function.update m (d - 1) (B j)) (d - 1) (by omega) (by omega)
    have hd : d - 1 - j = d - (j + 1) := by omega
    rw [hd] at hrun htail
    refine ⟨m', hrun, ?_⟩
    rw [htail, tail_update (by omega) hN, List.range_succ, List.map_append, List.append_assoc]
    rfl

/-- No element is overwritten before it has moved. -/
theorem moveForward_apply (hd : 0 < d) (count k : ℕ) :
    moveForward d count m k = if k < count then m (d + k) else m k := by
  induction count generalizing k with
  | zero => rfl
  | succ count ih =>
    show Function.update (moveForward d count m) count (moveForward d count m (d + count)) k = _
    by_cases hk : k = count
    · rw [hk, Function.update_self, ih, if_neg (by omega), if_pos (by omega)]
    · rw [Function.update_of_ne hk, ih]
      by_cases hlt : k < count
      · rw [if_pos hlt, if_pos (by omega)]
      · rw [if_neg hlt, if_neg (by omega)]

variable {alloc : ℕ → Bool} {a : CFlexArray} {nValues : ℕ}

/-- There is memory for both arrays. -/
def RoomFor (alloc : ℕ → Bool) (a : CFlexArray) (nValues : ℕ) : Prop :=
  nValues = 0 ∨ (a.m_nSize + nValues : ℕ) ≤ a.m_nExtent ∨ alloc (4 * (a.m_nSize + nValues)) = true

theorem ensureExtent_of_room (h : a.m_nExtent < (a.m_nSize + nValues : ℕ) →
    alloc (4 * (a.m_nSize + nValues)) = true) :
    ∃ e, a.ensureExtent alloc (a.m_nSize + nValues) = (.no_error, { a with m_nExtent := e }) := by
  unfold CFlexArray.ensureExtent
  by_cases hlt : a.m_nExtent < (a.m_nSize + nValues : ℕ)
  · exact ⟨_, by rw [if_pos hlt, if_pos (h hlt)]⟩
  · exact ⟨a.m_nExtent, if_neg hlt⟩

/-- With room the array is what the merge of both makes, from their ends. -/
theorem addData_ids (hroom : RoomFor alloc a nValues) :
    ∃ c, addData alloc a B nValues = (.no_error, c) ∧ c.ids =
      mergeBack nCompare a.m_pArray B (a.m_nSize + nValues) a.m_nSize nValues [] := by
  by_cases hzero : nValues = 0
  · refine ⟨a, if_pos hzero, ?_⟩
    rw [hzero, mergeBack_zero_right, List.append_nil]
    rfl
  obtain ⟨e, hext⟩ := @ensureExtent_of_room alloc a nValues (by
    intro hlt
    rcases hroom with h | h | h
    · exact absurd h hzero
    · omega
    · exact h)
  obtain ⟨i, j, d, m, hmerge, hij, hdN, hm, hback⟩ := mergeLoop_spec (A := a.m_pArray) (B := B)
    (m := a.m_pArray) (a.m_nSize + nValues) le_rfl le_rfl le_rfl fun _ _ => rfl
  obtain ⟨m₁, hthis, htail₁⟩ := copyThis_spec (show i ≤ d by omega) hdN hm
  obtain ⟨m₂, hother, htail₂⟩ := copyOther_spec (B := B) (m := m₁) (show j ≤ d - i by omega)
    (show d - i ≤ a.m_nSize + nValues by omega)
  rw [tail_self] at hback
  rw [htail₁, ← hback] at htail₂
  have hrun : addData alloc a B nValues = (.no_error, { a with
      m_nExtent := e
      m_pArray := if d - i - j = 0 then m₂
        else moveForward (d - i - j) (a.m_nSize + nValues - (d - i - j)) m₂
      m_nSize := a.m_nSize + nValues - (d - i - j) }) := by
    simp only [addData, if_neg hzero, hext, hmerge, hthis, hother]
  refine ⟨_, hrun, ?_⟩
  rw [← htail₂, CFlexArray.ids]
  refine List.map_congr_left fun k hk => ?_
  have hlt := List.mem_range.mp hk
  by_cases hd : d - i - j = 0
  · simp only [hd, if_true, Nat.zero_add]
  · simp only [if_neg hd]
    rw [moveForward_apply (by omega), if_pos hlt]

/-- Without room nothing changes. -/
theorem addData_of_no_room (hroom : ¬RoomFor alloc a nValues) :
    addData alloc a B nValues = (.out_of_memory, a) := by
  unfold RoomFor at hroom
  push Not at hroom
  obtain ⟨hzero, hlt, halloc⟩ := hroom
  have hext : a.ensureExtent alloc (a.m_nSize + nValues) = (.out_of_memory, a) := by
    rw [CFlexArray.ensureExtent, if_pos hlt, if_neg halloc]
  simp only [addData, if_neg hzero, hext]

end NtAdmin.Wmi.Esscli.CSortedArray
