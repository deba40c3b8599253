import Mathlib.Data.List.Nodup
import Mathlib.Data.List.Perm.Basic
import Mathlib.Data.Nat.Bitwise
import NtAdmin.Wmi.PageMgr.PageFile

/-! The maps and lists of a page file, and which physical pages they hold. -/
namespace NtAdmin.Wmi.PageMgr

open NtAdmin.Lib

/-- One generation of the mapping. -/
structure Generation where
  pageMap : List ℕ
  physFree : List ℕ
  logicalFree : List ℕ
  replaced : List ℕ
  physPages : ℕ
  deriving DecidableEq

structure Maps where
  a : Generation
  b : Generation
  deferred : List ℕ
  inTransaction : Bool
  deriving DecidableEq

def CPageFile.maps {ps : ℕ} (s : CPageFile ps) : Maps where
  a := ⟨s.pageMapA.data, s.physFreeListA.data, s.logicalFreeListA.data, s.replacedPagesA.data,
    s.physPagesA⟩
  b := ⟨s.pageMapB.data, s.physFreeListB.data, s.logicalFreeListB.data, s.replacedPagesB.data,
    s.physPagesB⟩
  deferred := s.deferredFreeList.data
  inTransaction := s.inTransaction

section entries
variable {x y p : ℕ}

theorem merePageId_eq_mod (x : ℕ) : merePageId x = x % 2 ^ 30 :=
  Nat.and_two_pow_sub_one_eq_mod x 30

theorem merePageId_lt (x : ℕ) : merePageId x < 2 ^ 30 := by
  rw [merePageId_eq_mod]
  exact Nat.mod_lt _ (by decide)

theorem merePageId_of_lt (h : p < 2 ^ 30) : merePageId p = p := by
  rw [merePageId_eq_mod, Nat.mod_eq_of_lt h]

@[simp] theorem merePageId_merePageId (x : ℕ) : merePageId (merePageId x) = merePageId x :=
  merePageId_of_lt (merePageId_lt x)

@[simp] theorem merePageId_or_previous (x : ℕ) :
    merePageId (x ||| previousTransaction) = merePageId x := by
  simp [merePageId, previousTransaction, Nat.and_or_distrib_right]

@[simp] theorem merePageId_or_current (x : ℕ) :
    merePageId (x ||| currentTransaction) = merePageId x := by
  simp [merePageId, currentTransaction, Nat.and_or_distrib_right]

theorem or_previous_lt (h : p < 2 ^ 30) : p ||| previousTransaction < 2 ^ 31 :=
  Nat.or_lt_two_pow (Nat.lt_trans h (by decide)) (by decide)

theorem or_current_lt (h : p < 2 ^ 30) : p ||| currentTransaction < reservedPage := by
  have hor : p ||| currentTransaction = 2 ^ 31 + p := by
    rw [Nat.or_comm]
    exact (Nat.two_pow_add_eq_or_of_lt (i := 31) (Nat.lt_trans h (by decide)) 1).symm
  rw [hor]
  simp only [reservedPage]
  omega

theorem or_current_ne_invalid (h : p < 2 ^ 30) : p ||| currentTransaction ≠ invalidPage := by
  have := or_current_lt h
  simp only [reservedPage, invalidPage] at *
  omega

theorem or_current_ne_reserved (h : p < 2 ^ 30) : p ||| currentTransaction ≠ reservedPage :=
  Nat.ne_of_lt (or_current_lt h)

theorem and_current_eq_zero (h : p < 2 ^ 31) : p &&& currentTransaction = 0 := by
  have := Nat.and_two_pow p 31
  rw [Nat.testBit_lt_two_pow h] at this
  simpa [currentTransaction] using this

theorem or_current_and_current : (x ||| currentTransaction) &&& currentTransaction ≠ 0 := by
  rw [Nat.and_or_distrib_right, Nat.and_self]
  intro h
  have := (Nat.or_eq_zero_iff.mp h).2
  simp [currentTransaction] at this

end entries

section mapped

/-- The physical page of a map entry that is neither invalid nor reserved. -/
def entryIds (e : ℕ) : List ℕ := if e = invalidPage ∨ e = reservedPage then [] else [merePageId e]

/-- The physical pages of the mapped entries. -/
def mappedIds (l : List ℕ) : List ℕ := l.flatMap entryIds

@[simp] theorem entryIds_invalid : entryIds invalidPage = [] := rfl
@[simp] theorem entryIds_reserved : entryIds reservedPage = [] := rfl

theorem entryIds_of_lt {e : ℕ} (h : e < reservedPage) : entryIds e = [merePageId e] := by
  have hi : e ≠ invalidPage := by simp only [invalidPage, reservedPage] at *; omega
  simp [entryIds, hi, Nat.ne_of_lt h]

theorem entryIds_merePageId {e : ℕ} (he : e ≠ invalidPage) (hr : e ≠ reservedPage) :
    entryIds e = [merePageId e] := by simp [entryIds, he, hr]

theorem entryIds_or_current {p : ℕ} (h : p < 2 ^ 30) : entryIds (p ||| currentTransaction) = [p] := by
  rw [entryIds_of_lt (or_current_lt h), merePageId_or_current, merePageId_of_lt h]

theorem mem_mappedIds {l : List ℕ} {p : ℕ} :
    p ∈ mappedIds l ↔ ∃ e ∈ l, e ≠ invalidPage ∧ e ≠ reservedPage ∧ merePageId e = p := by
  simp only [mappedIds, List.mem_flatMap]
  refine exists_congr fun e => and_congr_right fun _ => ?_
  by_cases h : e = invalidPage ∨ e = reservedPage
  · simp only [entryIds, h, if_true, List.not_mem_nil, false_iff]
    tauto
  · simp only [entryIds, h, if_false, List.mem_singleton]
    constructor
    · exact fun hp => ⟨mt Or.inl h, mt Or.inr h, hp.symm⟩
    · exact fun hp => hp.2.2.symm

theorem mappedIds_append (l l' : List ℕ) : mappedIds (l ++ l') = mappedIds l ++ mappedIds l' :=
  List.flatMap_append

theorem mappedIds_perm {l l' : List ℕ} (h : l.Perm l') : (mappedIds l).Perm (mappedIds l') :=
  h.flatMap_right _

/-- Changing one entry exchanges its physical page. -/
theorem mappedIds_set {l : List ℕ} {i e : ℕ} (h : l[i]? = some e) (e' : ℕ) :
    (entryIds e ++ mappedIds (l.set i e')).Perm (entryIds e' ++ mappedIds l) := by
  obtain ⟨hi, rfl⟩ := List.getElem?_eq_some_iff.mp h
  have h₁ := mappedIds_perm (List.set_perm_cons_eraseIdx hi e')
  have h₂ := mappedIds_perm (List.getElem_cons_eraseIdx_perm hi)
  have h₃ : (entryIds l[i] ++ (entryIds e' ++ mappedIds (l.eraseIdx i))).Perm
      (entryIds e' ++ (entryIds l[i] ++ mappedIds (l.eraseIdx i))) :=
    List.perm_append_comm_assoc _ _ _
  exact ((h₁.append_left _).trans h₃).trans (h₂.append_left _)

theorem mappedIds_map {l : List ℕ} {f : ℕ → ℕ} (h : ∀ e ∈ l, entryIds (f e) = entryIds e) :
    mappedIds (l.map f) = mappedIds l := by
  rw [mappedIds, List.flatMap_map]
  exact List.flatMap_congr h

theorem mappedIds_moveCurrentToPrevious {l : List ℕ} (h : reservedPage ∉ l) :
    mappedIds (moveCurrentToPrevious l) = mappedIds l := by
  refine mappedIds_map fun e he => ?_
  split_ifs with hc
  · have hne : e ≠ reservedPage := fun hr => h (hr ▸ he)
    rw [entryIds_merePageId hc.1 hne, entryIds_of_lt, merePageId_or_previous, merePageId_merePageId]
    exact Nat.lt_trans (or_previous_lt (merePageId_lt e)) (by decide)
  · rfl

theorem mappedIds_stripHiBits {l : List ℕ} (h : reservedPage ∉ l) :
    mappedIds (stripHiBits l) = mappedIds l := by
  refine mappedIds_map fun e he => ?_
  split_ifs with hc
  · have hne : e ≠ reservedPage := fun hr => h (hr ▸ he)
    rw [entryIds_merePageId hc hne, entryIds_of_lt, merePageId_merePageId]
    exact Nat.lt_trans (merePageId_lt e) (by decide)
  · rfl

theorem reservedPage_not_mem_moveCurrentToPrevious {l : List ℕ} (h : reservedPage ∉ l) :
    reservedPage ∉ moveCurrentToPrevious l := by
  simp only [moveCurrentToPrevious, List.mem_map, not_exists, not_and]
  intro e he
  split_ifs
  · exact Nat.ne_of_lt (Nat.lt_trans (or_previous_lt (merePageId_lt e)) (by decide))
  · exact fun hr => h (hr ▸ he)

theorem reservedPage_not_mem_stripHiBits (l : List ℕ) : reservedPage ∉ stripHiBits l := by
  simp only [stripHiBits, List.mem_map, not_exists, not_and]
  intro e _
  split_ifs with h
  · exact Nat.ne_of_lt (Nat.lt_trans (merePageId_lt e) (by decide))
  · rw [not_not.mp h]
    decide

end mapped

section lists

theorem swapAt_perm {l : List ℕ} {i j : ℕ} (hi : i < l.length) (hj : j < l.length) :
    (swapAt l i j).Perm l := by
  simp only [swapAt, List.getD_eq_getElem _ _ hi, List.getD_eq_getElem _ _ hj]
  exact List.set_set_perm hi hj

theorem backscan_perm (interval fuel i : ℕ) (l : List ℕ) (hi : i < l.length) :
    (backscan interval fuel i l).Perm l := by
  induction fuel generalizing i l with
  | zero => exact .refl _
  | succ fuel ih =>
    simp only [backscan]
    split_ifs with h
    · have hp := swapAt_perm hi (j := i - interval) (by omega)
      exact (ih _ _ (by rw [hp.length_eq]; omega)).trans hp
    · exact .refl _

theorem shellPass_perm (interval : ℕ) (l : List ℕ) : (shellPass interval l).Perm l := by
  have hfold : ∀ (is : List ℕ) (l : List ℕ), (∀ i ∈ is, i < l.length) →
      (is.foldl (fun l i => backscan interval i i l) l).Perm l := by
    intro is
    induction is with
    | nil => exact fun l _ => .refl _
    | cons i is ih =>
      intro l h
      have hp := backscan_perm interval i i l (h i (List.mem_cons_self ..))
      exact (ih _ fun j hj => by rw [hp.length_eq]; exact h j (List.mem_cons_of_mem _ hj)).trans hp
  refine hfold _ l fun i hi => ?_
  have := List.mem_range'_1.mp hi
  omega

theorem shellLoop_perm (fuel interval : ℕ) (l : List ℕ) : (shellLoop fuel interval l).Perm l := by
  induction fuel generalizing interval l with
  | zero => exact .refl _
  | succ fuel ih =>
    simp only [shellLoop]
    split_ifs
    · exact .refl _
    · exact (ih _ _).trans (shellPass_perm interval l)

/-- Sorting loses and adds nothing. -/
theorem shellSort_perm (l : List ℕ) : (shellSort l).Perm l := shellLoop_perm _ _ l

private theorem foldl_lowest (l : List (ℕ × ℕ)) (cur : ℕ × ℕ) :
    let r := l.foldl (fun cur e => if e.1 < cur.1 then e else cur) cur
    (r = cur ∨ r ∈ l) ∧ r.1 ≤ cur.1 ∧ ∀ e ∈ l, r.1 ≤ e.1 := by
  induction l generalizing cur with
  | nil => simp
  | cons e l ih =>
    obtain ⟨hmem, hle, hall⟩ := ih (if e.1 < cur.1 then e else cur)
    have hstart : (if e.1 < cur.1 then e else cur).1 ≤ cur.1 ∧
        (if e.1 < cur.1 then e else cur).1 ≤ e.1 := by split_ifs <;> omega
    simp only [List.foldl_cons]
    refine ⟨?_, Nat.le_trans hle hstart.1, fun e' he' => ?_⟩
    · rcases hmem with h | h
      · rw [h]
        split_ifs
        · exact Or.inr (List.mem_cons_self ..)
        · exact Or.inl rfl
      · exact Or.inr (List.mem_cons_of_mem _ h)
    · rcases List.mem_cons.mp he' with rfl | he'
      · exact Nat.le_trans hle hstart.2
      · exact hall e' he'

/-- The scan of the free list finds its smallest entry. -/
theorem lowestFree_spec {l : List ℕ} (hne : l ≠ []) (hlt : ∀ x ∈ l, x < 0xFFFFFFFF) :
    l[(lowestFree l).2]? = some (lowestFree l).1 ∧ ∀ x ∈ l, (lowestFree l).1 ≤ x := by
  obtain ⟨hmem, -, hall⟩ := foldl_lowest l.zipIdx (0xFFFFFFFF, 0xFFFFFFFF)
  have hle : ∀ x ∈ l, (lowestFree l).1 ≤ x := by
    intro x hx
    obtain ⟨i, hi⟩ := List.mem_iff_getElem?.mp hx
    exact hall (x, i) (List.mem_zipIdx_iff_getElem?.mpr hi)
  refine ⟨?_, hle⟩
  rcases hmem with h | h
  · obtain ⟨x, hx⟩ := List.exists_mem_of_ne_nil l hne
    have h₁ := hle x hx
    have h₂ := hlt x hx
    rw [lowestFree, h] at h₁
    exact absurd h₁ (Nat.not_le.mpr h₂)
  · exact List.mem_zipIdx_iff_getElem?.mp h

/-- The entries that `findRun` has found are in succession. -/
private theorem findRun_run {v : List ℕ} {count n ix contiguous start r : ℕ}
    (hlt : ∀ x ∈ v, x < 2 ^ 30) (hn : ix + n + 1 = v.length) (hix : start + contiguous = ix + 1)
    (hpos : 1 ≤ contiguous) (hrun : ∀ k < contiguous, v.getD (start + k) 0 = v.getD start 0 + k)
    (h : findRun v count n ix contiguous start = some r) :
    1 ≤ count ∧ r + count ≤ v.length ∧ ∀ k < count, v.getD (r + k) 0 = v.getD r 0 + k := by
  induction n generalizing ix contiguous start with
  | zero => cases h
  | succ n ih =>
    simp only [findRun] at h
    have hget : v.getD ix 0 < 2 ^ 30 := by
      have hlen : ix < v.length := by omega
      rw [List.getD_eq_getElem _ _ hlen]
      exact hlt _ (List.getElem_mem hlen)
    rw [Nat.mod_eq_of_lt (by omega)] at h
    by_cases hnext : v.getD ix 0 + 1 = v.getD (ix + 1) 0
    · have hrun' : ∀ k < contiguous + 1, v.getD (start + k) 0 = v.getD start 0 + k := by
        intro k hk
        rcases Nat.lt_succ_iff_lt_or_eq.mp hk with hk | rfl
        · exact hrun k hk
        · rw [hix, ← hnext]
          have := hrun (k - 1) (by omega)
          rw [show start + (k - 1) = ix by omega] at this
          omega
      simp only [hnext, if_true] at h
      split_ifs at h with hc
      · cases h
        exact ⟨by omega, by omega, fun k hk => hrun' k (by omega)⟩
      · exact ih (by omega) (by omega) (by omega) hrun' h
    · simp only [hnext, if_false] at h
      split_ifs at h with hc
      · cases h
        refine ⟨by omega, by omega, fun k hk => ?_⟩
        rw [show k = 0 by omega]
        rfl
      · refine ih (by omega) rfl (Nat.le_refl 1) (fun k hk => ?_) h
        rw [show k = 0 by omega]
        rfl

/-- A run of logical ids that was found and removed from the list. -/
theorem findRun_perm {v : List ℕ} {count start : ℕ} (hlt : ∀ x ∈ v, x < 2 ^ 30)
    (h : findRun v count (v.length - 1) 0 1 0 = some start) :
    v.Perm (List.range' (v.getD start 0) count ++ (v.take start ++ v.drop (start + count))) := by
  have hne : v.length - 1 ≠ 0 := by
    intro h0
    rw [h0] at h
    cases h
  obtain ⟨-, hlen, hrun⟩ := findRun_run hlt (by omega) rfl (Nat.le_refl 1) (fun k hk => by
    rw [show k = 0 by omega]
    rfl) h
  have hmid : (v.drop start).take count = List.range' (v.getD start 0) count := by
    apply List.ext_getElem?
    intro k
    by_cases hk : k < count
    · have hlt' : start + k < v.length := by omega
      rw [List.getElem?_take, if_pos hk, List.getElem?_drop, List.getElem?_range' hk,
        List.getElem?_eq_getElem hlt']
      have := hrun k hk
      rw [List.getD_eq_getElem _ _ hlt'] at this
      simpa using this
    · rw [List.getElem?_eq_none (by rw [List.length_take]; omega),
        List.getElem?_eq_none (by rw [List.length_range']; omega)]
  have hsplit : v = v.take start ++ (List.range' (v.getD start 0) count ++
      v.drop (start + count)) := by
    conv_lhs => rw [← List.take_append_drop start v, ← List.take_append_drop count (v.drop start)]
    rw [hmid, List.drop_drop]
  conv_lhs => rw [hsplit]
  exact List.perm_append_comm_assoc _ _ _

end lists

end NtAdmin.Wmi.PageMgr
