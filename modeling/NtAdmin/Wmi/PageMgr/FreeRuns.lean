import NtAdmin.Wmi.PageMgr.PageMaps

/-! The shell sort sorts, and the search finds a run of free ids if there is one. -/
namespace NtAdmin.Wmi.PageMgr

open NtAdmin.Lib

/-- The entries up to position `hi` ascend. -/
def SortedTo (l : List ℕ) (hi : ℕ) : Prop := ∀ a b, a < b → b < hi → l.getD a 0 ≤ l.getD b 0

/-- The entries up to position `hi` ascend but for the one at `p`, which is no larger than those
behind it. -/
structure SortedBut (l : List ℕ) (p hi : ℕ) : Prop where
  others : ∀ a b, a < b → b ≤ hi → a ≠ p → b ≠ p → l.getD a 0 ≤ l.getD b 0
  behind : ∀ b, p < b → b ≤ hi → l.getD p 0 ≤ l.getD b 0

variable {l v : List ℕ} {i p hi n ix contiguous start count r : ℕ}

theorem getD_swapAt (hp : p < l.length) (h0 : 0 < p) (k : ℕ) :
    (swapAt l p (p - 1)).getD k 0 =
      if k = p - 1 then l.getD p 0 else if k = p then l.getD (p - 1) 0 else l.getD k 0 := by
  have hp' : p - 1 < l.length := by omega
  simp only [swapAt, List.getD_eq_getElem?_getD, List.getElem?_set, List.length_set]
  split_ifs <;> first | rfl | omega

/-- One exchange moves the entry one place down. -/
theorem SortedBut.swap (h : SortedBut l p hi) (hp : p < l.length) (h0 : 0 < p)
    (hlt : l.getD p 0 < l.getD (p - 1) 0) : SortedBut (swapAt l p (p - 1)) (p - 1) hi where
  others a b hab hb ha hb' := by
    rw [getD_swapAt hp h0, getD_swapAt hp h0, if_neg ha, if_neg hb']
    by_cases hap : a = p
    · rw [if_pos hap, if_neg (by omega)]
      exact h.others (p - 1) b (by omega) hb (by omega) (by omega)
    · rw [if_neg hap]
      by_cases hbp : b = p
      · rw [if_pos hbp]
        exact h.others a (p - 1) (by omega) (by omega) hap (by omega)
      · rw [if_neg hbp]
        exact h.others a b hab hb hap hbp
  behind b hpb hb := by
    rw [getD_swapAt hp h0, getD_swapAt hp h0, if_pos rfl, if_neg (by omega)]
    by_cases hbp : b = p
    · rw [if_pos hbp]
      exact Nat.le_of_lt hlt
    · rw [if_neg hbp]
      exact h.behind b (by omega) hb

theorem SortedBut.sorted (h : SortedBut l p hi)
    (hstop : p = 0 ∨ l.getD (p - 1) 0 ≤ l.getD p 0) : SortedTo l (hi + 1) := by
  intro a b hab hb
  by_cases hap : a = p
  · rw [hap]
    exact h.behind b (by omega) (by omega)
  · by_cases hbp : b = p
    · have hle := hstop.resolve_left (by omega)
      rw [hbp]
      by_cases hap' : a = p - 1
      · rwa [hap']
      · exact Nat.le_trans (h.others a (p - 1) (by omega) (by omega) hap (by omega)) hle
    · exact h.others a b hab (by omega) hap hbp

/-- The entry at `hi` is moved down to its place. -/
theorem backscan_sorted (h : SortedBut l p hi) (hp : p < l.length) :
    SortedTo (backscan 1 p p l) (hi + 1) := by
  induction p generalizing l with
  | zero => exact h.sorted (Or.inl rfl)
  | succ p ih =>
    rw [backscan]
    split_ifs with hgo
    · have hlen := (swapAt_perm hp (show p + 1 - 1 < l.length by omega)).length_eq
      exact ih (h.swap hp (by omega) hgo.2) (by omega)
    · refine h.sorted (Or.inr ?_)
      exact Nat.le_of_not_lt fun hlt => hgo ⟨by omega, hlt⟩

theorem shellPass_one_sorted (l : List ℕ) : SortedTo (shellPass 1 l) l.length := by
  have hfold : ∀ n k : ℕ, ∀ l : List ℕ, k + n = l.length → 1 ≤ k → SortedTo l k →
      SortedTo ((List.range' k n).foldl (fun l i => backscan 1 i i l) l) (k + n) := by
    intro n
    induction n with
    | zero => exact fun k l _ _ h => h
    | succ n ih =>
      intro k l hlen hk h
      have hbut : SortedBut l k k :=
        ⟨fun a b hab hb ha hb' => h a b hab (by omega), fun b hkb hb => by omega⟩
      have hnext := backscan_sorted hbut (by omega)
      have hlen' := (backscan_perm 1 k k l (by omega)).length_eq
      have hrest := ih (k + 1) (backscan 1 k k l) (by omega) (by omega) hnext
      rw [List.range'_succ, List.foldl_cons, show k + (n + 1) = k + 1 + n by omega]
      exact hrest
  by_cases hnil : l.length = 0
  · rw [hnil]
    exact fun a b _ hb => absurd hb (Nat.not_lt_zero b)
  · have h := hfold (l.length - 1) 1 l (by omega) (Nat.le_refl 1) fun a b hab hb => by omega
    rw [show 1 + (l.length - 1) = l.length by omega] at h
    exact h

/-- The intervals of the sort: the last of them is 1. -/
inductive Interval : ℕ → Prop
  | one : Interval 1
  | next {interval : ℕ} : Interval interval → Interval (interval * 3 + 1)

theorem shellInterval_interval (bound fuel : ℕ) (h : Interval i) :
    Interval (shellInterval bound fuel i) := by
  induction fuel generalizing i with
  | zero => exact h
  | succ fuel ih =>
    rw [shellInterval]
    split_ifs
    · exact ih h.next
    · exact h

theorem shellLoop_sorted (h : Interval i) (hfuel : i ≤ n) (l : List ℕ) :
    SortedTo (shellLoop n i l) l.length := by
  induction h generalizing n l with
  | one =>
    obtain ⟨n, rfl⟩ : ∃ k, n = k + 1 := ⟨n - 1, by omega⟩
    have hstop : shellLoop n (1 / 3) (shellPass 1 l) = shellPass 1 l := by cases n <;> rfl
    rw [shellLoop, if_neg (by decide), hstop]
    exact shellPass_one_sorted l
  | @next interval h ih =>
    obtain ⟨n, rfl⟩ : ∃ k, n = k + 1 := ⟨n - 1, by omega⟩
    have hlen := (shellPass_perm (interval * 3 + 1) l).length_eq
    have hdiv : (interval * 3 + 1) / 3 = interval := by omega
    have hrest := ih (n := n) (by omega) (shellPass (interval * 3 + 1) l)
    rw [shellLoop, if_neg (by omega), hdiv, ← hlen]
    exact hrest

theorem shellSort_sorted (l : List ℕ) : SortedTo (shellSort l) l.length :=
  shellLoop_sorted (shellInterval_interval _ _ .one) (Nat.le_refl _) l

/-- The list without doubles ascends strictly once it is sorted. -/
theorem shellSort_strict (h : l.Nodup) {a b : ℕ} (hab : a < b) (hb : b < l.length) :
    (shellSort l).getD a 0 < (shellSort l).getD b 0 := by
  have hlen := (shellSort_perm l).length_eq
  have hnodup := (shellSort_perm l).nodup_iff.mpr h
  have hle := shellSort_sorted l a b hab hb
  refine Nat.lt_of_le_of_ne hle fun heq => ?_
  rw [List.getD_eq_getElem _ _ (by omega), List.getD_eq_getElem _ _ (by omega)] at heq
  exact absurd ((hnodup.getElem_inj_iff).1 heq) (Nat.ne_of_lt hab)

/-- The `r` entries in front of position `j` count up to it. -/
def CountsUp (v : List ℕ) (j r : ℕ) : Prop :=
  ∀ k < r, k < j ∧ v.getD (j - k - 1) 0 + 1 = v.getD (j - k) 0

theorem countsUp_succ {j : ℕ} :
    CountsUp v (j + 1) (r + 1) ↔ v.getD j 0 + 1 = v.getD (j + 1) 0 ∧ CountsUp v j r := by
  constructor
  · intro h
    refine ⟨(h 0 (by omega)).2, fun k hk => ?_⟩
    obtain ⟨hj, heq⟩ := h (k + 1) (by omega)
    rw [show j + 1 - (k + 1) - 1 = j - k - 1 by omega, show j + 1 - (k + 1) = j - k by omega] at heq
    exact ⟨by omega, heq⟩
  · rintro ⟨hnext, h⟩ (_ | k) hk
    · exact ⟨by omega, hnext⟩
    · obtain ⟨hj, heq⟩ := h k (by omega)
      rw [show j + 1 - (k + 1) - 1 = j - k - 1 by omega, show j + 1 - (k + 1) = j - k by omega]
      exact ⟨by omega, heq⟩

/-- A search without result has seen no run that is long enough. -/
theorem findRun_none (hlt : ∀ x ∈ v, x < 2 ^ 30) (hn : ix + n + 1 = v.length)
    (hlong : contiguous < count) (hmax : ∀ r, CountsUp v ix r → r + 1 ≤ contiguous)
    (h : findRun v count n ix contiguous start = none) :
    ∀ j, ix < j → j ≤ ix + n → ∀ r, CountsUp v j r → r + 1 < count := by
  induction n generalizing ix contiguous start with
  | zero => exact fun j hj hj' => by omega
  | succ n ih =>
    have hget : v.getD ix 0 < 2 ^ 30 := by
      have hlen : ix < v.length := by omega
      rw [List.getD_eq_getElem _ _ hlen]
      exact hlt _ (List.getElem_mem hlen)
    rw [findRun, Nat.mod_eq_of_lt (by omega)] at h
    have hmax' : ∀ r, CountsUp v (ix + 1) r →
        r + 1 ≤ if v.getD ix 0 + 1 = v.getD (ix + 1) 0 then contiguous + 1 else 1 := by
      rintro (_ | r) hr
      · split_ifs <;> omega
      · obtain ⟨hnext, hr⟩ := countsUp_succ.1 hr
        have := hmax r hr
        rw [if_pos hnext]
        omega
    by_cases hfound : (if v.getD ix 0 + 1 = v.getD (ix + 1) 0 then contiguous + 1 else 1) = count
    · rw [if_pos hfound] at h
      cases h
    · rw [if_neg hfound] at h
      have hlong' : (if v.getD ix 0 + 1 = v.getD (ix + 1) 0 then contiguous + 1 else 1) < count := by
        split_ifs at hfound ⊢ <;> omega
      intro j hj hj' r hr
      by_cases hix : j = ix + 1
      · rw [hix] at hr
        exact Nat.lt_of_le_of_lt (hmax' r hr) hlong'
      · exact ih (by omega) hlong' hmax' h j (by omega) (by omega) r hr

/-- `count` ids in succession. -/
def HasRun (l : List ℕ) (count : ℕ) : Prop := ∃ id, ∀ k < count, id + k ∈ l

/-- In a list that ascends strictly, ids in succession stand next to each other. -/
theorem countsUp_of_run {id j : ℕ}
    (hv : ∀ a b, a < b → b < v.length → v.getD a 0 < v.getD b 0) (hj : j < v.length)
    (hlast : v.getD j 0 = id + count) (hrun : ∀ k < count, id + k ∈ v) : CountsUp v j count := by
  induction count generalizing j with
  | zero => exact fun k hk => absurd hk (Nat.not_lt_zero k)
  | succ count ih =>
    obtain ⟨q, hq, hget⟩ := List.mem_iff_getElem.1 (hrun count (by omega))
    have hgetD : v.getD q 0 = id + count := by rw [List.getD_eq_getElem _ _ hq, hget]
    have hqj : q < j := by
      rcases Nat.lt_trichotomy q j with h | h | h
      · exact h
      · rw [h] at hgetD
        omega
      · have := hv j q h hq
        omega
    have hnext : q + 1 = j := by
      by_contra hne
      have hbetween := hv q (q + 1) (by omega) (by omega)
      have hbetween' := hv (q + 1) j (by omega) hj
      omega
    subst hnext
    exact countsUp_succ.2 ⟨by omega, ih hq hgetD fun k hk => hrun k (by omega)⟩

/-- The search finds a run if there is one. -/
theorem not_hasRun_of_findRun (hlt : ∀ x ∈ v, x < 2 ^ 30)
    (hv : ∀ a b, a < b → b < v.length → v.getD a 0 < v.getD b 0) (hcount : 2 ≤ count)
    (h : findRun v count (v.length - 1) 0 1 0 = none) : ¬HasRun v count := by
  rintro ⟨id, hrun⟩
  obtain ⟨count, rfl⟩ : ∃ k, count = k + 1 := ⟨count - 1, by omega⟩
  obtain ⟨j, hj, hget⟩ := List.mem_iff_getElem.1 (hrun count (by omega))
  have hgetD : v.getD j 0 = id + count := by rw [List.getD_eq_getElem _ _ hj, hget]
  have hup := countsUp_of_run hv hj hgetD fun k hk => hrun k (by omega)
  have hpos : 0 < j := (Nat.zero_le _).trans_lt (hup 0 (by omega)).1
  have hmax : ∀ r, CountsUp v 0 r → r + 1 ≤ 1 := by
    rintro (_ | r) hr
    · exact Nat.le_refl 1
    · exact absurd (hr 0 (by omega)).1 (by omega)
  have hshort := findRun_none hlt (by omega) (by omega) hmax h j hpos (by omega) count hup
  omega

end NtAdmin.Wmi.PageMgr
