import Mathlib.Data.ZMod.Defs
import NtAdmin.Wmi.Esscli.SortedArrayUnion

/-! When the operations on arrays of query ids are those of finite sets. -/
namespace NtAdmin.Wmi.Esscli
open Lib CSortedArray

variable {alloc : ℕ → Bool} {a b c : CFlexArray} {v : CValueNode} {n : QueryID}

/-! ### The comparison -/

theorem nCompare_eq (x y : QueryID) : nCompare x y =
    if x.val ≤ y.val then
      if y.val - x.val ≤ 2 ^ 31 then (x.val : ℤ) - y.val else x.val - y.val + 2 ^ 32
    else if x.val - y.val < 2 ^ 31 then (x.val : ℤ) - y.val else x.val - y.val - 2 ^ 32 := by
  have hx := x.isLt
  have hy := y.isLt
  have hword : ((2 ^ 32 : ℕ) : ℤ) = 4294967296 := rfl
  rw [nCompare, Int.bmod_def, hword]
  split_ifs <;> omega

theorem nCompare_eq_zero (x y : QueryID) : nCompare x y = 0 ↔ x = y := by
  rw [nCompare_eq, Fin.ext_iff]
  have hx := x.isLt
  have hy := y.isLt
  split_ifs <;> omega

/-- The difference tells the order of two ids that are near to each other. -/
theorem nCompare_neg_iff (x y : QueryID) : (nCompare x y < 0 ↔ x < y) ↔
    (x < y → y.val - x.val ≤ 2 ^ 31) ∧ (y < x → x.val - y.val < 2 ^ 31) := by
  rw [nCompare_eq, Fin.lt_def, Fin.lt_def]
  have hx := x.isLt
  have hy := y.isLt
  split_ifs <;> omega

/-- Elements of both arrays that are next to each other differ by no more than an `int` holds. -/
def NeighboursNear (a b : CFlexArray) : Prop :=
  ∀ k < a.m_nSize, ∀ l < b.m_nSize,
    (k + 1 < a.m_nSize → b.m_pArray l < a.m_pArray (k + 1)) →
    (l + 1 < b.m_nSize → a.m_pArray k < b.m_pArray (l + 1)) →
    (a.m_pArray k < b.m_pArray l → (b.m_pArray l).val - (a.m_pArray k).val ≤ 2 ^ 31) ∧
    (b.m_pArray l < a.m_pArray k → (a.m_pArray k).val - (b.m_pArray l).val < 2 ^ 31)

theorem neighboursNear_iff : NeighboursNear a b ↔
    TellsNeighbours nCompare a.m_pArray b.m_pArray a.m_nSize b.m_nSize := by
  unfold NeighboursNear TellsNeighbours
  simp only [nCompare_neg_iff]

/-! ### Union -/

/-- `c` has the ids of both arrays, in ascending order. -/
def IsUnion (a b c : CFlexArray) : Prop :=
  c.ids.Pairwise (· < ·) ∧ ∀ x, x ∈ c.ids ↔ x ∈ a.ids ∨ x ∈ b.ids

theorem addDataFrom_isUnion_iff (ha : IdSet a.m_pArray a.m_nSize)
    (hb : IdSet b.m_pArray b.m_nSize) : IsUnion a b (addDataFrom alloc a b).2 ↔
      (RoomFor alloc a b.m_nSize → NeighboursNear a b) ∧
      (¬RoomFor alloc a b.m_nSize → ∀ x ∈ b.ids, x ∈ a.ids) := by
  by_cases hroom : RoomFor alloc a b.m_nSize
  · obtain ⟨c, hrun, hids⟩ := addData_ids (B := b.m_pArray) hroom
    obtain ⟨l, hl, hmem⟩ := @mergeBack_append _ _ a.m_pArray b.m_pArray _ _ _ []
      (le_refl (a.m_nSize + b.m_nSize)) fun x y => (nCompare_eq_zero x y).mp
    have hc : (addDataFrom alloc a b).2 = c := congrArg Prod.snd hrun
    have hsorted : c.ids.Pairwise (· < ·) ↔ NeighboursNear a b := by
      rw [hids, neighboursNear_iff]
      exact pairwise_mergeBack_iff le_rfl nCompare_eq_zero ha.ascending hb.ascending
        List.Pairwise.nil (by simp) (by simp)
    have hunion : ∀ x, x ∈ c.ids ↔ x ∈ a.ids ∨ x ∈ b.ids := by
      intro x
      rw [hids, hl, List.append_nil, hmem, CFlexArray.ids, CFlexArray.ids, mem_ids, mem_ids]
    rw [hc, IsUnion, hsorted]
    constructor
    · rintro ⟨hnear, -⟩
      exact ⟨fun _ => hnear, fun h => absurd hroom h⟩
    · rintro ⟨hnear, -⟩
      exact ⟨hnear hroom, hunion⟩
  · have hc : (addDataFrom alloc a b).2 = a := congrArg Prod.snd (addData_of_no_room hroom)
    rw [hc, IsUnion]
    constructor
    · rintro ⟨-, hmem⟩
      exact ⟨fun h => absurd h hroom, fun _ x hx => (hmem x).mpr (Or.inr hx)⟩
    · rintro ⟨-, hsub⟩
      exact ⟨ha.ascending.pairwise, fun x => ⟨Or.inl, fun h => h.elim id (hsub hroom x)⟩⟩

/-! ### Insertion -/

/-- One more element comes into the array. -/
def RoomForOne (alloc : ℕ → Bool) (a : CFlexArray) : Prop :=
  a.m_nSize = a.m_nExtent →
    a.m_nGrowByPercent ≠ 0 ∧ alloc a.grownBytes = true ∧ a.m_nSize < a.grownBytes / 4

theorem insertAt_of_room (h : RoomForOne alloc a) (i : ℕ) :
    ∃ c, (a.insertAt alloc i n).map Prod.snd = some c ∧ c.m_pArray = (a.place i n).m_pArray ∧
      c.m_nSize = (a.place i n).m_nSize := by
  unfold CFlexArray.insertAt
  by_cases hfull : a.m_nSize = a.m_nExtent
  · obtain ⟨hgrow, halloc, hlt⟩ := h hfull
    rw [if_pos hfull, if_neg hgrow, if_pos halloc, if_pos hlt]
    refine ⟨_, rfl, ?_, ?_⟩ <;> unfold CFlexArray.place <;> split_ifs <;> rfl
  · rw [if_neg hfull]
    exact ⟨_, rfl, rfl, rfl⟩

theorem insertAt_of_no_room (h : ¬RoomForOne alloc a) (i : ℕ) :
    (a.insertAt alloc i n).map Prod.snd = some a ∨
      (a.insertAt alloc i n).map Prod.snd = none := by
  unfold RoomForOne at h
  push Not at h
  obtain ⟨hfull, hno⟩ := h
  unfold CFlexArray.insertAt
  rw [if_pos hfull]
  split_ifs with hgrow halloc hlt
  · exact Or.inl rfl
  · exact absurd hlt (not_lt.mpr (hno hgrow halloc))
  · exact Or.inr rfl
  · exact Or.inl rfl

/-- The index that `n` comes to: behind what is below it, before what is above it. -/
structure IsPlace (a : CFlexArray) (n : QueryID) (i : ℕ) : Prop where
  le : i ≤ a.m_nSize
  below : ∀ k < i, a.m_pArray k < n
  above : ∀ k, i ≤ k → k < a.m_nSize → n < a.m_pArray k

theorem IsPlace.not_mem {i : ℕ} (h : IsPlace a n i) : n ∉ a.ids := by
  intro hin
  obtain ⟨k, hk, heq⟩ := mem_ids.mp hin
  rcases Nat.lt_or_ge k i with hki | hik
  · exact absurd heq (h.below k hki).ne
  · exact absurd heq (h.above k hik hk).ne'

theorem isPlace_zero (hA : AscendingTo a.m_pArray a.m_nSize)
    (h : a.m_nSize = 0 ∨ n < a.m_pArray 0) : IsPlace a n 0 :=
  { le := Nat.zero_le _
    below := fun k hk => by omega
    above := fun k _ hk => (h.resolve_left (by omega)).trans_le (hA.le (Nat.zero_le k) hk) }

theorem isPlace_succ (hA : AscendingTo a.m_pArray a.m_nSize) {l : ℕ} (hl : l < a.m_nSize)
    (hbelow : a.m_pArray l < n) (habove : l + 1 < a.m_nSize → n < a.m_pArray (l + 1)) :
    IsPlace a n (l + 1) :=
  { le := hl
    below := fun k hk => (hA.le (show k ≤ l by omega) hl).trans_lt hbelow
    above := fun k hle hlt => (habove (by omega)).trans_le (hA.le hle hlt) }

/-- Insertion leaves the array alone where the id is there, else the id comes into its place. -/
theorem insert_eq (alloc : ℕ → Bool) (h : IdSet a.m_pArray a.m_nSize) (n : QueryID) :
    n ∈ a.ids ∧ CSortedArray.insert alloc a n = some a ∨
    ∃ i, IsPlace a n i ∧
      CSortedArray.insert alloc a n = (a.insertAt alloc i n).map Prod.snd := by
  have hA := h.ascending
  have hfits := h.fits
  unfold CSortedArray.insert
  by_cases hfirst : a.m_nSize = 0 ∨ n < a.m_pArray 0
  · exact Or.inr ⟨0, isPlace_zero hA hfirst, if_pos hfirst⟩
  simp only [if_neg hfirst]
  push Not at hfirst
  obtain ⟨hsize, hge⟩ := hfirst
  by_cases hlast : a.m_pArray (a.m_nSize - 1) < n
  · have hplace := isPlace_succ hA (show a.m_nSize - 1 < a.m_nSize by omega) hlast
      fun hlt => absurd hlt (by omega)
    rw [Nat.sub_add_cancel (by omega)] at hplace
    exact Or.inr ⟨a.m_nSize, hplace, if_pos hlast⟩
  rw [if_neg hlast]
  push Not at hlast
  by_cases hin : n ≠ a.m_pArray (a.m_nSize - 1) ∧ n ≠ a.m_pArray 0
  · rw [if_pos hin]
    have hgt : a.m_pArray 0 < n := lt_of_le_of_ne hge (Ne.symm hin.2)
    have hlt : n < a.m_pArray (a.m_nSize - 1) := lt_of_le_of_ne hlast hin.1
    have hlu : 0 < a.m_nSize - 1 := by
      rcases Nat.eq_zero_or_pos (a.m_nSize - 1) with hzero | hpos
      · rw [hzero] at hlt
        exact absurd hlt (lt_asymm hgt)
      · exact hpos
    obtain ⟨found, l, u, t, hsearch, hu, ht, htrue, hfalse, -⟩ :=
      searchLoop_spec a.m_nSize hlu (by omega) hgt hlt (by omega)
    rw [hsearch, Option.bind_some]
    cases found with
    | true =>
      have heq := htrue rfl
      exact Or.inl ⟨mem_ids.mpr ⟨t, by omega, heq⟩, if_neg (not_not.mpr heq.symm)⟩
    | false =>
      obtain ⟨hne, rfl, hl, hn⟩ := hfalse rfl
      have hplace := isPlace_succ hA (show l < a.m_nSize by omega) hl fun _ => hn
      exact Or.inr ⟨l + 1, hplace, (if_pos hne.symm).trans (if_neg (not_lt.mpr hl.le))⟩
  · refine Or.inl ⟨mem_ids.mpr ?_, if_neg hin⟩
    by_cases heq : n = a.m_pArray (a.m_nSize - 1)
    · exact ⟨_, by omega, heq.symm⟩
    · exact ⟨0, by omega, (not_not.mp fun h => hin ⟨heq, h⟩).symm⟩

/-- `c` has the ids of `a` and `n`, in ascending order. -/
def IsInsertion (a : CFlexArray) (n : QueryID) (c : CFlexArray) : Prop :=
  c.ids.Pairwise (· < ·) ∧ ∀ x, x ∈ c.ids ↔ x ∈ a.ids ∨ x = n

theorem insert_isInsertion_iff (h : IdSet a.m_pArray a.m_nSize) :
    (∃ c, CSortedArray.insert alloc a n = some c ∧ IsInsertion a n c) ↔
      n ∈ a.ids ∨ RoomForOne alloc a := by
  rcases insert_eq alloc h n with ⟨hin, hrun⟩ | ⟨i, hplace, hrun⟩
  · refine iff_of_true ⟨a, hrun, h.ascending.pairwise, fun x => ?_⟩ (Or.inl hin)
    exact ⟨Or.inl, fun hx => hx.elim id fun heq => heq ▸ hin⟩
  · rw [hrun]
    constructor
    · rintro ⟨c, hc, -, hmem⟩
      refine Or.inr (not_not.mp fun hroom => ?_)
      rcases insertAt_of_no_room (n := n) hroom i with hsame | hnone
      · obtain rfl := Option.some.inj (hsame.symm.trans hc)
        exact hplace.not_mem ((hmem n).mpr (Or.inr rfl))
      · exact Option.some_ne_none c (hc.symm.trans hnone)
    · intro hroom
      obtain ⟨c, hc, harray, hsize⟩ :=
        insertAt_of_room (n := n) (hroom.resolve_left hplace.not_mem) i
      obtain ⟨hsorted, hmem⟩ :=
        CFlexArray.place_spec h.ascending hplace.le hplace.below hplace.above
      refine ⟨c, hc, ?_, fun x => ?_⟩
      · rw [CFlexArray.ids, harray, hsize]
        exact hsorted.pairwise
      · rw [CFlexArray.ids, harray, hsize]
        exact hmem x

/-! ### Searches and removal -/

/-- The index of `n`, or that there is none. -/
def IsIndex (ids : ℕ → QueryID) (size : ℕ) (n : QueryID) (i : ℕ) : Prop :=
  i < size ∧ ids i = n ∨ i = InvalidID ∧ n ∉ (List.range size).map ids

/-- `c` has the ids of `l` without `n`, in ascending order, and `found` tells whether it was
there. -/
def IsRemoval (l : List QueryID) (n : QueryID) (found : Bool) (c : List QueryID) : Prop :=
  (found = true ↔ n ∈ l) ∧ c.Pairwise (· < ·) ∧ ∀ x, x ∈ c ↔ x ∈ l ∧ x ≠ n

theorem findId_isIndex {A : ℕ → QueryID} {size : ℕ} (h : IdSet A size) (n : QueryID) :
    ∃ i, findId A size n = some i ∧ IsIndex A size n i := by
  obtain ⟨i, hrun, hi⟩ := findId_spec h n
  refine ⟨i, hrun, hi.imp_right fun ⟨hnone, hne⟩ => ⟨hnone, fun hin => ?_⟩⟩
  obtain ⟨k, hk, heq⟩ := mem_ids.mp hin
  exact hne k hk heq

/-- An index that is found is not `InvalidID`. -/
theorem ne_invalidID {A : ℕ → QueryID} {size i : ℕ} (h : IdSet A size) (hi : i < size) :
    i ≠ InvalidID := by
  have hfits := h.fits
  unfold InvalidID
  omega

theorem isRemoval_of_not_mem {A : ℕ → QueryID} {size : ℕ} (h : IdSet A size)
    (hn : n ∉ (List.range size).map A) :
    IsRemoval ((List.range size).map A) n false ((List.range size).map A) := by
  refine ⟨iff_of_false Bool.false_ne_true hn, h.ascending.pairwise, fun x => ?_⟩
  exact ⟨fun hx => ⟨hx, fun heq => hn (heq ▸ hx)⟩, And.left⟩

theorem remove_isRemoval (h : IdSet a.m_pArray a.m_nSize) (n : QueryID) :
    ∃ found c, remove a n = some (found, c) ∧ IsRemoval a.ids n found c.ids := by
  obtain ⟨i, hrun, hi⟩ := findId_isIndex h n
  have hfind : find a n = some i := hrun
  rcases hi with ⟨hi, heq⟩ | ⟨rfl, hnot⟩
  · obtain ⟨hsorted, hmem⟩ := removeAt_spec h.ascending hi
    refine ⟨true, a.removeAt i, ?_, iff_of_true rfl (mem_ids.mpr ⟨i, hi, heq⟩),
      hsorted.pairwise, fun x => ?_⟩
    · rw [remove, hfind, Option.map_some, if_pos (ne_invalidID h hi)]
    · rw [hmem, heq]
  · refine ⟨false, a, ?_, isRemoval_of_not_mem h hnot⟩
    rw [remove, hfind, Option.map_some, if_neg (fun h => h rfl)]

theorem removeQueryID_isRemoval (h : IdSet v.m_trueIDs v.m_nValues) (n : QueryID) :
    ∃ found w, v.removeQueryID n = some (found, w) ∧ IsRemoval v.ids n found w.ids := by
  obtain ⟨i, hrun, hi⟩ := findId_isIndex h n
  have hfind : v.findQueryID n = some i := hrun
  rcases hi with ⟨hi, heq⟩ | ⟨rfl, hnot⟩
  · have hremove : ∃ m, v.removeQueryID n = some (true, ⟨v.m_nValues - 1, m⟩) ∧
        ∀ k < v.m_nValues - 1, m k = if k < i then v.m_trueIDs k else v.m_trueIDs (k + 1) := by
      rw [CValueNode.removeQueryID, hfind, Option.map_some, if_pos (ne_invalidID h hi)]
      refine ⟨_, congrArg (fun w => some (true, w)) (if_pos (by omega)), fun k hk => ?_⟩
      rw [Function.update_of_ne (by omega)]
      split_ifs with hmove hki hki
      · rw [moveMemory, if_neg (by omega)]
      · rw [moveMemory, if_pos (by omega)]
        congr 1
        omega
      · rfl
      · omega
    obtain ⟨m, hrun, hm⟩ := hremove
    obtain ⟨hsorted, hmem⟩ := ascending_without h.ascending hi hm
    refine ⟨_, _, hrun, iff_of_true rfl (mem_ids.mpr ⟨i, hi, heq⟩), ?_⟩
    refine ⟨hsorted.pairwise, fun x => ?_⟩
    rw [← heq]
    exact hmem x
  · refine ⟨false, v, ?_, isRemoval_of_not_mem h hnot⟩
    rw [CValueNode.removeQueryID, hfind, Option.map_some, if_neg (fun h => h rfl)]

/-! ### All operations -/

/-- The operations on the array `a`, with another one, a node and an id, are those of sets. -/
structure SetAlgebra (alloc : ℕ → Bool) (a b : CFlexArray) (v : CValueNode) (n : QueryID) :
    Prop where
  addDataFrom : IsUnion a b (addDataFrom alloc a b).2
  addDataFromValues : IsUnion a b (addDataFromValues alloc a b.m_pArray b.m_nSize).2
  insert : ∃ c, CSortedArray.insert alloc a n = some c ∧ IsInsertion a n c
  remove : ∃ found c, remove a n = some (found, c) ∧ IsRemoval a.ids n found c.ids
  find : ∃ i, find a n = some i ∧ IsIndex a.m_pArray a.m_nSize n i
  findQueryID : ∃ i, v.findQueryID n = some i ∧ IsIndex v.m_trueIDs v.m_nValues n i
  removeQueryID : ∃ found w, v.removeQueryID n = some (found, w) ∧
    IsRemoval v.ids n found w.ids

/-- They are if neighbours in the two arrays are near enough for a signed difference, and if the
array finds the memory that it needs. -/
theorem setAlgebra_iff (alloc : ℕ → Bool) (a b : CFlexArray) (v : CValueNode) (n : QueryID)
    (ha : IdSet a.m_pArray a.m_nSize) (hb : IdSet b.m_pArray b.m_nSize)
    (hv : IdSet v.m_trueIDs v.m_nValues) : SetAlgebra alloc a b v n ↔
      ((RoomFor alloc a b.m_nSize → NeighboursNear a b) ∧
        (¬RoomFor alloc a b.m_nSize → ∀ x ∈ b.ids, x ∈ a.ids)) ∧
      (n ∈ a.ids ∨ RoomForOne alloc a) := by
  constructor
  · intro h
    exact ⟨(addDataFrom_isUnion_iff ha hb).mp h.addDataFrom,
      (insert_isInsertion_iff ha).mp h.insert⟩
  · rintro ⟨hunion, hinsert⟩
    have hc := (addDataFrom_isUnion_iff ha hb).mpr hunion
    exact {
      addDataFrom := hc
      addDataFromValues := hc
      insert := (insert_isInsertion_iff ha).mpr hinsert
      remove := remove_isRemoval ha n
      find := findId_isIndex ha n
      findQueryID := findId_isIndex hv n
      removeQueryID := removeQueryID_isRemoval hv n }

/-- Two arrays of one id each, that are more than half the range apart. -/
def lowId : CFlexArray :=
  { m_pArray := fun _ => 0, m_nSize := 1, m_nExtent := 64, m_nGrowByPercent := 100 }

def highId : CFlexArray :=
  { m_pArray := fun _ => 2 ^ 31 + 1, m_nSize := 1, m_nExtent := 64, m_nGrowByPercent := 100 }

def lowNode : CValueNode := { m_nValues := 1, m_trueIDs := fun _ => 0 }

theorem idSet_one (A : ℕ → QueryID) : IdSet A 1 :=
  { ascending := fun _ _ _ _ => by omega
    fits := by decide }

/-- An array of three ids. -/
def threeIds (low middle high : QueryID) : CFlexArray :=
  { m_pArray := fun k => [low, middle, high].getD k 0, m_nSize := 3, m_nExtent := 64,
    m_nGrowByPercent := 100 }

def threeIdsNode : CValueNode := { m_nValues := 3, m_trueIDs := (threeIds 1 5 9).m_pArray }

theorem idSet_three {low middle high : QueryID} (hlow : low < middle) (hhigh : middle < high) :
    IdSet (threeIds low middle high).m_pArray 3 := by
  refine ⟨fun k k' hk hk' => ?_, by decide⟩
  obtain ⟨rfl, rfl⟩ | ⟨rfl, rfl⟩ | ⟨rfl, rfl⟩ :
      k = 0 ∧ k' = 1 ∨ k = 0 ∧ k' = 2 ∨ k = 1 ∧ k' = 2 := by omega
  · exact hlow
  · exact hlow.trans hhigh
  · exact hhigh

/-- Two arrays with an id in common. -/
theorem setAlgebra_threeIds :
    SetAlgebra (fun _ => true) (threeIds 1 5 9) (threeIds 2 5 7) threeIdsNode 5 := by
  have hnear : NeighboursNear (threeIds 1 5 9) (threeIds 2 5 7) := by
    intro k hk l hl _ _
    obtain rfl | rfl | rfl : k = 0 ∨ k = 1 ∨ k = 2 := by
      change k < 3 at hk
      omega
    all_goals
      obtain rfl | rfl | rfl : l = 0 ∨ l = 1 ∨ l = 2 := by
        change l < 3 at hl
        omega
      all_goals decide
  exact (setAlgebra_iff _ _ _ _ _ (idSet_three (by decide) (by decide))
    (idSet_three (by decide) (by decide)) (idSet_three (by decide) (by decide))).mpr
      ⟨⟨fun _ => hnear, fun h => absurd (Or.inr (Or.inr rfl)) h⟩,
        Or.inr fun h => absurd h (by decide)⟩

theorem not_setAlgebra : ¬∀ (alloc : ℕ → Bool) (a b : CFlexArray) (v : CValueNode) (n : QueryID),
    IdSet a.m_pArray a.m_nSize → IdSet b.m_pArray b.m_nSize → IdSet v.m_trueIDs v.m_nValues →
    SetAlgebra alloc a b v n := by
  intro h
  obtain ⟨hsorted, -⟩ := (h (fun _ => true) lowId highId lowNode 0 (idSet_one _) (idSet_one _)
    (idSet_one _)).addDataFrom
  exact absurd hsorted (by decide +kernel)

end NtAdmin.Wmi.Esscli
