import NtAdmin.Wmi.Btr.IteratorBatch
import NtAdmin.Wmi.Btr.KeyTable

/-! The string pool of a page of btr.cpp while keys are added and removed. Memory can be
allocated. -/
namespace NtAdmin.Wmi.Btr
open Lib Win32Error

def MAX_WORD_VALUE : ℕ := 0xFFFF
def const_DefaultPoolSize : ℕ := 0x2200

/-- A pool with the sizes of its two arrays. -/
structure GrowingPool extends SIdxStringPool where
  dwOffsetsSize : ℕ
  dwPoolTotalSize : ℕ

/-- The string at an offset of the pool. -/
def stringAt (stringPool : List UInt8) (offset : UInt16) : List UInt8 :=
  (stringPool.drop offset.toNat).takeWhile (· ≠ 0)

/-- What `strcmp` returns, up to its size. -/
def byteDifference (a b : List UInt8) : ℤ := difference (fun c => c.toNat) a b

/-- `SIdxStringPool::FindStr`: whether the string is in the pool, and its number or where it would
be. -/
def findStr (pool : SIdxStringPool) (pszSearchKey : List UInt8) : Bool × ℕ :=
  if pool.dwNumStrings = 0 then (false, 0)
  else
    binarySearch
      (fun offset => compare (byteDifference pszSearchKey (stringAt pool.stringPool offset)) 0)
      pool.pwOffsets pool.dwNumStrings 0 pool.dwNumStrings 0

namespace GrowingPool
variable (pool : GrowingPool)

/-- `SIdxStringPool::AddStr`, with what the numbers from `wInsertPos` on are moved by. `none` is a
write behind one of the arrays. -/
def addStr (pszString : List UInt8) (wInsertPos : ℕ) :
    Option (Except Win32Error (ℤ × GrowingPool)) :=
  let dwRequired := pszString.length + 1
  if MAX_WORD_VALUE < pool.dwPoolUsed + dwRequired - 1 then
    some (.error ERROR_INSUFFICIENT_BUFFER)
  else
    let dwPoolTotalSize := if pool.dwPoolTotalSize - pool.dwPoolUsed < dwRequired then
      pool.dwPoolTotalSize * 2 else pool.dwPoolTotalSize
    let dwOffsetsSize := if pool.dwNumStrings = pool.dwOffsetsSize then
      pool.dwOffsetsSize * 2 else pool.dwOffsetsSize
    if pool.dwPoolUsed + dwRequired ≤ dwPoolTotalSize ∧ pool.dwNumStrings < dwOffsetsSize then
      some (.ok (if pool.dwNumStrings - wInsertPos = 0 then 0 else 1, {
        pwOffsets := pool.pwOffsets.take wInsertPos ++
          UInt16.ofNat pool.dwPoolUsed :: pool.pwOffsets.drop wInsertPos
        stringPool := pool.stringPool ++ (pszString ++ [0])
        dwOffsetsSize := dwOffsetsSize
        dwPoolTotalSize := dwPoolTotalSize }))
    else none

/-- `SIdxStringPool::DeleteStr`, with what the numbers behind are moved by. -/
def deleteStr (wStringNum : ℕ) : ℤ × GrowingPool :=
  let target := pool.pwOffsets.getD wStringNum 0
  let dwDoomedStrLen := (stringAt pool.stringPool target).length + 1
  (if pool.dwNumStrings - wStringNum - 1 = 0 then 0 else -1, { pool with
    pwOffsets := (pool.pwOffsets.eraseIdx wStringNum).map fun offset =>
      if target < offset then offset - UInt16.ofNat dwDoomedStrLen else offset
    stringPool := pool.stringPool.take target.toNat ++
      pool.stringPool.drop (target.toNat + dwDoomedStrLen) })

end GrowingPool

/-! ### The strings of a pool -/

/-- A string with its terminator stands at an offset of the pool. -/
def StoredAt (stringPool : List UInt8) (seg : UInt16 × List UInt8) : Prop :=
  0 ∉ seg.2 ∧ ∃ rest, stringPool.drop seg.1.toNat = seg.2 ++ 0 :: rest

/-- Two strings do not overlap. -/
def NoOverlap (a b : UInt16 × List UInt8) : Prop :=
  a.1.toNat + a.2.length < b.1.toNat ∨ b.1.toNat + b.2.length < a.1.toNat

/-- The pool has these strings at these offsets, in the order of `strcmp`. -/
structure PoolHolds (pool : SIdxStringPool) (segs : List (UInt16 × List UInt8)) : Prop where
  offsets : pool.pwOffsets = segs.map Prod.fst
  stored : ∀ seg ∈ segs, StoredAt pool.stringPool seg
  noOverlap : segs.Pairwise NoOverlap
  sorted : segs.Pairwise fun a b => byteDifference a.2 b.2 < 0

variable {pool : SIdxStringPool} {segs : List (UInt16 × List UInt8)}
  {seg : UInt16 × List UInt8} {s : List UInt8}

theorem takeWhile_terminated (hs : 0 ∉ s) (rest : List UInt8) :
    (s ++ 0 :: rest).takeWhile (· ≠ 0) = s := by
  rw [List.takeWhile_append_of_pos, List.takeWhile_cons_of_neg (by simp), List.append_nil]
  intro c hc
  exact decide_eq_true fun heq => hs (heq ▸ hc)

theorem StoredAt.stringAt {stringPool : List UInt8} (h : StoredAt stringPool seg) :
    stringAt stringPool seg.1 = seg.2 := by
  obtain ⟨hnul, rest, hrest⟩ := h
  rw [Btr.stringAt, hrest]
  exact takeWhile_terminated hnul rest

/-- A stored string ends in the pool. -/
theorem StoredAt.end_le {stringPool : List UInt8} (h : StoredAt stringPool seg) :
    seg.1.toNat + seg.2.length < stringPool.length := by
  obtain ⟨-, rest, hrest⟩ := h
  have hlength := congrArg List.length hrest
  rw [List.length_drop, List.length_append, List.length_cons] at hlength
  omega

theorem StoredAt.append {stringPool : List UInt8} (h : StoredAt stringPool seg)
    (more : List UInt8) : StoredAt (stringPool ++ more) seg := by
  have hend := h.end_le
  obtain ⟨hnul, rest, hrest⟩ := h
  refine ⟨hnul, rest ++ more, ?_⟩
  rw [List.drop_append_of_le_length (by omega), hrest, List.append_assoc, List.cons_append]

/-- A string in front of the bytes that are taken out. -/
theorem StoredAt.remove_behind {stringPool : List UInt8} (h : StoredAt stringPool seg)
    {start count : ℕ} (hbefore : seg.1.toNat + seg.2.length < start)
    (hin : start ≤ stringPool.length) :
    StoredAt (stringPool.take start ++ stringPool.drop (start + count)) seg := by
  obtain ⟨hnul, rest, hrest⟩ := h
  refine ⟨hnul, rest.take (start - seg.1.toNat - seg.2.length - 1) ++
    stringPool.drop (start + count), ?_⟩
  have hlength : (stringPool.take start).length = start := List.length_take_of_le hin
  rw [List.drop_append_of_le_length (by omega), List.drop_take, hrest, List.take_append,
    List.take_of_length_le (by omega)]
  obtain ⟨n, hn⟩ : ∃ n, start - seg.1.toNat - seg.2.length = n + 1 :=
    ⟨start - seg.1.toNat - seg.2.length - 1, by omega⟩
  rw [hn, List.take_succ_cons, Nat.add_sub_cancel, List.append_assoc, List.cons_append]

/-- A string behind the bytes that are taken out. -/
theorem StoredAt.remove_before {stringPool : List UInt8} (h : StoredAt stringPool seg)
    {start : ℕ} {count : UInt16} (hbehind : start + count.toNat ≤ seg.1.toNat) :
    StoredAt (stringPool.take start ++ stringPool.drop (start + count.toNat))
      (seg.1 - count, seg.2) := by
  have hend := h.end_le
  obtain ⟨hnul, rest, hrest⟩ := h
  refine ⟨hnul, rest, ?_⟩
  have hlength : (stringPool.take start).length = start := List.length_take_of_le (by omega)
  have hle : count ≤ seg.1 := UInt16.le_iff_toNat_le.mpr (by omega)
  dsimp only
  rw [UInt16.toNat_sub_of_le _ _ hle, List.drop_append, hlength, List.drop_drop,
    List.drop_of_length_le (by omega), List.nil_append, ← hrest]
  congr 1
  omega

/-! ### Searching -/

theorem byteDifference_neg (a b : List UInt8) : byteDifference b a = -byteDifference a b :=
  difference_neg a b

theorem toNat_injective : Function.Injective fun c : UInt8 => (c.toNat : ℤ) := fun _ _ h =>
  UInt8.toNat_inj.mp (Int.ofNat_inj.mp h)

theorem PoolHolds.length (h : PoolHolds pool segs) : pool.dwNumStrings = segs.length := by
  rw [SIdxStringPool.dwNumStrings, h.offsets, List.length_map]

/-- The probes of the search, in terms of the strings. -/
theorem PoolHolds.probe (h : PoolHolds pool segs) {i : ℕ} {offset : UInt16}
    (hi : pool.pwOffsets[i]? = some offset) :
    ∃ seg, segs[i]? = some seg ∧ seg.1 = offset ∧ stringAt pool.stringPool offset = seg.2 := by
  rw [h.offsets, List.getElem?_map, Option.map_eq_some_iff] at hi
  obtain ⟨seg, hseg, rfl⟩ := hi
  exact ⟨seg, hseg, rfl, (h.stored seg (List.mem_of_getElem? hseg)).stringAt⟩

/-- Numbers of strings come in the order of `strcmp`. -/
theorem PoolHolds.less (h : PoolHolds pool segs) {i j : ℕ} {a b : UInt16 × List UInt8}
    (hij : i < j) (ha : segs[i]? = some a) (hb : segs[j]? = some b) :
    byteDifference a.2 b.2 < 0 := by
  obtain ⟨hi, rfl⟩ := List.getElem?_eq_some_iff.mp ha
  obtain ⟨hj, rfl⟩ := List.getElem?_eq_some_iff.mp hb
  exact List.pairwise_iff_getElem.mp h.sorted i j hi hj hij

/-- `FindStr` finds the string, or where it has to be inserted. -/
theorem findStr_spec (h : PoolHolds pool segs) (hs : 0 ∉ s) :
    (∃ i seg, findStr pool s = (true, i) ∧ segs[i]? = some seg ∧ seg.2 = s) ∨
    ∃ u v, segs = u ++ v ∧ findStr pool s = (false, u.length) ∧
      (∀ seg ∈ u, byteDifference seg.2 s < 0) ∧ ∀ seg ∈ v, byteDifference s seg.2 < 0 := by
  have hlength := h.length
  rw [findStr]
  split_ifs with hempty
  · right
    rw [hempty] at hlength
    obtain rfl := List.length_eq_zero_iff.mp hlength.symm
    exact ⟨[], [], rfl, rfl, List.forall_mem_nil _, List.forall_mem_nil _⟩
  have hsorted (i j : ℕ) (x y : UInt16) (hij : i < j) (hx : pool.pwOffsets[i]? = some x)
      (hy : pool.pwOffsets[j]? = some y) :
      (compare (byteDifference s (stringAt pool.stringPool x)) 0 = .lt →
        compare (byteDifference s (stringAt pool.stringPool y)) 0 = .lt) ∧
      (compare (byteDifference s (stringAt pool.stringPool y)) 0 = .gt →
        compare (byteDifference s (stringAt pool.stringPool x)) 0 = .gt) := by
    obtain ⟨a, ha, -, hax⟩ := h.probe hx
    obtain ⟨b, hb, -, hby⟩ := h.probe hy
    have hab := h.less hij ha hb
    rw [hax, hby, compare_lt_iff_lt, compare_lt_iff_lt, compare_gt_iff_gt, compare_gt_iff_gt]
    constructor
    · exact fun hlt => difference_trans hlt hab
    · intro hgt
      have hbs : byteDifference b.2 s < 0 := by rw [byteDifference_neg]; omega
      have has : byteDifference a.2 s < 0 := difference_trans hab hbs
      rw [byteDifference_neg] at has
      omega
  have hsize : pool.dwNumStrings = pool.pwOffsets.length := rfl
  rcases binarySearch_all (Nat.le_of_eq hsize.symm) hsorted with
    ⟨i, x, hrun, hx, heq⟩ | ⟨i, hi, hrun, hbelow, habove⟩
  · left
    obtain ⟨seg, hseg, -, hstring⟩ := h.probe hx
    rw [hstring, compare_eq_iff_eq] at heq
    have hnul := (h.stored seg (List.mem_of_getElem? hseg)).1
    exact ⟨i, seg, hrun, hseg, (eq_of_difference toNat_injective hs hnul heq).symm⟩
  · right
    have hoffset {j : ℕ} {seg : UInt16 × List UInt8} (hseg : segs[j]? = some seg) :
        pool.pwOffsets[j]? = some seg.1 ∧ stringAt pool.stringPool seg.1 = seg.2 := by
      constructor
      · rw [h.offsets, List.getElem?_map, hseg]
        rfl
      · exact (h.stored seg (List.mem_of_getElem? hseg)).stringAt
    refine ⟨segs.take i, segs.drop i, (List.take_append_drop i segs).symm, ?_, ?_, ?_⟩
    · rw [List.length_take_of_le (by omega)]
      exact hrun
    · intro seg hseg
      obtain ⟨j, hj⟩ := List.mem_iff_getElem?.mp hseg
      rw [List.getElem?_take] at hj
      split_ifs at hj with hji
      obtain ⟨hoff, hstring⟩ := hoffset hj
      have hgt := hbelow j seg.1 hji hoff
      rw [hstring, compare_gt_iff_gt] at hgt
      rw [byteDifference_neg]
      omega
    · intro seg hseg
      obtain ⟨j, hj⟩ := List.mem_iff_getElem?.mp hseg
      rw [List.getElem?_drop] at hj
      obtain ⟨hoff, hstring⟩ := hoffset hj
      have hlt := habove (i + j) seg.1 (Nat.le_add_right i j) hoff
      rw [hstring, compare_lt_iff_lt] at hlt
      exact hlt

/-! ### Adding and deleting a string -/

theorem pairwise_middle {α : Type} {R : α → α → Prop} {u v : List α} {x : α}
    (h : (u ++ v).Pairwise R) (hu : ∀ y ∈ u, R y x) (hv : ∀ y ∈ v, R x y) :
    (u ++ x :: v).Pairwise R := by
  rw [List.pairwise_append] at h ⊢
  obtain ⟨hpu, hpv, huv⟩ := h
  refine ⟨hpu, List.pairwise_cons.mpr ⟨hv, hpv⟩, fun y hy z hz => ?_⟩
  rcases List.mem_cons.mp hz with rfl | hz
  · exact hu y hy
  · exact huv y hy z hz

/-- The sizes of the arrays cover what is used of them, and a pool is as large as a new one. -/
structure Roomy (p : GrowingPool) : Prop where
  strings : p.dwNumStrings ≤ p.dwOffsetsSize
  offsets_pos : 0 < p.dwOffsetsSize
  pool : const_DefaultPoolSize ≤ p.dwPoolTotalSize

theorem addStr_spec {p : GrowingPool} {u v : List (UInt16 × List UInt8)} (hroom : Roomy p)
    (h : PoolHolds p.toSIdxStringPool (u ++ v)) (hs : 0 ∉ s)
    (hfit : p.dwPoolUsed + s.length + 1 ≤ const_DefaultPoolSize)
    (hbelow : ∀ seg ∈ u, byteDifference seg.2 s < 0)
    (habove : ∀ seg ∈ v, byteDifference s seg.2 < 0) :
    ∃ p' : GrowingPool,
      p.addStr s u.length = some (.ok (if v.length = 0 then 0 else 1, p')) ∧ Roomy p' ∧
      PoolHolds p'.toSIdxStringPool (u ++ (UInt16.ofNat p.dwPoolUsed, s) :: v) ∧
      p'.dwPoolUsed = p.dwPoolUsed + s.length + 1 ∧ p'.dwNumStrings = p.dwNumStrings + 1 := by
  have hlength := h.length
  rw [List.length_append] at hlength
  have hpage : const_DefaultPoolSize < 2 ^ 14 := by decide
  have hmax : ¬MAX_WORD_VALUE < p.dwPoolUsed + (s.length + 1) - 1 := by
    rw [MAX_WORD_VALUE]
    omega
  have hpoolRoom := hroom.pool
  have hstrings := hroom.strings
  have hpos := hroom.offsets_pos
  have hnoGrow : ¬p.dwPoolTotalSize - p.dwPoolUsed < s.length + 1 := by omega
  have hadj : (if p.dwNumStrings - u.length = 0 then (0 : ℤ) else 1) =
      if v.length = 0 then 0 else 1 := by
    rw [hlength, Nat.add_sub_cancel_left]
  have hroomFor : p.dwNumStrings <
      if p.dwNumStrings = p.dwOffsetsSize then p.dwOffsetsSize * 2 else p.dwOffsetsSize := by
    split_ifs <;> omega
  have hoffset : (UInt16.ofNat p.dwPoolUsed).toNat = p.dwPoolUsed := toNat_count (by omega)
  have hstrings' : (p.pwOffsets.take u.length ++
      UInt16.ofNat p.dwPoolUsed :: p.pwOffsets.drop u.length).length = p.dwNumStrings + 1 := by
    rw [List.length_append, List.length_cons, ← Nat.add_assoc, ← List.length_append,
      List.take_append_drop]
    rfl
  have hstored (seg : UInt16 × List UInt8) (hseg : seg ∈ u ++ v) :
      NoOverlap seg (UInt16.ofNat p.dwPoolUsed, s) := by
    left
    rw [hoffset]
    exact (h.stored seg hseg).end_le
  refine ⟨{
    pwOffsets := p.pwOffsets.take u.length ++
      UInt16.ofNat p.dwPoolUsed :: p.pwOffsets.drop u.length
    stringPool := p.stringPool ++ (s ++ [0])
    dwOffsetsSize := if p.dwNumStrings = p.dwOffsetsSize then p.dwOffsetsSize * 2 else
      p.dwOffsetsSize
    dwPoolTotalSize := p.dwPoolTotalSize }, ?_, ⟨?_, ?_, hpoolRoom⟩, ⟨?_, ?_, ?_, ?_⟩, ?_, hstrings'⟩
  · rw [GrowingPool.addStr, if_neg hmax]
    simp only [if_neg hnoGrow, hadj]
    rw [if_pos ⟨by omega, hroomFor⟩]
  · exact hstrings'.trans_le hroomFor
  · dsimp only
    split_ifs <;> omega
  · rw [h.offsets, ← List.map_take, ← List.map_drop, List.take_left, List.drop_left,
      List.map_append, List.map_cons]
  · intro seg hseg
    rcases List.mem_append.mp hseg with hseg | hseg
    · exact (h.stored seg (List.mem_append_left v hseg)).append _
    · rcases List.mem_cons.mp hseg with rfl | hseg
      · refine ⟨hs, [], ?_⟩
        rw [hoffset]
        exact List.drop_left
      · exact (h.stored seg (List.mem_append_right u hseg)).append _
  · refine pairwise_middle h.noOverlap (fun seg hseg => hstored seg (List.mem_append_left v hseg))
      fun seg hseg => (hstored seg (List.mem_append_right u hseg)).symm
  · exact pairwise_middle h.sorted hbelow habove
  · simp only [SIdxStringPool.dwPoolUsed, List.length_append, List.length_cons, List.length_nil]
    rfl

/-- Where a string is when one is taken out. -/
def moved (doomed seg : UInt16 × List UInt8) : UInt16 × List UInt8 :=
  (if doomed.1 < seg.1 then seg.1 - UInt16.ofNat (doomed.2.length + 1) else seg.1, seg.2)

theorem moved_cases {doomed : UInt16 × List UInt8} (h : NoOverlap doomed seg)
    (hcount : (UInt16.ofNat (doomed.2.length + 1)).toNat = doomed.2.length + 1) :
    (seg.1.toNat + seg.2.length < doomed.1.toNat ∧ moved doomed seg = seg) ∨
    (doomed.1.toNat + doomed.2.length < seg.1.toNat ∧
      moved doomed seg = (seg.1 - UInt16.ofNat (doomed.2.length + 1), seg.2) ∧
      (moved doomed seg).1.toNat = seg.1.toNat - (doomed.2.length + 1)) := by
  rcases h with h | h
  · right
    have hlt : doomed.1 < seg.1 := UInt16.lt_iff_toNat_lt.mpr (by omega)
    have hle : UInt16.ofNat (doomed.2.length + 1) ≤ seg.1 :=
      UInt16.le_iff_toNat_le.mpr (by omega)
    refine ⟨h, ?_, ?_⟩
    · rw [moved, if_pos hlt]
    · rw [moved, if_pos hlt, UInt16.toNat_sub_of_le _ _ hle, hcount]
  · left
    have hnot : ¬doomed.1 < seg.1 := fun hlt => by
      have hlt' := UInt16.lt_iff_toNat_lt.mp hlt
      omega
    exact ⟨h, by rw [moved, if_neg hnot]⟩

theorem moved_noOverlap {doomed a b : UInt16 × List UInt8} (ha : NoOverlap doomed a)
    (hb : NoOverlap doomed b) (hab : NoOverlap a b)
    (hcount : (UInt16.ofNat (doomed.2.length + 1)).toNat = doomed.2.length + 1) :
    NoOverlap (moved doomed a) (moved doomed b) := by
  have ha2 : (moved doomed a).2 = a.2 := rfl
  have hb2 : (moved doomed b).2 = b.2 := rfl
  unfold NoOverlap at hab ⊢
  rw [ha2, hb2]
  rcases moved_cases ha hcount with ⟨hlow, hmove⟩ | ⟨hhigh, -, hmove⟩ <;>
    rcases moved_cases hb hcount with ⟨hlow', hmove'⟩ | ⟨hhigh', -, hmove'⟩ <;>
      rw [hmove, hmove'] <;> omega

theorem deleteStr_spec {p : GrowingPool} {u v : List (UInt16 × List UInt8)} (hroom : Roomy p)
    (h : PoolHolds p.toSIdxStringPool (u ++ seg :: v))
    (hused : p.dwPoolUsed ≤ const_DefaultPoolSize) :
    ∃ p' : GrowingPool, p.deleteStr u.length = (if v.length = 0 then 0 else -1, p') ∧ Roomy p' ∧
      PoolHolds p'.toSIdxStringPool ((u ++ v).map (moved seg)) ∧
      p'.dwPoolUsed ≤ p.dwPoolUsed ∧ p'.dwNumStrings + 1 = p.dwNumStrings := by
  have hpage : const_DefaultPoolSize < 2 ^ 14 := by decide
  have hlength := h.length
  rw [List.length_append, List.length_cons] at hlength
  have hseg := h.stored seg (List.mem_append_right u List.mem_cons_self)
  have hend := hseg.end_le
  have hpoolUsed : p.dwPoolUsed = p.stringPool.length := rfl
  have hcount : (UInt16.ofNat (seg.2.length + 1)).toNat = seg.2.length + 1 :=
    toNat_count (by omega)
  have htarget : p.pwOffsets.getD u.length 0 = seg.1 := by
    rw [h.offsets, List.map_append, List.map_cons, List.getD_eq_getElem?_getD,
      List.getElem?_append_right (by rw [List.length_map]), List.length_map, Nat.sub_self]
    rfl
  have herase : p.pwOffsets.eraseIdx u.length = (u ++ v).map Prod.fst := by
    rw [h.offsets, List.map_append, List.map_cons,
      List.eraseIdx_append_of_length_le (by rw [List.length_map]), List.length_map, Nat.sub_self,
      List.map_append]
    rfl
  have hadj : (if p.dwNumStrings - u.length - 1 = 0 then (0 : ℤ) else -1) =
      if v.length = 0 then 0 else -1 := by
    rw [hlength]
    congr 2
    omega
  have hmid := List.pairwise_append.mp h.noOverlap
  have hdoomed (y : UInt16 × List UInt8) (hy : y ∈ u ++ v) : NoOverlap seg y := by
    rcases List.mem_append.mp hy with hy | hy
    · exact (hmid.2.2 y hy seg List.mem_cons_self).symm
    · exact (List.pairwise_cons.mp hmid.2.1).1 y hy
  have hmem (y : UInt16 × List UInt8) (hy : y ∈ u ++ v) : y ∈ u ++ seg :: v :=
    List.mem_append.mpr ((List.mem_append.mp hy).imp_right (List.mem_cons_of_mem seg))
  have hsub : (u ++ v).Sublist (u ++ seg :: v) := (List.sublist_cons_self seg v).append_left u
  have hoffsets : (p.pwOffsets.eraseIdx u.length).map (fun offset =>
      if seg.1 < offset then offset - UInt16.ofNat (seg.2.length + 1) else offset) =
      ((u ++ v).map (moved seg)).map Prod.fst := by
    rw [herase, List.map_map, List.map_map]
    rfl
  refine ⟨{ p with
    pwOffsets := ((u ++ v).map (moved seg)).map Prod.fst
    stringPool := p.stringPool.take seg.1.toNat ++
      p.stringPool.drop (seg.1.toNat + (seg.2.length + 1)) }, ?_, ⟨?_, hroom.offsets_pos, hroom.pool⟩,
    ⟨rfl, ?_, ?_, ?_⟩, ?_, ?_⟩
  · rw [GrowingPool.deleteStr]
    simp only [htarget, hseg.stringAt, hadj, hoffsets]
  · have hstrings := hroom.strings
    simp only [SIdxStringPool.dwNumStrings, List.length_map, List.length_append] at hlength hstrings ⊢
    omega
  · intro y hy
    obtain ⟨x, hx, rfl⟩ := List.mem_map.mp hy
    rcases moved_cases (hdoomed x hx) hcount with ⟨hlow, hmove⟩ | ⟨hhigh, hmove, -⟩
    · rw [hmove]
      exact (h.stored x (hmem x hx)).remove_behind hlow (by omega)
    · have hbehind : seg.1.toNat + (UInt16.ofNat (seg.2.length + 1)).toNat ≤ x.1.toNat := by omega
      have hremove := (h.stored x (hmem x hx)).remove_before hbehind
      rw [hcount] at hremove
      rw [hmove]
      exact hremove
  · rw [List.pairwise_map]
    exact (h.noOverlap.sublist hsub).imp_of_mem fun {a b} ha hb hab =>
      moved_noOverlap (hdoomed a ha) (hdoomed b hb) hab hcount
  · rw [List.pairwise_map]
    exact h.sorted.sublist hsub
  · simp only [SIdxStringPool.dwPoolUsed, List.length_append, List.length_take, List.length_drop]
    omega
  · simp only [SIdxStringPool.dwNumStrings, List.length_map, List.length_append] at hlength ⊢
    omega

end NtAdmin.Wmi.Btr
