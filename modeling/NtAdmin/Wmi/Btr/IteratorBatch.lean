import Mathlib.Data.Int.Order.Basic
import Mathlib.Data.List.Nodup
import Mathlib.Logic.Function.Basic
import NtAdmin.Lib.BinarySearch
import NtAdmin.Lib.Runs

/-! The prefetched enumerations of index.cpp, and the keys that are deleted meanwhile. -/
namespace NtAdmin.Wmi.Btr
open Lib

/-- The characters of a key in front of its terminator. -/
abbrev Key := { chars : List UInt8 // 0 ∉ chars }

/-- A `char` is signed. -/
def char (b : UInt8) : ℤ := if b.toNat < 128 then b.toNat else b.toNat - 256

/-- The difference of the first characters in which two strings differ, the terminators included. -/
def difference (value : UInt8 → ℤ) : List UInt8 → List UInt8 → ℤ
  | [], [] => 0
  | [], b :: _ => value 0 - value b
  | a :: _, [] => value a - value 0
  | a :: s, b :: t =>
    if value a - value b = 0 then difference value s t else value a - value b

/-- `SIdxKeyTable::KeyStrCompare`, which orders the keys of the tree. -/
def keyStrCompare (pszSearchKey key : Key) : ℤ := difference char pszSearchKey.1 key.1

def strcmp (a b : Key) : ℤ := difference (fun c => c.toNat) a.1 b.1

namespace CIteratorBatch

/-- `Purge`: whether the string was removed, and `m_aStrings` behind the call. -/
def purge (pszTarget : Key) (m_aStrings : List Key) : Bool × List Key :=
  match m_aStrings.head?, m_aStrings.getLast? with
  | some pszFirst, some pszLast =>
    if char (pszLast.1.headD 0) < char (pszTarget.1.headD 0) then (false, m_aStrings)
    else if char (pszTarget.1.headD 0) < char (pszFirst.1.headD 0) then (false, m_aStrings)
    else
      let found := binarySearch (fun pszCandidate => compare (strcmp pszTarget pszCandidate) 0)
        m_aStrings m_aStrings.length 0 m_aStrings.length 0
      if found.1 then (true, m_aStrings.eraseIdx found.2) else (false, m_aStrings)
  | _, _ => (false, m_aStrings)

end CIteratorBatch

/-- A batch, with the keys it was filled with, the keys it has returned, and the keys that have been
deleted since. -/
structure Enumeration where
  m_aStrings : List Key
  prefetched : List Key
  returned : List Key
  deleted : List Key

namespace Enumeration

def fill (prefetched : List Key) : Enumeration := ⟨prefetched, prefetched, [], []⟩

/-- `CIteratorBatch::Next`. -/
def next (batch : Enumeration) : Enumeration :=
  match batch.m_aStrings with
  | [] => batch
  | pMem :: m_aStrings =>
    { batch with m_aStrings := m_aStrings, returned := pMem :: batch.returned }

def purge (pszDoomed : Key) (batch : Enumeration) : Enumeration :=
  { batch with
    m_aStrings := (CIteratorBatch.purge pszDoomed batch.m_aStrings).2
    deleted := pszDoomed :: batch.deleted }

end Enumeration

/-- The keys of the tree in the order in which its iterator returns them, and `g_aIterators` by
handles. -/
structure CBtrIndex where
  keys : List Key
  g_aIterators : ℕ → Enumeration

namespace CBtrIndex
variable (index : CBtrIndex)

/-- `InsertKey` takes no empty key. -/
def create (key : Key) : CBtrIndex :=
  if key.1 = [] ∨ key ∈ index.keys then index
  else
    { index with
      keys := index.keys.filter (keyStrCompare · key < 0) ++
        key :: index.keys.filter (keyStrCompare key · < 0) }

def delete (key : Key) : CBtrIndex :=
  if key ∈ index.keys then
    { keys := index.keys.erase key
      g_aIterators := fun handle => (index.g_aIterators handle).purge key }
  else index

/-- The keys from `pAnsi` on that begin with it. -/
def range (pAnsi : Key) : List Key :=
  (index.keys.filter fun key => keyStrCompare pAnsi key ≤ 0).takeWhile fun key =>
    pAnsi.1.isPrefixOf key.1

/-- The iterator does not start at an empty string. -/
def findFirst (pAnsi : Key) (bExclude : Bool) (handle : ℕ) : CBtrIndex :=
  if pAnsi.1 = [] then index
  else
    { index with
      g_aIterators := Function.update index.g_aIterators handle
        (Enumeration.fill (if bExclude then [] else index.range pAnsi)).next }

def indexEnumerationBegin (pAnsi : Key) (bExclude : Bool) (handle : ℕ) : CBtrIndex :=
  if pAnsi.1 = [] then index
  else
    { index with
      g_aIterators := Function.update index.g_aIterators handle
        (Enumeration.fill (if bExclude then [] else index.range pAnsi)) }

def findNext (handle : ℕ) : CBtrIndex :=
  { index with
    g_aIterators := Function.update index.g_aIterators handle (index.g_aIterators handle).next }

def findClose (handle : ℕ) : CBtrIndex :=
  { index with
    g_aIterators := Function.update index.g_aIterators handle (Enumeration.fill []) }

end CBtrIndex

inductive IndexEvent
  | create (key : Key)
  | delete (key : Key)
  | findFirst (pAnsi : Key) (bExclude : Bool) (handle : ℕ)
  | indexEnumerationBegin (pAnsi : Key) (bExclude : Bool) (handle : ℕ)
  | findNext (handle : ℕ)
  | findClose (handle : ℕ)

def indexStep (index : CBtrIndex) : IndexEvent → Option CBtrIndex
  | .create key => some (index.create key)
  | .delete key => some (index.delete key)
  | .findFirst pAnsi bExclude handle => some (index.findFirst pAnsi bExclude handle)
  | .indexEnumerationBegin pAnsi bExclude handle =>
    some (index.indexEnumerationBegin pAnsi bExclude handle)
  | .findNext handle => some (index.findNext handle)
  | .findClose handle => some (index.findClose handle)

/-- An empty index without enumerations. -/
def emptyIndex : CBtrIndex := ⟨[], fun _ => Enumeration.fill []⟩

/-- What an enumeration will still return has neither been deleted nor returned, and is all of what
was in its range that has been neither. -/
structure Enumeration.Current (batch : Enumeration) : Prop where
  not_deleted : ∀ key ∈ batch.m_aStrings, key ∉ batch.deleted
  not_returned : ∀ key ∈ batch.m_aStrings, key ∉ batch.returned
  nodup : batch.m_aStrings.Nodup
  complete : ∀ key ∈ batch.prefetched,
    key ∉ batch.deleted → key ∈ batch.returned ∨ key ∈ batch.m_aStrings

def AllCurrent (index : CBtrIndex) : Prop := ∀ handle, (index.g_aIterators handle).Current

/-- At each string that `Purge` compares a key of the batch with, `strcmp` orders the two as the tree
does. -/
def OrdersAgree (key : Key) (m_aStrings : List Key) : Prop :=
  ProbesAgree (fun candidate => compare (strcmp key candidate) 0)
    (fun candidate => compare (keyStrCompare key candidate) 0)
    m_aStrings m_aStrings.length 0 m_aStrings.length

def PurgesInOrder (index : CBtrIndex) : IndexEvent → Prop
  | .delete key => key ∈ index.keys → ∀ handle, key ∈ (index.g_aIterators handle).m_aStrings →
      OrdersAgree key (index.g_aIterators handle).m_aStrings
  | _ => True

/-! ### The two orders -/

theorem char_injective : Function.Injective char := by
  intro a b h
  have ha := a.toNat_lt
  have hb := b.toNat_lt
  rw [← UInt8.toNat_inj]
  unfold char at h
  split_ifs at h <;> omega

section Difference
variable {value : UInt8 → ℤ}

theorem difference_neg (s t : List UInt8) : difference value t s = -difference value s t := by
  induction s generalizing t with
  | nil =>
    cases t with
    | nil => rfl
    | cons b t => simp only [difference, Int.neg_sub]
  | cons a s ih =>
    cases t with
    | nil => simp only [difference, Int.neg_sub]
    | cons b t =>
      have hflip : value b - value a = 0 ↔ value a - value b = 0 := by omega
      simp only [difference, hflip, ih t]
      split_ifs <;> omega

theorem difference_self (s : List UInt8) : difference value s s = 0 := by
  induction s with
  | nil => rfl
  | cons a s ih => simp only [difference, Int.sub_self, if_true, ih]

theorem eq_of_difference (hvalue : Function.Injective value) {s t : List UInt8} (hs : 0 ∉ s) (ht : 0 ∉ t)
    (h : difference value s t = 0) : s = t := by
  induction s generalizing t with
  | nil =>
    cases t with
    | nil => rfl
    | cons b t =>
      have hb : value 0 = value b := Int.sub_eq_zero.mp h
      exact absurd (hvalue hb ▸ List.mem_cons_self) ht
  | cons a s ih =>
    cases t with
    | nil =>
      have ha : value a = value 0 := Int.sub_eq_zero.mp h
      exact absurd (hvalue ha ▸ List.mem_cons_self) hs
    | cons b t =>
      rw [difference] at h
      split_ifs at h with hab
      swap
      · exact absurd h hab
      rw [hvalue (Int.sub_eq_zero.mp hab),
        ih (fun hmem => hs (List.mem_cons_of_mem a hmem))
          (fun hmem => ht (List.mem_cons_of_mem b hmem)) h]

theorem difference_trans {r s t : List UInt8} (hrs : difference value r s < 0)
    (hst : difference value s t < 0) : difference value r t < 0 := by
  induction r generalizing s t with
  | nil =>
    cases s with
    | nil => exact hst
    | cons b s =>
      cases t with
      | nil =>
        simp only [difference] at hrs hst
        omega
      | cons c t =>
        simp only [difference] at hrs hst ⊢
        split_ifs at hst <;> omega
  | cons a r ih =>
    cases s with
    | nil =>
      cases t with
      | nil => exact hrs
      | cons c t =>
        simp only [difference] at hrs hst ⊢
        split_ifs <;> omega
    | cons b s =>
      cases t with
      | nil =>
        simp only [difference] at hrs hst ⊢
        split_ifs at hrs <;> omega
      | cons c t =>
        simp only [difference] at hrs hst ⊢
        split_ifs at hrs hst ⊢ <;> first | omega | exact ih hrs hst

end Difference

theorem head_le_of_difference {value : UInt8 → ℤ} {s t : List UInt8}
    (h : difference value s t ≤ 0) : value (s.headD 0) ≤ value (t.headD 0) := by
  cases s with
  | nil =>
    cases t with
    | nil => exact Int.le_refl _
    | cons b t =>
      simp only [difference, List.headD_nil, List.headD_cons] at h ⊢
      omega
  | cons a s =>
    cases t with
    | nil =>
      simp only [difference, List.headD_nil, List.headD_cons] at h ⊢
      omega
    | cons b t =>
      simp only [difference, List.headD_cons] at h ⊢
      split_ifs at h <;> omega

theorem strcmp_eq_zero {a b : Key} : strcmp a b = 0 ↔ a = b := by
  have hinjective : Function.Injective fun c : UInt8 => (c.toNat : ℤ) := fun c d h =>
    UInt8.toNat_inj.mp (Int.ofNat_inj.mp h)
  constructor
  · intro h
    exact Subtype.ext (eq_of_difference hinjective a.2 b.2 h)
  · rintro rfl
    exact difference_self a.1

theorem keyStrCompare_neg (a b : Key) : keyStrCompare b a = -keyStrCompare a b :=
  difference_neg a.1 b.1

/-! ### Runs -/

/-- The order of the tree. -/
def Sorted (keys : List Key) : Prop := keys.Pairwise fun a b => keyStrCompare a b < 0

theorem Sorted.nodup {keys : List Key} (h : Sorted keys) : keys.Nodup :=
  h.imp fun {a b} hab heq => by
    subst heq
    exact absurd (difference_self a.1) hab.ne

theorem Sorted.lt {keys : List Key} (h : Sorted keys) {i j : ℕ} {a b : Key} (hij : i < j)
    (ha : keys[i]? = some a) (hb : keys[j]? = some b) : keyStrCompare a b < 0 := by
  obtain ⟨hi, rfl⟩ := List.getElem?_eq_some_iff.mp ha
  obtain ⟨hj, rfl⟩ := List.getElem?_eq_some_iff.mp hb
  exact List.pairwise_iff_getElem.mp h i j hi hj hij

theorem Sorted.le {keys : List Key} (h : Sorted keys) {i j : ℕ} {a b : Key} (hij : i ≤ j)
    (ha : keys[i]? = some a) (hb : keys[j]? = some b) : keyStrCompare a b ≤ 0 := by
  rcases hij.lt_or_eq with hij | rfl
  · exact (h.lt hij ha hb).le
  · rw [ha] at hb
    rw [← Option.some.inj hb]
    exact (difference_self a.1).le

/-- Where the keys of a sorted list are, seen from one of them. -/
theorem Sorted.compare_index {keys : List Key} (h : Sorted keys) {i : ℕ} {key : Key}
    (hi : keys[i]? = some key) (j : ℕ) (candidate : Key) (hj : keys[j]? = some candidate) :
    compare (keyStrCompare key candidate) 0 = compare i j := by
  rcases lt_trichotomy i j with hij | rfl | hji
  · rw [compare_lt_iff_lt.mpr hij]
    exact compare_lt_iff_lt.mpr (h.lt hij hi hj)
  · rw [hi] at hj
    rw [← Option.some.inj hj, compare_eq_iff_eq.mpr rfl]
    exact compare_eq_iff_eq.mpr (difference_self key.1)
  · have hneg := h.lt hji hj hi
    rw [keyStrCompare_neg] at hneg
    rw [compare_gt_iff_gt.mpr hji]
    exact compare_gt_iff_gt.mpr (by omega)

/-- A key outside the batch is not found in it. -/
theorem purge_of_notMem {key : Key} {m_aStrings : List Key} (h : key ∉ m_aStrings) :
    (CIteratorBatch.purge key m_aStrings).2 = m_aStrings := by
  have hfalse : (binarySearch (fun candidate => compare (strcmp key candidate) 0)
      m_aStrings m_aStrings.length 0 m_aStrings.length 0).1 = false := by
    apply binarySearch_false
    intro candidate hmem heq
    have hkey := strcmp_eq_zero.mp (compare_eq_iff_eq.mp heq)
    exact h (hkey ▸ hmem)
  unfold CIteratorBatch.purge
  split
  · simp only [hfalse, Bool.false_eq_true, if_false, ite_self]
  · rfl

/-- A key of a sorted batch is removed exactly if the orders agree where `Purge` looks. -/
theorem purge_of_mem {key : Key} {m_aStrings : List Key} (hsorted : Sorted m_aStrings)
    (h : key ∈ m_aStrings) :
    (OrdersAgree key m_aStrings →
      (CIteratorBatch.purge key m_aStrings).2 = m_aStrings.erase key) ∧
    (¬ OrdersAgree key m_aStrings → (CIteratorBatch.purge key m_aStrings).2 = m_aStrings) := by
  obtain ⟨i, hi⟩ := List.mem_iff_getElem?.mp h
  obtain ⟨hlt, hget⟩ := List.getElem?_eq_some_iff.mp hi
  have hpos : 0 < m_aStrings.length := Nat.lt_of_le_of_lt (Nat.zero_le i) hlt
  obtain ⟨pszFirst, hfirst⟩ : ∃ first, m_aStrings[0]? = some first :=
    ⟨_, List.getElem?_eq_getElem hpos⟩
  obtain ⟨pszLast, hlast⟩ : ∃ last, m_aStrings[m_aStrings.length - 1]? = some last :=
    ⟨_, List.getElem?_eq_getElem (by omega)⟩
  have hbelow := head_le_of_difference (hsorted.le (Nat.zero_le i) hfirst hi)
  have habove := head_le_of_difference (hsorted.le (by omega) hi hlast)
  have hfound : binarySearch (fun candidate => compare (strcmp key candidate) 0)
      m_aStrings m_aStrings.length 0 m_aStrings.length 0 = (true, i) ↔
        OrdersAgree key m_aStrings :=
    binarySearch_iff hlt (hsorted.compare_index hi) (Nat.sub_le _ 0) (Nat.zero_le i) hlt le_rfl
  unfold CIteratorBatch.purge
  rw [List.head?_eq_getElem?, List.getLast?_eq_getElem?, hfirst, hlast]
  dsimp only
  rw [if_neg (not_lt.mpr habove), if_neg (not_lt.mpr hbelow)]
  constructor
  · intro hagree
    rw [hfound.mpr hagree, if_pos rfl, ← hget]
    exact (hsorted.nodup.erase_getElem i hlt).symm
  · intro hagree
    rw [if_neg]
    intro htrue
    obtain ⟨-, -, x, hx, heq⟩ := binarySearch_true htrue
    have hxkey := strcmp_eq_zero.mp (compare_eq_iff_eq.mp heq)
    rw [← hxkey] at hx
    obtain ⟨hlt', hget'⟩ := List.getElem?_eq_some_iff.mp hx
    have hindex := hsorted.nodup.getElem_inj_iff.mp (hget'.trans hget.symm)
    exact hagree (hfound.mp (Prod.ext htrue hindex))

/-- The batch holds what has been neither returned nor deleted, in the order of the tree. -/
structure Enumeration.Held (batch : Enumeration) : Prop where
  sorted : Sorted batch.prefetched
  held : batch.m_aStrings =
    batch.prefetched.filter fun key => key ∉ batch.returned ∧ key ∉ batch.deleted

namespace Enumeration.Held
variable {batch : Enumeration}

theorem strings_sorted (h : batch.Held) : Sorted batch.m_aStrings := by
  rw [h.held]
  exact h.sorted.sublist List.filter_sublist

theorem current (h : batch.Held) : batch.Current where
  not_deleted key hkey := by
    rw [h.held, List.mem_filter] at hkey
    have hnot := of_decide_eq_true hkey.2
    exact hnot.2
  not_returned key hkey := by
    rw [h.held, List.mem_filter] at hkey
    have hnot := of_decide_eq_true hkey.2
    exact hnot.1
  nodup := h.strings_sorted.nodup
  complete key hkey hdeleted := by
    by_cases hreturned : key ∈ batch.returned
    · exact Or.inl hreturned
    · right
      rw [h.held, List.mem_filter]
      exact ⟨hkey, decide_eq_true ⟨hreturned, hdeleted⟩⟩

theorem fill {prefetched : List Key} (h : Sorted prefetched) :
    (Enumeration.fill prefetched).Held where
  sorted := h
  held := by simp [Enumeration.fill]

/-- Returning the first key. -/
theorem next (h : batch.Held) : batch.next.Held := by
  cases hstrings : batch.m_aStrings with
  | nil =>
    rw [Enumeration.next, hstrings]
    exact h
  | cons pMem m_aStrings =>
    have hnodup := h.strings_sorted.nodup
    have hheld := h.held
    rw [hstrings] at hnodup hheld
    have hrest : m_aStrings = (pMem :: m_aStrings).filter (· ≠ pMem) := by
      rw [List.filter_cons_of_neg (by simp), List.filter_eq_self.mpr]
      intro key hkey
      exact decide_eq_true fun heq => (List.nodup_cons.mp hnodup).1 (heq ▸ hkey)
    rw [Enumeration.next, hstrings]
    constructor
    · exact h.sorted
    · dsimp only
      rw [hrest, hheld, List.filter_filter]
      congr 1
      funext key
      simp only [List.mem_cons]
      grind

theorem filter_deleted (h : batch.Held) (key : Key) :
    (batch.prefetched.filter fun k => k ∉ batch.returned ∧ k ∉ key :: batch.deleted) =
      batch.m_aStrings.erase key := by
  rw [h.strings_sorted.nodup.erase_eq_filter, h.held, List.filter_filter]
  congr 1
  funext k
  simp only [List.mem_cons]
  grind

theorem purge (h : batch.Held) {key : Key}
    (hagree : key ∈ batch.m_aStrings → OrdersAgree key batch.m_aStrings) :
    (batch.purge key).Held where
  sorted := h.sorted
  held := by
    change (CIteratorBatch.purge key batch.m_aStrings).2 =
      batch.prefetched.filter fun k => k ∉ batch.returned ∧ k ∉ key :: batch.deleted
    rw [h.filter_deleted]
    by_cases hmem : key ∈ batch.m_aStrings
    · exact (purge_of_mem h.strings_sorted hmem).1 (hagree hmem)
    · rw [purge_of_notMem hmem, List.erase_of_not_mem hmem]

/-- A batch that no longer holds the deleted key was searched in the right order. -/
theorem ordersAgree (h : batch.Held) {key : Key} (hmem : key ∈ batch.m_aStrings)
    (hcurrent : (batch.purge key).Current) : OrdersAgree key batch.m_aStrings := by
  by_contra hagree
  have hsame := (purge_of_mem h.strings_sorted hmem).2 hagree
  have hstill : key ∈ (batch.purge key).m_aStrings := by
    change key ∈ (CIteratorBatch.purge key batch.m_aStrings).2
    rw [hsame]
    exact hmem
  exact hcurrent.not_deleted key hstill List.mem_cons_self

end Enumeration.Held

structure IndexInvariant (index : CBtrIndex) : Prop where
  sorted : Sorted index.keys
  held : ∀ handle, (index.g_aIterators handle).Held

namespace IndexInvariant
variable {index : CBtrIndex}

theorem create_sorted (h : Sorted index.keys) (key : Key) : Sorted (index.create key).keys := by
  unfold CBtrIndex.create
  split_ifs
  · exact h
  · unfold Sorted
    rw [List.pairwise_append, List.pairwise_cons]
    refine ⟨h.sublist List.filter_sublist, ⟨?_, h.sublist List.filter_sublist⟩, ?_⟩
    · intro b hb
      exact of_decide_eq_true (List.mem_filter.mp hb).2
    · intro a ha b hb
      have hak : keyStrCompare a key < 0 := of_decide_eq_true (List.mem_filter.mp ha).2
      rcases List.mem_cons.mp hb with rfl | hb
      · exact hak
      · have hkb : keyStrCompare key b < 0 := of_decide_eq_true (List.mem_filter.mp hb).2
        exact difference_trans hak hkb

theorem update (h : IndexInvariant index) (handle : ℕ) {batch : Enumeration} (hbatch : batch.Held) :
    IndexInvariant
      { index with g_aIterators := Function.update index.g_aIterators handle batch } where
  sorted := h.sorted
  held other := by
    by_cases heq : other = handle
    · subst heq
      simpa using hbatch
    · simpa [Function.update_of_ne heq] using h.held other

theorem range_sorted (h : IndexInvariant index) (pAnsi : Key) : Sorted (index.range pAnsi) :=
  h.sorted.sublist ((List.takeWhile_sublist _).trans List.filter_sublist)

theorem step (h : IndexInvariant index) {event : IndexEvent} (hok : PurgesInOrder index event)
    {index' : CBtrIndex} (hstep : indexStep index event = some index') :
    IndexInvariant index' := by
  cases event with
  | create key =>
    rw [← Option.some.inj hstep]
    constructor
    · exact create_sorted h.sorted key
    · unfold CBtrIndex.create
      split_ifs
      · exact h.held
      · exact h.held
  | delete key =>
    rw [← Option.some.inj hstep, CBtrIndex.delete]
    split_ifs with hkey
    · constructor
      · exact h.sorted.sublist List.erase_sublist
      · intro handle
        exact (h.held handle).purge (hok hkey handle)
    · exact h
  | findFirst pAnsi bExclude handle =>
    rw [← Option.some.inj hstep, CBtrIndex.findFirst]
    split_ifs with hempty hexclude
    · exact h
    · exact h.update handle (Enumeration.Held.fill List.Pairwise.nil).next
    · exact h.update handle (Enumeration.Held.fill (h.range_sorted pAnsi)).next
  | indexEnumerationBegin pAnsi bExclude handle =>
    rw [← Option.some.inj hstep, CBtrIndex.indexEnumerationBegin]
    split_ifs with hempty hexclude
    · exact h
    · exact h.update handle (Enumeration.Held.fill List.Pairwise.nil)
    · exact h.update handle (Enumeration.Held.fill (h.range_sorted pAnsi))
  | findNext handle =>
    rw [← Option.some.inj hstep]
    exact h.update handle (h.held handle).next
  | findClose handle =>
    rw [← Option.some.inj hstep]
    exact h.update handle (Enumeration.Held.fill List.Pairwise.nil)

theorem exact (h : IndexInvariant index) {event : IndexEvent} {index' : CBtrIndex}
    (hstep : indexStep index event = some index') (hcurrent : AllCurrent index') :
    PurgesInOrder index event := by
  cases event with
  | delete key =>
    intro hkey handle hmem
    have hdelete : index.delete key = index' := Option.some.inj hstep
    rw [CBtrIndex.delete, if_pos hkey] at hdelete
    have hbatch := hcurrent handle
    rw [← hdelete] at hbatch
    exact (h.held handle).ordersAgree hmem hbatch
  | create key => trivial
  | findFirst pAnsi bExclude handle => trivial
  | indexEnumerationBegin pAnsi bExclude handle => trivial
  | findNext handle => trivial
  | findClose handle => trivial

end IndexInvariant

theorem emptyIndex_invariant : IndexInvariant emptyIndex where
  sorted := List.Pairwise.nil
  held _ := Enumeration.Held.fill List.Pairwise.nil

/-- Enumerations return no deleted key, and all others of their range once, exactly if each deletion
finds the key in the batches that hold it in the order of the tree. -/
theorem allCurrent_iff (events : List IndexEvent) :
    Always indexStep AllCurrent emptyIndex events ↔
      StepsMeet indexStep PurgesInOrder emptyIndex events :=
  always_iff_stepsMeet (fun _ h handle => (h.held handle).current)
    (fun _ _ _ h hok hstep => h.step hok hstep) (fun _ _ _ h hstep hcurrent => h.exact hstep hcurrent)
    emptyIndex_invariant events

/-- `C`, and three keys that begin with `Ca`. The characters 128 and 129 are negative. -/
def keyC : Key := ⟨[0x43], by decide⟩
def keyCaa : Key := ⟨[0x43, 0x61, 0x61], by decide⟩
def keyCa80 : Key := ⟨[0x43, 0x61, 0x80], by decide⟩
def keyCa81 : Key := ⟨[0x43, 0x61, 0x81], by decide⟩

/-- `strcmp` puts `Caa` in front of the batch that it is the end of. -/
theorem not_allCurrent_negativeChar :
    ¬ Always indexStep AllCurrent emptyIndex
      [.create keyCaa, .create keyCa80, .create keyCa81, .findFirst keyC false 0,
        .delete keyCaa] := by
  intro h
  have hcurrent := h.run (t := ((((emptyIndex.create keyCaa).create keyCa80).create
    keyCa81).findFirst keyC false 0).delete keyCaa) rfl 0
  exact hcurrent.not_deleted keyCaa (by decide) (by decide)

end NtAdmin.Wmi.Btr
