import Mathlib.Algebra.Order.Group.Multiset
import Mathlib.Algebra.BigOperators.Group.Multiset.Basic
import NtAdmin.Lib.Interleave
import NtAdmin.Wmi.Btr.TreeInsert

/-! The shape of the B-tree of btr.cpp, and the way from its root to a page. -/
namespace NtAdmin.Wmi.Btr
open Lib Win32Error

/-! ### Places in a list of entries -/

section Places
variable {entries before behind : List Entry} {entry : Entry} {s : Key}

/-- All these entries come before a key. -/
def AllBefore (entries : List Entry) (s : Key) : Prop := ∀ e ∈ entries, keyStrCompare e.1 s < 0

/-- All these entries come behind a key. -/
def AllBehind (s : Key) (entries : List Entry) : Prop := ∀ e ∈ entries, keyStrCompare s e.1 < 0

theorem keyStrCompare_trans {a b c : Key} (hab : keyStrCompare a b < 0)
    (hbc : keyStrCompare b c < 0) : keyStrCompare a c < 0 := difference_trans hab hbc

theorem eq_of_keyStrCompare {a b : Key} (h : keyStrCompare a b = 0) : a = b :=
  Subtype.ext (eq_of_difference char_injective a.2 b.2 h)

theorem keyStrCompare_self (a : Key) : keyStrCompare a a = 0 := difference_self a.1

theorem keyStrCompare_pos {a b : Key} : 0 < keyStrCompare a b ↔ keyStrCompare b a < 0 := by
  rw [keyStrCompare_neg a b]
  omega

/-- Where a key is or would be among sorted entries. -/
theorem exists_place (hsorted : SortedEntries entries) (s : Key) :
    (∃ before entry behind, entries = before ++ entry :: behind ∧ entry.1 = s) ∨
      ∃ before behind, entries = before ++ behind ∧ AllBefore before s ∧ AllBehind s behind := by
  induction entries with
  | nil => exact .inr ⟨[], [], rfl, List.forall_mem_nil _, List.forall_mem_nil _⟩
  | cons first entries ih =>
    obtain ⟨hfirst, hrest⟩ := List.pairwise_cons.mp hsorted
    rcases lt_trichotomy (keyStrCompare s first.1) 0 with hlt | heq | hgt
    · refine .inr ⟨[], first :: entries, rfl, List.forall_mem_nil _, fun e he => ?_⟩
      rcases List.mem_cons.mp he with rfl | he
      · exact hlt
      · exact keyStrCompare_trans hlt (hfirst e he)
    · exact .inl ⟨[], first, entries, rfl, (eq_of_keyStrCompare heq).symm⟩
    · rcases ih hrest with ⟨before, entry, behind, rfl, hentry⟩ | ⟨before, behind, rfl, hbefore, hbehind⟩
      · exact .inl ⟨first :: before, entry, behind, rfl, hentry⟩
      · exact .inr ⟨first :: before, behind, rfl,
          List.forall_mem_cons.mpr ⟨keyStrCompare_pos.mp hgt, hbefore⟩, hbehind⟩

theorem SortedEntries.allBefore (h : SortedEntries (before ++ entry :: behind)) :
    AllBefore before entry.1 := fun e he =>
  (List.pairwise_append.mp h).2.2 e he entry List.mem_cons_self

theorem SortedEntries.allBehind (h : SortedEntries (before ++ entry :: behind)) :
    AllBehind entry.1 behind :=
  (List.pairwise_cons.mp (List.pairwise_append.mp h).2.1).1

/-- Adding an entry where it belongs. -/
theorem SortedEntries.insert (h : SortedEntries (before ++ behind))
    (hbefore : AllBefore before entry.1) (hbehind : AllBehind entry.1 behind) :
    SortedEntries (before ++ entry :: behind) := by
  obtain ⟨hsorted, hsorted', hacross⟩ := List.pairwise_append.mp h
  refine List.pairwise_append.mpr ⟨hsorted, List.pairwise_cons.mpr ⟨hbehind, hsorted'⟩, ?_⟩
  intro a ha b hb
  rcases List.mem_cons.mp hb with rfl | hb
  · exact hbefore a ha
  · exact hacross a ha b hb

theorem AllBefore.append (h : AllBefore before s) (h' : AllBefore behind s) :
    AllBefore (before ++ behind) s := List.forall_mem_append.mpr ⟨h, h'⟩

theorem AllBehind.append (h : AllBehind s before) (h' : AllBehind s behind) :
    AllBehind s (before ++ behind) := List.forall_mem_append.mpr ⟨h, h'⟩

end Places

/-! ### Searching a page -/

namespace KeyPage
variable {page : KeyPage} {before behind : List Entry} {entry : Entry} {s : Key}

theorem findKey_missing (hs : s.1 ≠ []) (hkeys : page.keys = before ++ behind)
    (hbefore : AllBefore before s) (hbehind : AllBehind s behind) :
    page.findKey s = .ok (false, before.length) := by
  rw [findKey, if_neg hs]
  split_ifs with hempty
  · rw [hkeys] at hempty
    rw [(List.append_eq_nil_iff.mp hempty).1]
    rfl
  · have hprobe (j : ℕ) (e : Entry) (hj : page.keys[j]? = some e) :
        compare (keyStrCompare s e.1) 0 =
          if j < before.length then .gt
          else if j = before.length ∧ false = true then .eq else .lt := by
      rw [hkeys] at hj
      rw [if_neg (fun h => absurd h.2 Bool.false_ne_true : ¬(j = before.length ∧ false = true))]
      split_ifs with hlt
      · rw [List.getElem?_append_left hlt] at hj
        exact compare_gt_iff_gt.mpr
          (keyStrCompare_pos.mpr (hbefore e (List.mem_of_getElem? hj)))
      · rw [List.getElem?_append_right (Nat.le_of_not_lt hlt)] at hj
        exact compare_lt_iff_lt.mpr (hbehind e (List.mem_of_getElem? hj))
    have hle : before.length ≤ page.keys.length := by
      rw [hkeys, List.length_append]
      omega
    rw [binarySearch_eq hprobe (Nat.sub_le _ 0) (Nat.zero_le _) hle
      (fun h => absurd h Bool.false_ne_true) le_rfl fun _ => rfl]

theorem findKey_found (hs : entry.1.1 ≠ []) (hkeys : page.keys = before ++ entry :: behind)
    (hsorted : SortedEntries page.keys) : page.findKey entry.1 = .ok (true, before.length) := by
  rw [hkeys] at hsorted
  have hprobe (j : ℕ) (e : Entry) (hj : page.keys[j]? = some e) :
      compare (keyStrCompare entry.1 e.1) 0 =
        if j < before.length then .gt
        else if j = before.length ∧ true = true then .eq else .lt := by
    rw [hkeys] at hj
    split_ifs with hlt heq
    · rw [List.getElem?_append_left hlt] at hj
      exact compare_gt_iff_gt.mpr
        (keyStrCompare_pos.mpr (hsorted.allBefore e (List.mem_of_getElem? hj)))
    · rw [heq.1, List.getElem?_append_right le_rfl, Nat.sub_self] at hj
      rw [← Option.some.inj hj]
      exact compare_eq_iff_eq.mpr (keyStrCompare_self _)
    · have hne : j ≠ before.length := fun h => heq ⟨h, rfl⟩
      obtain ⟨k, rfl⟩ : ∃ k, j = before.length + (k + 1) := ⟨j - before.length - 1, by omega⟩
      rw [List.getElem?_append_right (by omega), Nat.add_sub_cancel_left,
        List.getElem?_cons_succ] at hj
      exact compare_lt_iff_lt.mpr (hsorted.allBehind e (List.mem_of_getElem? hj))
  have hlt : before.length < page.keys.length := by
    rw [hkeys, List.length_append, List.length_cons]
    omega
  have hne : page.keys ≠ [] := by
    rw [hkeys]
    exact List.append_ne_nil_of_right_ne_nil _ (List.cons_ne_nil _ _)
  rw [findKey, if_neg hs, if_neg hne, binarySearch_eq hprobe (Nat.sub_le _ 0) (Nat.zero_le _) hlt.le
    (fun _ => hlt) le_rfl fun _ => rfl]

/-- A search that succeeds. -/
theorem ne_nil_of_findKey {r : Bool × ℕ} (h : page.findKey s = .ok r) : s.1 ≠ [] := by
  intro hs
  rw [findKey, if_pos hs] at h
  cases h

end KeyPage

/-! ### Trees -/

/-- What stands below an entry of a child page map: the id there, the entries in order, and the ids of
all pages. -/
structure Subtree where
  id : UInt32
  entries : List Entry
  ids : Multiset UInt32

/-- Below a leaf is nothing. -/
def noSubtree : Subtree := ⟨0, [], 0⟩

/-- The entries of a page and of what is below it. -/
def contents (page : KeyPage) (subs : List Subtree) : List Entry :=
  interleave (subs.map Subtree.entries) page.keys

def idsBelow (subs : List Subtree) : Multiset UInt32 := (subs.map Subtree.ids).sum

/-- The child pages of a page are the roots of the subtrees, which are as they are to be. -/
structure Holds (P : Subtree → Prop) (page : KeyPage) (subs : List Subtree) : Prop where
  childPageMap : page.childPageMap = subs.map Subtree.id
  length : subs.length = page.keys.length + 1
  below : ∀ sub ∈ subs, P sub

section Trees
variable (dwPageSize : ℕ) (pages : UInt32 → Except Win32Error KeyPage)

/-- A page of the file. -/
structure Stored (id : UInt32) (page : KeyPage) : Prop where
  id_ne : id ≠ 0
  read : pages id = .ok page
  dwPageId : page.dwPageId = id
  fits : page.getRequiredPageMemory ≤ dwPageSize

/-- A subtree of `h` levels of pages. All its leaves are on one level, and no page is without keys. -/
def Tree : ℕ → Subtree → Prop
  | 0, t => t = noSubtree
  | h + 1, t => ∃ page subs, page.keys ≠ [] ∧ Stored dwPageSize pages t.id page ∧
      Holds (Tree h) page subs ∧ t.entries = contents page subs ∧ t.ids = t.id ::ₘ idsBelow subs

/-- The way from the root of a tree of `H + 1` levels to a page with `h` levels below it: the stack,
the entries in front of what the page is the root of and behind it, and the other ids. -/
inductive Path (root : UInt32) (H : ℕ) :
    ℕ → UInt32 → List UInt32 → List Entry → List Entry → Multiset UInt32 → Prop
  | root {stack : List UInt32} (hstack : stack = [0] ∨ stack = []) : Path root H H root stack [] [] 0
  | child {h : ℕ} {id parent : UInt32} {page : KeyPage} {before behind : List Entry}
      {left right : List Subtree} {stack : List UInt32} {pre post : List Entry} {ids : Multiset UInt32}
      (hparent : Path root H (h + 1) parent stack pre post ids)
      (hstored : Stored dwPageSize pages parent page) (hne : page.keys ≠ [])
      (hkeys : page.keys = before ++ behind)
      (hmap : page.childPageMap = left.map Subtree.id ++ id :: right.map Subtree.id)
      (hleft : left.length = before.length) (hright : right.length = behind.length)
      (hsiblings : ∀ sub ∈ left ++ right, Tree dwPageSize pages (h + 1) sub) :
      Path root H h id (parent :: stack) (pre ++ leading (left.map Subtree.entries) before)
        (trailing behind (right.map Subtree.entries) ++ post)
        (parent ::ₘ (idsBelow left + idsBelow right + ids))

end Trees

theorem idsBelow_append (left right : List Subtree) :
    idsBelow (left ++ right) = idsBelow left + idsBelow right := by
  rw [idsBelow, List.map_append, List.sum_append]
  rfl

theorem idsBelow_cons (sub : Subtree) (subs : List Subtree) :
    idsBelow (sub :: subs) = sub.ids + idsBelow subs := by
  rw [idsBelow, List.map_cons, List.sum_cons]
  rfl

theorem mem_idsBelow {sub : Subtree} {subs : List Subtree} {i : UInt32} (hsub : sub ∈ subs)
    (hi : i ∈ sub.ids) : i ∈ idsBelow subs := by
  obtain ⟨left, right, rfl⟩ := List.append_of_mem hsub
  rw [idsBelow_append, idsBelow_cons]
  exact Multiset.mem_add.mpr (.inr (Multiset.mem_add.mpr (.inl hi)))

section Frame
variable {dwPageSize : ℕ} {pages pages' : UInt32 → Except Win32Error KeyPage} {root : UInt32}
  {H h : ℕ} {t : Subtree} {id : UInt32} {page : KeyPage} {subs left right : List Subtree}
  {stack : List UInt32} {pre post mid before behind : List Entry} {ids midIds : Multiset UInt32}

theorem Holds.mono {P Q : Subtree → Prop} (h : Holds P page subs) (hPQ : ∀ sub ∈ subs, P sub → Q sub) :
    Holds Q page subs := ⟨h.childPageMap, h.length, fun sub hsub => hPQ sub hsub (h.below sub hsub)⟩

theorem Stored.frame (h : Stored dwPageSize pages id page) (hpages : pages' id = pages id) :
    Stored dwPageSize pages' id page := ⟨h.id_ne, hpages.trans h.read, h.dwPageId, h.fits⟩

/-- A tree depends on its own pages only. -/
theorem Tree.frame (ht : Tree dwPageSize pages h t) (hpages : ∀ i ∈ t.ids, pages' i = pages i) :
    Tree dwPageSize pages' h t := by
  induction h generalizing t with
  | zero => exact ht
  | succ h ih =>
    obtain ⟨page, subs, hne, hstored, hholds, hentries, hids⟩ := ht
    rw [hids] at hpages
    refine ⟨page, subs, hne, hstored.frame (hpages _ (Multiset.mem_cons_self _ _)),
      hholds.mono fun sub hsub htree => ih htree fun i hi => ?_, hentries, hids⟩
    exact hpages i (Multiset.mem_cons_of_mem (mem_idsBelow hsub hi))

theorem Path.frame (hpath : Path dwPageSize pages root H h id stack pre post ids)
    (hpages : ∀ i ∈ ids, pages' i = pages i) :
    Path dwPageSize pages' root H h id stack pre post ids := by
  induction hpath with
  | root hstack => exact .root hstack
  | child hparent hstored hne hkeys hmap hleft hright hsiblings ih =>
    have hids := fun i hi => hpages i (Multiset.mem_cons_of_mem hi)
    refine .child (ih fun i hi => hids i (Multiset.mem_add.mpr (.inr hi)))
      (hstored.frame (hpages _ (Multiset.mem_cons_self _ _))) hne hkeys hmap hleft hright
      fun sub hsub => (hsiblings sub hsub).frame fun i hi => hids i ?_
    rw [← idsBelow_append]
    exact Multiset.mem_add.mpr (.inl (mem_idsBelow hsub hi))

theorem contents_hole (hkeys : page.keys = before ++ behind) (hleft : left.length = before.length)
    (hright : right.length = behind.length) :
    contents page (left ++ t :: right) =
      leading (left.map Subtree.entries) before ++
        (t.entries ++ trailing behind (right.map Subtree.entries)) := by
  rw [contents, hkeys, List.map_append, List.map_cons]
  exact interleave_hole (by rw [List.length_map, hleft]) (by rw [List.length_map, hright])

/-- A tree put at the end of the way to a page. -/
theorem Path.plug (hpath : Path dwPageSize pages root H h id stack pre post ids)
    (ht : Tree dwPageSize pages (h + 1) ⟨id, mid, midIds⟩) :
    Tree dwPageSize pages (H + 1) ⟨root, pre ++ (mid ++ post), midIds + ids⟩ := by
  induction hpath generalizing mid midIds with
  | root hstack => rwa [List.nil_append, List.append_nil, add_zero]
  | @child h id parent page before behind left right stack pre post ids hparent hstored hne hkeys hmap
      hleft hright hsiblings ih =>
    have hparentTree : Tree dwPageSize pages (h + 2) ⟨parent,
        leading (left.map Subtree.entries) before ++
          (mid ++ trailing behind (right.map Subtree.entries)),
        parent ::ₘ (idsBelow left + (midIds + idsBelow right))⟩ := by
      refine ⟨page, left ++ ⟨id, mid, midIds⟩ :: right, hne, hstored, ⟨?_, ?_, ?_⟩,
        (contents_hole (t := ⟨id, mid, midIds⟩) hkeys hleft hright).symm, ?_⟩
      · rw [hmap, List.map_append, List.map_cons]
      · rw [hkeys, List.length_append, List.length_append, List.length_cons, hleft, hright]
        rfl
      · intro sub hsub
        rcases List.mem_append.mp hsub with hsub | hsub
        · exact hsiblings sub (List.mem_append_left _ hsub)
        · rcases List.mem_cons.mp hsub with rfl | hsub
          · exact ht
          · exact hsiblings sub (List.mem_append_right _ hsub)
      · rw [idsBelow_append, idsBelow_cons]
    have hwhole := ih hparentTree
    have hentries : pre ++ (leading (left.map Subtree.entries) before ++
        (mid ++ trailing behind (right.map Subtree.entries)) ++ post) =
          pre ++ leading (left.map Subtree.entries) before ++
            (mid ++ (trailing behind (right.map Subtree.entries) ++ post)) := by
      simp only [List.append_assoc]
    have hids : parent ::ₘ (idsBelow left + (midIds + idsBelow right)) + ids =
        midIds + parent ::ₘ (idsBelow left + idsBelow right + ids) := by
      simp only [← Multiset.singleton_add]
      ac_rfl
    rwa [hentries, hids] at hwhole

/-- A tree with `h` levels has at least `2 ^ h - 1` pages. -/
theorem Tree.two_pow_le (ht : Tree dwPageSize pages h t) : 2 ^ h ≤ t.ids.card + 1 := by
  induction h generalizing t with
  | zero => exact Nat.le_add_left 1 _
  | succ h ih =>
    obtain ⟨page, subs, hne, hstored, hholds, hentries, hids⟩ := ht
    have hpos := List.length_pos_iff.mpr hne
    have hlength := hholds.length
    obtain ⟨a, subs, rfl⟩ := List.exists_cons_of_length_pos (l := subs) (by omega)
    rw [List.length_cons] at hlength
    obtain ⟨b, subs, rfl⟩ := List.exists_cons_of_length_pos (l := subs) (by omega)
    have ha := ih (hholds.below a List.mem_cons_self)
    have hb := ih (hholds.below b (List.mem_cons_of_mem _ List.mem_cons_self))
    rw [hids, Multiset.card_cons, idsBelow_cons, idsBelow_cons, Multiset.card_add,
      Multiset.card_add, Nat.pow_succ]
    omega

end Frame

end NtAdmin.Wmi.Btr
