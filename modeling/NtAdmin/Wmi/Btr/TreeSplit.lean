import NtAdmin.Lib.Outcome
import NtAdmin.Wmi.Btr.TreeShape

/-! Splitting the pages of the B-tree of btr.cpp, and the search for the place of a key. -/
namespace NtAdmin.Wmi.Btr
open Lib Win32Error

namespace KeyPage
variable {page this this' pParent pParent' pNewSibling pNewSibling' : KeyPage}
  {before behind : List Entry} {entry : Entry} {s : Key} {dwUserData x : UInt32}
  {above below : List UInt32}

theorem addKey_eq (hkeys : page.keys = before ++ behind)
    (hmap : page.childPageMap = above ++ x :: below) (habove : above.length = before.length)
    (hbelow : below.length = behind.length)
    (h : page.addKey s before.length dwUserData = .ok this) :
    this = ⟨page.dwPageId, before ++ (s, dwUserData) :: behind,
      above ++ x :: if behind = [] then [0] else x :: below⟩ := by
  have hs : s.1 ≠ [] := by
    intro hs
    rw [addKey, if_pos hs] at h
    cases h
  rw [addKey, if_neg hs] at h
  cases hparse : parseIntoTokens s.1 with
  | error dwRes =>
    rw [hparse] at h
    cases h
  | ok pszStrings =>
    rw [hparse] at h
    dsimp only at h
    have hfits := ite_eq_iff.mp h
    have hthis := (hfits.resolve_left fun hfull => by cases hfull.2).2
    rw [← Except.ok.inj hthis]
    have hend : page.getNumKeys - before.length = 0 ↔ behind = [] := by
      rw [getNumKeys, hkeys, List.length_append, Nat.add_sub_cancel_left, List.length_eq_zero_iff]
    have htake : page.childPageMap.take before.length = above := by
      rw [hmap, List.take_left' habove]
    have hdrop : page.childPageMap.drop before.length = x :: below := by
      rw [hmap, List.drop_left' habove]
    have hget : page.getChildPage before.length = x := by
      rw [getChildPage, hmap, List.getD_append_right _ _ _ _ habove.le, habove, Nat.sub_self]
      rfl
    rw [hkeys, List.take_left, List.drop_left, hget, htake, hdrop]
    simp only [hend]
    split_ifs with hbehind
    · rw [hbehind, List.length_nil, List.length_eq_zero_iff] at hbelow
      rw [hmap, hbelow, List.append_assoc]
      rfl
    · rfl

theorem set_middle {α : Type} {a b : List α} {y z : α} {i : ℕ} (hi : a.length = i) :
    (a ++ y :: b).set i z = a ++ z :: b := by
  rw [← hi, List.set_append_right _ _ le_rfl, Nat.sub_self]
  rfl

/-- A key added with the child pages on its two sides. -/
theorem addKey_children (hkeys : page.keys = before ++ behind)
    (hmap : page.childPageMap = above ++ x :: below) (habove : above.length = before.length)
    (hbelow : below.length = behind.length)
    (h : page.addKey s before.length dwUserData = .ok this) (left right : UInt32) :
    (this.setChildPage before.length left).setChildPage (before.length + 1) right =
      ⟨page.dwPageId, before ++ (s, dwUserData) :: behind, above ++ left :: right :: below⟩ := by
  rw [addKey_eq hkeys hmap habove hbelow h, setChildPage, setChildPage]
  simp only [KeyPage.mk.injEq, true_and]
  rw [set_middle habove]
  have hlength : (above ++ [left]).length = before.length + 1 := by
    rw [List.length_append, habove]
    rfl
  split_ifs with hbehind
  · rw [hbehind, List.length_nil, List.length_eq_zero_iff] at hbelow
    rw [hbelow, List.append_cons, set_middle hlength, List.append_assoc]
    rfl
  · rw [List.append_cons, set_middle hlength, List.append_assoc]
    rfl

theorem removeKey_first {id : UInt32} {rest : List Entry} {next : Entry} {ids : List UInt32} :
    (KeyPage.mk id (entry :: next :: rest) (x :: ids)).removeKey 0 =
      ⟨id, next :: rest, ids⟩ := by
  simp [removeKey, getNumKeys]

/-- What `moveKeys` moves, where the sibling has only smaller keys. -/
theorem moveKeys_eq {id idSib : UInt32} {moved first rest : List Entry} {last : Entry}
    {movedIds firstIds ids : List UInt32} {r : Bool × KeyPage × KeyPage}
    (hsorted : SortedEntries (moved ++ (first ++ last :: rest)))
    (hmoved : movedIds.length = moved.length) (hfirst : firstIds.length = first.length)
    (h : moveKeys first.length ⟨id, first ++ last :: rest, firstIds ++ ids⟩
      ⟨idSib, moved, movedIds ++ [0]⟩ = .ok r) :
    r = (true, ⟨id, last :: rest, ids⟩, ⟨idSib, moved ++ first, movedIds ++ firstIds ++ [0]⟩) := by
  induction first generalizing moved movedIds firstIds with
  | nil =>
    rw [List.length_eq_zero_iff.mp hfirst] at h ⊢
    rw [List.append_nil, List.append_nil]
    exact (Except.ok.inj h).symm
  | cons entry first ih =>
    obtain ⟨x, firstIds, rfl⟩ :=
      List.exists_cons_of_length_pos (l := firstIds) (by rw [hfirst]; exact Nat.succ_pos _)
    rw [List.length_cons, moveKeys] at h
    simp only [List.cons_append] at h
    obtain ⟨found, hfind, h⟩ := eq_ok_of_bind h
    rw [List.cons_append] at hsorted
    have hkeysSib : (⟨idSib, moved, movedIds ++ [0]⟩ : KeyPage).keys = moved ++ [] :=
      (List.append_nil moved).symm
    have hmapSib : (⟨idSib, moved, movedIds ++ [0]⟩ : KeyPage).childPageMap = movedIds ++ 0 :: [] :=
      rfl
    have hmissing := findKey_missing (ne_nil_of_findKey hfind) hkeysSib hsorted.allBefore
      (List.forall_mem_nil _)
    rw [hmissing] at hfind
    rw [← Except.ok.inj hfind] at h
    obtain ⟨sibling, hadd, h⟩ := eq_ok_of_bind h
    have hsibling := addKey_eq hkeysSib hmapSib hmoved rfl hadd
    obtain ⟨next, rest', hnext⟩ : ∃ next rest', first ++ last :: rest = next :: rest' :=
      List.exists_cons_of_ne_nil (List.append_ne_nil_of_right_ne_nil _ (List.cons_ne_nil _ _))
    have hset : sibling.setChildPage moved.length x =
        ⟨idSib, moved ++ [entry], movedIds ++ [x] ++ [0]⟩ := by
      rw [hsibling, setChildPage]
      simp only [KeyPage.mk.injEq, true_and]
      rw [set_middle hmoved, List.append_assoc]
      rfl
    have hget : getChildPage ⟨id, entry :: (first ++ last :: rest), x :: (firstIds ++ ids)⟩ 0 = x :=
      rfl
    rw [hget, hset, hnext, removeKey_first, ← hnext] at h
    have hmoved' : (movedIds ++ [x]).length = (moved ++ [entry]).length := by
      rw [List.length_append, List.length_append, hmoved]
      rfl
    have hsorted' : SortedEntries (moved ++ [entry] ++ (first ++ last :: rest)) := by
      rw [List.append_assoc]
      exact hsorted
    rw [ih hsorted' hmoved' (Nat.succ.inj hfirst) h]
    simp only [List.append_assoc, List.cons_append, List.nil_append]

/-- What `redist` makes of the keys of a page and its subtrees: the first half goes to the new sibling,
the median to the parent, and the rest stays. -/
theorem redist_eq {P : Subtree → Prop} {subs : List Subtree} {dwNewSib : UInt32}
    (hholds : Holds P page subs) (hsorted : SortedEntries page.keys)
    (hkeys : pParent.keys = before ++ behind)
    (hmap : pParent.childPageMap = above ++ x :: below) (habove : above.length = before.length)
    (hbelow : below.length = behind.length) (hbefore : ∀ e ∈ page.keys, AllBefore before e.1)
    (hbehind : ∀ e ∈ page.keys, AllBehind e.1 behind)
    (h : page.redist pParent (create dwNewSib) = .ok (this', pParent', pNewSibling')) :
    ∃ first median rest left right, page.keys = first ++ median :: rest ∧ subs = left ++ right ∧
      left.length = first.length + 1 ∧ first ≠ [] ∧ rest ≠ [] ∧
      this' = ⟨page.dwPageId, rest, right.map Subtree.id⟩ ∧
      pNewSibling' = ⟨dwNewSib, first, left.map Subtree.id⟩ ∧
      pParent' = ⟨pParent.dwPageId, before ++ median :: behind,
        above ++ dwNewSib :: page.dwPageId :: below⟩ := by
  rw [redist] at h
  split_ifs at h with hcount
  rw [getNumKeys] at hcount h
  obtain ⟨r, hmove, h⟩ := eq_ok_of_bind h
  obtain ⟨first, median, rest, hpage, hfirst⟩ :=
    exists_split_at (show page.keys.length / 2 < page.keys.length by omega)
  have hrest : rest ≠ [] := by
    intro hnil
    rw [hpage, hnil, List.length_append, List.length_singleton] at hcount hfirst
    omega
  obtain ⟨left, sub, right, hsubs, hleft⟩ :=
    exists_split_at (show first.length < subs.length by
      rw [hholds.length, hpage, List.length_append, List.length_cons]
      omega)
  have hthis : page = ⟨page.dwPageId, first ++ median :: rest,
      left.map Subtree.id ++ sub.id :: right.map Subtree.id⟩ := by
    rw [← hpage, ← List.map_cons, ← List.map_append, ← hsubs, ← hholds.childPageMap]
  have hmove' : moveKeys first.length ⟨page.dwPageId, first ++ median :: rest,
      left.map Subtree.id ++ sub.id :: right.map Subtree.id⟩ ⟨dwNewSib, [], [] ++ [0]⟩ = .ok r := by
    rwa [hfirst, ← hthis]
  rw [hpage] at hsorted
  have hleft' : (left.map Subtree.id).length = first.length := by rw [List.length_map, hleft]
  rw [moveKeys_eq hsorted rfl hleft' hmove'] at h
  dsimp only at h
  obtain ⟨found, hfind, h⟩ := eq_ok_of_bind h
  have hmedian : median ∈ page.keys := by
    rw [hpage]
    exact List.mem_append_right _ List.mem_cons_self
  rw [findKey_missing (ne_nil_of_findKey hfind) hkeys (hbefore median hmedian)
    (hbehind median hmedian)] at hfind
  rw [← Except.ok.inj hfind] at h
  obtain ⟨parent, hadd, h⟩ := eq_ok_of_bind h
  have hparent := addKey_children hkeys hmap habove hbelow hadd
  obtain ⟨next, rest, rfl⟩ := List.exists_cons_of_ne_nil hrest
  have hgetNum : getNumKeys ⟨dwNewSib, [] ++ first, [] ++ left.map Subtree.id ++ [0]⟩ =
      first.length := rfl
  have hget : getChildPage ⟨page.dwPageId, median :: next :: rest,
      sub.id :: right.map Subtree.id⟩ 0 = sub.id := rfl
  have hsibling : setChildPage ⟨dwNewSib, [] ++ first, [] ++ left.map Subtree.id ++ [0]⟩ first.length
      sub.id = ⟨dwNewSib, first, left.map Subtree.id ++ [sub.id]⟩ := by
    rw [setChildPage, List.nil_append, List.nil_append]
    dsimp only
    rw [set_middle hleft']
  rw [hgetNum, hget, hsibling, removeKey_first, hparent, Except.ok.injEq, Prod.mk.injEq,
    Prod.mk.injEq] at h
  obtain ⟨rfl, rfl, rfl⟩ := h
  refine ⟨first, median, next :: rest, left ++ [sub], right, hpage, ?_, ?_, ?_, hrest, rfl, ?_, rfl⟩
  · rw [hsubs, List.append_assoc]
    rfl
  · rw [List.length_append, hleft]
    rfl
  · intro hnil
    rw [hnil, List.length_nil] at hfirst
    omega
  · rw [List.map_append]
    rfl

end KeyPage

/-! ### The search -/

section Search
variable {entries before behind : List Entry} {left right : List (List Entry)} {s : Key}

theorem AllBefore.leading (h : AllBefore before s) (hleft : left.length = before.length)
    (hsorted : SortedEntries (leading left before)) : AllBefore (Lib.leading left before) s := by
  induction before generalizing left with
  | nil =>
    rw [List.length_eq_zero_iff.mp hleft]
    exact List.forall_mem_nil _
  | cons key before ih =>
    obtain ⟨sub, left, rfl⟩ :=
      List.exists_cons_of_length_pos (l := left) (by rw [hleft]; exact Nat.succ_pos _)
    rw [leading_cons] at hsorted ⊢
    obtain ⟨hkey, hbefore⟩ := List.forall_mem_cons.mp h
    have hrest := (List.pairwise_cons.mp (List.pairwise_append.mp hsorted).2.1).2
    refine AllBefore.append (fun e he => keyStrCompare_trans (hsorted.allBefore e he) hkey) ?_
    exact List.forall_mem_cons.mpr ⟨hkey, ih hbefore (Nat.succ.inj hleft) hrest⟩

theorem AllBehind.trailing (h : AllBehind s behind) (hright : right.length = behind.length)
    (hsorted : SortedEntries (trailing behind right)) : AllBehind s (Lib.trailing behind right) := by
  induction behind generalizing right with
  | nil => exact List.forall_mem_nil _
  | cons key behind ih =>
    obtain ⟨sub, right, rfl⟩ :=
      List.exists_cons_of_length_pos (l := right) (by rw [hright]; exact Nat.succ_pos _)
    rw [trailing_cons] at hsorted ⊢
    obtain ⟨hkey, hbehind⟩ := List.forall_mem_cons.mp h
    obtain ⟨hfirst, hrest⟩ := List.pairwise_cons.mp hsorted
    refine List.forall_mem_cons.mpr ⟨hkey, AllBehind.append (fun e he => ?_) ?_⟩
    · exact keyStrCompare_trans hkey (hfirst e (List.mem_append_left _ he))
    · exact ih hbehind (Nat.succ.inj hright) (List.pairwise_append.mp hrest).2.1

end Search

section SearchLoop
variable {σ : Type} {dwPageSize : ℕ} {pages : UInt32 → Except Win32Error KeyPage} {root : UInt32}
  {H h fuel : ℕ} {page : KeyPage} {subs : List Subtree} {stack : List UInt32}
  {pre post before behind : List Entry} {ids : Multiset UInt32} {s : Key} {tree : CBTree σ}

theorem Holds.sublist_contents {P : Subtree → Prop} (hholds : Holds P page subs) :
    page.keys.Sublist (contents page subs) :=
  sublist_interleave (by rw [List.length_map, hholds.length])

theorem Holds.leaf_contents (hholds : Holds (Tree dwPageSize pages 0) page subs) :
    contents page subs = page.keys := by
  refine interleave_empty (fun entries hentries => ?_) (by rw [List.length_map, hholds.length])
  obtain ⟨sub, hsub, rfl⟩ := List.mem_map.mp hentries
  rw [show sub = noSubtree from hholds.below sub hsub]
  rfl

theorem Holds.leaf_ids (hholds : Holds (Tree dwPageSize pages 0) page subs) : idsBelow subs = 0 := by
  refine List.sum_eq_zero fun ids hids => ?_
  obtain ⟨sub, hsub, rfl⟩ := List.mem_map.mp hids
  rw [show sub = noSubtree from hholds.below sub hsub]
  rfl

/-- A place on a leaf for a key that the tree does not have. -/
structure LeafPlace (dwPageSize : ℕ) (pages : UInt32 → Except Win32Error KeyPage) (root : UInt32)
    (H : ℕ) (s : Key) (page : KeyPage) (before behind pre post : List Entry) (stack : List UInt32)
    (ids : Multiset UInt32) : Prop where
  path : Path dwPageSize pages root H 0 page.dwPageId stack pre post ids
  stored : Stored dwPageSize pages page.dwPageId page
  holds : ∃ subs, Holds (Tree dwPageSize pages 0) page subs
  keys : page.keys = before ++ behind
  before : AllBefore (pre ++ before) s
  behind : AllBehind s (behind ++ post)

variable (tree) in
/-- The search ends on the entry with the key, or on the leaf where a new one belongs. -/
theorem searchLoop_spec
    (hpath : Path dwPageSize tree.m_pSrc.pages root H h page.dwPageId stack pre post ids)
    (hstored : Stored dwPageSize tree.m_pSrc.pages page.dwPageId page)
    (hholds : Holds (Tree dwPageSize tree.m_pSrc.pages h) page subs)
    (hsorted : SortedEntries (contents page subs)) (hs : s.1 ≠ []) (hpre : AllBefore pre s)
    (hpost : AllBehind s post) (hfuel : h < fuel) (hne : page.keys = [] → h = 0) :
    (∃ entry page' wID stack', tree.searchLoop s fuel page stack = .ok (true, page', wID, stack') ∧
        page'.keys[wID]? = some entry ∧ entry.1 = s ∧ entry ∈ contents page subs) ∨
      ∃ page' before behind pre' post' stack' ids',
        tree.searchLoop s fuel page stack = .ok (false, page', before.length, stack') ∧
        LeafPlace dwPageSize tree.m_pSrc.pages root H s page' before behind pre' post' stack' ids' ∧
        pre' ++ (page'.keys ++ post') = pre ++ (contents page subs ++ post) ∧
        page'.dwPageId ::ₘ ids' = page.dwPageId ::ₘ (idsBelow subs + ids) := by
  induction h generalizing page subs stack pre post ids fuel with
  | zero =>
    obtain ⟨fuel, rfl⟩ : ∃ f, fuel = f + 1 := ⟨fuel - 1, by omega⟩
    rw [hholds.leaf_contents] at hsorted ⊢
    rw [CBTree.searchLoop]
    rcases exists_place hsorted s with
      ⟨before, entry, behind, hkeys, rfl⟩ | ⟨before, behind, hkeys, hbefore, hbehind⟩
    · left
      rw [KeyPage.findKey_found hs hkeys hsorted]
      refine ⟨entry, page, before.length, stack, rfl, ?_, rfl, ?_⟩
      · rw [hkeys, List.getElem?_append_right le_rfl, Nat.sub_self]
        rfl
      · rw [hkeys]
        exact List.mem_append_right _ List.mem_cons_self
    · right
      have hchild : page.getChildPage before.length = 0 := by
        obtain ⟨left, sub, right, hsubs, hleft⟩ :=
          exists_split_at (show before.length < subs.length by
            rw [hholds.length, hkeys, List.length_append]
            omega)
        have hsub : sub = noSubtree := hholds.below sub (by rw [hsubs]; simp)
        rw [KeyPage.getChildPage, hholds.childPageMap, hsubs, List.map_append,
          List.getD_append_right _ _ _ _ (by rw [List.length_map, hleft]), List.length_map, hleft,
          Nat.sub_self, hsub]
        rfl
      rw [KeyPage.findKey_missing hs hkeys hbefore hbehind]
      refine ⟨page, before, behind, pre, post, stack, ids, ?_,
        ⟨hpath, hstored, ⟨subs, hholds⟩, hkeys, hpre.append hbefore, hbehind.append hpost⟩, rfl, ?_⟩
      · exact if_pos hchild
      · rw [hholds.leaf_ids, zero_add]
  | succ h ih =>
    obtain ⟨fuel, rfl⟩ : ∃ f, fuel = f + 1 := ⟨fuel - 1, by omega⟩
    have hkeysSorted : SortedEntries page.keys := hsorted.sublist hholds.sublist_contents
    rcases exists_place hkeysSorted s with
      ⟨before, entry, behind, hkeys, rfl⟩ | ⟨before, behind, hkeys, hbefore, hbehind⟩
    · left
      rw [CBTree.searchLoop, KeyPage.findKey_found hs hkeys hkeysSorted]
      refine ⟨entry, page, before.length, stack, rfl, ?_, rfl, hholds.sublist_contents.subset ?_⟩
      · rw [hkeys, List.getElem?_append_right le_rfl, Nat.sub_self]
        rfl
      · rw [hkeys]
        exact List.mem_append_right _ List.mem_cons_self
    · obtain ⟨left, sub, right, rfl, hleft⟩ :=
        exists_split_at (show before.length < subs.length by
          rw [hholds.length, hkeys, List.length_append]
          omega)
      have hlength := hholds.length
      rw [hkeys, List.length_append, List.length_append, List.length_cons, hleft] at hlength
      have hright : right.length = behind.length := by omega
      obtain ⟨child, subs, hchildNe, hchild, hbelow, hentries, hids⟩ :=
        hholds.below sub (List.mem_append_right _ List.mem_cons_self)
      have hmap : page.childPageMap =
          left.map Subtree.id ++ sub.id :: right.map Subtree.id := by
        rw [hholds.childPageMap, List.map_append, List.map_cons]
      have hget : page.getChildPage before.length = sub.id := by
        rw [KeyPage.getChildPage, hmap, List.getD_append_right _ _ _ _ (by rw [List.length_map, hleft]),
          List.length_map, hleft, Nat.sub_self]
        rfl
      have hcontents := contents_hole (t := sub) hkeys hleft hright
      rw [hcontents] at hsorted ⊢
      obtain ⟨hleadingSorted, hrestSorted, -⟩ := List.pairwise_append.mp hsorted
      obtain ⟨hsubSorted, htrailingSorted, -⟩ := List.pairwise_append.mp hrestSorted
      have hpath' := Path.child hpath hstored (fun hnil => Nat.succ_ne_zero h (hne hnil)) hkeys hmap
        hleft hright fun sub' hsub' => hholds.below sub' (List.mem_append.mpr
          ((List.mem_append.mp hsub').imp id (List.mem_cons_of_mem _)))
      have hentries' : AllBefore (pre ++ leading (left.map Subtree.entries) before) s :=
        hpre.append (hbefore.leading (by rw [List.length_map, hleft]) hleadingSorted)
      have hbehind' : AllBehind s (trailing behind (right.map Subtree.entries) ++ post) :=
        (hbehind.trailing (by rw [List.length_map, hright]) htrailingSorted).append hpost
      rw [← hchild.dwPageId] at hpath'
      have hstep : tree.searchLoop s (fuel + 1) page stack =
          tree.searchLoop s fuel child (page.dwPageId :: stack) := by
        rw [CBTree.searchLoop, KeyPage.findKey_missing hs hkeys hbefore hbehind]
        change (if page.getChildPage before.length = 0 then _ else _) = _
        rw [hget, if_neg hchild.id_ne, CBTree.readIdxPage, hchild.read]
        rfl
      rw [hstep]
      rcases ih hpath' (by rw [hchild.dwPageId]; exact hchild) hbelow (hentries ▸ hsubSorted) hentries'
          hbehind' (Nat.lt_of_succ_lt_succ hfuel) (fun hnil => absurd hnil hchildNe) with
        ⟨entry, page', wID, stack', hsearch, hget', hentry, hmem⟩ |
        ⟨page', before', behind', pre', post', stack', ids', hsearch, hplace, hwhole, hids'⟩
      · refine .inl ⟨entry, page', wID, stack', hsearch, hget', hentry, ?_⟩
        rw [hentries]
        exact List.mem_append_right _ (List.mem_append_left _ hmem)
      · refine .inr ⟨page', before', behind', pre', post', stack', ids', hsearch, hplace, ?_, ?_⟩
        · rw [hwhole, hentries]
          simp only [List.append_assoc]
        · rw [hids', idsBelow_append, idsBelow_cons, hids, hchild.dwPageId]
          simp only [← Multiset.singleton_add]
          ac_rfl

end SearchLoop

end NtAdmin.Wmi.Btr
