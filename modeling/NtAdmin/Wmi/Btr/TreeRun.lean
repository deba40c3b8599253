import Mathlib.Data.Finset.Card
import Mathlib.Data.Finset.Range
import NtAdmin.Wmi.Btr.TreeSplit

/-! The B-tree of btr.cpp over sequences of calls: its shape, and the map that it stands for. -/
namespace NtAdmin.Wmi.Btr
open Lib Win32Error

/-- What the tree relies on in the page source: a new page was not in use, and page 0 always is. -/
structure Allocates {σ : Type} (newPage : σ → Except Win32Error (UInt32 × σ))
    (inUse : σ → UInt32 → Prop) : Prop where
  admin : ∀ source, inUse source 0
  fresh : ∀ source id source', newPage source = .ok (id, source') → ¬inUse source id
  added : ∀ source id source', newPage source = .ok (id, source') →
    ∀ i, inUse source' i ↔ inUse source i ∨ i = id

section Tree
variable {σ : Type} {dwPageSize : ℕ} {newPage : σ → Except Win32Error (UInt32 × σ)}
  {inUse : σ → UInt32 → Prop} {tree tree' : CBTree σ} {root : UInt32} {H h : ℕ}
  {page pCurrent : KeyPage} {subs : List Subtree} {stack : List UInt32}
  {entries pre post before behind : List Entry} {ids : Multiset UInt32} {s : Key} {dwValue : UInt32}

/-- The file holds a tree with these entries: all leaves are on one level, every page but an empty root
has keys and fits, no page occurs twice, and the entries are in order. The cache is the root page. -/
structure IsTree (dwPageSize : ℕ) (inUse : σ → UInt32 → Prop) (tree : CBTree σ) (H : ℕ)
    (page : KeyPage) (subs : List Subtree) : Prop where
  stored : Stored dwPageSize tree.m_pSrc.pages tree.m_pSrc.m_dwLogicalRoot page
  holds : Holds (Tree dwPageSize tree.m_pSrc.pages H) page subs
  empty : page.keys = [] → H = 0
  sorted : SortedEntries (contents page subs)
  nodup : (tree.m_pSrc.m_dwLogicalRoot ::ₘ idsBelow subs).Nodup
  used : ∀ i ∈ tree.m_pSrc.m_dwLogicalRoot ::ₘ idsBelow subs, inUse tree.m_pSrc.source i
  cache : ∀ pRoot ∈ tree.m_pRoot, pRoot = page

/-- A tree with these entries. -/
def HasEntries (dwPageSize : ℕ) (inUse : σ → UInt32 → Prop) (tree : CBTree σ)
    (entries : List Entry) : Prop :=
  ∃ H page subs, IsTree dwPageSize inUse tree H page subs ∧ contents page subs = entries

/-- The tree while `pCurrent` is not written: all but this page is in the file. -/
structure Splitting (dwPageSize : ℕ) (inUse : σ → UInt32 → Prop) (tree : CBTree σ)
    (pCurrent : KeyPage) (subs : List Subtree) (root : UInt32) (H h : ℕ) (stack : List UInt32)
    (pre post : List Entry) (ids : Multiset UInt32) : Prop where
  path : Path dwPageSize tree.m_pSrc.pages root H h pCurrent.dwPageId stack pre post ids
  id_ne : pCurrent.dwPageId ≠ 0
  holds : Holds (Tree dwPageSize tree.m_pSrc.pages h) pCurrent subs
  keys_ne : pCurrent.keys ≠ []
  sorted : SortedEntries (pre ++ (contents pCurrent subs ++ post))
  nodup : (pCurrent.dwPageId ::ₘ (idsBelow subs + ids)).Nodup
  used : ∀ i ∈ pCurrent.dwPageId ::ₘ (idsBelow subs + ids), inUse tree.m_pSrc.source i
  logicalRoot : tree.m_pSrc.m_dwLogicalRoot = root
  cache : ∃ pRoot, tree.m_pRoot = some pRoot ∧ pRoot.dwPageId = root ∧
    (pCurrent.dwPageId ≠ root → tree.m_pSrc.pages root = .ok pRoot)

theorem Path.root_mem {pages : UInt32 → Except Win32Error KeyPage} {id : UInt32}
    (hpath : Path dwPageSize pages root H h id stack pre post ids) : id = root ∨ root ∈ ids := by
  induction hpath with
  | root hstack => exact .inl rfl
  | child hparent hstored hne hkeys hmap hleft hright hsiblings ih =>
    refine .inr (Multiset.mem_cons.mpr (ih.imp Eq.symm fun hmem => ?_))
    exact Multiset.mem_add.mpr (.inr hmem)

/-- Writing a page that is not the cached root. -/
theorem writeIdxPage_other {pRoot : KeyPage} (h : tree.writeIdxPage dwPageSize page = .ok tree')
    (hroot : tree.m_pRoot = some pRoot) (hne : pRoot.dwPageId ≠ page.dwPageId) :
    page.getRequiredPageMemory ≤ dwPageSize ∧
      tree' = { tree with m_pSrc := { tree.m_pSrc with
        pages := Function.update tree.m_pSrc.pages page.dwPageId (.ok page) } } := by
  rw [CBTree.writeIdxPage] at h
  split_ifs at h with hbig
  refine ⟨Nat.le_of_not_lt hbig, ?_⟩
  have hcached : tree.m_pRoot.map KeyPage.dwPageId ≠ some page.dwPageId := by
    rw [hroot]
    exact fun heq => hne (Option.some.inj heq)
  dsimp only at h
  rw [if_neg hcached] at h
  exact (Except.ok.inj h).symm

/-- Writing a page that is the root. -/
theorem writeIdxPage_root {pRoot : KeyPage} (h : tree.writeIdxPage dwPageSize page = .ok tree')
    (hroot : tree.m_pRoot = some pRoot) (heq : pRoot.dwPageId = page.dwPageId) :
    page.getRequiredPageMemory ≤ dwPageSize ∧
      tree' = { m_pSrc := { tree.m_pSrc with
                  pages := Function.update tree.m_pSrc.pages page.dwPageId (.ok page)
                  m_dwLogicalRoot := page.dwPageId }
                m_pRoot := some page } := by
  rw [CBTree.writeIdxPage] at h
  split_ifs at h with hbig
  refine ⟨Nat.le_of_not_lt hbig, ?_⟩
  dsimp only at h
  rw [hroot, Option.map_some, if_pos (congrArg some heq)] at h
  exact (Except.ok.inj h).symm

/-- The tree is complete once the page is written. -/
theorem Splitting.write (hsplit : Splitting dwPageSize inUse tree pCurrent subs root H h stack pre post ids)
    (hwrite : tree.writeIdxPage dwPageSize pCurrent = .ok tree') :
    HasEntries dwPageSize inUse tree' (pre ++ (contents pCurrent subs ++ post)) := by
  obtain ⟨pRoot, hcached, hid, hread⟩ := hsplit.cache
  obtain ⟨hself, hrest⟩ := Multiset.nodup_cons.mp hsplit.nodup
  rw [Multiset.mem_add, not_or] at hself
  have hframe (i : UInt32) (hi : i ≠ pCurrent.dwPageId) :
      Function.update tree.m_pSrc.pages pCurrent.dwPageId (.ok pCurrent) i = tree.m_pSrc.pages i :=
    Function.update_of_ne hi _ _
  have hfacts : pCurrent.getRequiredPageMemory ≤ dwPageSize ∧
      tree'.m_pSrc.pages = Function.update tree.m_pSrc.pages pCurrent.dwPageId (.ok pCurrent) ∧
      tree'.m_pSrc.source = tree.m_pSrc.source ∧ tree'.m_pSrc.m_dwLogicalRoot = root ∧
      ∃ pRoot', tree'.m_pRoot = some pRoot' ∧ tree'.m_pSrc.pages root = .ok pRoot' := by
    by_cases heq : root = pCurrent.dwPageId
    · obtain ⟨hfits, rfl⟩ := writeIdxPage_root hwrite hcached (hid.trans heq)
      refine ⟨hfits, rfl, rfl, heq.symm, pCurrent, rfl, ?_⟩
      rw [heq]
      exact Function.update_self _ _ _
    · obtain ⟨hfits, rfl⟩ := writeIdxPage_other hwrite hcached (hid ▸ heq)
      refine ⟨hfits, rfl, rfl, hsplit.logicalRoot, pRoot, hcached, ?_⟩
      exact (hframe root heq).trans (hread (Ne.symm heq))
  obtain ⟨hfits, hpages, hsource, hlogical, pRoot', hcached', hread'⟩ := hfacts
  have hcurrent : Tree dwPageSize tree'.m_pSrc.pages (h + 1) ⟨pCurrent.dwPageId,
      contents pCurrent subs, pCurrent.dwPageId ::ₘ idsBelow subs⟩ := by
    refine ⟨pCurrent, subs, hsplit.keys_ne, ⟨hsplit.id_ne, ?_, rfl, hfits⟩,
      hsplit.holds.mono fun sub hsub htree => htree.frame fun i hi => ?_, rfl, rfl⟩
    · rw [hpages]
      exact Function.update_self _ _ _
    · rw [hpages]
      exact hframe i fun heq => hself.1 (heq ▸ mem_idsBelow hsub hi)
  have hbehindPath : ∀ i ∈ ids, tree'.m_pSrc.pages i = tree.m_pSrc.pages i := by
    intro i hi
    rw [hpages]
    exact hframe i fun heq => hself.2 (heq ▸ hi)
  have hpath := hsplit.path.frame hbehindPath
  obtain ⟨page, subs', hne, hstored, hholds, hentries, hids⟩ := hpath.plug hcurrent
  dsimp only at hstored hentries hids
  rw [Multiset.cons_add] at hids
  have hall := hsplit.nodup
  have hused := hsplit.used
  rw [hids] at hall hused
  refine ⟨H, page, subs', ⟨hlogical.symm ▸ hstored, hholds, fun hnil => absurd hnil hne, ?_, ?_, ?_, ?_⟩,
    hentries.symm⟩
  · rw [← hentries]
    exact hsplit.sorted
  · rwa [hlogical]
  · rwa [hlogical, hsource]
  · intro pRoot hmem
    rw [hcached', Option.mem_some_iff] at hmem
    rw [hstored.read, ← hmem] at *
    exact (Except.ok.inj hread').symm

/-- A page that is to be split, and its parent with the subtrees on the two sides of it. -/
structure UnderParent (dwPageSize : ℕ) (inUse : σ → UInt32 → Prop) (tree : CBTree σ)
    (pCurrent : KeyPage) (subs : List Subtree) (pParent : KeyPage) (before behind : List Entry)
    (left right : List Subtree) (root : UInt32) (H h : ℕ) (stack : List UInt32)
    (pre post : List Entry) (ids : Multiset UInt32) : Prop where
  path : Path dwPageSize tree.m_pSrc.pages root H (h + 1) pParent.dwPageId stack pre post ids
  parent_ne : pParent.dwPageId ≠ 0
  id_ne : pCurrent.dwPageId ≠ 0
  holds : Holds (Tree dwPageSize tree.m_pSrc.pages h) pCurrent subs
  keys : pParent.keys = before ++ behind
  childPageMap : ∃ x, pParent.childPageMap = left.map Subtree.id ++ x :: right.map Subtree.id
  left_length : left.length = before.length
  right_length : right.length = behind.length
  siblings : ∀ sub ∈ left ++ right, Tree dwPageSize tree.m_pSrc.pages (h + 1) sub
  sorted : SortedEntries (pre ++ (leading (left.map Subtree.entries) before ++
    (contents pCurrent subs ++ trailing behind (right.map Subtree.entries)) ++ post))
  nodup : (pParent.dwPageId ::ₘ pCurrent.dwPageId ::ₘ
    (idsBelow left + idsBelow subs + idsBelow right + ids)).Nodup
  used : ∀ i ∈ pParent.dwPageId ::ₘ pCurrent.dwPageId ::ₘ
    (idsBelow left + idsBelow subs + idsBelow right + ids), inUse tree.m_pSrc.source i
  logicalRoot : tree.m_pSrc.m_dwLogicalRoot = root
  cache : ∃ pRoot, tree.m_pRoot = some pRoot ∧ pRoot.dwPageId = root ∧
    (pParent.dwPageId ≠ root → tree.m_pSrc.pages root = .ok pRoot)

theorem allocPage_eq {id : UInt32} (h : tree.allocPage newPage = .ok (id, tree')) :
    ∃ source, newPage tree.m_pSrc.source = .ok (id, source) ∧
      tree' = { tree with m_pSrc := { tree.m_pSrc with source := source } } := by
  rw [CBTree.allocPage] at h
  obtain ⟨⟨id', source⟩, hnew, h⟩ := eq_ok_of_bind h
  obtain ⟨rfl, rfl⟩ := Prod.mk.inj (Except.ok.inj h)
  exact ⟨source, hnew, rfl⟩

/-- The parent of a page that is to be split. -/
theorem Splitting.parent {pParent : KeyPage} {dwParent : UInt32}
    (halloc : Allocates newPage inUse)
    (hsplit : Splitting dwPageSize inUse tree pCurrent subs root H h (dwParent :: stack) pre post ids)
    (hparent : tree.parentPage newPage dwParent = .ok (pParent, tree')) :
    ∃ before behind left right root' H' pre' post' ids',
      UnderParent dwPageSize inUse tree' pCurrent subs pParent before behind left right root' H' h stack
        pre' post' ids' ∧
      pre = pre' ++ leading (left.map Subtree.entries) before ∧
      post = trailing behind (right.map Subtree.entries) ++ post' := by
  obtain ⟨pRoot, hcached, hid, hread⟩ := hsplit.cache
  have hsorted := hsplit.sorted
  have hnodup := hsplit.nodup
  have hused := hsplit.used
  cases hsplit.path with
  | root hstack =>
    obtain ⟨rfl, rfl⟩ : dwParent = 0 ∧ stack = [] := by
      rcases hstack with hstack | hstack
      · exact List.cons.inj hstack
      · cases hstack
    rw [CBTree.parentPage, if_pos rfl] at hparent
    obtain ⟨⟨id, tree₁⟩, hnew, hparent⟩ := eq_ok_of_bind hparent
    obtain ⟨source, hsource, rfl⟩ := allocPage_eq hnew
    obtain ⟨rfl, rfl⟩ := Prod.mk.inj (Except.ok.inj hparent)
    have hfresh := halloc.fresh _ _ _ hsource
    have hadded := halloc.added _ _ _ hsource
    rw [add_zero] at hnodup hused
    refine ⟨[], [], [], [], id, H + 1, [], [], 0, {
      path := .root (.inr rfl)
      parent_ne := fun h0 : id = 0 => hfresh (h0 ▸ halloc.admin _)
      id_ne := hsplit.id_ne
      holds := hsplit.holds
      keys := rfl
      childPageMap := ⟨0, rfl⟩
      left_length := rfl
      right_length := rfl
      siblings := List.forall_mem_nil _
      sorted := by simpa [leading, trailing] using hsorted
      nodup := ?_
      used := ?_
      logicalRoot := rfl
      cache := ⟨_, rfl, rfl, fun hne => absurd rfl hne⟩ }, rfl, rfl⟩
    · have hids : idsBelow [] + idsBelow subs + idsBelow [] + 0 = idsBelow subs := by
        rw [add_zero]
        exact (add_zero _).trans (zero_add _)
      rw [hids]
      exact Multiset.nodup_cons.mpr ⟨fun hmem => hfresh (hused id hmem), hnodup⟩
    · have hids : idsBelow [] + idsBelow subs + idsBelow [] + 0 = idsBelow subs := by
        rw [add_zero]
        exact (add_zero _).trans (zero_add _)
      rw [hids]
      intro i hi
      rcases Multiset.mem_cons.mp hi with rfl | hi
      · exact (hadded _).mpr (.inr rfl)
      · exact (hadded i).mpr (.inl (hused i hi))
  | @child _ _ _ page before behind left right _ pre post ids hpath hstored hne hkeys hmap hleft hright
      hsiblings =>
    have hcurrent : pCurrent.dwPageId ≠ root := by
      rintro heq
      refine (Multiset.nodup_cons.mp hnodup).1 (Multiset.mem_add.mpr (.inr ?_))
      rw [heq]
      refine Multiset.mem_cons.mpr (hpath.root_mem.imp Eq.symm fun hmem => ?_)
      exact Multiset.mem_add.mpr (.inr hmem)
    have hpage : pParent = page ∧ tree' = tree := by
      rw [CBTree.parentPage, if_neg hstored.id_ne, hcached] at hparent
      dsimp only at hparent
      split_ifs at hparent with hroot
      · obtain ⟨rfl, rfl⟩ := Prod.mk.inj (Except.ok.inj hparent)
        have hsame := hread hcurrent
        rw [← hid, ← hroot, hstored.read] at hsame
        exact ⟨(Except.ok.inj hsame).symm, rfl⟩
      · obtain ⟨pParent', hreadParent, hparent⟩ := eq_ok_of_bind hparent
        rw [CBTree.readIdxPage, hstored.read] at hreadParent
        obtain ⟨rfl, rfl⟩ := Prod.mk.inj (Except.ok.inj hparent)
        exact ⟨(Except.ok.inj hreadParent).symm, rfl⟩
    obtain ⟨rfl, rfl⟩ := hpage
    have hids : pCurrent.dwPageId ::ₘ (idsBelow subs +
        dwParent ::ₘ (idsBelow left + idsBelow right + ids)) =
          pParent.dwPageId ::ₘ pCurrent.dwPageId ::ₘ
            (idsBelow left + idsBelow subs + idsBelow right + ids) := by
      rw [hstored.dwPageId]
      simp only [← Multiset.singleton_add]
      ac_rfl
    rw [hids] at hnodup hused
    refine ⟨before, behind, left, right, root, H, pre, post, ids, {
      path := hstored.dwPageId.symm ▸ hpath
      parent_ne := hstored.dwPageId.symm ▸ hstored.id_ne
      id_ne := hsplit.id_ne
      holds := hsplit.holds
      keys := hkeys
      childPageMap := ⟨_, hmap⟩
      left_length := hleft
      right_length := hright
      siblings := hsiblings
      sorted := ?_
      nodup := hnodup
      used := hused
      logicalRoot := hsplit.logicalRoot
      cache := ⟨pRoot, hcached, hid, fun _ => hread hcurrent⟩ }, rfl, rfl⟩
    simpa only [List.append_assoc] using hsorted

/-- The two halves of a page that was split are trees, once both are written. -/
theorem halves {pages pages' : UInt32 → Except Win32Error KeyPage}
    {first rest : List Entry} {l r : List Subtree} (id dwNewSib : UInt32) {median : Entry}
    (hkeys : pCurrent.keys = first ++ median :: rest)
    (hholds : Holds (Tree dwPageSize pages h) pCurrent (l ++ r))
    (hl : l.length = first.length + 1) (hfirst : first ≠ []) (hrest : rest ≠ [])
    (hsib : Stored dwPageSize pages' dwNewSib ⟨dwNewSib, first, l.map Subtree.id⟩)
    (hcur : Stored dwPageSize pages' id ⟨id, rest, r.map Subtree.id⟩)
    (hframe : ∀ i ∈ idsBelow (l ++ r), pages' i = pages i) :
    Tree dwPageSize pages' (h + 1) ⟨dwNewSib, interleave (l.map Subtree.entries) first,
        dwNewSib ::ₘ idsBelow l⟩ ∧
      Tree dwPageSize pages' (h + 1) ⟨id, interleave (r.map Subtree.entries) rest,
        id ::ₘ idsBelow r⟩ := by
  have hlength := hholds.length
  rw [hkeys, List.length_append, List.length_append, List.length_cons] at hlength
  have hbelow (sub : Subtree) (hsub : sub ∈ l ++ r) : Tree dwPageSize pages' h sub :=
    (hholds.below sub hsub).frame fun i hi => hframe i (mem_idsBelow hsub hi)
  constructor
  · exact ⟨_, l, hfirst, hsib,
      ⟨rfl, hl, fun sub hsub => hbelow sub (List.mem_append_left _ hsub)⟩, rfl, rfl⟩
  · refine ⟨_, r, hrest, hcur,
      ⟨rfl, ?_, fun sub hsub => hbelow sub (List.mem_append_right _ hsub)⟩, rfl, rfl⟩
    dsimp only
    omega

/-- One round of the loop of `InsertPhase2`. -/
theorem Splitting.split {pParent : KeyPage} {dwParent : UInt32} (halloc : Allocates newPage inUse)
    (hsplit : Splitting dwPageSize inUse tree pCurrent subs root H h (dwParent :: stack) pre post ids)
    (hround : tree.splitPage dwPageSize newPage pCurrent dwParent = .ok (pParent, tree')) :
    ∃ subs' root' H' h' pre' post' ids',
      Splitting dwPageSize inUse tree' pParent subs' root' H' h' stack pre' post' ids' ∧
      pre' ++ (contents pParent subs' ++ post') = pre ++ (contents pCurrent subs ++ post) := by
  rw [CBTree.splitPage] at hround
  obtain ⟨⟨pParent₁, tree₁⟩, hparent, hround⟩ := eq_ok_of_bind hround
  obtain ⟨⟨dwNewSib, tree₂⟩, hnew, hround⟩ := eq_ok_of_bind hround
  obtain ⟨⟨current, parent, sibling⟩, hredist, hround⟩ := eq_ok_of_bind hround
  obtain ⟨tree₃, hwrite, hround⟩ := eq_ok_of_bind hround
  obtain ⟨tree₄, hwrite', hround⟩ := eq_ok_of_bind hround
  obtain ⟨rfl, rfl⟩ := Prod.mk.inj (Except.ok.inj hround)
  obtain ⟨before, behind, left, right, root', H', pre', post', ids', hunder, hpre, hpost⟩ :=
    hsplit.parent halloc hparent
  obtain ⟨source, hsource, rfl⟩ := allocPage_eq hnew
  obtain ⟨x, hmap⟩ := hunder.childPageMap
  have hsorted := hunder.sorted
  obtain ⟨hfront, -, -⟩ := List.pairwise_append.mp (List.pairwise_append.mp hsorted).2.1
  obtain ⟨-, hmiddle, hacross⟩ := List.pairwise_append.mp hfront
  obtain ⟨hcontents, -, hacross'⟩ := List.pairwise_append.mp hmiddle
  have hkeysContents := hunder.holds.sublist_contents
  have hbefore (e : Entry) (he : e ∈ pCurrent.keys) : AllBefore before e.1 := fun b hb =>
    hacross b ((sublist_leading (by rw [List.length_map, hunder.left_length])).subset hb) e
      (List.mem_append_left _ (hkeysContents.subset he))
  have hbehind (e : Entry) (he : e ∈ pCurrent.keys) : AllBehind e.1 behind := fun b hb =>
    hacross' e (hkeysContents.subset he) b
      ((sublist_trailing (by rw [List.length_map, hunder.right_length])).subset hb)
  obtain ⟨first, median, rest, l, r, hkeys, rfl, hl, hfirst, hrest, rfl, rfl, rfl⟩ :=
    KeyPage.redist_eq hunder.holds (hcontents.sublist hkeysContents) hunder.keys hmap
      (by rw [List.length_map, hunder.left_length]) (by rw [List.length_map, hunder.right_length])
      hbefore hbehind hredist
  have hfresh := halloc.fresh _ _ _ hsource
  have hadded := halloc.added _ _ _ hsource
  have hused := hunder.used
  have hnodup := hunder.nodup
  obtain ⟨pRoot, hcached, hid, hread⟩ := hunder.cache
  obtain ⟨hparentNew, hcurrentNew⟩ := Multiset.nodup_cons.mp hnodup
  obtain ⟨hcurrentNew, -⟩ := Multiset.nodup_cons.mp hcurrentNew
  have hne (i : UInt32) (hi : inUse tree₁.m_pSrc.source i) : i ≠ dwNewSib := by
    rintro rfl
    exact hfresh hi
  have hrootMem : root' = pParent₁.dwPageId ∨ root' ∈ ids' := hunder.path.root_mem.imp_left Eq.symm
  have hrootNe : root' ≠ pCurrent.dwPageId := by
    rcases hrootMem with rfl | hmem
    · rintro heq
      exact hparentNew (heq ▸ Multiset.mem_cons_self _ _)
    · rintro rfl
      exact hcurrentNew (Multiset.mem_add.mpr (.inr hmem))
  have hrootSib : root' ≠ dwNewSib := by
    refine hne root' (hused root' (Multiset.mem_cons.mpr (hrootMem.imp_right fun hmem => ?_)))
    exact Multiset.mem_cons_of_mem (Multiset.mem_add.mpr (.inr hmem))
  have hcurrentSib : pCurrent.dwPageId ≠ dwNewSib :=
    hne _ (hused _ (Multiset.mem_cons_of_mem (Multiset.mem_cons_self _ _)))
  obtain ⟨hfits, rfl⟩ := writeIdxPage_other hwrite hcached (hid ▸ hrootNe)
  obtain ⟨hfits', rfl⟩ := writeIdxPage_other hwrite' hcached (hid ▸ hrootSib)
  -- Only the two halves have changed in the file.
  have hframe (i : UInt32) (hi : i ∈ idsBelow left + idsBelow (l ++ r) + idsBelow right + ids') :
      Function.update (Function.update tree₁.m_pSrc.pages pCurrent.dwPageId
        (.ok ⟨pCurrent.dwPageId, rest, r.map Subtree.id⟩)) dwNewSib
          (.ok ⟨dwNewSib, first, l.map Subtree.id⟩) i = tree₁.m_pSrc.pages i := by
    have hsib := hne i (hused i (Multiset.mem_cons_of_mem (Multiset.mem_cons_of_mem hi)))
    have hcur : i ≠ pCurrent.dwPageId := fun heq => hcurrentNew (heq ▸ hi)
    rw [Function.update_of_ne hsib, Function.update_of_ne hcur]
  obtain ⟨hsibTree, hcurTree⟩ := halves pCurrent.dwPageId dwNewSib hkeys
    hunder.holds hl hfirst hrest
    ⟨fun h0 => hfresh (h0 ▸ halloc.admin _), Function.update_self _ _ _, rfl, hfits'⟩
    ⟨hunder.id_ne, (Function.update_of_ne hcurrentSib _ _).trans (Function.update_self _ _ _), rfl,
      hfits⟩
    fun i hi => hframe i (Multiset.mem_add.mpr (.inl (Multiset.mem_add.mpr (.inl
      (Multiset.mem_add.mpr (.inr hi))))))
  obtain ⟨sib, hsibDef⟩ : ∃ sib : Subtree, sib = ⟨dwNewSib, interleave (l.map Subtree.entries) first,
    dwNewSib ::ₘ idsBelow l⟩ := ⟨_, rfl⟩
  obtain ⟨cur, hcurDef⟩ : ∃ cur : Subtree, cur = ⟨pCurrent.dwPageId,
    interleave (r.map Subtree.entries) rest, pCurrent.dwPageId ::ₘ idsBelow r⟩ := ⟨_, rfl⟩
  rw [← hsibDef] at hsibTree
  rw [← hcurDef] at hcurTree
  have hwhole : contents ⟨pParent₁.dwPageId, before ++ median :: behind,
      left.map Subtree.id ++ dwNewSib :: pCurrent.dwPageId :: right.map Subtree.id⟩
        (left ++ sib :: cur :: right) =
      leading (left.map Subtree.entries) before ++
        (contents pCurrent (l ++ r) ++ trailing behind (right.map Subtree.entries)) := by
    rw [contents_hole (t := sib) rfl hunder.left_length
        (by rw [List.length_cons, List.length_cons, hunder.right_length]),
      List.map_cons, trailing_cons, contents, hkeys, List.map_append,
      interleave_split (by rw [List.length_map, hl]), hsibDef, hcurDef]
    simp only [List.append_assoc, List.cons_append]
  have hids : pParent₁.dwPageId ::ₘ (idsBelow (left ++ sib :: cur :: right) + ids') =
      dwNewSib ::ₘ pParent₁.dwPageId ::ₘ pCurrent.dwPageId ::ₘ
        (idsBelow left + idsBelow (l ++ r) + idsBelow right + ids') := by
    rw [idsBelow_append, idsBelow_cons, idsBelow_cons, idsBelow_append, hsibDef, hcurDef]
    simp only [← Multiset.singleton_add]
    ac_rfl
  refine ⟨left ++ sib :: cur :: right, root', H', h + 1, pre', post', ids', {
    path := hunder.path.frame fun i hi => hframe i (Multiset.mem_add.mpr (.inr hi))
    id_ne := hunder.parent_ne
    holds := ⟨?_, ?_, ?_⟩
    keys_ne := List.append_ne_nil_of_right_ne_nil _ (List.cons_ne_nil _ _)
    sorted := ?_
    nodup := ?_
    used := ?_
    logicalRoot := hunder.logicalRoot
    cache := ⟨pRoot, hcached, hid, fun hparentNe => ?_⟩ }, ?_⟩
  · rw [hsibDef, hcurDef, List.map_append, List.map_cons, List.map_cons]
  · rw [List.length_append, List.length_append, List.length_cons, List.length_cons,
      List.length_cons, hunder.left_length, hunder.right_length]
    rfl
  · intro sub hsub
    have hsibling (sub : Subtree) (hsub : sub ∈ left ++ right) :=
      (hunder.siblings sub hsub).frame fun i hi => hframe i (by
        have hmem := mem_idsBelow hsub hi
        rw [idsBelow_append, Multiset.mem_add] at hmem
        rw [Multiset.mem_add, Multiset.mem_add, Multiset.mem_add]
        exact .inl (hmem.imp_left fun hmem => .inl hmem))
    rcases List.mem_append.mp hsub with hsub | hsub
    · exact hsibling sub (List.mem_append_left _ hsub)
    · rcases List.mem_cons.mp hsub with rfl | hsub
      · exact hsibTree
      · rcases List.mem_cons.mp hsub with rfl | hsub
        · exact hcurTree
        · exact hsibling sub (List.mem_append_right _ hsub)
  · rw [hwhole]
    simpa only [List.append_assoc] using hsorted
  · rw [hids]
    exact Multiset.nodup_cons.mpr ⟨fun hmem => hfresh (hused _ hmem), hnodup⟩
  · rw [hids]
    intro i hi
    exact (hadded i).mpr ((Multiset.mem_cons.mp hi).symm.imp_left (hused i))
  · rw [← hread hparentNe]
    exact (Function.update_of_ne hrootSib _ _).trans (Function.update_of_ne hrootNe _ _)
  · rw [hwhole, hpre, hpost]
    simp only [List.append_assoc]

theorem splitLoop_spec (halloc : Allocates newPage inUse)
    (hsplit : Splitting dwPageSize inUse tree pCurrent subs root H h stack pre post ids)
    (hloop : tree.splitLoop dwPageSize newPage pCurrent stack = .ok tree') :
    HasEntries dwPageSize inUse tree' (pre ++ (contents pCurrent subs ++ post)) := by
  induction stack generalizing tree pCurrent subs root H h pre post ids with
  | nil =>
    rw [CBTree.splitLoop] at hloop
    split_ifs at hloop
    exact hsplit.write hloop
  | cons dwParent stack ih =>
    rw [CBTree.splitLoop] at hloop
    split_ifs at hloop
    · exact hsplit.write hloop
    · obtain ⟨⟨pParent, tree₁⟩, hround, hloop⟩ := eq_ok_of_bind hloop
      obtain ⟨subs', root', H', h', pre', post', ids', hsplit', hentries⟩ :=
        hsplit.split halloc hround
      rw [← hentries]
      exact ih hsplit' hloop

/-! ### Calls -/

theorem IsTree.cachedRoot (ht : IsTree dwPageSize inUse tree H page subs) :
    tree.cachedRoot = .ok (page, { tree with m_pRoot := some page }) := by
  obtain ⟨m_pSrc, m_pRoot⟩ := tree
  cases m_pRoot with
  | none =>
    rw [CBTree.cachedRoot, CBTree.invalidateCache, CBTree.readIdxPage, ht.stored.read]
    rfl
  | some pRoot =>
    rw [ht.cache pRoot rfl]
    rfl

theorem IsTree.caching (ht : IsTree dwPageSize inUse tree H page subs) {m_pRoot : Option KeyPage}
    (hcache : ∀ pRoot ∈ m_pRoot, pRoot = page) :
    IsTree dwPageSize inUse { tree with m_pRoot := m_pRoot } H page subs :=
  ⟨ht.stored, ht.holds, ht.empty, ht.sorted, ht.nodup, ht.used, hcache⟩

/-- There are fewer page ids than a tree of 33 levels would take. -/
theorem IsTree.height_lt (ht : IsTree dwPageSize inUse tree H page subs) :
    H < const_MaxStack - 1 := by
  by_cases hempty : page.keys = []
  · rw [ht.empty hempty]
    decide
  · have hpow := Tree.two_pow_le (h := H + 1) (t := ⟨tree.m_pSrc.m_dwLogicalRoot, contents page subs,
      tree.m_pSrc.m_dwLogicalRoot ::ₘ idsBelow subs⟩) ⟨page, subs, hempty, ht.stored, ht.holds, rfl, rfl⟩
    have hcard : Multiset.card (tree.m_pSrc.m_dwLogicalRoot ::ₘ idsBelow subs) ≤ 2 ^ 32 := by
      have hinj : Set.InjOn UInt32.toNat
          ((⟨_, ht.nodup⟩ : Finset UInt32) : Set UInt32) := fun a _ b _ => UInt32.toNat_inj.mp
      have hle := Finset.card_le_card_of_injOn (s := ⟨_, ht.nodup⟩) (t := Finset.range (2 ^ 32))
        UInt32.toNat (fun id _ => Finset.mem_coe.mpr (Finset.mem_range.mpr id.toNat_lt)) hinj
      rwa [Finset.card_range] at hle
    by_contra hge
    have hbig : 2 ^ 34 ≤ 2 ^ (H + 1) := Nat.pow_le_pow_right (by decide) (by
      rw [const_MaxStack] at hge
      omega)
    dsimp only at hpow
    omega

/-- The search from the root of a tree. -/
theorem IsTree.searchRoot (ht : IsTree dwPageSize inUse tree H page subs) (hs : s.1 ≠ []) :
    (∃ entry page' wID stack,
        tree.searchRoot s = .ok ({ tree with m_pRoot := some page }, true, page', wID, stack) ∧
        page'.keys[wID]? = some entry ∧ entry.1 = s ∧ entry ∈ contents page subs) ∨
      ∃ page' before behind pre post stack ids,
        tree.searchRoot s =
          .ok ({ tree with m_pRoot := some page }, false, page', before.length, stack) ∧
        LeafPlace dwPageSize tree.m_pSrc.pages tree.m_pSrc.m_dwLogicalRoot H s page' before behind pre
          post stack ids ∧
        pre ++ (page'.keys ++ post) = contents page subs ∧
        page'.dwPageId ::ₘ ids = tree.m_pSrc.m_dwLogicalRoot ::ₘ idsBelow subs := by
  have hid := ht.stored.dwPageId
  have hpath : Path dwPageSize tree.m_pSrc.pages tree.m_pSrc.m_dwLogicalRoot H H page.dwPageId [0] [] []
      0 := hid.symm ▸ .root (.inl rfl)
  have hspec := searchLoop_spec { tree with m_pRoot := some page } hpath
    (hid.symm ▸ ht.stored) ht.holds ht.sorted hs (List.forall_mem_nil _) (List.forall_mem_nil _)
    ht.height_lt ht.empty
  rw [List.nil_append, List.append_nil, add_zero, hid] at hspec
  have hsearch : tree.searchRoot s = (CBTree.searchLoop { tree with m_pRoot := some page } s
      (const_MaxStack - 1) page [0]).map fun result => ({ tree with m_pRoot := some page }, result) := by
    rw [CBTree.searchRoot, ht.cachedRoot]
    change (CBTree.search _ page s >>= _) = _
    rw [CBTree.search, if_neg hs]
    cases CBTree.searchLoop { tree with m_pRoot := some page } s (const_MaxStack - 1) page [0] with
    | error dwRes => rfl
    | ok result => rfl
  rw [hsearch]
  rcases hspec with ⟨entry, page', wID, stack, hfound, hrest⟩ |
    ⟨page', before, behind, pre, post, stack, ids, hmissing, hrest⟩
  · exact .inl ⟨entry, page', wID, stack, by rw [hfound]; rfl, hrest⟩
  · exact .inr ⟨page', before, behind, pre, post, stack, ids, by rw [hmissing]; rfl, hrest⟩

theorem IsTree.searchRoot_nil (ht : IsTree dwPageSize inUse tree H page subs) (hs : s.1 = []) :
    tree.searchRoot s = .error ERROR_INVALID_PARAMETER := by
  rw [CBTree.searchRoot, ht.cachedRoot]
  change (CBTree.search _ page s >>= _) = _
  rw [CBTree.search, if_pos hs]
  rfl

/-- A search ends with the same tree. -/
theorem searched_spec (ht : HasEntries dwPageSize inUse tree entries)
    (hsearch : tree.searched s = .ok tree') : HasEntries dwPageSize inUse tree' entries := by
  obtain ⟨H, page, subs, ht, hentries⟩ := ht
  have ht' := ht.caching fun pRoot (h : pRoot ∈ some page) => (Option.some.inj h).symm
  rw [CBTree.searched] at hsearch
  have hs : s.1 ≠ [] := by
    intro hs
    rw [ht.searchRoot_nil hs] at hsearch
    cases hsearch
  rcases ht.searchRoot hs with ⟨entry, page', wID, stack, hfound, -⟩ |
    ⟨page', before, behind, pre, post, stack, ids, hmissing, -⟩
  · rw [hfound] at hsearch
    rw [← Except.ok.inj hsearch]
    exact ⟨H, page, subs, ht', hentries⟩
  · rw [hmissing] at hsearch
    rw [← Except.ok.inj hsearch]
    exact ⟨H, page, subs, ht', hentries⟩

/-- A new key in its place on a leaf. -/
theorem LeafPlace.add {ids : Multiset UInt32} {page' : KeyPage}
    (hplace : LeafPlace dwPageSize tree.m_pSrc.pages root H s page before behind pre post stack ids)
    (hsorted : SortedEntries (pre ++ (page.keys ++ post)))
    (hnodup : (page.dwPageId ::ₘ ids).Nodup)
    (hused : ∀ i ∈ page.dwPageId ::ₘ ids, inUse tree.m_pSrc.source i)
    (hlogical : tree.m_pSrc.m_dwLogicalRoot = root)
    (hcache : ∃ pRoot, tree.m_pRoot = some pRoot ∧ pRoot.dwPageId = root ∧
      tree.m_pSrc.pages root = .ok pRoot)
    (hadd : page.addKey s before.length dwValue = .ok page') :
    ∃ subs, Splitting dwPageSize inUse tree page' subs root H 0 stack pre post ids ∧
      contents page' subs = before ++ (s, dwValue) :: behind := by
  obtain ⟨subs, hholds⟩ := hplace.holds
  obtain ⟨left, sub, right, rfl, hleft⟩ :=
    exists_split_at (show before.length < subs.length by
      rw [hholds.length, hplace.keys, List.length_append]
      omega)
  have hlength := hholds.length
  rw [hplace.keys, List.length_append, List.length_append, List.length_cons, hleft] at hlength
  have hright : right.length = behind.length := by omega
  have hmap : page.childPageMap = left.map Subtree.id ++ 0 :: right.map Subtree.id := by
    have hsub : sub = noSubtree := hholds.below sub (List.mem_append_right _ List.mem_cons_self)
    rw [hholds.childPageMap, List.map_append, List.map_cons, hsub]
    rfl
  have hpage := KeyPage.addKey_eq hplace.keys hmap (by rw [List.length_map, hleft])
    (by rw [List.length_map, hright]) hadd
  have hbelow (t : Subtree) (ht : t ∈ left ++ noSubtree :: noSubtree :: right) :
      Tree dwPageSize tree.m_pSrc.pages 0 t := by
    rcases List.mem_append.mp ht with ht | ht
    · exact hholds.below t (List.mem_append_left _ ht)
    · rcases List.mem_cons.mp ht with rfl | ht
      · rfl
      · rcases List.mem_cons.mp ht with rfl | ht
        · rfl
        · exact hholds.below t (List.mem_append_right _ (List.mem_cons_of_mem _ ht))
  have hholds' : Holds (Tree dwPageSize tree.m_pSrc.pages 0) page'
      (left ++ noSubtree :: noSubtree :: right) := by
    refine ⟨?_, ?_, hbelow⟩
    · rw [hpage, List.map_append, List.map_cons, List.map_cons]
      dsimp only
      split_ifs with hbehind
      · rw [hbehind, List.length_nil, List.length_eq_zero_iff] at hright
        rw [hright]
        rfl
      · rfl
    · rw [hpage, List.length_append, List.length_append, List.length_cons, List.length_cons,
        List.length_cons, hleft, hright]
      rfl
  have hcontents : contents page' (left ++ noSubtree :: noSubtree :: right) =
      before ++ (s, dwValue) :: behind := by
    rw [hholds'.leaf_contents, hpage]
  have hid : page'.dwPageId = page.dwPageId := by rw [hpage]
  obtain ⟨pRoot, hcached, hpRoot, hread⟩ := hcache
  refine ⟨left ++ noSubtree :: noSubtree :: right, {
    path := hid.symm ▸ hplace.path
    id_ne := hid.symm ▸ hplace.stored.id_ne
    holds := hholds'
    keys_ne := ?_
    sorted := ?_
    nodup := ?_
    used := ?_
    logicalRoot := hlogical
    cache := ⟨pRoot, hcached, hpRoot, fun _ => hread⟩ }, hcontents⟩
  · rw [hpage]
    exact List.append_ne_nil_of_right_ne_nil _ (List.cons_ne_nil _ _)
  · rw [hplace.keys, List.append_assoc, ← List.append_assoc] at hsorted
    rw [hcontents, List.append_assoc, ← List.append_assoc]
    exact hsorted.insert hplace.before hplace.behind
  · rwa [hholds'.leaf_ids, zero_add, hid]
  · rwa [hholds'.leaf_ids, zero_add, hid]

/-- A key that is inserted was not there, and comes to its place among the others. -/
theorem insertKey_spec (halloc : Allocates newPage inUse)
    (ht : HasEntries dwPageSize inUse tree entries)
    (hinsert : tree.insertKey dwPageSize newPage s dwValue = .ok tree') :
    ∃ before behind, entries = before ++ behind ∧ AllBefore before s ∧ AllBehind s behind ∧
      HasEntries dwPageSize inUse tree' (before ++ (s, dwValue) :: behind) := by
  obtain ⟨H, page, subs, ht, rfl⟩ := ht
  have hs : s.1 ≠ [] := by
    intro hs
    rw [CBTree.insertKey, ht.searchRoot_nil hs] at hinsert
    cases hinsert
  have ht' := ht.caching fun pRoot (h : pRoot ∈ some page) => (Option.some.inj h).symm
  rw [CBTree.insertKey] at hinsert
  rcases ht.searchRoot hs with ⟨entry, page', wID, stack, hfound, -⟩ |
    ⟨page', before, behind, pre, post, stack, ids, hmissing, hplace, hwhole, hids⟩
  · rw [hfound] at hinsert
    cases hinsert
  · rw [hmissing] at hinsert
    have hinsert := eq_ok_of_mapError hinsert
    rw [CBTree.insertPhase2] at hinsert
    obtain ⟨page'', hadd, hloop⟩ := eq_ok_of_bind hinsert
    obtain ⟨subs', hsplit, hcontents⟩ : ∃ subs', Splitting dwPageSize inUse
        { tree with m_pRoot := some page } page'' subs' tree.m_pSrc.m_dwLogicalRoot H 0 stack pre post
          ids ∧ contents page'' subs' = before ++ (s, dwValue) :: behind :=
      LeafPlace.add hplace (hwhole ▸ ht'.sorted) (hids ▸ ht'.nodup) (hids ▸ ht'.used) rfl
        ⟨page, rfl, ht.stored.dwPageId, ht.stored.read⟩ hadd
    have hdone := splitLoop_spec halloc hsplit hloop
    refine ⟨pre ++ before, behind ++ post, ?_, hplace.before, hplace.behind, ?_⟩
    · rw [← hwhole, hplace.keys]
      simp only [List.append_assoc]
    · rw [hcontents] at hdone
      simpa only [List.append_assoc, List.cons_append] using hdone

theorem not_mem_of_place (hbefore : AllBefore before s) (hbehind : AllBehind s behind)
    (dwValue : UInt32) : (s, dwValue) ∉ before ++ behind := by
  have hself := keyStrCompare_self s
  intro hmem
  rcases List.mem_append.mp hmem with hmem | hmem
  · have hlt : keyStrCompare s s < 0 := hbefore _ hmem
    omega
  · have hlt : keyStrCompare s s < 0 := hbehind _ hmem
    omega

theorem SortedEntries.unique (h : SortedEntries entries) {v w : UInt32} (hv : (s, v) ∈ entries)
    (hw : (s, w) ∈ entries) : v = w := by
  obtain ⟨before, behind, rfl⟩ := List.append_of_mem hv
  have hnot := not_mem_of_place h.allBefore h.allBehind w
  rcases List.mem_append.mp hw with hw | hw
  · exact absurd (List.mem_append_left _ hw) hnot
  · rcases List.mem_cons.mp hw with heq | hw
    · exact (Prod.mk.inj heq).2.symm
    · exact absurd (List.mem_append_right _ hw) hnot

theorem HasEntries.sorted (ht : HasEntries dwPageSize inUse tree entries) : SortedEntries entries := by
  obtain ⟨H, page, subs, ht, rfl⟩ := ht
  exact ht.sorted

variable (newPage) in
/-- `FindKey` and `InsertKey` for a key of the tree. -/
theorem key_present (ht : HasEntries dwPageSize inUse tree entries) (hs : s.1 ≠ []) {v : UInt32}
    (hmem : (s, v) ∈ entries) :
    tree.findKey s = .ok v ∧
      ∀ dwValue, tree.insertKey dwPageSize newPage s dwValue = .error .ERROR_ALREADY_EXISTS := by
  obtain ⟨H, page, subs, ht, rfl⟩ := ht
  rcases ht.searchRoot hs with ⟨entry, page', wID, stack, hfound, hget, hentry, hin⟩ |
    ⟨page', before, behind, pre, post, stack, ids, -, hplace, hwhole, -⟩
  · have hv : entry.2 = v := by
      refine ht.sorted.unique (s := s) ?_ hmem
      rw [← hentry]
      exact hin
    rw [CBTree.findKey, hfound, ← hv]
    refine ⟨?_, fun dwValue => ?_⟩
    · change Except.ok ((page'.keys[wID]?.map Prod.snd).getD 0) = _
      rw [hget]
      rfl
    · rw [CBTree.insertKey, hfound]
  · rw [hplace.keys] at hwhole
    have hnot := not_mem_of_place hplace.before hplace.behind v
    rw [← hwhole] at hmem
    refine absurd ?_ hnot
    simpa only [List.append_assoc] using hmem

variable (newPage) in
/-- `FindKey` and `InsertKey` for a key that the tree does not have. -/
theorem key_missing (ht : HasEntries dwPageSize inUse tree entries) (hs : s.1 ≠ [])
    (hmem : ∀ v, (s, v) ∉ entries) :
    tree.findKey s = .error .ERROR_NOT_FOUND ∧
      ∀ dwValue, tree.insertKey dwPageSize newPage s dwValue ≠ .error .ERROR_ALREADY_EXISTS := by
  obtain ⟨H, page, subs, ht, rfl⟩ := ht
  rcases ht.searchRoot hs with ⟨entry, page', wID, stack, hfound, hget, hentry, hin⟩ |
    ⟨page', before, behind, pre, post, stack, ids, hmissing, -, -, -⟩
  · rw [← hentry] at hmem
    exact absurd hin (hmem entry.2)
  · rw [CBTree.findKey, hmissing]
    refine ⟨rfl, fun dwValue => ?_⟩
    rw [CBTree.insertKey, hmissing]
    dsimp only
    cases CBTree.insertPhase2 dwPageSize newPage { tree with m_pRoot := some page } page' before.length s
      dwValue stack with
    | error dwRes => exact fun h => by cases h
    | ok tree' => exact fun h => by cases h

theorem contents_create (id : UInt32) : contents (KeyPage.create id) [noSubtree] = [] := rfl

/-- `Init` on a file without a tree makes an empty one. -/
theorem init_new {pSrc : CBTreeFile σ} (halloc : Allocates newPage inUse)
    (hroot : pSrc.m_dwLogicalRoot = 0) (hinit : CBTree.init dwPageSize newPage pSrc = .ok tree) :
    HasEntries dwPageSize inUse tree [] := by
  rw [CBTree.init, if_pos hroot] at hinit
  obtain ⟨⟨id, tree₁⟩, hnew, hwrite⟩ := eq_ok_of_bind hinit
  obtain ⟨source, hsource, rfl⟩ := allocPage_eq hnew
  obtain ⟨hfits, rfl⟩ := writeIdxPage_root hwrite rfl rfl
  have hfresh := halloc.fresh _ _ _ hsource
  refine ⟨0, KeyPage.create id, [noSubtree], {
    stored := ⟨fun h0 : id = 0 => hfresh (h0 ▸ halloc.admin _), Function.update_self _ _ _, rfl, hfits⟩
    holds := ⟨rfl, rfl, fun sub hsub => List.mem_singleton.mp hsub⟩
    empty := fun _ => rfl
    sorted := List.Pairwise.nil
    nodup := Multiset.nodup_singleton _
    used := fun i hi => ?_
    cache := fun pRoot h => (Option.some.inj h).symm }, contents_create id⟩
  exact (halloc.added _ _ _ hsource i).mpr (.inr (Multiset.mem_singleton.mp hi))

/-- `Init` on a file with a tree reads it. -/
theorem init_existing (ht : HasEntries dwPageSize inUse tree entries)
    (hinit : CBTree.init dwPageSize newPage tree.m_pSrc = .ok tree') :
    HasEntries dwPageSize inUse tree' entries := by
  obtain ⟨H, page, subs, ht, rfl⟩ := ht
  rw [CBTree.init, if_neg ht.stored.id_ne] at hinit
  obtain ⟨⟨pRoot, tree₁⟩, hread, hinit⟩ := eq_ok_of_bind hinit
  rw [CBTree.invalidateCache, CBTree.readIdxPage, ht.stored.read] at hread
  obtain ⟨rfl, rfl⟩ := Prod.mk.inj (Except.ok.inj hread)
  rw [← Except.ok.inj hinit]
  exact ⟨H, page, subs, ht.caching fun pRoot h => (Option.some.inj h).symm, rfl⟩

/-! ### Sequences of calls -/

/-- The map that a tree stands for, behind a call: a key that is there keeps its value. -/
def mapAfter (map : Key → Option UInt32) : CBTree.Call → Key → Option UInt32
  | .insertKey pszKey dwValue => Function.update map pszKey (some ((map pszKey).getD dwValue))
  | _ => map

/-- The tree has these keys with these values. -/
structure Represents (dwPageSize : ℕ) (inUse : σ → UInt32 → Prop) (tree : CBTree σ)
    (map : Key → Option UInt32) (entries : List Entry) : Prop where
  tree : HasEntries dwPageSize inUse tree entries
  entries : ∀ k v, (k, v) ∈ entries ↔ map k = some v

theorem Represents.step {map : Key → Option UInt32} {call : CBTree.Call}
    (halloc : Allocates newPage inUse) (hr : Represents dwPageSize inUse tree map entries)
    (hstep : tree.step dwPageSize newPage call = .ok tree') :
    ∃ entries', Represents dwPageSize inUse tree' (mapAfter map call) entries' := by
  cases call with
  | insertKey s dwValue =>
    rw [CBTree.step] at hstep
    cases hinsert : tree.insertKey dwPageSize newPage s dwValue with
    | ok tree₁ =>
      rw [hinsert] at hstep
      cases Except.ok.inj hstep
      obtain ⟨before, behind, rfl, hbefore, hbehind, ht⟩ := insertKey_spec halloc hr.tree hinsert
      have hnone : map s = none := by
        by_contra hsome
        obtain ⟨v, hv⟩ := Option.ne_none_iff_exists'.mp hsome
        exact not_mem_of_place hbefore hbehind v ((hr.entries s v).mpr hv)
      refine ⟨_, ht, fun k v => ?_⟩
      rw [mapAfter, hnone, Option.getD_none]
      have hold := hr.entries k v
      rw [List.mem_append] at hold ⊢
      rw [List.mem_cons]
      by_cases hk : k = s
      · subst hk
        rw [hnone] at hold
        rw [Function.update_self, Option.some.injEq, Prod.mk.injEq]
        constructor
        · rintro (hmem | ⟨-, rfl⟩ | hmem)
          · cases hold.mp (.inl hmem)
          · rfl
          · cases hold.mp (.inr hmem)
        · rintro rfl
          exact .inr (.inl ⟨rfl, rfl⟩)
      · rw [Function.update_of_ne hk, ← hold, Prod.mk.injEq]
        constructor
        · rintro (hmem | ⟨rfl, -⟩ | hmem)
          · exact .inl hmem
          · exact absurd rfl hk
          · exact .inr hmem
        · exact Or.imp_right .inr
    | error dwRes =>
      rw [hinsert] at hstep
      cases dwRes with
      | page dwRes => cases hstep
      | ERROR_NOT_FOUND => cases hstep
      | ERROR_ALREADY_EXISTS =>
        have hs : s.1 ≠ [] := by
          intro hs
          obtain ⟨H, page, subs, ht, -⟩ := hr.tree
          rw [CBTree.insertKey, ht.searchRoot_nil hs] at hinsert
          cases hinsert
        have hsome : ∃ v, map s = some v := by
          rw [← Option.ne_none_iff_exists']
          intro hnone
          refine (key_missing newPage hr.tree hs fun v hv => ?_).2 dwValue hinsert
          rw [(hr.entries s v).mp hv] at hnone
          cases hnone
        obtain ⟨v, hv⟩ := hsome
        refine ⟨entries, searched_spec hr.tree hstep, fun k w => ?_⟩
        rw [mapAfter, hv, Option.getD_some, hr.entries]
        by_cases hk : k = s
        · rw [hk, Function.update_self, hv]
        · rw [Function.update_of_ne hk]
  | findKey s => exact ⟨entries, searched_spec hr.tree hstep, hr.entries⟩
  | flushCaches =>
    obtain ⟨H, page, subs, ht, hentries⟩ := hr.tree
    rw [← Except.ok.inj hstep]
    exact ⟨entries, ⟨H, page, subs, ht.caching fun pRoot h => (by cases h), hentries⟩, hr.entries⟩
  | reopen => exact ⟨entries, init_existing hr.tree (eq_ok_of_mapError hstep), hr.entries⟩

theorem Represents.run {map : Key → Option UInt32} {calls : List CBTree.Call}
    (halloc : Allocates newPage inUse) (hr : Represents dwPageSize inUse tree map entries)
    (hrun : calls.foldlM (CBTree.step dwPageSize newPage) tree = .ok tree') :
    ∃ entries', Represents dwPageSize inUse tree' (calls.foldl mapAfter map) entries' := by
  refine foldlM_refines
    (R := fun _ tree map => ∃ entries, Represents dwPageSize inUse tree map entries)
    ?_ (n := 0) le_rfl ⟨entries, hr⟩ hrun
  rintro n tree call tree' map - ⟨entries, hr⟩ hstep
  exact hr.step halloc hstep

/-- Behind any calls on a new tree, the pages are a B-tree with the inserted keys in order, `FindKey`
returns the value that a key was first inserted with, and `InsertKey` refuses it. -/
theorem tree_refines_map (halloc : Allocates newPage inUse) {pSrc : CBTreeFile σ}
    {tree₀ : CBTree σ} {calls : List CBTree.Call} (hroot : pSrc.m_dwLogicalRoot = 0)
    (hinit : CBTree.init dwPageSize newPage pSrc = .ok tree₀)
    (hrun : calls.foldlM (CBTree.step dwPageSize newPage) tree₀ = .ok tree) :
    ∃ entries, HasEntries dwPageSize inUse tree entries ∧ SortedEntries entries ∧
      (∀ k v, (k, v) ∈ entries ↔ calls.foldl mapAfter (fun _ => none) k = some v) ∧
      ∀ k, k.1 ≠ [] →
        tree.findKey k = ((calls.foldl mapAfter (fun _ => none) k).map .ok).getD
            (.error .ERROR_NOT_FOUND) ∧
          ∀ v, tree.insertKey dwPageSize newPage k v = .error .ERROR_ALREADY_EXISTS ↔
            calls.foldl mapAfter (fun _ => none) k ≠ none := by
  have hnew : Represents dwPageSize inUse tree₀ (fun _ => none) [] :=
    ⟨init_new halloc hroot hinit, fun k v => by simp⟩
  obtain ⟨entries, hr⟩ := hnew.run halloc hrun
  refine ⟨entries, hr.tree, hr.tree.sorted, hr.entries, fun k hk => ?_⟩
  cases hmap : calls.foldl mapAfter (fun _ => none) k with
  | none =>
    obtain ⟨hfind, hinsert⟩ := key_missing newPage hr.tree hk fun v hv => by
      rw [hr.entries, hmap] at hv
      cases hv
    exact ⟨hfind, fun v => iff_of_false (hinsert v) fun h => h rfl⟩
  | some v =>
    obtain ⟨hfind, hinsert⟩ := key_present newPage hr.tree hk ((hr.entries k v).mpr hmap)
    exact ⟨hfind, fun w => iff_of_true (hinsert w) (Option.some_ne_none v)⟩

end Tree

/-! A page source that counts, and pages of 104 bytes, which have room for three short keys. -/

def nextPage (count : ℕ) : Except Win32Error (UInt32 × ℕ) :=
  if count + 1 < 2 ^ 32 then .ok (UInt32.ofNat (count + 1), count + 1)
  else .error ERROR_INSUFFICIENT_BUFFER

theorem nextPage_allocates : Allocates nextPage fun count i => i.toNat ≤ count := by
  have hcases (count : ℕ) (id : UInt32) (count' : ℕ) (h : nextPage count = .ok (id, count')) :
      id.toNat = count + 1 ∧ count' = count + 1 := by
    rw [nextPage] at h
    split_ifs at h with hlt
    obtain ⟨rfl, rfl⟩ := Prod.mk.inj (Except.ok.inj h)
    exact ⟨UInt32.toNat_ofNat_of_lt hlt, rfl⟩
  refine ⟨fun count => Nat.zero_le _, fun count id count' h => ?_, fun count id count' h i => ?_⟩
  · obtain ⟨hid, -⟩ := hcases count id count' h
    omega
  · obtain ⟨hid, rfl⟩ := hcases count id count' h
    rw [← UInt32.toNat_inj]
    omega

def newFile : CBTreeFile ℕ := ⟨fun _ => .error ERROR_INVALID_PARAMETER, 0, 0⟩

/-- Four keys, so that the root is split, and one of them again. -/
def fourKeys : List CBTree.Call :=
  [.insertKey entryB.1 1, .insertKey entryA.1 2, .flushCaches, .insertKey entryC.1 3,
    .insertKey (keyOf 0x64 (by decide)).1 4, .insertKey entryB.1 5]

theorem tree_refines_map_fourKeys : ∃ tree₀ tree entries,
    CBTree.init 104 nextPage newFile = .ok tree₀ ∧
      fourKeys.foldlM (CBTree.step 104 nextPage) tree₀ = .ok tree ∧
      HasEntries 104 (fun count i => i.toNat ≤ count) tree entries ∧
      tree.findKey entryB.1 = .ok 1 ∧ tree.m_pSrc.m_dwLogicalRoot = 2 := by
  obtain ⟨tree₀, hinit⟩ : ∃ tree₀, CBTree.init 104 nextPage newFile = .ok tree₀ := ⟨_, rfl⟩
  obtain ⟨tree, hrun, hroot⟩ : ∃ tree, (CBTree.init 104 nextPage newFile).mapError TreeError.page >>=
      fourKeys.foldlM (CBTree.step 104 nextPage) = .ok tree ∧ tree.m_pSrc.m_dwLogicalRoot = 2 :=
    ⟨_, rfl, rfl⟩
  rw [hinit] at hrun
  obtain ⟨entries, hentries, -, -, hkeys⟩ := tree_refines_map nextPage_allocates rfl hinit hrun
  exact ⟨tree₀, tree, entries, hinit, hrun, hentries, (hkeys entryB.1 (by decide)).1, hroot⟩

end NtAdmin.Wmi.Btr
