import Mathlib.Data.List.Basic
import Mathlib.Data.List.Nodup
import Mathlib.Logic.Function.Basic
import NtAdmin.Lib.Outcome
import NtAdmin.Wmi.VarObjHeap.ObjectPage

/-! The admin pages of varobjheap.cpp: the cache of them, and the free space that they record. -/
namespace NtAdmin.Wmi.VarObjHeap
open Lib

/-- `VarObjHeapFreeList`. -/
structure FreeListEntry where
  dwPageId : ℕ
  dwFreeSpace : ℕ
  deriving DecidableEq

/-- `VarObjHeapAdminPage` and the entries behind it. -/
structure AdminPage where
  dwNextAdminPage : ℕ
  aFreeListEntries : List FreeListEntry
  deriving DecidableEq

/-- `VarObjAdminPageEntry`. -/
structure AdminPageEntry where
  dwPageId : ℕ
  pbPage : AdminPage
  bDirty : Bool
  deriving DecidableEq

/-- A page of the object file. `data` is a page that nothing was written to, or one of an object that
spans pages. -/
inductive PageContents
  | object (page : ObjectPage)
  | admin (page : AdminPage)
  | data
  deriving DecidableEq

/-- The pages in use. -/
abbrev HeapFile := ℕ → Option PageContents

/-- `sizeof(VarObjHeapAdminPage)` and `sizeof(VarObjHeapFreeList)`. -/
def sizeofAdminPage : ℕ := 12

def sizeofFreeList : ℕ := 16

namespace AdminPageEntry

/-- The page with new entries, to be flushed. -/
def withEntries (page : AdminPageEntry) (entries : List FreeListEntry) : AdminPageEntry :=
  { page with pbPage := { page.pbPage with aFreeListEntries := entries }, bDirty := true }

/-- The page with a new link, to be flushed. -/
def withNext (page : AdminPageEntry) (dwNextAdminPage : ℕ) : AdminPageEntry :=
  { page with pbPage := { page.pbPage with dwNextAdminPage := dwNextAdminPage }, bDirty := true }

end AdminPageEntry

/-- All entries of the admin pages. -/
def entries (m_aAdminPages : List AdminPageEntry) : List FreeListEntry :=
  m_aAdminPages.flatMap fun page => page.pbPage.aFreeListEntries

/-- `FindPageWithSpace`, for `*pdwPageId` at first. Its loops go on as long as that is 0. -/
def findPageWithSpace (m_aAdminPages : List AdminPageEntry) (dwRequiredSize pdwPageId : ℕ) :
    Option ℕ :=
  (entries m_aAdminPages).foldl (fun found entry =>
    if found.getD pdwPageId = 0 ∧ entry.dwFreeSpace ≥ dwAdd dwRequiredSize sizeofOffsetEntry then
      some entry.dwPageId
    else found) none

/-- The indices of the first entry for the page. -/
def findEntry (ulPageId : ℕ) : List AdminPageEntry → Option (ℕ × ℕ)
  | [] => none
  | page :: pages =>
    match page.pbPage.aFreeListEntries.findIdx? fun entry => entry.dwPageId = ulPageId with
    | some dwEntry => some (0, dwEntry)
    | none => (findEntry ulPageId pages).map fun found => (found.1 + 1, found.2)

def modifyEntry (f : FreeListEntry → FreeListEntry) (dwPageIndex dwEntry : ℕ)
    (m_aAdminPages : List AdminPageEntry) : List AdminPageEntry :=
  m_aAdminPages.modify dwPageIndex fun page =>
    page.withEntries (page.pbPage.aFreeListEntries.modify dwEntry f)

/-- The search that both updates for an allocation make. -/
def updateAdminPage (f : FreeListEntry → FreeListEntry) (ulPageId : ℕ)
    (m_aAdminPages : List AdminPageEntry) : Except HeapError (List AdminPageEntry) :=
  match findEntry ulPageId m_aAdminPages with
  | some (dwPageIndex, dwEntry) => .ok (modifyEntry f dwPageIndex dwEntry m_aAdminPages)
  | none => .error .ERROR_FILE_NOT_FOUND

def updateAdminPageForAllocate (ulPageId ulBlockSize : ℕ) :
    List AdminPageEntry → Except HeapError (List AdminPageEntry) :=
  updateAdminPage (fun entry => { entry with
    dwFreeSpace := dwSub entry.dwFreeSpace (dwAdd ulBlockSize sizeofOffsetEntry) }) ulPageId

def updateAdminPageForAllocate2 (ulPageId ulPageFreeSpace : ℕ) :
    List AdminPageEntry → Except HeapError (List AdminPageEntry) :=
  updateAdminPage (fun entry => { entry with dwFreeSpace := ulPageFreeSpace }) ulPageId

/-- `RemoveEntryFromAdminPage`: the entry goes, and its admin page too if it was the last one there. The
first admin page stays. -/
def removeEntryFromAdminPage (dwAdminPageIndex dwAdminPageEntry : ℕ)
    (m_aAdminPages : List AdminPageEntry) (file : HeapFile) : List AdminPageEntry × HeapFile :=
  match m_aAdminPages[dwAdminPageIndex]? with
  | none => (m_aAdminPages, file)
  | some page =>
    let dwNumberEntriesOnPage := page.pbPage.aFreeListEntries.length - 1
    if dwNumberEntriesOnPage = 0 ∧ dwAdminPageIndex ≠ 0 then
      ((m_aAdminPages.modify (dwAdminPageIndex - 1) fun previous =>
          previous.withNext page.pbPage.dwNextAdminPage).eraseIdx dwAdminPageIndex,
        Function.update file page.dwPageId none)
    else if dwNumberEntriesOnPage = 0 then
      (m_aAdminPages.modify dwAdminPageIndex fun page =>
        page.withEntries page.pbPage.aFreeListEntries.dropLast, file)
    else
      (m_aAdminPages.modify dwAdminPageIndex fun page =>
        page.withEntries (page.pbPage.aFreeListEntries.eraseIdx dwAdminPageEntry), file)

/-- The free space that an entry records. -/
def freeSpaceAt (m_aAdminPages : List AdminPageEntry) (dwPageIndex dwEntry : ℕ) : Option ℕ :=
  (m_aAdminPages[dwPageIndex]?.bind fun page => page.pbPage.aFreeListEntries[dwEntry]?).map
    FreeListEntry.dwFreeSpace

/-- `UpdateAdminPageForDelete`: whether the page was deleted, the admin pages and the file. -/
def updateAdminPageForDelete (m_dwPageSize ulPageId ulBlockSize : ℕ)
    (m_aAdminPages : List AdminPageEntry) (file : HeapFile) :
    Except HeapError (Bool × List AdminPageEntry × HeapFile) :=
  match findEntry ulPageId m_aAdminPages with
  | none => .error .ERROR_FILE_NOT_FOUND
  | some (dwPageIndex, dwEntry) =>
    let pages := modifyEntry (fun entry => { entry with
      dwFreeSpace := dwAdd entry.dwFreeSpace (dwAdd ulBlockSize sizeofOffsetEntry) })
        dwPageIndex dwEntry m_aAdminPages
    if freeSpaceAt pages dwPageIndex dwEntry = some (dwSub m_dwPageSize sizeofOffsetEntry) then
      let removed := removeEntryFromAdminPage dwPageIndex dwEntry pages file
      .ok (true, removed.1, Function.update removed.2 ulPageId none)
    else .ok (false, pages, file)

/-- What `FlushAdminPages` does with one page. -/
def flushPage (file : HeapFile) (page : AdminPageEntry) : HeapFile :=
  if page.bDirty then Function.update file page.dwPageId (some (.admin page.pbPage)) else file

def flushAdminPages (m_aAdminPages : List AdminPageEntry) (file : HeapFile) :
    List AdminPageEntry × HeapFile :=
  (m_aAdminPages.map fun page => { page with bDirty := false }, m_aAdminPages.foldl flushPage file)

section Allocator
variable {σ : Type} (newPage : σ → HeapFile → Except HeapError (ℕ × σ)) (m_dwPageSize : ℕ)

/-- `AllocateNewPage`, by which the page gets an entry on the first admin page that has a slot, or on a
new one. -/
def allocateNewPage (m_aAdminPages : List AdminPageEntry) (file : HeapFile) (s : σ) :
    Except HeapError (ℕ × List AdminPageEntry × HeapFile × σ) := do
  let (dwPageId, s) ← newPage s file
  let file := Function.update file dwPageId (some .data)
  let add (page : AdminPageEntry) := page.withEntries
    (page.pbPage.aFreeListEntries ++ [⟨dwPageId, dwSub m_dwPageSize sizeofOffsetEntry⟩])
  match m_aAdminPages.findIdx? fun page => sizeofAdminPage +
      (page.pbPage.aFreeListEntries.length + 1) * sizeofFreeList ≤ m_dwPageSize with
  | some dwPageIndex => .ok (dwPageId, m_aAdminPages.modify dwPageIndex add, file, s)
  | none =>
    let (dwNewAdminPageId, s) ← newPage s file
    let hooked := m_aAdminPages.modify (m_aAdminPages.length - 1) fun previous =>
      previous.withNext dwNewAdminPageId
    let pAdminPageEntry : AdminPageEntry := ⟨dwNewAdminPageId, ⟨0, []⟩, true⟩
    .ok (dwPageId, (hooked ++ [pAdminPageEntry]).modify hooked.length add,
      Function.update file dwNewAdminPageId (some .data), s)

/-- The loop of `ReadAdminPages`, of which so many rounds are made at most. -/
def readLoop : ℕ → ℕ → HeapFile → σ → Except HeapError (List AdminPageEntry × HeapFile × σ)
  | 0, _, _, _ => .error .unfinished
  | rounds + 1, dwAdminPageId, file, s =>
    match file dwAdminPageId with
    | some (.admin page) =>
      if page.dwNextAdminPage = 0 then .ok ([⟨dwAdminPageId, page, false⟩], file, s)
      else do
        let (pages, file, s) ← readLoop rounds page.dwNextAdminPage file s
        .ok (⟨dwAdminPageId, page, false⟩ :: pages, file, s)
    | some _ => .error .otherPage
    | none =>
      if dwAdminPageId ≠ 0 then .error .ERROR_FILE_NOT_FOUND
      else do
        let (dwAdminPageId, s) ← newPage s file
        let entry : AdminPageEntry := ⟨dwAdminPageId, ⟨0, []⟩, true⟩
        .ok ([entry], Function.update file dwAdminPageId (some (.admin entry.pbPage)), s)

end Allocator

/-! ### The chain of admin pages -/

/-- The admin pages with their ids. -/
def cached (pages : List AdminPageEntry) : List (ℕ × AdminPage) :=
  pages.map fun page => (page.dwPageId, page.pbPage)

/-- Each page is the one that the link before it names, and the last link is 0. -/
def Linked : ℕ → List (ℕ × AdminPage) → Prop
  | next, [] => next = 0
  | next, page :: pages => page.1 = next ∧ Linked page.2.dwNextAdminPage pages

/-- The cache is a chain of admin pages from page 0 on with these entries. The file has a page for each of
them, and what is not dirty is so in the file. -/
structure Cache (pages : List AdminPageEntry) (file : HeapFile) (es : List FreeListEntry) : Prop where
  nonempty : pages ≠ []
  linked : Linked 0 (cached pages)
  nodup : (pages.map AdminPageEntry.dwPageId).Nodup
  entries : entries pages = es
  held : ∀ page ∈ pages, ∃ contents, file page.dwPageId = some contents ∧
    ∀ objectPage, contents ≠ .object objectPage
  clean : ∀ page ∈ pages, page.bDirty = false → file page.dwPageId = some (.admin page.pbPage)

/-- All the cache is in the file. -/
def Flushed (pages : List AdminPageEntry) (file : HeapFile) : Prop :=
  ∀ page ∈ pages, file page.dwPageId = some (.admin page.pbPage)

section Cache
variable {pages front back : List AdminPageEntry} {page : AdminPageEntry} {file file' : HeapFile}
  {es es' : List FreeListEntry} {next : ℕ}

theorem entries_append (a b : List AdminPageEntry) : entries (a ++ b) = entries a ++ entries b := by
  rw [entries, List.flatMap_append, ← entries, ← entries]

theorem entries_cons (page : AdminPageEntry) (pages : List AdminPageEntry) :
    entries (page :: pages) = page.pbPage.aFreeListEntries ++ entries pages := by
  rw [entries, List.flatMap_cons, ← entries]

theorem entries_mid (a b : List AdminPageEntry) (page : AdminPageEntry) :
    entries (a ++ page :: b) = entries a ++ (page.pbPage.aFreeListEntries ++ entries b) := by
  rw [entries_append, entries_cons]

theorem linked_replace {page' : AdminPageEntry} (h : Linked next (cached (front ++ page :: back)))
    (hid : page'.dwPageId = page.dwPageId)
    (hnext : page'.pbPage.dwNextAdminPage = page.pbPage.dwNextAdminPage) :
    Linked next (cached (front ++ page' :: back)) := by
  induction front generalizing next with
  | nil =>
    refine ⟨hid.trans h.1, ?_⟩
    rw [hnext]
    exact h.2
  | cons first front ih => exact ⟨h.1, ih h.2⟩

theorem linked_extend (new : AdminPageEntry) (hnew : new.pbPage.dwNextAdminPage = 0)
    (h : Linked next (cached (front ++ [page]))) :
    Linked next (cached (front ++ [page.withNext new.dwPageId, new])) := by
  induction front generalizing next with
  | nil => exact ⟨h.1, rfl, hnew⟩
  | cons first front ih => exact ⟨h.1, ih h.2⟩

theorem linked_remove {gone : AdminPageEntry}
    (h : Linked next (cached (front ++ page :: gone :: back))) :
    Linked next (cached (front ++ page.withNext gone.pbPage.dwNextAdminPage :: back)) := by
  induction front generalizing next with
  | nil => exact ⟨h.1, h.2.2⟩
  | cons first front ih => exact ⟨h.1, ih h.2⟩

/-- The file may change elsewhere. -/
theorem Cache.frame (h : Cache pages file es)
    (hfile : ∀ page ∈ pages, file' page.dwPageId = file page.dwPageId) : Cache pages file' es := by
  refine ⟨h.nonempty, h.linked, h.nodup, h.entries, ?_, ?_⟩
  · intro page hpage
    rw [hfile page hpage]
    exact h.held page hpage
  · intro page hpage hdirty
    rw [hfile page hpage]
    exact h.clean page hpage hdirty

/-- A page of objects is none of the cache. -/
theorem Cache.ne_of_object (h : Cache pages file es) {id : ℕ} {objectPage : ObjectPage}
    (hid : file id = some (.object objectPage)) : ∀ page ∈ pages, page.dwPageId ≠ id := by
  rintro page hpage rfl
  obtain ⟨contents, hcontents, hne⟩ := h.held page hpage
  rw [hid] at hcontents
  exact hne objectPage (Option.some.inj hcontents).symm

theorem Cache.ne_of_free (h : Cache pages file es) {id : ℕ} (hid : file id = none) :
    ∀ page ∈ pages, page.dwPageId ≠ id := by
  rintro page hpage rfl
  obtain ⟨contents, hcontents, -⟩ := h.held page hpage
  rw [hid] at hcontents
  cases hcontents

/-- The first admin page is page 0. -/
theorem Cache.zero (h : Cache pages file es) : ∃ page ∈ pages, page.dwPageId = 0 := by
  obtain ⟨page, pages, rfl⟩ := List.exists_cons_of_ne_nil h.nonempty
  exact ⟨page, List.mem_cons_self, h.linked.1⟩

/-- One page gets other entries. -/
theorem Cache.withEntries (h : Cache (front ++ page :: back) file es) (entries' : List FreeListEntry) :
    Cache (front ++ page.withEntries entries' :: back) file
      (VarObjHeap.entries front ++ (entries' ++ VarObjHeap.entries back)) := by
  refine ⟨List.append_ne_nil_of_right_ne_nil _ (List.cons_ne_nil _ _),
    linked_replace h.linked rfl rfl, ?_, entries_mid _ _ _, ?_, ?_⟩
  · have hnodup := h.nodup
    rw [List.map_append, List.map_cons] at hnodup ⊢
    exact hnodup
  · intro other hother
    rcases List.mem_append.mp hother with hother | hother
    · exact h.held other (List.mem_append_left _ hother)
    · rcases List.mem_cons.mp hother with rfl | hother
      · exact h.held page (List.mem_append_right _ List.mem_cons_self)
      · exact h.held other (List.mem_append_right _ (List.mem_cons_of_mem _ hother))
  · intro other hother hdirty
    rcases List.mem_append.mp hother with hother | hother
    · exact h.clean other (List.mem_append_left _ hother) hdirty
    · rcases List.mem_cons.mp hother with rfl | hother
      · cases hdirty
      · exact h.clean other (List.mem_append_right _ (List.mem_cons_of_mem _ hother)) hdirty

/-- A new admin page comes behind the others. -/
theorem Cache.extend (h : Cache (front ++ [page]) file es) {id : ℕ} (hfree : file id = none)
    (es' : List FreeListEntry) :
    Cache (front ++ [page.withNext id, ⟨id, ⟨0, es'⟩, true⟩])
      (Function.update file id (some .data)) (es ++ es') := by
  have hne := h.ne_of_free hfree
  have hlast : page ∈ front ++ [page] := List.mem_append_right _ List.mem_cons_self
  have hmem {other : AdminPageEntry}
      (hother : other ∈ front ++ [page.withNext id, ⟨id, ⟨0, es'⟩, true⟩]) :
      other ∈ front ∨ other = page.withNext id ∨ other = ⟨id, ⟨0, es'⟩, true⟩ := by
    simpa only [List.mem_append, List.mem_cons, List.not_mem_nil, or_false] using hother
  refine ⟨List.append_ne_nil_of_right_ne_nil _ (List.cons_ne_nil _ _),
    linked_extend ⟨id, ⟨0, es'⟩, true⟩ rfl h.linked, ?_, ?_, ?_, ?_⟩
  · have hids : (front ++ [page.withNext id, ⟨id, ⟨0, es'⟩, true⟩]).map AdminPageEntry.dwPageId =
        (front ++ [page]).map AdminPageEntry.dwPageId ++ [id] := by
      rw [List.map_append, List.map_append, List.append_assoc]
      rfl
    rw [hids, List.nodup_append]
    refine ⟨h.nodup, List.nodup_singleton _, ?_⟩
    rintro old hold new hnew rfl
    obtain ⟨other, hother, hold⟩ := List.mem_map.mp hold
    exact hne other hother (hold.trans (List.mem_singleton.mp hnew))
  · have hentries := h.entries
    rw [entries_append] at hentries
    rw [entries_append, ← hentries, List.append_assoc]
    congr 1
    simp only [VarObjHeap.entries, List.flatMap_cons, List.flatMap_nil, List.append_nil,
      AdminPageEntry.withNext]
  · intro other hother
    rcases hmem hother with hother | rfl | rfl
    · have hother := List.mem_append_left [page] hother
      rw [Function.update_of_ne (hne other hother)]
      exact h.held other hother
    · have hpage : Function.update file id (some .data) page.dwPageId = file page.dwPageId :=
        Function.update_of_ne (hne page hlast) _ _
      obtain ⟨contents, hcontents⟩ := h.held page hlast
      exact ⟨contents, hpage.trans hcontents.1, hcontents.2⟩
    · exact ⟨.data, Function.update_self _ _ _, fun objectPage hobject => by cases hobject⟩
  · intro other hother hdirty
    rcases hmem hother with hother | rfl | rfl
    · have hother := List.mem_append_left [page] hother
      rw [Function.update_of_ne (hne other hother)]
      exact h.clean other hother hdirty
    · cases hdirty
    · cases hdirty

/-- An admin page without entries goes. -/
theorem Cache.remove {gone : AdminPageEntry} (h : Cache (front ++ page :: gone :: back) file es) :
    Cache (front ++ page.withNext gone.pbPage.dwNextAdminPage :: back)
      (Function.update file gone.dwPageId none)
      (VarObjHeap.entries (front ++ [page]) ++ VarObjHeap.entries back) := by
  have hnodup := h.nodup
  have hsub : (front ++ page :: back).Sublist (front ++ page :: gone :: back) :=
    List.Sublist.append_left ((List.sublist_cons_self gone back).cons_cons page) front
  have hne : ∀ other ∈ front ++ page :: back, other.dwPageId ≠ gone.dwPageId := by
    have hids : ((front ++ page :: gone :: back).map AdminPageEntry.dwPageId).Perm
        (gone.dwPageId :: (front ++ page :: back).map AdminPageEntry.dwPageId) := by
      rw [List.append_cons front page (gone :: back), List.append_cons front page back,
        List.map_append, List.map_cons, List.map_append, List.map_append, List.map_append]
      exact List.perm_middle
    have hgone := (List.nodup_cons.mp (hids.nodup_iff.mp hnodup)).1
    intro other hother heq
    exact hgone (heq ▸ List.mem_map_of_mem hother)
  have hmem {other : AdminPageEntry}
      (hother : other ∈ front ++ page.withNext gone.pbPage.dwNextAdminPage :: back) :
      other ∈ front ++ page :: back ∧ other ≠ page.withNext gone.pbPage.dwNextAdminPage ∨
        other = page.withNext gone.pbPage.dwNextAdminPage := by
    by_cases heq : other = page.withNext gone.pbPage.dwNextAdminPage
    · exact .inr heq
    · refine .inl ⟨?_, heq⟩
      rcases List.mem_append.mp hother with hother | hother
      · exact List.mem_append_left _ hother
      · exact List.mem_append_right _ (List.mem_cons_of_mem _
          ((List.mem_cons.mp hother).resolve_left heq))
  have hlast : page ∈ front ++ page :: back := List.mem_append_right _ List.mem_cons_self
  refine ⟨List.append_ne_nil_of_right_ne_nil _ (List.cons_ne_nil _ _), linked_remove h.linked,
    ?_, ?_, ?_, ?_⟩
  · have hids : (front ++ page.withNext gone.pbPage.dwNextAdminPage :: back).map
        AdminPageEntry.dwPageId = (front ++ page :: back).map AdminPageEntry.dwPageId := by
      rw [List.map_append, List.map_append]
      rfl
    rw [hids]
    exact hnodup.sublist (hsub.map _)
  · rw [entries_mid, entries_append, entries_cons, List.append_assoc, List.append_assoc]
    rfl
  · intro other hother
    rcases hmem hother with ⟨hother, -⟩ | rfl
    · rw [Function.update_of_ne (hne other hother)]
      exact h.held other (hsub.subset hother)
    · have hpage : Function.update file gone.dwPageId none page.dwPageId = file page.dwPageId :=
        Function.update_of_ne (hne page hlast) _ _
      obtain ⟨contents, hcontents⟩ := h.held page (hsub.subset hlast)
      exact ⟨contents, hpage.trans hcontents.1, hcontents.2⟩
  · intro other hother hdirty
    rcases hmem hother with ⟨hother, -⟩ | rfl
    · rw [Function.update_of_ne (hne other hother)]
      exact h.clean other (hsub.subset hother) hdirty
    · cases hdirty

/-! ### What the methods do with the cache -/

theorem findEntry_spec {e : FreeListEntry} {a b : List FreeListEntry}
    (hentries : entries pages = a ++ e :: b) (ha : ∀ x ∈ a, x.dwPageId ≠ e.dwPageId) :
    ∃ front page back c d, pages = front ++ page :: back ∧
      page.pbPage.aFreeListEntries = c ++ e :: d ∧ a = entries front ++ c ∧ b = d ++ entries back ∧
      findEntry e.dwPageId pages = some (front.length, c.length) := by
  induction pages generalizing a with
  | nil => cases List.append_ne_nil_of_right_ne_nil a (List.cons_ne_nil e b) hentries.symm
  | cons page pages ih =>
    rw [entries_cons] at hentries
    rcases List.append_eq_append_iff.mp hentries with ⟨c, rfl, hrest⟩ | ⟨d, hpage, hrest⟩
    · -- The entry is on a later page.
      have hfirst : page.pbPage.aFreeListEntries.findIdx?
          (fun entry => entry.dwPageId = e.dwPageId) = none :=
        List.findIdx?_eq_none_iff.mpr fun x hx =>
          decide_eq_false (ha x (List.mem_append_left _ hx))
      obtain ⟨front, page', back, c', d, rfl, hpage', rfl, rfl, hfound⟩ :=
        ih hrest fun x hx => ha x (List.mem_append_right _ hx)
      refine ⟨page :: front, page', back, c', d, rfl, hpage', ?_, rfl, ?_⟩
      · rw [entries_cons, List.append_assoc]
      · rw [findEntry, hfirst, hfound]
        rfl
    · rcases List.cons_eq_append_iff.mp hrest with ⟨rfl, hrest⟩ | ⟨d, rfl, hb⟩
      · have hfirst : page.pbPage.aFreeListEntries.findIdx?
            (fun entry => entry.dwPageId = e.dwPageId) = none :=
          List.findIdx?_eq_none_iff.mpr fun x hx => decide_eq_false (ha x (by
            rwa [hpage, List.append_nil] at hx))
        obtain ⟨front, page', back, c', d, rfl, hpage', hnil, rfl, hfound⟩ :=
          ih (a := []) hrest.symm (List.forall_mem_nil _)
        refine ⟨page :: front, page', back, c', d, rfl, hpage', ?_, rfl, ?_⟩
        · rw [entries_cons, List.append_assoc, ← hnil, List.append_nil, hpage, List.append_nil]
        · rw [findEntry, hfirst, hfound]
          rfl
      · refine ⟨[], page, pages, a, d, rfl, hpage, rfl, hb, ?_⟩
        have hfirst : page.pbPage.aFreeListEntries.findIdx?
            (fun entry => entry.dwPageId = e.dwPageId) = some a.length := by
          rw [hpage, List.findIdx?_append,
            List.findIdx?_eq_none_iff.mpr fun x hx => decide_eq_false (ha x hx),
            List.findIdx?_cons, if_pos (decide_eq_true rfl), Option.none_or, Option.map_some,
            Nat.zero_add]
        rw [findEntry, hfirst]
        rfl

theorem Cache.modifyEntry (h : Cache (front ++ page :: back) file es) {c d : List FreeListEntry}
    {e : FreeListEntry} (hpage : page.pbPage.aFreeListEntries = c ++ e :: d)
    (f : FreeListEntry → FreeListEntry) :
    modifyEntry f front.length c.length (front ++ page :: back) =
        front ++ page.withEntries (c ++ f e :: d) :: back ∧
      Cache (front ++ page.withEntries (c ++ f e :: d) :: back) file
        (VarObjHeap.entries front ++ c ++ f e :: (d ++ VarObjHeap.entries back)) := by
  constructor
  · rw [VarObjHeap.modifyEntry, modify_mid, hpage, modify_mid]
  · have hcache := h.withEntries (c ++ f e :: d)
    rwa [List.append_assoc, List.cons_append, ← List.append_assoc] at hcache

/-- The updates for an allocation. -/
theorem Cache.update {e : FreeListEntry} {a b : List FreeListEntry}
    (h : Cache pages file (a ++ e :: b)) (ha : ∀ x ∈ a, x.dwPageId ≠ e.dwPageId)
    (f : FreeListEntry → FreeListEntry) :
    ∃ pages', updateAdminPage f e.dwPageId pages = .ok pages' ∧
      Cache pages' file (a ++ f e :: b) ∧ pages'.length = pages.length := by
  obtain ⟨front, page, back, c, d, rfl, hpage, rfl, rfl, hfound⟩ := findEntry_spec h.entries ha
  obtain ⟨hmodify, hcache⟩ := h.modifyEntry hpage f
  refine ⟨_, ?_, hcache, ?_⟩
  · rw [updateAdminPage, hfound, ← hmodify]
  · rw [List.length_append, List.length_append]
    rfl

theorem freeSpaceAt_mid (front back : List AdminPageEntry) (page : AdminPageEntry)
    (c d : List FreeListEntry) (e : FreeListEntry) :
    freeSpaceAt (front ++ page.withEntries (c ++ e :: d) :: back) front.length c.length =
      some e.dwFreeSpace := by
  rw [freeSpaceAt, getElem?_mid, Option.bind_some, AdminPageEntry.withEntries, getElem?_mid,
    Option.map_some]

/-- An entry goes from its admin page, or the admin page goes with it. -/
theorem Cache.removeEntry {c d : List FreeListEntry} {e : FreeListEntry}
    (h : Cache (front ++ page :: back) file es) (hpage : page.pbPage.aFreeListEntries = c ++ e :: d) :
    ∃ pages' file',
      removeEntryFromAdminPage front.length c.length (front ++ page :: back) file = (pages', file') ∧
      Cache pages' file' (VarObjHeap.entries front ++ c ++ (d ++ VarObjHeap.entries back)) ∧
      pages'.length ≤ (front ++ page :: back).length ∧
      (file' = file ∨ file' = Function.update file page.dwPageId none) := by
  have hlength (page' : AdminPageEntry) :
      (front ++ page' :: back).length = (front ++ page :: back).length := by
    rw [List.length_append, List.length_append]
    rfl
  have hcount : page.pbPage.aFreeListEntries.length - 1 = c.length + d.length := by
    rw [hpage, List.length_append, List.length_cons]
    omega
  rw [removeEntryFromAdminPage, getElem?_mid]
  dsimp only
  rw [hcount]
  by_cases hlast : c.length + d.length = 0
  · have hc : c = [] := List.eq_nil_of_length_eq_zero (by omega)
    have hd : d = [] := List.eq_nil_of_length_eq_zero (by omega)
    subst hc hd
    rcases List.eq_nil_or_concat front with rfl | ⟨front, previous, rfl⟩
    · rw [if_neg fun hand => hand.2 rfl, if_pos hlast, modify_mid, hpage]
      exact ⟨_, _, rfl, h.withEntries [], (hlength _).le, .inl rfl⟩
    · rw [List.concat_eq_append] at h ⊢
      have hindex : (front ++ [previous]).length - 1 = front.length := by
        rw [List.length_append]
        rfl
      have hmodified : ((front ++ [previous] ++ page :: back).modify front.length fun previous =>
          previous.withNext page.pbPage.dwNextAdminPage).eraseIdx (front ++ [previous]).length =
          front ++ previous.withNext page.pbPage.dwNextAdminPage :: back := by
        have hlast : (front ++ [previous]).length =
            (front ++ [previous.withNext page.pbPage.dwNextAdminPage]).length := by
          rw [List.length_append, List.length_append]
          rfl
        rw [List.append_assoc, List.singleton_append, modify_mid,
          List.append_cons front _ (page :: back), List.append_cons front _ back, hlast, eraseIdx_mid]
      rw [List.append_assoc, List.singleton_append] at h
      rw [if_pos ⟨hlast, by rw [List.length_append]; exact Nat.succ_ne_zero _⟩, hindex, hmodified]
      refine ⟨_, _, rfl, ?_, ?_, .inr rfl⟩
      · have hremoved := h.remove
        rwa [List.nil_append, List.append_nil]
      · simp only [List.length_append, List.length_cons, List.length_nil]
        omega
  · rw [if_neg fun hand => hlast hand.1, if_neg hlast, modify_mid, hpage, eraseIdx_mid]
    refine ⟨_, _, rfl, ?_, (hlength _).le, .inl rfl⟩
    have hcache := h.withEntries (c ++ d)
    rwa [List.append_assoc c, ← List.append_assoc] at hcache

/-- `updateAdminPageForDelete` of a page that keeps objects. -/
theorem Cache.delete {P size : ℕ} {e : FreeListEntry} {a b : List FreeListEntry}
    (h : Cache pages file (a ++ e :: b)) (ha : ∀ x ∈ a, x.dwPageId ≠ e.dwPageId)
    (hfree : dwAdd e.dwFreeSpace (dwAdd size sizeofOffsetEntry) ≠ dwSub P sizeofOffsetEntry) :
    ∃ pages', updateAdminPageForDelete P e.dwPageId size pages file = .ok (false, pages', file) ∧
      Cache pages' file
        (a ++ ⟨e.dwPageId, dwAdd e.dwFreeSpace (dwAdd size sizeofOffsetEntry)⟩ :: b) ∧
      pages'.length = pages.length := by
  obtain ⟨front, page, back, c, d, rfl, hpage, rfl, rfl, hfound⟩ := findEntry_spec h.entries ha
  obtain ⟨hmodify, hcache⟩ := h.modifyEntry hpage fun entry =>
    { entry with dwFreeSpace := dwAdd entry.dwFreeSpace (dwAdd size sizeofOffsetEntry) }
  refine ⟨_, ?_, hcache, ?_⟩
  · rw [updateAdminPageForDelete, hfound]
    dsimp only
    rw [hmodify, freeSpaceAt_mid, if_neg fun heq => hfree (Option.some.inj heq)]
  · rw [List.length_append, List.length_append]
    rfl

/-- What the deletion of a page leaves of the file. -/
structure PageDeleted (file file' : HeapFile) (ulPageId : ℕ) : Prop where
  gone : file' ulPageId = none
  kept : ∀ id page, id ≠ ulPageId → file id = some (.object page) → file' id = file id
  only : ∀ id page, file' id = some (.object page) → file id = some (.object page)

/-- `updateAdminPageForDelete` of a page whose last object is removed. -/
theorem Cache.deletePage {P size : ℕ} {e : FreeListEntry} {a b : List FreeListEntry}
    {objectPage : ObjectPage} (h : Cache pages file (a ++ e :: b))
    (ha : ∀ x ∈ a, x.dwPageId ≠ e.dwPageId) (hobject : file e.dwPageId = some (.object objectPage))
    (hfree : dwAdd e.dwFreeSpace (dwAdd size sizeofOffsetEntry) = dwSub P sizeofOffsetEntry) :
    ∃ pages' file', updateAdminPageForDelete P e.dwPageId size pages file = .ok (true, pages', file') ∧
      Cache pages' file' (a ++ b) ∧ pages'.length ≤ pages.length ∧
      PageDeleted file file' e.dwPageId := by
  obtain ⟨front, page, back, c, d, rfl, hpage, rfl, rfl, hfound⟩ := findEntry_spec h.entries ha
  obtain ⟨hmodify, hcache⟩ := h.modifyEntry hpage fun entry =>
    { entry with dwFreeSpace := dwAdd entry.dwFreeSpace (dwAdd size sizeofOffsetEntry) }
  have hdelete : updateAdminPageForDelete P e.dwPageId size (front ++ page :: back) file =
      .ok (true, (removeEntryFromAdminPage front.length c.length
          (front ++ page.withEntries (c ++ ⟨e.dwPageId,
            dwAdd e.dwFreeSpace (dwAdd size sizeofOffsetEntry)⟩ :: d) :: back) file).1,
        Function.update (removeEntryFromAdminPage front.length c.length
          (front ++ page.withEntries (c ++ ⟨e.dwPageId,
            dwAdd e.dwFreeSpace (dwAdd size sizeofOffsetEntry)⟩ :: d) :: back) file).2
          e.dwPageId none) := by
    rw [updateAdminPageForDelete, hfound]
    dsimp only
    rw [hmodify, freeSpaceAt_mid, if_pos (congrArg some hfree)]
  obtain ⟨pages', file', hremove, hpages, hlength, hfile⟩ := hcache.removeEntry rfl
  rw [hremove] at hdelete
  have hne (id : ℕ) (other : ObjectPage) (hid : file id = some (.object other)) :
      file' id = file id := by
    have hpageId : page.dwPageId ≠ id :=
      h.ne_of_object hid page (List.mem_append_right _ List.mem_cons_self)
    rcases hfile with rfl | rfl
    · rfl
    · exact Function.update_of_ne hpageId.symm _ _
  have hids := hpages.ne_of_object ((hne _ _ hobject).trans hobject)
  refine ⟨pages', _, hdelete, hpages.frame fun other hother =>
    Function.update_of_ne (hids other hother) _ _, ?_, Function.update_self _ _ _, ?_, ?_⟩
  · refine hlength.trans_eq ?_
    rw [List.length_append, List.length_append]
    rfl
  · intro id other hid hfileId
    rw [Function.update_of_ne hid]
    exact hne id other hfileId
  · intro id other hid
    by_cases heq : id = e.dwPageId
    · rw [heq, Function.update_self] at hid
      cases hid
    · rw [Function.update_of_ne heq] at hid
      rcases hfile with rfl | rfl
      · exact hid
      · by_cases heq : id = page.dwPageId
        · rw [heq] at hid
          cases (Function.update_self _ _ _).symm.trans hid
        · exact (Function.update_of_ne heq _ _).symm.trans hid

/-! ### Flushing and reading -/

theorem foldl_flushPage_of_ne {id : ℕ} (file : HeapFile) (hid : ∀ page ∈ pages, page.dwPageId ≠ id) :
    pages.foldl flushPage file id = file id := by
  induction pages generalizing file with
  | nil => rfl
  | cons page pages ih =>
    obtain ⟨hpage, hpages⟩ := List.forall_mem_cons.mp hid
    rw [List.foldl_cons, ih _ hpages, flushPage]
    split_ifs
    · exact Function.update_of_ne hpage.symm _ _
    · rfl

theorem foldl_flushPage_of_mem (hnodup : (pages.map AdminPageEntry.dwPageId).Nodup)
    (hclean : ∀ page ∈ pages, page.bDirty = false → file page.dwPageId = some (.admin page.pbPage))
    (hpage : page ∈ pages) :
    pages.foldl flushPage file page.dwPageId = some (.admin page.pbPage) := by
  induction pages generalizing file with
  | nil => cases hpage
  | cons first pages ih =>
    obtain ⟨hfirst, hnodup⟩ := List.nodup_cons.mp hnodup
    have hne : ∀ other ∈ pages, other.dwPageId ≠ first.dwPageId := fun other hother heq =>
      hfirst (heq ▸ List.mem_map_of_mem hother)
    have hput : flushPage file first first.dwPageId = some (.admin first.pbPage) := by
      rw [flushPage]
      split_ifs with hdirty
      · exact Function.update_self _ _ _
      · exact hclean first List.mem_cons_self (by simpa using hdirty)
    rw [List.foldl_cons]
    rcases List.mem_cons.mp hpage with rfl | hpage
    · rw [foldl_flushPage_of_ne _ hne, hput]
    · refine ih hnodup (fun other hother hdirty => ?_) hpage
      rw [flushPage]
      split_ifs
      · rw [Function.update_of_ne (hne other hother)]
        exact hclean other (List.mem_cons_of_mem _ hother) hdirty
      · exact hclean other (List.mem_cons_of_mem _ hother) hdirty

theorem entries_map_clean (pages : List AdminPageEntry) :
    entries (pages.map fun page => { page with bDirty := false }) = entries pages := by
  rw [entries, List.flatMap_map, entries]

theorem cached_map_clean (pages : List AdminPageEntry) :
    cached (pages.map fun page => { page with bDirty := false }) = cached pages := by
  rw [cached, List.map_map, cached]
  rfl

/-- A cache of which all is in the file is as good without the marks. -/
theorem Cache.unmark (h : Cache pages file es) (hflushed : Flushed pages file') :
    Cache (pages.map fun page => { page with bDirty := false }) file' es ∧
      Flushed (pages.map fun page => { page with bDirty := false }) file' := by
  have hall : Flushed (pages.map fun page => { page with bDirty := false }) file' := by
    intro marked hmarked
    obtain ⟨page, hpage, rfl⟩ := List.mem_map.mp hmarked
    exact hflushed page hpage
  refine ⟨⟨?_, ?_, ?_, ?_, ?_, fun page hpage _ => hall page hpage⟩, hall⟩
  · exact fun hnil => h.nonempty (List.map_eq_nil_iff.mp hnil)
  · rw [cached_map_clean]
    exact h.linked
  · rw [List.map_map]
    exact h.nodup
  · rw [entries_map_clean]
    exact h.entries
  · exact fun page hpage => ⟨_, hall page hpage, fun objectPage hobject => by cases hobject⟩

/-- `FlushAdminPages` writes the cache to the file, where nothing else changes. -/
theorem Cache.flush (h : Cache pages file es) :
    Cache (flushAdminPages pages file).1 (flushAdminPages pages file).2 es ∧
      Flushed (flushAdminPages pages file).1 (flushAdminPages pages file).2 ∧
      (flushAdminPages pages file).1.length = pages.length ∧
      ∀ id, (flushAdminPages pages file).2 id = file id ∨
        ∃ page ∈ pages, page.dwPageId = id ∧
          (flushAdminPages pages file).2 id = some (.admin page.pbPage) := by
  have hflushed : Flushed pages (flushAdminPages pages file).2 := fun page hpage =>
    foldl_flushPage_of_mem h.nodup h.clean hpage
  obtain ⟨hcache, hall⟩ := h.unmark hflushed
  refine ⟨hcache, hall, List.length_map _, fun id => ?_⟩
  by_cases hid : ∃ page ∈ pages, page.dwPageId = id
  · obtain ⟨page, hpage, rfl⟩ := hid
    exact .inr ⟨page, hpage, rfl, hflushed page hpage⟩
  · rw [not_exists] at hid
    exact .inl (foldl_flushPage_of_ne file fun page hpage heq => hid page ⟨hpage, heq⟩)

variable {σ : Type} {newPage : σ → HeapFile → Except HeapError (ℕ × σ)} {s : σ}

theorem readLoop_spec {rounds : ℕ} (hne : pages ≠ []) (hlinked : Linked next (cached pages))
    (hlater : ∀ page ∈ pages.tail, page.dwPageId ≠ 0) (hflushed : Flushed pages file)
    (hrounds : pages.length ≤ rounds) :
    readLoop newPage rounds next file s =
      .ok (pages.map fun page => { page with bDirty := false }, file, s) := by
  induction pages generalizing next rounds with
  | nil => exact absurd rfl hne
  | cons page pages ih =>
    obtain ⟨rounds, rfl⟩ : ∃ r, rounds = r + 1 := ⟨rounds - 1, by
      rw [List.length_cons] at hrounds
      omega⟩
    obtain ⟨hid, hrest⟩ := hlinked
    have hread : file next = some (.admin page.pbPage) := hid ▸ hflushed page List.mem_cons_self
    rw [readLoop, hread]
    dsimp only
    cases pages with
    | nil =>
      have hend : page.pbPage.dwNextAdminPage = 0 := hrest
      rw [if_pos hend, ← hid]
      rfl
    | cons second pages =>
      have hsecond : page.pbPage.dwNextAdminPage ≠ 0 := hrest.1 ▸ hlater second List.mem_cons_self
      have hloop := ih (List.cons_ne_nil _ _) hrest
        (fun other hother => hlater other (List.mem_cons_of_mem _ hother))
        (fun other hother => hflushed other (List.mem_cons_of_mem _ hother))
        (Nat.le_of_succ_le_succ hrounds)
      rw [if_neg hsecond, hloop, ← hid]
      rfl

/-- What `ReadAdminPages` reads is what was flushed. -/
theorem Cache.read {rounds : ℕ} (h : Cache pages file es) (hflushed : Flushed pages file)
    (hrounds : pages.length ≤ rounds) :
    readLoop newPage rounds 0 file s =
      .ok (pages.map fun page => { page with bDirty := false }, file, s) := by
  refine readLoop_spec h.nonempty h.linked ?_ hflushed hrounds
  have hnodup := h.nodup
  have hlinked := h.linked
  cases pages with
  | nil => exact List.forall_mem_nil _
  | cons first pages =>
    intro page hpage hzero
    refine (List.nodup_cons.mp hnodup).1 (List.mem_map.mpr ⟨page, hpage, ?_⟩)
    rw [hzero]
    exact hlinked.1.symm

/-! ### A new page -/

/-- `NewPage` gives the id of a page that is not in use, and 0 on an empty file. -/
structure Allocates (newPage : σ → HeapFile → Except HeapError (ℕ × σ)) : Prop where
  fresh : ∀ {s file id s'}, newPage s file = .ok (id, s') → file id = none
  first : ∀ {s id s'}, newPage s (fun _ => none) = .ok (id, s') → id = 0

/-- `AllocateNewPage`: the page gets an entry among the others, and the file keeps all that it had. -/
theorem Cache.allocate {P : ℕ} (halloc : Allocates newPage) (h : Cache pages file es) {id : ℕ}
    {pages' : List AdminPageEntry} {file' : HeapFile} {s' : σ}
    (hnew : allocateNewPage newPage P pages file s = .ok (id, pages', file', s')) :
    file id = none ∧ (∀ page ∈ pages', page.dwPageId ≠ id) ∧ pages'.length ≤ pages.length + 1 ∧
      (∃ a b, es = a ++ b ∧ Cache pages' file' (a ++ ⟨id, dwSub P sizeofOffsetEntry⟩ :: b)) ∧
      ∀ i, file' i = file i ∨ file i = none ∧ file' i = some .data := by
  obtain ⟨r, hfirst, hnew⟩ := eq_ok_of_bind hnew
  obtain ⟨dwPageId, s₁⟩ := r
  dsimp only at hnew
  have hfree := halloc.fresh hfirst
  have hput (i : ℕ) : Function.update file dwPageId (some .data) i = file i ∨
      file i = none ∧ Function.update file dwPageId (some .data) i = some .data := by
    by_cases hi : i = dwPageId
    · exact .inr ⟨hi ▸ hfree, hi ▸ Function.update_self _ _ _⟩
    · exact .inl (Function.update_of_ne hi _ _)
  have h₁ : Cache pages (Function.update file dwPageId (some .data)) es :=
    h.frame fun page hpage => Function.update_of_ne (h.ne_of_free hfree page hpage) _ _
  split at hnew
  · next dwPageIndex hindex =>
    obtain ⟨hlt, -⟩ := List.findIdx?_eq_some_iff_getElem.mp hindex
    obtain ⟨front, page, back, rfl, hfront⟩ := exists_split_at hlt
    rw [← hfront, modify_mid] at hnew
    cases hnew
    refine ⟨hfree, ?_, ?_, ⟨VarObjHeap.entries front ++
      page.pbPage.aFreeListEntries, VarObjHeap.entries back, ?_, ?_⟩, hput⟩
    · have hne := h.ne_of_free hfree
      rw [List.forall_mem_append, List.forall_mem_cons] at hne ⊢
      exact hne
    · rw [List.length_append, List.length_append]
      exact Nat.le_succ _
    · rw [← h.entries, entries_mid, List.append_assoc]
    · have hcache := h₁.withEntries
        (page.pbPage.aFreeListEntries ++ [⟨id, dwSub P sizeofOffsetEntry⟩])
      rwa [List.append_assoc, List.singleton_append, ← List.append_assoc] at hcache
  · obtain ⟨r, hsecond, hnew⟩ := eq_ok_of_bind hnew
    obtain ⟨dwNewAdminPageId, s₂⟩ := r
    have hfree' := halloc.fresh hsecond
    obtain ⟨front, page, rfl⟩ := (List.eq_nil_or_concat pages).resolve_left h.nonempty
    rw [List.concat_eq_append] at h h₁ hnew ⊢
    have hlast : (front ++ [page]).length - 1 = front.length := by
      rw [List.length_append]
      rfl
    dsimp only at hnew
    rw [hlast, modify_mid, modify_mid] at hnew
    cases hnew
    have hne : id ≠ dwNewAdminPageId := by
      rintro rfl
      rw [Function.update_self] at hfree'
      cases hfree'
    have hold : file dwNewAdminPageId = none := by
      rwa [Function.update_of_ne hne.symm] at hfree'
    refine ⟨hfree, ?_, ?_, ⟨es, [], (List.append_nil es).symm, ?_⟩, fun i => ?_⟩
    · have hids := h.ne_of_free hfree
      rw [List.forall_mem_append, List.forall_mem_singleton] at hids
      rw [List.forall_mem_append, List.forall_mem_singleton, List.forall_mem_append,
        List.forall_mem_singleton]
      exact ⟨⟨hids.1, hids.2⟩, hne.symm⟩
    · simp only [List.length_append, List.length_cons, List.length_nil]
      omega
    · have hcache := h₁.extend hfree' [⟨id, dwSub P sizeofOffsetEntry⟩]
      rw [List.append_cons] at hcache
      exact hcache
    · by_cases hi : i = dwNewAdminPageId
      · exact .inr ⟨hi ▸ hold, hi ▸ Function.update_self _ _ _⟩
      · rw [Function.update_of_ne hi]
        exact hput i

end Cache

end NtAdmin.Wmi.VarObjHeap
