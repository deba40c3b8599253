import NtAdmin.Wmi.ObjHeap.ObjectHeap
import NtAdmin.Wmi.VarObjHeap.HeapRun

/-! The object heap is a map from paths to objects, also over transactions. -/
namespace NtAdmin.Wmi.ObjHeap
open Lib Btr VarObjHeap

def FileInfo.handle (info : FileInfo) : ℕ × ℕ := (info.nPage, info.nOffset)

/-! ### Entries -/

section Entered
variable {room : ℕ} {layout : Layout} {entries : Entries} {blocks : Blocks} {repository : Repository}
  {path : Key} {entry : Option (Option FileInfo)} {info : FileInfo} {bytes : List UInt8}

/-- The entries with another one for a path and for its second path. -/
def Layout.enter (layout : Layout) (entries : Entries) (path : Key) (entry : Option (Option FileInfo)) :
    Entries :=
  match layout.second path with
  | none => Function.update entries path entry
  | some wszFilePath2 => Function.update (Function.update entries path entry) wszFilePath2 entry

/-- What the entries and the blocks of the heap say about the repository. -/
structure Entered (layout : Layout) (entries : Entries) (blocks : Blocks) (repository : Repository) :
    Prop where
  stored : ∀ path bytes, layout.objects path → repository.objects path = some bytes →
    ∃ info : FileInfo, entries path = some (some info) ∧ info.IsDwords ∧
      info.dwLength = bytes.length ∧ blocks info.handle = some bytes
  absent : ∀ path, layout.objects path → repository.objects path = none → entries path = none
  second : ∀ path wszFilePath2, layout.objects path → layout.second path = some wszFilePath2 →
    entries wszFilePath2 = entries path
  distinct : ∀ path path' info info', layout.objects path → layout.objects path' →
    entries path = some (some info) → entries path' = some (some info') →
    info.handle = info'.handle → path = path'
  link : ∀ path, layout.links path →
    entries path = if repository.links path then some none else none
  owned : ∀ handle bytes, blocks handle = some bytes →
    ∃ path info, layout.objects path ∧ entries path = some (some info) ∧ info.handle = handle

theorem Layout.enter_self (layout : Layout) (entries : Entries) (path : Key)
    (entry : Option (Option FileInfo)) : layout.enter entries path entry path = entry := by
  rw [Layout.enter]
  cases layout.second path with
  | none => exact Function.update_self _ _ _
  | some wszFilePath2 =>
    dsimp only
    by_cases heq : path = wszFilePath2
    · rw [heq, Function.update_self]
    · rw [Function.update_of_ne heq, Function.update_self]

theorem Layout.enter_second {wszFilePath2 : Key} (h : layout.second path = some wszFilePath2) :
    layout.enter entries path entry wszFilePath2 = entry := by
  rw [Layout.enter, h]
  exact Function.update_self _ _ _

theorem Layout.enter_of_ne {other : Key} (hne : other ≠ path)
    (hsecond : layout.second path ≠ some other) :
    layout.enter entries path entry other = entries other := by
  rw [Layout.enter]
  cases h : layout.second path with
  | none => exact Function.update_of_ne hne _ _
  | some wszFilePath2 =>
    dsimp only
    have hne' : other ≠ wszFilePath2 := fun heq => hsecond (heq ▸ h)
    rw [Function.update_of_ne hne', Function.update_of_ne hne]

theorem Layout.enter_enter (layout : Layout) (entries : Entries) (path : Key)
    (entry entry' : Option (Option FileInfo)) :
    layout.enter (layout.enter entries path entry) path entry' = layout.enter entries path entry' := by
  funext other
  by_cases hne : other = path
  · rw [hne, layout.enter_self, layout.enter_self]
  · by_cases hsecond : layout.second path = some other
    · rw [Layout.enter_second hsecond, Layout.enter_second hsecond]
    · rw [Layout.enter_of_ne hne hsecond, Layout.enter_of_ne hne hsecond,
        Layout.enter_of_ne hne hsecond]

theorem Layout.enter_same (hpath : entries path = entry)
    (hsecond : ∀ wszFilePath2, layout.second path = some wszFilePath2 → entries wszFilePath2 = entry) :
    layout.enter entries path entry = entries := by
  funext other
  by_cases hne : other = path
  · rw [hne, layout.enter_self, hpath]
  · by_cases heq : layout.second path = some other
    · rw [Layout.enter_second heq, hsecond other heq]
    · exact Layout.enter_of_ne hne heq

namespace Layout.Sound
variable {room : ℕ} (h : layout.Sound room) (hpath : layout.objects path)
include h hpath

theorem enter_object {other : Key} (hother : layout.objects other) (hne : other ≠ path) :
    layout.enter entries path entry other = entries other :=
  Layout.enter_of_ne hne fun hsecond => (h.second path other hpath hsecond).1 hother

theorem enter_link {other : Key} (hother : layout.links other) :
    layout.enter entries path entry other = entries other :=
  Layout.enter_of_ne (fun heq => h.link other hother (heq ▸ hpath)) fun hsecond =>
    (h.second path other hpath hsecond).2 hother

/-- The second path of another object. -/
theorem enter_other {other wszFilePath2 : Key} (hother : layout.objects other) (hne : other ≠ path)
    (hsecond : layout.second other = some wszFilePath2) :
    layout.enter entries path entry wszFilePath2 = entries wszFilePath2 :=
  Layout.enter_of_ne (fun heq => (h.second other wszFilePath2 hother hsecond).1 (heq ▸ hpath))
    fun hsecond' => hne (h.unique other path wszFilePath2 hother hpath hsecond hsecond')

end Layout.Sound

theorem Entered.empty : Entered layout (fun _ => none) (fun _ => none) Repository.empty where
  stored _ _ _ h := by cases h
  absent _ _ _ := rfl
  second _ _ _ _ := rfl
  distinct _ _ _ _ _ _ h := by cases h
  link _ _ := rfl
  owned _ _ h := by cases h

theorem Entered.of_entry (h : Entered layout entries blocks repository) (hpath : layout.objects path)
    (hentry : entries path = some (some info)) :
    ∃ bytes, repository.objects path = some bytes ∧ info.IsDwords ∧ info.dwLength = bytes.length ∧
      blocks info.handle = some bytes := by
  cases hrepository : repository.objects path with
  | none =>
    rw [h.absent path hpath hrepository] at hentry
    cases hentry
  | some bytes =>
    obtain ⟨info', hentry', hdwords, hlength, hblock⟩ := h.stored path bytes hpath hrepository
    obtain rfl : info = info' := Option.some.inj (Option.some.inj (hentry.symm.trans hentry'))
    exact ⟨bytes, rfl, hdwords, hlength, hblock⟩

/-- Both paths of an object still agree. -/
theorem Entered.enter_agrees (h : Entered layout entries blocks repository) (hsound : layout.Sound room)
    (hpath : layout.objects path) {other wszFilePath2 : Key} (hother : layout.objects other)
    (hsecond : layout.second other = some wszFilePath2) :
    layout.enter entries path entry wszFilePath2 = layout.enter entries path entry other := by
  by_cases hne : other = path
  · subst hne
    rw [layout.enter_self, Layout.enter_second hsecond]
  · rw [hsound.enter_other hpath hother hne hsecond, hsound.enter_object hpath hother hne]
    exact h.second other wszFilePath2 hother hsecond

/-- An object that was not there, under a new handle. -/
theorem Entered.add (h : Entered layout entries blocks repository) (hsound : layout.Sound room)
    (hpath : layout.objects path) (hentry : entries path = none) (hnew : blocks info.handle = none)
    (hinfo : info.IsDwords) (hlength : info.dwLength = bytes.length) :
    Entered layout (layout.enter entries path (some (some info)))
      (Function.update blocks info.handle (some bytes)) (repository.withObject path (some bytes)) where
  stored other bytes' hother hrepository := by
    by_cases hne : other = path
    · subst hne
      rw [Repository.withObject_self] at hrepository
      cases hrepository
      exact ⟨info, layout.enter_self _ _ _, hinfo, hlength, Function.update_self _ _ _⟩
    · rw [repository.withObject_of_ne hne] at hrepository
      obtain ⟨info', hentry', hdwords, hlength', hblock⟩ := h.stored other bytes' hother hrepository
      have hhandle : info'.handle ≠ info.handle := by
        intro heq
        rw [heq, hnew] at hblock
        cases hblock
      exact ⟨info', (hsound.enter_object hpath hother hne).trans hentry', hdwords, hlength',
        (Function.update_of_ne hhandle _ _).trans hblock⟩
  absent other hother hrepository := by
    have hne : other ≠ path := by
      rintro rfl
      rw [Repository.withObject_self] at hrepository
      cases hrepository
    rw [repository.withObject_of_ne hne] at hrepository
    exact (hsound.enter_object hpath hother hne).trans (h.absent other hother hrepository)
  second other wszFilePath2 := h.enter_agrees hsound hpath
  distinct a b info₁ info₂ ha hb hinfo₁ hinfo₂ hhandle := by
    have hfresh (other : Key) (info' : FileInfo) (hother : layout.objects other) (hne : other ≠ path)
        (hinfo' : layout.enter entries path (some (some info)) other = some (some info')) :
        info'.handle ≠ info.handle := by
      rw [hsound.enter_object hpath hother hne] at hinfo'
      obtain ⟨bytes', -, -, -, hblock⟩ := h.of_entry hother hinfo'
      intro heq
      rw [heq, hnew] at hblock
      cases hblock
    by_cases hane : a = path
    · by_cases hbne : b = path
      · exact hane.trans hbne.symm
      · subst hane
        rw [layout.enter_self] at hinfo₁
        cases hinfo₁
        exact absurd hhandle.symm (hfresh b info₂ hb hbne hinfo₂)
    · by_cases hbne : b = path
      · subst hbne
        rw [layout.enter_self] at hinfo₂
        cases hinfo₂
        exact absurd hhandle (hfresh a info₁ ha hane hinfo₁)
      · rw [hsound.enter_object hpath ha hane] at hinfo₁
        rw [hsound.enter_object hpath hb hbne] at hinfo₂
        exact h.distinct a b info₁ info₂ ha hb hinfo₁ hinfo₂ hhandle
  link other hother := (hsound.enter_link hpath hother).trans (h.link other hother)
  owned handle bytes' hblock := by
    by_cases heq : handle = info.handle
    · exact ⟨path, info, hpath, layout.enter_self _ _ _, heq.symm⟩
    · rw [Function.update_of_ne heq] at hblock
      obtain ⟨other, info', hother, hentry', hhandle⟩ := h.owned handle bytes' hblock
      have hne : other ≠ path := by
        rintro rfl
        rw [hentry] at hentry'
        cases hentry'
      exact ⟨other, info', hother, (hsound.enter_object hpath hother hne).trans hentry', hhandle⟩

/-- An object that is taken away, with its block. -/
theorem Entered.remove (h : Entered layout entries blocks repository) (hsound : layout.Sound room)
    (hpath : layout.objects path) (hentry : entries path = some (some info)) :
    Entered layout (layout.enter entries path none) (Function.update blocks info.handle none)
      (repository.withObject path none) where
  stored other bytes' hother hrepository := by
    have hne : other ≠ path := by
      rintro rfl
      rw [Repository.withObject_self] at hrepository
      cases hrepository
    rw [repository.withObject_of_ne hne] at hrepository
    obtain ⟨info', hentry', hdwords, hlength', hblock⟩ := h.stored other bytes' hother hrepository
    have hhandle : info'.handle ≠ info.handle := fun heq =>
      hne (h.distinct other path info' info hother hpath hentry' hentry heq)
    exact ⟨info', (hsound.enter_object hpath hother hne).trans hentry', hdwords, hlength',
      (Function.update_of_ne hhandle _ _).trans hblock⟩
  absent other hother hrepository := by
    by_cases hne : other = path
    · subst hne
      exact layout.enter_self _ _ _
    · rw [repository.withObject_of_ne hne] at hrepository
      exact (hsound.enter_object hpath hother hne).trans (h.absent other hother hrepository)
  second other wszFilePath2 := h.enter_agrees hsound hpath
  distinct a b info₁ info₂ ha hb hinfo₁ hinfo₂ hhandle := by
    have hne (other : Key) (info' : FileInfo)
        (hinfo' : layout.enter entries path none other = some (some info')) : other ≠ path := by
      rintro rfl
      rw [layout.enter_self] at hinfo'
      cases hinfo'
    rw [hsound.enter_object hpath ha (hne a info₁ hinfo₁)] at hinfo₁
    rw [hsound.enter_object hpath hb (hne b info₂ hinfo₂)] at hinfo₂
    exact h.distinct a b info₁ info₂ ha hb hinfo₁ hinfo₂ hhandle
  link other hother := (hsound.enter_link hpath hother).trans (h.link other hother)
  owned handle bytes' hblock := by
    have hhandle : handle ≠ info.handle := by
      rintro rfl
      rw [Function.update_self] at hblock
      cases hblock
    rw [Function.update_of_ne hhandle] at hblock
    obtain ⟨other, info', hother, hentry', heq⟩ := h.owned handle bytes' hblock
    have hne : other ≠ path := by
      rintro rfl
      rw [Option.some.inj (Option.some.inj (hentry'.symm.trans hentry))] at heq
      exact hhandle heq.symm
    exact ⟨other, info', hother, (hsound.enter_object hpath hother hne).trans hentry', heq⟩

/-- A link that is made or taken away. -/
theorem Entered.withLink (h : Entered layout entries blocks repository) (hsound : layout.Sound room)
    (hpath : layout.links path) (link : Bool) :
    Entered layout (Function.update entries path (if link then some none else none)) blocks
      (repository.withLink path link) := by
  have hobject (other : Key) (hother : layout.objects other) : other ≠ path := by
    rintro rfl
    exact hsound.link other hpath hother
  have hentry (other : Key) (hother : layout.objects other) :
      Function.update entries path (if link then some none else none) other = entries other :=
    Function.update_of_ne (hobject other hother) _ _
  refine ⟨fun other bytes' hother hrepository => ?_, fun other hother hrepository => ?_,
    fun other wszFilePath2 hother hsecond => ?_, fun a b info₁ info₂ ha hb hinfo₁ hinfo₂ => ?_,
    fun other hother => ?_, fun handle bytes' hblock => ?_⟩
  · rw [hentry other hother]
    exact h.stored other bytes' hother hrepository
  · rw [hentry other hother]
    exact h.absent other hother hrepository
  · have hne : wszFilePath2 ≠ path := by
      rintro rfl
      exact (hsound.second other wszFilePath2 hother hsecond).2 hpath
    rw [hentry other hother, Function.update_of_ne hne]
    exact h.second other wszFilePath2 hother hsecond
  · rw [hentry a ha] at hinfo₁
    rw [hentry b hb] at hinfo₂
    exact h.distinct a b info₁ info₂ ha hb hinfo₁ hinfo₂
  · rw [Repository.withLink]
    by_cases hne : other = path
    · subst hne
      simp only [Function.update_self]
    · simp only [Function.update_of_ne hne]
      exact h.link other hother
  · obtain ⟨other, info', hother, hentry', hhandle⟩ := h.owned handle bytes' hblock
    exact ⟨other, info', hother, (hentry other hother).trans hentry', hhandle⟩

end Entered

/-! ### The index -/

section Index
variable {τ : Type} [KeyTree τ] {layout : Layout} {entries : Entries} {index index' : τ} {path : Key}
  {info old : FileInfo}

theorem paths_second {wszFilePath2 : Key} (hpath : layout.objects path)
    (hsecond : layout.second path = some wszFilePath2) : layout.paths wszFilePath2 :=
  .inr (.inr ⟨path, hpath, hsecond⟩)

theorem Layout.Sound.second_ne {room : ℕ} (h : layout.Sound room) (hpath : layout.objects path)
    {wszFilePath2 : Key} (hsecond : layout.second path = some wszFilePath2) :
    wszFilePath2 ≠ path := by
  rintro rfl
  exact (h.second _ _ hpath hsecond).1 hpath

theorem Layout.Sound.fits {room : ℕ} (h : layout.Sound room) (hpath : layout.paths path)
    {entry : Option FileInfo} (hdwords : ∀ info, entry = some info → info.IsDwords) :
    (indexName path entry).1.length ≤ room := by
  have hshort := h.short path hpath
  rw [indexName_val, List.length_append]
  cases entry with
  | none =>
    change path.1.length + 0 ≤ room
    omega
  | some info =>
    have htext := length_text_le (hdwords info rfl)
    change path.1.length + info.text.length ≤ room
    omega

/-- A name for an object at a path that has none. -/
theorem Directory.createIndexFile (h : Directory (room τ) layout.paths (KeyTree.keys index) entries)
    (hsound : layout.Sound (room τ)) (hpath : layout.paths path) (hentry : entries path = none)
    (hdwords : info.IsDwords) (hcreate : createIndexFile index path info = .ok index') :
    Directory (room τ) layout.paths (KeyTree.keys index')
      (Function.update entries path (some (some info))) := by
  have hfits : (indexName path (some info)).1.length ≤ room τ :=
    hsound.fits hpath fun other hother => Option.some.inj hother ▸ hdwords
  rw [ObjHeap.createIndexFile, fitted_eq hfits] at hcreate
  exact h.create hpath (.inl hentry) hfits hcreate

/-- Both names of a new object. -/
theorem Directory.createBoth (h : Directory (room τ) layout.paths (KeyTree.keys index) entries)
    (hsound : layout.Sound (room τ)) (hpath : layout.objects path) (hentry : entries path = none)
    (hsecond : ∀ wszFilePath2, layout.second path = some wszFilePath2 → entries wszFilePath2 = none)
    (hdwords : info.IsDwords) {index₁ index₂ : τ}
    (hcreate : ObjHeap.createIndexFile index path info = .ok index₁)
    (hcreate₂ : createSecond index₁ (layout.second path) info = .ok index₂) :
    Directory (room τ) layout.paths (KeyTree.keys index₂)
      (layout.enter entries path (some (some info))) := by
  have hfirst := h.createIndexFile hsound (.inl hpath) hentry hdwords hcreate
  rw [Layout.enter]
  cases heq : layout.second path with
  | none =>
    rw [heq] at hcreate₂
    cases hcreate₂
    exact hfirst
  | some wszFilePath2 =>
    rw [heq] at hcreate₂
    refine hfirst.createIndexFile hsound (paths_second hpath heq) ?_ hdwords hcreate₂
    rw [Function.update_of_ne (hsound.second_ne hpath heq)]
    exact hsecond wszFilePath2 heq

theorem Directory.recreate (h : Directory (room τ) layout.paths (KeyTree.keys index) entries)
    (hsound : layout.Sound (room τ)) (hpath : layout.paths path)
    (hentry : entries path = some (some old)) (hdwords : info.IsDwords)
    (hrecreate : recreateIndexFile index path (fileName (indexName path (some old))) info =
      .ok index') :
    Directory (room τ) layout.paths (KeyTree.keys index')
      (Function.update entries path (some (some info))) := by
  obtain ⟨index₁, hdelete, hcreate⟩ := eq_ok_of_bind hrecreate
  rw [h.deleteIndexFile_eq hsound.family hpath hentry] at hdelete
  have hgone := h.delete hsound.family hpath hentry hdelete
  have hnew := hgone.createIndexFile hsound hpath (Function.update_self _ _ _) hdwords hcreate
  rwa [Function.update_idem] at hnew

/-- Both names of an object that was there. -/
theorem Directory.recreateBoth (h : Directory (room τ) layout.paths (KeyTree.keys index) entries)
    (hsound : layout.Sound (room τ)) (hpath : layout.objects path)
    (hentry : entries path = some (some old))
    (hsecond : ∀ wszFilePath2, layout.second path = some wszFilePath2 →
      entries wszFilePath2 = some (some old)) (hdwords : info.IsDwords) {index₁ index₂ : τ}
    (hrecreate : recreateIndexFile index path (fileName (indexName path (some old))) info =
      .ok index₁)
    (hrecreate₂ : recreateSecond index₁ (layout.second path) info = .ok index₂) :
    Directory (room τ) layout.paths (KeyTree.keys index₂)
      (layout.enter entries path (some (some info))) := by
  have hfirst := h.recreate hsound (.inl hpath) hentry hdwords hrecreate
  rw [Layout.enter]
  cases heq : layout.second path with
  | none =>
    rw [heq] at hrecreate₂
    cases hrecreate₂
    exact hfirst
  | some wszFilePath2 =>
    rw [heq] at hrecreate₂
    have hpath₂ := paths_second hpath heq
    have hentry₂ : Function.update entries path (some (some info)) wszFilePath2 = some (some old) := by
      rw [Function.update_of_ne (hsound.second_ne hpath heq)]
      exact hsecond wszFilePath2 heq
    rw [recreateSecond, hfirst.find hsound.family hpath₂ hentry₂] at hrecreate₂
    exact hfirst.recreate hsound hpath₂ hentry₂ hdwords hrecreate₂

end Index

/-! ### Calls -/

section Calls
variable {σ τ : Type} [KeyTree τ] {newPage : σ → HeapFile → Except HeapError (ℕ × σ)}
  {crc : List UInt8 → ℕ} {P rounds n : ℕ} {layout : Layout} {session session' : ObjectSession σ τ}
  {heap heap' : CObjectHeap σ τ} {stored : StoredObjects} {entries : Entries} {blocks : Blocks}
  {repository : Repository} {path : Key} {info : FileInfo} {bytes : List UInt8}

/-- The index and the blocks hold the repository. -/
def Kept (layout : Layout) (index : τ) (blocks : Blocks) (repository : Repository) : Prop :=
  ∃ entries, Directory (room τ) layout.paths (KeyTree.keys index) entries ∧
    Entered layout entries blocks repository

/-- What holds of a session after `n` calls, if this is stored. -/
def RepresentsObjects (n : ℕ) (crc : List UInt8 → ℕ) (P : ℕ) (layout : Layout)
    (session : ObjectSession σ τ) (stored : StoredObjects) : Prop :=
  ∃ blocks : StoredBlocks, Represents n crc P ⟨session.heap.m_Heap, session.committedFile⟩ blocks ∧
    Kept layout session.heap.m_Index blocks.current stored.current ∧
    Kept layout session.committedIndex blocks.committed stored.committed

theorem infoOf_ok {new : ℕ × ℕ} {dwBufferLen : ℕ} (h : infoOf new dwBufferLen = .ok info) :
    info.handle = new ∧ info.IsDwords ∧ info.dwLength = dwBufferLen := by
  rw [infoOf] at h
  split_ifs at h with hdwords
  cases h
  exact ⟨rfl, hdwords, rfl⟩

theorem RepresentsObjects.write (halloc : Allocates newPage) (hP : sizeofHeader ≤ P)
    (hP' : P + sizeofOffsetEntry < 2 ^ 32) (hn : n < rounds) (hsound : layout.Sound (room τ))
    (h : RepresentsObjects n crc P layout session stored) (hpath : layout.objects path)
    (hne : bytes ≠ []) {env : Surroundings}
    (hwrite : session.heap.writeObject newPage crc P rounds env path (layout.second path) bytes =
      .ok heap') :
    RepresentsObjects (n + 1) crc P layout (session.withHeap heap')
      { stored with current := stored.current.withObject path (some bytes) } := by
  obtain ⟨blocks, hheap, ⟨entries, hindex, hentered⟩, hcommitted⟩ := h
  rw [CObjectHeap.writeObject, if_neg (by rwa [List.isEmpty_iff])] at hwrite
  cases hrepository : stored.current.objects path with
  | none =>
    have hentry := hentered.absent path hpath hrepository
    rw [hindex.find_none hsound.family (.inl hpath) hentry] at hwrite
    obtain ⟨r, hnew, hwrite⟩ := eq_ok_of_bind hwrite
    obtain ⟨new, m_Heap⟩ := r
    obtain ⟨info, hinfo, hwrite⟩ := eq_ok_of_bind hwrite
    obtain ⟨hhandle, hdwords, hlength⟩ := infoOf_ok hinfo
    obtain ⟨index₁, hcreate, hwrite⟩ := eq_ok_of_bind hwrite
    obtain ⟨index₂, hcreate₂, hwrite⟩ := eq_ok_of_bind hwrite
    cases hwrite
    obtain ⟨hfresh, hheap'⟩ :=
      hheap.writeNewBuffer halloc hP hP' hn (eq_ok_of_mapError hnew)
    rw [← hhandle] at hfresh hheap'
    have hnames := hindex.createBoth hsound hpath hentry (fun wszFilePath2 hsecond =>
      (hentered.second path wszFilePath2 hpath hsecond).trans hentry) hdwords
      (eq_ok_of_mapError hcreate) (eq_ok_of_mapError hcreate₂)
    exact ⟨_, hheap', ⟨_, hnames, hentered.add hsound hpath hentry hfresh hdwords hlength⟩, hcommitted⟩
  | some oldBytes =>
    obtain ⟨old, hentry, hdwords, -, -⟩ := hentered.stored path oldBytes hpath hrepository
    have hsecond (wszFilePath2 : Key) (h : layout.second path = some wszFilePath2) :
        entries wszFilePath2 = some (some old) :=
      (hentered.second path wszFilePath2 hpath h).trans hentry
    rw [hindex.find hsound.family (.inl hpath) hentry] at hwrite
    dsimp only at hwrite
    rw [hsound.family.parse_fileName (.inl hpath) hdwords] at hwrite
    obtain ⟨r, hr, hwrite⟩ := eq_ok_of_bind hwrite
    obtain rfl : old = r := Except.ok.inj hr
    obtain ⟨r', hnew, hwrite⟩ := eq_ok_of_bind hwrite
    obtain ⟨new, m_Heap⟩ := r'
    obtain ⟨info, hinfo, hwrite⟩ := eq_ok_of_bind hwrite
    obtain ⟨hhandle, hdwords', hlength⟩ := infoOf_ok hinfo
    dsimp only at hhandle
    obtain ⟨hfresh, hheap'⟩ :=
      hheap.writeExistingBuffer halloc hP hP' hn (eq_ok_of_mapError hnew)
    rw [← hhandle] at hfresh hheap'
    -- The old block goes, and then the new one comes.
    have hadded := (hentered.remove hsound hpath hentry).add hsound hpath (layout.enter_self _ _ _)
      hfresh hdwords' hlength
    rw [layout.enter_enter, Repository.withObject_withObject] at hadded
    split_ifs at hwrite with hsame
    · cases hwrite
      have henter : layout.enter entries path (some (some info)) = entries := by
        rw [← hsame]
        exact Layout.enter_same hentry hsecond
      rw [henter] at hadded
      exact ⟨_, hheap', ⟨entries, hindex, hadded⟩, hcommitted⟩
    · obtain ⟨index₁, hrecreate, hwrite⟩ := eq_ok_of_bind hwrite
      obtain ⟨index₂, hrecreate₂, hwrite⟩ := eq_ok_of_bind hwrite
      cases hwrite
      have hnames := hindex.recreateBoth hsound hpath hentry hsecond hdwords'
        (eq_ok_of_mapError hrecreate) (eq_ok_of_mapError hrecreate₂)
      exact ⟨_, hheap', ⟨_, hnames, hadded⟩, hcommitted⟩

theorem RepresentsObjects.read (halloc : Allocates newPage) (hn : n < rounds)
    (h : RepresentsObjects n crc P layout session stored)
    (hread : session.heap.readObject newPage crc P rounds path = .ok (bytes, heap')) :
    RepresentsObjects (n + 1) crc P layout (session.withHeap heap') stored := by
  obtain ⟨blocks, hheap, hcurrent, hcommitted⟩ := h
  obtain ⟨info, -, hread⟩ := eq_ok_of_bind hread
  obtain ⟨r, hbuffer, hread⟩ := eq_ok_of_bind hread
  obtain ⟨pAllocation, m_Heap⟩ := r
  dsimp only at hread
  split_ifs at hread
  cases hread
  exact ⟨blocks, (hheap.readBuffer halloc hn (eq_ok_of_mapError hbuffer)).succ, hcurrent, hcommitted⟩

/-- A stored object is found, under both of its paths. -/
theorem Entered.getFileInfo {index : τ}
    (hindex : Directory (room τ) layout.paths (KeyTree.keys index) entries)
    (hsound : layout.Sound (room τ)) (hpath : layout.paths path)
    (hentry : entries path = some (some info))
    (hdwords : info.IsDwords) : getFileInfo index path = .ok info := by
  rw [ObjHeap.getFileInfo, hindex.find hsound.family hpath hentry]
  exact hsound.family.parse_fileName hpath hdwords

/-- `DeleteInstanceSelf` of an object in the index, if the heap takes the block: what it leaves behind,
and that it succeeds unless the tree loses keys. -/
theorem Directory.deleteInstanceSelf
    (hindex : Directory (room τ) layout.paths (KeyTree.keys heap.m_Index) entries)
    (hsound : layout.Sound (room τ)) (hpath : layout.objects path)
    (hentry : entries path = some (some info)) (hdwords : info.IsDwords)
    (hsecond : ∀ wszFilePath2, layout.second path = some wszFilePath2 →
      entries wszFilePath2 = some (some info)) {m_Heap : CVarObjHeap σ}
    (hdelete : heap.m_Heap.deleteBuffer newPage P rounds info.nPage info.nOffset = .ok m_Heap) :
    (∃ index : τ, heap.deleteInstanceSelf newPage P rounds path (layout.second path) =
        .ok ⟨index, m_Heap⟩ ∧
      Directory (room τ) layout.paths (KeyTree.keys index) (layout.enter entries path none)) ∨
      heap.deleteInstanceSelf newPage P rounds path (layout.second path) =
        .error (.index .keysLost) := by
  have hobject : heap.deleteObject newPage P rounds path =
      ((deleteZeroLengthFile heap.m_Index (indexName path (some info))).mapError .index >>=
        fun m_Index => .ok ⟨m_Index, m_Heap⟩) := by
    rw [CObjectHeap.deleteObject, hindex.find hsound.family (.inl hpath) hentry]
    change (parseInfoFromIndexFile (fileName (indexName path (some info)))).mapError _ >>= _ = _
    rw [hsound.family.parse_fileName (.inl hpath) hdwords]
    change (heap.m_Heap.deleteBuffer newPage P rounds info.nPage info.nOffset).mapError _ >>= _ = _
    rw [hdelete]
    change (deleteIndexFile heap.m_Index path (fileName (indexName path (some info)))).mapError _ >>=
      _ = _
    rw [hindex.deleteIndexFile_eq hsound.family (.inl hpath) hentry]
  rw [CObjectHeap.deleteInstanceSelf, hobject, Layout.enter]
  rcases hindex.deleteZeroLengthFile_or hsound.family (.inl hpath) hentry with ⟨index₁, hfirst⟩ | hlost
  · have hgone := hindex.delete hsound.family (.inl hpath) hentry hfirst
    rw [hfirst]
    cases heq : layout.second path with
    | none => exact .inl ⟨index₁, rfl, hgone⟩
    | some wszFilePath2 =>
      have hpath₂ := paths_second hpath heq
      have hentry₂ : Function.update entries path none wszFilePath2 = some (some info) := by
        rw [Function.update_of_ne (hsound.second_ne hpath heq)]
        exact hsecond wszFilePath2 heq
      change (∃ index, CObjectHeap.deleteLink wszFilePath2 ⟨index₁, m_Heap⟩ = _ ∧ _) ∨
        CObjectHeap.deleteLink wszFilePath2 ⟨index₁, m_Heap⟩ = _
      rw [CObjectHeap.deleteLink, hgone.deleteLinkFile_eq hsound.family hpath₂ hentry₂]
      rcases hgone.deleteZeroLengthFile_or hsound.family hpath₂ hentry₂ with ⟨index₂, hlink⟩ | hlost
      · rw [hlink]
        exact .inl ⟨index₂, rfl, hgone.delete hsound.family hpath₂ hentry₂ hlink⟩
      · rw [hlost]
        exact .inr rfl
  · rw [hlost]
    exact .inr rfl

theorem RepresentsObjects.delete (halloc : Allocates newPage) (hP' : P + sizeofOffsetEntry < 2 ^ 32)
    (hn : n < rounds) (hsound : layout.Sound (room τ))
    (h : RepresentsObjects n crc P layout session stored) (hpath : layout.objects path)
    (hdelete : session.heap.deleteInstanceSelf newPage P rounds path (layout.second path) = .ok heap') :
    RepresentsObjects (n + 1) crc P layout (session.withHeap heap')
      { stored with current := stored.current.withObject path none } := by
  obtain ⟨blocks, hheap, ⟨entries, hindex, hentered⟩, hcommitted⟩ := h
  obtain ⟨heap₁, hobject, -⟩ := eq_ok_of_bind hdelete
  obtain ⟨name, hname, hobject⟩ := eq_ok_of_bind hobject
  cases hrepository : stored.current.objects path with
  | none =>
    rw [hindex.find_none hsound.family (.inl hpath) (hentered.absent path hpath hrepository)] at hname
    cases hname
  | some bytes =>
    obtain ⟨info, hentry, hdwords, -, hblock⟩ := hentered.stored path bytes hpath hrepository
    have hsecond (wszFilePath2 : Key) (h : layout.second path = some wszFilePath2) :
        entries wszFilePath2 = some (some info) :=
      (hentered.second path wszFilePath2 hpath h).trans hentry
    obtain ⟨-, m_Heap, hbuffer⟩ := hheap.stored_ok hP' hn hblock
    rcases hindex.deleteInstanceSelf hsound hpath hentry hdwords hsecond hbuffer with
      ⟨index, hself, hnames⟩ | hlost
    · rw [hself] at hdelete
      cases hdelete
      exact ⟨_, hheap.deleteBuffer halloc hP' hn hbuffer,
        ⟨_, hnames, hentered.remove hsound hpath hentry⟩, hcommitted⟩
    · rw [hlost] at hdelete
      cases hdelete

theorem indexName_none (path : Key) : indexName path none = path :=
  Subtype.ext (List.append_nil path.1)

theorem RepresentsObjects.writeLink (hsound : layout.Sound (room τ))
    (h : RepresentsObjects n crc P layout session stored) (hpath : layout.links path)
    (hwrite : session.heap.writeLink path = .ok heap') :
    RepresentsObjects (n + 1) crc P layout (session.withHeap heap')
      { stored with current := stored.current.withLink path true } := by
  obtain ⟨blocks, hheap, ⟨entries, hindex, hentered⟩, hcommitted⟩ := h
  have hentry : entries path = none ∨ entries path = some none := by
    rw [hentered.link path hpath]
    cases stored.current.links path with
    | false => exact .inl rfl
    | true => exact .inr rfl
  obtain ⟨m_Index, hcreate, hwrite⟩ := eq_ok_of_bind hwrite
  cases hwrite
  rw [← indexName_none path] at hcreate
  have hnames := hindex.create (.inr (.inl hpath)) hentry
    (hsound.fits (.inr (.inl hpath)) fun _ h => nomatch h) (eq_ok_of_mapError hcreate)
  exact ⟨blocks, hheap.succ, ⟨_, hnames, hentered.withLink hsound hpath true⟩, hcommitted⟩

theorem RepresentsObjects.deleteLink (hsound : layout.Sound (room τ))
    (h : RepresentsObjects n crc P layout session stored) (hpath : layout.links path)
    (hdelete : session.heap.deleteLink path = .ok heap') :
    RepresentsObjects (n + 1) crc P layout (session.withHeap heap')
      { stored with current := stored.current.withLink path false } := by
  obtain ⟨blocks, hheap, ⟨entries, hindex, hentered⟩, hcommitted⟩ := h
  have hlink := hentered.link path hpath
  rw [CObjectHeap.deleteLink] at hdelete
  cases hstored : stored.current.links path with
  | false =>
    rw [hstored] at hlink
    rw [deleteLinkFile, hindex.find_none hsound.family (.inr (.inl hpath)) hlink] at hdelete
    cases hdelete
  | true =>
    rw [hstored] at hlink
    rw [hindex.deleteLinkFile_eq hsound.family (.inr (.inl hpath)) hlink] at hdelete
    obtain ⟨m_Index, hlinkFile, hdelete⟩ := eq_ok_of_bind hdelete
    cases hdelete
    exact ⟨blocks, hheap.succ, ⟨_, hindex.delete hsound.family (.inr (.inl hpath)) hlink
      (eq_ok_of_mapError hlinkFile), hentered.withLink hsound hpath false⟩, hcommitted⟩

theorem RepresentsObjects.step (halloc : Allocates newPage) (hP : sizeofHeader ≤ P)
    (hP' : P + sizeofOffsetEntry < 2 ^ 32) (hn : n < rounds) (hsound : layout.Sound (room τ))
    (h : RepresentsObjects n crc P layout session stored) {call : ObjectCall σ}
    (hfits : call.Fits layout)
    (hstep : session.step newPage crc P rounds layout.second call = .ok session') :
    RepresentsObjects (n + 1) crc P layout session' (stored.after call) := by
  cases call with
  | read path =>
    obtain ⟨r, hread, hstep⟩ := eq_ok_of_bind hstep
    cases hstep
    exact h.read halloc hn hread
  | write env path pBuffer =>
    obtain ⟨heap₁, hwrite, hstep⟩ := eq_ok_of_bind hstep
    cases hstep
    exact h.write halloc hP hP' hn hsound hfits.1 hfits.2 hwrite
  | delete path =>
    obtain ⟨heap₁, hdelete, hstep⟩ := eq_ok_of_bind hstep
    cases hstep
    exact h.delete halloc hP' hn hsound hfits hdelete
  | writeLink path =>
    obtain ⟨heap₁, hwrite, hstep⟩ := eq_ok_of_bind hstep
    cases hstep
    exact h.writeLink hsound hfits hwrite
  | deleteLink path =>
    obtain ⟨heap₁, hdelete, hstep⟩ := eq_ok_of_bind hstep
    cases hstep
    exact h.deleteLink hsound hfits hdelete
  | flushCaches =>
    obtain ⟨blocks, hheap, hcurrent, hcommitted⟩ := h
    obtain ⟨heap₁, hflush, hstep⟩ := eq_ok_of_bind hstep
    obtain ⟨m_Heap, hm_Heap, hflush⟩ := eq_ok_of_bind hflush
    cases hflush
    cases hstep
    have hcall : Session.step newPage crc P rounds ⟨session.heap.m_Heap, session.committedFile⟩
        .flushCaches = .ok ⟨m_Heap, session.committedFile⟩ := by
      rw [Session.step, eq_ok_of_mapError hm_Heap]
      rfl
    exact ⟨blocks, hheap.step halloc hP hP' hn hcall, hcurrent, hcommitted⟩
  | commit =>
    obtain ⟨blocks, hheap, hcurrent, hcommitted⟩ := h
    cases hstep
    have hcall : Session.step newPage crc P rounds ⟨session.heap.m_Heap, session.committedFile⟩
        .commit = .ok ⟨session.heap.m_Heap, session.heap.m_Heap.m_pObjectFile⟩ := rfl
    exact ⟨_, hheap.step halloc hP hP' hn hcall, hcurrent, hcurrent⟩
  | abort source =>
    obtain ⟨blocks, hheap, hcurrent, hcommitted⟩ := h
    obtain ⟨m_Heap, hread, hstep⟩ := eq_ok_of_bind hstep
    cases hstep
    have hcall : Session.step newPage crc P rounds ⟨session.heap.m_Heap, session.committedFile⟩
        (.abort source) = .ok ⟨m_Heap, session.committedFile⟩ := by
      rw [Session.step, eq_ok_of_mapError hread]
      rfl
    exact ⟨_, hheap.step halloc hP hP' hn hcall, hcommitted, hcommitted⟩

/-- What holds behind calls on the object heap of a new repository. -/
theorem representsObjects_run (halloc : Allocates newPage) (hP : sizeofHeader ≤ P)
    (hP' : P + sizeofOffsetEntry < 2 ^ 32) (hsound : layout.Sound (room τ))
    {calls : List { call : ObjectCall σ // call.Fits layout }} (hrounds : calls.length < rounds)
    {source : σ} {m_Heap : CVarObjHeap σ}
    (hinit : CVarObjHeap.init newPage rounds (fun _ => none) source = .ok m_Heap)
    (hrun : calls.foldlM (fun (session : ObjectSession σ τ) call =>
      session.step newPage crc P rounds layout.second call.1) (ObjectSession.new τ m_Heap) =
        .ok session)
    (hstored : calls.foldl (fun (stored : StoredObjects) call => stored.after call.1)
      ⟨Repository.empty, Repository.empty⟩ = stored) :
    RepresentsObjects calls.length crc P layout session stored := by
  have hinit' : RepresentsObjects 0 crc P layout (ObjectSession.new τ m_Heap)
      ⟨Repository.empty, Repository.empty⟩ :=
    ⟨_, represents_init halloc (Nat.zero_lt_of_lt hrounds) hinit,
      ⟨_, @KeyTree.keys_init τ _ ▸ Directory.empty, Entered.empty⟩,
      ⟨_, @KeyTree.keys_init τ _ ▸ Directory.empty, Entered.empty⟩⟩
  rw [← hstored, ← Nat.zero_add calls.length]
  refine foldlM_refines (N := calls.length) (R := fun n session stored =>
    RepresentsObjects n crc P layout session stored) ?_ (Nat.zero_add _).le hinit' hrun
  intro n session call session' stored hlt hrep hstep
  exact hrep.step halloc hP hP' (hlt.trans hrounds) hsound call.2 hstep

end Calls

/-- An instance `a` with the link `b` of its class, and a link `c`. -/
def instancePath : Key := ⟨[0x5C, 0x61], by decide⟩
def instanceLinkPath : Key := ⟨[0x5C, 0x62], by decide⟩
def referencePath : Key := ⟨[0x5C, 0x63], by decide⟩

def instanceLayout : Layout where
  objects path := path = instancePath
  links path := path = referencePath
  second path := if path = instancePath then some instanceLinkPath else none

theorem instanceLayout_paths {path : Key} (h : instanceLayout.paths path) :
    path = instancePath ∨ path = instanceLinkPath ∨ path = referencePath := by
  rcases h with h | h | ⟨object, rfl, hsecond⟩
  · exact .inl h
  · exact .inr (.inr h)
  · exact .inr (.inl (Option.some.inj hsecond).symm)

/-- An index that is a list of keys, in a directory with a path of 40 characters. -/
structure KeyList where
  keys : List Key

instance : KeyTree KeyList where
  keys := KeyList.keys
  insertKey key tree := ⟨(CBtrIndex.create ⟨tree.keys, fun _ => Enumeration.fill []⟩ key).keys⟩
  deleteKey key tree := ⟨tree.keys.erase key⟩
  init := ⟨[]⟩
  keys_init := rfl
  m_dwPrefixLength := 40

theorem instanceLayout_length {path : Key} (h : instanceLayout.paths path) : path.1.length = 2 := by
  rcases instanceLayout_paths h with rfl | rfl | rfl <;> rfl

theorem instanceLayout_sound : instanceLayout.Sound (room KeyList) where
  short path hpath := by
    rw [instanceLayout_length hpath]
    decide
  family := by
    refine ⟨fun a b ha hb hbegins => Subtype.ext (hbegins.eq_of_length ?_), fun a ha => ?_⟩
    · rw [instanceLayout_length ha, instanceLayout_length hb]
    · rcases instanceLayout_paths ha with rfl | rfl | rfl
      · exact ⟨[], [0x61], rfl, by decide, by decide, by decide⟩
      · exact ⟨[], [0x62], rfl, by decide, by decide, by decide⟩
      · exact ⟨[], [0x63], rfl, by decide, by decide, by decide⟩
  link := by
    rintro path rfl h
    exact absurd (congrArg Subtype.val h) (by decide)
  second := by
    rintro object path rfl hsecond
    rw [← Option.some.inj hsecond]
    exact ⟨fun h => absurd (congrArg Subtype.val h) (by decide),
      fun h => absurd (congrArg Subtype.val h) (by decide)⟩
  unique := by
    rintro object object' path rfl rfl - -
    rfl

/-- An object is written, and written again and its link deleted in a transaction that is aborted. -/
def rewrittenCalls : List { call : ObjectCall Unit // call.Fits instanceLayout } :=
  [⟨.write (zeroMemory [7]) instancePath [1, 2, 3], rfl, by decide⟩, ⟨.writeLink referencePath, rfl⟩,
    ⟨.commit, trivial⟩, ⟨.write (zeroMemory [8]) instancePath [4], rfl, by decide⟩,
    ⟨.deleteLink referencePath, rfl⟩, ⟨.abort (), trivial⟩]

end NtAdmin.Wmi.ObjHeap
