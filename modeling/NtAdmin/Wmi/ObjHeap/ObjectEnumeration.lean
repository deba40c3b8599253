import NtAdmin.Wmi.ObjHeap.ObjectHeapRun

/-! The enumerations of objheap.cpp, to which nothing is done meanwhile. -/
namespace NtAdmin.Wmi.ObjHeap
open Lib Btr VarObjHeap

/-- `IndexEnumerationBegin`: the strings of the batch. -/
def indexEnumerationBegin {τ : Type} [KeyTree τ] (m_Index : τ) (wszSearchPrefix : Key) :
    Except IndexError (List Key) :=
  if wszSearchPrefix.1 = [] then .error .ERROR_INVALID_PARAMETER
  else match (listed m_Index).range wszSearchPrefix with
  | [] => .error .ERROR_FILE_NOT_FOUND
  | pszKey :: pBatch => .ok (pszKey :: pBatch)

/-- A name from its end to so many dots. -/
def dropDots : ℕ → List UInt8 → List UInt8
  | 0, text => text
  | nCount + 1, text => dropDots nCount ((text.dropWhile (· ≠ dot)).drop 1)

/-- The loop that removes the extra stuff from the end of a name, from its third dot on. -/
def withoutInfo (wszFileName : List UInt8) : List UInt8 := (dropDots 3 wszFileName.reverse).reverse

namespace CObjectHeap
variable {σ τ : Type} [KeyTree τ] (newPage : σ → HeapFile → Except HeapError (ℕ × σ))
  (crc : List UInt8 → ℕ) (m_dwPageSize rounds : ℕ)

/-- `ObjectEnumerationNext` at a string of the batch: the name, and the object if there is one. -/
def objectEnumerationNext (pszString : Key) (heap : CObjectHeap σ τ) :
    Except ObjectError ((List UInt8 × Option (List UInt8)) × CObjectHeap σ τ) :=
  match parseInfoFromIndexFile (fileName pszString) with
  | .error _ => .ok (((fileName pszString).1, none), heap)
  | .ok info => do
    let (pBlob, m_Heap) ←
      (heap.m_Heap.readBuffer newPage crc m_dwPageSize rounds info.nPage info.nOffset).mapError .heap
    .ok ((withoutInfo (fileName pszString).1, some pBlob), { heap with m_Heap := m_Heap })

/-- An enumeration until there are no more files. -/
def enumerateBatch : List Key → CObjectHeap σ τ →
    Except ObjectError (List (List UInt8 × Option (List UInt8)) × CObjectHeap σ τ)
  | [], heap => .ok ([], heap)
  | pszString :: pBatch, heap => do
    let (found, heap) ← heap.objectEnumerationNext newPage crc m_dwPageSize rounds pszString
    let (others, heap) ← enumerateBatch pBatch heap
    .ok (found :: others, heap)

def enumerateObjects (wszSearchPrefix : Key) (heap : CObjectHeap σ τ) :
    Except ObjectError (List (List UInt8 × Option (List UInt8)) × CObjectHeap σ τ) := do
  let pBatch ← (indexEnumerationBegin heap.m_Index wszSearchPrefix).mapError .index
  heap.enumerateBatch newPage crc m_dwPageSize rounds pBatch

end CObjectHeap

/-! ### What is stored -/

/-- The paths with an object, and with a link. -/
inductive Repository.Has (layout : Layout) (repository : Repository) :
    Key → Option (List UInt8) → Prop
  | object (path : Key) (bytes : List UInt8) (hpath : layout.objects path)
      (h : repository.objects path = some bytes) : Has layout repository path (some bytes)
  | second (path wszFilePath2 : Key) (bytes : List UInt8) (hpath : layout.objects path)
      (hsecond : layout.second path = some wszFilePath2) (h : repository.objects path = some bytes) :
      Has layout repository wszFilePath2 (some bytes)
  | link (path : Key) (hpath : layout.links path) (h : repository.links path = true) :
      Has layout repository path none

/-- What a name stands for. -/
def Refers (blocks : Blocks) : Option FileInfo → Option (List UInt8) → Prop
  | none, none => True
  | some info, some bytes =>
    info.IsDwords ∧ info.dwLength = bytes.length ∧ blocks info.handle = some bytes
  | none, some _ => False
  | some _, none => False

section Has
variable {layout : Layout} {entries : Entries} {blocks : Blocks} {repository : Repository}
  {path : Key} {entry : Option FileInfo} {contents contents' : Option (List UInt8)}

theorem Refers.unique (h : Refers blocks entry contents) (h' : Refers blocks entry contents') :
    contents = contents' := by
  cases entry with
  | none =>
    cases contents with
    | none =>
      cases contents' with
      | none => rfl
      | some bytes => exact h'.elim
    | some bytes => exact h.elim
  | some info =>
    cases contents with
    | none => exact h.elim
    | some bytes =>
      cases contents' with
      | none => exact h'.elim
      | some bytes' => exact h.2.2.symm.trans h'.2.2

theorem Entered.refers_of_object (h : Entered layout entries blocks repository)
    (hpath : layout.objects path) (hentry : entries path = some entry) :
    ∃ bytes, repository.objects path = some bytes ∧ Refers blocks entry (some bytes) := by
  cases hrepository : repository.objects path with
  | none =>
    rw [h.absent path hpath hrepository] at hentry
    cases hentry
  | some bytes =>
    obtain ⟨info, hinfo, hrefers⟩ := h.stored path bytes hpath hrepository
    obtain rfl := Option.some.inj (hentry.symm.trans hinfo)
    exact ⟨bytes, rfl, hrefers⟩

theorem Entered.refers_of_entry (h : Entered layout entries blocks repository)
    (hpath : layout.paths path) (hentry : entries path = some entry) :
    ∃ contents, Refers blocks entry contents ∧ Repository.Has layout repository path contents := by
  rcases hpath with hpath | hpath | ⟨object, hobject, hsecond⟩
  · obtain ⟨bytes, hbytes, hrefers⟩ := h.refers_of_object hpath hentry
    exact ⟨some bytes, hrefers, .object path bytes hpath hbytes⟩
  · have hlink := h.link path hpath
    rw [hentry] at hlink
    split_ifs at hlink with htrue
    rw [Option.some.inj hlink]
    exact ⟨none, trivial, .link path hpath htrue⟩
  · rw [h.second object path hobject hsecond] at hentry
    obtain ⟨bytes, hbytes, hrefers⟩ := h.refers_of_object hobject hentry
    exact ⟨some bytes, hrefers, .second object path bytes hobject hsecond hbytes⟩

theorem Entered.has_iff (h : Entered layout entries blocks repository) :
    Repository.Has layout repository path contents ↔
      ∃ entry, layout.paths path ∧ entries path = some entry ∧ Refers blocks entry contents := by
  constructor
  · intro hhas
    cases hhas with
    | object _ bytes hpath hbytes =>
      obtain ⟨info, hinfo, hrefers⟩ := h.stored path bytes hpath hbytes
      exact ⟨some info, .inl hpath, hinfo, hrefers⟩
    | second object _ bytes hobject hsecond hbytes =>
      obtain ⟨info, hinfo, hrefers⟩ := h.stored object bytes hobject hbytes
      exact ⟨some info, paths_second hobject hsecond,
        (h.second object path hobject hsecond).trans hinfo, hrefers⟩
    | link _ hpath hlink =>
      have hentry := h.link path hpath
      rw [if_pos hlink] at hentry
      exact ⟨none, .inr (.inl hpath), hentry, trivial⟩
  · rintro ⟨entry, hpath, hentry, hrefers⟩
    obtain ⟨contents', hrefers', hhas⟩ := h.refers_of_entry hpath hentry
    rwa [hrefers.unique hrefers']

end Has

/-! ### The batch -/

section Batch
variable {index : CBtrIndex} {path wszSearchPrefix : Key} {entry : Option FileInfo}

/-- All keys that begin with a string are found, if none of them is in front of it. -/
theorem range_eq_filter (path : Key) (hsorted : Sorted index.keys)
    (hbehind : ∀ key ∈ index.keys, path.1 <+: key.1 → keyStrCompare path key ≤ 0) :
    index.range path = index.keys.filter fun key => path.1.isPrefixOf key.1 := by
  have htake (keys : List Key) (hkeys : Sorted keys)
      (hfrom : ∀ key ∈ keys, keyStrCompare path key ≤ 0) :
      keys.takeWhile (fun key => path.1.isPrefixOf key.1) =
        keys.filter fun key => path.1.isPrefixOf key.1 := by
    induction keys with
    | nil => rfl
    | cons first keys ih =>
      obtain ⟨hfirst, hkeys⟩ := List.pairwise_cons.mp hkeys
      by_cases hbegins : path.1.isPrefixOf first.1 = true
      · rw [List.takeWhile_cons, List.filter_cons, if_pos hbegins, if_pos hbegins,
          ih hkeys fun key hkey => hfrom key (List.mem_cons_of_mem first hkey)]
      · rw [List.takeWhile_cons, List.filter_cons, if_neg hbegins, if_neg hbegins, eq_comm,
          List.filter_eq_nil_iff]
        intro key hkey hlater
        exact hbegins (List.isPrefixOf_iff_prefix.mpr (isPrefix_between
          (hfrom first List.mem_cons_self) (hfirst key hkey) (List.isPrefixOf_iff_prefix.mp hlater)))
  rw [CBtrIndex.range, htake _ (hsorted.sublist List.filter_sublist) fun key hkey =>
    of_decide_eq_true (List.mem_filter.mp hkey).2, List.filter_filter]
  apply List.filter_congr
  intro key hkey
  by_cases hbegins : path.1.isPrefixOf key.1 = true
  · rw [hbegins, decide_eq_true (hbehind key hkey (List.isPrefixOf_iff_prefix.mp hbegins))]
    rfl
  · rw [Bool.eq_false_iff.mpr hbegins]
    rfl

/-- Where the characters are not negative, a string is in front of those that begin with it. -/
theorem keyStrCompare_of_begins {a b : Key} (hbegins : a.1 <+: b.1)
    (hascii : ∀ c ∈ b.1, c.toNat < 0x80) : keyStrCompare a b ≤ 0 := by
  obtain ⟨rest, hrest⟩ := hbegins
  rw [keyStrCompare, ← hrest]
  rw [← hrest] at hascii
  induction a.1 with
  | nil =>
    cases rest with
    | nil => exact le_rfl
    | cons c rest =>
      have hc := hascii c (by simp)
      rw [List.nil_append, difference, char, char, if_pos (by decide), if_pos hc]
      have hzero : (0 : UInt8).toNat = 0 := rfl
      omega
  | cons c s ih =>
    rw [List.cons_append, difference, Int.sub_self, if_pos rfl]
    exact ih

theorem indexName_ascii (hpath : ∀ c ∈ path.1, c.toNat < 0x80) :
    ∀ c ∈ (indexName path entry).1, c.toNat < 0x80 := by
  intro c hc
  rw [indexName_val] at hc
  rcases List.mem_append.mp hc with hc | hc
  · exact hpath c hc
  · by_contra hlarge
    have hdot : c ≠ dot := by
      rintro rfl
      exact hlarge (by decide)
    exact notMem_ending hdot (.inr (by omega)) hc

/-- A string without a dot that a name begins with is in the path. -/
theorem begins_of_indexName {text : List UInt8} (hdot : dot ∉ text)
    (hbegins : text <+: (indexName path entry).1) : text <+: path.1 := by
  rcases List.prefix_or_prefix_of_prefix hbegins (List.prefix_append path.1 (ending entry)) with h | h
  · exact h
  · obtain ⟨rest, rfl⟩ := h
    rw [indexName_val] at hbegins
    have hrest := (List.prefix_append_right_inj path.1).mp hbegins
    cases rest with
    | nil => exact ⟨[], by rw [List.append_nil, List.append_nil]⟩
    | cons c rest =>
      cases entry with
      | none => cases List.prefix_nil.mp hrest
      | some info =>
        have hc : c = dot := (List.cons_prefix_cons.mp hrest).1
        exact absurd (List.mem_append_right _ (hc ▸ List.mem_cons_self)) hdot

/-- What is left of a name is the end of the path. -/
theorem withoutInfo_text {name : List UInt8} (info : FileInfo) :
    withoutInfo (name ++ info.text) = name := by
  have hdigits (n : ℕ) : ∀ c ∈ (decimalText n).reverse, decide (c ≠ dot) = true := by
    intro c hc
    have hlow := (decimalText_digit (List.mem_reverse.mp hc)).1
    refine decide_eq_true ?_
    rintro rfl
    exact absurd hlow (by decide)
  have hdrop (n nCount : ℕ) (text : List UInt8) :
      dropDots (nCount + 1) ((decimalText n).reverse ++ dot :: text) = dropDots nCount text := by
    rw [dropDots, List.dropWhile_append_of_pos (hdigits n), List.dropWhile_cons_of_neg (by simp)]
    rfl
  have hreverse : (name ++ info.text).reverse = (decimalText info.dwLength).reverse ++
      dot :: ((decimalText info.nOffset).reverse ++
        dot :: ((decimalText info.nPage).reverse ++ dot :: name.reverse)) := by
    simp only [FileInfo.text, List.reverse_append, List.reverse_cons, List.append_assoc,
      List.cons_append, List.nil_append]
  rw [withoutInfo, hreverse, hdrop, hdrop, hdrop, dropDots, List.reverse_reverse]

end Batch

/-! ### Enumerations -/

section Enumerations
variable {σ τ : Type} [KeyTree τ] {newPage : σ → HeapFile → Except HeapError (ℕ × σ)}
  {crc : List UInt8 → ℕ} {P rounds n : ℕ} {layout : Layout} {session : ObjectSession σ τ}
  {heap : CObjectHeap σ τ}
  {committed : HeapFile} {blocks : StoredBlocks} {path : Key} {entry : Option FileInfo}
  {contents : Option (List UInt8)} {entries : Entries}

omit [KeyTree τ] in
/-- One step of an enumeration. -/
theorem objectEnumerationNext_ok (heap : CObjectHeap σ τ) (halloc : Allocates newPage)
    (hP' : P + sizeofOffsetEntry < 2 ^ 32) (hn : n < rounds) (hpaths : PathFamily layout.paths)
    (hpath : layout.paths path)
    (hheap : Represents n crc P ⟨heap.m_Heap, committed⟩ blocks)
    (hrefers : Refers blocks.current entry contents) :
    ∃ m_Heap, heap.objectEnumerationNext newPage crc P rounds (indexName path entry) =
        .ok ((suffixOf path.1, contents), { heap with m_Heap := m_Heap }) ∧
      Represents n crc P ⟨m_Heap, committed⟩ blocks := by
  obtain ⟨folder, name, heq, hname, hslash, -⟩ := hpaths.place path hpath
  have hsuffix : suffixOf path.1 = name := by
    rw [heq]
    exact suffixOf_eq hname hslash
  rw [hsuffix, CObjectHeap.objectEnumerationNext]
  cases entry with
  | none =>
    have hnone : Refers blocks.current none none := trivial
    rw [hpaths.parse_link hpath, hrefers.unique hnone]
    refine ⟨heap.m_Heap, ?_, hheap⟩
    dsimp only
    rw [fileName_indexName heq hname hslash, ending, List.append_nil]
  | some info =>
    cases contents with
    | none => exact hrefers.elim
    | some bytes =>
      obtain ⟨hdwords, -, hblock⟩ := hrefers
      obtain ⟨⟨m_Heap, hread⟩, -⟩ := hheap.stored_ok hP' hn hblock
      rw [hpaths.parse_fileName hpath hdwords]
      refine ⟨m_Heap, ?_, hheap.readBuffer halloc hn hread⟩
      change (heap.m_Heap.readBuffer newPage crc P rounds info.nPage info.nOffset).mapError _ >>= _ = _
      rw [hread, fileName_indexName heq hname hslash, ending, withoutInfo_text]
      rfl

/-- A path that was found, with what is stored there. -/
def Entries.Found (layout : Layout) (entries : Entries) (blocks : Blocks)
    (found : Key × Option (List UInt8)) : Prop :=
  ∃ entry, layout.paths found.1 ∧ entries found.1 = some entry ∧ Refers blocks entry found.2

def Entries.nameAt (entries : Entries) (path : Key) : Key :=
  indexName path ((entries path).getD none)

omit [KeyTree τ] in
/-- A batch of names is enumerated, each with what is stored there. -/
theorem enumerateBatch_ok (halloc : Allocates newPage) (hP' : P + sizeofOffsetEntry < 2 ^ 32)
    (hn : n < rounds) (hpaths : PathFamily layout.paths) {pBatch : List Key}
    (hbatch : ∀ key ∈ pBatch, ∃ path contents, key = entries.nameAt path ∧
      entries.Found layout blocks.current (path, contents))
    (hheap : Represents n crc P ⟨heap.m_Heap, committed⟩ blocks) :
    ∃ (found : List (Key × Option (List UInt8))) (heap' : CObjectHeap σ τ),
      heap.enumerateBatch newPage crc P rounds pBatch =
        .ok (found.map fun x => (suffixOf x.1.1, x.2), heap') ∧
      pBatch = found.map (fun x => entries.nameAt x.1) ∧
      ∀ x ∈ found, entries.Found layout blocks.current x := by
  induction pBatch generalizing heap with
  | nil => exact ⟨[], heap, rfl, rfl, List.forall_mem_nil _⟩
  | cons pszString pBatch ih =>
    obtain ⟨path, contents, rfl, hfound⟩ := hbatch pszString List.mem_cons_self
    obtain ⟨entry, hpath, hentry, hrefers⟩ := hfound
    obtain ⟨m_Heap, hnext, hheap'⟩ :=
      objectEnumerationNext_ok heap halloc hP' hn hpaths hpath hheap hrefers
    obtain ⟨found, heap', hothers, hnames, hall⟩ :=
      @ih { heap with m_Heap := m_Heap }
        (fun key hkey => hbatch key (List.mem_cons_of_mem _ hkey)) hheap'
    refine ⟨(path, contents) :: found, heap', ?_, ?_, ?_⟩
    · rw [CObjectHeap.enumerateBatch, Entries.nameAt, hentry, Option.getD_some, hnext]
      change CObjectHeap.enumerateBatch newPage crc P rounds pBatch _ >>= _ = _
      rw [hothers]
      rfl
    · rw [List.map_cons, ← hnames]
    · exact List.forall_mem_cons.mpr ⟨⟨entry, hpath, hentry, hrefers⟩, hall⟩

end Enumerations

/-- The folder of all paths. -/
def rootFolder : Key := ⟨[0x5C], by decide⟩

end NtAdmin.Wmi.ObjHeap
