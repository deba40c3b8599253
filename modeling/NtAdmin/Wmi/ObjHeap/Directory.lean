import NtAdmin.Wmi.Btr.TreeEnumeration
import NtAdmin.Wmi.ObjHeap.IndexNames

/-! The index as a directory, with at most one name for a path. -/
namespace NtAdmin.Wmi.ObjHeap
open Btr

/-! ### Keys that begin with a path -/

theorem keyStrCompare_eq_zero {a b : Key} : keyStrCompare a b = 0 ↔ a = b := by
  constructor
  · intro h
    exact Subtype.ext (eq_of_difference char_injective a.2 b.2 h)
  · rintro rfl
    exact difference_self a.1

/-- Between a string and one that begins with it are only strings that begin with it. -/
theorem isPrefix_between {s t u : List UInt8} (hst : difference char s t ≤ 0)
    (htu : difference char t u < 0) (h : s <+: u) : s <+: t := by
  induction s generalizing t u with
  | nil => exact List.nil_prefix
  | cons c s ih =>
    obtain ⟨rest, rfl⟩ := h
    rw [List.cons_append] at htu
    cases t with
    | nil =>
      simp only [difference] at hst htu
      omega
    | cons b t =>
      simp only [difference] at hst htu
      by_cases hcb : char c = char b
      · rw [if_pos (by omega)] at hst htu
        rw [← char_injective hcb]
        exact List.cons_prefix_cons.mpr ⟨rfl, ih hst htu (List.prefix_append s rest)⟩
      · rw [if_neg (by omega)] at hst htu
        omega

theorem Sorted.head_of_least {keys : List Key} (h : Sorted keys) {key : Key} (hkey : key ∈ keys)
    (hleast : ∀ other ∈ keys, ¬ keyStrCompare other key < 0) : ∃ rest, keys = key :: rest := by
  cases keys with
  | nil => cases hkey
  | cons first rest =>
    rcases List.mem_cons.mp hkey with rfl | hmem
    · exact ⟨rest, rfl⟩
    · exact absurd ((List.pairwise_cons.mp h).1 key hmem) (hleast first List.mem_cons_self)

section Range
variable {index : CBtrIndex} {path key : Key}

/-- The only key that begins with the path, and is not in front of it, is found. -/
theorem range_of_unique (hsorted : Sorted index.keys) (hkey : key ∈ index.keys)
    (hbehind : keyStrCompare path key ≤ 0) (hbegins : path.1 <+: key.1)
    (hunique : ∀ other ∈ index.keys, path.1 <+: other.1 → other = key) :
    ∃ rest, index.range path = key :: rest := by
  have hmem : key ∈ index.keys.filter fun key => keyStrCompare path key ≤ 0 :=
    List.mem_filter.mpr ⟨hkey, decide_eq_true hbehind⟩
  have hleast : ∀ other ∈ index.keys.filter fun key => keyStrCompare path key ≤ 0,
      ¬ keyStrCompare other key < 0 := by
    intro other hother hlt
    obtain ⟨hother, hle⟩ := List.mem_filter.mp hother
    rw [hunique other hother (isPrefix_between (of_decide_eq_true hle) hlt hbegins)] at hlt
    exact absurd (difference_self key.1) hlt.ne
  obtain ⟨rest, hrest⟩ := Sorted.head_of_least (hsorted.sublist List.filter_sublist) hmem hleast
  refine ⟨rest.takeWhile fun key => path.1.isPrefixOf key.1, ?_⟩
  rw [CBtrIndex.range, hrest]
  exact List.takeWhile_cons_of_pos (List.isPrefixOf_iff_prefix.mpr hbegins)

theorem range_of_none (h : ∀ other ∈ index.keys, ¬ path.1 <+: other.1) : index.range path = [] := by
  rw [List.eq_nil_iff_forall_not_mem]
  intro other hother
  have hmem := List.mem_takeWhile_imp hother
  exact h other (List.mem_of_mem_filter ((List.takeWhile_sublist _).subset hother))
    (List.isPrefixOf_iff_prefix.mp hmem)

theorem mem_create {index : CBtrIndex} {key other : Key} (hne : key.1 ≠ []) :
    other ∈ (index.create key).keys ↔ other = key ∨ other ∈ index.keys := by
  rw [CBtrIndex.create]
  split_ifs with hor
  · have hkey := hor.resolve_left hne
    exact ⟨.inr, fun h => h.elim (fun heq => heq ▸ hkey) id⟩
  · simp only [List.mem_append, List.mem_cons, List.mem_filter, decide_eq_true_eq]
    constructor
    · rintro (h | rfl | h)
      · exact .inr h.1
      · exact .inl rfl
      · exact .inr h.1
    · rintro (rfl | h)
      · exact .inr (.inl rfl)
      · rcases lt_trichotomy (keyStrCompare other key) 0 with hlt | heq | hgt
        · exact .inl ⟨h, hlt⟩
        · exact .inr (.inl (keyStrCompare_eq_zero.mp heq))
        · rw [← Int.neg_lt_zero_iff, ← keyStrCompare_neg] at hgt
          exact .inr (.inr ⟨h, hgt⟩)

theorem mem_delete {index : CBtrIndex} (hsorted : Sorted index.keys) {key other : Key} :
    other ∈ (index.delete key).keys ↔ other ≠ key ∧ other ∈ index.keys := by
  rw [CBtrIndex.delete]
  split_ifs with hkey
  · exact hsorted.nodup.mem_erase_iff
  · exact ⟨fun h => ⟨fun heq => hkey (heq ▸ h), h⟩, And.right⟩

end Range

/-! ### Paths and their names -/

/-- Paths none of which begins with another one. What is behind the last backslash has no dot. -/
structure PathFamily (paths : Key → Prop) : Prop where
  separate : ∀ a b, paths a → paths b → a.1 <+: b.1 → a = b
  place : ∀ a, paths a →
    ∃ folder name, a.1 = folder ++ slash :: name ∧ name ≠ [] ∧ slash ∉ name ∧ dot ∉ name

section Names
variable {path : Key} {folder name : List UInt8} {entry : Option FileInfo}

theorem slash_notMem_ending (entry : Option FileInfo) : slash ∉ ending entry :=
  notMem_ending (by decide) (by decide)

theorem suffixOf_eq {text : List UInt8} (htext : text ≠ []) (hslash : slash ∉ text) :
    suffixOf (folder ++ slash :: text) = text := by
  obtain ⟨init, last, rfl⟩ := (List.eq_nil_or_concat' text).resolve_left htext
  have hinit : ∀ c ∈ init.reverse, decide (c ≠ slash) = true := fun c hc =>
    decide_eq_true fun heq => hslash (List.mem_append_left _ (heq ▸ List.mem_reverse.mp hc))
  have hassoc : folder ++ slash :: (init ++ [last]) = (folder ++ slash :: init) ++ [last] := by
    rw [List.append_assoc, List.cons_append]
  rw [suffixOf, hassoc, List.dropLast_concat, List.getLast?_concat, List.reverse_append,
    List.reverse_cons, List.append_assoc, List.singleton_append, List.takeWhile_append_of_pos hinit,
    List.takeWhile_cons_of_neg (by simp), List.append_nil, List.reverse_reverse]
  rfl

theorem folderOf_eq (hslash : slash ∉ name) :
    folderOf (folder ++ slash :: name) = folder ++ [slash] := by
  have hname : ∀ c ∈ name.reverse, decide (c ≠ slash) = true := fun c hc =>
    decide_eq_true fun heq => hslash (heq ▸ List.mem_reverse.mp hc)
  rw [folderOf, List.reverse_append, List.reverse_cons, List.append_assoc, List.singleton_append,
    List.dropWhile_append_of_pos hname, List.dropWhile_cons_of_neg (by simp), List.reverse_cons,
    List.reverse_reverse]

/-- The name that `FindFirst` gives for a path. -/
theorem fileName_indexName (hpath : path.1 = folder ++ slash :: name) (hname : name ≠ [])
    (hslash : slash ∉ name) : (fileName (indexName path entry)).1 = name ++ ending entry := by
  have hkey : (indexName path entry).1 = folder ++ slash :: (name ++ ending entry) := by
    rw [indexName_val, hpath, List.append_assoc, List.cons_append]
  rw [fileName_val, hkey]
  exact suffixOf_eq (List.append_ne_nil_of_left_ne_nil hname _) fun h =>
    (List.mem_append.mp h).elim hslash (slash_notMem_ending entry)

variable {paths : Key → Prop}

theorem PathFamily.inFolder_fileName (h : PathFamily paths) (hpath : paths path) :
    inFolder path (fileName (indexName path entry)) = indexName path entry := by
  obtain ⟨folder, name, heq, hname, hslash, -⟩ := h.place path hpath
  apply Subtype.ext
  rw [inFolder_val, fileName_indexName heq hname hslash, heq, folderOf_eq hslash, indexName_val, heq]
  simp only [List.append_assoc, List.cons_append, List.nil_append]

theorem PathFamily.withInfoOf_fileName (h : PathFamily paths) (hpath : paths path) :
    withInfoOf path (fileName (indexName path entry)) = indexName path entry := by
  obtain ⟨folder, name, heq, hname, hslash, hdot⟩ := h.place path hpath
  apply Subtype.ext
  have hdrop : (ending entry).dropWhile (· ≠ dot) = ending entry := by
    cases entry with
    | none => rfl
    | some info => exact List.dropWhile_cons_of_neg (by simp)
  rw [withInfoOf_val, fileName_indexName heq hname hslash, List.dropWhile_append_of_pos, hdrop]
  · rfl
  · exact fun c hc => decide_eq_true fun hc' => hdot (hc' ▸ hc)

theorem PathFamily.parse_fileName (h : PathFamily paths) (hpath : paths path) {info : FileInfo}
    (hinfo : info.IsDwords) :
    parseInfoFromIndexFile (fileName (indexName path (some info))) = .ok info := by
  obtain ⟨folder, name, heq, hname, hslash, hdot⟩ := h.place path hpath
  exact parse_text hdot (fileName_indexName heq hname hslash) hinfo

theorem PathFamily.parse_link (h : PathFamily paths) (hpath : paths path) :
    parseInfoFromIndexFile (fileName (indexName path none)) = .error .ERROR_INVALID_PARAMETER := by
  obtain ⟨folder, name, heq, hname, hslash, hdot⟩ := h.place path hpath
  apply parse_plain
  rwa [fileName_indexName heq hname hslash, ending, List.append_nil]

theorem PathFamily.ne_nil (h : PathFamily paths) (hpath : paths path) : path.1 ≠ [] := by
  obtain ⟨folder, name, heq, -⟩ := h.place path hpath
  rw [heq]
  exact List.append_ne_nil_of_right_ne_nil folder (List.cons_ne_nil slash name)

/-- The name of one path does not begin with another one. -/
theorem PathFamily.eq_of_begins (h : PathFamily paths) {a b : Key} (ha : paths a) (hb : paths b)
    (hbegins : a.1 <+: (indexName b entry).1) : a = b := by
  rcases List.prefix_or_prefix_of_prefix hbegins (List.prefix_append b.1 (ending entry)) with hab | hba
  · exact h.separate a b ha hb hab
  · exact (h.separate b a hb ha hba).symm

theorem keyStrCompare_indexName (path : Key) (entry : Option FileInfo) :
    keyStrCompare path (indexName path entry) ≤ 0 := by
  have happend (s t : List UInt8) : difference char s (s ++ t) = difference char [] t := by
    induction s with
    | nil => rfl
    | cons c s ih => rw [List.cons_append, difference, Int.sub_self, if_pos rfl, ih]
  rw [keyStrCompare, indexName_val, happend]
  cases entry with
  | none => exact le_rfl
  | some info =>
    change char 0 - char dot ≤ 0
    decide

end Names

/-! ### Directories -/

/-- Which paths have a name, and what is behind them there. -/
abbrev Entries := Key → Option (Option FileInfo)

/-- The keys are the names of the entries. -/
structure Directory (room : ℕ) (paths : Key → Prop) (keys : List Key) (entries : Entries) : Prop where
  sorted : Sorted keys
  mem : ∀ key, key ∈ keys ↔
    ∃ path entry, paths path ∧ entries path = some entry ∧ key = indexName path entry
  fits : ∀ path entry, paths path → entries path = some entry →
    (indexName path entry).1.length ≤ room

namespace Directory
variable {τ : Type} [KeyTree τ] {paths : Key → Prop} {index index' : τ} {entries : Entries}
  {path : Key} {entry : Option FileInfo}

theorem empty {room : ℕ} : Directory room paths [] fun _ => none :=
  ⟨List.Pairwise.nil, fun key => iff_of_false (by simp) (by simp), fun _ _ _ h => nomatch h⟩

theorem length_fileName_le (key : Key) : (fileName key).1.length ≤ key.1.length := by
  rw [fileName_val, suffixOf, List.length_append, List.length_reverse]
  have htake := (List.takeWhile_sublist (fun c => decide (c ≠ slash))
    (l := key.1.dropLast.reverse)).length_le
  rw [List.length_reverse, List.length_dropLast] at htake
  cases hlast : key.1.getLast? with
  | none =>
    rw [Option.toList_none, List.length_nil]
    omega
  | some c =>
    have hne : key.1 ≠ [] := by
      intro hnil
      rw [hnil] at hlast
      cases hlast
    have hpos := List.length_pos_iff.mpr hne
    rw [Option.toList_some, List.length_singleton]
    omega

/-- A name is not cut off. -/
theorem fitted_fileName (h : Directory (room τ) paths (KeyTree.keys index) entries)
    (hpath : paths path) (hentry : entries path = some entry) :
    fitted MAX_PATH (fileName (indexName path entry)) = fileName (indexName path entry) :=
  fitted_eq (((length_fileName_le _).trans (h.fits path entry hpath hentry)).trans
    (Nat.sub_le _ _))

theorem find (h : Directory (room τ) paths (KeyTree.keys index) entries) (hpaths : PathFamily paths)
    (hpath : paths path) (hentry : entries path = some entry) :
    getIndexFileName index path = .ok (fileName (indexName path entry)) := by
  have hsorted : Sorted (listed index).keys := h.sorted
  have hkey : indexName path entry ∈ (listed index).keys :=
    (h.mem _).mpr ⟨path, entry, hpath, hentry, rfl⟩
  obtain ⟨rest, hrange⟩ := range_of_unique hsorted hkey
    (keyStrCompare_indexName path entry) (List.prefix_append path.1 (ending entry))
    fun other hother hbegins => by
      obtain ⟨b, entry', hb, hentry', rfl⟩ := (h.mem other).mp hother
      obtain rfl := hpaths.eq_of_begins hpath hb hbegins
      rw [Option.some.inj (hentry.symm.trans hentry')]
  rw [getIndexFileName, if_neg (hpaths.ne_nil hpath), hrange]
  exact congrArg _ (h.fitted_fileName hpath hentry)

theorem find_none (h : Directory (room τ) paths (KeyTree.keys index) entries)
    (hpaths : PathFamily paths) (hpath : paths path) (hentry : entries path = none) :
    getIndexFileName index path = .error .ERROR_FILE_NOT_FOUND := by
  have hrange : (listed index).range path = [] := by
    apply range_of_none
    intro other hother hbegins
    obtain ⟨b, entry', hb, hentry', rfl⟩ := (h.mem other).mp hother
    obtain rfl := hpaths.eq_of_begins hpath hb hbegins
    rw [hentry] at hentry'
    cases hentry'
  rw [getIndexFileName, if_neg (hpaths.ne_nil hpath), hrange]

theorem keys_create {key : Key} (h : create key index = .ok index') :
    key.1 ≠ [] ∧ KeyTree.keys index' = ((listed index).create key).keys := by
  unfold ObjHeap.create at h
  split_ifs at h with hempty hkeys
  cases h
  exact ⟨hempty, hkeys⟩

theorem keys_delete {key : Key} (h : deleteZeroLengthFile index key = .ok index') :
    KeyTree.keys index' = ((listed index).delete key).keys := by
  unfold deleteZeroLengthFile at h
  split_ifs at h with hempty hcontains hkeys
  cases h
  exact hkeys

theorem create (h : Directory (room τ) paths (KeyTree.keys index) entries) (hpath : paths path)
    (hentry : entries path = none ∨ entries path = some entry)
    (hfits : (indexName path entry).1.length ≤ room τ)
    (hcreate : create (indexName path entry) index = .ok index') :
    Directory (room τ) paths (KeyTree.keys index') (Function.update entries path (some entry)) := by
  have hsorted : Sorted (listed index).keys := h.sorted
  obtain ⟨hne, hkeys'⟩ := keys_create hcreate
  rw [hkeys']
  refine ⟨IndexInvariant.create_sorted hsorted _, fun key => ?_,
    fun other entry' hother hentry' => ?_⟩
  · have hkeys : key ∈ (listed index).keys ↔ ∃ path entry, paths path ∧
        entries path = some entry ∧ key = indexName path entry := h.mem key
    rw [mem_create hne, hkeys]
    constructor
    · rintro (rfl | ⟨b, entry', hb, hentry', rfl⟩)
      · exact ⟨path, entry, hpath, Function.update_self _ _ _, rfl⟩
      · by_cases hne : b = path
        · subst hne
          rcases hentry with hentry | hentry
          · rw [hentry] at hentry'
            cases hentry'
          · rw [Option.some.inj (hentry'.symm.trans hentry)]
            exact ⟨b, entry, hb, Function.update_self _ _ _, rfl⟩
        · exact ⟨b, entry', hb, (Function.update_of_ne hne _ _).trans hentry', rfl⟩
    · rintro ⟨b, entry', hb, hentry', rfl⟩
      by_cases hne : b = path
      · subst hne
        rw [Function.update_self] at hentry'
        exact .inl (by rw [Option.some.inj hentry'])
      · rw [Function.update_of_ne hne] at hentry'
        exact .inr ⟨b, entry', hb, hentry', rfl⟩
  · by_cases hne : other = path
    · subst hne
      rw [Function.update_self] at hentry'
      rwa [← Option.some.inj hentry']
    · rw [Function.update_of_ne hne] at hentry'
      exact h.fits other entry' hother hentry'

theorem delete (h : Directory (room τ) paths (KeyTree.keys index) entries)
    (hpaths : PathFamily paths) (hpath : paths path) (hentry : entries path = some entry)
    (hdelete : deleteZeroLengthFile index (indexName path entry) = .ok index') :
    Directory (room τ) paths (KeyTree.keys index') (Function.update entries path none) := by
  have hsorted : Sorted (listed index).keys := h.sorted
  rw [keys_delete hdelete]
  refine ⟨?_, fun key => ?_, fun other entry' hother hentry' => ?_⟩
  · rw [CBtrIndex.delete]
    split_ifs
    · exact hsorted.sublist List.erase_sublist
    · exact hsorted
  · have hkeys : key ∈ (listed index).keys ↔ ∃ path entry, paths path ∧
        entries path = some entry ∧ key = indexName path entry := h.mem key
    rw [mem_delete hsorted, hkeys]
    constructor
    · rintro ⟨hne, b, entry', hb, hentry', rfl⟩
      have hb' : b ≠ path := by
        rintro rfl
        exact hne (by rw [Option.some.inj (hentry'.symm.trans hentry)])
      exact ⟨b, entry', hb, (Function.update_of_ne hb' _ _).trans hentry', rfl⟩
    · rintro ⟨b, entry', hb, hentry', rfl⟩
      have hb' : b ≠ path := by
        rintro rfl
        rw [Function.update_self] at hentry'
        cases hentry'
      rw [Function.update_of_ne hb'] at hentry'
      refine ⟨fun heq => hb' ?_, b, entry', hb, hentry', rfl⟩
      have hbegins : b.1 <+: (indexName path entry).1 := by
        rw [← heq]
        exact List.prefix_append b.1 (ending entry')
      exact hpaths.eq_of_begins hb hpath hbegins
  · by_cases hne : other = path
    · subst hne
      rw [Function.update_self] at hentry'
      cases hentry'
    · rw [Function.update_of_ne hne] at hentry'
      exact h.fits other entry' hother hentry'

/-- A key that is there is deleted, unless others go with it. -/
theorem deleteZeroLengthFile_or (h : Directory (room τ) paths (KeyTree.keys index) entries)
    (hpaths : PathFamily paths) (hpath : paths path) (hentry : entries path = some entry) :
    (∃ index', deleteZeroLengthFile index (indexName path entry) = .ok index') ∨
      deleteZeroLengthFile index (indexName path entry) = .error .keysLost := by
  have hcontains : (KeyTree.keys index).contains (indexName path entry) = true :=
    List.contains_iff_mem.mpr ((h.mem _).mpr ⟨path, entry, hpath, hentry, rfl⟩)
  have hne : (indexName path entry).1 ≠ [] := by
    rw [indexName_val]
    exact List.append_ne_nil_of_left_ne_nil (hpaths.ne_nil hpath) _
  rw [deleteZeroLengthFile, if_neg hne, if_pos hcontains]
  split_ifs
  · exact .inl ⟨_, rfl⟩
  · exact .inr rfl

theorem deleteIndexFile_eq (h : Directory (room τ) paths (KeyTree.keys index) entries)
    (hpaths : PathFamily paths) (hpath : paths path) (hentry : entries path = some entry) :
    deleteIndexFile index path (fileName (indexName path entry)) =
      deleteZeroLengthFile index (indexName path entry) := by
  have hslash : path.1.contains slash = true := by
    obtain ⟨folder, name, heq, -⟩ := hpaths.place path hpath
    rw [heq]
    exact List.contains_iff_mem.mpr (List.mem_append_right _ List.mem_cons_self)
  rw [deleteIndexFile, if_pos hslash, hpaths.inFolder_fileName hpath,
    fitted_eq (h.fits path entry hpath hentry)]

theorem deleteLinkFile_eq (h : Directory (room τ) paths (KeyTree.keys index) entries)
    (hpaths : PathFamily paths) (hpath : paths path) (hentry : entries path = some entry) :
    deleteLinkFile index path = deleteZeroLengthFile index (indexName path entry) := by
  rw [deleteLinkFile, h.find hpaths hpath hentry]
  change deleteZeroLengthFile index
    (fitted (room τ) (withInfoOf path (fileName (indexName path entry)))) = _
  rw [hpaths.withInfoOf_fileName hpath, fitted_eq (h.fits path entry hpath hentry)]

end Directory

/-! ### The tree of btr.cpp -/

/-- A B-tree with its entries. -/
structure BuiltTree (σ : Type) (dwPageSize : ℕ) (inUse : σ → UInt32 → Prop) where
  tree : CBTree σ
  entries : List Entry
  hasEntries : HasEntries dwPageSize inUse tree entries

namespace BuiltTree
variable {σ : Type} {dwPageSize : ℕ} {newPage : σ → Except Win32Error (UInt32 × σ)}
  {inUse : σ → UInt32 → Prop} {s : Key}

/-- The entries with a key among them. -/
def place (entries : List Entry) (pszKey : Key) : List Entry :=
  entries.filter (fun e => keyStrCompare e.1 pszKey < 0) ++
    (pszKey, 0) :: entries.filter fun e => keyStrCompare pszKey e.1 < 0

theorem place_append {before behind : List Entry} (hbefore : AllBefore before s)
    (hbehind : AllBehind s behind) : place (before ++ behind) s = before ++ (s, 0) :: behind := by
  have hlow : ∀ e ∈ before, ¬ keyStrCompare s e.1 < 0 := fun e he hlt =>
    absurd (keyStrCompare_trans hlt (hbefore e he)) (by rw [keyStrCompare_self]; exact lt_irrefl 0)
  have hhigh : ∀ e ∈ behind, ¬ keyStrCompare e.1 s < 0 := fun e he hlt =>
    absurd (keyStrCompare_trans (hbehind e he) hlt) (by rw [keyStrCompare_self]; exact lt_irrefl 0)
  have hleft : (before ++ behind).filter (fun e => keyStrCompare e.1 s < 0) = before := by
    rw [List.filter_append, List.filter_eq_self.mpr fun e he => decide_eq_true (hbefore e he),
      List.filter_eq_nil_iff.mpr fun e he => by simpa using hhigh e he, List.append_nil]
  have hright : (before ++ behind).filter (fun e => keyStrCompare s e.1 < 0) = behind := by
    rw [List.filter_append, List.filter_eq_nil_iff.mpr fun e he => by simpa using hlow e he,
      List.filter_eq_self.mpr fun e he => decide_eq_true (hbehind e he), List.nil_append]
  rw [place, hleft, hright]

theorem hasEntries_place (halloc : Allocates newPage inUse) (t : BuiltTree σ dwPageSize inUse)
    {tree' : CBTree σ} (hinsert : t.tree.insertKey dwPageSize newPage s 0 = .ok tree') :
    HasEntries dwPageSize inUse tree' (place t.entries s) := by
  obtain ⟨before, behind, hentries, hbefore, hbehind, htree'⟩ :=
    insertKey_spec halloc t.hasEntries hinsert
  rwa [hentries, place_append hbefore hbehind]

/-- `InsertKey`, as `CBtrIndex` calls it. -/
def insertKey (halloc : Allocates newPage inUse) (pszKey : Key) (t : BuiltTree σ dwPageSize inUse) :
    BuiltTree σ dwPageSize inUse :=
  match hinsert : t.tree.insertKey dwPageSize newPage pszKey 0 with
  | .ok tree => ⟨tree, place t.entries pszKey, hasEntries_place halloc t hinsert⟩
  | .error _ => t

/-- The tree as an index, with whatever `DeleteKey` does. -/
abbrev index (halloc : Allocates newPage inUse)
    (deleteKey : Key → BuiltTree σ dwPageSize inUse → BuiltTree σ dwPageSize inUse)
    (init : { t : BuiltTree σ dwPageSize inUse // t.entries = [] }) (m_dwPrefixLength : ℕ) :
    KeyTree (BuiltTree σ dwPageSize inUse) where
  keys t := t.entries.map Prod.fst
  insertKey := insertKey halloc
  deleteKey := deleteKey
  init := init.1
  keys_init := by rw [init.2]; rfl
  m_dwPrefixLength := m_dwPrefixLength

section Index
variable (halloc : Allocates newPage inUse)
  (deleteKey : Key → BuiltTree σ dwPageSize inUse → BuiltTree σ dwPageSize inUse)
  (init : { t : BuiltTree σ dwPageSize inUse // t.entries = [] }) (m_dwPrefixLength : ℕ)
  (t : BuiltTree σ dwPageSize inUse)

/-- `Create` succeeds on the tree exactly if `InsertKey` does, or finds the key there. -/
theorem create_index (hs : s.1 ≠ []) :
    (∃ t', @create _ (index halloc deleteKey init m_dwPrefixLength) s t = .ok t') ↔
      (∃ tree', t.tree.insertKey dwPageSize newPage s 0 = .ok tree') ∨
        t.tree.insertKey dwPageSize newPage s 0 = .error .ERROR_ALREADY_EXISTS := by
  have hmem : s ∈ t.entries.map Prod.fst ↔ ∃ v, (s, v) ∈ t.entries := by simp
  have hcreate : @create _ (index halloc deleteKey init m_dwPrefixLength) s t =
      if (insertKey halloc s t).entries.map Prod.fst =
          (CBtrIndex.create ⟨t.entries.map Prod.fst, fun _ => Enumeration.fill []⟩ s).keys then
        .ok (insertKey halloc s t) else .error .keysLost := if_neg hs
  rw [hcreate]
  by_cases hpresent : ∃ v, (s, v) ∈ t.entries
  · obtain ⟨v, hv⟩ := hpresent
    have hexists := (key_present newPage t.hasEntries hs hv).2 0
    have hsame : insertKey halloc s t = t := by
      unfold insertKey
      split
      · rename_i tree hinsert
        rw [hexists] at hinsert
        cases hinsert
      · rfl
    have hkeys : (CBtrIndex.create ⟨t.entries.map Prod.fst, fun _ => Enumeration.fill []⟩ s).keys =
        t.entries.map Prod.fst := by
      rw [CBtrIndex.create, if_pos (.inr (hmem.mpr ⟨v, hv⟩))]
    rw [hsame, if_pos hkeys.symm]
    exact iff_of_true ⟨t, rfl⟩ (.inr hexists)
  · have hmissing := (key_missing newPage t.hasEntries hs (not_exists.mp hpresent)).2 0
    have hkeys : (CBtrIndex.create ⟨t.entries.map Prod.fst, fun _ => Enumeration.fill []⟩ s).keys =
        (place t.entries s).map Prod.fst := by
      have hnot : ¬(s.1 = [] ∨ s ∈ t.entries.map Prod.fst) := by
        rw [hmem]
        exact not_or.mpr ⟨hs, hpresent⟩
      rw [CBtrIndex.create, if_neg hnot, place, List.map_append, List.map_cons]
      dsimp only
      rw [List.filter_map, List.filter_map]
      rfl
    rw [hkeys]
    cases hinsert : t.tree.insertKey dwPageSize newPage s 0 with
    | ok tree' =>
      have hplaced : (insertKey halloc s t).entries = place t.entries s := by
        unfold insertKey
        split
        · rfl
        · rename_i hfail
          rw [hinsert] at hfail
          cases hfail
      rw [hplaced, if_pos rfl]
      exact iff_of_true ⟨_, rfl⟩ (.inl ⟨tree', rfl⟩)
    | error dwRes =>
      have hsame : insertKey halloc s t = t := by
        unfold insertKey
        split
        · rename_i tree hok
          rw [hinsert] at hok
          cases hok
        · rfl
      have hne : t.entries.map Prod.fst ≠ (place t.entries s).map Prod.fst := by
        intro heq
        have hin : s ∈ (place t.entries s).map Prod.fst := by simp [place]
        rw [← heq, hmem] at hin
        exact hpresent hin
      rw [hsame, if_neg hne]
      refine iff_of_false (fun h => nomatch h) ?_
      rintro (⟨tree', h⟩ | h)
      · cases h
      · rw [hinsert] at hmissing
        exact hmissing h

/-- What is found is what the iterator returns from the path on, as far as it begins with it. -/
theorem range_index (hsize : dwPageSize ≤ 2 ^ 19) (hne : t.entries ≠ []) {path : Key}
    (hpath : path.1 ≠ []) :
    (∃ pRoot, idxPages t.tree.m_pSrc.pages t.tree.m_pSrc.m_dwLogicalRoot = .ok pRoot ∧
      Enumerates (idxPages t.tree.m_pSrc.pages) pRoot t.entries (some path)) ∧
      (@listed _ (index halloc deleteKey init m_dwPrefixLength) t).range path =
        ((fromStart t.entries (some path)).map Prod.fst).takeWhile fun key =>
          path.1.isPrefixOf key.1 := by
  have hkeys : (@listed _ (index halloc deleteKey init m_dwPrefixLength) t).keys =
      t.entries.map Prod.fst := rfl
  refine ⟨t.hasEntries.enumerates hsize hne fun s hs => Option.some.inj hs ▸ hpath, ?_⟩
  rw [CBtrIndex.range, hkeys, List.filter_map]
  rfl

end Index

end BuiltTree

end NtAdmin.Wmi.ObjHeap
