import Mathlib.Data.List.Nodup
import Mathlib.Data.List.Perm.Subperm
import Mathlib.Data.List.Range
import NtAdmin.Wmi.Btr.IteratorBatch
import NtAdmin.Wmi.Btr.KeyTable

/-! The iterator of btr.cpp over the keys of a B-tree. -/
namespace NtAdmin.Wmi.Btr
open Lib Win32Error

/-- A key with its user data. -/
abbrev Entry := Key × UInt32

/-- A page of the tree with its keys decoded. The ids of keys on a page are `WORD`s. -/
structure IdxPage where
  keys : List Entry
  childPageMap : List UInt32
  few : keys.length < 2 ^ 16

/-- `ReadIdxPage`. -/
abbrev Pages := UInt32 → Except Win32Error IdxPage

namespace IdxPage
variable (page : IdxPage)

def getNumKeys : ℕ := page.keys.length
def getChildPage (wID : ℕ) : UInt32 := page.childPageMap.getD wID 0

/-- Whether the key is on the page, and where it is or would be. -/
def findKey (pszSearchKey : Key) : Except Win32Error (Bool × ℕ) :=
  if pszSearchKey.1 = [] then .error ERROR_INVALID_PARAMETER
  else if page.keys = [] then .ok (false, 0)
  else
    .ok (binarySearch (fun entry => compare (keyStrCompare pszSearchKey entry.1) 0)
      page.keys page.keys.length 0 page.keys.length 0)

end IdxPage

/-- The pages on the stack, the top first, with the key to visit on each. The sentinel at the bottom is
left out, so `m_lStackPointer` is the length. -/
abbrev Stack := List (IdxPage × ℕ)

def const_MaxStack : ℕ := 1024

def stackFull (m_Stack : Stack) : Bool := m_Stack.length = const_MaxStack - 1

/-- The loop that pops pages whose keys have all been visited. -/
def popFinished : Stack → Stack
  | [] => []
  | (page, wId) :: m_Stack =>
    if wId = page.getNumKeys then popFinished m_Stack else (page, wId) :: m_Stack

/-- The loop that pushes the first pages below `dwChildPage`. It ends at the latest when the stack is
full; `fuel` bounds it by that. -/
def pushFirst (pages : Pages) : ℕ → UInt32 → Stack → Except Win32Error Unit × Stack
  | 0, _, m_Stack => (.error ERROR_INSUFFICIENT_BUFFER, m_Stack)
  | fuel + 1, dwChildPage, m_Stack =>
    if dwChildPage = 0 then (.ok (), m_Stack)
    else
      match pages dwChildPage with
      | .error dwRes => (.error dwRes, m_Stack)
      | .ok pIdx =>
        if stackFull m_Stack then (.error ERROR_INSUFFICIENT_BUFFER, m_Stack)
        else pushFirst pages fuel (pIdx.getChildPage 0) ((pIdx, 0) :: m_Stack)

/-- The loop that looks for the start key. Here the stack is not checked; what a push past its end
does is not defined, and is an error of this model. -/
def seek (pages : Pages) (pszStartKey : Key) :
    ℕ → IdxPage → Stack → Except Win32Error Unit × Stack
  | 0, _, m_Stack => (.error ERROR_INSUFFICIENT_BUFFER, m_Stack)
  | fuel + 1, pIdx, m_Stack =>
    match pIdx.findKey pszStartKey with
    | .error dwRes => (.error dwRes, m_Stack)
    | .ok (true, wId) => (.ok (), (pIdx, wId) :: m_Stack)
    | .ok (false, wId) =>
      if pIdx.getChildPage wId = 0 then (.ok (), popFinished ((pIdx, wId) :: m_Stack))
      else
        match pages (pIdx.getChildPage wId) with
        | .error dwRes => (.error dwRes, (pIdx, wId) :: m_Stack)
        | .ok pChild => seek pages pszStartKey fuel pChild ((pIdx, wId) :: m_Stack)

/-- `CBTreeIterator::Init`. -/
def init (pages : Pages) (pRoot : IdxPage) : Option Key → Except Win32Error Unit × Stack
  | none => pushFirst pages const_MaxStack (pRoot.getChildPage 0) [(pRoot, 0)]
  | some pszStartKey => seek pages pszStartKey (const_MaxStack - 1) pRoot []

/-- `CBTreeIterator::Next`. -/
def next (pages : Pages) : Stack → Except Win32Error Entry × Stack
  | [] => (.error ERROR_NO_MORE_ITEMS, [])
  | (page, wId) :: m_Stack =>
    match page.keys[wId]? with
    | none => (.error ERROR_INVALID_PARAMETER, (page, wId) :: m_Stack)
    | some entry =>
      match pushFirst pages const_MaxStack (page.getChildPage (wId + 1))
          ((page, wId + 1) :: m_Stack) with
      | (.error dwRes, m_Stack) => (.error dwRes, m_Stack)
      | (.ok (), m_Stack) => (.ok entry, popFinished m_Stack)

/-- The calls of `Next` return these entries, and then that there are no more. -/
def Yields (pages : Pages) : List Entry → Stack → Prop
  | [], m_Stack => (next pages m_Stack).1 = .error ERROR_NO_MORE_ITEMS
  | entry :: entries, m_Stack =>
    (next pages m_Stack).1 = .ok entry ∧ Yields pages entries (next pages m_Stack).2

/-! ### B-trees -/

/-- What comes from a key on, where `keys` are the ones from index `i` on and `sub j` is what lies below
the `j`-th child page. -/
def tailFrom (sub : ℕ → List Entry) : ℕ → List Entry → List Entry
  | _, [] => []
  | i, entry :: keys => entry :: (sub (i + 1) ++ tailFrom sub (i + 1) keys)

/-- A tree of height `h` with its entries in their order, and the ids of the pages below its root. All
leaves are on one level, and only the root may be without keys. -/
inductive WellFormed (pages : Pages) : ℕ → IdxPage → List Entry → List UInt32 → Prop
  | leaf (page : IdxPage) (hkeys : page.keys ≠ [])
      (hchild : ∀ i ≤ page.getNumKeys, page.getChildPage i = 0) :
      WellFormed pages 0 page page.keys []
  | node (h : ℕ) (page : IdxPage) (child : ℕ → IdxPage) (sub : ℕ → List Entry)
      (ids : ℕ → List UInt32) (hkeys : page.keys ≠ [])
      (hread : ∀ i ≤ page.getNumKeys,
        page.getChildPage i ≠ 0 ∧ pages (page.getChildPage i) = .ok (child i))
      (hsub : ∀ i ≤ page.getNumKeys, WellFormed pages h (child i) (sub i) (ids i)) :
      WellFormed pages (h + 1) page (sub 0 ++ tailFrom sub 0 page.keys)
        ((List.range (page.getNumKeys + 1)).flatMap fun i => page.getChildPage i :: ids i)

/-- The order of the tree. -/
def SortedEntries (entries : List Entry) : Prop :=
  entries.Pairwise fun a b => keyStrCompare a.1 b.1 < 0

/-- A B-tree: an empty root, or a well-formed tree in order in which no page occurs twice. -/
def IsBTree (pages : Pages) (pRoot : IdxPage) (entries : List Entry) : Prop :=
  pRoot.keys = [] ∧ pRoot.getChildPage 0 = 0 ∧ entries = [] ∨
    ∃ h ids, WellFormed pages h pRoot entries ids ∧ ids.Nodup ∧ SortedEntries entries

/-- The entries that an enumeration is to return. -/
def fromStart (entries : List Entry) : Option Key → List Entry
  | none => entries
  | some pszStartKey => entries.filter fun entry => keyStrCompare pszStartKey entry.1 ≤ 0

/-- `Init` succeeds, and `Next` returns the entries from the start key on. -/
def Enumerates (pages : Pages) (pRoot : IdxPage) (entries : List Entry)
    (pszStartKey : Option Key) : Prop :=
  (init pages pRoot pszStartKey).1 = .ok () ∧
    Yields pages (fromStart entries pszStartKey) (init pages pRoot pszStartKey).2

/-! ### The search on a page -/

theorem exists_position {keys : List Entry} (hsorted : SortedEntries keys) (s : Key) :
    ∃ p found, p ≤ keys.length ∧ (found = true → p < keys.length) ∧
      ∀ j entry, keys[j]? = some entry → compare (keyStrCompare s entry.1) 0 =
        if j < p then .gt else if j = p ∧ found = true then .eq else .lt := by
  induction keys with
  | nil => exact ⟨0, false, le_rfl, fun h => (Bool.false_ne_true h).elim, fun j entry h => by simp at h⟩
  | cons k keys ih =>
    obtain ⟨hk, hkeys⟩ := List.pairwise_cons.mp hsorted
    have hlater (hsk : keyStrCompare s k.1 ≤ 0) (j : ℕ) (entry : Entry)
        (hj : keys[j]? = some entry) : compare (keyStrCompare s entry.1) 0 = .lt := by
      have hke := hk entry (List.mem_of_getElem? hj)
      rcases hsk.lt_or_eq with hsk | hsk
      · exact compare_lt_iff_lt.mpr (difference_trans hsk hke)
      · have heq := eq_of_difference char_injective s.2 k.1.2 hsk
        rw [← Subtype.ext heq] at hke
        exact compare_lt_iff_lt.mpr hke
    rcases lt_trichotomy (keyStrCompare s k.1) 0 with hlt | heq | hgt
    · refine ⟨0, false, Nat.zero_le _, fun h => (Bool.false_ne_true h).elim, fun j entry hj => ?_⟩
      cases j with
      | zero =>
        rw [List.getElem?_cons_zero] at hj
        rw [← Option.some.inj hj]
        simpa using compare_lt_iff_lt.mpr hlt
      | succ j =>
        rw [List.getElem?_cons_succ] at hj
        simpa using hlater hlt.le j entry hj
    · refine ⟨0, true, Nat.zero_le _, fun _ => by simp, fun j entry hj => ?_⟩
      cases j with
      | zero =>
        rw [List.getElem?_cons_zero] at hj
        rw [← Option.some.inj hj]
        simpa using compare_eq_iff_eq.mpr heq
      | succ j =>
        rw [List.getElem?_cons_succ] at hj
        simpa using hlater heq.le j entry hj
    · obtain ⟨p, found, hp, hfound, hprobe⟩ := ih hkeys
      refine ⟨p + 1, found, by simpa using hp, fun h => by simpa using hfound h,
        fun j entry hj => ?_⟩
      cases j with
      | zero =>
        rw [List.getElem?_cons_zero] at hj
        rw [← Option.some.inj hj]
        simpa using compare_gt_iff_gt.mpr hgt
      | succ j =>
        rw [List.getElem?_cons_succ] at hj
        simpa using hprobe j entry hj

/-- `FindKey` on a sorted page. -/
theorem findKey_eq {page : IdxPage} (hsorted : SortedEntries page.keys) {s : Key} (hs : s.1 ≠ []) :
    ∃ p found, page.findKey s = .ok (found, p) ∧ p ≤ page.getNumKeys ∧
      (found = true → p < page.getNumKeys) ∧
      ∀ j entry, page.keys[j]? = some entry → compare (keyStrCompare s entry.1) 0 =
        if j < p then .gt else if j = p ∧ found = true then .eq else .lt := by
  obtain ⟨p, found, hp, hfound, hprobe⟩ := exists_position hsorted s
  refine ⟨p, found, ?_, hp, hfound, hprobe⟩
  rw [IdxPage.findKey, if_neg hs]
  split_ifs with hkeys
  · rw [hkeys] at hp hfound
    have hfalse : found = false := by
      rw [← Bool.not_eq_true]
      intro htrue
      exact absurd (hfound htrue) (Nat.not_lt_zero p)
    rw [hfalse, Nat.le_zero.mp hp]
  · rw [binarySearch_eq hprobe (Nat.sub_le _ 0) (Nat.zero_le p) hp hfound le_rfl fun _ => rfl]

/-! ### The stack -/

/-- A page whose child pages hold `sub`, as part of a tree. -/
def Node (pages : Pages) (h : ℕ) (page : IdxPage) (sub : ℕ → List Entry) : Prop :=
  page.keys ≠ [] ∧
    match h with
    | 0 => ∀ i ≤ page.getNumKeys, page.getChildPage i = 0 ∧ sub i = []
    | h + 1 => ∀ i ≤ page.getNumKeys, page.getChildPage i ≠ 0 ∧
        ∃ child ids, pages (page.getChildPage i) = .ok child ∧ WellFormed pages h child (sub i) ids

variable {pages : Pages} {H h : ℕ} {page : IdxPage} {sub : ℕ → List Entry}
  {entries rest : List Entry} {ids : List UInt32} {m_Stack : Stack}

theorem tailFrom_nil_sub (i : ℕ) (keys : List Entry) : tailFrom (fun _ => []) i keys = keys := by
  induction keys generalizing i with
  | nil => rfl
  | cons entry keys ih => rw [tailFrom, ih, List.nil_append]

theorem WellFormed.exists_node (hw : WellFormed pages h page entries ids) :
    ∃ sub, Node pages h page sub ∧ entries = sub 0 ++ tailFrom sub 0 page.keys := by
  cases hw with
  | leaf _ hkeys hchild =>
    refine ⟨fun _ => [], ⟨hkeys, fun i hi => ⟨hchild i hi, rfl⟩⟩, ?_⟩
    rw [tailFrom_nil_sub, List.nil_append]
  | node h _ child sub ids hkeys hread hsub =>
    refine ⟨sub, ⟨hkeys, fun i hi => ⟨(hread i hi).1, child i, ids i, (hread i hi).2, hsub i hi⟩⟩, ?_⟩
    rfl

theorem tailFrom_drop {i : ℕ} {keys : List Entry} {entry : Entry} (hi : keys[i]? = some entry) :
    tailFrom sub i (keys.drop i) =
      entry :: (sub (i + 1) ++ tailFrom sub (i + 1) (keys.drop (i + 1))) := by
  obtain ⟨hlt, rfl⟩ := List.getElem?_eq_some_iff.mp hi
  rw [List.drop_eq_getElem_cons hlt, tailFrom]

/-- The entries that are still to come from a stack, in a tree of height `H`. -/
inductive Rep (pages : Pages) (H : ℕ) : Stack → List Entry → Prop
  | nil : Rep pages H [] []
  | cons {h : ℕ} {page : IdxPage} {wId : ℕ} {sub : ℕ → List Entry} {m_Stack : Stack}
      {rest : List Entry} (hnode : Node pages h page sub) (hwId : wId ≤ page.getNumKeys)
      (hheight : m_Stack.length + h = H) (hrest : Rep pages H m_Stack rest) :
      Rep pages H ((page, wId) :: m_Stack) (tailFrom sub wId (page.keys.drop wId) ++ rest)

/-- The page on top has a key to visit. -/
def Ready (m_Stack : Stack) : Prop := popFinished m_Stack = m_Stack

theorem popFinished_rep (hr : Rep pages H m_Stack entries) :
    Rep pages H (popFinished m_Stack) entries ∧ Ready (popFinished m_Stack) := by
  induction hr with
  | nil => exact ⟨Rep.nil, rfl⟩
  | @cons h page wId sub m_Stack rest hnode hwId hheight hrest ih =>
    rw [popFinished]
    split_ifs with hfinished
    · have hdrop : page.keys.drop wId = [] := by
        rw [hfinished, IdxPage.getNumKeys, List.drop_length]
      rw [hdrop, tailFrom, List.nil_append]
      exact ih
    · refine ⟨Rep.cons hnode hwId hheight hrest, ?_⟩
      rw [Ready, popFinished, if_neg hfinished]

theorem ready_of_lt {wId : ℕ} (hwId : wId < page.getNumKeys) : Ready ((page, wId) :: m_Stack) := by
  rw [Ready, popFinished, if_neg hwId.ne]

theorem length_popFinished_le (m_Stack : Stack) : (popFinished m_Stack).length ≤ m_Stack.length := by
  induction m_Stack with
  | nil => exact le_rfl
  | cons top m_Stack ih =>
    obtain ⟨page, wId⟩ := top
    rw [popFinished]
    split_ifs
    · exact ih.trans (Nat.le_succ _)
    · exact le_rfl

theorem Ready.lt {wId : ℕ} (hready : Ready ((page, wId) :: m_Stack))
    (hwId : wId ≤ page.getNumKeys) : wId < page.getNumKeys := by
  refine lt_of_le_of_ne hwId fun heq => ?_
  have hlength := congrArg List.length hready
  have hshort := length_popFinished_le m_Stack
  rw [popFinished, if_pos heq, List.length_cons] at hlength
  omega

theorem Node.numKeys_pos (hn : Node pages h page sub) : 0 < page.getNumKeys :=
  List.length_pos_iff.mpr hn.1

/-- Pushing the first pages below a page that has just been pushed. -/
theorem pushFirst_spec {fuel : ℕ} (hw : WellFormed pages h page entries ids) (hfuel : h < fuel)
    (hheight : m_Stack.length + h = H) (hH : H < const_MaxStack - 1)
    (hr : Rep pages H m_Stack rest) :
    ∃ m_Stack', pushFirst pages fuel (page.getChildPage 0) ((page, 0) :: m_Stack) =
      (.ok (), m_Stack') ∧ Rep pages H m_Stack' (entries ++ rest) ∧ Ready m_Stack' := by
  induction h generalizing page entries ids m_Stack rest fuel with
  | zero =>
    obtain ⟨sub, hnode, rfl⟩ := hw.exists_node
    obtain ⟨fuel, rfl⟩ : ∃ f, fuel = f + 1 := ⟨fuel - 1, by omega⟩
    obtain ⟨hchild, hsub⟩ := hnode.2 0 (Nat.zero_le _)
    refine ⟨(page, 0) :: m_Stack, ?_, ?_, ready_of_lt hnode.numKeys_pos⟩
    · rw [pushFirst, if_pos hchild]
    · rw [hsub, List.nil_append]
      exact Rep.cons hnode (Nat.zero_le _) hheight hr
  | succ h ih =>
    obtain ⟨sub, hnode, rfl⟩ := hw.exists_node
    obtain ⟨fuel, rfl⟩ : ∃ f, fuel = f + 1 := ⟨fuel - 1, by omega⟩
    obtain ⟨hchild, child, childIds, hread, hsub⟩ := hnode.2 0 (Nat.zero_le _)
    have hrep := Rep.cons hnode (Nat.zero_le _) hheight hr
    have hroom : stackFull ((page, 0) :: m_Stack) = false := by
      rw [stackFull, decide_eq_false_iff_not, List.length_cons]
      omega
    have hfuel' : h < fuel := by omega
    obtain ⟨m_Stack', hpush, hrep', hready⟩ := ih hsub hfuel'
      (by rw [List.length_cons]; omega) hrep
    refine ⟨m_Stack', ?_, ?_, hready⟩
    · rw [pushFirst, if_neg hchild, hread]
      simp only [hroom, Bool.false_eq_true, if_false]
      exact hpush
    · rw [List.append_assoc]
      exact hrep'

/-- What one call of `Next` does. -/
theorem next_spec {entry : Entry} (hH : H < const_MaxStack - 1)
    (hr : Rep pages H m_Stack (entry :: entries)) (hready : Ready m_Stack) :
    (next pages m_Stack).1 = .ok entry ∧ Rep pages H (next pages m_Stack).2 entries ∧
      Ready (next pages m_Stack).2 := by
  generalize hall : entry :: entries = all at hr
  cases hr with
  | nil => cases hall
  | @cons h page wId sub m_Stack rest hnode hwId hheight hrest =>
    have hlt := hready.lt hwId
    have hget : page.keys[wId]? = some page.keys[wId] := List.getElem?_eq_getElem hlt
    rw [tailFrom_drop hget, List.cons_append, List.cons.injEq, List.append_assoc] at hall
    obtain ⟨rfl, rfl⟩ := hall
    have hrep := Rep.cons hnode hlt hheight hrest
    have hpush : ∃ m_Stack', pushFirst pages const_MaxStack (page.getChildPage (wId + 1))
        ((page, wId + 1) :: m_Stack) = (.ok (), m_Stack') ∧ Rep pages H m_Stack'
          (sub (wId + 1) ++ (tailFrom sub (wId + 1) (page.keys.drop (wId + 1)) ++ rest)) := by
      cases h with
      | zero =>
        obtain ⟨hchild, hsub⟩ := hnode.2 (wId + 1) hlt
        refine ⟨(page, wId + 1) :: m_Stack, ?_, ?_⟩
        · rw [hchild]
          rfl
        · rw [hsub, List.nil_append]
          exact hrep
      | succ h =>
        obtain ⟨hchild, child, childIds, hread, hsub⟩ := hnode.2 (wId + 1) hlt
        have hroom : stackFull ((page, wId + 1) :: m_Stack) = false := by
          rw [stackFull, decide_eq_false_iff_not, List.length_cons]
          omega
        have hMax : const_MaxStack = 1023 + 1 := rfl
        have hfuel : h < 1023 := by omega
        obtain ⟨m_Stack', hpush, hrep', -⟩ := pushFirst_spec hsub hfuel
          (by rw [List.length_cons]; omega) hH hrep
        refine ⟨m_Stack', ?_, hrep'⟩
        rw [hMax, pushFirst, if_neg hchild, hread]
        simp only [hroom, Bool.false_eq_true, if_false]
        exact hpush
    obtain ⟨m_Stack', hpush, hrep'⟩ := hpush
    have hnext : next pages ((page, wId) :: m_Stack) =
        (.ok page.keys[wId], popFinished m_Stack') := by
      rw [next, hget]
      simp only [hpush]
    rw [hnext]
    exact ⟨rfl, popFinished_rep hrep'⟩

/-- All calls of `Next`, from what one of them does. -/
theorem yields_of_rep (hH : H < const_MaxStack - 1) (hr : Rep pages H m_Stack entries)
    (hready : Ready m_Stack) : Yields pages entries m_Stack := by
  induction entries generalizing m_Stack with
  | nil =>
    generalize hall : ([] : List Entry) = all at hr
    cases hr with
    | nil => rfl
    | @cons h page wId sub m_Stack rest hnode hwId hheight hrest =>
      have hlt := hready.lt hwId
      rw [tailFrom_drop (List.getElem?_eq_getElem hlt)] at hall
      cases hall
  | cons entry entries ih =>
    obtain ⟨hnext, hrep, hready'⟩ := next_spec hH hr hready
    exact ⟨hnext, ih hrep hready'⟩

/-! ### The start key -/

/-- What lies in front of the `p`-th child page and of its keys. -/
theorem exists_front (sub : ℕ → List Entry) (keys : List Entry) {p : ℕ} (hp : p ≤ keys.length) :
    ∃ front, sub 0 ++ tailFrom sub 0 keys = front ++ (sub p ++ tailFrom sub p (keys.drop p)) ∧
      (front = [] ∨ ∃ front' entry, front = front' ++ [entry] ∧ keys[p - 1]? = some entry ∧ 0 < p) := by
  induction p with
  | zero => exact ⟨[], rfl, Or.inl rfl⟩
  | succ p ih =>
    obtain ⟨front, hfront, -⟩ := ih (by omega)
    have hget : keys[p]? = some keys[p] := List.getElem?_eq_getElem (by omega)
    refine ⟨front ++ sub p ++ [keys[p]], ?_, Or.inr ⟨front ++ sub p, keys[p], rfl, hget, by omega⟩⟩
    rw [hfront, tailFrom_drop hget]
    simp only [List.append_assoc, List.cons_append, List.nil_append]

theorem SortedEntries.page_keys (hsorted : SortedEntries (sub 0 ++ tailFrom sub 0 page.keys)) :
    SortedEntries page.keys := by
  have hsub (i : ℕ) (keys : List Entry) : keys.Sublist (tailFrom sub i keys) := by
    induction keys generalizing i with
    | nil => exact List.Sublist.refl _
    | cons entry keys ih =>
      rw [tailFrom]
      exact ((ih (i + 1)).trans (List.sublist_append_right _ _)).cons_cons entry
  exact hsorted.sublist ((hsub 0 page.keys).trans (List.sublist_append_right _ _))

/-- Where the search on a page leaves the entries from the start key on. -/
theorem search_page {s : Key} (hs : s.1 ≠ [])
    (hsorted : SortedEntries (sub 0 ++ tailFrom sub 0 page.keys)) :
    ∃ p found, page.findKey s = .ok (found, p) ∧ p ≤ page.getNumKeys ∧
      (found = true → p < page.getNumKeys) ∧ SortedEntries (sub p) ∧
      fromStart (sub 0 ++ tailFrom sub 0 page.keys) (some s) =
        (if found then [] else fromStart (sub p) (some s)) ++
          tailFrom sub p (page.keys.drop p) := by
  obtain ⟨p, found, hfind, hp, hfound, hprobe⟩ := findKey_eq hsorted.page_keys hs
  obtain ⟨front, hfront, hlast⟩ := exists_front sub page.keys hp
  rw [hfront] at hsorted
  obtain ⟨hfrontSorted, hbackSorted, -⟩ := List.pairwise_append.mp hsorted
  obtain ⟨hsubSorted, htailSorted, hsubTail⟩ := List.pairwise_append.mp hbackSorted
  have hflip (a b : Key) : 0 < keyStrCompare a b ↔ keyStrCompare b a < 0 := by
    rw [keyStrCompare_neg a b]
    omega
  -- The front ends with a key in front of the start key.
  have hskip : fromStart front (some s) = [] := by
    rw [fromStart, List.filter_eq_nil_iff]
    intro entry hentry
    rw [decide_eq_true_eq, not_le, hflip]
    rcases hlast with rfl | ⟨front', last, rfl, hget, hpos⟩
    · cases hentry
    · have hls : keyStrCompare last.1 s < 0 := by
        have hgt := hprobe (p - 1) last hget
        rw [if_pos (by omega)] at hgt
        exact (hflip s last.1).mp (compare_gt_iff_gt.mp hgt)
      rcases List.mem_append.mp hentry with hentry | hentry
      · exact difference_trans
          ((List.pairwise_append.mp hfrontSorted).2.2 entry hentry last List.mem_cons_self) hls
      · rw [List.mem_singleton.mp hentry]
        exact hls
  -- What comes from the `p`-th key on is not in front of it.
  have hkeep : fromStart (tailFrom sub p (page.keys.drop p)) (some s) =
      tailFrom sub p (page.keys.drop p) := by
    rcases hp.lt_or_eq with hlt | heq
    · have hget : page.keys[p]? = some page.keys[p] := List.getElem?_eq_getElem hlt
      have hle : keyStrCompare s page.keys[p].1 ≤ 0 := by
        have hcompare := hprobe p page.keys[p] hget
        rw [if_neg (lt_irrefl p)] at hcompare
        split_ifs at hcompare
        · exact (compare_eq_iff_eq.mp hcompare).le
        · exact (compare_lt_iff_lt.mp hcompare).le
      rw [tailFrom_drop hget] at htailSorted ⊢
      rw [fromStart, List.filter_eq_self]
      intro entry hentry
      rw [decide_eq_true_eq]
      rcases List.mem_cons.mp hentry with rfl | hentry
      · exact hle
      · have hke := (List.pairwise_cons.mp htailSorted).1 entry hentry
        rcases hle.lt_or_eq with hlt | heq
        · exact (difference_trans hlt hke).le
        · rw [Subtype.ext (eq_of_difference char_injective s.2 page.keys[p].1.2 heq)]
          exact hke.le
    · rw [heq, IdxPage.getNumKeys, List.drop_length]
      rfl
  refine ⟨p, found, hfind, hp, hfound, hsubSorted, ?_⟩
  have hsplit : fromStart (front ++ (sub p ++ tailFrom sub p (page.keys.drop p))) (some s) =
      fromStart front (some s) ++ (fromStart (sub p) (some s) ++
        fromStart (tailFrom sub p (page.keys.drop p)) (some s)) := by
    simp only [fromStart, List.filter_append]
  rw [hfront, hsplit, hskip, hkeep, List.nil_append]
  cases found with
  | false => rfl
  | true =>
    -- The child page in front of the start key itself.
    have hlt := hfound rfl
    have hget : page.keys[p]? = some page.keys[p] := List.getElem?_eq_getElem hlt
    have heq := hprobe p page.keys[p] hget
    rw [if_neg (lt_irrefl p), if_pos ⟨rfl, rfl⟩] at heq
    have hkey := Subtype.ext
      (eq_of_difference char_injective s.2 page.keys[p].1.2 (compare_eq_iff_eq.mp heq))
    have hnone : fromStart (sub p) (some s) = [] := by
      rw [fromStart, List.filter_eq_nil_iff]
      intro entry hentry
      rw [decide_eq_true_eq, not_le, hflip, hkey]
      rw [tailFrom_drop hget] at hsubTail
      exact hsubTail entry hentry page.keys[p] List.mem_cons_self
    rw [hnone]
    rfl

/-- Looking for the start key from a page that is to be pushed. -/
theorem seek_spec {fuel : ℕ} {s : Key} (hs : s.1 ≠ []) (hw : WellFormed pages h page entries ids)
    (hsorted : SortedEntries entries) (hfuel : h < fuel) (hheight : m_Stack.length + h = H)
    (hr : Rep pages H m_Stack rest) :
    ∃ m_Stack', seek pages s fuel page m_Stack = (.ok (), m_Stack') ∧
      Rep pages H m_Stack' (fromStart entries (some s) ++ rest) ∧ Ready m_Stack' := by
  induction h generalizing page entries ids m_Stack rest fuel with
  | zero =>
    obtain ⟨sub, hnode, rfl⟩ := hw.exists_node
    obtain ⟨fuel, rfl⟩ : ∃ f, fuel = f + 1 := ⟨fuel - 1, by omega⟩
    obtain ⟨p, found, hfind, hp, hfound, -, hentries⟩ := search_page hs hsorted
    have hrep := Rep.cons hnode hp hheight hr
    obtain ⟨hchild, hsub⟩ := hnode.2 p hp
    rw [hentries, hsub, seek, hfind]
    cases found with
    | true => exact ⟨(page, p) :: m_Stack, rfl, hrep, ready_of_lt (hfound rfl)⟩
    | false =>
      obtain ⟨hpopped, hready⟩ := popFinished_rep hrep
      refine ⟨popFinished ((page, p) :: m_Stack), ?_, hpopped, hready⟩
      simp only [hchild, if_true]
  | succ h ih =>
    obtain ⟨sub, hnode, rfl⟩ := hw.exists_node
    obtain ⟨fuel, rfl⟩ : ∃ f, fuel = f + 1 := ⟨fuel - 1, by omega⟩
    obtain ⟨p, found, hfind, hp, hfound, hsubSorted, hentries⟩ := search_page hs hsorted
    have hrep := Rep.cons hnode hp hheight hr
    obtain ⟨hchild, child, childIds, hread, hsub⟩ := hnode.2 p hp
    rw [hentries, seek, hfind]
    cases found with
    | true => exact ⟨(page, p) :: m_Stack, rfl, hrep, ready_of_lt (hfound rfl)⟩
    | false =>
      have hfuel' : h < fuel := by omega
      obtain ⟨m_Stack', hseek, hrep', hready⟩ := ih hsub hsubSorted hfuel'
        (by rw [List.length_cons]; omega) hrep
      refine ⟨m_Stack', ?_, ?_, hready⟩
      · simp only [hchild, if_false, hread]
        exact hseek
      · simp only [Bool.false_eq_true, if_false, List.append_assoc]
        exact hrep'

/-! ### Enumerations -/

/-- A tree of height `h` has at least `2 ^ (h + 1) - 2` pages below its root. -/
theorem WellFormed.two_pow_le (hw : WellFormed pages h page entries ids) :
    2 ^ (h + 1) ≤ ids.length + 2 := by
  induction hw with
  | leaf page hkeys hchild => simp
  | node h page child sub ids hkeys hread hsub ih =>
    have hpos : 0 < page.getNumKeys := List.length_pos_iff.mpr hkeys
    obtain ⟨n, hn⟩ : ∃ n, page.getNumKeys = n + 1 := ⟨page.getNumKeys - 1, by omega⟩
    have h0 := ih 0 (Nat.zero_le _)
    have h1 := ih 1 hpos
    have hlength : (ids 0).length + (ids 1).length + 2 ≤ ((List.range (page.getNumKeys + 1)).flatMap
        fun i => page.getChildPage i :: ids i).length := by
      rw [hn, List.range_succ_eq_map, List.range_succ_eq_map]
      simp only [List.map_cons, List.flatMap_cons, List.length_append, List.length_cons,
        Nat.succ_eq_add_one, Nat.zero_add]
      omega
    rw [Nat.pow_succ]
    omega

/-- There are fewer page ids than a tree of height 32 would take. -/
theorem WellFormed.height_lt (hw : WellFormed pages h page entries ids) (hids : ids.Nodup) :
    h < const_MaxStack - 1 := by
  have hpow := hw.two_pow_le
  have hcount : ids.length ≤ 2 ^ 32 := by
    have hnodup : (ids.map UInt32.toNat).Nodup :=
      hids.map fun a b hab => UInt32.toNat_inj.mp hab
    have hrange : ids.map UInt32.toNat ⊆ List.range (2 ^ 32) := by
      intro n hn
      obtain ⟨id, -, rfl⟩ := List.mem_map.mp hn
      exact List.mem_range.mpr id.toNat_lt
    have hle := (List.subperm_of_subset hnodup hrange).length_le
    rwa [List.length_map, List.length_range] at hle
  by_contra hge
  have hbig : 2 ^ 34 ≤ 2 ^ (h + 1) := Nat.pow_le_pow_right (by decide) (by
    rw [const_MaxStack] at hge
    omega)
  omega

theorem fromStart_sublist (entries : List Entry) (pszStartKey : Option Key) :
    (fromStart entries pszStartKey).Sublist entries := by
  cases pszStartKey with
  | none => exact List.Sublist.refl _
  | some s => exact List.filter_sublist

/-- `Init` on a tree with keys. -/
theorem init_rep (hw : WellFormed pages h page entries ids) (hsorted : SortedEntries entries)
    (hh : h < const_MaxStack - 1) {pszStartKey : Option Key}
    (hstart : ∀ s ∈ pszStartKey, s.1 ≠ []) :
    ∃ m_Stack, init pages page pszStartKey = (.ok (), m_Stack) ∧
      Rep pages h m_Stack (fromStart entries pszStartKey) ∧ Ready m_Stack := by
  have hheight : ([] : Stack).length + h = h := Nat.zero_add h
  cases pszStartKey with
  | none =>
    have hfuel : h < const_MaxStack := lt_of_lt_of_le hh (Nat.sub_le _ _)
    obtain ⟨m_Stack, hpush, hrep, hready⟩ := pushFirst_spec hw hfuel hheight hh Rep.nil
    rw [List.append_nil] at hrep
    exact ⟨m_Stack, hpush, hrep, hready⟩
  | some s =>
    obtain ⟨m_Stack, hseek, hrep, hready⟩ := seek_spec (hstart s rfl) hw hsorted hh hheight Rep.nil
    rw [List.append_nil] at hrep
    exact ⟨m_Stack, hseek, hrep, hready⟩

theorem init_empty_start (pages : Pages) (pRoot : IdxPage) {s : Key} (hs : s.1 = []) :
    (init pages pRoot (some s)).1 = .error ERROR_INVALID_PARAMETER := by
  have hfind : pRoot.findKey s = .error ERROR_INVALID_PARAMETER := by
    rw [IdxPage.findKey, if_pos hs]
  have hMax : const_MaxStack - 1 = 1022 + 1 := rfl
  rw [init, hMax, seek, hfind]

/-- On an empty tree `Init` finds the end for a start key, and no end without one. -/
theorem enumerates_empty_iff {pRoot : IdxPage} (hkeys : pRoot.keys = [])
    (hchild : pRoot.getChildPage 0 = 0) (pszStartKey : Option Key) :
    Enumerates pages pRoot [] pszStartKey ↔ ∃ s, pszStartKey = some s ∧ s.1 ≠ [] := by
  cases pszStartKey with
  | none =>
    have hinit : init pages pRoot none = (.ok (), [(pRoot, 0)]) := by
      rw [init, hchild]
      rfl
    have hnext : (next pages [(pRoot, 0)]).1 = .error ERROR_INVALID_PARAMETER := by
      rw [next, hkeys]
      rfl
    constructor
    · intro henum
      have hend : (next pages (init pages pRoot none).2).1 = .error ERROR_NO_MORE_ITEMS := henum.2
      rw [hinit, hnext] at hend
      cases hend
    · rintro ⟨s, hs, -⟩
      cases hs
  | some s =>
    by_cases hs : s.1 = []
    · constructor
      · intro henum
        have hok := henum.1
        rw [init_empty_start pages pRoot hs] at hok
        cases hok
      · rintro ⟨t, ht, hne⟩
        rw [← Option.some.inj ht] at hne
        exact absurd hs hne
    · have hfind : pRoot.findKey s = .ok (false, 0) := by
        rw [IdxPage.findKey, if_neg hs, if_pos hkeys]
      have hempty : popFinished [(pRoot, 0)] = [] := by
        rw [popFinished, if_pos (by rw [IdxPage.getNumKeys, hkeys]; rfl)]
        rfl
      have hMax : const_MaxStack - 1 = 1022 + 1 := rfl
      have hinit : init pages pRoot (some s) = (.ok (), []) := by
        rw [init, hMax, seek, hfind]
        simp only [hchild, if_true, hempty]
      constructor
      · intro _
        exact ⟨s, rfl, hs⟩
      · intro _
        rw [Enumerates, hinit]
        exact ⟨rfl, rfl⟩

/-- Exactly when an iterator enumerates a B-tree: with a start key that is not empty, or with none on a
tree that is not empty. -/
theorem enumerates_iff {pRoot : IdxPage} (htree : IsBTree pages pRoot entries)
    (pszStartKey : Option Key) :
    Enumerates pages pRoot entries pszStartKey ↔
      (pszStartKey = none → entries ≠ []) ∧ ∀ s ∈ pszStartKey, s.1 ≠ [] := by
  rcases htree with ⟨hkeys, hchild, rfl⟩ | ⟨h, ids, hw, hids, hsorted⟩
  · rw [enumerates_empty_iff hkeys hchild]
    cases pszStartKey with
    | none => simp
    | some s => simp
  · have hentries : entries ≠ [] := by
      obtain ⟨sub, hnode, rfl⟩ := hw.exists_node
      obtain ⟨entry, keys, hkeys⟩ := List.exists_cons_of_ne_nil hnode.1
      rw [hkeys, tailFrom]
      simp
    constructor
    · intro henum
      constructor
      · exact fun _ => hentries
      · intro s hs hnil
        have hok := henum.1
        rw [hs, init_empty_start pages pRoot hnil] at hok
        cases hok
    · rintro ⟨-, hstart⟩
      have hh := hw.height_lt hids
      obtain ⟨m_Stack, hinit, hrep, hready⟩ := init_rep hw hsorted hh hstart
      rw [Enumerates, hinit]
      exact ⟨rfl, yields_of_rep hh hrep hready⟩

/-! A tree of two levels: the root with `b`, and the leaves with `a` and `c`. -/

def keyOf (c : UInt8) (hc : 0 ∉ [c]) : Entry := (⟨[c], hc⟩, 7)
def entryA : Entry := keyOf 0x61 (by decide)
def entryB : Entry := keyOf 0x62 (by decide)
def entryC : Entry := keyOf 0x63 (by decide)

def leafPage (entry : Entry) : IdxPage where
  keys := [entry]
  childPageMap := [0, 0]
  few := (by decide : 1 < 2 ^ 16)

def rootPage : IdxPage where
  keys := [entryB]
  childPageMap := [2, 3]
  few := by decide

def twoLevels : Pages := fun id =>
  if id = 2 then .ok (leafPage entryA) else .ok (leafPage entryC)

theorem enumerates_iff_twoLevels :
    Enumerates twoLevels rootPage [entryA, entryB, entryC] (some entryB.1) := by
  have hleaf (entry : Entry) : WellFormed twoLevels 0 (leafPage entry) [entry] [] :=
    WellFormed.leaf (leafPage entry) (by simp [leafPage]) fun i hi => by
      obtain rfl | rfl : i = 0 ∨ i = 1 := Nat.le_one_iff_eq_zero_or_eq_one.mp hi
      · rfl
      · rfl
  have htree : WellFormed twoLevels 1 rootPage _ _ :=
    WellFormed.node 0 rootPage (fun i => leafPage (if i = 0 then entryA else entryC))
      (fun i => if i = 0 then [entryA] else [entryC]) (fun _ => []) (by simp [rootPage])
      (fun i hi => by
        obtain rfl | rfl : i = 0 ∨ i = 1 := Nat.le_one_iff_eq_zero_or_eq_one.mp hi
        · exact ⟨by decide, rfl⟩
        · exact ⟨by decide, rfl⟩)
      fun i _ => by
        by_cases hi : i = 0
        · simpa [hi] using hleaf entryA
        · simpa [hi] using hleaf entryC
  apply (enumerates_iff (Or.inr ⟨1, _, htree, by decide, ?_⟩) (some entryB.1)).mpr
  · constructor
    · intro hnone
      cases hnone
    · intro s hs
      rw [← Option.some.inj hs]
      decide
  · unfold SortedEntries
    decide

/-- The root of an empty tree. -/
def emptyPage : IdxPage where
  keys := []
  childPageMap := [0]
  few := (by decide : 0 < 2 ^ 16)

/-- Without a start key, the first call of `Next` on an empty tree fails. -/
theorem not_enumerates_emptyPage :
    IsBTree twoLevels emptyPage [] ∧ ¬ Enumerates twoLevels emptyPage [] none ∧
      (next twoLevels (init twoLevels emptyPage none).2).1 = .error ERROR_INVALID_PARAMETER := by
  have hempty : Enumerates twoLevels emptyPage [] none ↔ _ := enumerates_empty_iff rfl rfl none
  have hnext : (next twoLevels (init twoLevels emptyPage none).2).1 =
      .error ERROR_INVALID_PARAMETER := rfl
  refine ⟨Or.inl ⟨rfl, rfl, rfl⟩, fun henum => ?_, hnext⟩
  obtain ⟨s, hs, -⟩ := hempty.mp henum
  cases hs

end NtAdmin.Wmi.Btr
