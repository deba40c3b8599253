import Mathlib.Data.List.InsertIdx
import NtAdmin.Wmi.Btr.KeyTokens
import NtAdmin.Wmi.Btr.TreeShape

/-! A page of btr.cpp through any sequence of added and removed keys: its keys are what was added
and not removed, in their order. -/
namespace NtAdmin.Wmi.Btr
open Lib Win32Error

variable {segs : List (UInt16 × List UInt8)} {seqs qs : List (List UInt16)}
  {keys toks : List (List UInt8)} {pszSearchKey key : List UInt8} {t : GrowingTable}

/-! ### Comparing with a coded key -/

theorem compareLoop_eq (pool : SIdxStringPool) (hkey : 0 ∉ pszSearchKey) (pszDecoded : List UInt8)
    (ids : List UInt16) :
    compareLoop pool pszSearchKey pszDecoded ids =
      difference char pszSearchKey
        (pszDecoded ++ ids.flatMap fun id => 0x5C :: pool.getStrById id) := by
  induction pszSearchKey generalizing pszDecoded ids with
  | nil =>
    cases pszDecoded with
    | nil => cases ids <;> rfl
    | cons d pszDecoded => rfl
  | cons c pszTrace ih =>
    have hc : c ≠ 0 := fun heq => hkey (heq ▸ List.mem_cons_self)
    have htrace : 0 ∉ pszTrace := fun hmem => hkey (List.mem_cons_of_mem c hmem)
    have hvalue : char c - char 0 ≠ 0 := fun h => hc (char_injective (Int.sub_eq_zero.mp h))
    cases pszDecoded with
    | cons d pszDecoded =>
      simp only [compareLoop, nextCoded, hc, ne_eq, not_false_eq_true, and_true, ih htrace,
        List.cons_append, difference]
    | nil =>
      cases ids with
      | nil =>
        simp only [compareLoop, nextCoded, hvalue, false_and, if_false, List.flatMap_nil,
          List.append_nil, difference]
      | cons id ids =>
        simp only [compareLoop, nextCoded, hc, ne_eq, not_false_eq_true, and_true, ih htrace,
          List.nil_append, List.flatMap_cons, List.cons_append, difference]

theorem decode_cons (id : UInt16) (ids : List UInt16) :
    decode segs (id :: ids) =
      stringOf segs id ++ ids.flatMap fun id => 0x5C :: stringOf segs id := by
  have hjoin := joinTokens_cons (stringOf segs id) (ids.map (stringOf segs))
  rw [List.flatMap_map] at hjoin
  exact hjoin

/-- What a page stands for. -/
abbrev GrowingTable.Stores (t : GrowingTable) (segs : List (UInt16 × List UInt8))
    (keys : List (List UInt8)) : Prop :=
  Encodes t.pwKeyLookup ⟨t.pStrPool, t.pwKeyCodes, []⟩ segs keys []

namespace GrowingTable.Stores

theorem codedKey (h : t.Stores segs keys) {i : ℕ} {wStartOffs : UInt16}
    (hi : t.pwKeyLookup[i]? = some wStartOffs) :
    ∃ q, t.codesAt wStartOffs.toNat = q ∧ q ≠ [] ∧ (∀ id ∈ q, id.toNat < segs.length) ∧
      keys[i]? = some (decode segs q) := by
  obtain ⟨seqs, qs, hcoding, hkeys⟩ := h.coding
  obtain ⟨hlt, rfl⟩ := List.getElem?_eq_some_iff.mp hi
  have hlength := hcoding.lookup.length_eq
  have hkey := hcoding.lookup.get hlt (by omega)
  rw [List.get_eq_getElem, List.get_eq_getElem] at hkey
  refine ⟨qs[i], hcoding.codesAt hkey, (hcoding.size _ hkey.mem).1, hcoding.ids _ hkey.mem, ?_⟩
  rw [← hkeys, List.getElem?_map, List.getElem?_eq_getElem (by omega)]
  rfl

theorem count (h : t.Stores segs keys) : t.dwNumKeys = keys.length := by
  obtain ⟨seqs, qs, hcoding, hkeys⟩ := h.coding
  rw [← hkeys, List.length_map]
  exact hcoding.lookup.length_eq

/-- `GetKeyAt` gives the keys in their order. -/
theorem getKeyAt (h : t.Stores segs keys) {i : ℕ} (hi : keys[i]? = some key) (hsmall : i < 2 ^ 16) :
    t.getKeyAt (UInt16.ofNat i) = .ok key := by
  have hnat := toNat_count hsmall
  obtain ⟨hlt, -⟩ := List.getElem?_eq_some_iff.mp hi
  have hcount : t.pwKeyLookup.length = keys.length := h.count
  have hnot : ¬t.dwNumKeys ≤ (UInt16.ofNat i).toNat := by rw [hnat, h.count]; omega
  obtain ⟨q, hq, -, hids, hdecode⟩ := h.codedKey (List.getElem?_eq_getElem (by omega : i < _))
  rw [hi, Option.some.injEq] at hdecode
  rw [GrowingTable.getKeyAt, if_neg hnot, hnat, List.getD_eq_getElem _ _ (by omega), hq, hdecode]
  have hstrings : q.map t.pStrPool.toSIdxStringPool.getStrById = q.map (stringOf segs) :=
    List.map_congr_left fun id hid => h.pool.getStrById (hids id hid)
  rw [hstrings]
  rfl

theorem keyStrCompare (h : t.Stores segs keys) {i : ℕ} {wStartOffs : UInt16}
    (hi : t.pwKeyLookup[i]? = some wStartOffs) (hkey : 0 ∉ pszSearchKey) :
    ∃ key, keys[i]? = some key ∧
      t.keyStrCompare pszSearchKey wStartOffs = difference char pszSearchKey key := by
  obtain ⟨q, hq, hne, hids, hdecode⟩ := h.codedKey hi
  refine ⟨_, hdecode, ?_⟩
  cases q with
  | nil => exact absurd rfl hne
  | cons id ids =>
    have hid := h.pool.getStrById (hids id List.mem_cons_self)
    have hrest : (ids.flatMap fun id => 0x5C :: t.pStrPool.toSIdxStringPool.getStrById id) =
        ids.flatMap fun id => 0x5C :: stringOf segs id := by
      refine List.flatMap_congr fun id' hid' => ?_
      rw [h.pool.getStrById (hids id' (List.mem_cons_of_mem id hid'))]
    rw [GrowingTable.keyStrCompare, hq]
    dsimp only
    rw [compareLoop_eq _ hkey, hid, hrest, decode_cons]

/-- Keys have no terminator in them. -/
theorem nul_notMem (h : t.Stores segs keys) (hkey : key ∈ keys) : 0 ∉ key := by
  obtain ⟨i, hi⟩ := List.mem_iff_getElem?.mp hkey
  obtain ⟨hlt, -⟩ := List.getElem?_eq_some_iff.mp hi
  have hcount : t.pwKeyLookup.length = keys.length := h.count
  obtain ⟨q, -, hne, hids, hdecode⟩ := h.codedKey (List.getElem?_eq_getElem (by omega : i < _))
  rw [hi, Option.some.injEq] at hdecode
  have hstring (id : UInt16) (hid : id ∈ q) : 0 ∉ stringOf segs id := by
    rw [stringOf, List.getD_eq_getElem _ _ (hids id hid)]
    exact (h.pool.stored _ (List.getElem_mem _)).1
  cases q with
  | nil => exact absurd rfl hne
  | cons id ids =>
    rw [hdecode, decode_cons, List.mem_append, not_or]
    refine ⟨hstring id List.mem_cons_self, fun hmem => ?_⟩
    obtain ⟨id', hid', hmem'⟩ := List.mem_flatMap.mp hmem
    rcases List.mem_cons.mp hmem' with hslash | hmem'
    · cases hslash
    · exact hstring id' (List.mem_cons_of_mem id hid') hmem'

end GrowingTable.Stores

/-! ### Searching -/

/-- The order of the keys on a page. -/
def SortedPage (keys : List (List UInt8)) : Prop :=
  keys.Pairwise fun a b => difference char a b ≤ 0

theorem difference_le_trans {r s u : List UInt8} (hr : 0 ∉ r) (hs : 0 ∉ s) (hu : 0 ∉ u)
    (hrs : difference char r s ≤ 0) (hsu : difference char s u ≤ 0) :
    difference char r u ≤ 0 := by
  rcases Int.lt_or_eq_of_le hrs with hlt | heq
  · rcases Int.lt_or_eq_of_le hsu with hlt' | heq'
    · exact (difference_trans hlt hlt').le
    · rw [← eq_of_difference char_injective hs hu heq']
      exact hrs
  · rw [eq_of_difference char_injective hr hs heq]
    exact hsu

/-- `FindKey` tells whether the key is there, and a position that keeps the order. -/
theorem findKey_spec (h : t.Stores segs keys) (hsorted : SortedPage keys) (hkey : 0 ∉ key)
    (hne : key ≠ []) :
    ∃ found i, t.findKey key = .ok (found, i) ∧ i ≤ keys.length ∧ (found = true ↔ key ∈ keys) ∧
      (∀ k ∈ keys.take i, difference char k key ≤ 0) ∧
      ∀ k ∈ keys.drop i, difference char key k ≤ 0 := by
  have hcount : t.pwKeyLookup.length = keys.length := h.count
  have hcount' : t.dwNumKeys = t.pwKeyLookup.length := rfl
  rw [GrowingTable.findKey, if_neg hne]
  split_ifs with hempty
  · rw [hcount', hcount] at hempty
    obtain rfl := List.length_eq_zero_iff.mp hempty
    exact ⟨false, 0, rfl, Nat.le_refl 0, by simp, by simp, by simp⟩
  have hle {i j : ℕ} {a b : List UInt8} (hij : i < j) (ha : keys[i]? = some a)
      (hb : keys[j]? = some b) : difference char a b ≤ 0 := by
    obtain ⟨hi, rfl⟩ := List.getElem?_eq_some_iff.mp ha
    obtain ⟨hj, rfl⟩ := List.getElem?_eq_some_iff.mp hb
    exact List.pairwise_iff_getElem.mp hsorted i j hi hj hij
  have hnul {i : ℕ} {a : List UInt8} (ha : keys[i]? = some a) : 0 ∉ a :=
    h.nul_notMem (List.mem_of_getElem? ha)
  have hprobes (i j : ℕ) (x y : UInt16) (hij : i < j) (hx : t.pwKeyLookup[i]? = some x)
      (hy : t.pwKeyLookup[j]? = some y) :
      (compare (t.keyStrCompare key x) 0 = .lt → compare (t.keyStrCompare key y) 0 = .lt) ∧
        (compare (t.keyStrCompare key y) 0 = .gt → compare (t.keyStrCompare key x) 0 = .gt) := by
    obtain ⟨a, ha, hax⟩ := h.keyStrCompare hx hkey
    obtain ⟨b, hb, hby⟩ := h.keyStrCompare hy hkey
    have hab := hle hij ha hb
    rw [hax, hby, compare_lt_iff_lt, compare_lt_iff_lt, compare_gt_iff_gt, compare_gt_iff_gt]
    constructor
    · intro hlt
      by_contra hnot
      have hba : difference char b key ≤ 0 := by rw [difference_neg]; omega
      have hak := difference_le_trans (hnul ha) (hnul hb) hkey hab hba
      rw [difference_neg] at hak
      omega
    · intro hgt
      by_contra hnot
      have hka : difference char key a ≤ 0 := by omega
      have hkb := difference_le_trans hkey (hnul ha) (hnul hb) hka hab
      omega
  have hoffset {j : ℕ} {k : List UInt8} (hj : keys[j]? = some k) :
      ∃ x, t.pwKeyLookup[j]? = some x ∧ t.keyStrCompare key x = difference char key k := by
    obtain ⟨hlt, -⟩ := List.getElem?_eq_some_iff.mp hj
    have hx := List.getElem?_eq_getElem (show j < t.pwKeyLookup.length by omega)
    obtain ⟨k', hk', hcompare⟩ := h.keyStrCompare hx hkey
    rw [hj, Option.some.injEq] at hk'
    exact ⟨_, hx, by rw [hcompare, hk']⟩
  have htake {i : ℕ} {k : List UInt8} (hk : k ∈ keys.take i) : ∃ j < i, keys[j]? = some k := by
    obtain ⟨j, hj⟩ := List.mem_iff_getElem?.mp hk
    rw [List.getElem?_take] at hj
    split_ifs at hj with hji
    exact ⟨j, hji, hj⟩
  have hdrop {i : ℕ} {k : List UInt8} (hk : k ∈ keys.drop i) : ∃ j, i ≤ j ∧ keys[j]? = some k := by
    obtain ⟨j, hj⟩ := List.mem_iff_getElem?.mp hk
    rw [List.getElem?_drop] at hj
    exact ⟨i + j, Nat.le_add_right i j, hj⟩
  rcases binarySearch_all (Nat.le_of_eq hcount'.symm) hprobes with
    ⟨i, x, hrun, hx, heq⟩ | ⟨i, hi, hrun, hbelow, habove⟩
  · obtain ⟨k, hk, hcompare⟩ := h.keyStrCompare hx hkey
    rw [hcompare, compare_eq_iff_eq] at heq
    obtain rfl := eq_of_difference char_injective hkey (hnul hk) heq
    obtain ⟨hlt, -⟩ := List.getElem?_eq_some_iff.mp hk
    refine ⟨true, i, congrArg _ hrun, hlt.le, ?_, ?_, ?_⟩
    · exact ⟨fun _ => List.mem_of_getElem? hk, fun _ => rfl⟩
    · intro k hmem
      obtain ⟨j, hj, hkj⟩ := htake hmem
      exact hle hj hkj hk
    · intro k hmem
      obtain ⟨j, hj, hkj⟩ := hdrop hmem
      rcases Nat.eq_or_lt_of_le hj with rfl | hj
      · rw [hk, Option.some.injEq] at hkj
        rw [← hkj, difference_self]
      · exact hle hj hk hkj
  · have hbelow' {k : List UInt8} (hmem : k ∈ keys.take i) : 0 < difference char key k := by
      obtain ⟨j, hj, hkj⟩ := htake hmem
      obtain ⟨x, hx, hcompare⟩ := hoffset hkj
      have hgt := hbelow j x hj hx
      rwa [hcompare, compare_gt_iff_gt] at hgt
    have habove' {k : List UInt8} (hmem : k ∈ keys.drop i) : difference char key k < 0 := by
      obtain ⟨j, hj, hkj⟩ := hdrop hmem
      obtain ⟨x, hx, hcompare⟩ := hoffset hkj
      have hlt := habove j x hj hx
      rwa [hcompare, compare_lt_iff_lt] at hlt
    refine ⟨false, i, congrArg _ hrun, hcount ▸ hi, ?_, ?_, fun k hk => (habove' hk).le⟩
    · constructor
      · exact fun hfalse => absurd hfalse Bool.false_ne_true
      · intro hmem
        rw [← List.take_append_drop i keys] at hmem
        have hself : difference char key key = 0 := difference_self key
        rcases List.mem_append.mp hmem with hmem | hmem
        · exact absurd hself (hbelow' hmem).ne'
        · exact absurd hself (habove' hmem).ne
    · intro k hmem
      have hlt := hbelow' hmem
      rw [difference_neg]
      omega

/-! ### Adding a key -/

/-- The page has these keys in order, takes no more memory than a new pool has, and its arrays have
room for what is used. -/
structure Page (t : GrowingTable) (segs : List (UInt16 × List UInt8)) (keys : List (List UInt8)) :
    Prop where
  stores : t.Stores segs keys
  sorted : SortedPage keys
  fits : t.requiredPageMemory ≤ const_DefaultPoolSize
  lookupRoom : t.dwNumKeys ≤ t.dwKeyLookupTotalSize
  lookup_pos : 0 < t.dwKeyLookupTotalSize
  codesRoom : t.pwKeyCodes.length ≤ t.dwKeyCodesTotalSize
  userData : t.pdwUserData.length = t.dwNumKeys
  childPageMap : t.pdwChildPageMap.length = t.dwNumKeys + 1

/-- The strings of the pool by their numbers. -/
def GrowingTable.strings (t : GrowingTable) : List (List UInt8) :=
  t.pStrPool.pwOffsets.map (stringAt t.pStrPool.stringPool)

theorem strings_eq (h : t.Stores segs keys) : t.strings = segs.map Prod.snd := by
  rw [GrowingTable.strings, h.pool.offsets, List.map_map]
  exact List.map_congr_left fun seg hseg => (h.pool.stored seg hseg).stringAt

/-- What a page needs with a key more. -/
def GrowingTable.memoryWith (t : GrowingTable) (toks : List (List UInt8)) : ℕ :=
  t.requiredPageMemory + (sizeofWORD + sizeofDWORD + sizeofDWORD) +
    sizeofWORD * (toks.length + 1) + newStringCost t.strings toks

theorem requiredPageMemory_eq (t : GrowingTable) :
    t.requiredPageMemory =
      poolCost t.pStrPool + 10 * t.dwNumKeys + 2 * t.pwKeyCodes.length + 50 := by
  simp only [GrowingTable.requiredPageMemory, poolCost, sizeofWORD, sizeofDWORD]
  omega

theorem length_insert {α : Type} (xs : List α) (i : ℕ) (x : α) :
    (xs.take i ++ x :: xs.drop i).length = xs.length + 1 := by
  rw [List.length_append, List.length_cons, ← Nat.add_assoc, ← List.length_append,
    List.take_append_drop]

/-- Storing a key does not write behind an array. -/
theorem store_spec {st : Tokens} {size i : ℕ} (dwUserData behind : UInt32)
    (hcodes : st.pwKeyCodes.length ≤ t.dwKeyCodesTotalSize) (hi : i ≤ t.dwNumKeys)
    (hsize : t.dwNumKeys < size) :
    ∃ t', t.store st size i dwUserData behind = some t' ∧
      t'.pwKeyLookup = t.pwKeyLookup.take i ++
        UInt16.ofNat st.pwKeyCodes.length :: t.pwKeyLookup.drop i ∧
      t'.pwKeyCodes = st.pwKeyCodes ++ UInt16.ofNat st.pwTokenIDs.length :: st.pwTokenIDs ∧
      t'.pStrPool = st.pStrPool ∧ t'.dwKeyLookupTotalSize = size ∧
      t'.pwKeyCodes.length ≤ t'.dwKeyCodesTotalSize ∧
      t'.pdwUserData.length = t.pdwUserData.length + 1 ∧
      t'.pdwChildPageMap.length = t.pdwChildPageMap.length + 1 := by
  have hroom : st.pwKeyCodes.length + (st.pwTokenIDs.length + 1) ≤
      if t.dwKeyCodesTotalSize - st.pwKeyCodes.length < st.pwTokenIDs.length + 1 then
        t.dwKeyCodesTotalSize * 2 + st.pwTokenIDs.length + 1 else t.dwKeyCodesTotalSize := by
    split_ifs <;> omega
  refine ⟨_, if_pos ⟨hroom, hi, hsize⟩, rfl, rfl, rfl, rfl, ?_, length_insert _ _ _, ?_⟩
  · dsimp only
    rw [List.length_append, List.length_cons]
    exact hroom
  · dsimp only
    split_ifs
    · rw [List.length_append]
      rfl
    · exact length_insert _ _ _

theorem addKey_spec {i : ℕ} (h : Page t segs keys) (htoks : ValidTokens toks)
    (hfit : t.memoryWith toks ≤ const_DefaultPoolSize) (hi : i ≤ keys.length)
    (hbelow : ∀ k ∈ keys.take i, difference char k (joinTokens toks) ≤ 0)
    (habove : ∀ k ∈ keys.drop i, difference char (joinTokens toks) k ≤ 0)
    (dwUserData behind : UInt32) :
    ∃ t' segs', t.addKey (joinTokens toks) i dwUserData behind = some (.ok (), t') ∧
      Page t' segs' (keys.take i ++ joinTokens toks :: keys.drop i) := by
  have hpage : const_DefaultPoolSize < 2 ^ 14 := by decide
  rw [GrowingTable.memoryWith, strings_eq h.stores, requiredPageMemory_eq] at hfit
  simp only [sizeofWORD, sizeofDWORD] at hfit
  have hcount : t.dwNumKeys = keys.length := h.stores.count
  obtain ⟨st, segs', hadd, henc, hcodes, hcost⟩ := addTokens_spec h.stores
    (fun tok htok => (htoks.token tok htok).2.1) (by dsimp only; omega)
  dsimp only at hcodes hcost
  rw [List.nil_append] at henc
  obtain ⟨seqs, qs, hcoding, hkeys⟩ := henc.coding
  have hids := congrArg List.length henc.tokens
  rw [List.length_map] at hids
  have hidsNe : st.pwTokenIDs ≠ [] := fun heq => htoks.nonempty (by rw [← henc.tokens, heq]; rfl)
  have hnewCoding := hcoding.insert i hidsNe (hids ▸ htoks.count) henc.ids (by omega)
  have hdecode : decode segs' st.pwTokenIDs = joinTokens toks := by
    rw [decode, henc.tokens]
    rfl
  obtain ⟨size, hsize⟩ : ∃ size, size = if t.dwKeyLookupTotalSize = t.dwNumKeys then
      t.dwKeyLookupTotalSize * 2 else t.dwKeyLookupTotalSize := ⟨_, rfl⟩
  have hlookupRoom : t.dwNumKeys < size := by
    have hroom := h.lookupRoom
    have hpos := h.lookup_pos
    rw [hsize]
    split_ifs <;> omega
  obtain ⟨t', hstore, hlookup, hcodes', hpool, hsize', hcodesRoom, huser, hchild⟩ :=
    store_spec dwUserData behind (hcodes.trans_le h.codesRoom) (hcount ▸ hi) hlookupRoom
  have hnum : t'.dwNumKeys = t.dwNumKeys + 1 := by
    rw [GrowingTable.dwNumKeys, hlookup, length_insert]
    rfl
  have hlength : t'.pwKeyCodes.length = t.pwKeyCodes.length + (toks.length + 1) := by
    rw [hcodes', List.length_append, List.length_cons, hids, hcodes]
  refine ⟨t', segs', ?_, ⟨⟨?_, ?_, ?_, List.forall_mem_nil _, rfl⟩,
    pairwise_middle ?_ hbelow habove, ?_, ?_, ?_, hcodesRoom, ?_, ?_⟩⟩
  · rw [GrowingTable.addKey, if_neg (joinTokens_ne_nil htoks), parseIntoTokens_join htoks]
    simp only [hadd, Option.bind_eq_bind, Option.bind_some, ← hsize, hstore]
    rfl
  · rw [hpool]
    exact henc.room
  · rw [hpool]
    exact henc.pool
  · refine ⟨seqs ++ [st.pwTokenIDs], qs.take i ++ st.pwTokenIDs :: qs.drop i, ?_, ?_⟩
    · rw [hlookup, hcodes']
      exact hnewCoding
    · rw [List.map_append, List.map_cons, List.map_take, List.map_drop, hkeys, hdecode]
  · rw [List.take_append_drop]
    exact h.sorted
  · rw [requiredPageMemory_eq, hnum, hlength, hpool]
    omega
  · rw [hnum, hsize']
    exact hlookupRoom
  · rw [hsize']
    omega
  · rw [huser, h.userData, hnum]
  · rw [hchild, h.childPageMap, hnum]

/-! ### Removing keys and strings -/

theorem toNat_adjustCode_down {wID : ℕ} {id : UInt16} (hne : id.toNat ≠ wID) :
    (adjustCode wID (-1) id).toNat = if wID ≤ id.toNat then id.toNat - 1 else id.toNat := by
  rw [adjustCode]
  split_ifs with hle
  · have hlt := id.toNat_lt
    have hint : UInt16.ofInt ((id.toNat : ℤ) + -1) = UInt16.ofNat (id.toNat - 1) := by
      rw [UInt16.ofInt]
      congr 1
      omega
    rw [hint, toNat_count (by omega)]
  · rfl

theorem toNat_adjustCode_last {wID : ℕ} {id : UInt16} (hlt : id.toNat < wID) (nAdjustment : ℤ) :
    adjustCode wID nAdjustment id = id := if_neg (by omega)

/-- Deleting a string keeps the strings of the other numbers. -/
theorem renumbers_delete {u v : List (UInt16 × List UInt8)} {doomed : UInt16 × List UInt8}
    {id : UInt16} (hid : id.toNat < (u ++ doomed :: v).length) (hne : id.toNat ≠ u.length) :
    Renumbers (adjustCode u.length (if v.length = 0 then 0 else -1)) (u ++ doomed :: v)
      ((u ++ v).map (moved doomed)) id := by
  rw [List.length_append, List.length_cons] at hid
  have hdown : (adjustCode u.length (if v.length = 0 then 0 else -1) id).toNat =
      if u.length ≤ id.toNat then id.toNat - 1 else id.toNat := by
    by_cases hv : v.length = 0
    · have hlt : id.toNat < u.length := by omega
      rw [toNat_adjustCode_last hlt, if_neg (by omega)]
    · rw [if_neg hv, toNat_adjustCode_down hne]
  have hlt : (adjustCode u.length (if v.length = 0 then 0 else -1) id).toNat < (u ++ v).length := by
    rw [hdown, List.length_append]
    split_ifs <;> omega
  constructor
  · rwa [List.length_map]
  · have hmove (k : ℕ) (hk : k < (u ++ v).length) :
        (((u ++ v).map (moved doomed)).getD k (0, [])).2 = ((u ++ v).getD k (0, [])).2 := by
      rw [List.getD_eq_getElem _ _ (by rwa [List.length_map]), List.getElem_map,
        List.getD_eq_getElem _ _ hk]
      rfl
    rw [stringOf, hmove _ hlt, stringOf, ← getD_insert _ doomed, hdown]
    congr 2
    split_ifs <;> omega

theorem zapPage_spec (h : Page t segs []) : Page t.zapPage [] [] where
  stores := {
    room := ⟨Nat.zero_le _, h.stores.room.offsets_pos, h.stores.room.pool⟩
    pool := ⟨rfl, List.forall_mem_nil _, List.Pairwise.nil, List.Pairwise.nil⟩
    coding := ⟨[], [], ⟨rfl, List.forall_mem_nil _, List.forall_mem_nil _, List.Forall₂.nil,
      List.nodup_nil⟩, rfl⟩
    ids := List.forall_mem_nil _
    tokens := rfl }
  sorted := List.Pairwise.nil
  fits := by
    have hzap : t.zapPage.requiredPageMemory = 50 := rfl
    rw [hzap]
    decide
  lookupRoom := Nat.zero_le _
  lookup_pos := h.lookup_pos
  codesRoom := Nat.zero_le _
  userData := rfl
  childPageMap := by
    have hchild := h.childPageMap
    have hzap : t.zapPage.pdwChildPageMap = t.pdwChildPageMap.take 1 := rfl
    have hnum : t.zapPage.dwNumKeys = 0 := rfl
    rw [hzap, hnum, List.length_take]
    omega

/-- Without strings, codes or lookup there are no keys. -/
theorem keys_eq_nil (h : t.Stores segs keys)
    (hempty : t.pStrPool.dwNumStrings = 0 ∨ t.pwKeyCodes.length = 0 ∨ t.dwNumKeys = 0) :
    keys = [] := by
  have hcount : t.pwKeyLookup.length = keys.length := h.count
  by_contra hne
  obtain ⟨seqs, qs, hcoding, hkeys⟩ := h.coding
  obtain ⟨q, hq⟩ : ∃ q, q ∈ qs := by
    refine List.exists_mem_of_ne_nil qs fun heq => hne ?_
    rw [← hkeys, heq]
    rfl
  have hseq := hcoding.mem_seqs hq
  rcases hempty with hstrings | hcodes | hnum
  · have hsegs := h.pool.length
    dsimp only at hsegs
    obtain ⟨id, hid⟩ := List.exists_mem_of_ne_nil q (hcoding.size q hseq).1
    have hlt := hcoding.ids q hseq id hid
    omega
  · obtain ⟨pre, post, rfl⟩ := List.append_of_mem hseq
    have hlength := congrArg List.length hcoding.codes
    rw [encode_append, encode_cons] at hlength
    simp only [List.length_append, List.length_cons] at hlength hcodes
    omega
  · have hzero : t.pwKeyLookup.length = 0 := hnum
    exact hne (List.length_eq_zero_iff.mp (by omega))

theorem cleanupLoop_spec {fuel : ℕ} (h : Page t segs keys) (hfuel : segs.length < fuel) :
    ∃ t' segs', GrowingTable.cleanupLoop fuel t = some t' ∧ Page t' segs' keys := by
  induction fuel generalizing t segs with
  | zero => omega
  | succ fuel ih =>
    rw [GrowingTable.cleanupLoop]
    split_ifs with hempty hall
    · obtain rfl := keys_eq_nil h.stores hempty
      exact ⟨t.zapPage, [], rfl, zapPage_spec h⟩
    · split
      · exact ⟨t, segs, rfl, h⟩
      · next i hfind =>
        obtain ⟨seqs, qs, hcoding, hkeys⟩ := h.stores.coding
        dsimp only at hcoding
        have hsegs := h.stores.pool.length
        have hpage : const_DefaultPoolSize < 2 ^ 14 := by decide
        have hfits := h.fits
        rw [requiredPageMemory_eq, poolCost, sizeofWORD] at hfits
        have hused := List.find?_some hfind
        have hi : i < segs.length := by
          have hrange := List.mem_range.mp (List.mem_of_find?_eq_some hfind)
          dsimp only at hsegs
          omega
        have hsize (q : List UInt16) (hq : q ∈ seqs) := (hcoding.size q hq).2
        rw [hcoding.codes, used_encode hsize] at hused
        have hfree (q : List UInt16) (hq : q ∈ seqs) (id : UInt16) (hid : id ∈ q) :
            id.toNat ≠ i := by
          intro heq
          have hmem : UInt16.ofNat i ∈ seqs.flatten := by
            rw [← heq, UInt16.ofNat_toNat]
            exact List.mem_flatten.mpr ⟨q, hq, hid⟩
          simp [hmem] at hused
        obtain ⟨u, doomed, v, rfl, rfl⟩ : ∃ u doomed v, segs = u ++ doomed :: v ∧ u.length = i :=
          ⟨segs.take i, segs[i], segs.drop (i + 1), by
            rw [← List.drop_eq_getElem_cons hi, List.take_append_drop], List.length_take_of_le hi.le⟩
        obtain ⟨p', hdelete, hroom, hpool, hpoolUsed, hstrings⟩ :=
          deleteStr_spec h.stores.room h.stores.pool (by dsimp only; omega)
        dsimp only at hdelete hpoolUsed hstrings
        obtain ⟨hcoding', hkeys'⟩ := hcoding.renumber fun q hq id hid =>
          renumbers_delete (hcoding.ids q hq id hid) (hfree q hq id hid)
        have hadjust := adjust_encode u.length (if v.length = 0 then 0 else -1) hsize
        rw [← hcoding.codes] at hadjust
        rw [← hadjust] at hcoding'
        have hcodes : (adjustKeyCodes u.length (if v.length = 0 then 0 else -1) 0
            t.pwKeyCodes).length = t.pwKeyCodes.length := by
          rw [hadjust, length_encode_map, ← hcoding.codes]
        rw [hdelete]
        have hnext : Page { t with
            pStrPool := p'
            pwKeyCodes := adjustKeyCodes u.length (if v.length = 0 then 0 else -1) 0
              t.pwKeyCodes } ((u ++ v).map (moved doomed)) keys := {
          stores := ⟨hroom, hpool, ⟨_, _, hcoding', hkeys'.trans hkeys⟩, List.forall_mem_nil _, rfl⟩
          sorted := h.sorted
          fits := by
            have hnum := h.fits
            rw [requiredPageMemory_eq, poolCost, sizeofWORD] at hnum ⊢
            dsimp only at hnum ⊢
            rw [hcodes]
            change p'.dwPoolUsed + p'.dwNumStrings * 2 + 10 * t.dwNumKeys + 2 * _ + 50 ≤ _
            omega
          lookupRoom := h.lookupRoom
          lookup_pos := h.lookup_pos
          codesRoom := hcodes.trans_le h.codesRoom
          userData := h.userData
          childPageMap := h.childPageMap }
        refine ih hnext ?_
        rw [List.length_map, List.length_append]
        rw [List.length_append, List.length_cons] at hfuel
        omega
    · exfalso
      obtain ⟨seqs, qs, hcoding, -⟩ := h.stores.coding
      dsimp only at hcoding
      refine hall ?_
      rw [hcoding.codes, used_encode fun q hq => (hcoding.size q hq).2, List.all_eq_true]
      intro id hid
      obtain ⟨q, hq, hid⟩ := List.mem_flatten.mp hid
      have hlt := hcoding.ids q hq id hid
      have hsegs := h.stores.pool.length
      dsimp only at hsegs
      exact decide_eq_true (by omega)

theorem removeKey_spec {i : ℕ} (h : Page t segs keys) (hi : i < t.dwNumKeys) :
    ∃ t' segs', t.removeKey i = some t' ∧ Page t' segs' (keys.eraseIdx i) := by
  obtain ⟨seqs, qs, hcoding, hkeys⟩ := h.stores.coding
  dsimp only at hcoding
  obtain ⟨seqs', hcoding'⟩ := hcoding.remove hi
  rw [GrowingTable.removeKey, if_pos hi]
  generalize hstart : t.pwKeyLookup.getD i 0 = doomed at hcoding' ⊢
  generalize hcount : t.pwKeyCodes.getD doomed.toNat 0 + 1 = wCount at hcoding' ⊢
  have hnum : t.dwNumKeys = t.pwKeyLookup.length := rfl
  have herase : (t.pwKeyLookup.eraseIdx i).length = t.dwNumKeys - 1 :=
    List.length_eraseIdx_of_lt hi
  have hcodes : (t.pwKeyCodes.take doomed.toNat ++
      t.pwKeyCodes.drop (doomed.toNat + wCount.toNat)).length ≤ t.pwKeyCodes.length := by
    rw [List.length_append, List.length_take, List.length_drop]
    omega
  have hchild := h.childPageMap
  have hchild' : (if t.dwNumKeys - i - 1 = 0 then t.pdwChildPageMap.dropLast
      else t.pdwChildPageMap.eraseIdx i).length = t.dwNumKeys - 1 + 1 := by
    split_ifs
    · rw [List.length_dropLast]
      omega
    · rw [List.length_eraseIdx_of_lt (by omega)]
      omega
  have hlookupRoom := h.lookupRoom
  have hfits := h.fits
  rw [requiredPageMemory_eq] at hfits
  refine cleanupLoop_spec {
    stores := ⟨h.stores.room, h.stores.pool, ⟨seqs', _, hcoding', ?_⟩, List.forall_mem_nil _, rfl⟩
    sorted := List.Pairwise.sublist (List.eraseIdx_sublist keys i) h.sorted
    fits := ?_
    lookupRoom := ?_
    lookup_pos := h.lookup_pos
    codesRoom := hcodes.trans h.codesRoom
    userData := ?_
    childPageMap := ?_ } ?_
  · rw [← List.eraseIdx_map, hkeys]
  · rw [requiredPageMemory_eq]
    simp only [GrowingTable.dwNumKeys, List.length_map, herase] at hfits ⊢
    omega
  · simp only [GrowingTable.dwNumKeys, List.length_map, herase] at hlookupRoom ⊢
    omega
  · rw [List.length_eraseIdx_of_lt (by rw [h.userData]; exact hi), h.userData]
    simp only [GrowingTable.dwNumKeys, List.length_map, herase]
  · change _ = ((t.pwKeyLookup.eraseIdx i).map _).length + 1
    rw [List.length_map, herase]
    exact hchild'
  · rw [h.stores.pool.length]
    exact Nat.lt_succ_self _

/-! ### Sequences of calls -/

/-- The pages that come from a new one by adding keys where `FindKey` says, by removing keys, and by
`Cleanup`. A key is added while the page then takes no more memory than a new pool has. That is 512
bytes more than a page of the file, for the key with which `InsertPhase2` makes a page overflow. -/
inductive Reachable : GrowingTable → Prop
  | create : Reachable createTable
  | addKey {t t' : GrowingTable} {toks : List (List UInt8)} {found : Bool} {wKeyID : ℕ}
      {dwUserData behind : UInt32} (h : Reachable t) (htoks : ValidTokens toks)
      (hfit : t.memoryWith toks ≤ const_DefaultPoolSize)
      (hfind : t.findKey (joinTokens toks) = .ok (found, wKeyID))
      (hadd : t.addKey (joinTokens toks) wKeyID dwUserData behind = some (.ok (), t')) :
      Reachable t'
  | removeKey {t t' : GrowingTable} {wID : ℕ} (h : Reachable t) (hid : wID < t.dwNumKeys)
      (hremove : t.removeKey wID = some t') : Reachable t'
  | cleanup {t t' : GrowingTable} (h : Reachable t) (hcleanup : t.cleanup = some t') : Reachable t'

theorem page_create : Page createTable [] [] where
  stores := {
    room := ⟨Nat.zero_le _, by decide, by decide⟩
    pool := ⟨rfl, List.forall_mem_nil _, List.Pairwise.nil, List.Pairwise.nil⟩
    coding := ⟨[], [], ⟨rfl, List.forall_mem_nil _, List.forall_mem_nil _, List.Forall₂.nil,
      List.nodup_nil⟩, rfl⟩
    ids := List.forall_mem_nil _
    tokens := rfl }
  sorted := List.Pairwise.nil
  fits := by decide
  lookupRoom := Nat.zero_le _
  lookup_pos := by decide
  codesRoom := Nat.zero_le _
  userData := rfl
  childPageMap := rfl

theorem joinTokens_nul (h : ValidTokens toks) : 0 ∉ joinTokens toks := by
  cases toks with
  | nil => exact absurd rfl h.nonempty
  | cons tok toks =>
    rw [joinTokens_cons, List.mem_append, not_or]
    refine ⟨(h.token tok List.mem_cons_self).2.1, fun hmem => ?_⟩
    obtain ⟨tok', htok', hmem'⟩ := List.mem_flatMap.mp hmem
    rcases List.mem_cons.mp hmem' with hslash | hmem'
    · cases hslash
    · exact (h.token tok' (List.mem_cons_of_mem tok htok')).2.1 hmem'

/-- Looking a key up and adding it where it was looked up. -/
theorem Page.add (h : Page t segs keys) (htoks : ValidTokens toks)
    (hfit : t.memoryWith toks ≤ const_DefaultPoolSize) (dwUserData behind : UInt32) :
    ∃ found i t' segs', t.findKey (joinTokens toks) = .ok (found, i) ∧ i ≤ keys.length ∧
      (found = true ↔ joinTokens toks ∈ keys) ∧
      t.addKey (joinTokens toks) i dwUserData behind = some (.ok (), t') ∧
      Page t' segs' (keys.take i ++ joinTokens toks :: keys.drop i) := by
  obtain ⟨found, i, hfind, hi, hfound, hbelow, habove⟩ :=
    findKey_spec h.stores h.sorted (joinTokens_nul htoks) (joinTokens_ne_nil htoks)
  obtain ⟨t', segs', hadd, hpage⟩ := addKey_spec h htoks hfit hi hbelow habove dwUserData behind
  exact ⟨found, i, t', segs', hfind, hi, hfound, hadd, hpage⟩

theorem Page.cleanup (h : Page t segs keys) :
    ∃ t' segs', t.cleanup = some t' ∧ Page t' segs' keys := by
  refine cleanupLoop_spec h ?_
  rw [h.stores.pool.length]
  exact Nat.lt_succ_self _

theorem Reachable.page (h : Reachable t) : ∃ segs keys, Page t segs keys := by
  induction h with
  | create => exact ⟨[], [], page_create⟩
  | addKey _ htoks hfit hfind hadd ih =>
    obtain ⟨segs, keys, hpage⟩ := ih
    obtain ⟨found, i, t', segs', hfind', -, -, hadd', hpage'⟩ := hpage.add htoks hfit _ _
    rw [hfind, Except.ok.injEq, Prod.mk.injEq] at hfind'
    rw [hfind'.2, hadd'] at hadd
    obtain rfl := (Prod.mk.inj (Option.some.inj hadd)).2
    exact ⟨segs', _, hpage'⟩
  | removeKey _ hid hremove ih =>
    obtain ⟨segs, keys, hpage⟩ := ih
    obtain ⟨t', segs', hremove', hpage'⟩ := removeKey_spec hpage hid
    rw [hremove', Option.some.injEq] at hremove
    exact ⟨segs', _, hremove ▸ hpage'⟩
  | cleanup _ hcleanup ih =>
    obtain ⟨segs, keys, hpage⟩ := ih
    obtain ⟨t', segs', hcleanup', hpage'⟩ := hpage.cleanup
    rw [hcleanup', Option.some.injEq] at hcleanup
    exact ⟨segs', _, hcleanup ▸ hpage'⟩

/-- `GetKeyAt` returns these keys, and they are in order. -/
structure HasKeys (t : GrowingTable) (keys : List (List UInt8)) : Prop where
  count : t.dwNumKeys = keys.length
  few : keys.length < 2 ^ 16
  getKeyAt : ∀ i key, keys[i]? = some key → t.getKeyAt (UInt16.ofNat i) = .ok key
  sorted : SortedPage keys

theorem Page.hasKeys (h : Page t segs keys) : HasKeys t keys := by
  have hcount := h.stores.count
  have hfits := h.fits
  have hpage : const_DefaultPoolSize < 2 ^ 14 := by decide
  rw [requiredPageMemory_eq] at hfits
  have hfew : keys.length < 2 ^ 16 := by omega
  refine ⟨hcount, hfew, fun i key hi => ?_, h.sorted⟩
  obtain ⟨hlt, -⟩ := List.getElem?_eq_some_iff.mp hi
  exact h.stores.getKeyAt hi (by omega)

/-- A page decodes to sorted keys. Adding a key where `FindKey` says puts it there, removing one takes
it out, and cleaning up changes none; all other keys stay as they are. -/
theorem reachable_keys (h : Reachable t) :
    ∃ keys, HasKeys t keys ∧
      (∀ toks, ValidTokens toks → t.memoryWith toks ≤ const_DefaultPoolSize →
        ∀ dwUserData behind, ∃ found i t', t.findKey (joinTokens toks) = .ok (found, i) ∧
          i ≤ keys.length ∧ (found = true ↔ joinTokens toks ∈ keys) ∧
          t.addKey (joinTokens toks) i dwUserData behind = some (.ok (), t') ∧
          HasKeys t' (keys.take i ++ joinTokens toks :: keys.drop i) ∧
          t'.getKeyAt (UInt16.ofNat i) = .ok (joinTokens toks)) ∧
      (∀ i < t.dwNumKeys, ∃ t', t.removeKey i = some t' ∧ HasKeys t' (keys.eraseIdx i)) ∧
      ∃ t', t.cleanup = some t' ∧ HasKeys t' keys := by
  obtain ⟨segs, keys, hpage⟩ := h.page
  refine ⟨keys, hpage.hasKeys, fun toks htoks hfit dwUserData behind => ?_, fun i hi => ?_, ?_⟩
  · obtain ⟨found, i, t', segs', hfind, hi, hfound, hadd, hpage'⟩ :=
      hpage.add htoks hfit dwUserData behind
    have hkeys := hpage'.hasKeys
    refine ⟨found, i, t', hfind, hi, hfound, hadd, hkeys, hkeys.getKeyAt i _ ?_⟩
    have hlength : (keys.take i).length = i := List.length_take_of_le hi
    rw [List.getElem?_append_right (Nat.le_of_eq hlength), hlength, Nat.sub_self]
    rfl
  · obtain ⟨t', segs', hremove, hpage'⟩ := removeKey_spec hpage hi
    exact ⟨t', hremove, hpage'.hasKeys⟩
  · obtain ⟨t', segs', hcleanup, hpage'⟩ := hpage.cleanup
    exact ⟨t', hcleanup, hpage'.hasKeys⟩

/-- A page with the key `ab\ab` and the user data 7. -/
def oneKeyTable : GrowingTable where
  pwKeyLookup := [0]
  pdwUserData := [7]
  pdwChildPageMap := [0, 0]
  pwKeyCodes := [2, 0, 0]
  pStrPool := ⟨⟨[0], [0x61, 0x62, 0]⟩, const_DefaultArray, const_DefaultPoolSize⟩
  dwKeyLookupTotalSize := const_DefaultArray
  dwKeyCodesTotalSize := const_DefaultArray

/-- The same page with the key `ac\ab` and the user data 9 behind it. -/
def twoKeyTable : GrowingTable where
  pwKeyLookup := [0, 3]
  pdwUserData := [7, 9]
  pdwChildPageMap := [0, 0, 0]
  pwKeyCodes := [2, 0, 0, 2, 1, 0]
  pStrPool := ⟨⟨[0, 3], [0x61, 0x62, 0, 0x61, 0x63, 0]⟩, const_DefaultArray, const_DefaultPoolSize⟩
  dwKeyLookupTotalSize := const_DefaultArray
  dwKeyCodesTotalSize := const_DefaultArray

theorem reachable_oneKeyTable : Reachable oneKeyTable := by
  have htoks : ValidTokens [[0x61, 0x62], [0x61, 0x62]] := ⟨by decide, by decide, by decide⟩
  have hfind : createTable.findKey (joinTokens [[0x61, 0x62], [0x61, 0x62]]) = .ok (false, 0) := rfl
  have hadd : createTable.addKey (joinTokens [[0x61, 0x62], [0x61, 0x62]]) 0 7 0 =
      some (.ok (), oneKeyTable) := rfl
  exact .addKey .create htoks (by decide) hfind hadd

theorem reachable_twoKeyTable : Reachable twoKeyTable := by
  have htoks : ValidTokens [[0x61, 0x63], [0x61, 0x62]] := ⟨by decide, by decide, by decide⟩
  have hfind : oneKeyTable.findKey (joinTokens [[0x61, 0x63], [0x61, 0x62]]) = .ok (false, 1) := rfl
  have hadd : oneKeyTable.addKey (joinTokens [[0x61, 0x63], [0x61, 0x62]]) 1 9 0 =
      some (.ok (), twoKeyTable) := rfl
  exact .addKey reachable_oneKeyTable htoks (by decide) hfind hadd

/-- The removal of the first key leaves the second. -/
theorem reachable_keys_twoKeyTable : ∃ first second, HasKeys twoKeyTable [first, second] ∧
    ∃ t', twoKeyTable.removeKey 0 = some t' ∧ HasKeys t' [second] := by
  obtain ⟨keys, hkeys, -, hremove, -⟩ := reachable_keys reachable_twoKeyTable
  obtain ⟨first, second, rfl⟩ := List.length_eq_two.mp hkeys.count.symm
  exact ⟨first, second, hkeys, hremove 0 (by decide)⟩

/-! ### Pages with their keys decoded

Adding keys to a page of the tree and removing them is what `AddKey` and `RemoveKey` do to the
arrays of the page. -/

section Decoded
variable {page page' : KeyPage} {key : Key}

/-- What `AddKey` does to the user data and the child pages. -/
theorem addKey_data {s : List UInt8} {i : ℕ} {dwUserData behind : UInt32}
    (h : t.addKey s i dwUserData behind = some (.ok (), t')) :
    t'.pdwUserData = t.pdwUserData.take i ++ dwUserData :: t.pdwUserData.drop i ∧
      t'.pdwChildPageMap = if t.dwNumKeys - i = 0 then t.pdwChildPageMap ++ [behind]
        else t.pdwChildPageMap.take i ++
          t.pdwChildPageMap.getD i 0 :: t.pdwChildPageMap.drop i := by
  unfold GrowingTable.addKey at h
  split_ifs at h
  · cases h
  all_goals
    dsimp only at h
    split at h
    · cases h
    · obtain ⟨r, -, h⟩ := Option.bind_eq_some_iff.mp h
      split at h
      · cases h
      · obtain ⟨u, hstore, h⟩ := Option.map_eq_some_iff.mp h
        obtain rfl := (Prod.mk.inj h).2
        unfold GrowingTable.store at hstore
        dsimp only at hstore
        obtain ⟨-, hstore⟩ := Option.ite_none_right_eq_some.mp hstore
        obtain rfl := Option.some.inj hstore
        exact ⟨rfl, rfl⟩

theorem cleanupLoop_data {fuel : ℕ} (h : GrowingTable.cleanupLoop fuel t = some t') :
    t'.pdwUserData = t.pdwUserData ∧ t'.pdwChildPageMap = t.pdwChildPageMap ∨
      t'.dwNumKeys = 0 ∧ t'.pdwUserData = [] ∧
        t'.pdwChildPageMap = t.pdwChildPageMap.take 1 := by
  induction fuel generalizing t with
  | zero => cases h
  | succ fuel ih =>
    rw [GrowingTable.cleanupLoop] at h
    split_ifs at h
    · obtain rfl := Option.some.inj h
      exact Or.inr ⟨rfl, rfl, rfl⟩
    · split at h
      · obtain rfl := Option.some.inj h
        exact Or.inl ⟨rfl, rfl⟩
      · have hrest := ih h
        exact hrest

/-- What the arrays of a page decode to: its keys with their user data, and its child pages. -/
structure Decodes (t : GrowingTable) (page : KeyPage) : Prop where
  stored : ∃ segs, Page t segs (page.keys.map fun entry => entry.1.1)
  userData : t.pdwUserData = page.keys.map Prod.snd
  childPageMap : t.pdwChildPageMap = page.childPageMap

namespace Decodes

theorem create (dwPageId : UInt32) : Decodes createTable (.create dwPageId) :=
  ⟨⟨[], page_create⟩, rfl, rfl⟩

theorem getNumKeys (h : Decodes t page) : t.dwNumKeys = page.getNumKeys := by
  obtain ⟨segs, hpage⟩ := h.stored
  rw [hpage.stores.count, List.length_map]
  rfl

/-- A key that neither page has is found missing at one place in both, and is added there. -/
theorem addKey (h : Decodes t page) (htoks : ValidTokens toks) (hkey : key.1 = joinTokens toks)
    (hfit : t.memoryWith toks ≤ const_DefaultPoolSize) (hmissing : ∀ e ∈ page.keys, e.1 ≠ key)
    (dwUserData : UInt32) :
    ∃ i t', t.findKey key.1 = .ok (false, i) ∧ page.findKey key = .ok (false, i) ∧
      t.addKey key.1 i dwUserData 0 = some (.ok (), t') ∧
      ∀ page', page.addKey key i dwUserData = .ok page' → Decodes t' page' := by
  obtain ⟨segs, hpage⟩ := h.stored
  have hne : key.1 ≠ [] := hkey ▸ joinTokens_ne_nil htoks
  obtain ⟨found, i, hfind, hi, hfound, hbelow, habove⟩ :=
    findKey_spec hpage.stores hpage.sorted key.2 hne
  have hnot : found = false := by
    refine Bool.eq_false_iff.mpr fun htrue => ?_
    obtain ⟨e, he, heq⟩ := List.mem_map.mp (hfound.mp htrue)
    exact hmissing e he (Subtype.ext heq)
  obtain rfl := hnot
  have hlength : (page.keys.take i).length = i :=
    List.length_take_of_le (by rwa [List.length_map] at hi)
  have hbefore : AllBefore (page.keys.take i) key := by
    intro e he
    refine lt_of_le_of_ne (hbelow e.1.1 ?_) fun heq => ?_
    · rw [← List.map_take]
      exact List.mem_map_of_mem he
    · exact hmissing e (List.mem_of_mem_take he) (eq_of_keyStrCompare heq)
  have hbehind : AllBehind key (page.keys.drop i) := by
    intro e he
    refine lt_of_le_of_ne (habove e.1.1 ?_) fun heq => ?_
    · rw [← List.map_drop]
      exact List.mem_map_of_mem he
    · exact hmissing e (List.mem_of_mem_drop he) (eq_of_keyStrCompare heq).symm
  have hfind' := KeyPage.findKey_missing hne (List.take_append_drop i page.keys).symm hbefore hbehind
  rw [hlength] at hfind'
  rw [hkey] at hbelow habove
  obtain ⟨t', segs', hadd, hpage'⟩ := addKey_spec hpage htoks hfit hi hbelow habove dwUserData 0
  rw [← hkey] at hadd hpage'
  obtain ⟨huserData, hchild⟩ := addKey_data hadd
  refine ⟨i, t', hfind, hfind', hadd, fun page' hadd' => ?_⟩
  unfold KeyPage.addKey at hadd'
  rw [if_neg hne, hkey, parseIntoTokens_join htoks] at hadd'
  dsimp only at hadd'
  split at hadd'
  · cases hadd'
  obtain rfl := Except.ok.inj hadd'
  refine ⟨⟨segs', ?_⟩, ?_, ?_⟩
  · rw [List.map_append, List.map_cons, List.map_take, List.map_drop]
    exact hpage'
  · rw [huserData, h.userData, List.map_append, List.map_cons, List.map_take, List.map_drop]
  · rw [hchild, h.childPageMap, h.getNumKeys]
    rfl

/-- A key is removed from both pages. -/
theorem removeKey (h : Decodes t page) {i : ℕ} (hi : i < page.getNumKeys) :
    ∃ t', t.removeKey i = some t' ∧ Decodes t' (page.removeKey i) := by
  obtain ⟨segs, hpage⟩ := h.stored
  have hcount := h.getNumKeys
  obtain ⟨t', segs', hremove, hpage'⟩ := removeKey_spec hpage (hcount ▸ hi)
  rw [List.eraseIdx_map] at hpage'
  have hcount' : t'.dwNumKeys = (page.keys.eraseIdx i).length :=
    hpage'.stores.count.trans (List.length_map _)
  have hloop := hremove
  rw [GrowingTable.removeKey, if_pos (hcount ▸ hi), GrowingTable.cleanup] at hloop
  refine ⟨t', hremove, ⟨segs', hpage'⟩, ?_, ?_⟩
  · change t'.pdwUserData = (page.keys.eraseIdx i).map Prod.snd
    rcases cleanupLoop_data hloop with ⟨huserData, -⟩ | ⟨hzero, hnil, -⟩
    · rw [huserData]
      change t.pdwUserData.eraseIdx i = _
      rw [h.userData, List.eraseIdx_map]
    · rw [hnil, List.eq_nil_of_length_eq_zero (hcount'.symm.trans hzero)]
      rfl
  · change t'.pdwChildPageMap = if page.getNumKeys - i - 1 = 0 then page.childPageMap.dropLast
      else page.childPageMap.eraseIdx i
    rw [← h.childPageMap, ← hcount]
    rcases cleanupLoop_data hloop with ⟨-, hchild⟩ | ⟨hzero, -, hchild⟩
    · exact hchild
    · have herase := hcount'.symm.trans hzero
      rw [List.length_eraseIdx_of_lt hi] at herase
      change page.getNumKeys - 1 = 0 at herase
      have hone : t.dwNumKeys - i - 1 = 0 := by omega
      have hlength := hpage.childPageMap
      refine hchild.trans (List.take_of_length_le ?_)
      dsimp only
      rw [if_pos hone, List.length_dropLast]
      omega

end Decodes
end Decoded

end NtAdmin.Wmi.Btr
