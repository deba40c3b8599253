import NtAdmin.Wmi.Btr.KeyCoding

/-! The keys that the pool and the codes of a page stand for, and adding the tokens of a key. -/
namespace NtAdmin.Wmi.Btr
open Lib Win32Error

variable {segs segs' : List (UInt16 × List UInt8)} {pwKeyLookup pwKeyCodes : List UInt16}
  {seqs qs : List (List UInt16)} {keys toks : List (List UInt8)} {tok : List UInt8}

/-- The string of a number. -/
def stringOf (segs : List (UInt16 × List UInt8)) (id : UInt16) : List UInt8 :=
  (segs.getD id.toNat (0, [])).2

/-- The key of a sequence of codes. -/
def decode (segs : List (UInt16 × List UInt8)) (q : List UInt16) : List UInt8 :=
  List.intercalate [0x5C] (q.map (stringOf segs))

theorem PoolHolds.getStrById {pool : SIdxStringPool} (h : PoolHolds pool segs) {id : UInt16}
    (hid : id.toNat < segs.length) : pool.getStrById id = stringOf segs id := by
  have hoffset : pool.pwOffsets.getD id.toNat 0 = segs[id.toNat].1 := by
    rw [h.offsets, List.getD_eq_getElem _ _ (by rwa [List.length_map]), List.getElem_map]
  rw [stringOf, List.getD_eq_getElem _ _ hid, SIdxStringPool.getStrById, hoffset]
  exact (h.stored _ (List.getElem_mem hid)).stringAt

/-- A new numbering of the strings that the codes use. -/
structure Renumbers (φ : UInt16 → UInt16) (segs segs' : List (UInt16 × List UInt8))
    (id : UInt16) : Prop where
  lt : (φ id).toNat < segs'.length
  string : stringOf segs' (φ id) = stringOf segs id

theorem decode_renumber {φ : UInt16 → UInt16} {q : List UInt16}
    (h : ∀ id ∈ q, Renumbers φ segs segs' id) : decode segs' (q.map φ) = decode segs q := by
  rw [decode, decode, List.map_map]
  exact congrArg _ (List.map_congr_left fun id hid => (h id hid).string)

/-- The keys stay the same when strings are numbered anew. -/
theorem Coding.renumber {φ : UInt16 → UInt16}
    (h : Coding pwKeyLookup pwKeyCodes segs.length seqs qs)
    (hφ : ∀ q ∈ seqs, ∀ id ∈ q, Renumbers φ segs segs' id) :
    Coding pwKeyLookup (encode (seqs.map (List.map φ))) segs'.length (seqs.map (List.map φ))
        (qs.map (List.map φ)) ∧
      (qs.map (List.map φ)).map (decode segs') = qs.map (decode segs) := by
  constructor
  · exact h.recode fun q hq id hid => (hφ q hq id hid).lt
  · rw [List.map_map]
    exact List.map_congr_left fun q hq => decode_renumber (hφ q (h.mem_seqs hq))

/-- What the pool, the codes and the tokens that are being added stand for. -/
structure Encodes (pwKeyLookup : List UInt16) (st : Tokens) (segs : List (UInt16 × List UInt8))
    (keys toks : List (List UInt8)) : Prop where
  room : Roomy st.pStrPool
  pool : PoolHolds st.pStrPool.toSIdxStringPool segs
  coding : ∃ seqs qs, Coding pwKeyLookup st.pwKeyCodes segs.length seqs qs ∧
    qs.map (decode segs) = keys
  ids : ∀ id ∈ st.pwTokenIDs, id.toNat < segs.length
  tokens : st.pwTokenIDs.map (stringOf segs) = toks

/-- What the strings of a page take of it. -/
def poolCost (p : GrowingPool) : ℕ := p.dwPoolUsed + p.dwNumStrings * sizeofWORD

/-! ### A new string -/

section NewString
variable {u v : List (UInt16 × List UInt8)} {offset : UInt16}

theorem toNat_adjustCode_up (wID : ℕ) {id : UInt16} (h : id.toNat + 1 < 2 ^ 16) :
    (adjustCode wID 1 id).toNat = if wID ≤ id.toNat then id.toNat + 1 else id.toNat := by
  rw [adjustCode]
  split_ifs with hle
  · have hint : UInt16.ofInt ((id.toNat : ℤ) + 1) = UInt16.ofNat (id.toNat + 1) := by
      rw [UInt16.ofInt]
      congr 1
      omega
    rw [hint, toNat_count h]
  · rfl

theorem getD_insert (k : ℕ) (x d : UInt16 × List UInt8) :
    (u ++ x :: v).getD (if u.length ≤ k then k + 1 else k) d = (u ++ v).getD k d := by
  split_ifs with h
  · rw [List.getD_append_right _ _ _ _ (by omega), List.getD_append_right _ _ _ _ h]
    have hindex : k + 1 - u.length = k - u.length + 1 := by omega
    rw [hindex, List.getD_cons_succ]
  · rw [List.getD_append _ _ _ _ (by omega), List.getD_append _ _ _ _ (by omega)]

theorem renumbers_insert (offset : UInt16) (tok : List UInt8) {id : UInt16}
    (hid : id.toNat < (u ++ v).length)
    (hcount : (u ++ v).length < 2 ^ 15) :
    Renumbers (adjustCode u.length 1) (u ++ v) (u ++ (offset, tok) :: v) id := by
  have hup := toNat_adjustCode_up u.length (show id.toNat + 1 < 2 ^ 16 by omega)
  constructor
  · rw [hup]
    rw [List.length_append] at hid
    rw [List.length_append, List.length_cons]
    split_ifs <;> omega
  · rw [stringOf, hup, getD_insert]
    rfl

/-- A string behind all others leaves the numbers as they are. -/
theorem renumbers_append {id : UInt16} (hid : id.toNat < u.length) :
    Renumbers (fun id => id) u (u ++ [(offset, tok)]) id := by
  constructor
  · rw [List.length_append]
    exact Nat.lt_add_right _ hid
  · rw [stringOf, List.getD_append _ _ _ _ hid]
    rfl

theorem stringOf_new (offset : UInt16) (tok : List UInt8) (v : List (UInt16 × List UInt8))
    (hcount : u.length < 2 ^ 15) :
    (UInt16.ofNat u.length).toNat < (u ++ (offset, tok) :: v).length ∧
      stringOf (u ++ (offset, tok) :: v) (UInt16.ofNat u.length) = tok := by
  have hnat : (UInt16.ofNat u.length).toNat = u.length := toNat_count (by omega)
  constructor
  · rw [hnat, List.length_append, List.length_cons]
    omega
  · rw [stringOf, hnat, List.getD_append_right _ _ _ _ (Nat.le_refl _), Nat.sub_self]
    rfl

end NewString

/-- The tokens so far under a new numbering. -/
theorem ids_renumber {φ : UInt16 → UInt16} {ids : List UInt16}
    (hφ : ∀ id ∈ ids, Renumbers φ segs segs' id) :
    (∀ id ∈ ids.map φ, id.toNat < segs'.length) ∧
      (ids.map φ).map (stringOf segs') = ids.map (stringOf segs) := by
  constructor
  · intro id hid
    obtain ⟨id', hid', rfl⟩ := List.mem_map.mp hid
    exact (hφ id' hid').lt
  · rw [List.map_map]
    exact List.map_congr_left fun id hid => (hφ id hid).string

/-- One more token at the end. -/
theorem ids_snoc {ids : List UInt16} {wID : UInt16} (hids : ∀ id ∈ ids, id.toNat < segs.length)
    (htokens : ids.map (stringOf segs) = toks) (hlt : wID.toNat < segs.length)
    (hstring : stringOf segs wID = tok) :
    (∀ id ∈ ids ++ [wID], id.toNat < segs.length) ∧
      (ids ++ [wID]).map (stringOf segs) = toks ++ [tok] := by
  constructor
  · intro id hid
    rcases List.mem_append.mp hid with hid | hid
    · exact hids id hid
    · rwa [List.mem_singleton.mp hid]
  · rw [List.map_append, htokens]
    exact congrArg _ (congrArg (fun s => [s]) hstring)

theorem addToken_spec {st : Tokens} (h : Encodes pwKeyLookup st segs keys toks) (htok : 0 ∉ tok)
    (hcount : segs.length < 2 ^ 15)
    (hfit : tok ∉ segs.map Prod.snd →
      st.pStrPool.dwPoolUsed + tok.length + 1 ≤ const_DefaultPoolSize) :
    ∃ st' segs', addToken tok st = some (.ok (), st') ∧
      Encodes pwKeyLookup st' segs' keys (toks ++ [tok]) ∧
      (∀ s, s ∈ segs'.map Prod.snd ↔ s = tok ∨ s ∈ segs.map Prod.snd) ∧
      st'.pwKeyCodes.length = st.pwKeyCodes.length ∧
      poolCost st'.pStrPool = poolCost st.pStrPool +
        if tok ∈ segs.map Prod.snd then 0 else tok.length + 1 + sizeofWORD := by
  obtain ⟨seqs, qs, hcoding, hkeys⟩ := h.coding
  rcases findStr_spec h.pool htok with ⟨i, seg, hfind, hi, rfl⟩ | ⟨u, v, rfl, hfind, hbelow, habove⟩
  · obtain ⟨hlt, hget⟩ := List.getElem?_eq_some_iff.mp hi
    have hnat : (UInt16.ofNat i).toNat = i := toNat_count (by omega)
    have hmem : seg.2 ∈ segs.map Prod.snd := List.mem_map_of_mem (List.mem_of_getElem? hi)
    have hstring : stringOf segs (UInt16.ofNat i) = seg.2 := by
      rw [stringOf, hnat, List.getD_eq_getElem _ _ hlt, hget]
    obtain ⟨hids, htokens⟩ := ids_snoc h.ids h.tokens (by rwa [hnat]) hstring
    refine ⟨{ st with pwTokenIDs := st.pwTokenIDs ++ [UInt16.ofNat i] }, segs, ?_,
      ⟨h.room, h.pool, h.coding, hids, htokens⟩, ?_, rfl, ?_⟩
    · rw [addToken, hfind]
    · intro s
      constructor
      · exact Or.inr
      · rintro (rfl | hs)
        · exact hmem
        · exact hs
    · rw [if_pos hmem]
      rfl
  · have hnew : tok ∉ (u ++ v).map Prod.snd := by
      intro hmem
      obtain ⟨seg, hseg, rfl⟩ := List.mem_map.mp hmem
      have hself : byteDifference seg.2 seg.2 = 0 := difference_self _
      rcases List.mem_append.mp hseg with hseg | hseg
      · exact absurd hself (hbelow seg hseg).ne
      · exact absurd hself (habove seg hseg).ne
    obtain ⟨p', hadd, hroom, hpool, hused, hstrings⟩ :=
      addStr_spec h.room h.pool htok (hfit hnew) hbelow habove
    have hu : u.length < 2 ^ 15 := by
      rw [List.length_append] at hcount
      omega
    obtain ⟨hidNew, hstringNew⟩ :=
      stringOf_new (UInt16.ofNat st.pStrPool.dwPoolUsed) tok v hu
    have hmem (s : List UInt8) :
        s ∈ (u ++ (UInt16.ofNat st.pStrPool.dwPoolUsed, tok) :: v).map Prod.snd ↔
          s = tok ∨ s ∈ (u ++ v).map Prod.snd := by
      simp only [List.map_append, List.map_cons, List.mem_append, List.mem_cons]
      tauto
    have hcost : poolCost p' = poolCost st.pStrPool + (tok.length + 1 + sizeofWORD) := by
      rw [poolCost, poolCost, hused, hstrings, Nat.add_mul]
      omega
    have hids (id : UInt16) (hid : id ∈ st.pwTokenIDs) := h.ids id hid
    by_cases hv : v.length = 0
    · obtain rfl := List.length_eq_zero_iff.mp hv
      have hnew' (id : UInt16) (hid : id.toNat < (u ++ []).length) :
          Renumbers (fun id => id) (u ++ []) (u ++ [(UInt16.ofNat st.pStrPool.dwPoolUsed, tok)])
            id := by
        rw [List.append_nil] at hid ⊢
        exact renumbers_append hid
      obtain ⟨hcoding', hkeys'⟩ :=
        hcoding.renumber fun q hq id hid => hnew' id (hcoding.ids q hq id hid)
      obtain ⟨hids', htokens'⟩ := ids_renumber fun id hid => hnew' id (hids id hid)
      simp only [List.map_id', List.map_id_fun', List.map_id] at hids' htokens' hcoding' hkeys'
      rw [← hcoding.codes] at hcoding'
      obtain ⟨hids'', htokens''⟩ :=
        ids_snoc hids' (htokens'.trans h.tokens) hidNew hstringNew
      refine ⟨⟨p', st.pwKeyCodes, st.pwTokenIDs ++ [UInt16.ofNat u.length]⟩, _, ?_,
        ⟨hroom, hpool, ⟨seqs, qs, hcoding', hkeys'.trans hkeys⟩, hids'', htokens''⟩, hmem, rfl, ?_⟩
      · rw [addToken, hfind]
        simp only [hadd, hv, if_true, Option.bind_eq_bind, Option.bind_some]
      · rw [if_neg hnew, hcost]
    · have hrenumber (id : UInt16) (hid : id.toNat < (u ++ v).length) :=
        renumbers_insert (UInt16.ofNat st.pStrPool.dwPoolUsed) tok hid hcount
      obtain ⟨hcoding', hkeys'⟩ :=
        hcoding.renumber fun q hq id hid => hrenumber id (hcoding.ids q hq id hid)
      obtain ⟨hids', htokens'⟩ := ids_renumber fun id hid => hrenumber id (hids id hid)
      have hadjust := adjust_encode u.length 1 fun q hq => (hcoding.size q hq).2
      rw [← hcoding.codes] at hadjust
      rw [← hadjust] at hcoding'
      obtain ⟨hids'', htokens''⟩ :=
        ids_snoc hids' (htokens'.trans h.tokens) hidNew hstringNew
      refine ⟨⟨p', adjustKeyCodes u.length 1 0 st.pwKeyCodes,
        st.pwTokenIDs.map (adjustCode u.length 1) ++ [UInt16.ofNat u.length]⟩, _, ?_,
        ⟨hroom, hpool, ⟨_, _, hcoding', hkeys'.trans hkeys⟩, hids'', htokens''⟩, hmem, ?_, ?_⟩
      · rw [addToken, hfind]
        simp [hadd, hv]
      · rw [hadjust, hcoding.codes, length_encode_map]
      · rw [if_neg hnew, hcost]

/-! ### All tokens of a key -/

/-- What the strings of a key that are not in the pool take of the page. -/
def newStringCost (strings : List (List UInt8)) : List (List UInt8) → ℕ
  | [] => 0
  | tok :: toks =>
    if tok ∈ strings then newStringCost strings toks
    else tok.length + 1 + sizeofWORD + newStringCost (tok :: strings) toks

theorem newStringCost_congr {strings strings' : List (List UInt8)}
    (h : ∀ s, s ∈ strings ↔ s ∈ strings') (toks : List (List UInt8)) :
    newStringCost strings toks = newStringCost strings' toks := by
  induction toks generalizing strings strings' with
  | nil => rfl
  | cons tok toks ih =>
    have hcons : ∀ s, s ∈ tok :: strings ↔ s ∈ tok :: strings' := fun s => by
      rw [List.mem_cons, List.mem_cons, h]
    simp only [newStringCost, h tok, ih h, ih hcons]

/-- A string takes at least three bytes of a page. -/
theorem PoolHolds.count_le {p : GrowingPool} (h : PoolHolds p.toSIdxStringPool segs) :
    segs.length * sizeofWORD ≤ poolCost p := by
  rw [poolCost, h.length]
  exact Nat.le_add_left _ _

theorem addTokens_spec {new : List (List UInt8)} {st : Tokens}
    (h : Encodes pwKeyLookup st segs keys toks) (hnew : ∀ tok ∈ new, 0 ∉ tok)
    (hfit : poolCost st.pStrPool + newStringCost (segs.map Prod.snd) new ≤
      const_DefaultPoolSize) :
    ∃ st' segs', addTokens new st = some (.ok (), st') ∧
      Encodes pwKeyLookup st' segs' keys (toks ++ new) ∧
      st'.pwKeyCodes.length = st.pwKeyCodes.length ∧
      poolCost st'.pStrPool = poolCost st.pStrPool + newStringCost (segs.map Prod.snd) new := by
  induction new generalizing st segs toks with
  | nil => exact ⟨st, segs, rfl, by rwa [List.append_nil], rfl, rfl⟩
  | cons tok new ih =>
    have hpage : const_DefaultPoolSize < 2 ^ 15 := by decide
    have hcount := h.pool.count_le
    rw [sizeofWORD] at hcount
    have hcost : newStringCost (segs.map Prod.snd) (tok :: new) =
        (if tok ∈ segs.map Prod.snd then 0 else tok.length + 1 + sizeofWORD) +
          newStringCost (tok :: segs.map Prod.snd) new := by
      rw [newStringCost]
      split_ifs with hmem
      · rw [Nat.zero_add]
        refine newStringCost_congr (fun s => ?_) new
        rw [List.mem_cons]
        constructor
        · exact Or.inr
        · rintro (rfl | hs)
          · exact hmem
          · exact hs
      · rfl
    rw [hcost] at hfit
    have hroom (hnotMem : tok ∉ segs.map Prod.snd) :
        st.pStrPool.dwPoolUsed + tok.length + 1 ≤ const_DefaultPoolSize := by
      rw [if_neg hnotMem, poolCost] at hfit
      omega
    obtain ⟨st₁, segs₁, hadd, henc, hmem, hcodes, hcost₁⟩ :=
      addToken_spec h (hnew tok List.mem_cons_self) (by omega) hroom
    have hrest : newStringCost (segs₁.map Prod.snd) new =
        newStringCost (tok :: segs.map Prod.snd) new :=
      newStringCost_congr (fun s => by rw [hmem, List.mem_cons]) new
    obtain ⟨st₂, segs₂, hrun, henc₂, hcodes₂, hcost₂⟩ := ih henc
      (fun tok' htok' => hnew tok' (List.mem_cons_of_mem tok htok')) (by rw [hrest, hcost₁]; omega)
    refine ⟨st₂, segs₂, ?_, ?_, hcodes₂.trans hcodes, ?_⟩
    · rw [addTokens, hadd]
      exact hrun
    · rwa [List.append_assoc] at henc₂
    · rw [hcost₂, hcost₁, hrest, hcost, Nat.add_assoc]

/-- A key of at most 32 tokens that are not empty, with backslashes between them. -/
structure ValidTokens (toks : List (List UInt8)) : Prop where
  nonempty : toks ≠ []
  count : toks.length ≤ MAX_TOKENS_PER_KEY
  token : ∀ tok ∈ toks, tok ≠ [] ∧ 0 ∉ tok ∧ 0x5C ∉ tok

/-- The key of the tokens. -/
def joinTokens (toks : List (List UInt8)) : List UInt8 := List.intercalate [0x5C] toks

theorem joinTokens_cons (tok : List UInt8) (toks : List (List UInt8)) :
    joinTokens (tok :: toks) = tok ++ toks.flatMap fun tok => 0x5C :: tok := by
  induction toks generalizing tok with
  | nil => simp [joinTokens, List.intercalate]
  | cons tok' toks ih =>
    have hstep : joinTokens (tok :: tok' :: toks) = tok ++ 0x5C :: joinTokens (tok' :: toks) := by
      simp [joinTokens, List.intercalate]
    rw [hstep, ih, List.flatMap_cons, List.cons_append]

theorem joinTokens_ne_nil (h : ValidTokens toks) : joinTokens toks ≠ [] := by
  cases toks with
  | nil => exact absurd rfl h.nonempty
  | cons tok toks =>
    rw [joinTokens_cons]
    exact fun heq => (h.token tok List.mem_cons_self).1 (List.append_eq_nil_iff.mp heq).1

theorem parse_run {temp : List UInt8} {count : ℕ} (rest : List UInt8) (htok : 0x5C ∉ tok) :
    parseLoop count temp (tok ++ rest) = parseLoop count (temp ++ tok) rest := by
  induction tok generalizing temp with
  | nil => rw [List.nil_append, List.append_nil]
  | cons c tok ih =>
    have hc : c ≠ 0x5C := fun heq => htok (heq ▸ List.mem_cons_self)
    rw [List.cons_append, parseLoop, if_neg hc,
      ih fun hmem => htok (List.mem_cons_of_mem c hmem), List.append_assoc]
    rfl

theorem parse_tokens {count : ℕ} (htok : 0x5C ∉ tok) (htoks : ∀ tok ∈ toks, 0x5C ∉ tok)
    (hcount : count + toks.length < MAX_TOKENS_PER_KEY) :
    parseLoop count [] (joinTokens (tok :: toks)) = .ok (tok :: toks) := by
  induction toks generalizing tok count with
  | nil =>
    rw [joinTokens_cons, parse_run _ htok]
    rw [List.length_nil] at hcount
    exact if_neg hcount.ne
  | cons tok' toks ih =>
    rw [List.length_cons] at hcount
    have hlt : count ≠ MAX_TOKENS_PER_KEY := by omega
    have hrec : parseLoop (count + 1) [] (joinTokens (tok' :: toks)) = .ok (tok' :: toks) := ih
      (htoks tok' List.mem_cons_self) (fun s hs => htoks s (List.mem_cons_of_mem tok' hs)) (by omega)
    have hjoin := joinTokens_cons tok' toks
    rw [joinTokens_cons, List.flatMap_cons, List.cons_append, ← hjoin, parse_run _ htok,
      List.nil_append, parseLoop, if_pos rfl, if_neg hlt, hrec]
    rfl

theorem parseIntoTokens_join (h : ValidTokens toks) :
    parseIntoTokens (joinTokens toks) = .ok toks := by
  have hne := joinTokens_ne_nil h
  cases toks with
  | nil => exact absurd rfl h.nonempty
  | cons tok toks =>
    rw [parseIntoTokens, if_neg hne]
    have hcount := h.count
    rw [List.length_cons] at hcount
    exact parse_tokens (h.token tok List.mem_cons_self).2.2
      (fun s hs => (h.token s (List.mem_cons_of_mem tok hs)).2.2) (by omega)

end NtAdmin.Wmi.Btr
