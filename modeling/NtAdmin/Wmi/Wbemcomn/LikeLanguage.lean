import Mathlib.Data.List.TakeWhile
import NtAdmin.Wmi.Wbemcomn.LikeSpec

/-! `DoLike` accepts the language of its own reading of the pattern. -/
namespace NtAdmin.Wmi

open Wildcard

variable {u : UpperCase} {escape c : Wchar} {pattern string text rest : List Wchar}

theorem wbemTowupper_ne_zero {c : Wchar} (hc : c ≠ 0) : wbemTowupper u c ≠ 0 := by
  unfold wbemTowupper
  split
  · split
    · rename_i h
      intro h0
      have hle : (32 : Wchar) ≤ c := Nat.le_trans (by decide) h.1
      have hsub := UInt16.toNat_sub_of_le c 32 hle
      have hlow : 97 ≤ c.toNat := h.1
      rw [h0] at hsub
      have hzero : (0 : Wchar).toNat = 0 := rfl
      have hthirty : (32 : Wchar).toNat = 32 := rfl
      omega
    · exact hc
  · exact u.map_ne_zero c

/-! ### Sets -/

theorem dropWhile_text (htext : closeBracket ∉ text)
    (hrest : ∀ x ∈ rest.head?, x = closeBracket) :
    (text ++ rest).dropWhile (· ≠ closeBracket) = rest := by
  have hpos : ∀ x ∈ text, decide (x ≠ closeBracket) = true := by
    intro x hx
    exact decide_eq_true fun h => htext (h ▸ hx)
  rw [List.dropWhile_append_of_pos hpos]
  cases rest with
  | nil => rfl
  | cons x rest => simp [hrest x rfl]

theorem scanSet_closeBracket (lastchar : Wchar) :
    scanSet u c lastchar (closeBracket :: rest) = (false, closeBracket :: rest) := by
  rw [scanSet.eq_def]
  exact if_pos rfl

theorem scanSet_char {lastchar x : Wchar} (hx : x ≠ closeBracket) (hrange : ¬(x = hyphen ∧ lastchar ≠ 0)) :
    scanSet u c lastchar (x :: rest) =
      if wbemTowupper u x = wbemTowupper u c then (true, x :: rest)
      else scanSet u c (wbemTowupper u x) rest := by
  rw [scanSet.eq_def]
  simp only [hx, hrange, if_false]

theorem scanSet_hyphen {lastchar : Wchar} (hlast : lastchar ≠ 0)
    (hrest : ∀ x ∈ rest.head?, x = closeBracket) :
    scanSet u c lastchar (hyphen :: rest) = (false, rest) := by
  have hne : hyphen ≠ closeBracket := by decide
  rw [scanSet.eq_def]
  cases rest with
  | nil => simp only [hne, hlast, ne_eq, not_false_eq_true, and_self, if_true, if_false]
  | cons y rest => simp [hne, hlast, hrest y rfl]

theorem scanSet_range {lastchar y : Wchar} (hlast : lastchar ≠ 0) (hy : y ≠ closeBracket) :
    scanSet u c lastchar (hyphen :: y :: rest) =
      if lastchar ≤ wbemTowupper u c ∧ wbemTowupper u c ≤ wbemTowupper u y then (true, rest)
      else scanSet u c (wbemTowupper u y) rest := by
  have hne : hyphen ≠ closeBracket := by decide
  rw [scanSet.eq_def]
  simp only [hne, hlast, hy, ne_eq, not_false_eq_true, and_self, if_true, if_false]

/-- The scan of a set finds a matching item, or stops at its end. -/
theorem scanSet_eq (last : Option Wchar) (htext : closeBracket ∉ text) (h0 : 0 ∉ text)
    (hlast : last ≠ some 0) (hrest : ∀ x ∈ rest.head?, x = closeBracket) :
    (scanSet u c ((last.map (wbemTowupper u)).getD 0) (text ++ rest)).1 =
        (setItems last text).any (SetItem.accepts u c) ∧
      (scanSet u c ((last.map (wbemTowupper u)).getD 0) (text ++ rest)).2.dropWhile
        (· ≠ closeBracket) = rest := by
  have hchar : ∀ (x : Wchar) (text : List Wchar) (items : List SetItem) (l : Wchar),
      closeBracket ∉ x :: text → ¬(x = hyphen ∧ l ≠ 0) →
      ((scanSet u c (wbemTowupper u x) (text ++ rest)).1 = items.any (SetItem.accepts u c) ∧
        (scanSet u c (wbemTowupper u x) (text ++ rest)).2.dropWhile (· ≠ closeBracket) = rest) →
      (scanSet u c l (x :: text ++ rest)).1 =
          (SetItem.char x :: items).any (SetItem.accepts u c) ∧
        (scanSet u c l (x :: text ++ rest)).2.dropWhile (· ≠ closeBracket) = rest := by
    intro x text items l htext hrange ih
    have hdrop := dropWhile_text htext hrest
    have hx : x ≠ closeBracket := fun h => htext (h ▸ List.mem_cons_self)
    rw [List.cons_append] at hdrop ⊢
    rw [scanSet_char hx hrange, List.any_cons]
    by_cases hc : wbemTowupper u x = wbemTowupper u c
    · rw [if_pos hc]
      exact ⟨by simp [SetItem.accepts, hc], hdrop⟩
    · rw [if_neg hc]
      exact ⟨by simp [SetItem.accepts, hc, ih.1], ih.2⟩
  fun_induction setItems last text with
  | case1 last =>
    cases rest with
    | nil => exact ⟨rfl, rfl⟩
    | cons x rest =>
      have hx : x = closeBracket := hrest x rfl
      rw [hx, List.nil_append, scanSet_closeBracket]
      exact ⟨rfl, by simp⟩
  | case2 x text ih =>
    have h0' := List.not_mem_of_not_mem_cons h0
    have hne : x ≠ 0 := fun h => h0 (h ▸ List.mem_cons_self)
    have ih := ih (List.not_mem_of_not_mem_cons htext) h0' fun h => hne (Option.some.inj h)
    exact hchar x text _ 0 htext (fun h => h.2 rfl) ih
  | case3 first =>
    have hne : wbemTowupper u first ≠ 0 := wbemTowupper_ne_zero fun h => hlast (congrArg some h)
    have hscan : scanSet u c (wbemTowupper u first) ([hyphen] ++ rest) = (false, rest) :=
      scanSet_hyphen hne hrest
    have hdrop : rest.dropWhile (· ≠ closeBracket) = rest :=
      dropWhile_text List.not_mem_nil hrest
    simp only [Option.map_some, Option.getD_some]
    rw [hscan]
    exact ⟨rfl, hdrop⟩
  | case4 first last text ih =>
    have hne : wbemTowupper u first ≠ 0 := wbemTowupper_ne_zero fun h => hlast (congrArg some h)
    have htext' := List.not_mem_of_not_mem_cons htext
    have h0' := List.not_mem_of_not_mem_cons h0
    have hy : last ≠ closeBracket := fun h => htext' (h ▸ List.mem_cons_self)
    have hy0 : last ≠ 0 := fun h => h0' (h ▸ List.mem_cons_self)
    have ih := ih (List.not_mem_of_not_mem_cons htext') (List.not_mem_of_not_mem_cons h0')
      fun h => hy0 (Option.some.inj h)
    have hdrop := dropWhile_text (List.not_mem_of_not_mem_cons htext') hrest
    simp only [Option.map_some, Option.getD_some, List.cons_append, List.any_cons] at ih ⊢
    rw [scanSet_range hne hy]
    by_cases hc : wbemTowupper u first ≤ wbemTowupper u c ∧ wbemTowupper u c ≤ wbemTowupper u last
    · rw [if_pos hc]
      exact ⟨by simp [SetItem.accepts, hc], hdrop⟩
    · rw [if_neg hc]
      have hitem : SetItem.accepts u c (.range first last) = false := decide_eq_false hc
      exact ⟨by rw [hitem, Bool.false_or]; exact ih.1, ih.2⟩
  | case5 first x text hx ih =>
    have h0' := List.not_mem_of_not_mem_cons h0
    have hne : x ≠ 0 := fun h => h0 (h ▸ List.mem_cons_self)
    have ih := ih (List.not_mem_of_not_mem_cons htext) h0' fun h => hne (Option.some.inj h)
    exact hchar x text _ _ htext (fun h => hx h.1) ih

theorem mem_of_mem_setText {x : Wchar} (hx : x ∈ (setText pattern).2.2) : x ∈ pattern := by
  have hmem := List.dropWhile_subset _ hx
  split at hmem
  · exact List.mem_of_mem_tail hmem
  · exact hmem

/-- `MatchSet` tests the items of the set, unless nothing follows it. -/
theorem matchSet_eq (h0 : 0 ∉ pattern) :
    matchSet u c pattern =
      (((setItems none (setText pattern).2.1).any (SetItem.accepts u c) &&
          !decide ((setText pattern).2.2.tail = [])) != (setText pattern).1,
        (setText pattern).2.2.tail) := by
  let body := if pattern.head? = some caret then pattern.tail else pattern
  have hbody : body = body.takeWhile (· ≠ closeBracket) ++ body.dropWhile (· ≠ closeBracket) :=
    List.takeWhile_append_dropWhile.symm
  have hsub : ∀ x ∈ body, x ∈ pattern := by
    intro x hx
    simp only [body] at hx
    split at hx
    · exact List.mem_of_mem_tail hx
    · exact hx
  have htext : closeBracket ∉ body.takeWhile (· ≠ closeBracket) := by
    intro h
    have := List.mem_takeWhile_imp h
    simp at this
  have h0' : (0 : Wchar) ∉ body.takeWhile (· ≠ closeBracket) := fun h =>
    h0 (hsub 0 (List.takeWhile_subset _ h))
  have hrest : ∀ x ∈ (body.dropWhile (· ≠ closeBracket)).head?, x = closeBracket := by
    intro x hx
    have := List.head?_dropWhile_not (p := (· ≠ closeBracket)) (l := body)
    rw [Option.mem_def.mp hx] at this
    simpa using this
  have hscan := scanSet_eq (u := u) (c := c) none htext h0' (nofun) hrest
  rw [← hbody] at hscan
  have hmatch : matchSet u c pattern =
      (((if ((scanSet u c 0 body).2.dropWhile (· ≠ closeBracket)).tail = [] then false
          else (scanSet u c 0 body).1) == !decide (pattern.head? = some caret)),
        ((scanSet u c 0 body).2.dropWhile (· ≠ closeBracket)).tail) := by
    simp only [matchSet, body]
  have hbool : ∀ a b : Bool, (a == !b) = (a != b) := by decide
  simp only [Option.map_none, Option.getD_none] at hscan
  have hset : setText pattern = (decide (pattern.head? = some caret),
      body.takeWhile (· ≠ closeBracket), body.dropWhile (· ≠ closeBracket)) := rfl
  rw [hmatch, hscan.1, hscan.2, hbool, hset]
  simp only
  split
  · rename_i hlast
    rw [decide_eq_true hlast, Bool.not_true, Bool.and_false]
  · rename_i hlast
    rw [decide_eq_false hlast, Bool.not_false, Bool.and_true]

/-! ### Wildcards -/

theorem anySuffix_iff {like : List Wchar → Bool} :
    anySuffix like string = true ↔ ∃ t, t ≠ [] ∧ t <:+ string ∧ like t = true := by
  induction string with
  | nil =>
    constructor
    · intro h
      nomatch h
    · rintro ⟨t, hne, ht, -⟩
      exact absurd (List.suffix_nil.mp ht) hne
  | cons c string ih =>
    rw [anySuffix, Bool.or_eq_true, ih]
    constructor
    · rintro (h | ⟨t, hne, ht, h⟩)
      · exact ⟨_, List.cons_ne_nil _ _, List.suffix_refl _, h⟩
      · exact ⟨t, hne, ht.trans (List.suffix_cons _ _), h⟩
    · rintro ⟨t, hne, ht, h⟩
      rcases List.suffix_cons_iff.mp ht with rfl | ht
      · exact Or.inl h
      · exact Or.inr ⟨t, hne, ht, h⟩

theorem doLike_nil : doLike u escape pattern [] = onlyWildcards pattern := by
  cases pattern with
  | nil => rw [doLike]; rfl
  | cons p pattern => rw [doLike]

theorem onlyWildcards_cons (p : Wchar) :
    onlyWildcards (p :: pattern) = true ↔ p = wildcard ∧ onlyWildcards pattern = true := by
  by_cases hp : p = wildcard <;> simp [onlyWildcards, hp]

/-! ### The language -/

variable {reading : Token → Wchar → Bool} {t : Token} {ps : List (Piece Wchar)}

theorem lang_wildcard : Lang (piece reading .wildcard :: ps) string ↔
    ∃ t, t <:+ string ∧ Lang ps t := by
  rw [piece, if_pos rfl]
  rfl

theorem lang_wildcard_nil : Lang (piece reading .wildcard :: ps) [] ↔ Lang ps [] := by
  rw [lang_wildcard]
  constructor
  · rintro ⟨t, ht, h⟩
    rwa [List.suffix_nil.mp ht] at h
  · exact fun h => ⟨[], List.nil_suffix, h⟩

theorem lang_one_nil (ht : t ≠ .wildcard) : ¬Lang (piece reading t :: ps) [] := by
  rw [piece, if_neg ht]
  rintro ⟨c, s, h, -⟩
  nomatch h

theorem lang_one_cons (ht : t ≠ .wildcard) :
    Lang (piece reading t :: ps) (c :: string) ↔ reading t c = true ∧ Lang ps string := by
  rw [piece, if_neg ht]
  constructor
  · rintro ⟨d, s, h, hd, hs⟩
    obtain ⟨rfl, rfl⟩ := List.cons_eq_cons.mp h
    exact ⟨hd, hs⟩
  · rintro ⟨hc, hs⟩
    exact ⟨c, string, rfl, hc, hs⟩

theorem codeEscape_ne_wildcard : ¬(codeEscape escape ≠ 0 ∧ wildcard = codeEscape escape) := by
  unfold codeEscape
  split
  · exact fun h => h.1 rfl
  · rename_i h
    exact fun heq => h (Or.inl heq.2.symm)

theorem codeEscape_ne_openBracket :
    ¬(codeEscape escape ≠ 0 ∧ openBracket = codeEscape escape) := by
  unfold codeEscape
  split
  · exact fun h => h.1 rfl
  · rename_i h
    exact fun heq => h (Or.inr heq.2.symm)

theorem codeEscape_iff {p : Wchar} (hw : p ≠ wildcard) (hb : p ≠ openBracket) :
    (codeEscape escape ≠ 0 ∧ p = codeEscape escape) ↔ (escape ≠ 0 ∧ p = escape) := by
  unfold codeEscape
  split
  · rename_i h
    constructor
    · exact fun heq => absurd rfl heq.1
    · rintro ⟨-, rfl⟩
      rcases h with h | h
      · exact absurd h hw
      · exact absurd h hb
  · exact Iff.rfl

theorem onlyWildcards_iff : onlyWildcards pattern = true ↔
    Lang ((tokens (codeEscape escape) pattern).map (piece reading)) [] := by
  have hone : ∀ {p : Wchar} {pattern : List Wchar} {t : Token} {ts : List Token},
      p ≠ wildcard → t ≠ .wildcard →
      (onlyWildcards (p :: pattern) = true ↔ Lang ((t :: ts).map (piece reading)) []) := by
    intro p pattern t ts hp ht
    rw [onlyWildcards_cons]
    exact iff_of_false (fun h => hp h.1) (lang_one_nil ht)
  fun_induction tokens (codeEscape escape) pattern with
  | case1 => exact iff_of_true rfl rfl
  | case2 p hp => exact hone (fun h => codeEscape_ne_wildcard (h ▸ hp)) nofun
  | case3 p hp x pattern ih => exact hone (fun h => codeEscape_ne_wildcard (h ▸ hp)) nofun
  | case4 pattern hp ih =>
    rw [onlyWildcards_cons, List.map_cons, lang_wildcard_nil]
    exact (and_iff_right rfl).trans ih
  | case5 pattern hrest hp hw => exact hone hw nofun
  | case6 pattern hrest hp hw ih => exact hone hw nofun
  | case7 pattern hp hw hb ih => exact hone hw nofun
  | case8 p pattern hp hw hb hs ih => exact hone hw nofun

theorem doLike_wildcard : doLike u escape (wildcard :: pattern) (c :: string) = true ↔
    anySuffix (doLike u escape pattern) (c :: string) = true ∨ onlyWildcards pattern = true := by
  rw [doLike.eq_def]
  simp only [if_true, Bool.or_eq_true]

theorem doLike_set : doLike u escape (openBracket :: pattern) (c :: string) = true ↔
    (matchSet u c pattern).1 = true ∧ doLike u escape (matchSet u c pattern).2 string = true := by
  have hw : openBracket ≠ wildcard := by decide
  rw [doLike.eq_def]
  simp only [hw, if_false, if_true]
  split <;> simp_all

theorem doLike_dangling (hw : escape ≠ wildcard) (hb : escape ≠ openBracket) (h0 : escape ≠ 0) :
    doLike u escape [escape] (c :: string) = false := by
  rw [doLike.eq_def]
  simp only [hw, hb, h0, if_false, if_true, ne_eq, not_false_eq_true, and_self]

theorem doLike_escaped {x : Wchar} (hw : escape ≠ wildcard) (hb : escape ≠ openBracket)
    (h0 : escape ≠ 0) :
    doLike u escape (escape :: x :: pattern) (c :: string) = true ↔
      (wbemTowupper u x = wbemTowupper u c ∨ x = anySingleChar) ∧
        doLike u escape pattern string = true := by
  rw [doLike.eq_def]
  simp only [hw, hb, h0, if_false, if_true, ne_eq, not_false_eq_true, and_self]
  split <;> simp_all

theorem doLike_char {p : Wchar} (hw : p ≠ wildcard) (hb : p ≠ openBracket)
    (he : ¬(escape ≠ 0 ∧ p = escape)) :
    doLike u escape (p :: pattern) (c :: string) = true ↔
      (wbemTowupper u p = wbemTowupper u c ∨ p = anySingleChar) ∧
        doLike u escape pattern string = true := by
  rw [doLike.eq_def]
  simp only [hw, hb, he, if_false]
  split <;> simp_all

/-- `DoLike` accepts the language of its reading of the pattern. -/
theorem doLike_iff (h0 : 0 ∉ pattern) :
    doLike u escape pattern string = true ↔ CodeMatches u escape pattern string := by
  unfold CodeMatches
  -- A token other than a wildcard takes the first character of the string.
  have hone : ∀ {p : Wchar} {pattern string : List Wchar} {t : Token} {ts : List Token},
      p ≠ wildcard → t ≠ .wildcard →
      (∀ c rest, doLike u escape (p :: pattern) (c :: rest) = true ↔
        t.codeAccepts u c = true ∧ Lang (ts.map (piece (Token.codeAccepts u))) rest) →
      (doLike u escape (p :: pattern) string = true ↔
        Lang ((t :: ts).map (piece (Token.codeAccepts u))) string) := by
    intro p pattern string t ts hp ht hcons
    cases string with
    | nil =>
      rw [doLike_nil, onlyWildcards_cons]
      exact iff_of_false (fun h => hp h.1) (lang_one_nil ht)
    | cons c string => exact (hcons c string).trans (lang_one_cons ht).symm
  fun_induction tokens (codeEscape escape) pattern generalizing string with
  | case1 =>
    rw [doLike]
    exact List.isEmpty_iff
  | case2 p hp =>
    have hw : p ≠ wildcard := fun h => codeEscape_ne_wildcard (h ▸ hp)
    have hb : p ≠ openBracket := fun h => codeEscape_ne_openBracket (h ▸ hp)
    obtain ⟨he0, rfl⟩ := (codeEscape_iff hw hb).mp hp
    refine hone hw (fun h => by cases h) fun c rest => ?_
    rw [doLike_dangling hw hb he0]
    exact iff_of_false (fun h => by cases h) fun h => by cases h.1
  | case3 p hp x pattern ih =>
    have hw : p ≠ wildcard := fun h => codeEscape_ne_wildcard (h ▸ hp)
    have hb : p ≠ openBracket := fun h => codeEscape_ne_openBracket (h ▸ hp)
    obtain ⟨he0, rfl⟩ := (codeEscape_iff hw hb).mp hp
    have h0' := List.not_mem_of_not_mem_cons (List.not_mem_of_not_mem_cons h0)
    refine hone hw (fun h => by cases h) fun c rest => ?_
    rw [doLike_escaped hw hb he0]
    exact and_congr decide_eq_true_iff.symm (ih h0')
  | case4 pattern hp ih =>
    have h0' := List.not_mem_of_not_mem_cons h0
    cases string with
    | nil =>
      rw [doLike_nil, onlyWildcards_cons, List.map_cons, lang_wildcard_nil]
      exact (and_iff_right rfl).trans onlyWildcards_iff
    | cons c string =>
      rw [doLike_wildcard, anySuffix_iff, List.map_cons, lang_wildcard]
      constructor
      · rintro (⟨t, -, ht, h⟩ | h)
        · exact ⟨t, ht, (ih h0').mp h⟩
        · exact ⟨[], List.nil_suffix, onlyWildcards_iff.mp h⟩
      · rintro ⟨t, ht, h⟩
        rcases eq_or_ne t [] with rfl | hne
        · exact Or.inr (onlyWildcards_iff.mpr h)
        · exact Or.inl ⟨t, hne, ht, (ih h0').mpr h⟩
  | case5 pattern hrest hp hw =>
    have h0' := List.not_mem_of_not_mem_cons h0
    refine hone hw (fun h => by cases h) fun c rest => ?_
    rw [doLike_set, matchSet_eq h0', hrest]
    simp [Token.codeAccepts, doLike, Lang]
  | case6 pattern hrest hp hw ih =>
    have h0' := List.not_mem_of_not_mem_cons h0
    refine hone hw (fun h => by cases h) fun c rest => ?_
    rw [doLike_set, matchSet_eq h0']
    exact and_congr Iff.rfl (ih fun h => h0' (mem_of_mem_setText (List.mem_of_mem_tail h)))
  | case7 pattern hp hw hb ih =>
    have h0' := List.not_mem_of_not_mem_cons h0
    refine hone hw (fun h => by cases h) fun c rest => ?_
    rw [doLike_char hw hb (mt (codeEscape_iff hw hb).mpr hp)]
    exact and_congr (iff_of_true (Or.inr rfl) rfl) (ih h0')
  | case8 p pattern hp hw hb hs ih =>
    have h0' := List.not_mem_of_not_mem_cons h0
    refine hone hw (fun h => by cases h) fun c rest => ?_
    rw [doLike_char hw hb (mt (codeEscape_iff hw hb).mpr hp)]
    have hchar : Token.codeAccepts u (.char p) c = true ↔
        wbemTowupper u p = wbemTowupper u c ∨ p = anySingleChar :=
      decide_eq_true_iff.trans (or_iff_left hs).symm
    exact and_congr hchar.symm (ih h0')

end NtAdmin.Wmi
