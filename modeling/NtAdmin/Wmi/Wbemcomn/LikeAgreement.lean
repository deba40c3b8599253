import NtAdmin.Wmi.Wbemcomn.LikeLanguage

/-! When `DoLike` accepts the language of the pattern. -/
namespace NtAdmin.Wmi

open Wildcard

variable {u : UpperCase} {escape : Wchar} {pattern string text rest : List Wchar}

/-- A string belongs to the language of the pattern exactly when `DoLike` accepts it. -/
def AcceptsLanguage (u : UpperCase) (escape : Wchar) (pattern : List Wchar) : Prop :=
  ∀ string : List Wchar, 0 ∉ string →
    (doLike u escape pattern string = true ↔ Matches u escape pattern string)

/-- Not an escaped underscore, not a set at the end of the pattern unless it is empty, and not a
negated set without closing bracket. -/
def Token.Regular : Token → Prop
  | .escaped x => x ≠ anySingleChar
  | .set _ items last => last = true → items = []
  | .unclosed negated => negated = false
  | _ => True

/-- Some part of the pattern takes no character. -/
def Dead (reading : Token → Wchar → Bool) (ts : List Token) : Prop :=
  ∃ t ∈ ts, t ≠ .wildcard ∧ ∀ c : Wchar, c ≠ 0 → reading t c = false

/-- The escape character has the same effect when wildcards and sets are looked for before it, and
all parts are regular. -/
def Regular (escape : Wchar) (pattern : List Wchar) : Prop :=
  tokens (codeEscape escape) pattern = tokens escape pattern ∧
    ∀ t ∈ tokens escape pattern, t.Regular

/-! ### Regular parts -/

theorem Token.Regular.codeAccepts_eq {t : Token} (h : t.Regular) (c : Wchar) :
    t.codeAccepts u c = t.accepts u c := by
  cases t with
  | escaped x =>
    have hx : x ≠ anySingleChar := h
    simp only [Token.codeAccepts, Token.accepts, hx, or_false]
  | set negated items last =>
    cases last with
    | false => simp only [Token.codeAccepts, Token.accepts, Bool.not_false, Bool.and_true]
    | true =>
      have hitems : items = [] := h rfl
      rw [hitems]
      rfl
  | unclosed negated => exact h
  | _ => rfl

theorem wbemTowupper_capitalA_ne (x : Wchar) (hx : x = anySingleChar ∨ x = caret) :
    wbemTowupper u x ≠ wbemTowupper u 65 := by
  have hA : wbemTowupper u 65 = 65 := by simp [wbemTowupper]
  rcases hx with rfl | rfl
  · have h : wbemTowupper u anySingleChar = 95 := by simp [wbemTowupper, anySingleChar]
    rw [h, hA]
    decide
  · have h : wbemTowupper u caret = 94 := by simp [wbemTowupper, caret]
    rw [h, hA]
    decide

theorem setItems_none (h0 : 0 ∉ text) :
    setItems none text = [] ∨ ∃ x, x ≠ 0 ∧ .char x ∈ setItems none text := by
  cases text with
  | nil => exact Or.inl rfl
  | cons x text =>
    have hx : x ≠ 0 := fun h => h0 (h ▸ List.mem_cons_self)
    exact Or.inr ⟨x, hx, List.mem_cons_self⟩

/-- Reading a part right for every character makes it regular. -/
theorem Token.regular_of_codeAccepts {t : Token}
    (hset : ∀ negated items last, t = .set negated items last →
      items = [] ∨ ∃ x, x ≠ 0 ∧ .char x ∈ items)
    (h : ∀ c : Wchar, c ≠ 0 → t.codeAccepts u c = t.accepts u c) : t.Regular := by
  have hA : (65 : Wchar) ≠ 0 := by decide
  cases t with
  | escaped x =>
    rintro rfl
    have hacc := h 65 hA
    have hne := wbemTowupper_capitalA_ne (u := u) anySingleChar (Or.inl rfl)
    simp [Token.codeAccepts, Token.accepts, hne] at hacc
  | set negated items last =>
    rintro rfl
    rcases hset _ _ _ rfl with hitems | ⟨x, hx, hmem⟩
    · exact hitems
    · have hacc := h x hx
      have hany : items.any (SetItem.accepts u x) = true :=
        List.any_eq_true.mpr ⟨_, hmem, decide_eq_true rfl⟩
      simp [Token.codeAccepts, Token.accepts, hany] at hacc
  | unclosed negated => exact h 65 hA
  | _ => trivial

/-! ### The classes of the parts -/

theorem mem_any_iff {reading : Token → Wchar → Bool} {ts : List Token} :
    Piece.any ∈ ts.map (piece reading) ↔ Token.wildcard ∈ ts := by
  simp only [List.mem_map]
  constructor
  · rintro ⟨t, ht, h⟩
    by_cases hw : t = .wildcard
    · rwa [hw] at ht
    · rw [piece, if_neg hw] at h
      cases h
  · exact fun h => ⟨_, h, if_pos rfl⟩

theorem ones_wildcard {reading : Token → Wchar → Bool} (ps : List (Piece Wchar)) :
    ones (piece reading .wildcard :: ps) = ones ps := by
  rw [piece, if_pos rfl]
  rfl

theorem ones_one {reading : Token → Wchar → Bool} {t : Token} (ht : t ≠ .wildcard)
    (ps : List (Piece Wchar)) :
    ones (piece reading t :: ps) = (fun c => reading t c = true) :: ones ps := by
  rw [piece, if_neg ht]
  rfl

theorem mem_ones_iff {reading : Token → Wchar → Bool} {ts : List Token} {accepts : Wchar → Prop} :
    accepts ∈ ones (ts.map (piece reading)) ↔
      ∃ t ∈ ts, t ≠ .wildcard ∧ accepts = fun c => reading t c = true := by
  induction ts with
  | nil => simp [ones]
  | cons t ts ih =>
    by_cases ht : t = .wildcard
    · rw [List.map_cons, ht, ones_wildcard, ih]
      simp
    · rw [List.map_cons, ones_one ht, List.mem_cons, ih]
      simp [ht]

theorem not_alive_iff {reading : Token → Wchar → Bool} {ts : List Token} :
    ¬Alive nonzero (ts.map (piece reading)) ↔ Dead reading ts := by
  unfold Alive Dead
  push Not
  constructor
  · rintro ⟨accepts, hmem, h⟩
    obtain ⟨t, ht, hw, rfl⟩ := mem_ones_iff.mp hmem
    exact ⟨t, ht, hw, fun c hc => Bool.eq_false_iff.mpr (h c hc)⟩
  · rintro ⟨t, ht, hw, h⟩
    exact ⟨_, mem_ones_iff.mpr ⟨t, ht, hw, rfl⟩, fun c hc => Bool.eq_false_iff.mp (h c hc)⟩

/-- Readings whose classes agree one by one agree on every part. -/
theorem reading_of_classes {reading reading' : Token → Wchar → Bool} {ts : List Token}
    (h : List.Forall₂ (fun a b : Wchar → Prop => ∀ c ∈ nonzero, a c → b c)
      (ones (ts.map (piece reading))) (ones (ts.map (piece reading')))) {t : Token}
    (ht : t ∈ ts) (hw : t ≠ .wildcard) {c : Wchar} (hc : c ≠ 0) (hread : reading t c = true) :
    reading' t c = true := by
  induction ts with
  | nil => nomatch ht
  | cons t' ts ih =>
    by_cases hw' : t' = .wildcard
    · rw [List.map_cons, List.map_cons, hw', ones_wildcard, ones_wildcard] at h
      rcases List.mem_cons.mp ht with rfl | ht
      · exact absurd hw' hw
      · exact ih h ht
    · rw [List.map_cons, List.map_cons, ones_one hw', ones_one hw'] at h
      obtain ⟨hhead, htail⟩ := List.forall₂_cons.mp h
      rcases List.mem_cons.mp ht with rfl | ht
      · exact hhead c hc hread
      · exact ih htail ht

/-! ### The parts of a pattern -/

theorem setText_append (pattern : List Wchar) : pattern =
    (if (setText pattern).1 = true then [caret] else []) ++ (setText pattern).2.1 ++
      (setText pattern).2.2 := by
  have hbody : ∀ body : List Wchar,
      body.takeWhile (· ≠ closeBracket) ++ body.dropWhile (· ≠ closeBracket) = body :=
    fun _ => List.takeWhile_append_dropWhile
  rw [List.append_assoc]
  simp only [setText, decide_eq_true_eq]
  split
  · rename_i hhead
    rw [hbody]
    exact (List.cons_head?_tail hhead).symm
  · rw [hbody]
    rfl

theorem closeBracket_not_mem_setText (pattern : List Wchar) :
    closeBracket ∉ (setText pattern).2.1 := by
  intro h
  have hne := List.mem_takeWhile_imp h
  simp at hne

theorem setText_rest (pattern : List Wchar) (h : (setText pattern).2.2 ≠ []) :
    (setText pattern).2.2 = closeBracket :: (setText pattern).2.2.tail := by
  obtain ⟨x, rest, hrest⟩ := List.exists_cons_of_ne_nil h
  have hhead := List.head?_dropWhile_not (p := (· ≠ closeBracket))
    (l := if pattern.head? = some caret then pattern.tail else pattern)
  have hdrop : (if pattern.head? = some caret then pattern.tail else pattern).dropWhile
      (· ≠ closeBracket) = x :: rest := hrest
  rw [hdrop] at hhead
  have hx : x = closeBracket := by simpa using hhead
  rw [hrest, hx]
  rfl

theorem mem_setItems (h0 : 0 ∉ pattern) {t : Token} (ht : t ∈ tokens escape pattern)
    {negated last : Bool} {items : List SetItem} (heq : t = .set negated items last) :
    items = [] ∨ ∃ x, x ≠ 0 ∧ .char x ∈ items := by
  fun_induction tokens escape pattern with
  | case1 => cases ht
  | case2 p hp =>
    rw [List.mem_singleton.mp ht] at heq
    cases heq
  | case5 pattern hrest hp hw =>
    rw [List.mem_singleton.mp ht] at heq
    cases heq
  | case3 p hp x pattern ih =>
    rcases List.mem_cons.mp ht with rfl | ht
    · cases heq
    · exact ih (fun h => h0 (List.mem_cons_of_mem _ (List.mem_cons_of_mem _ h))) ht
  | case6 pattern hrest hp hw ih =>
    have h0' := List.not_mem_of_not_mem_cons h0
    rcases List.mem_cons.mp ht with rfl | ht
    · obtain ⟨-, rfl, -⟩ := Token.set.inj heq
      refine setItems_none fun h => h0' ?_
      rw [setText_append pattern]
      exact List.mem_append_left _ (List.mem_append_right _ h)
    · exact ih (fun h => h0' (mem_of_mem_setText (List.mem_of_mem_tail h))) ht
  | case4 pattern hp ih =>
    rcases List.mem_cons.mp ht with rfl | ht
    · cases heq
    · exact ih (List.not_mem_of_not_mem_cons h0) ht
  | case7 pattern hp hw hb ih =>
    rcases List.mem_cons.mp ht with rfl | ht
    · cases heq
    · exact ih (List.not_mem_of_not_mem_cons h0) ht
  | case8 p pattern hp hw hb hs ih =>
    rcases List.mem_cons.mp ht with rfl | ht
    · cases heq
    · exact ih (List.not_mem_of_not_mem_cons h0) ht

/-! ### The wildcard as escape character -/

theorem wildcard_not_mem_tokens : Token.wildcard ∉ tokens wildcard pattern := by
  fun_induction tokens wildcard pattern with
  | case4 pattern hp ih => exact absurd ⟨by decide, rfl⟩ hp
  | _ => simp_all

theorem tokens_wildcard_escape (h : Token.wildcard ∉ tokens 0 pattern) :
    tokens 0 pattern = tokens wildcard pattern := by
  fun_induction tokens 0 pattern with
  | case1 => rw [tokens]
  | case2 p hp => exact absurd rfl hp.1
  | case3 p hp x pattern ih => exact absurd rfl hp.1
  | case4 pattern hp ih => exact absurd List.mem_cons_self h
  | case5 pattern hrest hp hw =>
    rw [tokens.eq_def]
    simp [hrest, hw]
  | case6 pattern hrest hp hw ih =>
    rw [ih (List.not_mem_of_not_mem_cons h), tokens.eq_def wildcard (openBracket :: pattern)]
    simp [hrest, hw]
  | case7 pattern hp hw hb ih =>
    rw [ih (List.not_mem_of_not_mem_cons h), tokens.eq_def wildcard (anySingleChar :: pattern)]
    simp [hb, hw]
  | case8 p pattern hp hw hb hs ih =>
    rw [ih (List.not_mem_of_not_mem_cons h), tokens.eq_def wildcard (p :: pattern)]
    simp [hb, hw, hs]

/-! ### The opening bracket as escape character -/

theorem tokens_bracket_escaped (x : Wchar) :
    tokens openBracket (openBracket :: x :: pattern) =
      .escaped x :: tokens openBracket pattern := by
  have h0 : openBracket ≠ 0 := by decide
  rw [tokens.eq_def]
  simp only [h0, ne_eq, not_false_eq_true, and_self, if_true]

theorem tokens_bracket_char {x : Wchar} (hx : x ≠ openBracket) :
    tokens openBracket (x :: pattern) =
      (if x = wildcard then .wildcard else if x = anySingleChar then .single else .char x) ::
        tokens openBracket pattern := by
  rw [tokens.eq_def]
  simp only [hx, and_false, if_false]
  split
  · rfl
  · split <;> rfl

/-- The number of parts that take one character. -/
def countOnes (ts : List Token) : ℕ := ts.countP (· ≠ .wildcard)

theorem length_ones {reading : Token → Wchar → Bool} (ts : List Token) :
    (ones (ts.map (piece reading))).length = countOnes ts := by
  induction ts with
  | nil => rfl
  | cons t ts ih =>
    by_cases ht : t = .wildcard
    · rw [List.map_cons, ht, ones_wildcard, ih]
      rfl
    · rw [List.map_cons, ones_one ht, List.length_cons, ih]
      simp [countOnes, ht]

theorem countOnes_cons_le (t : Token) (ts : List Token) : countOnes ts ≤ countOnes (t :: ts) := by
  rw [countOnes, countOnes, List.countP_cons]
  exact Nat.le_add_right _ _

theorem countOnes_cons {t : Token} (ht : t ≠ .wildcard) (ts : List Token) :
    countOnes (t :: ts) = countOnes ts + 1 := by
  simp [countOnes, ht]

/-- The closing bracket ends a part when the opening bracket escapes. -/
theorem countOnes_text : ∀ text : List Wchar, closeBracket ∉ text →
    countOnes (tokens openBracket rest) + 1 ≤
      countOnes (tokens openBracket (text ++ closeBracket :: rest))
  | [], _ => by
    have hne : closeBracket ≠ openBracket := by decide
    rw [List.nil_append, tokens_bracket_char hne]
    exact (countOnes_cons (by decide) _).ge
  | x :: text, h => by
    have ih := countOnes_text text (List.not_mem_of_not_mem_cons h)
    by_cases hx : x = openBracket
    · cases text with
      | nil =>
        rw [hx, List.singleton_append, tokens_bracket_escaped]
        exact (countOnes_cons (t := .escaped closeBracket) nofun _).ge
      | cons y text =>
        have ih := countOnes_text text
          (List.not_mem_of_not_mem_cons (List.not_mem_of_not_mem_cons h))
        rw [hx, List.cons_append, List.cons_append, tokens_bracket_escaped]
        exact Nat.le_trans ih (countOnes_cons_le _ _)
    · rw [List.cons_append, tokens_bracket_char hx]
      exact Nat.le_trans ih (countOnes_cons_le _ _)

theorem tokens_zero_char {x : Wchar} (hx : x ≠ openBracket) :
    tokens 0 (x :: pattern) =
      (if x = wildcard then .wildcard else if x = anySingleChar then .single else .char x) ::
        tokens 0 pattern := by
  rw [tokens.eq_def]
  simp only [hx, ne_eq, not_true_eq_false, false_and, if_false]
  split
  · rfl
  · split <;> rfl

/-- The text of a closed set has two parts or more, unless it is empty. -/
theorem countOnes_set (h : (setText pattern).2.2 ≠ []) :
    countOnes (tokens openBracket (setText pattern).2.2.tail) +
        (if (setText pattern).1 = true ∨ (setText pattern).2.1 ≠ [] then 2 else 1) ≤
      countOnes (tokens openBracket (openBracket :: pattern)) := by
  have hsplit := setText_append pattern
  have htext := closeBracket_not_mem_setText pattern
  rw [setText_rest pattern h] at hsplit
  have hescaped : ∀ x pattern, countOnes (tokens openBracket (openBracket :: x :: pattern)) =
      countOnes (tokens openBracket pattern) + 1 := by
    intro x pattern
    rw [tokens_bracket_escaped, countOnes_cons (t := .escaped x) nofun]
  generalize (setText pattern).2.2.tail = rest at hsplit ⊢
  generalize (setText pattern).2.1 = text at hsplit htext ⊢
  by_cases hneg : (setText pattern).1 = true
  · rw [if_pos hneg, List.append_assoc, List.singleton_append] at hsplit
    have hcount : countOnes (tokens openBracket rest) + 1 ≤
        countOnes (tokens openBracket (text ++ closeBracket :: rest)) := countOnes_text text htext
    rw [hsplit, hescaped, if_pos (Or.inl (hsplit ▸ hneg))]
    omega
  · rw [if_neg hneg, List.nil_append] at hsplit
    cases text with
    | nil =>
      have hcond : ¬((setText pattern).1 = true ∨ ([] : List Wchar) ≠ []) := by
        simp [hneg]
      rw [if_neg hcond, hsplit, List.nil_append, hescaped]
    | cons x text =>
      have hcount : countOnes (tokens openBracket rest) + 1 ≤
          countOnes (tokens openBracket (text ++ closeBracket :: rest)) :=
        countOnes_text text (List.not_mem_of_not_mem_cons htext)
      rw [if_pos (Or.inr (List.cons_ne_nil x text)), hsplit, List.cons_append, hescaped]
      omega

theorem countOnes_bracket_le :
    countOnes (tokens 0 pattern) ≤ countOnes (tokens openBracket pattern) := by
  have hcons : ∀ (t : Token) {ts ts' : List Token}, countOnes ts ≤ countOnes ts' →
      countOnes (t :: ts) ≤ countOnes (t :: ts') := by
    intro t ts ts' h
    rw [countOnes, countOnes, List.countP_cons, List.countP_cons]
    exact Nat.add_le_add_right h _
  fun_induction tokens 0 pattern with
  | case1 => exact Nat.zero_le _
  | case2 p hp => exact absurd rfl hp.1
  | case3 p hp x pattern ih => exact absurd rfl hp.1
  | case4 pattern hp ih =>
    rw [tokens_bracket_char (by decide), if_pos rfl]
    exact hcons _ ih
  | case5 pattern hrest hp hw =>
    have hone := countOnes_cons (t := .unclosed (setText pattern).1) (fun h => by cases h) []
    rw [hone]
    cases pattern with
    | nil =>
      rw [tokens.eq_def]
      decide
    | cons x pattern =>
      rw [tokens_bracket_escaped, countOnes_cons (t := .escaped x) fun h => by cases h]
      exact Nat.le_add_left 1 _
  | case6 pattern hrest hp hw ih =>
    have hset := countOnes_set hrest
    have hone := countOnes_cons (t := .set (setText pattern).1 (setItems none (setText pattern).2.1)
      ((setText pattern).2.2.tail = [])) (fun h => by cases h) (tokens 0 (setText pattern).2.2.tail)
    split at hset <;> omega
  | case7 pattern hp hw hb ih =>
    rw [tokens_bracket_char hb, if_neg hw, if_pos rfl]
    exact hcons _ ih
  | case8 p pattern hp hw hb hs ih =>
    rw [tokens_bracket_char hb, if_neg hw, if_neg hs]
    exact hcons _ ih

theorem head_caret (h : (setText pattern).1 = true) : ∃ rest, pattern = caret :: rest := by
  have hhead : pattern.head? = some caret := of_decide_eq_true h
  exact ⟨_, (List.cons_head?_tail hhead).symm⟩

/-- Reading brackets as escapes changes the language of a pattern with a set. -/
theorem tokens_bracket_escape
    (halive : Alive nonzero ((tokens 0 pattern).map (piece (Token.codeAccepts u))))
    (hclasses : List.Forall₂ (fun a b : Wchar → Prop => ∀ c ∈ nonzero, a c → b c)
      (ones ((tokens 0 pattern).map (piece (Token.codeAccepts u))))
      (ones ((tokens openBracket pattern).map (piece (Token.accepts u))))) :
    tokens 0 pattern = tokens openBracket pattern := by
  fun_induction tokens 0 pattern with
  | case1 => rw [tokens]
  | case2 p hp => exact absurd rfl hp.1
  | case3 p hp x pattern ih => exact absurd rfl hp.1
  | case4 pattern hp ih =>
    have heq : tokens openBracket (wildcard :: pattern) =
        .wildcard :: tokens openBracket pattern := tokens_bracket_char (by decide)
    rw [heq, List.map_cons, List.map_cons, ones_wildcard, ones_wildcard] at hclasses
    rw [List.map_cons, Alive, ones_wildcard] at halive
    rw [heq, ih halive hclasses]
  | case5 pattern hrest hp hw =>
    -- Only a negated set takes a character, and it takes all of them.
    have hneg : (setText pattern).1 = true := by
      obtain ⟨c, -, hc⟩ := halive _ (mem_ones_iff.mpr ⟨_, List.mem_singleton_self _, nofun, rfl⟩)
      exact hc
    obtain ⟨rest, hcaret⟩ := head_caret hneg
    rw [hneg, hcaret, tokens_bracket_escaped, List.map_cons, List.map_cons,
      ones_one (t := .unclosed true) nofun, ones_one (t := .escaped caret) nofun] at hclasses
    have hA : Token.accepts u (.escaped caret) 65 = true :=
      (List.forall₂_cons.mp hclasses).1 65 (by decide : (65 : Wchar) ≠ 0) rfl
    have hne := wbemTowupper_capitalA_ne (u := u) caret (Or.inr rfl)
    exact absurd (by simpa [Token.accepts] using hA) hne
  | case6 pattern hrest hp hw ih =>
    -- The escapes make more parts than the set.
    have hlen := hclasses.length_eq
    rw [length_ones, length_ones] at hlen
    have hset := countOnes_set hrest
    have hle : countOnes (tokens 0 (setText pattern).2.2.tail) ≤
        countOnes (tokens openBracket (setText pattern).2.2.tail) := countOnes_bracket_le
    have hone := countOnes_cons (t := .set (setText pattern).1 (setItems none (setText pattern).2.1)
      ((setText pattern).2.2.tail = [])) nofun (tokens 0 (setText pattern).2.2.tail)
    have hdead : (setText pattern).1 = true ∨ (setText pattern).2.1 ≠ [] := by
      by_contra hcon
      obtain ⟨hneg, htext⟩ := not_or.mp hcon
      obtain ⟨c, -, hc⟩ := halive _ (mem_ones_iff.mpr ⟨_, List.mem_cons_self, nofun, rfl⟩)
      rw [not_not.mp htext, Bool.eq_false_iff.mpr hneg] at hc
      exact Bool.noConfusion hc
    rw [if_pos hdead] at hset
    omega
  | case7 pattern hp hw hb ih =>
    have heq : tokens openBracket (anySingleChar :: pattern) =
        .single :: tokens openBracket pattern := tokens_bracket_char hb
    rw [heq, List.map_cons, List.map_cons, ones_one (t := .single) nofun,
      ones_one (t := .single) nofun] at hclasses
    rw [List.map_cons, Alive, ones_one (t := .single) nofun] at halive
    rw [heq, ih (fun a ha => halive a (List.mem_cons_of_mem _ ha))
      (List.forall₂_cons.mp hclasses).2]
  | case8 p pattern hp hw hb hs ih =>
    have heq : tokens openBracket (p :: pattern) = .char p :: tokens openBracket pattern := by
      rw [tokens_bracket_char hb, if_neg hw, if_neg hs]
    rw [heq, List.map_cons, List.map_cons, ones_one (t := .char p) nofun,
      ones_one (t := .char p) nofun] at hclasses
    rw [List.map_cons, Alive, ones_one (t := .char p) nofun] at halive
    rw [heq, ih (fun a ha => halive a (List.mem_cons_of_mem _ ha))
      (List.forall₂_cons.mp hclasses).2]

/-! ### The condition -/

theorem same_iff (h0 : 0 ∉ pattern) : AcceptsLanguage u escape pattern ↔
    Same nonzero ((tokens (codeEscape escape) pattern).map (piece (Token.codeAccepts u)))
      ((tokens escape pattern).map (piece (Token.accepts u))) := by
  have hnonzero : ∀ s : List Wchar, (∀ c ∈ s, c ∈ nonzero) ↔ 0 ∉ s := by
    intro s
    exact ⟨fun h hmem => h 0 hmem rfl, fun h c hc hzero => h (hzero ▸ hc)⟩
  constructor
  · intro h s hs
    exact (doLike_iff h0).symm.trans (h s ((hnonzero s).mp hs))
  · intro h s hs
    exact (doLike_iff h0).trans (h s ((hnonzero s).mpr hs))

theorem tokens_codeEscape (h : Same nonzero
      ((tokens (codeEscape escape) pattern).map (piece (Token.codeAccepts u)))
      ((tokens escape pattern).map (piece (Token.accepts u))))
    (halive : Alive nonzero
      ((tokens (codeEscape escape) pattern).map (piece (Token.codeAccepts u)))) :
    tokens (codeEscape escape) pattern = tokens escape pattern := by
  by_cases hw : escape = wildcard
  · rw [hw] at h halive ⊢
    refine tokens_wildcard_escape fun hmem => ?_
    have hany := h.any_mem halive (by decide : (65 : Wchar) ≠ 0) (mem_any_iff.mpr hmem)
    exact wildcard_not_mem_tokens (mem_any_iff.mp hany)
  · by_cases hb : escape = openBracket
    · rw [hb] at h halive ⊢
      exact tokens_bracket_escape halive (h.classes halive)
    · have hcode : codeEscape escape = escape := if_neg (not_or.mpr ⟨hw, hb⟩)
      rw [hcode]

/-- `DoLike` accepts the language of the pattern exactly when the pattern is regular, or some part
takes no character either way. -/
theorem acceptsLanguage_iff (h0 : 0 ∉ pattern) : AcceptsLanguage u escape pattern ↔
    Regular escape pattern ∨
      Dead (Token.codeAccepts u) (tokens (codeEscape escape) pattern) ∧
        Dead (Token.accepts u) (tokens escape pattern) := by
  rw [same_iff h0]
  constructor
  · intro h
    by_cases halive : Alive nonzero
        ((tokens (codeEscape escape) pattern).map (piece (Token.codeAccepts u)))
    · left
      have htokens := tokens_codeEscape h halive
      have hcode := h.classes halive
      have hspec := h.symm.classes (h.alive halive)
      rw [htokens] at hcode hspec
      refine ⟨htokens, fun t ht => ?_⟩
      by_cases hw : t = .wildcard
      · rw [hw]
        trivial
      · refine Token.regular_of_codeAccepts (u := u)
          (fun _ _ _ heq => mem_setItems h0 ht heq) fun c hc => ?_
        exact Bool.eq_iff_iff.mpr ⟨reading_of_classes hcode ht hw hc,
          reading_of_classes hspec ht hw hc⟩
    · right
      exact ⟨not_alive_iff.mp halive, not_alive_iff.mp fun hs => halive (h.symm.alive hs)⟩
  · rintro (⟨htokens, hregular⟩ | ⟨hcode, hspec⟩)
    · have hmap : (tokens escape pattern).map (piece (Token.codeAccepts u)) =
          (tokens escape pattern).map (piece (Token.accepts u)) := by
        refine List.map_congr_left fun t ht => ?_
        unfold piece
        simp only [(hregular t ht).codeAccepts_eq]
      rw [htokens, hmap]
      exact fun s hs => Iff.rfl
    · intro s hs
      exact iff_of_false (fun hl => not_alive_iff.mpr hcode (alive_of_lang hl hs))
        fun hl => not_alive_iff.mpr hspec (alive_of_lang hl hs)

/-- Capital letters of ASCII only. -/
def asciiUpperCase : UpperCase where
  map c := if c = 0 then 1 else c
  map_ne_zero c := by split <;> simp_all

/-- `a!%[b]%` with the exclamation mark as escape character. -/
theorem acceptsLanguage_escaped_wildcard :
    AcceptsLanguage asciiUpperCase 33 [97, 33, 37, 91, 98, 93, 37] := by
  refine (acceptsLanguage_iff (by decide)).mpr (Or.inl ⟨rfl, ?_⟩)
  have htokens : tokens 33 [97, 33, 37, 91, 98, 93, 37] =
      [.char 97, .escaped 37, .set false [.char 98] false, .wildcard] := by
    simp [tokens, setText, setItems, wildcard, openBracket, closeBracket, caret, anySingleChar]
  rw [htokens]
  simp [Token.Regular, anySingleChar]

/-- `[a]` does not match `a`. -/
theorem not_acceptsLanguage_last_set : ¬AcceptsLanguage asciiUpperCase 0 [91, 97, 93] := by
  intro h
  have htokens : tokens 0 [91, 97, 93] = [.set false [.char 97] true] := by
    simp [tokens, setText, setItems, wildcard, openBracket, closeBracket, caret]
  have hmatches : Matches asciiUpperCase 0 [91, 97, 93] [97] := by
    rw [Matches, htokens]
    exact ⟨97, [], rfl, by decide, rfl⟩
  have hlike := (h [97] (by decide)).mpr hmatches
  have hset := (doLike_set.mp hlike).1
  exact absurd hset (by decide)

end NtAdmin.Wmi
