import NtAdmin.Wmi.Wbemcomn.Like

/-! The values of the keys in an instance path, as a51rep.cpp reads them. A pointer is the memory
from there on. -/
namespace NtAdmin.Wmi.A51

def quote : Wchar := 39
def doubleQuote : Wchar := 34
def backslash : Wchar := 92
def comma : Wchar := 44
def lowerX : Wchar := 120
def upperX : Wchar := 88

inductive ParseError
  | invalidObjectPath
  deriving DecidableEq

/-- The loop between single quotes: what is copied, and the memory from `pwcRead` on. `none` if it
reads behind the memory. -/
def copyQuoted (copied : List Wchar) : List Wchar → Option (List Wchar × List Wchar)
  | [] => none
  | c :: pwcRead =>
    if c ≠ 0 ∧ c ≠ quote then copyQuoted (copied ++ [c]) pwcRead else some (copied, c :: pwcRead)

/-- The loop between double quotes, where a backslash escapes what is not an `x`. -/
def copyEscaped (copied : List Wchar) : List Wchar → Option (List Wchar × List Wchar)
  | [] => none
  | c :: pwcRead =>
    if c ≠ 0 ∧ c ≠ doubleQuote then
      if c = backslash then
        match pwcRead with
        | [] => none
        | next :: pwcRead =>
          if next ≠ lowerX ∧ next ≠ upperX then copyEscaped (copied ++ [next]) pwcRead
          else copyEscaped (copied ++ [c]) (next :: pwcRead)
      else copyEscaped (copied ++ [c]) pwcRead
    else some (copied, c :: pwcRead)

/-- Behind the loop: the closing quote and the separator. Gives the value and `*pwcNextKey`. -/
def checkSeparator : List Wchar × List Wchar → Option (Except ParseError (List Wchar × List Wchar))
  | (_, []) => none
  | (copied, c :: pwcRead) =>
    if c = 0 then some (.error .invalidObjectPath)
    else
      match pwcRead with
      | [] => none
      | separator :: next =>
        if separator ≠ 0 ∧ separator ≠ comma then some (.error .invalidObjectPath)
        else if separator ≠ 0 then some (.ok (copied, next))
        else some (.ok (copied, separator :: next))

/-- A value without quotes ends before a comma or with the string. -/
def copyPlain (copied : List Wchar) : List Wchar → Option (List Wchar × List Wchar)
  | [] => none
  | c :: rest =>
    if c = 0 then some (copied, c :: rest)
    else if c = comma then some (copied, rest)
    else copyPlain (copied ++ [c]) rest

def parseKey (wszKeyStart : List Wchar) : Option (Except ParseError (List Wchar × List Wchar)) :=
  match wszKeyStart with
  | [] => none
  | c :: pwcRead =>
    if c = quote then (copyQuoted [] pwcRead).bind checkSeparator
    else if c = doubleQuote then (copyEscaped [] pwcRead).bind checkSeparator
    else (copyPlain [] (c :: pwcRead)).map .ok

/-! ### What is between the quotes -/

/-- The characters between double quotes, and the value that they stand for. -/
inductive Body : List Wchar → List Wchar → Prop
  | nil : Body [] []
  | plain {c text value} : c ≠ 0 → c ≠ doubleQuote → c ≠ backslash → Body text value →
      Body (c :: text) (c :: value)
  | escape {c text value} : c ≠ 0 → c ≠ lowerX → c ≠ upperX → Body text value →
      Body (backslash :: c :: text) (c :: value)
  | hex {c text value} : c = lowerX ∨ c = upperX → Body (c :: text) value →
      Body (backslash :: c :: text) (backslash :: value)

/-- What follows a closing quote in a string, and the string that is left for the next key. -/
inductive Separated : List Wchar → List Wchar → Prop
  | last : Separated [] []
  | more (next) : Separated (comma :: next) next

/-- The value of a key at the front of a string, and what is left of the string. -/
inductive Parsed : List Wchar → List Wchar → List Wchar → Prop
  | single {text after next} : (∀ c ∈ text, c ≠ quote) → Separated after next →
      Parsed (quote :: (text ++ quote :: after)) text next
  | double {text value after next} : Body text value → Separated after next →
      Parsed (doubleQuote :: (text ++ doubleQuote :: after)) value next
  | plain {text after next} : text.head? ≠ some quote → text.head? ≠ some doubleQuote →
      (∀ c ∈ text, c ≠ comma) → Separated after next → Parsed (text ++ after) text next

/-- A string that opens a double quote and ends with the backslash of an escape. -/
def TrailingEscape (s : List Wchar) : Prop :=
  ∃ text value, Body text value ∧ s = doubleQuote :: (text ++ [backslash])

/-- The scan of the string in any memory stays in front of its end, and a value that it gives is the
one that the quotes delimit. -/
def ScannedWithin (s : List Wchar) : Prop :=
  ∀ behind, ∃ result, parseKey (s ++ 0 :: behind) = some result ∧
    ∀ value pwcNextKey, result = .ok (value, pwcNextKey) →
      ∃ next, pwcNextKey = next ++ 0 :: behind ∧ Parsed s value next

theorem copyQuoted_append (copied : List Wchar) {text : List Wchar}
    (h : ∀ c ∈ text, c ≠ 0 ∧ c ≠ quote) (rest : List Wchar) :
    copyQuoted copied (text ++ rest) = copyQuoted (copied ++ text) rest := by
  induction text generalizing copied with
  | nil => rw [List.nil_append, List.append_nil]
  | cons c text ih =>
    rw [List.cons_append, copyQuoted, if_pos (h c List.mem_cons_self),
      ih _ fun d hd => h d (List.mem_cons_of_mem c hd), List.append_assoc, List.singleton_append]

theorem copyPlain_append (copied : List Wchar) {text : List Wchar}
    (h : ∀ c ∈ text, c ≠ 0 ∧ c ≠ comma) (rest : List Wchar) :
    copyPlain copied (text ++ rest) = copyPlain (copied ++ text) rest := by
  induction text generalizing copied with
  | nil => rw [List.nil_append, List.append_nil]
  | cons c text ih =>
    obtain ⟨hzero, hcomma⟩ := h c List.mem_cons_self
    rw [List.cons_append, copyPlain, if_neg hzero, if_neg hcomma,
      ih _ fun d hd => h d (List.mem_cons_of_mem c hd), List.append_assoc, List.singleton_append]

theorem copyEscaped_body {text value : List Wchar} (h : Body text value)
    (copied rest : List Wchar) :
    copyEscaped copied (text ++ rest) = copyEscaped (copied ++ value) rest := by
  induction h generalizing copied with
  | nil => rw [List.nil_append, List.append_nil]
  | plain hzero hquote hslash _ ih =>
    rw [List.cons_append, copyEscaped.eq_def]
    dsimp only
    rw [if_pos ⟨hzero, hquote⟩, if_neg hslash, ih, List.append_assoc, List.singleton_append]
  | escape _ hlower hupper _ ih =>
    rw [List.cons_append, List.cons_append, copyEscaped.eq_def]
    dsimp only
    rw [if_pos (by decide), if_pos rfl, if_pos ⟨hlower, hupper⟩, ih, List.append_assoc,
      List.singleton_append]
  | hex hx _ ih =>
    rw [List.cons_append, List.cons_append, copyEscaped.eq_def]
    dsimp only
    rw [if_pos (by decide), if_pos rfl, if_neg fun hnot => hx.elim hnot.1 hnot.2,
      ← List.cons_append, ih, List.append_assoc, List.singleton_append]

/-- What stands behind an opening double quote. -/
theorem body_cases (s : List Wchar) (h : ∀ c ∈ s, c ≠ 0) :
    (∃ text value after, Body text value ∧ s = text ++ doubleQuote :: after) ∨
      (∃ value, Body s value) ∨ ∃ text value, Body text value ∧ s = text ++ [backslash] := by
  -- an escape takes two characters
  induction hn : s.length using Nat.strongRecOn generalizing s with
  | _ n ih =>
    subst hn
    cases s with
    | nil => exact Or.inr (Or.inl ⟨[], .nil⟩)
    | cons c s =>
      have hc := h c List.mem_cons_self
      have hs : ∀ d ∈ s, d ≠ 0 := fun d hd => h d (List.mem_cons_of_mem c hd)
      by_cases hquote : c = doubleQuote
      · subst hquote
        exact Or.inl ⟨[], [], s, .nil, rfl⟩
      by_cases hslash : c = backslash
      · subst hslash
        cases s with
        | nil => exact Or.inr (Or.inr ⟨[], [], .nil, rfl⟩)
        | cons d s =>
          have hd := hs d List.mem_cons_self
          by_cases hx : d = lowerX ∨ d = upperX
          · -- the `x` starts what is left
            have hne : d ≠ doubleQuote ∧ d ≠ backslash := by
              obtain rfl | rfl := hx <;> decide
            obtain ⟨text, value, after, hbody, hsplit⟩ | ⟨value, hbody⟩ |
                ⟨text, value, hbody, hsplit⟩ :=
              ih (d :: s).length (Nat.lt_succ_self _) (d :: s) hs rfl
            · cases text with
              | nil => exact absurd (List.cons.inj hsplit).1 hne.1
              | cons e text =>
                obtain ⟨rfl, rfl⟩ := List.cons.inj hsplit
                exact Or.inl ⟨backslash :: d :: text, _, after, .hex hx hbody, rfl⟩
            · exact Or.inr (Or.inl ⟨_, .hex hx hbody⟩)
            · cases text with
              | nil => exact absurd (List.cons.inj hsplit).1 hne.2
              | cons e text =>
                obtain ⟨rfl, rfl⟩ := List.cons.inj hsplit
                exact Or.inr (Or.inr ⟨backslash :: d :: text, _, .hex hx hbody, rfl⟩)
          · obtain ⟨hlower, hupper⟩ := not_or.1 hx
            obtain ⟨text, value, after, hbody, rfl⟩ | ⟨value, hbody⟩ |
                ⟨text, value, hbody, rfl⟩ :=
              ih s.length (Nat.lt_succ_of_lt (Nat.lt_succ_self _)) s
                (fun e he => hs e (List.mem_cons_of_mem d he)) rfl
            · exact Or.inl ⟨backslash :: d :: text, _, after, .escape hd hlower hupper hbody, rfl⟩
            · exact Or.inr (Or.inl ⟨_, .escape hd hlower hupper hbody⟩)
            · exact Or.inr (Or.inr ⟨backslash :: d :: text, _, .escape hd hlower hupper hbody, rfl⟩)
      · obtain ⟨text, value, after, hbody, rfl⟩ | ⟨value, hbody⟩ | ⟨text, value, hbody, rfl⟩ :=
          ih s.length (Nat.lt_succ_self _) s hs rfl
        · exact Or.inl ⟨c :: text, c :: value, after, .plain hc hquote hslash hbody, rfl⟩
        · exact Or.inr (Or.inl ⟨c :: value, .plain hc hquote hslash hbody⟩)
        · exact Or.inr (Or.inr ⟨c :: text, c :: value, .plain hc hquote hslash hbody, rfl⟩)

/-- The check behind a quote that closes in the string. -/
theorem checkSeparator_closed (copied after behind : List Wchar) {q : Wchar} (hq : q ≠ 0)
    (hafter : ∀ c ∈ after, c ≠ 0) :
    ∃ result, checkSeparator (copied, q :: (after ++ 0 :: behind)) = some result ∧
      ∀ value pwcNextKey, result = .ok (value, pwcNextKey) →
        value = copied ∧ ∃ next, pwcNextKey = next ++ 0 :: behind ∧ Separated after next := by
  cases after with
  | nil =>
    refine ⟨.ok (copied, 0 :: behind), ?_, ?_⟩
    · rw [List.nil_append, checkSeparator, if_neg hq]
      rfl
    · rintro value pwcNextKey ⟨⟩
      exact ⟨rfl, [], rfl, .last⟩
  | cons c after =>
    have hc := hafter c List.mem_cons_self
    by_cases hcomma : c = comma
    · subst hcomma
      refine ⟨.ok (copied, after ++ 0 :: behind), ?_, ?_⟩
      · rw [List.cons_append, checkSeparator, if_neg hq]
        rfl
      · rintro value pwcNextKey ⟨⟩
        exact ⟨rfl, after, rfl, .more after⟩
    · refine ⟨.error .invalidObjectPath, ?_, fun value pwcNextKey h => by cases h⟩
      rw [List.cons_append, checkSeparator, if_neg hq, if_pos ⟨hc, hcomma⟩]

theorem scannedWithin_single {s : List Wchar} (h : ∀ c ∈ s, c ≠ 0) :
    ScannedWithin (quote :: s) := by
  intro behind
  by_cases hmem : quote ∈ s
  · obtain ⟨text, after, rfl, htext⟩ := List.eq_append_cons_of_mem hmem
    obtain ⟨result, hresult, hok⟩ := checkSeparator_closed text after behind
      (show quote ≠ 0 by decide) fun c hc => h c (by simp [hc])
    have hloop : copyQuoted [] (text ++ quote :: (after ++ 0 :: behind)) =
        some (text, quote :: (after ++ 0 :: behind)) := by
      rw [copyQuoted_append [] fun c hc => ⟨h c (by simp [hc]), fun heq => htext (heq ▸ hc)⟩,
        copyQuoted, if_neg fun hnot => hnot.2 rfl, List.nil_append]
    refine ⟨result, ?_, ?_⟩
    · rw [List.cons_append, parseKey, if_pos rfl, List.append_assoc, List.cons_append, hloop]
      exact hresult
    · intro value pwcNextKey heq
      obtain ⟨rfl, next, hnext, hseparated⟩ := hok value pwcNextKey heq
      exact ⟨next, hnext, .single (fun c hc heq => htext (heq ▸ hc)) hseparated⟩
  · refine ⟨.error .invalidObjectPath, ?_, fun value pwcNextKey h => by cases h⟩
    rw [List.cons_append, parseKey, if_pos rfl,
      copyQuoted_append [] fun c hc => ⟨h c hc, fun heq => hmem (heq ▸ hc)⟩, copyQuoted,
      if_neg fun hnot => hnot.1 rfl]
    rfl

theorem scannedWithin_double {s : List Wchar} (h : ∀ c ∈ s, c ≠ 0)
    (hescape : ¬ TrailingEscape (doubleQuote :: s)) : ScannedWithin (doubleQuote :: s) := by
  intro behind
  have hparse : parseKey (doubleQuote :: s ++ 0 :: behind) =
      (copyEscaped [] (s ++ 0 :: behind)).bind checkSeparator := by
    rw [List.cons_append, parseKey, if_neg (by decide), if_pos rfl]
  rw [hparse]
  obtain ⟨text, value, after, hbody, rfl⟩ | ⟨value, hbody⟩ | ⟨text, value, hbody, rfl⟩ :=
    body_cases s h
  · obtain ⟨result, hresult, hok⟩ := checkSeparator_closed value after behind
      (show doubleQuote ≠ 0 by decide) fun c hc => h c (by simp [hc])
    refine ⟨result, ?_, ?_⟩
    · rw [List.append_assoc, copyEscaped_body hbody, List.cons_append, copyEscaped.eq_def]
      dsimp only
      rw [if_neg fun hnot => hnot.2 rfl, List.nil_append]
      exact hresult
    · intro value' pwcNextKey heq
      obtain ⟨rfl, next, hnext, hseparated⟩ := hok value' pwcNextKey heq
      exact ⟨next, hnext, .double hbody hseparated⟩
  · refine ⟨.error .invalidObjectPath, ?_, fun value pwcNextKey h => by cases h⟩
    rw [copyEscaped_body hbody, copyEscaped.eq_def]
    rfl
  · exact absurd ⟨text, value, hbody, rfl⟩ hescape

theorem scannedWithin_plain {s : List Wchar} (h : ∀ c ∈ s, c ≠ 0)
    (hquote : s.head? ≠ some quote) (hdouble : s.head? ≠ some doubleQuote) : ScannedWithin s := by
  intro behind
  have hparse : parseKey (s ++ 0 :: behind) = (copyPlain [] (s ++ 0 :: behind)).map .ok := by
    cases s with
    | nil => rfl
    | cons c s =>
      rw [List.cons_append, parseKey, if_neg fun heq => hquote (by rw [heq]; rfl),
        if_neg fun heq => hdouble (by rw [heq]; rfl)]
  rw [hparse]
  by_cases hmem : comma ∈ s
  · obtain ⟨text, next, rfl, htext⟩ := List.eq_append_cons_of_mem hmem
    have htext' : ∀ c ∈ text, c ≠ comma := fun c hc heq => htext (heq ▸ hc)
    refine ⟨.ok (text, next ++ 0 :: behind), ?_, ?_⟩
    · rw [List.append_assoc, copyPlain_append [] fun c hc => ⟨h c (by simp [hc]), htext' c hc⟩]
      rfl
    · rintro value pwcNextKey ⟨⟩
      refine ⟨next, rfl, .plain ?_ ?_ htext' (.more next)⟩
      · cases text with
        | nil => exact fun heq => by cases heq
        | cons c text => exact hquote
      · cases text with
        | nil => exact fun heq => by cases heq
        | cons c text => exact hdouble
  · have htext : ∀ c ∈ s, c ≠ comma := fun c hc heq => hmem (heq ▸ hc)
    refine ⟨.ok (s, 0 :: behind), ?_, ?_⟩
    · rw [copyPlain_append [] fun c hc => ⟨h c hc, htext c hc⟩]
      rfl
    · rintro value pwcNextKey ⟨⟩
      refine ⟨[], rfl, ?_⟩
      have hparsed := Parsed.plain hquote hdouble htext .last
      rwa [List.append_nil] at hparsed

/-- Behind an escape that the end of the string cuts off, the scan goes on. -/
theorem parseKey_trailingEscape {text value : List Wchar} (h : Body text value)
    (behind : List Wchar) :
    parseKey (doubleQuote :: (text ++ [backslash]) ++ 0 :: behind) =
      (copyEscaped (value ++ [0]) behind).bind checkSeparator := by
  rw [List.cons_append, parseKey, if_neg (by decide), if_pos rfl, List.append_assoc,
    copyEscaped_body h, List.nil_append, List.singleton_append, copyEscaped.eq_def]
  rfl

/-- Exactly which keys are scanned right. -/
theorem scannedWithin_iff (s : List Wchar) (h : ∀ c ∈ s, c ≠ 0) :
    ScannedWithin s ↔ ¬ TrailingEscape s := by
  constructor
  · rintro hscan ⟨text, value, hbody, rfl⟩
    obtain ⟨result, hresult, -⟩ := hscan []
    rw [parseKey_trailingEscape hbody, copyEscaped.eq_def] at hresult
    exact absurd hresult (by simp)
  · intro hescape
    by_cases hquote : s.head? = some quote
    · obtain ⟨s, rfl⟩ := List.head?_eq_some_iff.1 hquote
      exact scannedWithin_single fun c hc => h c (List.mem_cons_of_mem _ hc)
    by_cases hdouble : s.head? = some doubleQuote
    · obtain ⟨s, rfl⟩ := List.head?_eq_some_iff.1 hdouble
      exact scannedWithin_double (fun c hc => h c (List.mem_cons_of_mem _ hc)) hescape
    exact scannedWithin_plain h hquote hdouble

/-- The value `"a"`. -/
theorem scannedWithin_iff_quoted : ScannedWithin [34, 97, 34] := by
  have hnul : ∀ c ∈ ([34, 97, 34] : List Wchar), c ≠ 0 := by
    intro c hc
    simp only [List.mem_cons, List.not_mem_nil, or_false] at hc
    obtain rfl | rfl | rfl := hc <;> exact nofun
  refine (scannedWithin_iff [34, 97, 34] hnul).mpr ?_
  rintro ⟨text, value, -, h⟩
  have hlast := congrArg List.getLast? h
  rw [← List.cons_append, List.getLast?_concat] at hlast
  exact absurd hlast (by decide)

/-- The value `"a\`, which ends in its escape. -/
theorem not_scannedWithin_trailingEscape : ¬ ScannedWithin [34, 97, 92] := by
  intro hscan
  obtain ⟨result, hresult, -⟩ := hscan []
  have hnone : parseKey ([34, 97, 92] ++ [0]) = none := by decide
  rw [hnone] at hresult
  cases hresult

end NtAdmin.Wmi.A51
