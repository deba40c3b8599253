import NtAdmin.Lib.ExchangeSort
import NtAdmin.Wmi.A51.ParseKey
import Mathlib.Data.List.Lex
import Mathlib.Data.List.Nodup
import Mathlib.Data.List.TakeWhile
import Mathlib.Order.Nat

/-! The key that a51rep.cpp makes of an instance path: its values in the order of their names. -/
namespace NtAdmin.Wmi.A51

open Lib

def slash : Wchar := 47
def colon : Wchar := 58
def equalsSign : Wchar := 61
def dot : Wchar := 46

/-- The `-1` between two values. -/
def separator : Wchar := 65535

/-- The case mapping of the system for characters beyond ASCII. -/
structure LowerCase where
  map : Wchar → Wchar
  map_ne_zero : ∀ c, 127 < c → map c ≠ 0

section wcsicmp
variable (l : LowerCase)

def wbemTowlower (c : Wchar) : Wchar :=
  if c ≤ 127 then
    if 65 ≤ c ∧ c ≤ 90 then c + 32 else c
  else l.map c

/-- A string that has ended gives its NUL. -/
def wbemWcsicmp : List Wchar → List Wchar → ℤ
  | [], [] => 0
  | [], d :: _ => 0 - (wbemTowlower l d).toNat
  | c :: _, [] => (wbemTowlower l c).toNat - 0
  | c :: wsz1, d :: wsz2 =>
    if c ≠ 0 ∨ d ≠ 0 then
      let diff : ℤ := (wbemTowlower l c).toNat - (wbemTowlower l d).toNat
      if diff ≠ 0 then diff else wbemWcsicmp wsz1 wsz2
    else 0

/-- What a comparison sees of a name. -/
def foldName (name : List Wchar) : List ℕ :=
  (name.takeWhile (· ≠ 0)).map fun c => (wbemTowlower l c).toNat

theorem wbemTowlower_eq_zero (c : Wchar) : (wbemTowlower l c).toNat = 0 ↔ c = 0 := by
  constructor
  · intro h
    rw [wbemTowlower] at h
    split_ifs at h with hascii hupper
    · have hle : c.toNat ≤ 90 := UInt16.le_iff_toNat_le.1 hupper.2
      rw [UInt16.toNat_add] at h
      have h32 : (32 : UInt16).toNat = 32 := rfl
      omega
    · exact UInt16.toNat_inj.1 h
    · exact absurd (UInt16.toNat_inj.1 h) (l.map_ne_zero c (UInt16.not_le.1 hascii))
  · rintro rfl
    rfl

/-- A comparison of names orders them as the lists of their folded characters. -/
theorem wbemWcsicmp_pos (s t : List Wchar) :
    0 < wbemWcsicmp l s t ↔ foldName l t < foldName l s := by
  induction s generalizing t with
  | nil =>
    cases t with
    | nil => simp [wbemWcsicmp, foldName]
    | cons d t =>
      rw [wbemWcsicmp]
      simp [foldName]
  | cons c s ih =>
    cases t with
    | nil =>
      by_cases hc : c = 0
      · simp [wbemWcsicmp, foldName, hc, (wbemTowlower_eq_zero l 0).2]
      · have hpos := (not_congr (wbemTowlower_eq_zero l c)).2 hc
        simp [wbemWcsicmp, foldName, hc]
        omega
    | cons d t =>
      have hc := wbemTowlower_eq_zero l c
      have hd := wbemTowlower_eq_zero l d
      rw [wbemWcsicmp]
      by_cases hends : c = 0 ∨ d = 0
      · obtain rfl | rfl := hends
        · simp [foldName, (wbemTowlower_eq_zero l 0).2]
          grind
        · by_cases hc0 : c = 0
          · simp [foldName, hc0]
          · have hpos := (not_congr hc).2 hc0
            simp [foldName, hc0, hpos, (wbemTowlower_eq_zero l 0).2]
            omega
      · obtain ⟨hc0, hd0⟩ := not_or.1 hends
        have hfold : foldName l (d :: t) < foldName l (c :: s) ↔
            (wbemTowlower l d).toNat < (wbemTowlower l c).toNat ∨
              (wbemTowlower l d).toNat = (wbemTowlower l c).toNat ∧
                foldName l t < foldName l s := by
          simp [foldName, hc0, hd0, List.cons_lt_cons_iff]
        rw [hfold, if_pos (Or.inl hc0)]
        dsimp only
        by_cases heq : (wbemTowlower l d).toNat = (wbemTowlower l c).toNat
        · have hdiff : ((wbemTowlower l c).toNat - (wbemTowlower l d).toNat : ℤ) = 0 := by omega
          rw [if_neg (not_not.2 hdiff), ih]
          simp [heq]
        · have hdiff : ((wbemTowlower l c).toNat - (wbemTowlower l d).toNat : ℤ) ≠ 0 := by omega
          rw [if_pos hdiff]
          omega

end wcsicmp

structure KeyStruct where
  value : List Wchar
  name : List Wchar
  deriving DecidableEq

/-- What stands in front of the character, and the memory from it on, if the string has it. -/
def wcschr (c : Wchar) : List Wchar → Option (Option (List Wchar × List Wchar))
  | [] => none
  | d :: rest =>
    if d = c then some (some ([], d :: rest))
    else if d = 0 then some none
    else (wcschr c rest).map (Option.map fun (front, found) => (d :: front, found))

/-- The loop over the keys, when `left` more may be taken before the 256th. -/
def readKeys (left : ℕ) (aKeys : List KeyStruct) (pwcNextKey : List Wchar) :
    Option (Except ParseError (List KeyStruct)) :=
  (wcschr equalsSign pwcNextKey).bind fun
    | none => some (.error .invalidObjectPath)
    | some (name, pwcFirstEq) =>
      (parseKey pwcFirstEq.tail).bind fun
        | .error e => some (.error e)
        | .ok (value, pwcNextKey) =>
          let aKeys := aKeys ++ [⟨value.takeWhile (· ≠ 0), name⟩]
          match left with
          | 0 => some (.error .invalidObjectPath)
          | left + 1 =>
            match pwcNextKey with
            | [] => none
            | c :: rest => if c ≠ 0 then readKeys left aKeys (c :: rest) else some (.ok aKeys)

/-- The server and the namespace, of which the latter is kept, and what follows them. -/
def skipNamespace (wszPath : List Wchar) :
    Option (Except ParseError (Option (List Wchar) × List Wchar)) :=
  match wszPath with
  | [] => none
  | c :: rest =>
    if c = backslash ∨ c = slash then
      match rest with
      | [] => none
      | _ :: server =>
        (wcschr c server).bind fun
          | none => some (.error .invalidObjectPath)
          | some (_, pwcNextSlash) =>
            (wcschr colon pwcNextSlash).bind fun
              | none => some (.error .invalidObjectPath)
              | some (wszNamespace, pwcColon) =>
                some (.ok (some wszNamespace.tail, pwcColon.tail))
    else some (.ok (none, c :: rest))

structure PathKey where
  wszKey : List Wchar
  wszClass : List Wchar
  isClass : Bool
  wszNamespace : Option (List Wchar)
  deriving DecidableEq

def instanceKey (aKeys : List KeyStruct) : List Wchar :=
  [separator].intercalate (aKeys.map KeyStruct.value)

section computeKey
variable (l : LowerCase)

/-- Two keys are exchanged when the name of the first comes behind that of the second. -/
def nameExceeds : Exceeds KeyStruct where
  gt a b := decide (0 < wbemWcsicmp l a.name b.name)
  asymm a b h := by
    rw [decide_eq_true_iff, wbemWcsicmp_pos] at h
    rw [decide_eq_false_iff_not, wbemWcsicmp_pos]
    exact List.lt_asymm h
  trans a b c hab hbc := by
    rw [decide_eq_false_iff_not, wbemWcsicmp_pos] at hab hbc ⊢
    exact List.le_trans hab hbc

def sortKeys (aKeys : List KeyStruct) : List KeyStruct :=
  exchangeSort (nameExceeds l) [] aKeys

/-- The class path, a single key without a name, or the keys in the order of their names. -/
def computeLocalKey (wszNamespace : Option (List Wchar)) (wszPath : List Wchar) :
    Option (Except ParseError PathKey) :=
  (wcschr equalsSign wszPath).bind fun
    | none => some (.ok ⟨[1], wszPath.takeWhile (· ≠ 0), true, wszNamespace⟩)
    | some (beforeEq, pwcFirstEq) =>
      (wcschr dot wszPath).bind fun found =>
        match found with
        | some (beforeDot, pwcFirstDot) =>
          if beforeEq.length < beforeDot.length then computeUnnamedKey beforeEq pwcFirstEq.tail
          else
            (readKeys 255 [] pwcFirstDot.tail).map fun result => result.map fun aKeys =>
              ⟨instanceKey (sortKeys l aKeys), beforeDot, false, wszNamespace⟩
        | none => computeUnnamedKey beforeEq pwcFirstEq.tail
where
  /-- The only key of a class, whose name is left out. -/
  computeUnnamedKey (wszClass keyStart : List Wchar) : Option (Except ParseError PathKey) :=
    (parseKey keyStart).bind fun
      | .error e => some (.error e)
      | .ok (_, []) => none
      | .ok (value, c :: _) =>
        if c ≠ 0 then some (.error .invalidObjectPath)
        else some (.ok ⟨value.takeWhile (· ≠ 0), wszClass, false, wszNamespace⟩)

def computeKeyFromPath (wszPath : List Wchar) : Option (Except ParseError PathKey) :=
  (skipNamespace wszPath).bind fun
    | .error e => some (.error e)
    | .ok (wszNamespace, wszPath) => computeLocalKey l wszNamespace wszPath

/-! ### The keys of a path -/

/-- A value as it is written in a path. -/
inductive Literal : List Wchar → List Wchar → Prop
  | single {text} : (∀ c ∈ text, c ≠ 0 ∧ c ≠ quote) → Literal (quote :: (text ++ [quote])) text
  | double {text value} : Body text value →
      Literal (doubleQuote :: (text ++ [doubleQuote])) value
  | plain {text} : text.head? ≠ some quote → text.head? ≠ some doubleQuote →
      (∀ c ∈ text, c ≠ 0 ∧ c ≠ comma) → Literal text text

/-- The text of the keys of a path, which may end with a comma. -/
inductive Written : List Wchar → List KeyStruct → Prop
  | last {name text value} : (∀ c ∈ name, c ≠ 0 ∧ c ≠ equalsSign) → Literal text value →
      Written (name ++ equalsSign :: text) [⟨value, name⟩]
  | lastComma {name text value} : (∀ c ∈ name, c ≠ 0 ∧ c ≠ equalsSign) → Literal text value →
      Written (name ++ equalsSign :: (text ++ [comma])) [⟨value, name⟩]
  | more {name text value rest keys} : (∀ c ∈ name, c ≠ 0 ∧ c ≠ equalsSign) →
      Literal text value → Written rest keys →
      Written (name ++ equalsSign :: (text ++ comma :: rest)) (⟨value, name⟩ :: keys)

/-- The server and the namespace in front of a path, or nothing. -/
inductive NamespacePart : List Wchar → Prop
  | relative : NamespacePart []
  | full {c x server wszNamespace} : c = backslash ∨ c = slash →
      (∀ d ∈ server, d ≠ 0 ∧ d ≠ c) → (∀ d ∈ wszNamespace, d ≠ 0 ∧ d ≠ colon) →
      NamespacePart (c :: x :: (server ++ c :: (wszNamespace ++ [colon])))

/-- The path of an instance of the class with these keys. -/
inductive InstancePath (wszClass : List Wchar) (keys : List KeyStruct) : List Wchar → Prop
  | intro {front text} : NamespacePart front →
      (∀ c ∈ wszClass, c ≠ 0 ∧ c ≠ equalsSign ∧ c ≠ dot) →
      (front = [] → wszClass.head? ≠ some backslash ∧ wszClass.head? ≠ some slash) →
      Written text keys → InstancePath wszClass keys (front ++ (wszClass ++ dot :: text))

/-- What a key binds: the name up to case, and the value. -/
def binding (key : KeyStruct) : List ℕ × List Wchar := (foldName l key.name, key.value)

theorem wcschr_found {c : Wchar} {front : List Wchar} (h : ∀ d ∈ front, d ≠ 0 ∧ d ≠ c)
    (rest : List Wchar) : wcschr c (front ++ c :: rest) = some (some (front, c :: rest)) := by
  induction front with
  | nil => rw [List.nil_append, wcschr, if_pos rfl]
  | cons d front ih =>
    obtain ⟨hzero, hne⟩ := h d List.mem_cons_self
    rw [List.cons_append, wcschr, if_neg hne, if_neg hzero,
      ih fun e he => h e (List.mem_cons_of_mem d he)]
    rfl

theorem Body.value_ne_zero {text value : List Wchar} (h : Body text value) :
    ∀ c ∈ value, c ≠ 0 := by
  induction h with
  | nil => exact nofun
  | plain hzero _ _ _ ih => exact List.forall_mem_cons.2 ⟨hzero, ih⟩
  | escape hzero _ _ _ ih => exact List.forall_mem_cons.2 ⟨hzero, ih⟩
  | hex _ _ ih => exact List.forall_mem_cons.2 ⟨by decide, ih⟩

theorem Literal.value_ne_zero {text value : List Wchar} (h : Literal text value) :
    ∀ c ∈ value, c ≠ 0 := by
  cases h with
  | single htext => exact fun c hc => (htext c hc).1
  | double hbody => exact hbody.value_ne_zero
  | plain _ _ htext => exact fun c hc => (htext c hc).1

/-- A value is read up to the comma or the end behind it. -/
theorem parseKey_literal {text value : List Wchar} (h : Literal text value) (mark : Wchar)
    (hmark : mark = 0 ∨ mark = comma) (rest : List Wchar) :
    parseKey (text ++ mark :: rest) =
      some (.ok (value, if mark = 0 then mark :: rest else rest)) := by
  have hseparator (q : Wchar) (hq : q ≠ 0) : checkSeparator (value, q :: mark :: rest) =
      some (.ok (value, if mark = 0 then mark :: rest else rest)) := by
    obtain rfl | rfl := hmark
    · rw [checkSeparator, if_neg hq]
      rfl
    · rw [checkSeparator, if_neg hq]
      rfl
  cases h with
  | single htext =>
    rw [List.cons_append, parseKey, if_pos rfl, List.append_assoc, copyQuoted_append [] htext,
      List.singleton_append, copyQuoted, if_neg fun hnot => hnot.2 rfl]
    exact hseparator quote (by decide)
  | double hbody =>
    rw [List.cons_append, parseKey, if_neg (by decide), if_pos rfl, List.append_assoc,
      copyEscaped_body hbody, List.singleton_append, copyEscaped.eq_def]
    dsimp only
    rw [if_neg fun hnot => hnot.2 rfl]
    exact hseparator doubleQuote (by decide)
  | plain hquote hdouble htext =>
    have hparse : parseKey (text ++ mark :: rest) =
        (copyPlain [] (text ++ mark :: rest)).map .ok := by
      cases text with
      | nil => obtain rfl | rfl := hmark <;> rfl
      | cons c text =>
        rw [List.cons_append, parseKey, if_neg fun heq => hquote (by rw [heq]; rfl),
          if_neg fun heq => hdouble (by rw [heq]; rfl)]
    rw [hparse, copyPlain_append [] htext, copyPlain.eq_def]
    obtain rfl | rfl := hmark <;> rfl

/-- A key in front of a comma or the end. -/
theorem readKeys_step (left : ℕ) (aKeys : List KeyStruct) {name text value : List Wchar}
    (hname : ∀ c ∈ name, c ≠ 0 ∧ c ≠ equalsSign) (htext : Literal text value) (mark : Wchar)
    (hmark : mark = 0 ∨ mark = comma) (rest : List Wchar) :
    readKeys left aKeys (name ++ equalsSign :: (text ++ mark :: rest)) =
      match left with
      | 0 => some (.error .invalidObjectPath)
      | left + 1 =>
        match if mark = 0 then mark :: rest else rest with
        | [] => none
        | c :: next =>
          if c ≠ 0 then readKeys left (aKeys ++ [⟨value, name⟩]) (c :: next)
          else some (.ok (aKeys ++ [⟨value, name⟩])) := by
  have hvalue : value.takeWhile (· ≠ 0) = value :=
    List.takeWhile_eq_self_iff.2 fun c hc => decide_eq_true (htext.value_ne_zero c hc)
  rw [readKeys.eq_def, wcschr_found hname]
  dsimp only [Option.bind_some, List.tail_cons]
  rw [parseKey_literal htext mark hmark]
  dsimp only [Option.bind_some]
  rw [hvalue]

/-- The keys behind a comma start with a character. -/
theorem Written.exists_cons {text : List Wchar} {keys : List KeyStruct} (h : Written text keys) :
    ∃ c rest, text = c :: rest ∧ c ≠ 0 := by
  have hcons (name rest : List Wchar) (hname : ∀ c ∈ name, c ≠ 0 ∧ c ≠ equalsSign) :
      ∃ c rest', name ++ equalsSign :: rest = c :: rest' ∧ c ≠ 0 := by
    cases name with
    | nil => exact ⟨equalsSign, rest, rfl, by decide⟩
    | cons c name => exact ⟨c, _, rfl, (hname c List.mem_cons_self).1⟩
  cases h with
  | last hname => exact hcons _ _ hname
  | lastComma hname => exact hcons _ _ hname
  | more hname => exact hcons _ _ hname

/-- All of the keys are read, unless there are too many. -/
theorem readKeys_written {text : List Wchar} {keys : List KeyStruct} (h : Written text keys)
    (left : ℕ) (aKeys : List KeyStruct) (behind : List Wchar) :
    readKeys left aKeys (text ++ 0 :: behind) =
      some (if keys.length ≤ left then .ok (aKeys ++ keys) else .error .invalidObjectPath) := by
  induction h generalizing left aKeys with
  | last hname htext =>
    rw [List.append_assoc, List.cons_append, readKeys_step left aKeys hname htext 0 (Or.inl rfl)]
    cases left with
    | zero => rfl
    | succ left => simp
  | lastComma hname htext =>
    rw [List.append_assoc, List.cons_append, List.append_assoc, List.singleton_append,
      readKeys_step left aKeys hname htext comma (Or.inr rfl)]
    cases left with
    | zero => rfl
    | succ left => simp [comma]
  | @more name text value rest keys hname htext hrest ih =>
    rw [List.append_assoc, List.cons_append, List.append_assoc, List.cons_append,
      readKeys_step left aKeys hname htext comma (Or.inr rfl)]
    cases left with
    | zero => simp
    | succ left =>
      obtain ⟨c, tail, rfl, hc⟩ := hrest.exists_cons
      have hread := ih left (aKeys ++ [⟨value, name⟩])
      rw [List.cons_append] at hread
      dsimp only
      rw [if_neg (by decide), List.cons_append]
      dsimp only
      rw [if_pos hc, hread, List.append_assoc, List.singleton_append, List.length_cons]
      simp only [Nat.add_le_add_iff_right]

theorem skipNamespace_front {front rest : List Wchar} (h : NamespacePart front)
    (hrest : front = [] → ∃ c tail, rest = c :: tail ∧ c ≠ backslash ∧ c ≠ slash) :
    ∃ wszNamespace, skipNamespace (front ++ rest) = some (.ok (wszNamespace, rest)) := by
  cases h with
  | relative =>
    obtain ⟨c, tail, rfl, hback, hslash⟩ := hrest rfl
    refine ⟨none, ?_⟩
    rw [List.nil_append, skipNamespace.eq_def]
    dsimp only
    rw [if_neg (not_or.2 ⟨hback, hslash⟩)]
  | @full c x server wszNamespace hc hserver hnamespace =>
    have hcolon : ∀ d ∈ c :: wszNamespace, d ≠ 0 ∧ d ≠ colon := by
      refine List.forall_mem_cons.2 ⟨?_, hnamespace⟩
      obtain rfl | rfl := hc <;> decide
    refine ⟨some wszNamespace, ?_⟩
    simp only [List.cons_append, List.append_assoc, List.nil_append]
    rw [skipNamespace, if_pos hc, wcschr_found hserver, Option.bind_some]
    dsimp only
    rw [← List.cons_append, wcschr_found hcolon, Option.bind_some]
    rfl

/-- The name of the first key ends at the first `=` of the text. -/
theorem Written.exists_name {text : List Wchar} {keys : List KeyStruct} (h : Written text keys) :
    ∃ name rest, text = name ++ equalsSign :: rest ∧ ∀ c ∈ name, c ≠ 0 ∧ c ≠ equalsSign := by
  cases h with
  | last hname => exact ⟨_, _, rfl, hname⟩
  | lastComma hname => exact ⟨_, _, rfl, hname⟩
  | more hname => exact ⟨_, _, rfl, hname⟩

/-- The key of a path. -/
theorem computeKeyFromPath_eq {wszClass path : List Wchar} {keys : List KeyStruct}
    (h : InstancePath wszClass keys path) (behind : List Wchar) :
    ∃ wszNamespace, computeKeyFromPath l (path ++ 0 :: behind) =
      some (if keys.length < 256 then
        .ok ⟨instanceKey (sortKeys l keys), wszClass, false, wszNamespace⟩
      else .error .invalidObjectPath) := by
  obtain @⟨front, text, hfront, hclass, hrelative, htext⟩ := h
  have hlocal : front = [] → ∃ c tail, wszClass ++ dot :: (text ++ 0 :: behind) = c :: tail ∧
      c ≠ backslash ∧ c ≠ slash := by
    intro hnil
    obtain ⟨hback, hslash⟩ := hrelative hnil
    cases wszClass with
    | nil => exact ⟨dot, _, rfl, by decide, by decide⟩
    | cons c wszClass =>
      exact ⟨c, _, rfl, fun heq => hback (congrArg some heq), fun heq => hslash (congrArg some heq)⟩
  obtain ⟨wszNamespace, hskip⟩ := skipNamespace_front hfront hlocal
  obtain ⟨name, rest, hsplit, hname⟩ := htext.exists_name
  have heq : wcschr equalsSign (wszClass ++ dot :: (text ++ 0 :: behind)) =
      some (some (wszClass ++ dot :: name, equalsSign :: (rest ++ 0 :: behind))) := by
    have hnone : ∀ c ∈ wszClass ++ dot :: name, c ≠ 0 ∧ c ≠ equalsSign := by
      intro c hc
      rcases List.mem_append.1 hc with hc | hc
      · exact ⟨(hclass c hc).1, (hclass c hc).2.1⟩
      rcases List.mem_cons.1 hc with rfl | hc
      · decide
      · exact hname c hc
    have hfound := wcschr_found hnone (rest ++ 0 :: behind)
    rw [hsplit]
    simpa only [List.append_assoc, List.cons_append] using hfound
  have hdot : wcschr dot (wszClass ++ dot :: (text ++ 0 :: behind)) =
      some (some (wszClass, dot :: (text ++ 0 :: behind))) :=
    wcschr_found (fun c hc => ⟨(hclass c hc).1, (hclass c hc).2.2⟩) _
  have hread := readKeys_written htext 255 [] behind
  refine ⟨wszNamespace, ?_⟩
  rw [computeKeyFromPath, List.append_assoc, List.append_assoc, List.cons_append, hskip,
    Option.bind_some]
  dsimp only
  rw [computeLocalKey, heq, Option.bind_some]
  dsimp only
  rw [hdot, Option.bind_some]
  dsimp only [List.tail_cons]
  rw [if_neg (by simp), hread]
  by_cases hcount : keys.length < 256
  · rw [if_pos hcount, if_pos (Nat.le_of_lt_succ hcount)]
    rfl
  · rw [if_neg hcount, if_neg fun hle => hcount (Nat.lt_succ_of_le hle)]
    rfl

/-- The keys in the order of their names. -/
theorem sortKeys_spec (keys : List KeyStruct) :
    (sortKeys l keys).Perm keys ∧
      (sortKeys l keys).Pairwise fun a b => foldName l a.name ≤ foldName l b.name := by
  constructor
  · exact exchangeSort_perm (nameExceeds l) [] keys
  · have hone : Ascending (nameExceeds l) ([].reverse ++ keys.take 1) := by
      cases keys with
      | nil => exact List.Pairwise.nil
      | cons key keys => exact List.pairwise_singleton _ key
    refine (exchangeSort_ascending (nameExceeds l) [] keys hone).imp ?_
    intro a b hab
    rw [nameExceeds, decide_eq_false_iff_not, wbemWcsicmp_pos] at hab
    exact not_lt.1 hab

/-! ### Which paths have the same key -/

/-- No two names are the same up to case. -/
def DistinctNames (keys : List KeyStruct) : Prop :=
  (keys.map fun key => foldName l key.name).Nodup

/-- The same names, up to case, in some order. -/
def SameNames (keys keys' : List KeyStruct) : Prop :=
  (keys.map fun key => foldName l key.name).Perm (keys'.map fun key => foldName l key.name)

/-- The same names, up to case, with the same values, in some order. -/
def SameBindings (keys keys' : List KeyStruct) : Prop :=
  (keys.map (binding l)).Perm (keys'.map (binding l))

def NoSeparator (keys : List KeyStruct) : Prop :=
  ∀ key ∈ keys, separator ∉ key.value

theorem sortKeys_lt {keys : List KeyStruct} (h : DistinctNames l keys) :
    (sortKeys l keys).Pairwise fun a b => foldName l a.name < foldName l b.name := by
  obtain ⟨hperm, hsorted⟩ := sortKeys_spec l keys
  have hdistinct : DistinctNames l (sortKeys l keys) := (hperm.map _).nodup_iff.2 h
  refine (hsorted.and (List.pairwise_map.1 hdistinct)).imp ?_
  rintro a b ⟨hle, hne⟩
  exact lt_of_le_of_ne hle hne

/-- Names in order are the same names in the same order. -/
theorem sortKeys_names {keys keys' : List KeyStruct} (h : DistinctNames l keys)
    (h' : DistinctNames l keys') (hnames : SameNames l keys keys') :
    (sortKeys l keys).map (fun key => foldName l key.name) =
      (sortKeys l keys').map fun key => foldName l key.name := by
  have hperm := ((sortKeys_spec l keys).1.map fun key => foldName l key.name).trans
    (hnames.trans ((sortKeys_spec l keys').1.map fun key => foldName l key.name).symm)
  have hsorted : ((sortKeys l keys).map fun key => foldName l key.name).Pairwise (· < ·) :=
    List.pairwise_map.2 (sortKeys_lt l h)
  have hsorted' : ((sortKeys l keys').map fun key => foldName l key.name).Pairwise (· < ·) :=
    List.pairwise_map.2 (sortKeys_lt l h')
  refine hperm.eq_of_pairwise ?_ hsorted hsorted'
  intro a b _ _ hab hba
  exact absurd hba (List.lt_asymm hab)

/-- The order in which the keys are written does not show. -/
theorem sortKeys_bindings {keys keys' : List KeyStruct} (h : DistinctNames l keys)
    (h' : DistinctNames l keys') (hsame : SameBindings l keys keys') :
    (sortKeys l keys).map (binding l) = (sortKeys l keys').map (binding l) := by
  have hperm := ((sortKeys_spec l keys).1.map (binding l)).trans
    (hsame.trans ((sortKeys_spec l keys').1.map (binding l)).symm)
  have hsorted : ((sortKeys l keys).map (binding l)).Pairwise fun a b => a.1 < b.1 :=
    List.pairwise_map.2 (sortKeys_lt l h)
  have hsorted' : ((sortKeys l keys').map (binding l)).Pairwise fun a b => a.1 < b.1 :=
    List.pairwise_map.2 (sortKeys_lt l h')
  refine hperm.eq_of_pairwise ?_ hsorted hsorted'
  intro a b _ _ hab hba
  exact absurd hba (List.lt_asymm hab)

theorem instanceKey_inj {keys keys' : List KeyStruct} (hne : keys ≠ []) (hne' : keys' ≠ [])
    (h : NoSeparator keys) (h' : NoSeparator keys') (hkey : instanceKey keys = instanceKey keys') :
    keys.map KeyStruct.value = keys'.map KeyStruct.value := by
  have hsplit (ks : List KeyStruct) (hks : ks ≠ []) (hsep : NoSeparator ks) :
      (instanceKey ks).splitOn separator = ks.map KeyStruct.value := by
    refine List.splitOn_intercalate separator ?_ fun hnil => hks (List.map_eq_nil_iff.1 hnil)
    intro value hvalue
    obtain ⟨key, hkey, rfl⟩ := List.mem_map.1 hvalue
    exact hsep key hkey
  rw [← hsplit keys hne h, ← hsplit keys' hne' h', hkey]

theorem Written.ne_nil {text : List Wchar} {keys : List KeyStruct} (h : Written text keys) :
    keys ≠ [] := by
  cases h <;> exact List.cons_ne_nil _ _

/-- The key of an instance path: its values sorted by name, whatever their order in the path, which
tell the bindings of paths with the same names apart. -/
theorem instancePath_key {wszClass path : List Wchar} {keys : List KeyStruct}
    (h : InstancePath wszClass keys path) (hnames : DistinctNames l keys) :
    (sortKeys l keys).Perm keys ∧
    (sortKeys l keys).Pairwise (fun a b => foldName l a.name < foldName l b.name) ∧
    (∀ behind, ∃ wszNamespace, computeKeyFromPath l (path ++ 0 :: behind) =
      some (if keys.length < 256 then
        .ok ⟨instanceKey (sortKeys l keys), wszClass, false, wszNamespace⟩
      else .error .invalidObjectPath)) ∧
    ∀ path' keys', InstancePath wszClass keys' path' → DistinctNames l keys' →
      (SameBindings l keys keys' →
        instanceKey (sortKeys l keys) = instanceKey (sortKeys l keys')) ∧
      (NoSeparator keys → NoSeparator keys' →
        instanceKey (sortKeys l keys) = instanceKey (sortKeys l keys') →
        (sortKeys l keys).map KeyStruct.value = (sortKeys l keys').map KeyStruct.value ∧
        (SameNames l keys keys' → SameBindings l keys keys')) := by
  refine ⟨(sortKeys_spec l keys).1, sortKeys_lt l hnames, computeKeyFromPath_eq l h, ?_⟩
  intro path' keys' h' hnames'
  have hne {path keys} (h : InstancePath wszClass keys path) : sortKeys l keys ≠ [] := by
    obtain ⟨_, _, _, htext⟩ := h
    intro hnil
    have hperm := (sortKeys_spec l keys).1
    rw [hnil] at hperm
    exact htext.ne_nil hperm.nil_eq.symm
  have hsep {keys} (h : NoSeparator keys) : NoSeparator (sortKeys l keys) :=
    fun key hkey => h key ((sortKeys_spec l keys).1.mem_iff.1 hkey)
  constructor
  · intro hsame
    have hvalues := congrArg (List.map Prod.snd) (sortKeys_bindings l hnames hnames' hsame)
    rw [List.map_map, List.map_map] at hvalues
    exact congrArg ([separator].intercalate) hvalues
  · intro hclean hclean' hkey
    have hvalues := instanceKey_inj (hne h) (hne h') (hsep hclean) (hsep hclean') hkey
    refine ⟨hvalues, ?_⟩
    intro hsame
    have hfolds := sortKeys_names l hnames hnames' hsame
    have hbindings : (sortKeys l keys).map (binding l) = (sortKeys l keys').map (binding l) := by
      have hzip := congrArg₂ List.zip hfolds hvalues
      rwa [List.zip_map', List.zip_map'] at hzip
    have hperm := (sortKeys_spec l keys).1.map (binding l)
    have hperm' := (sortKeys_spec l keys').1.map (binding l)
    rw [hbindings] at hperm
    exact hperm.symm.trans hperm'

end computeKey

/-- No mapping beyond ASCII. -/
def asciiLower : LowerCase where
  map := id
  map_ne_zero c hc hzero := by
    rw [id_eq] at hzero
    rw [hzero] at hc
    exact absurd hc (by decide)

theorem body_digit (c : Wchar) (hc : c ≠ 0 ∧ c ≠ doubleQuote ∧ c ≠ backslash) : Body [c] [c] :=
  .plain hc.1 hc.2.1 hc.2.2 .nil

/-- A path with two bindings, such as `C.b="2",a="1"`. -/
theorem instancePath_pair {name value name' value' : Wchar} (hname : name ≠ 0 ∧ name ≠ equalsSign)
    (hname' : name' ≠ 0 ∧ name' ≠ equalsSign)
    (hvalue : value ≠ 0 ∧ value ≠ doubleQuote ∧ value ≠ backslash)
    (hvalue' : value' ≠ 0 ∧ value' ≠ doubleQuote ∧ value' ≠ backslash) :
    ∃ path, InstancePath [67] [⟨[value], [name]⟩, ⟨[value'], [name']⟩] path := by
  have hlast := @Written.last [name'] _ _ (List.forall_mem_singleton.mpr hname')
    (.double (body_digit value' hvalue'))
  have htext := @Written.more [name] _ _ _ _ (List.forall_mem_singleton.mpr hname)
    (.double (body_digit value hvalue)) hlast
  exact ⟨_, @InstancePath.intro [67] _ [] _ .relative (by simp [equalsSign, dot])
    (by simp [backslash, slash]) htext⟩

/-- The paths `C.b="2",a="1"` and `C.a="1",b="2"` have one key. -/
theorem instancePath_key_two :
    (sortKeys asciiLower [⟨[50], [98]⟩, ⟨[49], [97]⟩]).Perm [⟨[50], [98]⟩, ⟨[49], [97]⟩] ∧
    ((sortKeys asciiLower [⟨[50], [98]⟩, ⟨[49], [97]⟩]).Pairwise fun a b =>
      foldName asciiLower a.name < foldName asciiLower b.name) ∧
    instanceKey (sortKeys asciiLower [⟨[50], [98]⟩, ⟨[49], [97]⟩]) =
      instanceKey (sortKeys asciiLower [⟨[49], [97]⟩, ⟨[50], [98]⟩]) := by
  have hnames : DistinctNames asciiLower [⟨[50], [98]⟩, ⟨[49], [97]⟩] := by
    rw [DistinctNames]
    decide
  have hnames' : DistinctNames asciiLower [⟨[49], [97]⟩, ⟨[50], [98]⟩] := by
    rw [DistinctNames]
    decide
  obtain ⟨path, hpath⟩ := @instancePath_pair 98 50 97 49 (by decide) (by decide) (by decide)
    (by decide)
  obtain ⟨path', hpath'⟩ := @instancePath_pair 97 49 98 50 (by decide) (by decide) (by decide)
    (by decide)
  obtain ⟨hperm, hsorted, -, hother⟩ := instancePath_key asciiLower hpath hnames
  obtain ⟨hsame, -⟩ := hother path' _ hpath' hnames'
  exact ⟨hperm, hsorted, hsame (.swap _ _ [])⟩

/-- The paths `C.a="1"` and `C.b="1"`, whose keys have no names in them. -/
theorem not_key_names :
    ¬ ∀ (l : LowerCase) (wszClass path path' : List Wchar) (keys keys' : List KeyStruct),
      InstancePath wszClass keys path → InstancePath wszClass keys' path' →
      DistinctNames l keys → DistinctNames l keys' →
      computeKeyFromPath l (path ++ [0]) = computeKeyFromPath l (path' ++ [0]) →
      SameBindings l keys keys' := by
  intro hclaim
  have hvalue : Literal [34, 49, 34] [49] := .double (body_digit 49 (by decide))
  have htext (name : Wchar) (hname : name = 97 ∨ name = 98) :
      Written [name, 61, 34, 49, 34] [⟨[49], [name]⟩] := by
    refine @Written.last [name] _ _ ?_ hvalue
    obtain rfl | rfl := hname <;> simp [equalsSign]
  have hpath (name : Wchar) (hname : name = 97 ∨ name = 98) :
      InstancePath [67] [⟨[49], [name]⟩] [67, 46, name, 61, 34, 49, 34] :=
    @InstancePath.intro [67] _ [] _ .relative (by simp [equalsSign, dot])
      (by simp [backslash, slash]) (htext name hname)
  have hsort (name : Wchar) : sortKeys asciiLower [⟨[49], [name]⟩] = [⟨[49], [name]⟩] := by
    rw [sortKeys, exchangeSort]
    rfl
  have hkey (name : Wchar) (hname : name = 97 ∨ name = 98) :
      computeKeyFromPath asciiLower ([67, 46, name, 61, 34, 49, 34] ++ [0]) =
        some (.ok ⟨[49], [67], false, none⟩) := by
    have hread := readKeys_written (htext name hname) 255 [] []
    have hlocal : computeKeyFromPath asciiLower ([67, 46, name, 61, 34, 49, 34] ++ [0]) =
        (readKeys 255 [] ([name, 61, 34, 49, 34] ++ [0])).map fun result =>
          result.map fun aKeys =>
            ⟨instanceKey (sortKeys asciiLower aKeys), [67], false, none⟩ := by
      obtain rfl | rfl := hname <;> rfl
    rw [hlocal, hread, if_pos (by simp), Option.map_some, Except.map, List.nil_append, hsort]
    rfl
  have hsame := hclaim asciiLower [67] _ _ _ _ (hpath 97 (Or.inl rfl)) (hpath 98 (Or.inr rfl))
    (List.nodup_singleton _) (List.nodup_singleton _)
    (by rw [hkey 97 (Or.inl rfl), hkey 98 (Or.inr rfl)])
  exact absurd (List.singleton_perm_singleton.1 hsame) (by decide)

end NtAdmin.Wmi.A51
