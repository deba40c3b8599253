import NtAdmin.Lib.Wildcard
import NtAdmin.Wmi.Wbemcomn.Like

/-! What a pattern of the LIKE operator means, and how `DoLike` reads it. -/
namespace NtAdmin.Wmi

open Wildcard

inductive SetItem where
  | char (x : Wchar)
  | range (first last : Wchar)
  deriving DecidableEq

/-- The items between the brackets. A hyphen behind a character makes a range with it. -/
def setItems : Option Wchar → List Wchar → List SetItem
  | _, [] => []
  | none, x :: text => .char x :: setItems (some x) text
  | some first, x :: text =>
    if x = hyphen then
      match text with
      | [] => []
      | last :: text => .range first last :: setItems (some last) text
    else .char x :: setItems (some x) text

inductive Token where
  | wildcard
  | single
  | char (x : Wchar)
  | escaped (x : Wchar)
  | dangling
  /-- A set, and whether the pattern ends with it. -/
  | set (negated : Bool) (items : List SetItem) (last : Bool)
  | unclosed (negated : Bool)
  deriving DecidableEq

/-- The text behind an opening bracket: whether a caret is first, what stands before the closing
bracket, and the closing bracket with what is behind it. -/
def setText (pattern : List Wchar) : Bool × List Wchar × List Wchar :=
  let body := if pattern.head? = some caret then pattern.tail else pattern
  (pattern.head? = some caret, body.takeWhile (· ≠ closeBracket), body.dropWhile (· ≠ closeBracket))

theorem length_setText_le (pattern : List Wchar) :
    (setText pattern).2.2.length ≤ pattern.length := by
  have hdrop := fun body : List Wchar =>
    (List.dropWhile_suffix (p := (· ≠ closeBracket)) (l := body)).length_le
  simp only [setText]
  split
  · exact Nat.le_trans (hdrop _) (by rw [List.length_tail]; omega)
  · exact hdrop _

/-- The parts of a pattern. -/
def tokens (escape : Wchar) : List Wchar → List Token
  | [] => []
  | p :: pattern =>
    if escape ≠ 0 ∧ p = escape then
      match pattern with
      | [] => [.dangling]
      | x :: pattern => .escaped x :: tokens escape pattern
    else if p = wildcard then .wildcard :: tokens escape pattern
    else if p = openBracket then
      if (setText pattern).2.2 = [] then [.unclosed (setText pattern).1]
      else .set (setText pattern).1 (setItems none (setText pattern).2.1)
        ((setText pattern).2.2.tail = []) :: tokens escape (setText pattern).2.2.tail
    else if p = anySingleChar then .single :: tokens escape pattern
    else .char p :: tokens escape pattern
termination_by pattern => pattern.length
decreasing_by
  all_goals simp only [List.length_cons, List.length_tail]
  all_goals
    first
    | omega
    | exact Nat.lt_succ_of_le (Nat.le_trans (Nat.sub_le _ 1) (length_setText_le pattern))

section accepts
variable (u : UpperCase)

def SetItem.accepts (c : Wchar) : SetItem → Bool
  | .char x => wbemTowupper u x = wbemTowupper u c
  | .range first last =>
    wbemTowupper u first ≤ wbemTowupper u c ∧ wbemTowupper u c ≤ wbemTowupper u last

/-- The characters a part stands for. -/
def Token.accepts : Token → Wchar → Bool
  | .wildcard, _ => false
  | .single, _ => true
  | .char x, c => wbemTowupper u x = wbemTowupper u c
  | .escaped x, c => wbemTowupper u x = wbemTowupper u c
  | .dangling, _ => false
  | .set negated items _, c => items.any (SetItem.accepts u c) != negated
  | .unclosed _, _ => false

/-- The characters `DoLike` takes for a part. -/
def Token.codeAccepts : Token → Wchar → Bool
  | .wildcard, _ => false
  | .single, _ => true
  | .char x, c => wbemTowupper u x = wbemTowupper u c
  | .escaped x, c => wbemTowupper u x = wbemTowupper u c ∨ x = anySingleChar
  | .dangling, _ => false
  | .set negated items last, c => (items.any (SetItem.accepts u c) && !last) != negated
  | .unclosed negated, _ => negated

end accepts

/-- The pattern of classes, for a reading of the parts. -/
def piece (reading : Token → Wchar → Bool) (t : Token) : Piece Wchar :=
  if t = .wildcard then .any else .one fun c => reading t c

/-- The wildcard and the opening bracket are tested before the escape character. -/
def codeEscape (escape : Wchar) : Wchar :=
  if escape = wildcard ∨ escape = openBracket then 0 else escape

def nonzero : Set Wchar := fun c => c ≠ 0

/-- The language of a pattern. -/
def Matches (u : UpperCase) (escape : Wchar) (pattern string : List Wchar) : Prop :=
  Lang ((tokens escape pattern).map (piece (Token.accepts u))) string

/-- The language `DoLike` accepts. -/
def CodeMatches (u : UpperCase) (escape : Wchar) (pattern string : List Wchar) : Prop :=
  Lang ((tokens (codeEscape escape) pattern).map (piece (Token.codeAccepts u))) string

end NtAdmin.Wmi
