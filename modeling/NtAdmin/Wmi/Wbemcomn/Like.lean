/-! The LIKE operator of like.cpp. A string is what stands before its NUL. -/
namespace NtAdmin.Wmi

abbrev Wchar := UInt16

/-- The case mapping of the system for characters beyond ASCII, of which none becomes a NUL. -/
structure UpperCase where
  map : Wchar → Wchar
  map_ne_zero : ∀ c, map c ≠ 0

def wbemTowupper (u : UpperCase) (c : Wchar) : Wchar :=
  if c ≤ 127 then
    if 97 ≤ c ∧ c ≤ 122 then c - 32 else c
  else u.map c

def wildcard : Wchar := 37
def anySingleChar : Wchar := 95
def openBracket : Wchar := 91
def closeBracket : Wchar := 93
def caret : Wchar := 94
def hyphen : Wchar := 45

section like
variable (u : UpperCase)

/-- The loop over the characters of a set: whether one matched `c`, and where the loop stops. -/
def scanSet (c : Wchar) : Wchar → List Wchar → Bool × List Wchar
  | _, [] => (false, [])
  | lastchar, x :: pos =>
    if x = closeBracket then (false, x :: pos)
    else if x = hyphen ∧ lastchar ≠ 0 then
      match pos with
      | [] => (false, [])
      | y :: pos' =>
        if y = closeBracket then (false, y :: pos')
        else if lastchar ≤ wbemTowupper u c ∧ wbemTowupper u c ≤ wbemTowupper u y then
          (true, pos')
        else scanSet c (wbemTowupper u y) pos'
    else if wbemTowupper u x = wbemTowupper u c then (true, x :: pos)
    else scanSet c (wbemTowupper u x) pos

/-- `MatchSet` behind the opening bracket, with what is left of the pattern. -/
def matchSet (c : Wchar) (pattern : List Wchar) : Bool × List Wchar :=
  let notinset := pattern.head? = some caret
  let (matched, pos) := scanSet u c 0 (if notinset then pattern.tail else pattern)
  -- The trailing bracket is skipped with what is in front of it.
  let pos := (pos.dropWhile (· ≠ closeBracket)).tail
  let matched := if pos = [] then false else matched
  (matched == !notinset, pos)

/-- Whether only wildcards are left. -/
def onlyWildcards (pattern : List Wchar) : Bool := pattern.dropWhile (· = wildcard) = []

/-- The loop behind a wildcard, which tries what is left of the pattern on all of the string but its
end. -/
def anySuffix (like : List Wchar → Bool) : List Wchar → Bool
  | [] => false
  | c :: string => like (c :: string) || anySuffix like string

theorem length_scanSet_le (c lastchar : Wchar) (pos : List Wchar) :
    (scanSet u c lastchar pos).2.length ≤ pos.length := by
  fun_induction scanSet u c lastchar pos <;> simp_all <;> omega

theorem length_matchSet_le (c : Wchar) (pattern : List Wchar) :
    (matchSet u c pattern).2.length ≤ pattern.length := by
  have hscan := length_scanSet_le u c 0 (if pattern.head? = some caret then pattern.tail else pattern)
  have hstart : (if pattern.head? = some caret then pattern.tail else pattern).length ≤
      pattern.length := by
    split
    · rw [List.length_tail]
      omega
    · exact Nat.le_refl _
  have hdrop := (List.dropWhile_suffix (p := (· ≠ closeBracket))
    (l := (scanSet u c 0 (if pattern.head? = some caret then pattern.tail else pattern)).2)).length_le
  simp only [matchSet, List.length_tail]
  omega

/-- `DoLike`. -/
def doLike (escape : Wchar) : List Wchar → List Wchar → Bool
  | [], string => string.isEmpty
  | p :: pattern, [] => onlyWildcards (p :: pattern)
  | p :: pattern, c :: string =>
    if p = wildcard then
      anySuffix (doLike escape pattern) (c :: string) || onlyWildcards pattern
    else if p = openBracket then
      if (matchSet u c pattern).1 then doLike escape (matchSet u c pattern).2 string else false
    else if escape ≠ 0 ∧ p = escape then
      match pattern with
      -- The NUL matches no character.
      | [] => false
      | x :: pattern =>
        if wbemTowupper u x = wbemTowupper u c ∨ x = anySingleChar then
          doLike escape pattern string
        else false
    else if wbemTowupper u p = wbemTowupper u c ∨ p = anySingleChar then
      doLike escape pattern string
    else false
termination_by pattern => pattern.length
decreasing_by
  all_goals simp only [List.length_cons]
  all_goals
    first
    | omega
    | exact Nat.lt_succ_of_le (length_matchSet_le u c pattern)

end like

end NtAdmin.Wmi
