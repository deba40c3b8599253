import Mathlib.Data.Int.Notation
import Mathlib.Data.List.Basic

/-! The disjunctive normal form of a query in wbemdnf.cpp. -/
namespace NtAdmin.Wmi.Dnf

/-- `WBEM_QL1_TOKEN_TYPE`. -/
inductive TokenType
  | none
  | or
  | and
  | not
  | opExpression
  deriving DecidableEq

/-- `WBEM_QL1_COMPARISON_OPERATOR`. -/
inductive ComparisonOperator
  | none
  | equals
  | notEquals
  | greater
  | less
  | lessOrEquals
  | greaterOrEquals
  | like
  | unlike
  | isa
  | isNotA
  | invIsa
  | invIsNotA
  deriving DecidableEq

/-- `QL_LEVEL_1_TOKEN`; `V` is the type of the fields that are only copied. -/
structure QlToken (V : Type) where
  nTokenType : TokenType
  PropertyName : List String
  nOperator : ComparisonOperator
  value : V

def negateOperator : ComparisonOperator → ComparisonOperator
  | .equals => .notEquals
  | .notEquals => .equals
  | .greater => .lessOrEquals
  | .less => .greaterOrEquals
  | .lessOrEquals => .greater
  | .greaterOrEquals => .less
  | .like => .unlike
  | .unlike => .like
  | .isa => .isNotA
  | .isNotA => .isa
  | .invIsa => .invIsNotA
  | .invIsNotA => .invIsa
  | .none => .none

variable {V : Type}

def QlToken.negate (t : QlToken V) : QlToken V := { t with nOperator := negateOperator t.nOperator }

/-- The outcomes of the coming requests for memory, all others succeed: of those that the code looks
at, and of the growths of an array in an `Add` whose result it ignores. -/
structure Memory where
  checked : List Bool
  ignored : List Bool

/-- The outcome of the next request. -/
def request : List Bool → Bool × List Bool
  | [] => (true, [])
  | outcome :: outcomes => (outcome, outcomes)

/-- `CUniquePointerArray`, a `CFlexArray` that starts empty and grows by 100 percent. -/
structure PointerArray (α : Type) where
  elements : List α
  m_nExtent : ℕ

def PointerArray.empty (α : Type) : PointerArray α := ⟨[], 0⟩

/-- `Add`, with the outcomes of the requests for growth. It tells whether the element is in. -/
def PointerArray.add {α : Type} (a : PointerArray α) (pElement : α) (outcomes : List Bool) :
    Bool × PointerArray α × List Bool :=
  if a.elements.length = a.m_nExtent then
    let (outcome, outcomes) := request outcomes
    if outcome then (true, ⟨a.elements ++ [pElement], (a.m_nExtent + 1) * 200 / 100⟩, outcomes)
    else (false, a, outcomes)
  else (true, ⟨a.elements ++ [pElement], a.m_nExtent⟩, outcomes)

/-- `CConjunction`. -/
abbrev Conjunction (V : Type) := PointerArray (QlToken V)

/-- `CDNFExpression`. -/
abbrev DnfExpression (V : Type) := PointerArray (Conjunction V)

/-- The tokens of each term. -/
def DnfExpression.terms (e : DnfExpression V) : List (List (QlToken V)) :=
  e.elements.map PointerArray.elements

inductive HResult
  | noError
  | quotaViolation
  | outOfMemory
  deriving DecidableEq

/-- An allowance of tokens, with the values that it was given so far, the newest first. -/
structure Allowance where
  value : ℤ
  given : List ℤ

def Allowance.new (value : ℤ) : Allowance := ⟨value, []⟩

def Allowance.assign (value : ℤ) (a : Allowance) : Allowance := ⟨value, value :: a.given⟩

/-- What a call leaves. The pointer is one more than the index that it points to. -/
structure Outcome (V : Type) where
  hres : HResult
  pLastToken : ℕ
  lTokensAllowed : Allowance
  m_apTerms : DnfExpression V
  memory : Memory

/-- The loop of the constructors that copies tokens. There is no conjunction if it throws. -/
def copyTokens (conj : Conjunction V) :
    List (QlToken V) → Memory → Option (Conjunction V) × Memory
  | [], memory => (some conj, memory)
  | token :: tokens, memory =>
    let (outcome, checked) := request memory.checked
    if outcome then
      let (_, conj, ignored) := conj.add token memory.ignored
      copyTokens conj tokens ⟨checked, ignored⟩
    else (none, ⟨checked, memory.ignored⟩)

/-- A new conjunction, with copies of the tokens of one or two others. -/
def newConjunction (tokens : List (QlToken V)) (memory : Memory) :
    Option (Conjunction V) × Memory :=
  let (outcome, checked) := request memory.checked
  if outcome then copyTokens (.empty _) tokens ⟨checked, memory.ignored⟩
  else (none, ⟨checked, memory.ignored⟩)

/-- The loop that adds new terms, with these tokens, while they are within the allowance. -/
def addTerms (terms : DnfExpression V) :
    List (List (QlToken V)) → Allowance → Memory → HResult × Allowance × DnfExpression V × Memory
  | [], allowed, memory => (.noError, allowed, terms, memory)
  | tokens :: rest, allowed, memory =>
    match newConjunction tokens memory with
    | (none, memory) => (.outOfMemory, allowed, terms, memory)
    | (some pNewTerm, memory) =>
      let lTokens : ℤ := pNewTerm.elements.length
      if lTokens > allowed.value then (.quotaViolation, allowed, terms, memory)
      else
        let (_, terms, ignored) := terms.add pNewTerm memory.ignored
        addTerms terms rest (allowed.assign (allowed.value - lTokens)) ⟨memory.checked, ignored⟩

def createAnd (arg1 arg2 : DnfExpression V) (allowed : Allowance) (memory : Memory) :
    HResult × Allowance × DnfExpression V × Memory :=
  addTerms (.empty _) (arg1.terms.flatMap fun first => arg2.terms.map fun second => first ++ second)
    allowed memory

def createOr (arg1 arg2 : DnfExpression V) (allowed : Allowance) (memory : Memory) :
    HResult × Allowance × DnfExpression V × Memory :=
  let (hres, allowed, terms, memory) := addTerms (.empty _) arg1.terms allowed memory
  if hres ≠ .noError then (hres, allowed, terms, memory)
  else addTerms terms arg2.terms allowed memory

/-- `CConjunction(Token, bNegate)`. There is no result where the token that is negated is read from
an array without memory, and no conjunction if it throws. -/
def conjunctionOf (token : QlToken V) (bNegate : Bool) (memory : Memory) :
    Option (Option (Conjunction V) × Memory) :=
  match newConjunction [token] memory with
  | (none, memory) => some (none, memory)
  | (some conj, memory) =>
    if bNegate then
      match conj.elements with
      | [] => none
      | first :: others => some (some { conj with elements := first.negate :: others }, memory)
    else some (some conj, memory)

/-- `CreateFromToken`. -/
def createFromToken (token : QlToken V) (bNegate : Bool) (memory : Memory) :
    Option (Bool × DnfExpression V × Memory) :=
  match conjunctionOf token bNegate memory with
  | none => none
  | some (none, memory) => some (false, .empty _, memory)
  | some (some pConj, memory) =>
    let (added, terms, checked) := (PointerArray.empty _).add pConj memory.checked
    some (added, terms, ⟨checked, memory.ignored⟩)

/-- The token at the pointer, if it is in the array. -/
def tokenAt (tokens : List (QlToken V)) : ℕ → Option (QlToken V)
  | 0 => none
  | index + 1 => tokens[index]?

/-- None for a read outside of an array, or where the recursion is deeper than `fuel`. -/
def createFromTokens (tokens : List (QlToken V)) :
    ℕ → ℕ → Bool → Allowance → Memory → Option (Outcome V)
  | 0, _, _, _, _ => none
  | fuel + 1, pLastToken, bNegate, allowed, memory =>
    if allowed.value < 0 then some ⟨.quotaViolation, pLastToken, allowed, .empty _, memory⟩
    else
      let allowed := allowed.assign (allowed.value - 1)
      match tokenAt tokens pLastToken with
      | none => none
      | some head =>
        if head.nTokenType = .opExpression then
          match createFromToken head bNegate memory with
          | none => none
          | some (false, terms, memory) => some ⟨.outOfMemory, pLastToken, allowed, terms, memory⟩
          | some (true, terms, memory) => some ⟨.noError, pLastToken - 1, allowed, terms, memory⟩
        else if head.nTokenType = .not then
          createFromTokens tokens fuel (pLastToken - 1) (!bNegate) allowed memory
        else
          let lChildCount := Allowance.new allowed.value
          match createFromTokens tokens fuel (pLastToken - 1) bNegate lChildCount memory with
          | none => none
          | some arg1 =>
            if arg1.hres ≠ .noError then
              some ⟨arg1.hres, arg1.pLastToken, allowed, .empty _, arg1.memory⟩
            else
              match createFromTokens tokens fuel arg1.pLastToken bNegate arg1.lTokensAllowed
                arg1.memory with
              | none => none
              | some arg2 =>
                if arg2.hres ≠ .noError then
                  some ⟨arg2.hres, arg2.pLastToken, allowed, .empty _, arg2.memory⟩
                else
                  let (hres, allowed, terms, memory) :=
                    if head.nTokenType = .and then
                      if !bNegate then createAnd arg1.m_apTerms arg2.m_apTerms allowed arg2.memory
                      else createOr arg1.m_apTerms arg2.m_apTerms allowed arg2.memory
                    else
                      if !bNegate then createOr arg1.m_apTerms arg2.m_apTerms allowed arg2.memory
                      else createAnd arg1.m_apTerms arg2.m_apTerms allowed arg2.memory
                  some ⟨hres, arg2.pLastToken, allowed, terms, memory⟩

/-- The loop of `CConjunction::Sort`. -/
def sortLoop : ℕ → ℕ → List (QlToken V) → Option (List (QlToken V))
  | 0, _, _ => none
  | fuel + 1, i, tokens =>
    match tokens[i]?, tokens[i + 1]? with
    | some left, some right =>
      if left.PropertyName.length > right.PropertyName.length then
        sortLoop fuel (i - 1) ((tokens.set i right).set (i + 1) left)
      else sortLoop fuel (i + 1) tokens
    | _, _ => some tokens

/-- `Sort` of an expression, by the sort of each of its terms. -/
def sortTerms (fuel : ℕ) (terms : List (List (QlToken V))) : Option (List (List (QlToken V))) :=
  terms.mapM (sortLoop fuel 0)

/-! ### Queries and truth -/

/-- A query. -/
inductive Query (V : Type)
  | comparison (token : QlToken V)
  | not (q : Query V)
  | and (p q : Query V)
  | or (p q : Query V)

/-- An array of tokens is a query in postfix order. -/
inductive Postfix : Query V → List (QlToken V) → Prop
  | comparison {t : QlToken V} : t.nTokenType = .opExpression → Postfix (.comparison t) [t]
  | not {q : Query V} {ts : List (QlToken V)} {t : QlToken V} :
    Postfix q ts → t.nTokenType = .not → Postfix (.not q) (ts ++ [t])
  | and {p q : Query V} {ts us : List (QlToken V)} {t : QlToken V} :
    Postfix p ts → Postfix q us → t.nTokenType = .and → Postfix (.and p q) (ts ++ us ++ [t])
  | or {p q : Query V} {ts us : List (QlToken V)} {t : QlToken V} :
    Postfix p ts → Postfix q us → t.nTokenType = .or → Postfix (.or p q) (ts ++ us ++ [t])

section truth
variable (val : QlToken V → Bool)

def Query.holds : Query V → Bool
  | .comparison t => val t
  | .not q => !q.holds
  | .and p q => p.holds && q.holds
  | .or p q => p.holds || q.holds

def holdsDnf (terms : List (List (QlToken V))) : Bool := terms.any fun conj => conj.all val

/-- An operator and the one it is negated to are complementary, in the comparisons of an array. -/
def Complementary (ts : List (QlToken V)) : Prop :=
  ∀ t ∈ ts, t.nTokenType = .opExpression → val t.negate = !val t

end truth

/-- Every growth of an array whose failure is ignored gets its memory. -/
def Memory.Grows (memory : Memory) : Prop := ∀ outcome ∈ memory.ignored, outcome = true

end NtAdmin.Wmi.Dnf
