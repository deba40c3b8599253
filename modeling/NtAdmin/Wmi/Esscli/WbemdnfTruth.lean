import NtAdmin.Wmi.Esscli.Wbemdnf

/-! A disjunctive normal form is true where the query is. -/
namespace NtAdmin.Wmi.Dnf

variable {V : Type}

/-! ### Allowances -/

/-- Only the last value that was given may be negative, and then it is -1. -/
structure Allowance.Sound (a : Allowance) : Prop where
  lower : ∀ v ∈ a.given, -1 ≤ v
  earlier : ∀ v ∈ a.given.tail, 0 ≤ v
  last : ∀ v ∈ a.given.head?, v = a.value

namespace Allowance

theorem sound_new (n : ℤ) : (Allowance.new n).Sound where
  lower _ hv := nomatch hv
  earlier _ hv := nomatch hv
  last _ hv := nomatch hv

/-- An allowance that is not negative may be given a value of -1 or more. -/
theorem Sound.assign {a : Allowance} (h : a.Sound) (ha : 0 ≤ a.value) {value : ℤ}
    (hvalue : -1 ≤ value) : (a.assign value).Sound where
  lower v hv := by
    obtain rfl | hv := List.mem_cons.1 hv
    · exact hvalue
    · exact h.lower v hv
  earlier v hv := by
    have hv' : v ∈ a.given := hv
    cases hgiven : a.given with
    | nil => simp [hgiven] at hv'
    | cons w given =>
      rw [hgiven] at hv'
      obtain rfl | hv' := List.mem_cons.1 hv'
      · rw [h.last v (by simp [hgiven])]
        exact ha
      · exact h.earlier v (by rw [hgiven]; exact hv')
  last v hv := by
    obtain rfl := Option.some.inj hv
    rfl

end Allowance

/-! ### Growth of the arrays -/

theorem request_spec {outcomes : List Bool} (h : ∀ outcome ∈ outcomes, outcome = true) :
    (request outcomes).1 = true ∧ ∀ outcome ∈ (request outcomes).2, outcome = true := by
  cases outcomes with
  | nil => exact ⟨rfl, h⟩
  | cons outcome outcomes =>
    exact ⟨h outcome List.mem_cons_self, fun o ho => h o (List.mem_cons_of_mem outcome ho)⟩

/-- An array that gets its memory gets the element. -/
theorem PointerArray.add_spec {α : Type} (a : PointerArray α) (pElement : α) {outcomes : List Bool}
    (h : ∀ outcome ∈ outcomes, outcome = true) :
    (a.add pElement outcomes).2.1.elements = a.elements ++ [pElement] ∧
      ∀ outcome ∈ (a.add pElement outcomes).2.2, outcome = true := by
  obtain ⟨houtcome, hrest⟩ := request_spec h
  unfold PointerArray.add
  dsimp only
  by_cases hfull : a.elements.length = a.m_nExtent
  · rw [if_pos hfull, houtcome, if_pos rfl]
    exact ⟨rfl, hrest⟩
  · rw [if_neg hfull]
    exact ⟨rfl, h⟩

/-- An array has the element that it tells of. -/
theorem PointerArray.add_elements {α : Type} {a b : PointerArray α} {pElement : α}
    {outcomes outcomes' : List Bool} (h : a.add pElement outcomes = (true, b, outcomes')) :
    b.elements = a.elements ++ [pElement] := by
  unfold PointerArray.add at h
  dsimp only at h
  split_ifs at h
  · obtain ⟨-, rfl, -⟩ := Prod.mk.inj h
    rfl
  · exact Bool.noConfusion (Prod.mk.inj h).1
  · obtain ⟨-, rfl, -⟩ := Prod.mk.inj h
    rfl

/-- A conjunction that is made has all the tokens. -/
def Makes (tokens : List (QlToken V)) (made : Option (Conjunction V) × Memory) : Prop :=
  made.2.Grows ∧ ∀ conj, made.1 = some conj → conj.elements = tokens

theorem copyTokens_makes (tokens : List (QlToken V)) (conj : Conjunction V) {memory : Memory}
    (h : memory.Grows) : Makes (conj.elements ++ tokens) (copyTokens conj tokens memory) := by
  induction tokens generalizing conj memory with
  | nil =>
    refine ⟨h, fun conj' heq => ?_⟩
    rw [← Option.some.inj heq, List.append_nil]
  | cons token tokens ih =>
    rw [copyTokens]
    dsimp only
    split_ifs
    · obtain ⟨helements, hgrows⟩ := conj.add_spec token h
      have hmakes := @ih (conj.add token memory.ignored).2.1
        ⟨(request memory.checked).2, (conj.add token memory.ignored).2.2⟩ hgrows
      rwa [helements, List.append_assoc, List.singleton_append] at hmakes
    · exact ⟨h, fun _ heq => absurd heq (Option.some_ne_none _).symm⟩

theorem newConjunction_makes (tokens : List (QlToken V)) {memory : Memory} (h : memory.Grows) :
    Makes tokens (newConjunction tokens memory) := by
  unfold newConjunction
  dsimp only
  split_ifs
  · exact copyTokens_makes tokens (.empty _) h
  · exact ⟨h, fun _ heq => absurd heq (Option.some_ne_none _).symm⟩

/-! ### Terms that are added -/

/-- What has been added to the terms `old`. -/
structure Added (old new : List (List (QlToken V)))
    (out : HResult × Allowance × DnfExpression V × Memory) : Prop where
  allowance : out.2.1.Sound
  memory : out.2.2.2.Grows
  terms : out.1 = .noError → DnfExpression.terms out.2.2.1 = old ++ new

theorem addTerms_added {allowed : Allowance} {memory : Memory} (h : allowed.Sound)
    (hmemory : memory.Grows) (terms : DnfExpression V) (rest : List (List (QlToken V))) :
    Added terms.terms rest (addTerms terms rest allowed memory) := by
  induction rest generalizing terms allowed memory with
  | nil => exact ⟨h, hmemory, fun _ => (List.append_nil _).symm⟩
  | cons tokens rest ih =>
    obtain ⟨hgrows, hmakes⟩ := newConjunction_makes tokens hmemory
    rw [addTerms]
    cases hnew : newConjunction tokens memory with
    | mk pNewTerm memory' =>
      rw [hnew] at hgrows hmakes
      cases pNewTerm with
      | none => exact ⟨h, hgrows, fun hres => HResult.noConfusion hres⟩
      | some pNewTerm =>
        dsimp only
        split_ifs with hlt
        · exact ⟨h, hgrows, fun hres => HResult.noConfusion hres⟩
        · have hlength : (0 : ℤ) ≤ pNewTerm.elements.length := Int.natCast_nonneg _
          obtain ⟨helements, hgrows'⟩ := terms.add_spec pNewTerm hgrows
          have hleft : (-1 : ℤ) ≤ allowed.value - pNewTerm.elements.length := by omega
          have hmemory' : Memory.Grows
              ⟨memory'.checked, (terms.add pNewTerm memory'.ignored).2.2⟩ := hgrows'
          have hadded := ih (h.assign (by omega) hleft) hmemory'
            (terms.add pNewTerm memory'.ignored).2.1
          refine ⟨hadded.allowance, hadded.memory, fun hres => (hadded.terms hres).trans ?_⟩
          rw [DnfExpression.terms, helements, List.map_append, List.map_singleton,
            hmakes pNewTerm rfl, List.append_assoc, List.singleton_append]
          rfl

theorem createAnd_added {allowed : Allowance} {memory : Memory} (h : allowed.Sound)
    (hmemory : memory.Grows) (arg1 arg2 : DnfExpression V) :
    Added [] (arg1.terms.flatMap fun first => arg2.terms.map fun second => first ++ second)
      (createAnd arg1 arg2 allowed memory) :=
  addTerms_added h hmemory (.empty _) _

theorem createOr_added {allowed : Allowance} {memory : Memory} (h : allowed.Sound)
    (hmemory : memory.Grows) (arg1 arg2 : DnfExpression V) :
    Added [] (arg1.terms ++ arg2.terms) (createOr arg1 arg2 allowed memory) := by
  have hfirst : Added [] arg1.terms (addTerms (.empty _) arg1.terms allowed memory) :=
    addTerms_added h hmemory (.empty _) _
  rw [createOr]
  dsimp only
  split_ifs with hfailed
  · exact ⟨hfirst.allowance, hfirst.memory, fun hres => absurd hres hfailed⟩
  · have hsecond := addTerms_added hfirst.allowance hfirst.memory
      (addTerms (.empty _) arg1.terms allowed memory).2.2.1 arg2.terms
    refine ⟨hsecond.allowance, hsecond.memory, fun hres => (hsecond.terms hres).trans ?_⟩
    rw [hfirst.terms (not_not.1 hfailed), List.nil_append, List.nil_append]

variable {val : QlToken V → Bool}

theorem holdsDnf_append (terms rest : List (List (QlToken V))) :
    holdsDnf val (terms ++ rest) = (holdsDnf val terms || holdsDnf val rest) :=
  List.any_append

/-- One conjunction with each of a disjunction. -/
theorem holdsDnf_map_append (first : List (QlToken V)) (terms : List (List (QlToken V))) :
    holdsDnf val (terms.map fun second => first ++ second) =
      (first.all val && holdsDnf val terms) := by
  induction terms with
  | nil => simp [holdsDnf]
  | cons second terms ih =>
    have hcons : ∀ conj : List (QlToken V), ∀ ts, holdsDnf val (conj :: ts) =
        (conj.all val || holdsDnf val ts) := fun _ _ => rfl
    rw [List.map_cons, hcons, hcons, ih, List.all_append, Bool.and_or_distrib_left]

/-- Each conjunction of one disjunction with each of another. -/
theorem holdsDnf_flatMap (arg1 arg2 : List (List (QlToken V))) :
    holdsDnf val (arg1.flatMap fun first => arg2.map fun second => first ++ second) =
      (holdsDnf val arg1 && holdsDnf val arg2) := by
  induction arg1 with
  | nil => rfl
  | cons first arg1 ih =>
    have hcons : holdsDnf val (first :: arg1) = (first.all val || holdsDnf val arg1) := rfl
    rw [List.flatMap_cons, holdsDnf_append, holdsDnf_map_append, ih, hcons,
      Bool.and_or_distrib_right]

/-! ### Queries -/

theorem tokenAt_last (before ts after : List (QlToken V)) (t : QlToken V) :
    tokenAt (before ++ (ts ++ [t]) ++ after) (before.length + (ts ++ [t]).length) = some t := by
  have hindex : before.length + (ts ++ [t]).length = before.length + ts.length + 1 := by
    simp [Nat.add_assoc]
  rw [hindex, tokenAt, List.append_assoc, List.getElem?_append_right (by omega),
    Nat.add_sub_cancel_left, List.append_assoc, List.getElem?_append_right (Nat.le_refl _),
    Nat.sub_self]
  rfl

/-- What holds when a query was turned into an expression, with its first token behind `first`
others. -/
structure Created (val : QlToken V → Bool) (q : Query V) (bNegate : Bool) (first : ℕ)
    (out : Outcome V) : Prop where
  allowance : out.lTokensAllowed.Sound
  memory : out.memory.Grows
  pointer : out.hres = .noError → out.pLastToken = first
  truth : out.hres = .noError → holdsDnf val out.m_apTerms.terms = (bNegate ^^ q.holds val)

theorem created_of_failed {q : Query V} {bNegate : Bool} {first : ℕ} {out : Outcome V}
    (hsound : out.lTokensAllowed.Sound) (hgrows : out.memory.Grows) (hres : out.hres ≠ .noError) :
    Created val q bNegate first out where
  allowance := hsound
  memory := hgrows
  pointer h := absurd h hres
  truth h := absurd h hres

/-- The conjunction of one token, or none. -/
theorem conjunctionOf_spec (t : QlToken V) (bNegate : Bool) {memory : Memory} (h : memory.Grows) :
    ∃ made, conjunctionOf t bNegate memory = some made ∧
      Makes [if bNegate then t.negate else t] made := by
  obtain ⟨hgrows, hmakes⟩ := newConjunction_makes [t] h
  unfold conjunctionOf
  cases hnew : newConjunction [t] memory with
  | mk conj memory' =>
    rw [hnew] at hgrows hmakes
    cases conj with
    | none => exact ⟨_, rfl, hgrows, fun _ heq => absurd heq (Option.some_ne_none _).symm⟩
    | some conj =>
      have helements := hmakes conj rfl
      cases bNegate with
      | false => exact ⟨_, rfl, hgrows, hmakes⟩
      | true =>
        dsimp only
        rw [if_pos rfl, helements]
        exact ⟨_, rfl, hgrows, fun conj' heq => by rw [← Option.some.inj heq]; rfl⟩

theorem createFromToken_spec (t : QlToken V) (bNegate : Bool) {memory : Memory}
    (h : memory.Grows) :
    ∃ added terms memory', createFromToken t bNegate memory = some (added, terms, memory') ∧
      memory'.Grows ∧
      (added = true → DnfExpression.terms terms = [[if bNegate then t.negate else t]]) := by
  obtain ⟨made, hmade, hgrows, hmakes⟩ := conjunctionOf_spec t bNegate h
  unfold createFromToken
  rw [hmade]
  obtain ⟨conj, memory'⟩ := made
  cases conj with
  | none => exact ⟨false, .empty _, memory', rfl, hgrows, fun hadded => Bool.noConfusion hadded⟩
  | some pConj =>
    cases hadd : (PointerArray.empty (Conjunction V)).add pConj memory'.checked with
    | mk added rest =>
      refine ⟨added, rest.1, ⟨rest.2, memory'.ignored⟩, ?_, hgrows, fun hadded => ?_⟩
      · dsimp only
        rw [hadd]
      · rw [DnfExpression.terms, PointerArray.add_elements (hadd.trans (Prod.ext hadded rfl))]
        show [pConj.elements] = _
        rw [hmakes pConj rfl]

theorem createFromTokens_comparison {t : QlToken V} (ht : t.nTokenType = .opExpression)
    (hval : val t.negate = !val t) (before after : List (QlToken V)) {fuel : ℕ} (bNegate : Bool)
    {allowed : Allowance} (hsound : allowed.Sound) {memory : Memory} (hmemory : memory.Grows) :
    ∃ out, createFromTokens (before ++ [t] ++ after) (fuel + 1) (before.length + 1) bNegate allowed
      memory = some out ∧ Created val (.comparison t) bNegate before.length out := by
  have htoken := tokenAt_last before [] after t
  simp only [List.nil_append, List.length_singleton] at htoken
  rw [createFromTokens]
  by_cases hneg : allowed.value < 0
  · rw [if_pos hneg]
    exact ⟨_, rfl, created_of_failed hsound hmemory (by simp)⟩
  · obtain ⟨added, terms, memory', hrun, hgrows, hterms⟩ := createFromToken_spec t bNegate hmemory
    have hsound' := hsound.assign (by omega) (by omega : -1 ≤ allowed.value - 1)
    rw [if_neg hneg, htoken]
    dsimp only
    rw [if_pos ht, hrun]
    cases added with
    | false => exact ⟨_, rfl, created_of_failed hsound' hgrows (by simp)⟩
    | true =>
      refine ⟨_, rfl, hsound', hgrows, fun _ => rfl, fun _ => ?_⟩
      dsimp only
      rw [hterms rfl]
      cases bNegate with
      | false => simp [holdsDnf, Query.holds]
      | true => simp [holdsDnf, Query.holds, hval]

/-- A segment of an array is turned into an expression. -/
def Converts (val : QlToken V → Bool) (q : Query V) (ts : List (QlToken V)) : Prop :=
  ∀ (before after : List (QlToken V)) (fuel : ℕ) (bNegate : Bool) (allowed : Allowance)
    (memory : Memory), ts.length ≤ fuel → allowed.Sound → memory.Grows → ∃ out,
      createFromTokens (before ++ ts ++ after) fuel (before.length + ts.length) bNegate allowed
        memory = some out ∧ Created val q bNegate before.length out

theorem converts_not {q : Query V} {ts : List (QlToken V)} {t : QlToken V}
    (ht : t.nTokenType = .not) (h : Converts val q ts) : Converts val (.not q) (ts ++ [t]) := by
  intro before after fuel bNegate allowed memory hfuel hsound hmemory
  rw [List.length_append, List.length_singleton] at hfuel
  cases fuel with
  | zero => omega
  | succ fuel =>
    rw [createFromTokens, tokenAt_last]
    by_cases hneg : allowed.value < 0
    · rw [if_pos hneg]
      exact ⟨_, rfl, created_of_failed hsound hmemory (by simp)⟩
    · obtain ⟨out, hout, hcreated⟩ := h before ([t] ++ after) fuel (!bNegate)
        (allowed.assign (allowed.value - 1)) memory (by omega)
        (hsound.assign (by omega) (by omega)) hmemory
      have htokens : before ++ (ts ++ [t]) ++ after = before ++ ts ++ ([t] ++ after) := by simp
      have hpointer : before.length + (ts ++ [t]).length - 1 = before.length + ts.length := by simp
      rw [if_neg hneg, htokens, hpointer]
      dsimp only
      rw [if_neg (by simp [ht]), if_pos ht, hout]
      refine ⟨out, rfl, hcreated.allowance, hcreated.memory, hcreated.pointer, fun hres => ?_⟩
      rw [hcreated.truth hres, Query.holds]
      cases bNegate <;> simp

/-- The two arguments of AND or OR, the last one first, and what combines them. -/
theorem converts_binary {p q r : Query V} {ts us : List (QlToken V)} {t : QlToken V}
    (ht : t.nTokenType = .and ∨ t.nTokenType = .or) (hp : Converts val p ts)
    (hq : Converts val q us)
    (hr : r.holds val = if t.nTokenType = .and then p.holds val && q.holds val
      else p.holds val || q.holds val) :
    Converts val r (ts ++ us ++ [t]) := by
  intro before after fuel bNegate allowed memory hfuel hsound hmemory
  rw [List.length_append, List.length_append, List.length_singleton] at hfuel
  cases fuel with
  | zero => omega
  | succ fuel =>
    rw [createFromTokens, tokenAt_last]
    by_cases hneg : allowed.value < 0
    · rw [if_pos hneg]
      exact ⟨_, rfl, created_of_failed hsound hmemory (by simp)⟩
    · have hsound' := hsound.assign (by omega) (by omega : -1 ≤ allowed.value - 1)
      have hop : t.nTokenType ≠ .opExpression := by
        obtain ht | ht := ht <;> simp [ht]
      have hnot : t.nTokenType ≠ .not := by
        obtain ht | ht := ht <;> simp [ht]
      obtain ⟨arg1, harg1, hcreated1⟩ := hq (before ++ ts) ([t] ++ after) fuel bNegate
        (Allowance.new (allowed.value - 1)) memory (by omega) (Allowance.sound_new _) hmemory
      have htokens : before ++ (ts ++ us ++ [t]) ++ after =
          before ++ ts ++ us ++ ([t] ++ after) := by simp
      have hpointer : before.length + (ts ++ us ++ [t]).length - 1 =
          (before ++ ts).length + us.length := by
        simp only [List.length_append, List.length_singleton]
        omega
      rw [if_neg hneg, htokens, hpointer]
      dsimp only
      rw [if_neg hop, if_neg hnot, Allowance.assign, harg1]
      dsimp only
      by_cases hres1 : arg1.hres = .noError
      · obtain ⟨arg2, harg2, hcreated2⟩ := hp before (us ++ ([t] ++ after)) fuel bNegate
          arg1.lTokensAllowed arg1.memory (by omega) hcreated1.allowance hcreated1.memory
        have htokens' : before ++ ts ++ us ++ ([t] ++ after) =
            before ++ ts ++ (us ++ ([t] ++ after)) := by simp
        rw [if_neg (by simp [hres1]), hcreated1.pointer hres1, List.length_append, htokens', harg2]
        dsimp only
        by_cases hres2 : arg2.hres = .noError
        · rw [if_neg (by simp [hres2])]
          have htruth1 := hcreated1.truth hres1
          have htruth2 := hcreated2.truth hres2
          have hpointer2 := hcreated2.pointer hres2
          have hand := createAnd_added hsound' hcreated2.memory arg1.m_apTerms arg2.m_apTerms
          have hor := createOr_added hsound' hcreated2.memory arg1.m_apTerms arg2.m_apTerms
          have hand' := @holdsDnf_flatMap _ val arg1.m_apTerms.terms arg2.m_apTerms.terms
          have hor' := @holdsDnf_append _ val arg1.m_apTerms.terms arg2.m_apTerms.terms
          rw [htruth1, htruth2] at hand' hor'
          refine ⟨_, rfl, ?_⟩
          obtain ht | ht := ht
          · simp only [ht, if_true] at hr ⊢
            cases bNegate with
            | false =>
              refine ⟨hand.allowance, hand.memory, fun _ => hpointer2, fun h => ?_⟩
              refine (congrArg (holdsDnf val) (hand.terms h)).trans (hand'.trans ?_)
              rw [hr, Bool.false_xor, Bool.false_xor, Bool.false_xor, Bool.and_comm]
            | true =>
              refine ⟨hor.allowance, hor.memory, fun _ => hpointer2, fun h => ?_⟩
              refine (congrArg (holdsDnf val) (hor.terms h)).trans (hor'.trans ?_)
              rw [hr, Bool.true_xor, Bool.true_xor, Bool.true_xor, Bool.not_and, Bool.or_comm]
          · simp only [ht, reduceCtorEq, if_false] at hr ⊢
            cases bNegate with
            | false =>
              refine ⟨hor.allowance, hor.memory, fun _ => hpointer2, fun h => ?_⟩
              refine (congrArg (holdsDnf val) (hor.terms h)).trans (hor'.trans ?_)
              rw [hr, Bool.false_xor, Bool.false_xor, Bool.false_xor, Bool.or_comm]
            | true =>
              refine ⟨hand.allowance, hand.memory, fun _ => hpointer2, fun h => ?_⟩
              refine (congrArg (holdsDnf val) (hand.terms h)).trans (hand'.trans ?_)
              rw [hr, Bool.true_xor, Bool.true_xor, Bool.true_xor, Bool.not_or, Bool.and_comm]
        · rw [if_pos hres2]
          exact ⟨_, rfl, created_of_failed hsound' hcreated2.memory hres2⟩
      · rw [if_pos hres1]
        exact ⟨_, rfl, created_of_failed hsound' hcreated1.memory hres1⟩

theorem converts_postfix {q : Query V} {ts : List (QlToken V)} (h : Postfix q ts)
    (hval : Complementary val ts) : Converts val q ts := by
  induction h with
  | @comparison t ht =>
    intro before after fuel bNegate allowed memory hfuel hsound hmemory
    cases fuel with
    | zero => simp at hfuel
    | succ fuel =>
      exact createFromTokens_comparison ht (hval t (by simp) ht) before after bNegate hsound
        hmemory
  | @not q ts t _ ht ih =>
    exact converts_not ht (ih fun u hu => hval u (by simp [hu]))
  | @and p q ts us t _ _ ht ihp ihq =>
    refine converts_binary (Or.inl ht) (ihp fun u hu => hval u (by simp [hu]))
      (ihq fun u hu => hval u (by simp [hu])) ?_
    rw [if_pos ht, Query.holds]
  | @or p q ts us t _ _ ht ihp ihq =>
    refine converts_binary (Or.inr ht) (ihp fun u hu => hval u (by simp [hu]))
      (ihq fun u hu => hval u (by simp [hu])) ?_
    rw [if_neg (by simp [ht]), Query.holds]

/-! ### The sort -/

/-- The numbers of elements, each counted once for every token from it on. -/
def weight : List (QlToken V) → ℕ
  | [] => 0
  | t :: tokens => t.PropertyName.length * (tokens.length + 1) + weight tokens

theorem weight_append_swap (front : List (QlToken V)) {left right : QlToken V}
    (h : right.PropertyName.length < left.PropertyName.length) (back : List (QlToken V)) :
    weight (front ++ right :: left :: back) < weight (front ++ left :: right :: back) := by
  induction front with
  | nil =>
    simp only [List.nil_append, weight, List.length_cons]
    have hdouble : ∀ x : ℕ, x * (back.length + 1 + 1) = x * (back.length + 1) + x := fun x => by
      rw [Nat.mul_succ]
    rw [hdouble, hdouble]
    omega
  | cons t front ih =>
    simp only [List.cons_append, weight, List.length_append, List.length_cons]
    omega

/-- The two neighbours of a place in a list. -/
theorem split_at {tokens : List (QlToken V)} {i : ℕ} {left right : QlToken V}
    (hl : tokens[i]? = some left) (hr : tokens[i + 1]? = some right) :
    ∃ front back, tokens = front ++ left :: right :: back ∧
      (tokens.set i right).set (i + 1) left = front ++ right :: left :: back := by
  induction tokens generalizing i with
  | nil => simp at hl
  | cons t tokens ih =>
    cases i with
    | zero =>
      cases tokens with
      | nil => simp at hr
      | cons u tokens =>
        obtain rfl : t = left := by simpa using hl
        obtain rfl : u = right := by simpa using hr
        exact ⟨[], tokens, rfl, rfl⟩
    | succ i =>
      obtain ⟨front, back, heq, hset⟩ := ih (by simpa using hl) (by simpa using hr)
      refine ⟨t :: front, back, by rw [heq]; rfl, ?_⟩
      rw [List.set_cons_succ, List.set_cons_succ, hset]
      rfl

/-- The loop ends, and only changes the order. -/
theorem sortLoop_perm {fuel i : ℕ} {tokens : List (QlToken V)} (hi : i ≤ tokens.length)
    (hfuel : 2 * weight tokens + (tokens.length - i) < fuel) :
    ∃ sorted, sortLoop fuel i tokens = some sorted ∧ sorted.Perm tokens := by
  induction fuel generalizing i tokens with
  | zero => omega
  | succ fuel ih =>
    rw [sortLoop]
    cases hl : tokens[i]? with
    | none => exact ⟨tokens, rfl, List.Perm.refl _⟩
    | some left =>
      cases hr : tokens[i + 1]? with
      | none => exact ⟨tokens, rfl, List.Perm.refl _⟩
      | some right =>
        have hlt : i + 1 < tokens.length := (List.getElem?_eq_some_iff.1 hr).1
        dsimp only
        split_ifs with hgt
        · obtain ⟨front, back, heq, hset⟩ := split_at hl hr
          have hweight := weight_append_swap front hgt back
          have hlength : (front ++ right :: left :: back).length = tokens.length := by
            simp [heq]
          rw [hset]
          have hi' : i - 1 ≤ (front ++ right :: left :: back).length := by omega
          obtain ⟨sorted, hsorted, hperm⟩ := ih hi' (by rw [← heq] at hweight; omega)
          refine ⟨sorted, hsorted, hperm.trans ?_⟩
          rw [heq]
          exact (List.Perm.swap left right back).append_left front
        · exact ih (by omega) (by omega)

theorem sortTerms_holds (val : QlToken V → Bool) (terms : List (List (QlToken V))) :
    ∃ rounds, ∀ fuel, rounds ≤ fuel → ∃ sorted, sortTerms fuel terms = some sorted ∧
      holdsDnf val sorted = holdsDnf val terms := by
  induction terms with
  | nil => exact ⟨0, fun _ _ => ⟨[], rfl, rfl⟩⟩
  | cons conj terms ih =>
    obtain ⟨rounds, hrounds⟩ := ih
    refine ⟨max (2 * weight conj + conj.length + 1) rounds, ?_⟩
    intro fuel hfuel
    have hfuel' : 2 * weight conj + (conj.length - 0) < fuel := by omega
    obtain ⟨first, hfirst, hperm⟩ := sortLoop_perm (Nat.zero_le conj.length) hfuel'
    obtain ⟨rest, hrest, hholds⟩ := hrounds fuel (by omega)
    refine ⟨first :: rest, ?_, ?_⟩
    · rw [sortTerms] at hrest ⊢
      rw [List.mapM_cons, hfirst, hrest]
      rfl
    · have hcons : ∀ (c : List (QlToken V)) ts, holdsDnf val (c :: ts) =
          (c.all val || holdsDnf val ts) := fun _ _ => rfl
      rw [hcons, hcons, hholds, hperm.all_eq]

/-- What the call comes to: an expression that is true where the query is, or a failure. -/
def TruthKept (q : Query V) (before ts after : List (QlToken V)) (val : QlToken V → Bool)
    (bNegate : Bool) (lTokensAllowed : ℤ) (memory : Memory) : Prop :=
  ∃ out, createFromTokens (before ++ ts ++ after) ts.length (before.length + ts.length) bNegate
      (Allowance.new lTokensAllowed) memory = some out ∧ out.lTokensAllowed.Sound ∧
    (out.hres = .noError → out.pLastToken = before.length ∧
      holdsDnf val out.m_apTerms.terms = (bNegate ^^ q.holds val) ∧
      ∃ rounds, ∀ fuel, rounds ≤ fuel → ∃ sorted,
        sortTerms fuel out.m_apTerms.terms = some sorted ∧
        holdsDnf val sorted = (bNegate ^^ q.holds val))

theorem createFromTokens_truth (q : Query V) (before ts after : List (QlToken V))
    (val : QlToken V → Bool) (bNegate : Bool) (lTokensAllowed : ℤ) (memory : Memory)
    (h : Postfix q ts) (hval : Complementary val ts) (hmemory : memory.Grows) :
    TruthKept q before ts after val bNegate lTokensAllowed memory := by
  obtain ⟨out, hout, hcreated⟩ := converts_postfix h hval before after ts.length bNegate
    (Allowance.new lTokensAllowed) memory (Nat.le_refl _) (Allowance.sound_new _) hmemory
  refine ⟨out, hout, hcreated.allowance, fun hres => ?_⟩
  obtain ⟨rounds, hrounds⟩ := sortTerms_holds val out.m_apTerms.terms
  refine ⟨hcreated.pointer hres, hcreated.truth hres, rounds, fun fuel hfuel => ?_⟩
  obtain ⟨sorted, hsorted, hholds⟩ := hrounds fuel hfuel
  exact ⟨sorted, hsorted, hholds.trans (hcreated.truth hres)⟩

/-- The negation of a = x AND b < y. -/
def negatedPair : List (QlToken Unit) :=
  [⟨.opExpression, ["a"], .equals, ()⟩, ⟨.opExpression, ["b"], .less, ()⟩, ⟨.and, [], .none, ()⟩,
    ⟨.not, [], .none, ()⟩]

def negatedQuery : Query Unit :=
  .not (.and (.comparison ⟨.opExpression, ["a"], .equals, ()⟩)
    (.comparison ⟨.opExpression, ["b"], .less, ()⟩))

/-- What holds is that things are equal, and less. -/
def equalOrLess (t : QlToken Unit) : Bool := t.nOperator = .equals ∨ t.nOperator = .less

/-- Where both comparisons hold, the expression that is made is false, and it stays so sorted. -/
theorem createFromTokens_truth_negatedPair : ∃ out,
    createFromTokens negatedPair 4 4 false (Allowance.new 6) ⟨[], [true]⟩ = some out ∧
      out.hres = .noError ∧ holdsDnf equalOrLess out.m_apTerms.terms = false ∧
      ∃ fuel sorted, sortTerms fuel out.m_apTerms.terms = some sorted ∧
        holdsDnf equalOrLess sorted = false := by
  have hpostfix : Postfix negatedQuery negatedPair :=
    .not (.and (.comparison rfl) (.comparison rfl) rfl) rfl
  obtain ⟨out, hout, -, htruth⟩ := createFromTokens_truth negatedQuery [] negatedPair []
    equalOrLess false 6 ⟨[], [true]⟩ hpostfix (by unfold Complementary; decide)
    (by unfold Memory.Grows; decide)
  have hres : out.hres = .noError := by
    have hrun : (createFromTokens negatedPair 4 4 false (Allowance.new 6) ⟨[], [true]⟩).map
        Outcome.hres = some .noError := by decide
    have hsame : createFromTokens negatedPair 4 4 false (Allowance.new 6) ⟨[], [true]⟩ =
        some out := hout
    rw [hsame] at hrun
    exact Option.some.inj hrun
  obtain ⟨-, hholds, rounds, hrounds⟩ := htruth hres
  obtain ⟨sorted, hsorted, hholds'⟩ := hrounds rounds (Nat.le_refl _)
  exact ⟨out, hout, hres, hholds, rounds, sorted, hsorted, hholds'⟩

/-- The array of a new conjunction gets no memory for its one token, which is lost: the conjunction
holds of everything. -/
theorem not_truthKept_lostToken : ¬ ∀ (q : Query Unit) (before ts after : List (QlToken Unit))
    (val : QlToken Unit → Bool) (bNegate : Bool) (lTokensAllowed : ℤ) (memory : Memory),
    Postfix q ts → Complementary val ts →
      TruthKept q before ts after val bNegate lTokensAllowed memory := by
  intro hall
  let token : QlToken Unit := ⟨.opExpression, ["a"], .notEquals, ()⟩
  obtain ⟨out, hout, -, htruth⟩ := hall (.comparison token) [] [token] [] equalOrLess false 6
    ⟨[], [false]⟩ (.comparison rfl) (by unfold Complementary; decide)
  have hrun : (createFromTokens [token] 1 1 false (Allowance.new 6) ⟨[], [false]⟩).map (fun out =>
      (out.hres, holdsDnf equalOrLess out.m_apTerms.terms)) = some (.noError, true) := by decide
  have hsame : createFromTokens [token] 1 1 false (Allowance.new 6) ⟨[], [false]⟩ = some out := hout
  rw [hsame] at hrun
  obtain ⟨hres, hholds⟩ := Prod.mk.inj (Option.some.inj hrun)
  obtain ⟨-, hholds', -⟩ := htruth hres
  exact absurd (hholds.symm.trans hholds') (by decide)

end NtAdmin.Wmi.Dnf
