import Mathlib.Algebra.GroupWithZero.Nat
import Mathlib.Data.List.Nodup
import Mathlib.Data.Nat.Notation

/-! Trees whose nodes say which of their subtrees is higher. -/
namespace NtAdmin.Lib.Avl

universe v

inductive Side
  | left
  | right
  deriving DecidableEq

def Side.other : Side → Side
  | .left => .right
  | .right => .left

inductive Balance
  | equal
  | higher (s : Side)
  deriving DecidableEq

/-- `m` is the height on side `s`, and `n` that on the other. -/
def Balance.Fits (s : Side) : Balance → ℕ → ℕ → Prop
  | .equal, m, n => m = n
  | .higher s', m, n => if s' = s then m = n + 1 else n = m + 1

inductive Bst (α : Type v)
  | nil
  | node (l : Bst α) (x : α) (state : Balance) (r : Bst α)

/-- The way from a subtree to the node above it. -/
structure Frame (α : Type v) where
  side : Side
  x : α
  state : Balance
  sibling : Bst α

variable {α : Type v}

namespace Bst

/-- A node with the subtree `c` on side `s`. -/
def mk (s : Side) (c : Bst α) (x : α) (state : Balance) (o : Bst α) : Bst α :=
  match s with
  | .left => .node c x state o
  | .right => .node o x state c

def height : Bst α → ℕ
  | nil => 0
  | node l _ _ r => max l.height r.height + 1

def state : Bst α → Balance
  | nil => .equal
  | node _ _ state _ => state

/-- The heights at each node differ as its state tells. -/
def Balanced : Bst α → Prop
  | nil => True
  | node l _ state r => state.Fits .left l.height r.height ∧ l.Balanced ∧ r.Balanced

/-- The nodes from left to right. -/
def toList : Bst α → List α
  | nil => []
  | node l x _ r => l.toList ++ x :: r.toList

/-- The tree around a subtree. -/
def plug (t : Bst α) : List (Frame α) → Bst α
  | [] => t
  | f :: ctx => (mk f.side t f.x f.state f.sibling).plug ctx

end Bst

/-- The nodes left and right of a subtree. -/
def before : List (Frame α) → List α
  | [] => []
  | f :: ctx => before ctx ++
      match f.side with
      | .left => []
      | .right => f.sibling.toList ++ [f.x]

def after : List (Frame α) → List α
  | [] => []
  | f :: ctx =>
    (match f.side with
      | .left => f.x :: f.sibling.toList
      | .right => []) ++ after ctx

/-- What surrounds a subtree is balanced if its height is `h`. -/
def ContextFits : List (Frame α) → ℕ → Prop
  | [], _ => True
  | f :: ctx, h => f.state.Fits f.side h f.sibling.height ∧ f.sibling.Balanced ∧
      ContextFits ctx (max h f.sibling.height + 1)

/-- The height of the tree around a subtree of height `h`. -/
def contextHeight : List (Frame α) → ℕ → ℕ
  | [], h => h
  | f :: ctx, h => contextHeight ctx (max h f.sibling.height + 1)

/-! ### Sides -/

@[simp] theorem Side.other_other (s : Side) : s.other.other = s := by
  cases s <;> rfl

theorem Side.other_ne (s : Side) : s.other ≠ s := by
  cases s <;> exact nofun

theorem Side.eq_or_other (s s' : Side) : s' = s ∨ s' = s.other := by
  cases s <;> cases s' <;> simp [Side.other]

@[simp] theorem fits_equal (s : Side) (m n : ℕ) : Balance.equal.Fits s m n ↔ m = n := Iff.rfl

@[simp] theorem fits_higher (s : Side) (m n : ℕ) :
    (Balance.higher s).Fits s m n ↔ m = n + 1 := by
  simp [Balance.Fits]

@[simp] theorem fits_higher_other (s : Side) (m n : ℕ) :
    (Balance.higher s.other).Fits s m n ↔ n = m + 1 := by
  simp [Balance.Fits, s.other_ne]

theorem fits_other (s : Side) (state : Balance) (m n : ℕ) :
    state.Fits s.other m n ↔ state.Fits s n m := by
  cases state with
  | equal => exact eq_comm
  | higher s' =>
    rcases s.eq_or_other s' with rfl | rfl
    · rw [fits_higher]
      have h := fits_higher_other s'.other m n
      rwa [Side.other_other] at h
    · rw [fits_higher, fits_higher_other]

namespace Bst

theorem mk_other (s : Side) (c : Bst α) (x : α) (state : Balance) (o : Bst α) :
    mk s.other c x state o = mk s o x state c := by
  cases s <;> rfl

theorem exists_mk (s : Side) {t : Bst α} (h : 0 < t.height) :
    ∃ c x state o, t = mk s c x state o := by
  cases t with
  | nil => nomatch h
  | node l x state r =>
    cases s with
    | left => exact ⟨l, x, state, r, rfl⟩
    | right => exact ⟨r, x, state, l, rfl⟩

@[simp] theorem height_mk (s : Side) (c : Bst α) (x : α) (state : Balance) (o : Bst α) :
    (mk s c x state o).height = max c.height o.height + 1 := by
  cases s with
  | left => rfl
  | right => exact congrArg (· + 1) (Nat.max_comm _ _)

@[simp] theorem balanced_mk (s : Side) (c : Bst α) (x : α) (state : Balance) (o : Bst α) :
    (mk s c x state o).Balanced ↔ state.Fits s c.height o.height ∧ c.Balanced ∧ o.Balanced := by
  cases s with
  | left => rfl
  | right =>
    have hfits := fits_other .left state c.height o.height
    change _ ∧ _ ∧ _ ↔ _
    rw [← hfits]
    exact and_congr_right fun _ => and_comm

@[simp] theorem state_mk (s : Side) (c : Bst α) (x : α) (state : Balance) (o : Bst α) :
    (mk s c x state o).state = state := by
  cases s <;> rfl

theorem height_eq_zero {t : Bst α} : t.height = 0 ↔ t = nil := by
  cases t with
  | nil => exact iff_of_true rfl rfl
  | node l x state r => exact iff_of_false (Nat.succ_ne_zero _) nofun

theorem toList_mk_perm (s : Side) (c : Bst α) (x : α) (state : Balance) (o : Bst α) :
    (mk s c x state o).toList.Perm (x :: (c.toList ++ o.toList)) := by
  cases s with
  | left => exact List.perm_middle
  | right => exact List.perm_middle.trans (List.perm_append_comm.cons x)

theorem toList_rotate (s : Side) (t₁ t₂ t₃ : Bst α) (a b : α) (sa sb sa' sb' : Balance) :
    (mk s t₁ b sb' (mk s t₂ a sa' t₃)).toList = (mk s (mk s t₁ b sb t₂) a sa t₃).toList := by
  cases s <;> simp [mk, toList]

theorem toList_doubleRotate (s : Side) (t₁ t₂ t₃ t₄ : Bst α) (a b c : α)
    (sa sb sc sa' sb' sc' : Balance) :
    (mk s (mk s t₁ b sb' t₂) c sc' (mk s t₃ a sa' t₄)).toList =
      (mk s (mk s t₁ b sb (mk s t₂ c sc t₃)) a sa t₄).toList := by
  cases s <;> simp [mk, toList]

theorem toList_mk_congr (s : Side) {c c' o o' : Bst α} (x : α) (state state' : Balance)
    (hc : c'.toList = c.toList) (ho : o'.toList = o.toList) :
    (mk s c' x state' o').toList = (mk s c x state o).toList := by
  cases s <;> simp [mk, toList, hc, ho]

/-! ### Rotations -/

section rotations
variable {s : Side} {t₁ t₂ t₃ t₄ : Bst α} {a b c : α} {sc : Balance}

/-- The child that is too high leans outwards. -/
theorem balanced_rotate (hb : (mk s t₁ b (.higher s) t₂).Balanced) (h₃ : t₃.Balanced)
    (hheavy : (mk s t₁ b (.higher s) t₂).height = t₃.height + 2) :
    (mk s t₁ b .equal (mk s t₂ a .equal t₃)).Balanced ∧
      (mk s t₁ b .equal (mk s t₂ a .equal t₃)).height = t₃.height + 2 := by
  simp only [balanced_mk, fits_higher, height_mk, fits_equal] at hb hheavy ⊢
  obtain ⟨hfits, h₁, h₂⟩ := hb
  refine ⟨⟨?_, h₁, ?_, h₂, h₃⟩, ?_⟩ <;> omega

/-- The child that is too high does not lean. -/
theorem balanced_rotate_equal (hb : (mk s t₁ b .equal t₂).Balanced) (h₃ : t₃.Balanced)
    (hheavy : (mk s t₁ b .equal t₂).height = t₃.height + 2) :
    (mk s t₁ b (.higher s.other) (mk s t₂ a (.higher s) t₃)).Balanced ∧
      (mk s t₁ b (.higher s.other) (mk s t₂ a (.higher s) t₃)).height = t₃.height + 3 := by
  simp only [balanced_mk, fits_higher, fits_higher_other, height_mk, fits_equal] at hb hheavy ⊢
  obtain ⟨hfits, h₁, h₂⟩ := hb
  refine ⟨⟨?_, h₁, ?_, h₂, h₃⟩, ?_⟩ <;> omega

/-- The states of the two nodes that a double rotation puts under the third. -/
def lower (s : Side) (sc : Balance) : Balance :=
  if sc = .higher s.other then .higher s else .equal

def upper (s : Side) (sc : Balance) : Balance :=
  if sc = .higher s then .higher s.other else .equal

/-- The child that is too high leans inwards. -/
theorem balanced_doubleRotate
    (hb : (mk s t₁ b (.higher s.other) (mk s t₂ c sc t₃)).Balanced) (h₄ : t₄.Balanced)
    (hheavy : (mk s t₁ b (.higher s.other) (mk s t₂ c sc t₃)).height = t₄.height + 2) :
    (mk s (mk s t₁ b (lower s sc) t₂) c .equal (mk s t₃ a (upper s sc) t₄)).Balanced ∧
      (mk s (mk s t₁ b (lower s sc) t₂) c .equal (mk s t₃ a (upper s sc) t₄)).height =
        t₄.height + 2 := by
  have hother := s.other_ne
  simp only [balanced_mk, fits_higher_other, height_mk, fits_equal] at hb hheavy ⊢
  obtain ⟨hfits, h₁, hc, h₂, h₃⟩ := hb
  cases sc with
  | equal =>
    simp only [fits_equal] at hc
    simp only [lower, upper, reduceCtorEq, if_false, fits_equal]
    refine ⟨⟨?_, ⟨?_, h₁, h₂⟩, ?_, h₃, h₄⟩, ?_⟩ <;> omega
  | higher s' =>
    rcases s.eq_or_other s' with rfl | rfl
    · have hne : Balance.higher s' ≠ .higher s'.other := fun h => hother (Balance.higher.inj h).symm
      simp only [fits_higher] at hc
      simp only [lower, upper, if_neg hne, if_true, fits_equal, fits_higher_other]
      refine ⟨⟨?_, ⟨?_, h₁, h₂⟩, ?_, h₃, h₄⟩, ?_⟩ <;> omega
    · have hne : Balance.higher s.other ≠ .higher s := fun h => hother (Balance.higher.inj h)
      simp only [fits_higher_other] at hc
      simp only [lower, upper, if_neg hne, if_true, fits_equal, fits_higher]
      refine ⟨⟨?_, ⟨?_, h₁, h₂⟩, ?_, h₃, h₄⟩, ?_⟩ <;> omega

end rotations

/-! ### Contexts -/

theorem plug_append (t : Bst α) (ctx ctx' : List (Frame α)) :
    t.plug (ctx ++ ctx') = (t.plug ctx).plug ctx' := by
  induction ctx generalizing t with
  | nil => rfl
  | cons f ctx ih => exact ih _

theorem toList_plug (t : Bst α) (ctx : List (Frame α)) :
    (t.plug ctx).toList = before ctx ++ t.toList ++ after ctx := by
  induction ctx generalizing t with
  | nil => simp [plug, before, after]
  | cons f ctx ih =>
    unfold plug before after
    rw [ih]
    cases f.side <;> simp [mk, toList]

theorem balanced_plug (t : Bst α) (ctx : List (Frame α)) :
    (t.plug ctx).Balanced ↔ t.Balanced ∧ ContextFits ctx t.height := by
  induction ctx generalizing t with
  | nil => simp [plug, ContextFits]
  | cons f ctx ih =>
    unfold plug ContextFits
    rw [ih, balanced_mk, height_mk]
    constructor
    · rintro ⟨⟨hfits, ht, ho⟩, hctx⟩
      exact ⟨ht, hfits, ho, hctx⟩
    · rintro ⟨ht, hfits, ho, hctx⟩
      exact ⟨⟨hfits, ht, ho⟩, hctx⟩

theorem height_plug (t : Bst α) (ctx : List (Frame α)) :
    (t.plug ctx).height = contextHeight ctx t.height := by
  induction ctx generalizing t with
  | nil => rfl
  | cons f ctx ih =>
    unfold plug contextHeight
    rw [ih, height_mk]

end Bst

end NtAdmin.Lib.Avl
