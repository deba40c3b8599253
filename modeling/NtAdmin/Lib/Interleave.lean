import Mathlib.Data.List.Basic

/-! The inorder traversal of a node with several keys, in parts. -/
namespace NtAdmin.Lib

variable {α : Type}

/-- The traversals `subs` of the subtrees of a node, with its keys between them. -/
def interleave : List (List α) → List α → List α
  | [], _ => []
  | sub :: _, [] => sub
  | sub :: subs, key :: keys => sub ++ key :: interleave subs keys

/-- Subtrees with the keys behind them. -/
def leading (subs : List (List α)) (keys : List α) : List α :=
  (List.zipWith (fun sub key => sub ++ [key]) subs keys).flatten

/-- Keys with the subtrees behind them. -/
def trailing (keys : List α) (subs : List (List α)) : List α :=
  (List.zipWith List.cons keys subs).flatten

variable {subs left right : List (List α)} {sub : List α} {keys before behind : List α} {key : α}

theorem leading_cons : leading (sub :: subs) (key :: keys) = sub ++ key :: leading subs keys := by
  simp [leading]

theorem trailing_cons : trailing (key :: keys) (sub :: subs) = key :: (sub ++ trailing keys subs) := by
  simp [trailing]

theorem interleave_cons (h : subs.length = keys.length) :
    interleave (sub :: subs) keys = sub ++ trailing keys subs := by
  induction keys generalizing sub subs with
  | nil =>
    rw [List.length_eq_zero_iff.mp h]
    exact (List.append_nil sub).symm
  | cons key keys ih =>
    cases subs with
    | nil => cases h
    | cons next subs =>
      rw [interleave, ih (Nat.succ.inj h), trailing_cons]

/-- The traversal around one subtree. -/
theorem interleave_hole (hbefore : left.length = before.length)
    (hbehind : right.length = behind.length) :
    interleave (left ++ sub :: right) (before ++ behind) =
      leading left before ++ (sub ++ trailing behind right) := by
  induction before generalizing left with
  | nil =>
    rw [List.length_eq_zero_iff.mp hbefore]
    exact interleave_cons hbehind
  | cons key before ih =>
    cases left with
    | nil => cases hbefore
    | cons first left =>
      rw [List.cons_append, List.cons_append, interleave, ih (Nat.succ.inj hbefore), leading_cons,
        List.append_assoc, List.cons_append]

/-- A node that is split at a key. -/
theorem interleave_split (hbefore : left.length = before.length + 1) :
    interleave (left ++ right) (before ++ key :: behind) =
      interleave left before ++ key :: interleave right behind := by
  induction before generalizing left with
  | nil =>
    obtain ⟨sub, rfl⟩ := List.length_eq_one_iff.mp hbefore
    rfl
  | cons first before ih =>
    cases left with
    | nil => cases hbefore
    | cons sub left =>
      rw [List.cons_append, List.cons_append, interleave, interleave, ih (Nat.succ.inj hbefore),
        List.append_assoc, List.cons_append]

theorem sublist_leading (h : subs.length = keys.length) : keys.Sublist (leading subs keys) := by
  induction keys generalizing subs with
  | nil => exact List.nil_sublist _
  | cons key keys ih =>
    cases subs with
    | nil => cases h
    | cons sub subs =>
      rw [leading_cons]
      exact ((ih (Nat.succ.inj h)).cons_cons key).trans (List.sublist_append_right _ _)

theorem sublist_trailing (h : subs.length = keys.length) : keys.Sublist (trailing keys subs) := by
  induction keys generalizing subs with
  | nil => exact List.nil_sublist _
  | cons key keys ih =>
    cases subs with
    | nil => cases h
    | cons sub subs =>
      rw [trailing_cons]
      exact ((ih (Nat.succ.inj h)).trans (List.sublist_append_right _ _)).cons_cons key

theorem sublist_interleave (h : subs.length = keys.length + 1) :
    keys.Sublist (interleave subs keys) := by
  cases subs with
  | nil => cases h
  | cons sub subs =>
    rw [interleave_cons (Nat.succ.inj h)]
    exact (sublist_trailing (Nat.succ.inj h)).trans (List.sublist_append_right _ _)

/-- A leaf has its keys only. -/
theorem interleave_empty (hempty : ∀ sub ∈ subs, sub = []) (h : subs.length = keys.length + 1) :
    interleave subs keys = keys := by
  induction keys generalizing subs with
  | nil =>
    obtain ⟨sub, rfl⟩ := List.length_eq_one_iff.mp h
    exact hempty sub List.mem_cons_self
  | cons key keys ih =>
    cases subs with
    | nil => cases h
    | cons sub subs =>
      rw [interleave, ih (fun sub hsub => hempty sub (List.mem_cons_of_mem _ hsub))
        (Nat.succ.inj h), hempty sub List.mem_cons_self, List.nil_append]

end NtAdmin.Lib
