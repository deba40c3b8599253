import Mathlib.Data.List.Perm.Basic
import Mathlib.Data.List.Sort
import Mathlib.Tactic.SplitIfs

/-! A sort that exchanges neighbours and steps back after every exchange. -/
namespace NtAdmin.Lib

/-- A comparison that orders elements up to ties. -/
structure Exceeds (α : Type) where
  gt : α → α → Bool
  asymm : ∀ a b, gt a b = true → gt b a = false
  trans : ∀ a b c, gt a b = false → gt b c = false → gt a c = false

variable {α β : Type} (o : Exceeds α)

/-- The pairs that are out of order. -/
def inversions : List α → ℕ
  | [] => 0
  | a :: l => l.countP (o.gt a) + inversions l

theorem inversions_append_lt {l m m' : List α} (hperm : m.Perm m')
    (hlt : inversions o m < inversions o m') :
    inversions o (l ++ m) < inversions o (l ++ m') := by
  induction l with
  | nil => exact hlt
  | cons a l ih =>
    have hcount := (hperm.append_left l).countP_eq (o.gt a)
    rw [List.cons_append, List.cons_append, inversions, inversions, hcount]
    exact Nat.add_lt_add_left ih _

/-- An exchange of two neighbours that are out of order. -/
theorem inversions_exchange {a b : α} (front rest : List α) (h : o.gt a b = true) :
    inversions o (front ++ b :: a :: rest) < inversions o (front ++ a :: b :: rest) := by
  have hba := o.asymm a b h
  refine inversions_append_lt o (List.Perm.swap a b rest) ?_
  simp only [inversions, List.countP_cons, h, hba, if_true, Bool.false_eq_true, if_false]
  omega

/-- The loop stands at the first element of the second list; those in front of it are reversed. -/
def exchangeSort (front rest : List α) : List α :=
  match rest with
  | [] => front.reverse
  | [a] => front.reverse ++ [a]
  | a :: b :: rest =>
    if o.gt a b then
      match front with
      | [] => exchangeSort [b] (a :: rest)
      | f :: front => exchangeSort front (f :: b :: a :: rest)
    else exchangeSort (a :: front) (b :: rest)
termination_by 2 * inversions o (front.reverse ++ rest) + rest.length
decreasing_by
  · rename_i h
    have hlt := inversions_exchange o [] rest h
    simp only [List.reverse_cons, List.reverse_nil, List.nil_append, List.singleton_append,
      List.length_cons] at hlt ⊢
    omega
  · rename_i h
    have hlt := inversions_exchange o (f :: front).reverse rest h
    simp only [List.reverse_cons, List.append_assoc, List.singleton_append, List.length_cons]
      at hlt ⊢
    omega
  · simp only [List.reverse_cons, List.append_assoc, List.singleton_append, List.length_cons]
    omega

theorem exchangeSort_perm (front rest : List α) :
    (exchangeSort o front rest).Perm (front.reverse ++ rest) := by
  induction front, rest using exchangeSort.induct o with
  | case1 front =>
    rw [exchangeSort.eq_1, List.append_nil]
  | case2 front a =>
    rw [exchangeSort]
  | case3 a b rest h ih =>
    rw [exchangeSort, if_pos h]
    exact ih.trans (List.Perm.swap a b rest)
  | case4 a b rest h f front ih =>
    rw [exchangeSort, if_pos h]
    refine ih.trans ?_
    rw [List.reverse_cons, List.append_assoc]
    exact ((List.Perm.swap a b rest).cons f).append_left _
  | case5 front a b rest h ih =>
    rw [exchangeSort.eq_def]
    dsimp only
    rw [if_neg h]
    refine ih.trans ?_
    rw [List.reverse_cons, List.append_assoc]
    exact List.Perm.refl _

/-- `o.gt` is false from every element to each later one. -/
def Ascending (l : List α) : Prop :=
  l.Pairwise fun a b => o.gt a b = false

/-- What stands in front of the loop's place, and the element at it, ascend. -/
theorem exchangeSort_ascending (front rest : List α)
    (hfront : Ascending o (front.reverse ++ rest.take 1)) :
    Ascending o (exchangeSort o front rest) := by
  induction front, rest using exchangeSort.induct o with
  | case1 front =>
    rw [exchangeSort.eq_1]
    rwa [List.take_nil, List.append_nil] at hfront
  | case2 front a =>
    rw [exchangeSort]
    exact hfront
  | case3 a b rest h ih =>
    rw [exchangeSort, if_pos h]
    have hba := o.asymm a b h
    apply ih
    simp [Ascending, hba]
  | case4 a b rest h f front ih =>
    rw [exchangeSort, if_pos h]
    apply ih
    have hshort : Ascending o (front.reverse ++ [f]) := by
      rw [List.reverse_cons] at hfront
      exact (List.pairwise_append.1 hfront).1
    exact hshort
  | case5 front a b rest h ih =>
    rw [exchangeSort.eq_def]
    dsimp only
    rw [if_neg h]
    apply ih
    have hab : o.gt a b = false := Bool.eq_false_iff.2 h
    rw [List.reverse_cons]
    refine List.pairwise_append.2 ⟨hfront, List.pairwise_singleton _ _, ?_⟩
    intro c hc d hd
    have hd : d = b := List.mem_singleton.1 hd
    subst hd
    rcases List.mem_append.1 hc with hc | hc
    · have hca := (List.pairwise_append.1 hfront).2.2 c hc a (List.mem_singleton_self a)
      exact o.trans c a d hca hab
    · rwa [List.mem_singleton.1 hc]

end NtAdmin.Lib
