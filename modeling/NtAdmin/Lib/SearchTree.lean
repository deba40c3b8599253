import Mathlib.Data.List.Pairwise
import Mathlib.Order.Compare
import Mathlib.Order.Defs.LinearOrder
import Mathlib.Order.Lattice

/-! Search trees that are not rebalanced. The comparison that guides insertion and deletion need not
be an order; it is enough that it is one on what is in the tree. -/
namespace NtAdmin.Lib

universe u

inductive SearchTree (α : Type u)
  | leaf
  | node (left : SearchTree α) (x : α) (right : SearchTree α)
  deriving DecidableEq

namespace SearchTree
variable {α : Type u} (cmp : α → α → Ordering)

def toList : SearchTree α → List α
  | leaf => []
  | node left x right => left.toList ++ x :: right.toList

/-- The new node, unless there is one that compares as equal. -/
def insert (x : α) : SearchTree α → Option (SearchTree α)
  | leaf => some (node leaf x leaf)
  | node left y right =>
    match cmp x y with
    | .eq => none
    | .lt => (left.insert x).map fun left => node left y right
    | .gt => (right.insert x).map fun right => node left y right

/-- The least node of `node left x right`, and the tree without it. -/
def takeLeast : SearchTree α → α → SearchTree α → α × SearchTree α
  | leaf, x, right => (x, right)
  | node left y middle, x, right =>
    ((takeLeast left y middle).1, node (takeLeast left y middle).2 x right)

/-- What takes the place of a deleted node: its only subtree, or its successor. -/
def join : SearchTree α → SearchTree α → SearchTree α
  | leaf, right => right
  | left, leaf => left
  | left, node middle x right =>
    node left (takeLeast middle x right).1 (takeLeast middle x right).2

/-- Delete the node that compares as equal. -/
def erase (x : α) : SearchTree α → Option (SearchTree α)
  | leaf => none
  | node left y right =>
    match cmp x y with
    | .eq => some (join left right)
    | .lt => (left.erase x).map fun left => node left y right
    | .gt => (right.erase x).map fun right => node left y right

theorem toList_takeLeast (left : SearchTree α) (x : α) (right : SearchTree α) :
    (takeLeast left x right).1 :: (takeLeast left x right).2.toList =
      (node left x right).toList := by
  induction left generalizing x right with
  | leaf => rfl
  | node left y middle ihleft ihmiddle =>
    have hleast := ihleft y middle
    rw [takeLeast, toList, ← List.cons_append, hleast, toList, toList, toList]

theorem toList_join (left right : SearchTree α) :
    (join left right).toList = left.toList ++ right.toList := by
  cases left with
  | leaf => rfl
  | node left y middle =>
    cases right with
    | leaf => simp only [join, toList, List.append_nil]
    | node left' x right =>
      have hjoin : join (node left y middle) (node left' x right) =
          node (node left y middle) (takeLeast left' x right).1 (takeLeast left' x right).2 := rfl
      rw [hjoin, toList, toList_takeLeast]

variable {cmp}

/-- Deleting takes one element out, and leaves the others in their order. -/
theorem toList_erase {x : α} {t t' : SearchTree α} (h : t.erase cmp x = some t') :
    ∃ u y v, t.toList = u ++ y :: v ∧ t'.toList = u ++ v ∧ cmp x y = .eq := by
  induction t generalizing t' with
  | leaf => simp [erase] at h
  | node left z right ihleft ihright =>
    rw [erase] at h
    split at h
    · next heq =>
      rw [← Option.some.inj h]
      exact ⟨left.toList, z, right.toList, rfl, toList_join left right, heq⟩
    · obtain ⟨left', hleft, ht'⟩ := Option.map_eq_some_iff.mp h
      obtain ⟨u, y, v, hu, hv, heq⟩ := ihleft hleft
      refine ⟨u, y, v ++ z :: right.toList, ?_, ?_, heq⟩
      · rw [toList, hu, List.append_assoc, List.cons_append]
      · rw [← ht', toList, hv, List.append_assoc]
    · obtain ⟨right', hright, ht'⟩ := Option.map_eq_some_iff.mp h
      obtain ⟨u, y, v, hu, hv, heq⟩ := ihright hright
      refine ⟨left.toList ++ z :: u, y, v, ?_, ?_, heq⟩
      · rw [toList, hu, List.append_assoc, List.cons_append]
      · rw [← ht', toList, hv, List.append_assoc, List.cons_append]

/-- Inserting puts the new element somewhere among the others. -/
theorem perm_insert {x : α} {t t' : SearchTree α} (h : t.insert cmp x = some t') :
    t'.toList.Perm (x :: t.toList) := by
  induction t generalizing t' with
  | leaf =>
    rw [← Option.some.inj h]
    exact List.Perm.refl _
  | node left z right ihleft ihright =>
    rw [insert] at h
    split at h
    · cases h
    · obtain ⟨left', hleft, ht'⟩ := Option.map_eq_some_iff.mp h
      rw [← ht']
      exact (ihleft hleft).append_right (z :: right.toList)
    · obtain ⟨right', hright, ht'⟩ := Option.map_eq_some_iff.mp h
      rw [← ht', toList, toList]
      have hright' := ((ihright hright).cons z).trans (List.Perm.swap x z right.toList)
      exact (hright'.append_left left.toList).trans List.perm_middle

/-- Deleting, whether it succeeds or not, leaves the others in their order. -/
theorem sublist_erase (x : α) (t : SearchTree α) :
    ((t.erase cmp x).getD t).toList.Sublist t.toList := by
  cases herase : t.erase cmp x with
  | none => exact List.Sublist.refl _
  | some t' =>
    obtain ⟨u, y, v, hu, hv, -⟩ := toList_erase herase
    rw [Option.getD_some, hu, hv]
    exact List.Sublist.append_left (List.sublist_cons_self y v) u

section Ordered
variable {β : Type u} [LinearOrder β] {rank : α → β} {x : α}

/-- Inserting puts the new element between those of a lower and those of a higher rank. -/
theorem toList_insert {t t' : SearchTree α} (h : t.insert cmp x = some t')
    (hcmp : ∀ y ∈ t.toList, cmp x y = compare (rank x) (rank y))
    (hsorted : t.toList.Pairwise fun y z => rank y < rank z) :
    ∃ u v, t.toList = u ++ v ∧ t'.toList = u ++ x :: v ∧
      (∀ y ∈ u, rank y < rank x) ∧ ∀ y ∈ v, rank x < rank y := by
  induction t generalizing t' with
  | leaf =>
    rw [← Option.some.inj h]
    exact ⟨[], [], rfl, rfl, by simp, by simp⟩
  | node left z right ihleft ihright =>
    rw [toList, List.pairwise_append, List.pairwise_cons] at hsorted
    obtain ⟨hl, ⟨hz, hr⟩, hlr⟩ := hsorted
    have hcz := hcmp z (by simp [toList])
    rw [insert, hcz] at h
    split at h
    · cases h
    · next hlt =>
      have hxz : rank x < rank z := compare_lt_iff_lt.mp hlt
      obtain ⟨left', hleft, ht'⟩ := Option.map_eq_some_iff.mp h
      obtain ⟨u, v, hu, hv, hbelow, habove⟩ := ihleft hleft
        (fun y hy => hcmp y (by simp [toList, hy])) hl
      refine ⟨u, v ++ z :: right.toList, ?_, ?_, hbelow, fun y hy => ?_⟩
      · rw [toList, hu, List.append_assoc]
      · rw [← ht', toList, hv, List.append_assoc, List.cons_append]
      · simp only [List.mem_append, List.mem_cons] at hy
        rcases hy with hy | rfl | hy
        · exact habove y hy
        · exact hxz
        · exact lt_trans hxz (hz y hy)
    · next hgt =>
      have hzx : rank z < rank x := compare_gt_iff_gt.mp hgt
      obtain ⟨right', hright, ht'⟩ := Option.map_eq_some_iff.mp h
      obtain ⟨u, v, hu, hv, hbelow, habove⟩ := ihright hright
        (fun y hy => hcmp y (by simp [toList, hy])) hr
      refine ⟨left.toList ++ z :: u, v, ?_, ?_, fun y hy => ?_, habove⟩
      · rw [toList, hu, List.append_assoc, List.cons_append]
      · rw [← ht', toList, hv, List.append_assoc, List.cons_append]
      · simp only [List.mem_append, List.mem_cons] at hy
        rcases hy with hy | rfl | hy
        · exact lt_trans (hlr y hy z List.mem_cons_self) hzx
        · exact hzx
        · exact hbelow y hy

/-- An element of the tree is found when it is to be deleted. -/
theorem erase_isSome {t : SearchTree α} (hx : x ∈ t.toList)
    (hcmp : ∀ y ∈ t.toList, cmp x y = compare (rank x) (rank y))
    (hsorted : t.toList.Pairwise fun y z => rank y < rank z) : ∃ t', t.erase cmp x = some t' := by
  induction t with
  | leaf => simp [toList] at hx
  | node left z right ihleft ihright =>
    rw [toList, List.pairwise_append, List.pairwise_cons] at hsorted
    obtain ⟨hl, ⟨hz, hr⟩, hlr⟩ := hsorted
    rw [toList, List.mem_append, List.mem_cons] at hx
    rw [erase, hcmp z (by simp [toList])]
    rcases hx with hx | rfl | hx
    · obtain ⟨left', hleft⟩ := ihleft hx (fun y hy => hcmp y (by simp [toList, hy])) hl
      rw [compare_lt_iff_lt.mpr (hlr x hx z List.mem_cons_self), hleft]
      exact ⟨_, rfl⟩
    · rw [compare_eq_iff_eq.mpr rfl]
      exact ⟨_, rfl⟩
    · obtain ⟨right', hright⟩ := ihright hx (fun y hy => hcmp y (by simp [toList, hy])) hr
      rw [compare_gt_iff_gt.mpr (hz x hx), hright]
      exact ⟨_, rfl⟩

end Ordered

end SearchTree

end NtAdmin.Lib
