import Mathlib.Order.Basic
import Mathlib.Data.List.Basic
import Mathlib.Order.Lattice

/-! Lists in strictly ascending order of a rank: the position of a rank, and insertion there. -/
namespace NtAdmin.SortedSearch

variable {ε κ : Type*} [LinearOrder κ] (rank : ε → κ)

def Ascending (l : List ε) : Prop := l.Pairwise fun e e' => rank e < rank e'

/-- The number of elements before a rank. -/
def position (k : κ) : List ε → ℕ
  | [] => 0
  | e :: l => if rank e < k then position k l + 1 else 0

variable {rank} {l : List ε} {k : κ}

/-- No element behind a larger one has the rank. -/
theorem find?_eq_none_of_lt {e : ε} (h : Ascending rank (e :: l)) (hk : k < rank e) :
    ((e :: l).find? fun e => rank e = k) = none := by
  rw [List.find?_eq_none]
  intro e' he'
  rw [Ascending, List.pairwise_cons] at h
  obtain rfl | he' := List.mem_cons.1 he'
  · simpa using hk.ne'
  · simpa using (hk.trans (h.1 e' he')).ne'

/-- An element is found by its rank. -/
theorem find?_rank_eq (h : Ascending rank l) {e : ε} (he : e ∈ l) :
    (l.find? fun e' => rank e' = rank e) = some e := by
  induction l with
  | nil => nomatch he
  | cons e' l ih =>
    rw [Ascending, List.pairwise_cons] at h
    obtain rfl | he := List.mem_cons.1 he
    · exact List.find?_cons_of_pos (by simp)
    · rw [List.find?_cons_of_neg (by simpa using (h.1 e he).ne)]
      exact ih h.2 he

theorem mem_insert {e x : ε} (i : ℕ) : e ∈ l.take i ++ x :: l.drop i ↔ e = x ∨ e ∈ l := by
  have hl : e ∈ l ↔ e ∈ l.take i ∨ e ∈ l.drop i := by
    rw [← List.mem_append, List.take_append_drop]
  rw [List.mem_append, List.mem_cons, hl]
  exact or_left_comm

/-- A new rank is inserted at its position. -/
theorem ascending_insert {x : ε} (h : Ascending rank l) (hnew : ∀ e ∈ l, rank e ≠ rank x) :
    Ascending rank
      (l.take (position rank (rank x) l) ++ x :: l.drop (position rank (rank x) l)) := by
  induction l with
  | nil => exact List.pairwise_singleton _ x
  | cons e l ih =>
    have he := hnew e List.mem_cons_self
    rw [Ascending, List.pairwise_cons] at h
    rw [position]
    split_ifs with hlt
    · rw [List.take_succ_cons, List.drop_succ_cons, List.cons_append, Ascending,
        List.pairwise_cons]
      constructor
      · intro e' he'
        obtain rfl | he' := (mem_insert _).1 he'
        · exact hlt
        · exact h.1 e' he'
      · exact ih h.2 fun e' he' => hnew e' (List.mem_cons_of_mem e he')
    · have hgt : rank x < rank e := lt_of_le_of_ne (not_lt.1 hlt) he.symm
      rw [List.take_zero, List.drop_zero, List.nil_append, Ascending, List.pairwise_cons]
      constructor
      · intro e' he'
        obtain rfl | he' := List.mem_cons.1 he'
        · exact hgt
        · exact hgt.trans (h.1 e' he')
      · exact List.pairwise_cons.2 h

/-- A map that keeps ranks keeps the order. -/
theorem Ascending.map {g : ε → ε} (h : Ascending rank l) (hg : ∀ e, rank (g e) = rank e) :
    Ascending rank (l.map g) := by
  rw [Ascending, List.pairwise_map]
  exact h.imp fun hlt => by rwa [hg, hg]

/-- The element at the position of a rank is the one of that rank. -/
theorem modify_position (f : ε → ε) (h : Ascending rank l) (hmem : ∃ e ∈ l, rank e = k) :
    l.modify (position rank k l) f = l.map fun e => if rank e = k then f e else e := by
  induction l with
  | nil =>
    obtain ⟨e, he, -⟩ := hmem
    nomatch he
  | cons e l ih =>
    rw [Ascending, List.pairwise_cons] at h
    obtain ⟨e', he', rfl⟩ := hmem
    rw [position, List.map_cons]
    split_ifs with hlt hsame hsame
    · exact absurd hsame hlt.ne
    · have htail : e' ∈ l := by
        obtain rfl | htail := List.mem_cons.1 he'
        · exact absurd rfl hsame
        · exact htail
      rw [List.modify_succ_cons, ih h.2 ⟨e', htail, rfl⟩]
    · rw [List.modify_zero_cons]
      congr 1
      refine (List.map_id l).symm.trans (List.map_congr_left fun e'' he'' => ?_)
      rw [if_neg (hsame ▸ (h.1 e'' he'').ne')]
      rfl
    · obtain rfl | htail := List.mem_cons.1 he'
      · exact absurd rfl hsame
      · exact absurd (h.1 e' htail) hlt

end NtAdmin.SortedSearch
