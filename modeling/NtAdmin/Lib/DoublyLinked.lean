import Mathlib.Data.List.Basic
import Mathlib.Data.List.Nodup
import Mathlib.Data.Nat.Notation

/-! Doubly linked lists with a head and a tail, by the addresses of their nodes. -/
namespace NtAdmin.Lib

/-- The links lead through the addresses `ns` forward and backward, from end to end. -/
structure DoublyLinked (next prev : ℕ → Option ℕ) (head tail : Option ℕ) (ns : List ℕ) : Prop where
  nodup : ns.Nodup
  head_eq : head = ns.head?
  tail_eq : tail = ns.getLast?
  next_eq : ∀ l a r, ns = l ++ a :: r → next a = r.head?
  prev_eq : ∀ l a r, ns = l ++ a :: r → prev a = l.getLast?

namespace DoublyLinked
variable {next prev next' prev' : ℕ → Option ℕ} {head tail head' tail' : Option ℕ} {ns : List ℕ}

theorem empty (next prev : ℕ → Option ℕ) : DoublyLinked next prev none none [] where
  nodup := List.nodup_nil
  head_eq := rfl
  tail_eq := rfl
  next_eq l a r h := by simp at h
  prev_eq l a r h := by simp at h

/-- Only the links of the nodes count. -/
theorem congr (h : DoublyLinked next prev head tail ns) (hnext : ∀ a ∈ ns, next' a = next a)
    (hprev : ∀ a ∈ ns, prev' a = prev a) : DoublyLinked next' prev' head tail ns where
  nodup := h.nodup
  head_eq := h.head_eq
  tail_eq := h.tail_eq
  next_eq l a r hns := by rw [hnext a (by simp [hns]), h.next_eq l a r hns]
  prev_eq l a r hns := by rw [hprev a (by simp [hns]), h.prev_eq l a r hns]

theorem eq_nil_of_head (h : DoublyLinked next prev none tail ns) : ns = [] := by
  have hhead := h.head_eq
  cases ns with
  | nil => rfl
  | cons a ns => simp at hhead

theorem tail_mem (h : DoublyLinked next prev head (some a) ns) : a ∈ ns :=
  List.mem_of_getLast? h.tail_eq.symm

theorem next_mem (h : DoublyLinked next prev head tail ns) {a b : ℕ} (ha : a ∈ ns)
    (hb : next a = some b) : b ∈ ns := by
  obtain ⟨l, r, hns⟩ := List.append_of_mem ha
  have hr : r.head? = some b := (h.next_eq l a r hns).symm.trans hb
  rw [hns]
  exact List.mem_append_right _ (List.mem_cons_of_mem _ (List.mem_of_mem_head? hr))

theorem prev_mem (h : DoublyLinked next prev head tail ns) {a b : ℕ} (ha : a ∈ ns)
    (hb : prev a = some b) : b ∈ ns := by
  obtain ⟨l, r, hns⟩ := List.append_of_mem ha
  have hl : l.getLast? = some b := (h.prev_eq l a r hns).symm.trans hb
  rw [hns]
  exact List.mem_append_left _ (List.mem_of_getLast? hl)

/-- A node is its predecessor's successor. -/
theorem next_prev (h : DoublyLinked next prev head tail ns) {a b : ℕ} (ha : a ∈ ns)
    (hb : prev a = some b) : next b = some a := by
  obtain ⟨l, r, hns⟩ := List.append_of_mem ha
  have hl : l.getLast? = some b := (h.prev_eq l a r hns).symm.trans hb
  obtain ⟨m, rfl⟩ := List.getLast?_eq_some_iff.1 hl
  have hb' := h.next_eq m b (a :: r) (by simp [hns])
  simpa using hb'

theorem next_ne (h : DoublyLinked next prev head tail ns) {a : ℕ} (ha : a ∈ ns) : next a ≠ some a := by
  intro hn
  obtain ⟨l, r, hns⟩ := List.append_of_mem ha
  have hr : r.head? = some a := (h.next_eq l a r hns).symm.trans hn
  have hnodup := h.nodup
  rw [hns, List.nodup_append, List.nodup_cons] at hnodup
  exact hnodup.2.1.1 (List.mem_of_mem_head? hr)

theorem prev_ne (h : DoublyLinked next prev head tail ns) {a : ℕ} (ha : a ∈ ns) : prev a ≠ some a :=
  fun hp => h.next_ne ha (h.next_prev ha hp)

/-! ### A node is linked in at the end -/

theorem split_snoc {l r : List ℕ} {a b : ℕ} (h : ns ++ [b] = l ++ a :: r) :
    (r = [] ∧ a = b ∧ l = ns) ∨ ∃ r', r = r' ++ [b] ∧ ns = l ++ a :: r' := by
  obtain rfl | ⟨r', c, rfl⟩ := List.eq_nil_or_concat r
  · obtain ⟨hl, hab⟩ := List.append_inj' h rfl
    exact Or.inl ⟨rfl, by simpa using hab.symm, hl.symm⟩
  · rw [List.concat_eq_append, ← List.cons_append, ← List.append_assoc] at h
    obtain ⟨hns, hbc⟩ := List.append_inj' h rfl
    obtain rfl : b = c := by simpa using hbc
    exact Or.inr ⟨r', by simp, hns⟩

/-- An element of a concatenation is in the first or in the second part. -/
theorem split_append {l r l₁ r₁ : List ℕ} {a : ℕ} (h : l₁ ++ a :: r₁ = l ++ r) :
    (∃ m, l = l₁ ++ a :: m ∧ r₁ = m ++ r) ∨ ∃ m, l₁ = l ++ m ∧ r = m ++ a :: r₁ := by
  obtain ⟨m, hl, hr⟩ | ⟨m, hl, hr⟩ := List.append_eq_append_iff.1 h
  · cases m with
    | nil => exact Or.inr ⟨[], by simpa using hl.symm, by simpa using hr.symm⟩
    | cons c m =>
      obtain ⟨rfl, rfl⟩ := List.cons.inj hr
      exact Or.inl ⟨m, hl, rfl⟩
  · exact Or.inr ⟨m, hl, hr⟩

theorem append_of_empty (b : ℕ) (hnext : next b = none) (hprev : prev b = none) :
    DoublyLinked next prev (some b) (some b) [b] where
  nodup := List.nodup_singleton b
  head_eq := rfl
  tail_eq := rfl
  next_eq l a r h := by
    cases l with
    | nil => simp_all
    | cons c l => simp at h
  prev_eq l a r h := by
    cases l with
    | nil => simp_all
    | cons c l => simp at h

theorem append (h : DoublyLinked next prev head (some t) ns) {b : ℕ} (hb : b ∉ ns)
    (hlast : next' t = some b) (hnext : next' b = none) (hprev : prev' b = some t)
    (hnext' : ∀ a ∈ ns, a ≠ t → next' a = next a) (hprev' : ∀ a ∈ ns, prev' a = prev a) :
    DoublyLinked next' prev' head (some b) (ns ++ [b]) := by
  obtain ⟨m, hm⟩ := List.getLast?_eq_some_iff.1 h.tail_eq.symm
  have htm : t ∉ m := by
    have hnodup := h.nodup
    rw [hm, List.nodup_append] at hnodup
    exact fun ht => hnodup.2.2 t ht t (by simp) rfl
  constructor
  · rw [List.nodup_append]
    refine ⟨h.nodup, List.nodup_singleton b, ?_⟩
    intro x hx y hy heq
    rw [List.mem_singleton] at hy
    exact hb (hy ▸ heq ▸ hx)
  · rw [h.head_eq, hm]
    cases m <;> rfl
  · simp
  · intro l a r hns
    obtain ⟨rfl, rfl, rfl⟩ | ⟨r', rfl, hns'⟩ := split_snoc hns
    · exact hnext
    · obtain ⟨rfl, rfl, rfl⟩ | ⟨r'', rfl, hm'⟩ := split_snoc (hm.symm.trans hns')
      · exact hlast
      · have hat : a ≠ t := by
          intro hat
          exact htm (hm' ▸ hat ▸ by simp)
        rw [hnext' a (by simp [hns']) hat, h.next_eq l a _ hns']
        cases r'' <;> rfl
  · intro l a r hns
    obtain ⟨rfl, rfl, rfl⟩ | ⟨r', rfl, hns'⟩ := split_snoc hns
    · rw [hprev, h.tail_eq]
    · rw [hprev' a (by simp [hns']), h.prev_eq l a _ hns']

/-! ### A node is taken out -/

theorem unlink (h : DoublyLinked next prev head tail ns) {x : ℕ} (hx : x ∈ ns)
    (hnext' : ∀ a ∈ ns, a ≠ x → next' a = if prev x = some a then next x else next a)
    (hprev' : ∀ a ∈ ns, a ≠ x → prev' a = if next x = some a then prev x else prev a)
    (hhead' : head' = if head = some x then next x else head)
    (htail' : tail' = if tail = some x then prev x else tail) :
    DoublyLinked next' prev' head' tail' (ns.erase x) := by
  obtain ⟨l, r, hns⟩ := List.append_of_mem hx
  have hnx := h.next_eq l x r hns
  have hpx := h.prev_eq l x r hns
  have hnodup := h.nodup
  rw [hns, List.nodup_append, List.nodup_cons] at hnodup
  obtain ⟨-, ⟨hxr, -⟩, hlr⟩ := hnodup
  have hxl : x ∉ l := fun hxl => hlr x hxl x (by simp) rfl
  have herase : ns.erase x = l ++ r := by
    rw [hns, List.erase_append_right _ hxl, List.erase_cons_head]
  rw [herase]
  constructor
  · rw [← herase]
    exact h.nodup.erase x
  · rw [hhead', h.head_eq, hns, hnx]
    cases l with
    | nil => simp
    | cons a l =>
      have hax : a ≠ x := fun hax => hxl (by simp [hax])
      simp [hax]
  · rw [htail', h.tail_eq, hns, hpx]
    obtain rfl | ⟨r', b, rfl⟩ := List.eq_nil_or_concat r
    · simp
    · have hbx : b ≠ x := fun hbx => hxr (by simp [hbx])
      have hlast : (l ++ x :: (r' ++ [b])).getLast? = some b :=
        List.getLast?_eq_some_iff.2 ⟨l ++ x :: r', by simp⟩
      have hlast' : (l ++ (r' ++ [b])).getLast? = some b :=
        List.getLast?_eq_some_iff.2 ⟨l ++ r', by simp⟩
      simp only [List.concat_eq_append, hlast, hlast', Option.some.injEq, hbx, if_false]
  · intro l₁ a r₁ hsplit
    obtain ⟨m, rfl, rfl⟩ | ⟨m, rfl, rfl⟩ := split_append hsplit.symm
    · -- in front of the node: its successor changes if it is the last one there
      have hax : a ≠ x := fun hax => hxl (by simp [hax])
      have ha := h.next_eq l₁ a (m ++ x :: r) (by simp [hns])
      rw [hnext' a (by simp [hns]) hax, hpx, hnx, ha]
      cases m with
      | nil => simp
      | cons c m =>
        have ham : a ∉ c :: m := by
          have hnodup := h.nodup
          rw [hns, List.append_assoc, List.nodup_append, List.cons_append, List.nodup_cons] at hnodup
          exact fun ham => hnodup.2.1.1 (List.mem_append_left _ ham)
        have hne : (l₁ ++ a :: c :: m).getLast? ≠ some a := by
          rw [List.getLast?_append_cons, List.getLast?_cons_cons]
          exact fun hlast => ham (List.mem_of_getLast? hlast)
        rw [if_neg hne]
        rfl
    · have hax : a ≠ x := fun hax => hxr (by simp [hax])
      have hne : l.getLast? ≠ some a := fun hlast =>
        hlr a (List.mem_of_getLast? hlast) a (by simp) rfl
      rw [hnext' a (by simp [hns]) hax, hpx, if_neg hne]
      exact h.next_eq (l ++ x :: m) a r₁ (by simp [hns])
  · intro l₁ a r₁ hsplit
    obtain ⟨m, rfl, rfl⟩ | ⟨m, rfl, rfl⟩ := split_append hsplit.symm
    · have hax : a ≠ x := fun hax => hxl (by simp [hax])
      have hne : r.head? ≠ some a := fun hhead =>
        hlr a (by simp) a (List.mem_cons_of_mem _ (List.mem_of_mem_head? hhead)) rfl
      rw [hprev' a (by simp [hns]) hax, hnx, if_neg hne]
      exact h.prev_eq l₁ a (m ++ x :: r) (by simp [hns])
    · -- behind the node: its predecessor changes if it is the first one there
      have hax : a ≠ x := fun hax => hxr (by simp [hax])
      have ha := h.prev_eq (l ++ x :: m) a r₁ (by simp [hns])
      rw [hprev' a (by simp [hns]) hax, hpx, hnx, ha]
      cases m with
      | nil => simp
      | cons c m =>
        have hac : c ≠ a := by
          have hnodup := h.nodup
          rw [hns, List.nodup_append, List.nodup_cons, List.cons_append, List.nodup_cons] at hnodup
          exact fun hac => hnodup.2.1.2.1 (hac ▸ by simp)
        have hne : (c :: m ++ a :: r₁).head? ≠ some a := by simpa using hac
        rw [if_neg hne, List.getLast?_append_cons, List.getLast?_cons_cons,
          List.getLast?_append_cons]

end DoublyLinked

end NtAdmin.Lib
