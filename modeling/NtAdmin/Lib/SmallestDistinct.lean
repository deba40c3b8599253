import Mathlib.Data.Finset.Card
import Mathlib.Data.List.Sort

/-! An ascending list of the smallest elements of a set, as elements are added to the set. -/
namespace NtAdmin.Lib

variable {α : Type} [LinearOrder α] {N : ℕ} {S : Finset α} {T T' A B : List α} {t : α}

/-- `T` lists the `N` smallest elements of `S`, or all of them. -/
structure KeepsSmallest (N : ℕ) (S : Finset α) (T : List α) : Prop where
  ascending : T.Pairwise (· < ·)
  length_le : T.length ≤ N
  subset : ∀ x ∈ T, x ∈ S
  rest : ∀ x ∈ S, x ∉ T → T.length = N ∧ ∀ y ∈ T, y < x

namespace KeepsSmallest

theorem nil (N : ℕ) : KeepsSmallest N (∅ : Finset α) [] :=
  { ascending := List.Pairwise.nil
    length_le := Nat.zero_le N
    subset := fun _ hx => absurd hx List.not_mem_nil
    rest := fun _ hx => absurd hx (Finset.notMem_empty _) }

/-- An element is listed if fewer than `N` others are below it. -/
theorem mem_iff (h : KeepsSmallest N S T) (x : α) :
    x ∈ T ↔ x ∈ S ∧ (S.filter (· < x)).card < N := by
  have hnodup : T.Nodup := h.ascending.imp fun hlt => hlt.ne
  have hcard : T.toFinset.card = T.length := List.toFinset_card_of_nodup hnodup
  constructor
  · intro hx
    have hbelow : S.filter (· < x) ⊆ T.toFinset.erase x := by
      intro y hy
      obtain ⟨hyS, hyx⟩ := Finset.mem_filter.mp hy
      rw [Finset.mem_erase, List.mem_toFinset]
      refine ⟨hyx.ne, ?_⟩
      by_contra hyT
      exact lt_asymm hyx ((h.rest y hyS hyT).2 x hx)
    have hle := Finset.card_le_card hbelow
    rw [Finset.card_erase_of_mem (List.mem_toFinset.mpr hx), hcard] at hle
    have hpos := List.length_pos_of_mem hx
    have hlen := h.length_le
    exact ⟨h.subset x hx, by omega⟩
  · rintro ⟨hxS, hlt⟩
    by_contra hxT
    obtain ⟨hlen, habove⟩ := h.rest x hxS hxT
    have hbelow : T.toFinset ⊆ S.filter (· < x) := by
      intro y hy
      rw [List.mem_toFinset] at hy
      exact Finset.mem_filter.mpr ⟨h.subset y hy, habove y hy⟩
    have hle := Finset.card_le_card hbelow
    omega

/-- So there is only one such list. -/
theorem unique (h : KeepsSmallest N S T) (h' : KeepsSmallest N S T') : T = T' :=
  h.ascending.eq_of_mem_iff h'.ascending fun x => by rw [h.mem_iff, h'.mem_iff]

/-- What would come into the list is new. -/
theorem not_mem (h : KeepsSmallest N S T) (ht : t ∉ T)
    (hin : T.length < N ∨ ∃ y ∈ T, t < y) : t ∉ S := by
  intro htS
  obtain ⟨hlen, habove⟩ := h.rest t htS ht
  rcases hin with hlt | ⟨y, hy, hty⟩
  · omega
  · exact lt_asymm hty (habove y hy)

theorem insert_of_mem (h : KeepsSmallest N S T) (ht : t ∈ T) :
    KeepsSmallest N (insert t S) T := by
  rwa [Finset.insert_eq_of_mem (h.subset t ht)]

/-- The list is full, and the element is above it. -/
theorem insert_of_above (h : KeepsSmallest N S T) (ht : ∀ x ∈ T, x < t) (hlen : N ≤ T.length) :
    KeepsSmallest N (insert t S) T :=
  { ascending := h.ascending
    length_le := h.length_le
    subset := fun x hx => Finset.mem_insert_of_mem (h.subset x hx)
    rest := fun x hx hxT => by
      rcases Finset.mem_insert.mp hx with rfl | hxS
      · exact ⟨le_antisymm h.length_le hlen, ht⟩
      · exact h.rest x hxS hxT }

section place
variable (h : KeepsSmallest N S (B ++ A)) (hB : ∀ x ∈ B, x < t) (hA : ∀ x ∈ A, t < x)
include h hB hA

/-- The element comes to its place before some of the elements behind it. -/
theorem ascending_place {A' : List α} (hsub : A'.Sublist A) : (B ++ t :: A').Pairwise (· < ·) := by
  obtain ⟨hBB, hAA, hBA⟩ := List.pairwise_append.mp h.ascending
  rw [List.pairwise_append, List.pairwise_cons]
  refine ⟨hBB, ⟨fun x hx => hA x (hsub.subset hx), hAA.sublist hsub⟩, fun x hx y hy => ?_⟩
  rcases List.mem_cons.mp hy with rfl | hy
  · exact hB x hx
  · exact hBA x hx y (hsub.subset hy)

theorem insert_of_room (hlen : (B ++ A).length < N) : KeepsSmallest N (insert t S) (B ++ t :: A) :=
  { ascending := ascending_place h hB hA (List.Sublist.refl A)
    length_le := by
      rw [List.length_append] at hlen ⊢
      rw [List.length_cons]
      omega
    subset := fun x hx => by
      rw [Finset.mem_insert]
      rcases List.mem_append.mp hx with hxB | hxA
      · exact Or.inr (h.subset x (List.mem_append_left A hxB))
      · rcases List.mem_cons.mp hxA with rfl | hxA
        · exact Or.inl rfl
        · exact Or.inr (h.subset x (List.mem_append_right B hxA))
    rest := fun x hx hxT => by
      have hne : x ≠ t := fun heq => hxT (by simp [heq])
      have hxS := Finset.mem_of_mem_insert_of_ne hx hne
      have hnot : x ∉ B ++ A := fun hin => hxT (by
        rcases List.mem_append.mp hin with hxB | hxA
        · exact List.mem_append_left _ hxB
        · exact List.mem_append_right _ (List.mem_cons_of_mem t hxA))
      have hfull := (h.rest x hxS hnot).1
      omega }

/-- The list is full, and its last element goes. -/
theorem insert_of_full (hne : A ≠ []) (hlen : N ≤ (B ++ A).length) :
    KeepsSmallest N (insert t S) (B ++ t :: A.dropLast) := by
  have hsub := List.dropLast_sublist A
  have hfull : (B ++ A).length = N := le_antisymm h.length_le hlen
  have hlength : (B ++ t :: A.dropLast).length = N := by
    have hpos := List.length_pos_of_ne_nil hne
    rw [List.length_append] at hfull
    rw [List.length_append, List.length_cons, List.length_dropLast]
    omega
  obtain ⟨-, hAA, hBA⟩ := List.pairwise_append.mp h.ascending
  constructor
  · exact ascending_place h hB hA hsub
  · exact hlength.le
  · intro x hx
    rw [Finset.mem_insert]
    rcases List.mem_append.mp hx with hxB | hxA
    · exact Or.inr (h.subset x (List.mem_append_left A hxB))
    · rcases List.mem_cons.mp hxA with rfl | hxA
      · exact Or.inl rfl
      · exact Or.inr (h.subset x (List.mem_append_right B (hsub.subset hxA)))
  · intro x hx hxT
    refine ⟨hlength, ?_⟩
    have hnet : x ≠ t := fun heq => hxT (by simp [heq])
    have hxS := Finset.mem_of_mem_insert_of_ne hx hnet
    -- either the last element, or one that was not listed before
    have habove : ∀ y ∈ B ++ A.dropLast, y < x := by
      intro y hy
      by_cases hxold : x ∈ B ++ A
      · have hlast : x = A.getLast hne := by
          rcases List.mem_append.mp hxold with hxB | hxA
          · exact absurd (List.mem_append_left _ hxB) hxT
          · rw [← List.dropLast_append_getLast hne] at hxA
            rcases List.mem_append.mp hxA with hxD | hxL
            · exact absurd (List.mem_append_right B (List.mem_cons_of_mem t hxD)) hxT
            · exact List.mem_singleton.mp hxL
        rw [hlast]
        rcases List.mem_append.mp hy with hyB | hyA
        · exact hBA y hyB _ (List.getLast_mem hne)
        · rw [← List.dropLast_append_getLast hne, List.pairwise_append] at hAA
          exact hAA.2.2 y hyA _ (List.mem_singleton_self _)
      · refine (h.rest x hxS hxold).2 y ?_
        rcases List.mem_append.mp hy with hyB | hyA
        · exact List.mem_append_left A hyB
        · exact List.mem_append_right B (hsub.subset hyA)
    have htx : t < x := by
      by_cases hxold : x ∈ B ++ A
      · rcases List.mem_append.mp hxold with hxB | hxA
        · exact absurd (List.mem_append_left _ hxB) hxT
        · exact hA x hxA
      · have hlast := List.getLast_mem hne
        exact (hA _ hlast).trans ((h.rest x hxS hxold).2 _ (List.mem_append_right B hlast))
    intro y hy
    rcases List.mem_append.mp hy with hyB | hyA
    · exact habove y (List.mem_append_left _ hyB)
    · rcases List.mem_cons.mp hyA with rfl | hyA
      · exact htx
      · exact habove y (List.mem_append_right B hyA)

end place

end KeepsSmallest

end NtAdmin.Lib
