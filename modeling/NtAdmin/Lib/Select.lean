import Mathlib.Data.List.Induction
import Mathlib.Order.Defs.LinearOrder
import Mathlib.Order.Lattice

/-! The first of the best elements of a list. -/
namespace NtAdmin.Lib
variable {α κ : Type} [LinearOrder κ]

/-- The better of `a` and the best element so far, which is the earlier of the two. -/
def better (p : α → Bool) (key : α → κ) (best : Option α) (a : α) : Option α :=
  if p a then
    match best with
    | none => some a
    | some b => if key a < key b then some a else some b
  else best

/-- A loop that keeps the best element it has seen. -/
def firstBest (p : α → Bool) (key : α → κ) (l : List α) : Option α :=
  l.foldl (better p key) none

/-- `a` is the first of the best elements of `l` that satisfy `p`. -/
def IsFirstBest (p : α → Bool) (key : α → κ) (l : List α) (a : α) : Prop :=
  p a ∧ ∃ before after, l = before ++ a :: after ∧ (∀ b ∈ before, p b → key a < key b) ∧
    ∀ b ∈ after, p b → key a ≤ key b

/-- What a selection of an element of `l` has to be. -/
def IsSelection (p : α → Bool) (key : α → κ) (l : List α) : Option α → Prop
  | none => ∀ b ∈ l, p b = false
  | some a => IsFirstBest p key l a

variable {p : α → Bool} {key : α → κ} {l : List α}

theorem isSelection_append {best : Option α} (h : IsSelection p key l best) (a : α) :
    IsSelection p key (l ++ [a]) (better p key best a) := by
  unfold better
  by_cases ha : p a
  · rw [if_pos ha]
    cases best with
    | none =>
      refine ⟨ha, l, [], rfl, ?_, ?_⟩
      · intro b hb hp
        rw [h b hb] at hp
        contradiction
      · simp
    | some b =>
      obtain ⟨hb, before, after, rfl, hbefore, hafter⟩ := h
      dsimp only
      by_cases hlt : key a < key b
      · rw [if_pos hlt]
        refine ⟨ha, before ++ b :: after, [], rfl, ?_, by simp⟩
        intro c hc hp
        have hle : key b ≤ key c := by
          rcases List.mem_append.mp hc with hc | hc
          · exact le_of_lt (hbefore c hc hp)
          · rcases List.mem_cons.mp hc with rfl | hc
            · exact le_refl _
            · exact hafter c hc hp
        exact lt_of_lt_of_le hlt hle
      · rw [if_neg hlt]
        refine ⟨hb, before, after ++ [a], by simp, hbefore, ?_⟩
        intro c hc hp
        rcases List.mem_append.mp hc with hc | hc
        · exact hafter c hc hp
        · rw [List.mem_singleton.mp hc]
          exact not_lt.mp hlt
  · rw [if_neg ha]
    have hfalse : p a = false := by simpa using ha
    cases best with
    | none =>
      intro b hb
      rcases List.mem_append.mp hb with hb | hb
      · exact h b hb
      · rw [List.mem_singleton.mp hb]
        exact hfalse
    | some b =>
      obtain ⟨hb, before, after, rfl, hbefore, hafter⟩ := h
      refine ⟨hb, before, after ++ [a], by simp, hbefore, ?_⟩
      intro c hc hp
      rcases List.mem_append.mp hc with hc | hc
      · exact hafter c hc hp
      · rw [List.mem_singleton.mp hc, hfalse] at hp
        contradiction

/-- The loop finds the first of the best elements. -/
theorem isSelection_firstBest (p : α → Bool) (key : α → κ) (l : List α) :
    IsSelection p key l (firstBest p key l) := by
  induction l using List.reverseRecOn with
  | nil => simp [firstBest, IsSelection]
  | append_singleton l a ih =>
    unfold firstBest
    rw [List.foldl_append]
    exact isSelection_append ih a

/-- Only the elements of the list matter. -/
theorem IsSelection.congr {p' : α → Bool} {key' : α → κ} {best : Option α}
    (h : IsSelection p key l best) (hp : ∀ a ∈ l, p' a = p a) (hk : ∀ a ∈ l, key' a = key a) :
    IsSelection p' key' l best := by
  cases best with
  | none =>
    intro b hb
    rw [hp b hb]
    exact h b hb
  | some a =>
    obtain ⟨ha, before, after, rfl, hbefore, hafter⟩ := h
    have hmem : a ∈ before ++ a :: after := by simp
    refine ⟨by rw [hp a hmem]; exact ha, before, after, rfl, ?_, ?_⟩
    · intro b hb hpb
      have hb' : b ∈ before ++ a :: after := List.mem_append_left _ hb
      rw [hk a hmem, hk b hb']
      exact hbefore b hb (by rwa [hp b hb'] at hpb)
    · intro b hb hpb
      have hb' : b ∈ before ++ a :: after := List.mem_append_right _ (List.mem_cons_of_mem _ hb)
      rw [hk a hmem, hk b hb']
      exact hafter b hb (by rwa [hp b hb'] at hpb)

end NtAdmin.Lib
