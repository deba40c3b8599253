import Mathlib.Data.List.Basic

/-! Growable arrays with a capacity, as `std::vector` has them. -/
namespace NtAdmin.Lib

/-- `cap` slots are allocated, and the elements are stored in the first of them. -/
structure Vec (α : Type) where
  data : List α
  cap : ℕ
  le_cap : data.length ≤ cap

namespace Vec
variable {α : Type}

def empty : Vec α := ⟨[], 0, Nat.le_refl 0⟩

def size (v : Vec α) : ℕ := v.data.length

/-- The same elements with at least `n` slots. -/
def grow (v : Vec α) (n : ℕ) : Vec α :=
  ⟨v.data, max v.cap n, Nat.le_trans v.le_cap (Nat.le_max_left _ _)⟩

/-- Other elements in the same slots, with more slots only where they do not fit. -/
def withData (v : Vec α) (l : List α) : Vec α := ⟨l, max v.cap l.length, Nat.le_max_right _ _⟩

@[simp] theorem data_empty : (empty : Vec α).data = [] := rfl
@[simp] theorem data_grow (v : Vec α) (n : ℕ) : (v.grow n).data = v.data := rfl
@[simp] theorem data_withData (v : Vec α) (l : List α) : (v.withData l).data = l := rfl

theorem cap_le_cap_grow (v : Vec α) (n : ℕ) : v.cap ≤ (v.grow n).cap := Nat.le_max_left _ _

theorem le_cap_grow (v : Vec α) (n : ℕ) : n ≤ (v.grow n).cap := Nat.le_max_right _ _

theorem cap_le_cap_withData (v : Vec α) (l : List α) : v.cap ≤ (v.withData l).cap :=
  Nat.le_max_left _ _

theorem cap_withData_of_le {v : Vec α} {l : List α} (h : l.length ≤ v.cap) :
    (v.withData l).cap = v.cap := Nat.max_eq_left h

end Vec

end NtAdmin.Lib
