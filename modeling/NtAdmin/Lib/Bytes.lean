import Mathlib.Data.List.Basic

/-! Files as byte lists with positioned reads and writes. -/
namespace NtAdmin.Lib

variable {α : Type}

/-- The `n` bytes at `off`, when the file reaches that far. -/
def readAt (f : List α) (off n : ℕ) : Option (List α) :=
  if off + n ≤ f.length then some ((f.drop off).take n) else none

/-- Write `bs` at `off`. A gap behind the end of the file is filled with `z`; writing no bytes
extends nothing. -/
def writeAt (z : α) (f : List α) (off : ℕ) (bs : List α) : List α :=
  if bs = [] then f
  else f.take off ++ List.replicate (off - f.length) z ++ bs ++ f.drop (off + bs.length)

@[simp] theorem writeAt_nil (z : α) (f : List α) (off : ℕ) : writeAt z f off [] = f := rfl

/-- A write at the end of the file appends. -/
theorem writeAt_length (z : α) (f bs : List α) : writeAt z f f.length bs = f ++ bs := by
  unfold writeAt
  split_ifs with h
  · rw [h, List.append_nil]
  · simp

theorem length_writeAt_of_ne (z : α) (f : List α) (off : ℕ) {bs : List α} (h : bs ≠ []) :
    (writeAt z f off bs).length = max f.length (off + bs.length) := by
  simp only [writeAt, h, if_false, List.length_append, List.length_take, List.length_replicate,
    List.length_drop]
  omega

theorem length_le_length_writeAt (z : α) (f : List α) (off : ℕ) (bs : List α) :
    f.length ≤ (writeAt z f off bs).length := by
  by_cases h : bs = []
  · simp [h]
  · rw [length_writeAt_of_ne z f off h]
    exact Nat.le_max_left _ _

theorem getElem?_writeAt_of_outside (z : α) (f : List α) (off : ℕ) (bs : List α) {i : ℕ}
    (hi : i < off ∨ off + bs.length ≤ i) (hf : i < f.length) :
    (writeAt z f off bs)[i]? = f[i]? := by
  by_cases h : bs = []
  · simp [h]
  simp only [writeAt, h, if_false, List.append_assoc]
  rcases hi with hi | hi
  · rw [List.getElem?_append_left (by simp; omega), List.getElem?_take, if_pos hi]
  · have hoff : off < f.length := by omega
    rw [List.getElem?_append_right (by simp; omega), List.getElem?_append_right (by simp; omega),
      List.getElem?_append_right (by simp; omega), List.getElem?_drop]
    congr 1
    simp
    omega

theorem getElem?_writeAt_of_inside (z : α) (f : List α) (off : ℕ) (bs : List α) {i : ℕ}
    (hi : off ≤ i) (hi' : i < off + bs.length) : (writeAt z f off bs)[i]? = bs[i - off]? := by
  have h : bs ≠ [] := by
    rintro rfl
    simp at hi'
    omega
  simp only [writeAt, h, if_false, List.append_assoc]
  rw [List.getElem?_append_right (by simp; omega), List.getElem?_append_right (by simp; omega),
    List.getElem?_append_left (by simp; omega)]
  congr 1
  simp
  omega

theorem readAt_eq_some {f : List α} {off n : ℕ} {bs : List α} :
    readAt f off n = some bs ↔
      bs.length = n ∧ off + n ≤ f.length ∧ ∀ i < n, f[off + i]? = bs[i]? := by
  unfold readAt
  constructor
  · intro h
    split_ifs at h with hl
    have hbs := Option.some.inj h
    subst hbs
    refine ⟨by simp; omega, hl, fun i hi => ?_⟩
    rw [List.getElem?_take, if_pos hi, List.getElem?_drop]
  · rintro ⟨hn, hl, h⟩
    rw [if_pos hl]
    congr 1
    apply List.ext_getElem?
    intro i
    by_cases hi : i < n
    · rw [List.getElem?_take, if_pos hi, List.getElem?_drop, h i hi]
    · rw [List.getElem?_take, if_neg hi, List.getElem?_eq_none (by omega)]

/-- A read returns what was just written there. -/
theorem readAt_writeAt_self (z : α) (f : List α) (off : ℕ) {bs : List α} (h : bs ≠ []) :
    readAt (writeAt z f off bs) off bs.length = some bs := by
  rw [readAt_eq_some]
  refine ⟨rfl, by rw [length_writeAt_of_ne z f off h]; exact Nat.le_max_right _ _, fun i hi => ?_⟩
  rw [getElem?_writeAt_of_inside z f off bs (by omega) (by omega)]
  congr 1
  omega

/-- A write leaves every read of another range as it was, though it may bring a range that was
behind the end of the file into it. -/
theorem readAt_writeAt_disjoint (z : α) {f : List α} {off n off' : ℕ} {bs bs' : List α}
    (hd : off + n ≤ off' ∨ off' + bs'.length ≤ off) (h : readAt f off n = some bs) :
    readAt (writeAt z f off' bs') off n = some bs := by
  rw [readAt_eq_some] at h ⊢
  obtain ⟨hn, hl, h⟩ := h
  refine ⟨hn, Nat.le_trans hl (length_le_length_writeAt z f off' bs'), fun i hi => ?_⟩
  rw [getElem?_writeAt_of_outside z f off' bs' (by omega) (by omega), h i hi]

end NtAdmin.Lib
