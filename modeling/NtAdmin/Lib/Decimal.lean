import Mathlib.Algebra.GroupWithZero.Nat
import Mathlib.Data.Nat.Log

/-! Decimal digits, most significant first. -/
namespace NtAdmin.Lib.Decimal

/-- The last `w` digits. -/
def fixed : ℕ → ℕ → List ℕ
  | 0, _ => []
  | w + 1, n => fixed w (n / 10) ++ [n % 10]

/-- At least `w` digits. -/
def printed (w n : ℕ) : List ℕ := fixed (max w (Nat.log 10 n + 1)) n

/-- The number that digits denote. -/
def value (digits : List ℕ) : ℕ := digits.foldl (fun n d => 10 * n + d) 0

@[simp] theorem length_fixed (w n : ℕ) : (fixed w n).length = w := by
  induction w generalizing n with
  | zero => rfl
  | succ w ih => rw [fixed, List.length_append, ih, List.length_singleton]

theorem lt_ten_of_mem_fixed {w n d : ℕ} (h : d ∈ fixed w n) : d < 10 := by
  induction w generalizing n with
  | zero => nomatch h
  | succ w ih =>
    obtain h | h := List.mem_append.1 h
    · exact ih h
    · rw [List.mem_singleton.1 h]
      exact Nat.mod_lt n (by omega)

theorem value_fixed {w n : ℕ} (h : n < 10 ^ w) : value (fixed w n) = n := by
  induction w generalizing n with
  | zero =>
    rw [Nat.pow_zero] at h
    have hn : n = 0 := by omega
    rw [hn]
    rfl
  | succ w ih =>
    rw [Nat.pow_succ] at h
    have htail : value (fixed w (n / 10)) = n / 10 := ih (by omega)
    rw [value] at htail
    rw [fixed, value, List.foldl_append, htail, List.foldl_cons, List.foldl_nil]
    omega

/-- Numbers that fit are printed in the width. -/
theorem printed_eq_fixed {w n : ℕ} (hw : w ≠ 0) (h : n < 10 ^ w) : printed w n = fixed w n := by
  have hlog := Nat.log_lt_of_lt_pow' hw h
  rw [printed, Nat.max_eq_left (by omega)]

/-- Larger numbers are longer. -/
theorem lt_length_printed {w n : ℕ} (h : 10 ^ w ≤ n) : w < (printed w n).length := by
  have hlog := Nat.le_log_of_pow_le (by omega) h
  rw [printed, length_fixed]
  omega

end NtAdmin.Lib.Decimal
