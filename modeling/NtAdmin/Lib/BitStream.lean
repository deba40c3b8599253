import NtAdmin.Lib.Reader

/-! Streams of bits, the lowest bit of a byte first. -/
namespace NtAdmin.Lib

/-- The next `count` bits, as the number that they are the digits of. -/
structure BitStream where
  value : ℕ
  count : ℕ
  deriving DecidableEq

namespace BitStream

def ofBytes (bytes : List UInt8) : BitStream := ⟨leNat bytes, 8 * bytes.length⟩

/-- The number of the next `n` bits, which are taken off the stream. -/
def take (s : BitStream) (n : ℕ) : Option (ℕ × BitStream) :=
  if n ≤ s.count then some (s.value % 2 ^ n, ⟨s.value / 2 ^ n, s.count - n⟩) else none

theorem take_of_le {s : BitStream} {n : ℕ} (h : n ≤ s.count) :
    s.take n = some (s.value % 2 ^ n, ⟨s.value / 2 ^ n, s.count - n⟩) := if_pos h

theorem take_of_lt {s : BitStream} {n : ℕ} (h : s.count < n) : s.take n = none :=
  if_neg (Nat.not_le.mpr h)

end BitStream

end NtAdmin.Lib
