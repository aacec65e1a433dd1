import Mathlib
/-!
# Little-endian integers in bytes

A `w`-byte little-endian field holds a number modulo `256 ^ w`, low byte
first; reading the bytes back gives the number modulo `256 ^ w`.
-/

namespace LittleEndian

/-- The `w` bytes of `n`, low byte first. -/
def bytes : Nat → Nat → List UInt8
  | 0, _ => []
  | w + 1, n => UInt8.ofNat (n % 256) :: bytes w (n / 256)

/-- The number a little-endian field holds. -/
def value : List UInt8 → Nat
  | [] => 0
  | b :: bs => b.toNat + 256 * value bs

attribute [grind] bytes value

@[simp] theorem length_bytes : ∀ w n, (bytes w n).length = w
  | 0, _ => rfl
  | w + 1, n => by simp [bytes, length_bytes w]

theorem value_bytes : ∀ w n, value (bytes w n) = n % 256 ^ w
  | 0, n => by simp [bytes, value, Nat.mod_one]
  | w + 1, n => by
    have low : (UInt8.ofNat (n % 256)).toNat = n % 256 :=
      UInt8.toNat_ofNat_of_lt' (Nat.mod_lt _ (by decide))
    simp only [bytes, value, low, value_bytes w (n / 256)]
    -- the low byte, then the rest shifted by a byte
    rw [Nat.pow_succ', Nat.mod_mul]

theorem value_bytes_of_lt {w n : Nat} (fits : n < 256 ^ w) : value (bytes w n) = n := by
  rw [value_bytes, Nat.mod_eq_of_lt fits]

end LittleEndian
