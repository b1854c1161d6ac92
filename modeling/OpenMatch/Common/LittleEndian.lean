import Mathlib.Data.Nat.Digits.Defs

/-!
# Numbers as bytes, least significant first

A number below `256 ^ size` and a list of `size` bytes are the same thing. The value of
bytes is their value as digits in base 256.
-/

namespace LittleEndian

/-- The `size` lowest bytes of a number, least significant first. -/
def toBytes : ℕ → ℕ → List UInt8
  | 0, _ => []
  | size + 1, n => UInt8.ofNat n :: toBytes size (n / 256)

/-- The number with these bytes. -/
def value (bytes : List UInt8) : ℕ := Nat.ofDigits 256 (bytes.map UInt8.toNat)

/-- One more byte below the others. -/
theorem value_cons (byte : UInt8) (bytes : List UInt8) : value (byte :: bytes) = byte.toNat + 256 * value bytes := by
  rw [value, List.map_cons, Nat.ofDigits_cons]
  rfl

/-- As many bytes as were asked for. -/
theorem length_toBytes (size n : ℕ) : (toBytes size n).length = size := by
  induction size generalizing n with
  | zero => rfl
  | succ size ih => simp [toBytes, ih]

/-- Bytes have a value in their range. -/
theorem value_lt (bytes : List UInt8) : value bytes < 256 ^ bytes.length := by
  have hdigits : ∀ digit ∈ bytes.map UInt8.toNat, digit < 256 := by
    intro digit hdigit
    obtain ⟨byte, -, rfl⟩ := List.mem_map.mp hdigit
    exact byte.toNat_lt
  have hlt := Nat.ofDigits_lt_base_pow_length (by decide) hdigits
  rwa [List.length_map] at hlt

/-- A number in range is the value of its bytes. -/
theorem value_toBytes {size n : ℕ} (hn : n < 256 ^ size) : value (toBytes size n) = n := by
  induction size generalizing n with
  | zero =>
    have hzero : n = 0 := by simpa using hn
    exact hzero.symm
  | succ size ih =>
    have hquotient : n / 256 < 256 ^ size := by
      rw [Nat.pow_succ] at hn
      exact Nat.div_lt_of_lt_mul (by omega)
    have hlow : (UInt8.ofNat n).toNat = n % 256 := UInt8.toNat_ofNat'
    rw [toBytes, value_cons, ih hquotient, hlow]
    exact Nat.mod_add_div n 256

/-- Bytes are the bytes of their value. -/
theorem toBytes_value (bytes : List UInt8) : toBytes bytes.length (value bytes) = bytes := by
  induction bytes with
  | nil => rfl
  | cons byte bytes ih =>
    have hbyte : byte.toNat < 256 := byte.toNat_lt
    have hquotient : (byte.toNat + 256 * value bytes) / 256 = value bytes := by omega
    have hlow : UInt8.ofNat (byte.toNat + 256 * value bytes) = byte := by
      apply UInt8.toNat_inj.mp
      rw [UInt8.toNat_ofNat']
      omega
    rw [value_cons, List.length_cons, toBytes, hquotient, ih, hlow]

end LittleEndian
