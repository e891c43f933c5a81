import Mathlib.Data.List.GetD
import Mathlib.Data.Nat.Bitwise

/-!
# Bits of byte strings

The bits of a byte string are counted from the highest bit of the first byte.  A
byte string is what its length and its bits say, and a field of bits stands for
the number that has them as its binary digits.
-/

namespace Bits

/-- The bit at a position, the highest of each byte first. -/
def bitAt (bytes : List UInt8) (pos : Nat) : Bool :=
  (bytes.getD (pos / 8) 0).toNat.testBit (7 - pos % 8)

/-- The number whose digits are the bits from a position on. -/
def number (bytes : List UInt8) (offset : Nat) : Nat → Nat
  | 0 => 0
  | count + 1 =>
      2 * number bytes offset count + (bitAt bytes (offset + count)).toNat

/-- A byte by its bits. -/
theorem eq_of_testBit {first second : UInt8}
    (same : ∀ bit < 8, first.toNat.testBit bit = second.toNat.testBit bit) :
    first = second := by
  apply UInt8.toNat_inj.mp
  apply Nat.eq_of_testBit_eq
  intro bit
  rcases Nat.lt_or_ge bit 8 with low | high
  · exact same bit low
  · have bound : (2 : Nat) ^ 8 ≤ 2 ^ bit :=
      Nat.pow_le_pow_right (by decide) high
    rw [Nat.testBit_lt_two_pow (lt_of_lt_of_le first.toNat_lt bound),
      Nat.testBit_lt_two_pow (lt_of_lt_of_le second.toNat_lt bound)]

/-- Byte strings of one length with the same bits are the same. -/
theorem ext {first second : List UInt8} (length : first.length = second.length)
    (same : ∀ pos < first.length * 8, bitAt first pos = bitAt second pos) :
    first = second := by
  apply List.ext_getElem length
  intro index left right
  apply eq_of_testBit
  intro bit low
  have here := same (8 * index + (7 - bit)) (by omega)
  have byte : (8 * index + (7 - bit)) / 8 = index := by omega
  have place : 7 - (8 * index + (7 - bit)) % 8 = bit := by omega
  rw [bitAt, bitAt, byte, place, List.getD_eq_getElem _ _ left,
    List.getD_eq_getElem _ _ right] at here
  exact here

theorem number_lt (bytes : List UInt8) (offset count : Nat) :
    number bytes offset count < 2 ^ count := by
  induction count with
  | zero => simp [number]
  | succ count inductionHypothesis =>
      have one := Bool.toNat_le (bitAt bytes (offset + count))
      rw [number, Nat.pow_succ]
      omega

/-- The digits of a field's number are its bits, the last one lowest. -/
theorem testBit_number (bytes : List UInt8) (offset count bit : Nat) :
    (number bytes offset count).testBit bit =
      (decide (bit < count) && bitAt bytes (offset + (count - 1 - bit))) := by
  induction count generalizing bit with
  | zero => simp [number]
  | succ count inductionHypothesis =>
      have digit := Bool.toNat_lt (bitAt bytes (offset + count))
      cases bit with
      | zero =>
          rw [number, Nat.testBit_zero]
          have odd : (2 * number bytes offset count +
              (bitAt bytes (offset + count)).toNat) % 2 =
                (bitAt bytes (offset + count)).toNat := by omega
          rw [odd]
          cases last : bitAt bytes (offset + count) <;> simp [last]
      | succ bit =>
          have half : (2 * number bytes offset count +
              (bitAt bytes (offset + count)).toNat) / 2 =
                number bytes offset count := by omega
          have place : count + 1 - 1 - (bit + 1) = count - 1 - bit := by omega
          rw [number, Nat.testBit_succ, half, inductionHypothesis, place]
          simp

/-- A field that has the digits of a number stands for it. -/
theorem number_eq {bytes : List UInt8} {offset count value : Nat}
    (small : value < 2 ^ count)
    (digits : ∀ index < count,
      bitAt bytes (offset + index) = value.testBit (count - 1 - index)) :
    number bytes offset count = value := by
  apply Nat.eq_of_testBit_eq
  intro bit
  rw [testBit_number]
  by_cases inside : bit < count
  · rw [digits _ (by omega)]
    have place : count - 1 - (count - 1 - bit) = bit := by omega
    simp [inside, place]
  · have above : (2 : Nat) ^ count ≤ 2 ^ bit :=
      Nat.pow_le_pow_right (by decide) (by omega)
    simp [inside, Nat.testBit_lt_two_pow (lt_of_lt_of_le small above)]

end Bits
