import Mathlib.Data.List.Basic
import Mathlib.Tactic.Ring
import Mathlib.Tactic.NormNum

/-!
# Little-endian fields in byte strings

A wire format lays fixed-width fields one after another.  This module writes a
natural number as a fixed number of bytes, least significant first, reads it
back, and cuts fields out of longer byte strings.  The reading lemmas are stated
for a field that stands at the front of a string or behind a known front part,
which is how a decoder meets them.
-/

namespace Bytes

/-- The lowest `width` bytes of `value`, least significant first. -/
def lowBytes : Nat → Nat → List UInt8
  | 0, _ => []
  | width + 1, value => UInt8.ofNat value :: lowBytes width (value / 256)

/-- The number a little-endian byte string stands for. -/
def number : List UInt8 → Nat
  | [] => 0
  | byte :: rest => byte.toNat + 256 * number rest

@[simp] theorem length_lowBytes (width value : Nat) :
    (lowBytes width value).length = width := by
  induction width generalizing value with
  | zero => rfl
  | succ width inductionHypothesis =>
      simp [lowBytes, inductionHypothesis]

/-- Decoding an encoded number keeps what fits its width. -/
theorem number_lowBytes (width value : Nat) :
    number (lowBytes width value) = value % 256 ^ width := by
  induction width generalizing value with
  | zero => simp [lowBytes, number, Nat.mod_one]
  | succ width inductionHypothesis =>
      have split : value % (256 * 256 ^ width) =
          value % 256 + 256 * (value / 256 % 256 ^ width) :=
        Nat.mod_mul
      have low : (UInt8.ofNat value).toNat = value % 256 := by simp
      rw [lowBytes, number, inductionHypothesis, low, pow_succ' 256 width,
        split]

/-- A byte string never stands for more than its width allows. -/
theorem number_lt (bytes : List UInt8) :
    number bytes < 256 ^ bytes.length := by
  induction bytes with
  | nil => simp [number]
  | cons byte rest inductionHypothesis =>
      have small : byte.toNat < 256 := byte.toNat_lt
      simp only [number, List.length_cons, pow_succ]
      omega

/-- Only zeros stand for zero. -/
theorem eq_zero_of_number {bytes : List UInt8} (zero : number bytes = 0) :
    ∀ byte ∈ bytes, byte = 0 := by
  induction bytes with
  | nil => simp
  | cons first rest inductionHypothesis =>
      simp only [number, Nat.add_eq_zero_iff] at zero
      have later := inductionHypothesis (by omega)
      intro byte listed
      rcases List.mem_cons.mp listed with rfl | behind
      · exact UInt8.toNat_inj.mp zero.1
      · exact later byte behind

/-- `length` bytes of a string from position `skip`. -/
def slice (bytes : List UInt8) (skip length : Nat) : List UInt8 :=
  (bytes.drop skip).take length

/-- The little-endian number in the `width` bytes from position `skip`. -/
def field (bytes : List UInt8) (skip width : Nat) : Nat :=
  number (slice bytes skip width)

theorem length_slice (bytes : List UInt8) (skip length : Nat)
    (within : skip + length ≤ bytes.length) :
    (slice bytes skip length).length = length := by
  simp only [slice, List.length_take, List.length_drop]
  omega

/-- A slice behind a front part is a slice of the rest. -/
theorem slice_append_right
    (front rest : List UInt8) (skip length : Nat)
    (behind : front.length ≤ skip) :
    slice (front ++ rest) skip length =
      slice rest (skip - front.length) length := by
  unfold slice
  rw [List.drop_append, List.drop_eq_nil_of_le behind, List.nil_append]

/-- The front of a string, cut at its own length. -/
theorem slice_zero_append (front rest : List UInt8) :
    slice (front ++ rest) 0 front.length = front := by
  simp [slice]

/-- The whole string as a slice. -/
theorem slice_self (bytes : List UInt8) :
    slice bytes 0 bytes.length = bytes := by
  simp [slice]

/-- The rest of a string behind a front part, cut at its own length. -/
theorem slice_length_append (front rest : List UInt8) :
    slice (front ++ rest) front.length rest.length = rest := by
  simp [slice]

theorem field_append_right
    (front rest : List UInt8) (skip width : Nat)
    (behind : front.length ≤ skip) :
    field (front ++ rest) skip width =
      field rest (skip - front.length) width := by
  rw [field, slice_append_right front rest skip width behind, field]

/-- A field encoded at the front of a string reads back truncated. -/
theorem field_lowBytes (width value : Nat) (rest : List UInt8) :
    field (lowBytes width value ++ rest) 0 width = value % 256 ^ width := by
  have cut := slice_zero_append (lowBytes width value) rest
  rw [length_lowBytes] at cut
  rw [field, cut, number_lowBytes]

theorem field_lt (bytes : List UInt8) (skip width : Nat) :
    field bytes skip width < 256 ^ width := by
  have short : (slice bytes skip width).length ≤ width := by
    simp [slice]
  exact lt_of_lt_of_le (number_lt _)
    (Nat.pow_le_pow_right (by norm_num) short)

/-- A slice of a slice. -/
theorem slice_slice (bytes : List UInt8) (skip length off width : Nat)
    (within : off + width ≤ length) :
    slice (slice bytes skip length) off width =
      slice bytes (skip + off) width := by
  unfold slice
  rw [List.drop_take, List.take_take, List.drop_drop]
  congr 1
  omega

/-- A field of a slice is a field of the string. -/
theorem field_slice (bytes : List UInt8) (skip length off width : Nat)
    (within : off + width ≤ length) :
    field (slice bytes skip length) off width =
      field bytes (skip + off) width := by
  rw [field, slice_slice bytes skip length off width within, field]

/-- Equal-width numbers laid one after another. -/
def lowTable (width : Nat) (values : Nat → Nat) (count : Nat) : List UInt8 :=
  (List.range count).flatMap fun index => lowBytes width (values index)

theorem lowTable_succ (width : Nat) (values : Nat → Nat) (count : Nat) :
    lowTable width values (count + 1) =
      lowTable width values count ++ lowBytes width (values count) := by
  simp [lowTable, List.range_succ]

@[simp] theorem length_lowTable
    (width : Nat) (values : Nat → Nat) (count : Nat) :
    (lowTable width values count).length = width * count := by
  induction count with
  | zero => simp [lowTable]
  | succ count inductionHypothesis =>
      rw [lowTable_succ, List.length_append, inductionHypothesis,
        length_lowBytes]
      ring

/-- The number at each index of such a table reads back truncated. -/
theorem field_lowTable
    (width : Nat) (values : Nat → Nat) (count index : Nat)
    (rest : List UInt8) (below : index < count) :
    field (lowTable width values count ++ rest) (width * index) width =
      values index % 256 ^ width := by
  induction count generalizing rest with
  | zero => omega
  | succ count inductionHypothesis =>
      rw [lowTable_succ, List.append_assoc]
      rcases Nat.lt_succ_iff_lt_or_eq.mp below with earlier | last
      · exact inductionHypothesis (lowBytes width (values count) ++ rest)
          earlier
      · subst last
        rw [field_append_right _ _ _ _ (by simp), length_lowTable,
          Nat.sub_self, field_lowBytes]

end Bytes
