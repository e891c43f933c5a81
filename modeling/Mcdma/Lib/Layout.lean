import Mcdma.Lib.Bytes
import Mathlib.Algebra.Order.Group.Nat
import Mathlib.Data.List.OfFn

/-!
# Byte strings laid out in chunks

A fixed format is a list of widths.  Cutting a byte string at these widths and
laying the chunks one after another undo each other, and the chunk of each index
is the slice at the sum of the widths before it, which is how a decoder with
explicit offsets reads it.
-/

namespace Bytes

/-- Cut a byte string into chunks of the given widths. -/
def cuts : List Nat → List UInt8 → List (List UInt8)
  | [], _ => []
  | width :: widths, bytes =>
      bytes.take width :: cuts widths (bytes.drop width)

@[simp] theorem length_cuts (widths : List Nat) (bytes : List UInt8) :
    (cuts widths bytes).length = widths.length := by
  induction widths generalizing bytes with
  | nil => rfl
  | cons width widths inductionHypothesis =>
      simp [cuts, inductionHypothesis]

/-- Chunks laid one after another are cut again into the same chunks. -/
theorem cuts_flatten (chunks : List (List UInt8)) (rest : List UInt8) :
    cuts (chunks.map List.length) (chunks.flatten ++ rest) = chunks := by
  induction chunks with
  | nil => rfl
  | cons chunk chunks inductionHypothesis =>
      simp [cuts, inductionHypothesis]

/-- The chunks of a string give back as much of it as they cover. -/
theorem flatten_cuts (widths : List Nat) (bytes : List UInt8) :
    (cuts widths bytes).flatten = bytes.take widths.sum := by
  induction widths generalizing bytes with
  | nil => simp [cuts]
  | cons width widths inductionHypothesis =>
      rw [cuts, List.flatten_cons, inductionHypothesis, List.sum_cons,
        List.take_add]

/-- Each chunk is the slice behind the widths before it. -/
theorem getElem?_cuts (widths : List Nat) (bytes : List UInt8) (index : Nat) :
    (cuts widths bytes)[index]? = widths[index]?.map fun width =>
      slice bytes (widths.take index).sum width := by
  induction widths generalizing bytes index with
  | nil => simp [cuts]
  | cons width widths inductionHypothesis =>
      cases index with
      | zero => simp [cuts, slice]
      | succ index =>
          rw [cuts, List.getElem?_cons_succ, inductionHypothesis,
            List.getElem?_cons_succ, List.take_succ_cons, List.sum_cons]
          simp [slice, List.drop_drop]

/-- A chunk of a layout reads back from the sum of the widths before it. -/
theorem slice_flatten (chunks : List (List UInt8)) (rest : List UInt8)
    {index : Nat} {chunk : List UInt8} (here : chunks[index]? = some chunk) :
    slice (chunks.flatten ++ rest)
      ((chunks.map List.length).take index).sum chunk.length = chunk := by
  have read := getElem?_cuts (chunks.map List.length)
    (chunks.flatten ++ rest) index
  rw [cuts_flatten, here, List.getElem?_map, here] at read
  exact (Option.some.inj read).symm

/-- A number read from its own bytes is written as them. -/
theorem lowBytes_number (bytes : List UInt8) :
    lowBytes bytes.length (number bytes) = bytes := by
  induction bytes with
  | nil => rfl
  | cons byte rest inductionHypothesis =>
      have small : byte.toNat < 256 := byte.toNat_lt
      have above : (byte.toNat + 256 * number rest) / 256 = number rest := by
        omega
      rw [List.length_cons, lowBytes, number, above, inductionHypothesis]
      congr 1
      apply UInt8.toNat_inj.mp
      rw [UInt8.toNat_ofNat']
      omega

/-- Slices one behind another. -/
theorem slice_append_slice (bytes : List UInt8) (skip first second : Nat) :
    slice bytes skip first ++ slice bytes (skip + first) second =
      slice bytes skip (first + second) := by
  unfold slice
  rw [List.take_add, List.drop_drop]

/-- Numbers read from a table of equal widths are written as its bytes. -/
theorem lowTable_field (bytes : List UInt8) (skip width count : Nat)
    (within : skip + width * count ≤ bytes.length) :
    lowTable width (fun index => field bytes (skip + width * index) width)
      count = slice bytes skip (width * count) := by
  induction count with
  | zero => simp [lowTable, slice]
  | succ count inductionHypothesis =>
      rw [Nat.mul_succ] at within
      have last : lowBytes width
          (field bytes (skip + width * count) width) =
          slice bytes (skip + width * count) width := by
        have length := length_slice bytes (skip + width * count) width
          (by omega)
        have written := lowBytes_number
          (slice bytes (skip + width * count) width)
        rw [length] at written
        exact written
      rw [lowTable_succ, inductionHypothesis (by omega), last,
        slice_append_slice, Nat.mul_succ]

theorem lowTable_congr {width count : Nat} {first second : Nat → Nat}
    (same : ∀ index < count, first index = second index) :
    lowTable width first count = lowTable width second count := by
  unfold lowTable
  apply List.flatMap_congr
  intro index member
  rw [same index (List.mem_range.mp member)]

/-- The first bytes of a string as an array. -/
def array (size : Nat) (bytes : List UInt8) : Fin size → UInt8 :=
  fun index => bytes.getD index 0

theorem array_ofFn {size : Nat} (values : Fin size → UInt8) :
    array size (List.ofFn values) = values := by
  funext index
  simp [array]

theorem ofFn_array {size : Nat} {bytes : List UInt8}
    (whole : bytes.length = size) : List.ofFn (array size bytes) = bytes := by
  subst whole
  apply List.ext_getElem
  · simp
  · intro index left right
    simp [array, List.getElem?_eq_getElem right]

/-- An array sent with its last byte cleared. -/
theorem take_ofFn_zero {size : Nat} (values : Fin (size + 1) → UInt8) :
    (List.ofFn values).take size ++ [0] =
      List.ofFn (Function.update values (Fin.last size) 0) := by
  have front : ∀ index : Fin size,
      Function.update values (Fin.last size) 0 index.castSucc =
        values index.castSucc := fun index =>
    Function.update_of_ne (Fin.castSucc_lt_last index).ne _ _
  rw [List.ofFn_succ', List.ofFn_succ', List.concat_eq_append,
    List.concat_eq_append, Function.update_self, List.take_left']
  · simp only [front]
  · simp

end Bytes
