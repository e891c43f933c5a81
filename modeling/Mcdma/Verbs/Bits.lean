import Mcdma.Lib.Bits

/-!
# Bit fields of commands and contexts

Every command and context of the device is built of bit fields that start at any
bit and are up to 64 bits wide.  `set_bits` writes one, bit by bit, and
`get_bits` reads one.
-/

namespace Mcdma
namespace Verbs

/-- `SIZE_MAX`. -/
def sizeMax : Nat := 2 ^ 64 - 1

/-- The mask of a bit in its byte. -/
def bitMask (pos : Nat) : UInt8 := 1 <<< UInt8.ofNat (7 - pos % 8)

/-- One round of `set_bits`. -/
def setBit (bytes : List UInt8) (pos : Nat) (one : Bool) : List UInt8 :=
  bytes.set (pos / 8)
    ((bytes.getD (pos / 8) 0 &&& ~~~bitMask pos) |||
      if one then bitMask pos else 0)

/-- The loop of `set_bits`. -/
def setLoop (offset width : Nat) (value : UInt64) (bytes : List UInt8) :
    List UInt8 :=
  (List.range width).foldl
    (fun bytes bit => setBit bytes (offset + bit)
      ((value >>> UInt64.ofNat (width - 1 - bit)) &&& 1 != 0)) bytes

/-- `set_bits`: whether the field was written, and the bytes. -/
def setBits (bytes : List UInt8) (offset width : Nat) (value : UInt64) :
    Bool × List UInt8 :=
  if width = 0 ∨ 64 < width ∨ sizeMax / 8 < bytes.length ∨
      bytes.length * 8 < offset ∨ bytes.length * 8 - offset < width ∨
      (width < 64 ∧ value >>> UInt64.ofNat width ≠ 0) then (false, bytes)
  else (true, setLoop offset width value bytes)

/-- One round of `get_bits`. -/
def getBit (bytes : List UInt8) (pos : Nat) (value : UInt64) : UInt64 :=
  (value <<< 1) |||
    ((bytes.getD (pos / 8) 0 >>> UInt8.ofNat (7 - pos % 8)) &&& 1).toUInt64

/-- `get_bits`. -/
def getBits (bytes : List UInt8) (offset width : Nat) : UInt64 :=
  if width = 0 ∨ 64 < width ∨ sizeMax / 8 < bytes.length ∨
      bytes.length * 8 < offset ∨ bytes.length * 8 - offset < width then 0
  else
    (List.range width).foldl
      (fun value bit => getBit bytes (offset + bit) value) 0

/-! ## One bit -/

section

variable (bytes : List UInt8) (pos : Nat)

@[simp] theorem length_setBit (one : Bool) :
    (setBit bytes pos one).length = bytes.length := by
  simp [setBit]

theorem toNat_mask {place : Nat} (inside : place < 8) :
    ((1 : UInt8) <<< UInt8.ofNat place).toNat = 2 ^ place := by
  have small : 2 ^ place < 2 ^ 8 := Nat.pow_lt_pow_right (by decide) inside
  have count : (UInt8.ofNat place).toNat % 8 = place := by
    rw [UInt8.toNat_ofNat']
    omega
  rw [UInt8.toNat_shiftLeft, count, UInt8.toNat_one, Nat.one_shiftLeft,
    Nat.mod_eq_of_lt small]

/-- The byte that a round writes has that bit and the others of before. -/
theorem testBit_masked (byte : UInt8) {place bit : Nat} (low : bit < 8)
    (inside : place < 8) (one : Bool) :
    ((byte &&& ~~~((1 : UInt8) <<< UInt8.ofNat place)) |||
        if one then (1 : UInt8) <<< UInt8.ofNat place else 0).toNat.testBit
          bit = if bit = place then one else byte.toNat.testBit bit := by
  have mask := toNat_mask inside
  have small : 2 ^ place < 2 ^ 8 := Nat.pow_lt_pow_right (by decide) inside
  have cleared : (~~~((1 : UInt8) <<< UInt8.ofNat place)).toNat.testBit bit =
      !decide (place = bit) := by
    have complement : UInt8.size - 1 - 2 ^ place =
        2 ^ 8 - (2 ^ place + 1) := by
      simp [UInt8.size]
    rw [UInt8.toNat_not, mask, complement,
      Nat.testBit_two_pow_sub_succ small, Nat.testBit_two_pow]
    simp [low]
  have written : (if one then (1 : UInt8) <<< UInt8.ofNat place
      else 0).toNat.testBit bit = (one && decide (place = bit)) := by
    cases one
    · simp
    · rw [if_pos rfl, mask, Nat.testBit_two_pow, Bool.true_and]
  rw [UInt8.toNat_or, UInt8.toNat_and, Nat.testBit_or, Nat.testBit_and,
    cleared, written]
  by_cases same : bit = place
  · simp [same]
  · simp [same, Ne.symm same]

/-- A round changes that one bit. -/
theorem bitAt_setBit (one : Bool) {pos : Nat} (inside : pos / 8 < bytes.length)
    (other : Nat) :
    Bits.bitAt (setBit bytes pos one) other =
      if other = pos then one else Bits.bitAt bytes other := by
  have here : 7 - pos % 8 < 8 := by omega
  unfold Bits.bitAt setBit bitMask
  by_cases byte : other / 8 = pos / 8
  · rw [byte, List.getD_eq_getElem _ _ (by simpa using inside),
      List.getElem_set_self, testBit_masked _ (by omega) here]
    have places : 7 - other % 8 = 7 - pos % 8 ↔ other = pos := by omega
    simp only [places]
  · have apart : other ≠ pos := fun same => byte (by rw [same])
    rw [List.getD_eq_getElem?_getD, List.getElem?_set_ne (Ne.symm byte),
      ← List.getD_eq_getElem?_getD, if_neg apart]

end

/-! ## A field -/

section

variable {bytes : List UInt8} {offset width : Nat} {value : UInt64}

/-- The bit of the value that a round takes. -/
theorem taken_eq (value : UInt64) {place : Nat} (inside : place < 64) :
    ((value >>> UInt64.ofNat place) &&& 1 != 0) =
      value.toNat.testBit place := by
  have count : (UInt64.ofNat place).toNat % 64 = place := by
    rw [UInt64.toNat_ofNat']
    omega
  have taken : ((value >>> UInt64.ofNat place) &&& 1).toNat =
      (value.toNat.testBit place).toNat := by
    rw [UInt64.toNat_and, UInt64.toNat_shiftRight, count, UInt64.toNat_one,
      Nat.and_one_is_mod, Nat.toNat_testBit, Nat.shiftRight_eq_div_pow]
  cases bit : value.toNat.testBit place with
  | false =>
      rw [bit] at taken
      have zero : (value >>> UInt64.ofNat place) &&& 1 = 0 :=
        UInt64.toNat_inj.mp taken
      rw [zero]
      rfl
  | true =>
      rw [bit] at taken
      have one : (value >>> UInt64.ofNat place) &&& 1 = 1 :=
        UInt64.toNat_inj.mp taken
      rw [one]
      rfl

/-- The rounds write the digits of the value and nothing else. -/
theorem setRounds (value : UInt64) (narrow : width ≤ 64)
    (fits : offset + width ≤ bytes.length * 8) {rounds : Nat}
    (within : rounds ≤ width) :
    ((List.range rounds).foldl
        (fun bytes bit => setBit bytes (offset + bit)
          ((value >>> UInt64.ofNat (width - 1 - bit)) &&& 1 != 0))
        bytes).length = bytes.length ∧
      ∀ pos, Bits.bitAt ((List.range rounds).foldl
        (fun bytes bit => setBit bytes (offset + bit)
          ((value >>> UInt64.ofNat (width - 1 - bit)) &&& 1 != 0)) bytes)
          pos =
        if offset ≤ pos ∧ pos < offset + rounds then
          value.toNat.testBit (width - 1 - (pos - offset))
        else Bits.bitAt bytes pos := by
  induction rounds with
  | zero =>
      refine ⟨rfl, fun pos => ?_⟩
      rw [if_neg (by omega)]
      rfl
  | succ rounds inductionHypothesis =>
      obtain ⟨length, bits⟩ := inductionHypothesis (by omega)
      rw [List.range_succ, List.foldl_append]
      refine ⟨(length_setBit _ _ _).trans length, fun pos => ?_⟩
      rw [List.foldl_cons, List.foldl_nil,
        bitAt_setBit _ _ (by rw [length]; omega), bits,
        taken_eq _ (by omega)]
      by_cases last : pos = offset + rounds
      · have place : pos - offset = rounds := by omega
        rw [if_pos last, if_pos (by omega), place]
      · rw [if_neg last]
        have apart : (offset ≤ pos ∧ pos < offset + rounds) ↔
            offset ≤ pos ∧ pos < offset + (rounds + 1) := by omega
        simp only [apart]

theorem length_setLoop (value : UInt64) (narrow : width ≤ 64)
    (fits : offset + width ≤ bytes.length * 8) :
    (setLoop offset width value bytes).length = bytes.length :=
  (setRounds value narrow fits le_rfl).1

/-- The bits after the loop. -/
theorem bitAt_setLoop (value : UInt64) (narrow : width ≤ 64)
    (fits : offset + width ≤ bytes.length * 8) (pos : Nat) :
    Bits.bitAt (setLoop offset width value bytes) pos =
      if offset ≤ pos ∧ pos < offset + width then
        value.toNat.testBit (width - 1 - (pos - offset))
      else Bits.bitAt bytes pos :=
  (setRounds value narrow fits le_rfl).2 pos

/-- `get_bits` reads the number of the field. -/
theorem toNat_getRounds (bytes : List UInt8) (offset : Nat) {rounds : Nat}
    (narrow : rounds ≤ 64) :
    ((List.range rounds).foldl
      (fun value bit => getBit bytes (offset + bit) value) 0).toNat =
        Bits.number bytes offset rounds := by
  induction rounds with
  | zero => rfl
  | succ rounds inductionHypothesis =>
      have before := inductionHypothesis (by omega)
      have small := Bits.number_lt bytes offset rounds
      have bound : (2 : Nat) ^ rounds ≤ 2 ^ 63 :=
        Nat.pow_le_pow_right (by decide) (by omega)
      have count : (UInt8.ofNat (7 - (offset + rounds) % 8)).toNat % 8 =
          7 - (offset + rounds) % 8 := by
        rw [UInt8.toNat_ofNat']
        omega
      have bit : ((bytes.getD ((offset + rounds) / 8) 0 >>>
          UInt8.ofNat (7 - (offset + rounds) % 8)) &&& 1).toUInt64.toNat =
            (Bits.bitAt bytes (offset + rounds)).toNat := by
        rw [UInt8.toNat_toUInt64, UInt8.toNat_and, UInt8.toNat_shiftRight,
          count, UInt8.toNat_one, Nat.and_one_is_mod, Bits.bitAt,
          Nat.toNat_testBit, Nat.shiftRight_eq_div_pow]
      rw [List.range_succ, List.foldl_append, List.foldl_cons, List.foldl_nil,
        getBit, UInt64.toNat_or, bit, UInt64.toNat_shiftLeft, before,
        Bits.number]
      have one := Bool.toNat_lt (Bits.bitAt bytes (offset + rounds))
      have shift : (1 : UInt64).toNat % 64 = 1 := rfl
      have room : Bits.number bytes offset rounds <<< 1 < 2 ^ 64 := by
        rw [Nat.shiftLeft_eq]
        omega
      rw [shift, Nat.mod_eq_of_lt room, ← Nat.shiftLeft_add_eq_or_of_lt one,
        Nat.shiftLeft_eq, pow_one, Nat.mul_comm]

theorem toNat_getBits (narrow : width ≤ 64) (nonzero : 0 < width)
    (short : bytes.length ≤ sizeMax / 8)
    (fits : offset + width ≤ bytes.length * 8) :
    (getBits bytes offset width).toNat = Bits.number bytes offset width := by
  rw [getBits, if_neg (by omega), toNat_getRounds bytes offset narrow]

/-- The value has more bits than the field. -/
theorem shiftRight_ne_zero (narrow : width ≤ 64) :
    (width < 64 ∧ value >>> UInt64.ofNat width ≠ 0) ↔
      2 ^ width ≤ value.toNat := by
  rcases Nat.lt_or_ge width 64 with below | full
  · have count : (UInt64.ofNat width).toNat % 64 = width := by
      rw [UInt64.toNat_ofNat']
      omega
    have quotient : (value >>> UInt64.ofNat width).toNat =
        value.toNat / 2 ^ width := by
      rw [UInt64.toNat_shiftRight, count, Nat.shiftRight_eq_div_pow]
    rw [ne_eq, ← UInt64.toNat_inj, quotient, UInt64.toNat_zero,
      Nat.div_eq_zero_iff]
    have positive := Nat.two_pow_pos width
    omega
  · obtain rfl : width = 64 := by omega
    have bound := value.toNat_lt
    omega

/-- `set_bits` refuses a field of a buffer of this length. -/
def Refused (length offset width : Nat) (value : UInt64) : Prop :=
  width = 0 ∨ 64 < width ∨ sizeMax / 8 < length ∨ length * 8 < offset ∨
    length * 8 - offset < width ∨
    (width < 64 ∧ value >>> UInt64.ofNat width ≠ 0)

theorem setBits_of_refused (refused : Refused bytes.length offset width value) :
    setBits bytes offset width value = (false, bytes) :=
  if_pos refused

theorem setBits_of_accepted
    (accepted : ¬ Refused bytes.length offset width value) :
    setBits bytes offset width value =
      (true, setLoop offset width value bytes) :=
  if_neg accepted

/-- A field that is not refused lies inside the buffer. -/
theorem inside_of_accepted {length : Nat}
    (accepted : ¬ Refused length offset width value) :
    width ≤ 64 ∧ offset + width ≤ length * 8 := by
  simp only [Refused, not_or] at accepted
  omega

/-- When `set_bits` fails. -/
theorem setBits_false (nonzero : 0 < width) (narrow : width ≤ 64) :
    (setBits bytes offset width value).1 = false ↔
      sizeMax / 8 < bytes.length ∨ bytes.length * 8 < offset + width ∨
        2 ^ width ≤ value.toNat := by
  have zero : width ≠ 0 := by omega
  have wide : ¬ 64 < width := by omega
  have reach : bytes.length * 8 < offset + width ↔
      bytes.length * 8 < offset ∨ bytes.length * 8 - offset < width := by
    omega
  rw [← shiftRight_ne_zero narrow, reach]
  by_cases refused : Refused bytes.length offset width value
  · rw [setBits_of_refused refused]
    simpa [Refused, zero, wide, or_assoc] using refused
  · rw [setBits_of_accepted refused]
    simpa [Refused, zero, wide, or_assoc] using refused

/-- A field written is read back. -/
theorem number_setLoop (narrow : width ≤ 64)
    (fits : offset + width ≤ bytes.length * 8)
    (small : value.toNat < 2 ^ width) :
    Bits.number (setLoop offset width value bytes) offset width =
      value.toNat := by
  refine Bits.number_eq small fun index inside => ?_
  rw [bitAt_setLoop value narrow fits, if_pos (by omega)]
  congr 2
  omega

/-- Writes of fields that share no bit can be exchanged. -/
theorem setLoop_comm {offset' width' : Nat} {value' : UInt64}
    (narrow : width ≤ 64) (narrow' : width' ≤ 64)
    (fits : offset + width ≤ bytes.length * 8)
    (fits' : offset' + width' ≤ bytes.length * 8)
    (apart : offset + width ≤ offset' ∨ offset' + width' ≤ offset) :
    setLoop offset' width' value' (setLoop offset width value bytes) =
      setLoop offset width value (setLoop offset' width' value' bytes) := by
  have length := length_setLoop value narrow fits
  have length' := length_setLoop value' narrow' fits'
  rw [← length] at fits'
  rw [← length'] at fits
  apply Bits.ext
  · rw [length_setLoop _ narrow' fits', length_setLoop _ narrow fits, length,
      length']
  · intro pos _
    rw [bitAt_setLoop _ narrow' fits', bitAt_setLoop _ narrow fits,
      bitAt_setLoop _ narrow (by rw [← length']; exact fits),
      bitAt_setLoop _ narrow' (by rw [← length]; exact fits')]
    by_cases first : offset ≤ pos ∧ pos < offset + width
    · rw [if_pos first, if_pos first, if_neg (by omega)]
    · rw [if_neg first, if_neg first]

/-- So it is whether or not they are refused. -/
theorem setBits_comm (offset' width' : Nat) (value' : UInt64)
    (apart : offset + width ≤ offset' ∨ offset' + width' ≤ offset) :
    (setBits (setBits bytes offset width value).2 offset' width' value').2 =
      (setBits (setBits bytes offset' width' value').2
        offset width value).2 := by
  by_cases first : Refused bytes.length offset width value
  · rw [setBits_of_refused first]
    by_cases second : Refused bytes.length offset' width' value'
    · rw [setBits_of_refused second, setBits_of_refused first]
    · obtain ⟨narrow, fits⟩ := inside_of_accepted second
      rw [setBits_of_accepted second, setBits_of_refused]
      rwa [length_setLoop _ narrow fits]
  · obtain ⟨narrow, fits⟩ := inside_of_accepted first
    have length := length_setLoop value narrow fits
    rw [setBits_of_accepted first]
    by_cases second : Refused bytes.length offset' width' value'
    · rw [setBits_of_refused second, setBits_of_accepted first,
        setBits_of_refused]
      rwa [length]
    · obtain ⟨narrow', fits'⟩ := inside_of_accepted second
      have length' := length_setLoop value' narrow' fits'
      rw [setBits_of_accepted second, setBits_of_accepted (by rwa [length]),
        setBits_of_accepted (by rwa [length'])]
      exact setLoop_comm narrow narrow' fits fits' apart

end

/-- `set_bits` fails, changing nothing, exactly when the field is not in the
buffer, or not in one that has a bit for each number of 64 bits, or the value
has more bits than the field.  Where it does not fail, `get_bits` reads the
value back and every other bit is as before; and writes of fields that share no
bit can be exchanged. -/
theorem setBits_local (bytes : List UInt8) (offset width : Nat)
    (value : UInt64) (nonzero : 1 ≤ width) (narrow : width ≤ 64) :
    ((setBits bytes offset width value).1 = false ↔
      sizeMax / 8 < bytes.length ∨ bytes.length * 8 < offset + width ∨
        2 ^ width ≤ value.toNat) ∧
    ((setBits bytes offset width value).1 = false →
      (setBits bytes offset width value).2 = bytes) ∧
    ((setBits bytes offset width value).1 = true →
      (setBits bytes offset width value).2.length = bytes.length ∧
      getBits (setBits bytes offset width value).2 offset width = value ∧
      ∀ pos, pos < offset ∨ offset + width ≤ pos →
        Bits.bitAt (setBits bytes offset width value).2 pos =
          Bits.bitAt bytes pos) ∧
    ∀ offset' width' value',
      offset + width ≤ offset' ∨ offset' + width' ≤ offset →
      (setBits (setBits bytes offset width value).2
          offset' width' value').2 =
        (setBits (setBits bytes offset' width' value').2
          offset width value).2 := by
  refine ⟨setBits_false nonzero narrow, fun failed => ?_, fun written => ?_,
    setBits_comm⟩
  · by_cases refused : Refused bytes.length offset width value
    · rw [setBits_of_refused refused]
    · rw [setBits_of_accepted refused] at failed
      simp at failed
  · by_cases refused : Refused bytes.length offset width value
    · rw [setBits_of_refused refused] at written
      simp at written
    · have sound := mt (setBits_false nonzero narrow).mpr
        (ne_of_eq_of_ne written (by simp))
      push Not at sound
      obtain ⟨short, fits, small⟩ := sound
      have length := length_setLoop value narrow fits
      rw [setBits_of_accepted refused]
      refine ⟨length, ?_, fun pos outside => ?_⟩
      · apply UInt64.toNat_inj.mp
        rw [toNat_getBits narrow nonzero (by rw [length]; exact short)
          (by rw [length]; exact fits), number_setLoop narrow fits small]
      · rw [bitAt_setLoop value narrow fits, if_neg (by omega)]

/-- Twelve bits across three bytes. -/
theorem setBits_local_twelve :
    (setBits [0xff, 0xff, 0xff] 6 12 0x123).2 = [0xfc, 0x48, 0xff] ∧
      getBits (setBits [0xff, 0xff, 0xff] 6 12 0x123).2 6 12 = 0x123 :=
  ⟨by decide, ((setBits_local [0xff, 0xff, 0xff] 6 12 0x123 (by decide)
    (by decide)).2.2.1 (by decide)).2.1⟩

end Verbs
end Mcdma
