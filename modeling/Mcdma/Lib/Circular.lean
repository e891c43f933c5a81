import Mcdma.Lib.Bytes
import Mcdma.Lib.Patch

/-!
# Runs of cells in a circular byte buffer

A circular buffer is a memory of `slots` cells of `cell` bytes each.  Cells are
counted without end and the counter is cut to a slot when a cell is used, so a
run of cells may pass the end of the buffer and go on at its start.  This module
says at which address each byte of such a run lies, that a copy in at most two
straight pieces reads the run, and which addresses belong to it.
-/

namespace Circular

variable (cell slots : Nat)

/-- The address of byte `index` of the run that starts with cell `first`. -/
def address (first index : Nat) : Nat :=
  (first + index / cell) % slots * cell + index % cell

/-- The `bytes` bytes of the run that starts with cell `first`. -/
def content (memory : Mem) (first bytes : Nat) : List UInt8 :=
  (List.range bytes).map fun index => memory (address cell slots first index)

/-- Whether an address belongs to the run of `bytes` bytes from cell `first`. -/
def Owns (first bytes address : Nat) : Prop :=
  address < slots * cell ∧
    (address + (slots * cell - first % slots * cell)) % (slots * cell) < bytes

instance (first bytes address : Nat) :
    Decidable (Owns cell slots first bytes address) :=
  inferInstanceAs (Decidable (_ ∧ _))

section

variable {cell slots}

@[simp] theorem length_content (memory : Mem) (first bytes : Nat) :
    (content cell slots memory first bytes).length = bytes := by
  simp [content]

/-- Two counters less than a buffer apart name different slots. -/
theorem slot_ne {slots place other : Nat} (before : place < other)
    (near : other < place + slots) : place % slots ≠ other % slots := by
  intro same
  have gap : (other - place) % slots = 0 :=
    Nat.sub_mod_eq_zero_of_mod_eq same.symm
  rw [Nat.mod_eq_of_lt (by omega)] at gap
  omega

/-- A run is straight up to the end of the buffer and goes on at its start. -/
theorem address_eq_mod (cellPos : 0 < cell) (first index : Nat) :
    address cell slots first index =
      (first % slots * cell + index) % (slots * cell) := by
  have low : (first % slots * cell + index) % cell = index % cell := by
    rw [Nat.add_comm, Nat.add_mul_mod_self_right]
  have high : (first % slots * cell + index) / cell =
      index / cell + first % slots := by
    rw [Nat.add_comm, Nat.add_mul_div_right _ _ cellPos]
  rw [Nat.mul_comm slots cell, Nat.mod_mul, low, high, Nat.add_mod_mod,
    address, Nat.add_comm first, Nat.mul_comm cell, Nat.add_comm]

theorem start_lt (cellPos : 0 < cell) (slotsPos : 0 < slots) (first : Nat) :
    first % slots * cell < slots * cell :=
  Nat.mul_lt_mul_of_pos_right (Nat.mod_lt first slotsPos) cellPos

/-- The bytes of a run that fits the buffer belong to it. -/
theorem owns_address (cellPos : 0 < cell) (slotsPos : 0 < slots)
    {first bytes index : Nat} (fits : bytes ≤ slots * cell)
    (within : index < bytes) :
    Owns cell slots first bytes (address cell slots first index) := by
  have start := start_lt cellPos slotsPos first
  set size := slots * cell
  set base := first % slots * cell
  rw [address_eq_mod cellPos]
  refine ⟨Nat.mod_lt _ (by omega), ?_⟩
  have back : base + index + (size - base) = index + size := by omega
  rw [Nat.mod_add_mod, back, Nat.add_mod_right, Nat.mod_eq_of_lt (by omega)]
  exact within

/-- Bytes of a run, from position `skip` on. -/
theorem slice_content (memory : Mem) (first bytes skip len : Nat)
    (within : skip + len ≤ bytes) :
    Bytes.slice (content cell slots memory first bytes) skip len =
      (List.range len).map fun index =>
        memory (address cell slots first (skip + index)) := by
  apply List.ext_getElem
  · rw [Bytes.length_slice _ _ _ (by simpa using within)]
    simp
  · intro index left right
    simp [Bytes.slice, content]

/-- Two straight reads, the second at the start of the buffer, read a run. -/
theorem read_wrapped (cellPos : 0 < cell) (slotsPos : 0 < slots)
    (memory : Mem) (first : Nat) {bytes skip len : Nat}
    (within : skip + len ≤ bytes) (fits : bytes ≤ slots * cell) :
    memory.read ((first % slots * cell + skip) % (slots * cell))
        (min len (slots * cell -
          (first % slots * cell + skip) % (slots * cell))) ++
      memory.read 0 (len - min len (slots * cell -
        (first % slots * cell + skip) % (slots * cell))) =
      Bytes.slice (content cell slots memory first bytes) skip len := by
  rw [slice_content memory first bytes skip len within]
  have start := start_lt cellPos slotsPos first
  have place : ∀ index, address cell slots first (skip + index) =
      ((first % slots * cell + skip) % (slots * cell) + index) %
        (slots * cell) := by
    intro index
    rw [address_eq_mod cellPos, Nat.mod_add_mod, Nat.add_assoc]
  have below := Nat.mod_lt (first % slots * cell + skip)
    (show 0 < slots * cell by omega)
  simp only [place]
  set offset := (first % slots * cell + skip) % (slots * cell)
  set size := slots * cell
  have parts : len = min len (size - offset) + (len - min len (size - offset)) := by
    omega
  conv_rhs => rw [parts, List.range_add, List.map_append]
  congr 1
  · refine List.map_congr_left fun index member => ?_
    have small := List.mem_range.mp member
    rw [Nat.mod_eq_of_lt (by omega)]
  · rw [List.map_map]
    refine List.map_congr_left fun index member => ?_
    have small := List.mem_range.mp member
    have wrapped : offset + (min len (size - offset) + index) = index + size := by
      omega
    rw [Function.comp_apply, wrapped, Nat.add_mod_right,
      Nat.mod_eq_of_lt (by omega), Nat.zero_add]

/-- A straight read inside the first cell of a run reads the run. -/
theorem read_straight (memory : Mem)
    {first bytes skip len : Nat} (within : skip + len ≤ bytes)
    (short : skip + len ≤ cell) :
    memory.read (first % slots * cell + skip) len =
      Bytes.slice (content cell slots memory first bytes) skip len := by
  rw [slice_content memory first bytes skip len within]
  refine List.map_congr_left fun index member => ?_
  have small := List.mem_range.mp member
  have inCell : skip + index < cell := by omega
  rw [address, Nat.div_eq_of_lt inCell, Nat.mod_eq_of_lt inCell, Nat.add_zero,
    Nat.add_assoc]

/-- The bytes of a run are those of its cells one after another. -/
theorem content_succ (cellPos : 0 < cell) (memory : Mem)
    (first bytes : Nat) :
    content cell slots memory first (cell + bytes) =
      memory.read (first % slots * cell) cell ++
        content cell slots memory (first + 1) bytes := by
  unfold content
  rw [List.range_add, List.map_append, List.map_map]
  congr 1
  · refine List.map_congr_left fun index member => ?_
    have small := List.mem_range.mp member
    rw [address, Nat.div_eq_of_lt small, Nat.mod_eq_of_lt small, Nat.add_zero]
  · refine List.map_congr_left fun index _ => ?_
    rw [Function.comp_apply, address, address, Nat.add_div_left _ cellPos,
      Nat.add_mod_left, Nat.add_assoc first 1, Nat.add_comm 1]

/-- A run inside its first cell. -/
theorem content_short (memory : Mem) (first : Nat) {bytes : Nat}
    (short : bytes ≤ cell) :
    content cell slots memory first bytes =
      memory.read (first % slots * cell) bytes := by
  unfold content
  refine List.map_congr_left fun index member => ?_
  have inCell : index < cell := by
    have small := List.mem_range.mp member
    omega
  rw [address, Nat.div_eq_of_lt inCell, Nat.mod_eq_of_lt inCell, Nat.add_zero]

end

end Circular
