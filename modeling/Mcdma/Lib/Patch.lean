import Mcdma.Lib.Order
import Mathlib.Data.List.GetD

/-!
# Patches of a byte memory

A memory is a function from addresses to bytes and a patch overwrites one run of
addresses.  Patches that share no address commute, so a rearrangement of a
sequence of patches has the same effect as the sequence itself as soon as it
keeps the order of every two patches that meet.
-/

/-- Contents of a byte memory. -/
abbrev Mem := Nat → UInt8

/-- The `length` bytes of a memory from address `off`. -/
def Mem.read (memory : Mem) (off length : Nat) : List UInt8 :=
  (List.range length).map fun index => memory (off + index)

@[simp] theorem Mem.length_read (memory : Mem) (off length : Nat) :
    (memory.read off length).length = length := by
  simp [Mem.read]

/-- Reading a run in two parts. -/
theorem Mem.read_add (memory : Mem) (off first second : Nat) :
    memory.read off (first + second) =
      memory.read off first ++ memory.read (off + first) second := by
  simp [Mem.read, List.range_add, Function.comp_def, Nat.add_assoc]

/-- Bytes to be stored from address `off` on. -/
structure Patch where
  off : Nat
  bytes : List UInt8
  deriving DecidableEq, Repr

namespace Patch

/-- The address after the last one a patch stores to. -/
def stop (patch : Patch) : Nat :=
  patch.off + patch.bytes.length

/-- The addresses a patch stores to. -/
def Covers (patch : Patch) (address : Nat) : Prop :=
  patch.off ≤ address ∧ address < patch.stop

instance (patch : Patch) (address : Nat) :
    Decidable (patch.Covers address) :=
  inferInstanceAs (Decidable (_ ∧ _))

/-- Two patches meet when they store to a common address. -/
def Meets (first second : Patch) : Prop :=
  max first.off second.off < min first.stop second.stop

instance (first second : Patch) : Decidable (first.Meets second) :=
  inferInstanceAs (Decidable (_ < _))

theorem Meets.of_covers {first second : Patch} {address : Nat}
    (left : first.Covers address) (right : second.Covers address) :
    first.Meets second := by
  simp only [Covers, Meets] at *
  omega

/-- Overwrite the addresses of one patch. -/
def apply (memory : Mem) (patch : Patch) : Mem := fun address =>
  if patch.Covers address then
    patch.bytes.getD (address - patch.off) 0
  else memory address

theorem apply_of_covers {memory : Mem} {patch : Patch} {address : Nat}
    (covered : patch.Covers address) :
    apply memory patch address = patch.bytes.getD (address - patch.off) 0 :=
  if_pos covered

theorem apply_of_not_covers {memory : Mem} {patch : Patch} {address : Nat}
    (free : ¬patch.Covers address) :
    apply memory patch address = memory address :=
  if_neg free

/-- Store a sequence of patches one after another. -/
def replay (memory : Mem) (patches : List Patch) : Mem :=
  patches.foldl apply memory

@[simp] theorem replay_nil (memory : Mem) : replay memory [] = memory := rfl

theorem replay_append (memory : Mem) (first second : List Patch) :
    replay memory (first ++ second) = replay (replay memory first) second := by
  simp [replay]

/-- An address holds what the last patch covering it stored. -/
theorem replay_apply (memory : Mem) (patches : List Patch) (address : Nat) :
    replay memory patches address =
      match (patches.filter (·.Covers address)).getLast? with
      | some patch => patch.bytes.getD (address - patch.off) 0
      | none => memory address := by
  induction patches using List.reverseRecOn with
  | nil => rfl
  | append_singleton prior last inductionHypothesis =>
      rw [replay_append, List.filter_append, List.filter_singleton]
      change apply (replay memory prior) last address = _
      by_cases covered : last.Covers address
      · rw [apply_of_covers covered]
        simp [covered]
      · rw [apply_of_not_covers covered, inductionHypothesis]
        simp [covered]

/-- A rearrangement that keeps the order of every two patches that meet leaves
the same memory. -/
theorem replay_eq_of_before {α : Type*} (patch : α → Patch)
    (memory : Mem) {order arrival : List α}
    (nodup : order.Nodup) (perm : arrival.Perm order)
    (kept : ∀ x y, Before order x y → (patch x).Meets (patch y) →
      Before arrival x y) :
    replay memory (arrival.map patch) = replay memory (order.map patch) := by
  funext address
  rw [replay_apply, replay_apply, List.filter_map, List.filter_map]
  -- at one address all patches that matter meet, so their order is fixed
  have same :
      order.filter ((fun p : Patch => decide (p.Covers address)) ∘ patch) =
      arrival.filter
        ((fun p : Patch => decide (p.Covers address)) ∘ patch) := by
    refine eq_of_perm_of_before ((perm.nodup_iff.mpr nodup).filter _)
      (perm.symm.filter _) ?_
    intro x y before
    have coversX := (List.mem_filter.mp before.mem_left).2
    have coversY := (List.mem_filter.mp before.mem_right).2
    simp only [Function.comp_apply, decide_eq_true_eq] at coversX coversY
    have arrived := kept x y (before.of_sublist List.filter_sublist)
      (Meets.of_covers coversX coversY)
    have filtered := List.Sublist.filter
      ((fun p : Patch => decide (p.Covers address)) ∘ patch) arrived
    simpa [Before, coversX, coversY] using filtered
  rw [same]

/-- Storing a run in two consecutive parts stores the run. -/
theorem apply_split (memory : Mem) (off : Nat) (first second : List UInt8) :
    apply (apply memory ⟨off, first⟩) ⟨off + first.length, second⟩ =
      apply memory ⟨off, first ++ second⟩ := by
  funext address
  by_cases early : address < off + first.length
  · have free : ¬(⟨off + first.length, second⟩ : Patch).Covers address := by
      simp only [Covers, stop]
      omega
    rw [apply_of_not_covers free]
    by_cases start : off ≤ address
    · rw [apply_of_covers (by simp only [Covers, stop]; omega),
        apply_of_covers (by simp only [Covers, stop, List.length_append]; omega),
        List.getD_append _ _ _ _ (by simp only; omega)]
    · rw [apply_of_not_covers (by simp only [Covers]; omega),
        apply_of_not_covers (by simp only [Covers]; omega)]
  · by_cases late : address < off + first.length + second.length
    · rw [apply_of_covers (by simp only [Covers, stop]; omega),
        apply_of_covers (by simp only [Covers, stop, List.length_append]; omega),
        List.getD_append_right _ _ _ _ (by simp only; omega)]
      congr 1
      simp only
      omega
    · rw [apply_of_not_covers (by simp only [Covers, stop]; omega),
        apply_of_not_covers (by simp only [Covers, stop]; omega),
        apply_of_not_covers (by simp only [Covers, stop, List.length_append]; omega)]

theorem apply_nil (memory : Mem) (off : Nat) :
    apply memory ⟨off, []⟩ = memory := by
  funext address
  exact apply_of_not_covers (by simp only [Covers, stop, List.length_nil]; omega)

end Patch
