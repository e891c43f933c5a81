import Mcdma.Lib.Probe

/-!
# The index of objects by number

A table of twice as many slots as it may have entries, a power of two, probed
from the hash of the key.  The index carries the proof that every entry can be
found and that its size is the number of entries.
-/

namespace Mcdma
namespace Hca

/-- The slots of an index with a limit of `2 ^ log`. -/
def slots (log : Nat) : Nat := 2 ^ (log + 1)

theorem slots_eq (log : Nat) : slots log = 2 ^ log + 2 ^ log := by
  rw [slots, Nat.pow_succ, Nat.mul_two]

instance neZeroSlots (log : Nat) : NeZero (slots log) :=
  ⟨Nat.ne_of_gt (Nat.two_pow_pos _)⟩

/-- Where the search for a key starts: as many high bits of a product as slots
are numbered with. -/
def bucket (log : Nat) (key : UInt32) : Nat :=
  ((key * 2654435761) >>> UInt32.ofNat (31 - log)).toNat

/-- `PointerIndex` with a limit of `2 ^ log`. -/
structure PointerIndex (log : Nat) (Value : Type) where
  cells : Fin (slots log) → Option (UInt32 × Value)
  size : Nat
  sound : Probe.Sound (bucket log) cells
  counted : (Slots.occupied cells).card = size
  small : size ≤ 2 ^ log

namespace PointerIndex

variable {log : Nat} {Value : Type}

/-- No entry. -/
def empty : PointerIndex log Value where
  cells := fun _ => none
  size := 0
  sound := ⟨fun _ _ _ _ _ here => absurd here (by simp),
    fun _ _ _ here => absurd here (by simp)⟩
  counted := by simp [Slots.occupied]
  small := Nat.zero_le _

variable (x : PointerIndex log Value)

/-- An index always has an empty slot. -/
theorem exists_free : ∃ spot, x.cells spot = none := by
  apply Slots.exists_free
  rw [x.counted, Fintype.card_fin, slots_eq]
  have small := x.small
  have positive := Nat.two_pow_pos log
  omega

/-- Whether a key has a value. -/
def Holds (key : UInt32) (value : Value) : Prop :=
  Probe.Holds x.cells key value

/-- The value of a key. -/
def find (key : UInt32) : Option Value :=
  match Probe.probe x.cells key (slots log) (bucket log key) with
  | .held _ value => some value
  | _ => none

theorem find_eq_some_iff {key : UInt32} {value : Value} :
    x.find key = some value ↔ x.Holds key value := by
  constructor
  · intro found
    unfold find at found
    split at found
    · next spot held met =>
        cases found
        exact ⟨spot, Probe.holds_of_probe met⟩
    · cases found
  · rintro ⟨spot, here⟩
    rw [find, x.sound.probe_eq here]

/-- Add an entry; fails when the index is full or the key is there. -/
def insert (key : UInt32) (value : Value) : Option (PointerIndex log Value) :=
  if full : x.size = 2 ^ log then none
  else
    match met : Probe.probe x.cells key (slots log) (bucket log key) with
    | .free spot =>
        some {
          cells := Function.update x.cells spot (some (key, value))
          size := x.size + 1
          sound := x.sound.fill met value
          counted := by
            obtain ⟨-, -, -, free, -⟩ := Probe.free_of_probe met
            rw [Slots.card_fill free, x.counted]
          small := by
            have small := x.small
            omega }
    | _ => none

theorem holds_insert {key : UInt32} {value : Value} {y : PointerIndex log Value}
    (added : x.insert key value = some y) {asked : UInt32} {held : Value} :
    y.Holds asked held ↔ x.Holds asked held ∨ asked = key ∧ held = value := by
  unfold insert at added
  split at added
  · cases added
  · split at added
    · next spot met =>
        cases added
        obtain ⟨-, -, -, free, -⟩ := Probe.free_of_probe met
        exact Probe.holds_fill free
    · cases added

/-- Remove an entry with the value it is expected to have. -/
def erase [DecidableEq Value] (key : UInt32) (expected : Value) :
    Option (PointerIndex log Value) :=
  match met : Probe.probe x.cells key (slots log) (bucket log key) with
  | .held spot value =>
      if value = expected then
        have here : x.cells (Probe.slot (slots log) spot.val) = some (key, value) := by
          rw [Probe.slot_val]
          exact Probe.holds_of_probe met
        have free : ∃ other, x.cells other = none :=
          x.exists_free
        have kept := x.sound.remove here free
        some {
          cells := Probe.close (bucket log) (slots log) spot.val (spot.val + 1)
            (Function.update x.cells (Probe.slot (slots log) spot.val) none)
          size := x.size - 1
          sound := kept.1
          counted := by
            have less := kept.2.2.1
            rw [x.counted] at less
            exact Nat.eq_sub_of_add_eq less
          small := Nat.le_trans (Nat.sub_le _ _) x.small }
      else none
  | _ => none

/-- An index refuses an entry when it is full or has the key. -/
theorem insert_eq_none_iff {key : UInt32} {value : Value} :
    x.insert key value = none ↔
      x.size = 2 ^ log ∨ ∃ held, x.Holds key held := by
  unfold insert
  split
  · next full => exact iff_of_true rfl (Or.inl full)
  · next room =>
      split
      · next spot met =>
          refine iff_of_false (by simp) ?_
          rintro (full | ⟨held, holds⟩)
          · exact room full
          · exact x.sound.absent_of_free met held holds
      · next other =>
          refine iff_of_true rfl (Or.inr ?_)
          cases met : Probe.probe x.cells key (slots log) (bucket log key) with
          | free spot => exact absurd met (other spot)
          | held spot held => exact ⟨held, spot, Probe.holds_of_probe met⟩
          | full =>
              exact absurd met (Probe.probe_ne_full x.exists_free key _)

theorem size_insert {key : UInt32} {value : Value} {y : PointerIndex log Value}
    (added : x.insert key value = some y) : y.size = x.size + 1 := by
  unfold insert at added
  split at added
  · cases added
  · split at added
    · cases added
      rfl
    · cases added

theorem erase_eq [DecidableEq Value] {key : UInt32} {value : Value}
    (holds : x.Holds key value) : ∃ y, x.erase key value = some y ∧
      ∀ asked held, y.Holds asked held ↔ x.Holds asked held ∧ asked ≠ key := by
  obtain ⟨spot, here⟩ := holds
  have met := x.sound.probe_eq here
  unfold erase
  split
  · next place found again =>
      rw [met] at again
      cases again
      rw [if_pos rfl]
      refine ⟨_, rfl, ?_⟩
      have free : ∃ other, x.cells other = none :=
        x.exists_free
      have there : x.cells (Probe.slot (slots log) spot.val) = some (key, value) := by
        rw [Probe.slot_val, here]
      exact (x.sound.remove there free).2.1
  · next other =>
      exact absurd met (other _ _)

/-- Only the pair that is there is removed. -/
theorem holds_of_erase [DecidableEq Value] {key : UInt32} {value : Value}
    {y : PointerIndex log Value} (erased : x.erase key value = some y) :
    x.Holds key value := by
  unfold erase at erased
  split at erased
  · next spot found met =>
      split at erased
      · next same => exact ⟨spot, same ▸ Probe.holds_of_probe met⟩
      · cases erased
  · cases erased

/-- The loop behind the removed entry ends by itself, with what is left. -/
theorem closes_erase [DecidableEq Value] {key : UInt32} {value : Value}
    {y : PointerIndex log Value} (erased : x.erase key value = some y) :
    x.size = y.size + 1 ∧ ∃ spot, x.cells spot = some (key, value) ∧
      Probe.Closes (bucket log) spot.val (spot.val + 1)
        (Function.update x.cells spot none) y.cells := by
  unfold erase at erased
  split at erased
  · next spot found met =>
      split at erased
      · next same =>
          have here := Probe.holds_of_probe met
          have there : x.cells (Probe.slot (slots log) spot.val) =
              some (key, found) := by
            rw [Probe.slot_val, here]
          obtain ⟨-, -, less, ends⟩ := x.sound.remove there x.exists_free
          cases erased
          rw [Probe.slot_val] at ends
          rw [x.counted] at less
          refine ⟨?_, spot, same ▸ here, ?_⟩
          · change x.size = x.size - 1 + 1
            omega
          · dsimp only
            rw [Probe.slot_val]
            exact ends
      · cases erased
  · cases erased

end PointerIndex

end Hca
end Mcdma
