import Mcdma.Mirror.Provider

/-!
# What a ring holds

From an index on, a ring of 32 places holds the entries the device has
published and nobody has consumed, and no place after them reads as published.
The process reads the ring through the 24 bits of the consumer index that the
kernel publishes, which name the same places and the same laps.
-/

namespace Mcdma
namespace Mirror

open Hca (Cqe Device slotOf window)

/-- The entries published in a ring from an index on. -/
def RingHolds (ring : Fin 32 → Cqe) (base : UInt32) (entries : List Cqe) :
    Prop :=
  ∀ spot < 32, match entries[spot]? with
    | some cqe => window ring base spot = cqe ∧
        cqe.published (base + UInt32.ofNat spot) = true
    | none => (window ring base spot).published (base + UInt32.ofNat spot) =
        false

namespace RingHolds

variable {ring : Fin 32 → Cqe} {base : UInt32} {entries : List Cqe}

theorem get (holds : RingHolds ring base entries) {spot : Nat} {cqe : Cqe}
    (below : spot < 32) (here : entries[spot]? = some cqe) :
    window ring base spot = cqe ∧
      cqe.published (base + UInt32.ofNat spot) = true := by
  have place := holds spot below
  rwa [here] at place

theorem ends (holds : RingHolds ring base entries)
    (below : entries.length < 32) :
    (window ring base entries.length).published
      (base + UInt32.ofNat entries.length) = false := by
  have place := holds entries.length below
  rwa [List.getElem?_eq_none (Nat.le_refl _)] at place

/-- The device publishes one more. -/
theorem append (holds : RingHolds ring base entries)
    (room : entries.length < 32) {cqe : Cqe}
    (published : cqe.published (base + UInt32.ofNat entries.length) = true) :
    RingHolds
      (Function.update ring (slotOf (base + UInt32.ofNat entries.length)) cqe)
      base (entries ++ [cqe]) := by
  intro spot below
  by_cases last : spot = entries.length
  · subst last
    rw [List.getElem?_append_right (Nat.le_refl _), Nat.sub_self]
    exact ⟨Hca.window_update_self _ _ _ _, published⟩
  · rw [Hca.window_update_ne _ _ _ room below last]
    have place := holds spot below
    by_cases early : spot < entries.length
    · rw [List.getElem?_append_left early]
      exact place
    · rw [List.getElem?_eq_none (by omega)] at place
      rw [List.getElem?_eq_none (by simp; omega)]
      exact place

/-- A ring the device has not written to holds nothing. -/
theorem blank (base : UInt32) : RingHolds Hca.HardwareCq.blank base [] := by
  intro spot below
  have owner : (window Hca.HardwareCq.blank base spot).owner = 0xf1 := rfl
  rw [List.getElem?_nil]
  dsimp only
  rw [Cqe.published, Cqe.opcode, owner]
  rfl

/-- The first ones are consumed: their places do not read as published in the
next lap. -/
theorem drop (holds : RingHolds ring base entries)
    (few : entries.length ≤ 32) {count : Nat}
    (within : count ≤ entries.length) :
    RingHolds ring (base + UInt32.ofNat count) (entries.drop count) := by
  intro spot below
  have moved : window ring (base + UInt32.ofNat count) spot =
      window ring base (count + spot) := by
    rw [window, window, Hca.add_ofNat]
  rw [List.getElem?_drop, moved, Hca.add_ofNat]
  by_cases inside : count + spot < 32
  · exact holds (count + spot) inside
  · obtain ⟨early, sum⟩ : ∃ early, count + spot = early + 32 :=
      ⟨count + spot - 32, by omega⟩
    obtain ⟨cqe, here⟩ : ∃ cqe, entries[early]? = some cqe :=
      ⟨_, List.getElem?_eq_getElem (by omega)⟩
    obtain ⟨same, published⟩ := holds.get (by omega) here
    rw [List.getElem?_eq_none (by omega), sum, Hca.window_lap, same,
      ← Hca.add_ofNat]
    exact Cqe.not_published_next published

end RingHolds

/-- What a completion queue holds from an index on, once it has been created:
before, it has no ring to be polled. -/
structure Ring (cq : Hca.HardwareCq) (base : UInt32) (entries : List Cqe) :
    Prop where
  used : entries ≠ [] → cq.object.live = true
  shown : cq.live = true → cq.object.live = true
  holds : cq.object.live = true → RingHolds cq.ring base entries

namespace Ring

variable {cq cq' : Hca.HardwareCq} {base : UInt32} {entries : List Cqe}

theorem congr (ring : Ring cq base entries) (object : cq'.object = cq.object)
    (live : cq'.live = true → cq.live = true) (same : cq'.ring = cq.ring) :
    Ring cq' base entries where
  used := fun nonempty => object ▸ ring.used nonempty
  shown := fun shown => object ▸ ring.shown (live shown)
  holds := fun created => by
    rw [same]
    exact ring.holds (object ▸ created)

theorem get (ring : Ring cq base entries) {spot : Nat} {cqe : Cqe}
    (below : spot < 32) (here : entries[spot]? = some cqe) :
    window cq.ring base spot = cqe ∧
      cqe.published (base + UInt32.ofNat spot) = true := by
  refine (ring.holds (ring.used ?_)).get below here
  rintro rfl
  cases here

theorem drop (ring : Ring cq base entries) (few : entries.length ≤ 32)
    {count : Nat} (within : count ≤ entries.length) :
    Ring cq (base + UInt32.ofNat count) (entries.drop count) where
  used := fun nonempty => ring.used fun nothing =>
    nonempty (by rw [nothing, List.drop_nil])
  shown := ring.shown
  holds := fun created => (ring.holds created).drop few within

end Ring

/-! ## The index the process uses -/

theorem slotOf_congr {first second : UInt32}
    (same : first.toNat % 64 = second.toNat % 64) :
    slotOf first = slotOf second := by
  apply Fin.ext
  simp only [slotOf]
  omega

theorem published_congr {first second : UInt32} (cqe : Cqe)
    (same : first.toNat % 64 = second.toNat % 64) :
    cqe.published first = cqe.published second := by
  have lap : (first >>> 5) &&& (1 : UInt32) = (second >>> 5) &&& 1 := by
    rcases Hca.lap_cases first with ⟨one, here⟩ | ⟨one, here⟩ <;>
      rcases Hca.lap_cases second with ⟨two, there⟩ | ⟨two, there⟩
    · rw [one, two]
    · omega
    · omega
    · rw [one, two]
  rw [Cqe.published, Cqe.published, lap]

/-- The low 24 bits. -/
theorem toNat_and_mask (index : UInt32) :
    (index &&& 0xffffff).toNat = index.toNat % 2 ^ 24 := by
  rw [UInt32.toNat_and]
  exact Nat.and_two_pow_sub_one_eq_mod index.toNat 24

/-- The published index names the places and laps of the kernel's own. -/
theorem masked_mod (index : UInt32) (offset : Nat) :
    ((index &&& 0xffffff) + UInt32.ofNat offset).toNat % 64 =
      (index + UInt32.ofNat offset).toNat % 64 := by
  rw [UInt32.toNat_add, UInt32.toNat_add, toNat_and_mask]
  omega

/-- How far the published index moves. -/
theorem masked_sub (index : UInt32) {count : Nat} (few : count < 2 ^ 24) :
    (((index + UInt32.ofNat count) &&& 0xffffff) - (index &&& 0xffffff)) &&&
      0xffffff = UInt32.ofNat count := by
  apply UInt32.toNat_inj.mp
  rw [toNat_and_mask, UInt32.toNat_sub, toNat_and_mask, toNat_and_mask,
    UInt32.toNat_add, UInt32.toNat_ofNat']
  omega

/-- An index and a cursor that move on together. -/
theorem add_sub_ofNat (index : UInt32) (all count : Nat) :
    index + UInt32.ofNat count - UInt32.ofNat (all + count) =
      index - UInt32.ofNat all := by
  apply UInt32.toNat_inj.mp
  rw [UInt32.toNat_sub, UInt32.toNat_sub, UInt32.toNat_add,
    UInt32.toNat_ofNat', UInt32.toNat_ofNat', UInt32.toNat_ofNat']
  omega

/-- A cursor that goes back. -/
theorem sub_ofNat_sub (index : UInt32) {all count : Nat}
    (within : count ≤ all) :
    index - UInt32.ofNat (all - count) =
      index - UInt32.ofNat all + UInt32.ofNat count := by
  apply UInt32.toNat_inj.mp
  rw [UInt32.toNat_sub, UInt32.toNat_add, UInt32.toNat_sub,
    UInt32.toNat_ofNat', UInt32.toNat_ofNat', UInt32.toNat_ofNat']
  omega

/-- What is left after a cursor that goes back. -/
theorem sub_add_ofNat (index : UInt32) {part all : Nat} (within : part ≤ all) :
    index - UInt32.ofNat part + UInt32.ofNat all =
      index + UInt32.ofNat (all - part) := by
  rw [← Nat.sub_add_cancel within, UInt32.ofNat_add, Nat.add_sub_cancel,
    UInt32.add_comm (UInt32.ofNat _), ← UInt32.add_assoc,
    UInt32.sub_add_cancel]

/-- One place further on, one fewer are left. -/
theorem mod_next {base index : UInt32} {done left : Nat}
    (same : (base + UInt32.ofNat done).toNat % 64 =
      (index - UInt32.ofNat (left + 1)).toNat % 64) :
    (base + UInt32.ofNat (done + 1)).toNat % 64 =
      (index - UInt32.ofNat left).toNat % 64 := by
  rw [UInt32.toNat_add, UInt32.toNat_sub, UInt32.toNat_ofNat',
    UInt32.toNat_ofNat'] at same ⊢
  omega

/-- What the process finds in a live ring. -/
theorem cqEntry_eq {h : Device} {c : Nat} (live : (h.cqs c).live = true)
    (index : UInt32) (offset : Nat) :
    cqEntry h c ((index &&& 0xffffff) + UInt32.ofNat offset) =
      if (window (h.cqs c).ring index offset).published
          (index + UInt32.ofNat offset) then
        .ready (window (h.cqs c).ring index offset)
      else .empty := by
  have same := masked_mod index offset
  rw [cqEntry, live, if_neg (by simp), Hca.HardwareCq.entry,
    slotOf_congr same, published_congr _ same]
  rfl

end Mirror
end Mcdma
