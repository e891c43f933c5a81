import Mcdma.Lib.Patch

/-!
# A window of a memory

Stores that stay inside a window change nothing outside it, and what they leave
in the window depends on its start only by a shift.  Both are said at once: the
memory afterwards shows an image in the window and is the one before elsewhere.
-/

namespace Mem

/-- A memory is another one with an image in the window from `base` on. -/
def Shows (image : Mem) (base size : Nat) (before after : Mem) : Prop :=
  ∀ address, after address =
    if base ≤ address ∧ address < base + size then image (address - base)
    else before address

variable {image before after : Mem} {base size : Nat}

theorem Shows.inside (shown : Shows image base size before after) {off : Nat}
    (below : off < size) : after (base + off) = image off := by
  rw [shown, if_pos (by omega), Nat.add_sub_cancel_left]

theorem Shows.outside (shown : Shows image base size before after)
    {address : Nat} (free : ¬(base ≤ address ∧ address < base + size)) :
    after address = before address := by
  rw [shown, if_neg free]

theorem Shows.read (shown : Shows image base size before after)
    {off length : Nat} (within : off + length ≤ size) :
    after.read (base + off) length = image.read off length := by
  simp only [Mem.read]
  refine List.map_congr_left fun index listed => ?_
  rw [List.mem_range] at listed
  rw [Nat.add_assoc, shown.inside (by omega)]

/-- A store inside the window shows in the image. -/
theorem Shows.apply (shown : Shows image base size before after)
    {off : Nat} {bytes : List UInt8} (within : off + bytes.length ≤ size) :
    Shows (Patch.apply image ⟨off, bytes⟩) base size before
      (Patch.apply after ⟨base + off, bytes⟩) := by
  intro address
  by_cases covered : base + off ≤ address ∧
      address < base + off + bytes.length
  · have inside : base ≤ address ∧ address < base + size := by omega
    have there : (⟨base + off, bytes⟩ : Patch).Covers address := covered
    have shifted : (⟨off, bytes⟩ : Patch).Covers (address - base) := by
      simp only [Patch.Covers, Patch.stop]
      omega
    rw [Patch.apply_of_covers there, if_pos inside,
      Patch.apply_of_covers shifted]
    simp only [Nat.sub_add_eq]
  · have elsewhere : ¬(⟨base + off, bytes⟩ : Patch).Covers address := covered
    rw [Patch.apply_of_not_covers elsewhere, shown]
    by_cases inside : base ≤ address ∧ address < base + size
    · have shifted : ¬(⟨off, bytes⟩ : Patch).Covers (address - base) := by
        simp only [Patch.Covers, Patch.stop]
        omega
      rw [if_pos inside, if_pos inside, Patch.apply_of_not_covers shifted]
    · rw [if_neg inside, if_neg inside]

/-- A store of the whole window shows its bytes. -/
theorem shows_fill (memory : Mem) (base size : Nat) (byte : UInt8) :
    Shows (fun _ => byte) base size memory
      (Patch.apply memory ⟨base, List.replicate size byte⟩) := by
  intro address
  by_cases inside : base ≤ address ∧ address < base + size
  · have there : (⟨base, List.replicate size byte⟩ : Patch).Covers address := by
      simpa [Patch.Covers, Patch.stop] using inside
    have below : address - base < size := by omega
    rw [Patch.apply_of_covers there, if_pos inside]
    exact List.getD_replicate byte below
  · have free : ¬(⟨base, List.replicate size byte⟩ : Patch).Covers address := by
      simpa [Patch.Covers, Patch.stop] using inside
    rw [Patch.apply_of_not_covers free, if_neg inside]

end Mem
