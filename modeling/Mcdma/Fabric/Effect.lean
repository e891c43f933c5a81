import Mcdma.Fabric.Invariant

/-!
# The effect of one message on the bond

What taking a message changes at the receiver, in the terms of the invariant: at
most one write is counted, at most one signal joins the reorder queue, and
signals leave the queue only by being published.
-/

namespace Mcdma
namespace Fabric

open Link

/-- What the record of a carried signal looks like in the queue. -/
def wideNeed (links : Nat) (bond : Bond) (carried : Carried) : Nat → Nat :=
  fun lane =>
    if lane < bond.bonded then
      widen (bond.placed lane) (lowCounts links carried.need lane)
    else 0

/-- The change a message makes to the bond. -/
structure Effect (links lane : Nat) (post : Post) (before after : Bond) :
    Prop where
  placed : after.placed = if post.brings then
      Function.update before.placed lane (before.placed lane + 1)
    else before.placed
  bonded : after.bonded = before.bonded
  winLength : after.winLength = before.winLength
  tailPut : after.tailPut = before.tailPut
  tailGot : after.tailGot = before.tailGot
  rxSignal : before.rxSignal ≤ after.rxSignal
  kept : ∀ slot, (after.pending slot).seq ≠ 0 →
    after.pending slot = before.pending slot ∨
      ∃ carried, post.carried? = some carried ∧
        (after.pending slot).seq = carried.sig ∧
        (after.pending slot).need = wideNeed links after carried
  passed : ∀ slot, (before.pending slot).seq ≠ 0 →
    (after.pending slot).seq = (before.pending slot).seq ∨
      (before.pending slot).seq < after.rxSignal
  joined : ∀ carried, post.carried? = some carried →
    (after.pending (carried.sig % bondSignals)).seq = carried.sig ∨
      carried.sig < after.rxSignal
  published : ∀ sig, before.rxSignal ≤ sig → sig < after.rxSignal →
    (∃ slot < bondSignals, (before.pending slot).seq = sig) ∨
      ∃ carried, post.carried? = some carried ∧ carried.sig = sig

section

variable {links lane : Nat} {post : Post} {bond : Bond}

/-- The change made by the copy alone. -/
theorem drains_afterCopy (lane : Nat) (post : Post)
    (pos : 0 < bond.rxSignal) :
    ∃ counted : Bond, Bond.Drains counted (afterCopy lane post bond).1 ∧
      counted.pending = bond.pending ∧ counted.rxSignal = bond.rxSignal ∧
      counted.bonded = bond.bonded ∧ counted.winLength = bond.winLength ∧
      counted.tailPut = bond.tailPut ∧ counted.tailGot = bond.tailGot ∧
      counted.down = bond.down ∧
      counted.placed = if post.brings then
          Function.update bond.placed lane (bond.placed lane + 1)
        else bond.placed := by
  unfold afterCopy
  by_cases brings : post.brings = true
  · obtain ⟨store, copied⟩ := Post.exists_copied? lane brings
    rw [copied]
    refine ⟨bond.place lane (bond.placed lane + 1),
      Bond.drains_bondPlaced pos lane _, rfl, rfl, rfl, rfl, rfl, rfl, rfl, ?_⟩
    rw [if_pos brings]
    rfl
  · have silent := Post.copied?_none lane (by simpa using brings)
    rw [silent]
    exact ⟨bond, Bond.Drains.refl bond, rfl, rfl, rfl, rfl, rfl, rfl, rfl,
      by rw [if_neg brings]⟩

/-- A message whose signal is not refused has the described effect. -/
theorem effect_afterPost (pos : 0 < bond.rxSignal)
    (sigPos : ∀ carried, post.carried? = some carried → carried.sig ≠ 0)
    (handed : ∀ carried, post.carried? = some carried →
      ¬(afterCopy lane post bond).1.Refuses carried.sig carried.off) :
    Effect links lane post bond (afterPost links lane post bond).1 := by
  obtain ⟨counted, copied, pending, rxSignal, bonded, winLength, tailPut,
    tailGot, -, placed⟩ := drains_afterCopy lane post pos
  have copiedPos : 0 < (afterCopy lane post bond).1.rxSignal := by
    have grown := copied.rxSignal
    omega
  unfold afterPost
  cases has : post.carried? with
  | none =>
      exact {
        placed := copied.placed.trans placed
        bonded := copied.bonded.trans bonded
        winLength := copied.winLength.trans winLength
        tailPut := copied.tailPut.trans tailPut
        tailGot := copied.tailGot.trans tailGot
        rxSignal := rxSignal ▸ copied.rxSignal
        kept := fun slot occupied =>
          Or.inl ((copied.kept slot occupied).trans (by rw [pending]))
        passed := by
          intro slot occupied
          rw [← pending] at occupied ⊢
          exact copied.passed slot occupied
        joined := by simp [has]
        published := by
          intro sig above below
          rw [← rxSignal] at above
          obtain ⟨slot, inQueue, seq⟩ := copied.published sig above below
          exact Or.inl ⟨slot, inQueue, by rw [← pending]; exact seq⟩ }
  | some carried =>
      have queued := handed carried has
      simp only [Bond.bondSignal, if_neg queued]
      set middle := (afterCopy lane post bond).1 with middleDef
      set filled := middle.enqueue carried.sig
        (lowCounts links carried.need) carried.off carried.value with filledDef
      have drains : Bond.Drains filled filled.drain.1 :=
        Bond.drains_drain copiedPos
      have here : filled.pending (carried.sig % bondSignals) =
          { seq := carried.sig
            need := fun lane =>
              if lane < middle.bonded then
                widen (middle.placed lane) (lowCounts links carried.need lane)
              else 0
            off := carried.off
            value := carried.value } := by
        simp [filledDef, Bond.enqueue]
      have elsewhere : ∀ slot, slot ≠ carried.sig % bondSignals →
          filled.pending slot = middle.pending slot := by
        intro slot other
        simp [filledDef, Bond.enqueue, other]
      have free : (middle.pending (carried.sig % bondSignals)).seq = 0 := by
        by_contra taken
        exact queued (by simp [Bond.Refuses, taken])
      exact {
        placed := drains.placed.trans (copied.placed.trans placed)
        bonded := drains.bonded.trans (copied.bonded.trans bonded)
        winLength := drains.winLength.trans (copied.winLength.trans winLength)
        tailPut := drains.tailPut.trans (copied.tailPut.trans tailPut)
        tailGot := drains.tailGot.trans (copied.tailGot.trans tailGot)
        rxSignal := le_trans (rxSignal ▸ copied.rxSignal) drains.rxSignal
        kept := by
          intro slot occupied
          have same := drains.kept slot occupied
          by_cases own : slot = carried.sig % bondSignals
          · subst own
            right
            refine ⟨carried, has, by rw [same, here], ?_⟩
            rw [same, here]
            unfold wideNeed
            rw [drains.bonded, drains.placed]
            rfl
          · left
            rw [same, elsewhere slot own] at occupied ⊢
            exact (copied.kept slot occupied).trans (by rw [pending])
        passed := by
          intro slot occupied
          rw [← pending] at occupied ⊢
          rcases copied.passed slot occupied with same | earlier
          · by_cases own : slot = carried.sig % bondSignals
            · subst own
              rw [free] at same
              exact absurd same.symm occupied
            · have held : (filled.pending slot).seq ≠ 0 := by
                rw [elsewhere slot own, same]
                exact occupied
              have passed := drains.passed slot held
              rw [elsewhere slot own, same] at passed
              exact passed
          · exact Or.inr (lt_of_lt_of_le earlier drains.rxSignal)
        joined := by
          intro other same
          obtain rfl := Option.some.inj (has.symm.trans same)
          have held : (filled.pending (carried.sig % bondSignals)).seq ≠ 0 := by
            rw [here]
            exact sigPos carried has
          have passed := drains.passed _ held
          rw [here] at passed
          exact passed
        published := by
          intro sig above below
          rcases Nat.lt_or_ge sig middle.rxSignal with early | late
          · rw [← rxSignal] at above
            obtain ⟨slot, inQueue, seq⟩ := copied.published sig above early
            exact Or.inl ⟨slot, inQueue, by rw [← pending]; exact seq⟩
          · obtain ⟨slot, inQueue, seq⟩ := drains.published sig late below
            by_cases own : slot = carried.sig % bondSignals
            · subst own
              rw [here] at seq
              exact Or.inr ⟨carried, has, seq⟩
            · rw [elsewhere slot own] at seq
              have occupied : (middle.pending slot).seq ≠ 0 := by
                rw [seq]
                omega
              rw [copied.kept slot occupied, pending] at seq
              exact Or.inl ⟨slot, inQueue, seq⟩ }

end

end Fabric
end Mcdma
