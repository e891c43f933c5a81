import Mcdma.Hca.Queue

/-!
# The mirror of a work queue

The user library keeps its own record of every request that the kernel has
accepted, so that it can report a completion before the kernel has consumed it.
A record is taken back when the kernel refuses its request.
-/

namespace Mcdma
namespace Mirror

open Hca (slotOf slotOfCounter WorkRecord WorkQueue)

/-- `struct mcdma_user_record` of an occupied slot. -/
structure UserRecord where
  id : UInt64
  length : UInt32
  counter : UInt16
  opcode : UInt8
  deriving DecidableEq

/-- `struct mcdma_user_queue`: the slots count what is pending. -/
structure UserQueue where
  slots : Slots 32 UserRecord
  producer : UInt32

/-- The record of the request at a producer index. -/
def recordAt (producer : UInt32) (id : UInt64) (opcode : UInt8)
    (length : UInt32) : UserRecord where
  id := id
  length := length
  counter := producer.toUInt16
  opcode := opcode

/-- What the mirror keeps of a record of the kernel. -/
def ofWork (work : WorkRecord) : UserRecord where
  id := work.id
  length := work.length
  counter := work.counter
  opcode := work.opcode

namespace UserQueue

/-- `mcdma_user_queue_reset`. -/
def reset : UserQueue := ⟨Slots.empty, 0⟩

/-- `mcdma_user_queue_can_post`. -/
def canPost (q : UserQueue) : Bool :=
  decide (q.slots.pending < 31) &&
    (q.slots.records (slotOf q.producer)).isNone

/-- `mcdma_user_queue_post`. -/
def post (q : UserQueue) (id : UInt64) (opcode : UInt8) (length : UInt32) :
    Option UserQueue :=
  if free : q.canPost = true ∧ length ≠ 0 then
    some {
      slots := q.slots.put (slotOf q.producer)
        (recordAt q.producer id opcode length)
        (by simpa using (Bool.and_eq_true_iff.mp free.1).2)
      producer := q.producer + 1 }
  else none

/-- One round of the loop of `mcdma_user_queue_rollback`, or its end. -/
def unpost (q : UserQueue) : Option UserQueue :=
  if q.producer = 0 then none
  else
    (q.slots.take (slotOf (q.producer - 1)) fun record =>
      record.counter == (q.producer - 1).toUInt16).map fun taken =>
        ⟨taken.2, q.producer - 1⟩

/-- `mcdma_user_queue_rollback`. -/
def rollback (q : UserQueue) : Nat → UserQueue
  | 0 => q
  | count + 1 =>
      match q.unpost with
      | none => q
      | some q => q.rollback count

/-- `mcdma_user_queue_complete`. -/
def complete (q : UserQueue) (counter : UInt16) :
    Option (UserRecord × UserQueue) :=
  (q.slots.take (slotOfCounter counter) fun record =>
    record.counter == counter).map fun taken =>
      (taken.1, { q with slots := taken.2 })

@[ext] theorem ext {first second : UserQueue}
    (records : first.slots.records = second.slots.records)
    (producer : first.producer = second.producer) : first = second := by
  obtain ⟨slots, index⟩ := first
  obtain ⟨slots', index'⟩ := second
  cases producer
  have same : slots = slots' := Slots.ext records
  rw [same]

theorem post_eq_some_iff {q next : UserQueue} {id : UInt64} {opcode : UInt8}
    {length : UInt32} :
    q.post id opcode length = some next ↔
      q.canPost = true ∧ length ≠ 0 ∧ next.producer = q.producer + 1 ∧
        next.slots.records = Function.update q.slots.records
          (slotOf q.producer)
          (some (recordAt q.producer id opcode length)) := by
  unfold post
  split
  · next free =>
      rw [Option.some.injEq]
      constructor
      · rintro rfl
        exact ⟨free.1, free.2, rfl, rfl⟩
      · rintro ⟨-, -, producer, records⟩
        exact ext records.symm producer.symm
  · next full =>
      constructor
      · rintro ⟨⟩
      · rintro ⟨can, nonzero, -, -⟩
        exact absurd ⟨can, nonzero⟩ full

/-- A request that was recorded is taken back, unless the producer index has
just wrapped. -/
theorem unpost_post {q next : UserQueue} {id : UInt64} {opcode : UInt8}
    {length : UInt32} (posted : q.post id opcode length = some next)
    (inside : next.producer ≠ 0) : next.unpost = some q := by
  obtain ⟨can, -, producer, records⟩ := post_eq_some_iff.mp posted
  have free : q.slots.records (slotOf q.producer) = none := by
    simpa using (Bool.and_eq_true_iff.mp can).2
  have back : next.producer - 1 = q.producer := by
    rw [producer]
    exact UInt32.add_sub_cancel _ _
  unfold unpost
  rw [if_neg inside, back, Option.map_eq_some_iff]
  have taken : next.slots.take (slotOf q.producer)
      (fun record => record.counter == q.producer.toUInt16) =
      some (recordAt q.producer id opcode length, q.slots) := by
    rw [Slots.take_eq_some_iff, records]
    refine ⟨Function.update_self _ _ _, by simp [recordAt], ?_⟩
    rw [Function.update_idem, ← free, Function.update_eq_self]
  exact ⟨_, taken, rfl⟩

theorem complete_eq_some_iff {q rest : UserQueue} {counter : UInt16}
    {record : UserRecord} :
    q.complete counter = some (record, rest) ↔
      q.slots.records (slotOfCounter counter) = some record ∧
        record.counter = counter ∧ rest.producer = q.producer ∧
        rest.slots.records = Function.update q.slots.records
          (slotOfCounter counter) none := by
  unfold complete
  rw [Option.map_eq_some_iff]
  constructor
  · rintro ⟨⟨found, slots⟩, took, same⟩
    simp only [Prod.mk.injEq] at same
    obtain ⟨rfl, rfl⟩ := same
    obtain ⟨held, passes, cleared⟩ := Slots.take_eq_some_iff.mp took
    exact ⟨held, by simpa using passes, rfl, cleared⟩
  · rintro ⟨held, same, producer, cleared⟩
    refine ⟨(record, rest.slots), ?_, ?_⟩
    · exact Slots.take_eq_some_iff.mpr ⟨held, by simpa using same, cleared⟩
    · rw [← producer]

theorem complete_eq_none_iff {q : UserQueue} {counter : UInt16} :
    q.complete counter = none ↔
      ∀ record, q.slots.records (slotOfCounter counter) = some record →
        record.counter ≠ counter := by
  unfold complete
  rw [Option.map_eq_none_iff, Slots.take_eq_none_iff]
  simp

end UserQueue

end Mirror
end Mcdma
