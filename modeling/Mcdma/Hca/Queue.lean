import Mcdma.Lib.Slots
import Mathlib.Algebra.Order.Group.Nat

/-!
# Work queues and completion entries

The kernel keeps a record of every request it has posted until the device
reports that very request.  The device reports 16 bits of the producer's
counter, and a slot is not used again before its request has completed.
-/

namespace Mcdma
namespace Hca

/-- The 64 bytes of a completion queue entry. -/
abbrev Cqe := Fin 64 → UInt8

/-- The big-endian number in the four bytes from a place on. -/
def Cqe.be32 (cqe : Cqe) (offset : Fin 61) : UInt32 :=
  ((cqe ⟨offset, by omega⟩).toUInt32 <<< 24) |||
    ((cqe ⟨offset + 1, by omega⟩).toUInt32 <<< 16) |||
    ((cqe ⟨offset + 2, by omega⟩).toUInt32 <<< 8) |||
    (cqe ⟨offset + 3, by omega⟩).toUInt32

/-- The number in the four bytes from a place on, as the host loads it. -/
def Cqe.host32 (cqe : Cqe) (offset : Fin 61) : UInt32 :=
  (cqe ⟨offset, by omega⟩).toUInt32 |||
    ((cqe ⟨offset + 1, by omega⟩).toUInt32 <<< 8) |||
    ((cqe ⟨offset + 2, by omega⟩).toUInt32 <<< 16) |||
    ((cqe ⟨offset + 3, by omega⟩).toUInt32 <<< 24)

/-- The byte with the opcode and the owner bit. -/
def Cqe.owner (cqe : Cqe) : UInt8 := cqe 63

/-- The opcode of an entry. -/
def Cqe.opcode (cqe : Cqe) : UInt8 := cqe.owner >>> 4

/-- Whether the device has published the entry for a ring index: its owner bit
is that of the index's lap, and its opcode is not the invalid one. -/
def Cqe.published (cqe : Cqe) (index : UInt32) : Bool :=
  cqe.opcode != 15 && (cqe.owner &&& 1).toUInt32 == ((index >>> 5) &&& 1)

/-- The queue pair an entry names. -/
def Cqe.qpn (cqe : Cqe) : UInt32 := cqe.be32 56 &&& 0xffffff

/-- The counter of the request an entry completes. -/
def Cqe.counter (cqe : Cqe) : UInt16 :=
  ((cqe 60).toUInt16 <<< 8) ||| (cqe 61).toUInt16

/-- The byte with the syndrome of an error. -/
def Cqe.syndrome (cqe : Cqe) : UInt8 := cqe 55

/-- The byte with the vendor's syndrome of an error. -/
def Cqe.vendorSyndrome (cqe : Cqe) : UInt8 := cqe 54

/-- How many bytes were transferred. -/
def Cqe.byteCount (cqe : Cqe) : UInt32 := cqe.be32 44

/-- The immediate value, in the order it was sent. -/
def Cqe.immediate (cqe : Cqe) : UInt32 := cqe.host32 40

/-- What the kernel reads from an entry. -/
structure Completion where
  qpn : UInt32
  bytes : UInt32
  wqeCounter : UInt16
  opcode : UInt8
  syndrome : UInt8
  vendorSyndrome : UInt8
  immediate : UInt32
  deriving DecidableEq

inductive CqResult where
  | empty
  | success
  | error
  | unsupported
  deriving DecidableEq

/-- The fields of an entry, with the syndromes of an error. -/
def Cqe.fields (cqe : Cqe) (failed : Bool) : Completion where
  qpn := cqe.qpn
  bytes := cqe.be32 44
  wqeCounter := cqe.counter
  opcode := cqe.opcode
  syndrome := if failed then cqe 55 else 0
  vendorSyndrome := if failed then cqe 54 else 0
  immediate := cqe.host32 40

/-- `decode_cqe` for a ring of 32 entries. -/
def decodeCqe (cqe : Cqe) (consumer : UInt32) : CqResult × Completion :=
  if !cqe.published consumer then (.empty, ⟨0, 0, 0, 0, 0, 0, 0⟩)
  else if cqe.opcode == 13 || cqe.opcode == 14 then (.error, cqe.fields true)
  else if cqe.opcode ≤ 4 then (.success, cqe.fields false)
  else (.unsupported, cqe.fields false)

/-- The slot of a 32-bit producer index. -/
def slotOf (producer : UInt32) : Fin 32 :=
  ⟨producer.toNat % 32, Nat.mod_lt _ (by decide)⟩

/-- The slot of a 16-bit counter. -/
def slotOfCounter (counter : UInt16) : Fin 32 :=
  ⟨counter.toNat % 32, Nat.mod_lt _ (by decide)⟩

/-- An outstanding request. -/
structure WorkRecord where
  id : UInt64
  length : UInt32
  lkey : UInt32
  counter : UInt16
  opcode : UInt8
  lkeys : List UInt32
  deriving DecidableEq

/-- The outstanding requests of one side of a queue pair. -/
abbrev WorkQueue := Slots 32 WorkRecord

namespace WorkQueue

/-- Whether the slot of a producer index is free and fewer than 31 requests are
outstanding. -/
def canPost (q : WorkQueue) (producer : UInt32) : Bool :=
  decide (q.pending < 31) && (q.records (slotOf producer)).isNone

/-- The record of a request. -/
def recordOf (producer : UInt32) (id : UInt64) (opcode : UInt8)
    (length : UInt32) (lkeys : List UInt32) : WorkRecord where
  id := id
  length := length
  lkey := lkeys.headD 0
  counter := producer.toUInt16
  opcode := opcode
  lkeys := lkeys

/-- Record a request at a producer index. -/
def post (q : WorkQueue) (producer : UInt32) (id : UInt64) (opcode : UInt8)
    (length : UInt32) (lkeys : List UInt32) : Option WorkQueue :=
  if free : q.canPost producer = true ∧ length ≠ 0 ∧ lkeys ≠ [] ∧
      lkeys.length ≤ 3 ∧ (lkeys.all fun lkey => lkey != 0) = true then
    some (q.put (slotOf producer) (recordOf producer id opcode length lkeys)
      (by simpa using (Bool.and_eq_true_iff.mp free.1).2))
  else none

/-- Take the record of the request with a counter. -/
def complete (q : WorkQueue) (counter : UInt16) :
    Option (WorkRecord × WorkQueue) :=
  q.take (slotOfCounter counter) fun record => record.counter == counter

/-- Forget every request. -/
def removed : WorkQueue := Slots.empty

theorem pending_post {q next : WorkQueue} {producer : UInt32} {id : UInt64}
    {opcode : UInt8} {length : UInt32} {lkeys : List UInt32}
    (posted : q.post producer id opcode length lkeys = some next) :
    next.pending = q.pending + 1 := by
  unfold post at posted
  split at posted
  · cases posted
    rfl
  · cases posted

theorem pending_complete {q rest : WorkQueue} {counter : UInt16}
    {record : WorkRecord} (took : q.complete counter = some (record, rest)) :
    rest.pending + 1 = q.pending :=
  Slots.pending_take took

end WorkQueue

end Hca
end Mcdma
