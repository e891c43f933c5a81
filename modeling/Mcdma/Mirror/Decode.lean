import Mcdma.Hca.State
import Mcdma.Mirror.Queue

/-!
# One completion, decoded twice

The user library decodes a completion entry from its mirror of the requests;
the kernel decodes the same entry from its own records when it consumes it.  The
library compares the two afterwards.
-/

namespace Mcdma
namespace Mirror

open Hca (Cqe Device Completion CqResult WorkRecord Polled slotOfCounter)

/-! ## The user library -/

/-- `struct mcdma_qp`, as far as completions need it. -/
structure UserQp where
  num : UInt32
  sendCq : Nat
  recvCq : Nat
  sends : UserQueue
  receives : UserQueue
  userPosted : Bool
  kernelDestroyed : Bool

/-- The completion queue of one side of a queue pair. -/
def UserQp.cqOf (qp : UserQp) (send : Bool) : Nat :=
  if send then qp.sendCq else qp.recvCq

/-- The requests of one side of a queue pair. -/
def UserQp.side (qp : UserQp) (send : Bool) : UserQueue :=
  if send then qp.sends else qp.receives

/-- The queue pair with the requests of one side replaced. -/
def UserQp.withSide (qp : UserQp) (send : Bool) (queue : UserQueue) : UserQp :=
  if send then { qp with sends := queue } else { qp with receives := queue }

/-- The queue pairs of `struct mcdma_context`, in the order of its table. -/
structure Context where
  table : List Nat
  qps : Nat → UserQp

namespace Context

/-- `lookup_qp`. -/
def lookupQp (mc : Context) (qpn : UInt32) : Option Nat :=
  mc.table.find? fun q =>
    !(mc.qps q).kernelDestroyed && (mc.qps q).num == qpn

/-- The context with one side of a queue pair replaced. -/
def setSide (mc : Context) (q : Nat) (send : Bool) (queue : UserQueue) :
    Context :=
  { mc with qps := Function.update mc.qps q ((mc.qps q).withSide send queue) }

@[simp] theorem table_setSide (mc : Context) (q : Nat) (send : Bool)
    (queue : UserQueue) : (mc.setSide q send queue).table = mc.table := rfl

@[simp] theorem qps_setSide (mc : Context) (q : Nat) (send : Bool)
    (queue : UserQueue) : (mc.setSide q send queue).qps =
      Function.update mc.qps q ((mc.qps q).withSide send queue) := rfl

end Context

/-- `struct mcdma_user_completion`. -/
structure UserCompletion where
  id : UInt64
  status : UInt32
  opcode : UInt32
  vendor : UInt32
  bytes : UInt32
  qpn : UInt32
  counter : UInt16
  user : Bool
  flags : UInt32
  immediate : UInt32
  deriving DecidableEq

/-- `mcdma_user_status`. -/
def userStatus (syndrome : UInt8) : UInt32 :=
  if syndrome = 0x01 then 1 else if syndrome = 0x02 then 2
  else if syndrome = 0x04 then 4 else if syndrome = 0x05 then 5
  else if syndrome = 0x06 then 6 else if syndrome = 0x10 then 7
  else if syndrome = 0x11 then 8 else if syndrome = 0x12 then 9
  else if syndrome = 0x13 then 10 else if syndrome = 0x14 then 11
  else if syndrome = 0x15 then 12 else if syndrome = 0x16 then 13
  else if syndrome = 0x22 then 16 else 21

/-- Whether an entry is of the send side. -/
def sendSide (cqe : Cqe) : Bool := cqe.opcode == 0 || cqe.opcode == 13

/-- Whether an entry's opcode is one that can be decoded. -/
def decodable (cqe : Cqe) : Bool :=
  decide (cqe.opcode ≤ 4) || cqe.opcode == 13 || cqe.opcode == 14

/-- The public opcode of a completion. -/
def publicOpcode (cqe : Cqe) (record : UserRecord) : UInt32 :=
  if sendSide cqe then
    if record.opcode = 0x08 ∨ record.opcode = 0x09 then 1
    else if record.opcode = 0x10 then 2 else 0
  else if cqe.opcode = 1 then 129 else 128

/-- What `mcdma_user_decode` puts together from an entry and its record. -/
def completionOf (cqe : Cqe) (record : UserRecord) (user : Bool) :
    UserCompletion :=
  let send := sendSide cqe
  let withImmediate := !send && (cqe.opcode == 1 || cqe.opcode == 3)
  let out : UserCompletion := {
    id := record.id
    status := 0
    opcode := publicOpcode cqe record
    vendor := 0
    bytes := 0
    qpn := cqe.qpn
    counter := cqe.counter
    user := user
    flags := 0
    immediate := 0 }
  if cqe.opcode = 13 ∨ cqe.opcode = 14 then
    { out with
      status := userStatus cqe.syndrome
      vendor := (cqe.vendorSyndrome.toUInt32 <<< 8) |||
        cqe.syndrome.toUInt32 }
  else if send = false ∧ cqe.opcode ≠ 2 ∧ withImmediate = false then
    { out with status := 21, vendor := cqe.opcode.toUInt32 }
  else if send = false then
    let bytes := cqe.byteCount
    if cqe.opcode ≠ 1 ∧ record.length < bytes then { out with status := 1 }
    else if withImmediate then
      { out with bytes := bytes, flags := 2, immediate := cqe.immediate }
    else { out with bytes := bytes }
  else if record.opcode = 0x10 then { out with bytes := record.length }
  else out

/-- `mcdma_user_decode`: the completion, and the context without its record. -/
def userDecode (mc : Context) (cqe : Cqe) : Option (UserCompletion × Context) :=
  if decodable cqe = false then none
  else
    (mc.lookupQp cqe.qpn).bind fun q =>
      let qp := mc.qps q
      ((qp.side (sendSide cqe)).complete cqe.counter).map fun taken =>
        (completionOf cqe taken.1 qp.userPosted,
          mc.setSide q (sendSide cqe) taken.2)

/-! ## The kernel -/

/-- A completion as the kernel hands it to a process. -/
structure Wc where
  id : UInt64
  status : UInt32
  opcode : UInt32
  vendor : UInt32
  bytes : UInt32
  qpn : UInt32
  flags : UInt32
  immediate : UInt32
  deriving DecidableEq

/-- `completion_status`. -/
def completionStatus (syndrome : UInt8) : UInt32 :=
  if syndrome = 0x01 then 1 else if syndrome = 0x02 then 2
  else if syndrome = 0x04 then 4 else if syndrome = 0x05 then 5
  else if syndrome = 0x06 then 6 else if syndrome = 0x10 then 7
  else if syndrome = 0x11 then 8 else if syndrome = 0x12 then 9
  else if syndrome = 0x13 then 10 else if syndrome = 0x14 then 11
  else if syndrome = 0x15 then 12 else if syndrome = 0x16 then 13
  else if syndrome = 0x22 then 16 else 21

/-- What `apple_poll_cq` makes of one polled entry; the queue pair's number
stands for its core object. -/
def wcOf (polled : Polled) : Wc :=
  let hardware := polled.completion
  let work := polled.work
  let receive := hardware.opcode ≠ 0 ∧ hardware.opcode ≠ 13
  let withImmediate := receive ∧ (hardware.opcode = 1 ∨ hardware.opcode = 3)
  let out : Wc := {
    id := work.id
    status := 0
    opcode :=
      if receive then if hardware.opcode = 1 then 129 else 128
      else if polled.user then 0
      else if work.opcode = Verbs.wqeWrite ∨ work.opcode = Verbs.wqeWriteImm
        then 1
      else if work.opcode = Verbs.wqeRead then 2 else 0
    vendor := 0
    bytes := 0
    qpn := hardware.qpn
    flags := 0
    immediate := 0 }
  if polled.result = .error then
    { out with
      status := completionStatus hardware.syndrome
      vendor := (hardware.vendorSyndrome.toUInt32 <<< 8) |||
        hardware.syndrome.toUInt32 }
  else if receive ∧ hardware.opcode ≠ 2 ∧ ¬withImmediate then
    { out with status := 21, vendor := hardware.opcode.toUInt32 }
  else if receive ∧ polled.user = false ∧ hardware.opcode ≠ 1 ∧
      work.length < hardware.bytes then
    { out with status := 1 }
  else if receive then
    if withImmediate then
      { out with
        bytes := hardware.bytes
        immediate := hardware.immediate
        flags := 2 }
    else { out with bytes := hardware.bytes }
  else if polled.user = false ∧ work.opcode = Verbs.wqeRead then
    { out with bytes := work.length }
  else out

/-- One round of the loop of `apple_poll_cq`: an error, or the completion it
adds, if it adds one. -/
def pollOne (h : Device) (c : Nat) : Except Unit (Option Wc) × Device :=
  let polled := (h.poll c).1
  let after := (h.poll c).2
  if polled.result = .empty then (.ok none, after)
  else if polled.result = .unsupported then (.error (), after)
  else
    match polled.context with
    | none => (.error (), after.quarantine)
    | some _ => (.ok (some (wcOf polled)), after)

/-- The loop of `apple_poll_cq`, which fails only before the first completion. -/
def pollLoop (h : Device) (c : Nat) :
    Nat → List Wc → Except Unit (List Wc) × Device
  | 0, out => (.ok out, h)
  | left + 1, out =>
      match pollOne h c with
      | (.ok none, h) => (.ok out, h)
      | (.error _, h) => (if out = [] then .error () else .ok out, h)
      | (.ok (some wc), h) => pollLoop h c left (out ++ [wc])

/-- `apple_poll_cq`. -/
def pollCq (h : Device) (c maximum : Nat) :
    Except Unit (List Wc) × Device :=
  pollLoop h c maximum []

/-! ## The comparison -/

/-- `publish`. -/
def publish (completion : UserCompletion) : Wc where
  id := completion.id
  status := completion.status
  opcode := completion.opcode
  vendor := completion.vendor
  bytes := completion.bytes
  qpn := completion.qpn
  flags := completion.flags
  immediate := completion.immediate

/-- Whether two completions that did not fail carry the same immediate. -/
def sameImmediate (wc : Wc) (completion : UserCompletion) : Bool :=
  completion.status != 0 ||
    (wc.flags == completion.flags &&
      (completion.flags == 0 || wc.immediate == completion.immediate))

/-- `same`. -/
def same (wc : Wc) (completion : UserCompletion) : Bool :=
  if completion.user then
    wc.id == completion.counter.toUInt64 &&
      (wc.opcode &&& 128) == (completion.opcode &&& 128) &&
      (if wc.status == 0 then decide (completion.status ≤ 1)
        else wc.status == completion.status) &&
      sameImmediate wc completion
  else
    wc.id == completion.id && wc.status == completion.status &&
      wc.opcode == completion.opcode && wc.bytes == completion.bytes &&
      sameImmediate wc completion

/-! ## They agree -/

section

variable {cqe : Cqe} {record : UserRecord} {work : WorkRecord}
  {context : Option Nat}

/-- The opcodes that can be decoded. -/
theorem decodable_cases (can : decodable cqe = true) :
    cqe.opcode = 0 ∨ cqe.opcode = 1 ∨ cqe.opcode = 2 ∨ cqe.opcode = 3 ∨
      cqe.opcode = 4 ∨ cqe.opcode = 13 ∨ cqe.opcode = 14 := by
  simp only [decodable, Bool.or_eq_true, decide_eq_true_eq,
    beq_iff_eq] at can
  rcases can with (low | same) | same
  · have bound : cqe.opcode.toNat ≤ 4 := low
    simp only [← UInt8.toNat_inj]
    have zero : (0 : UInt8).toNat = 0 := rfl
    have one : (1 : UInt8).toNat = 1 := rfl
    have two : (2 : UInt8).toNat = 2 := rfl
    have three : (3 : UInt8).toNat = 3 := rfl
    have four : (4 : UInt8).toNat = 4 := rfl
    omega
  · simp [same]
  · simp [same]

/-- What the kernel polls from an entry, given the request it found. -/
def polledOf (cqe : Cqe) (work : WorkRecord) (context : Option Nat)
    (user : Bool) : Polled :=
  let failed := cqe.opcode == 13 || cqe.opcode == 14
  ⟨if failed then .error else .success, cqe.fields failed, work, context,
    user⟩

/-- The kernel reads the same bytes of an entry. -/
theorem fields_eq (failed : Bool) :
    cqe.fields failed =
      ⟨cqe.qpn, cqe.byteCount, cqe.counter, cqe.opcode,
        if failed then cqe.syndrome else 0,
        if failed then cqe.vendorSyndrome else 0, cqe.immediate⟩ := rfl

/-- The two tables of statuses are one. -/
theorem completionStatus_eq (syndrome : UInt8) :
    completionStatus syndrome = userStatus syndrome := rfl

/-- For a request that the kernel has recorded, both sides put together the
same completion. -/
theorem publish_completionOf (can : decodable cqe = true) :
    publish (completionOf cqe (ofWork work) false) =
      wcOf (polledOf cqe work context false) := by
  rcases decodable_cases can with is | is | is | is | is | is | is
  all_goals
    simp only [polledOf, wcOf, publish, completionOf, publicOpcode, sendSide,
      fields_eq, ofWork, Verbs.wqeWrite, Verbs.wqeWriteImm, Verbs.wqeRead, is,
      completionStatus_eq]
    simp
  -- what is left compares a received length or asks for a read
  all_goals
    by_cases read : work.opcode = 16 <;> split <;> simp_all

/-- A completion is the same as what is published of it. -/
theorem same_publish {completion : UserCompletion}
    (recorded : completion.user = false) :
    same (publish completion) completion = true := by
  simp [same, sameImmediate, publish, recorded]

section

variable (cqe : Cqe) (record : UserRecord) (user : Bool)

theorem completionOf_opcode :
    (completionOf cqe record user).opcode = publicOpcode cqe record := by
  dsimp only [completionOf]
  split_ifs <;> rfl

theorem completionOf_counter :
    (completionOf cqe record user).counter = cqe.counter := by
  dsimp only [completionOf]
  split_ifs <;> rfl

theorem completionOf_user : (completionOf cqe record user).user = user := by
  dsimp only [completionOf]
  split_ifs <;> rfl

/-- The top bit of a public opcode tells the receive side. -/
theorem publicOpcode_and :
    publicOpcode cqe record &&& 128 = if sendSide cqe then 0 else 128 := by
  unfold publicOpcode
  split_ifs <;> rfl

end

theorem wcOf_id (polled : Polled) : (wcOf polled).id = polled.work.id := by
  dsimp only [wcOf]
  split_ifs <;> rfl

private theorem status_le (status : UInt32) : ¬status = 0 ∨ status ≤ 1 := by
  by_cases zero : status = 0
  · exact .inr (by simp [zero])
  · exact .inl zero

/-- For a user-posted queue pair the kernel knows the counter only, and the two
still compare as the same. -/
theorem same_unrecorded (can : decodable cqe = true) (record : UserRecord)
    (failed : Bool) :
    same (wcOf (polledOf cqe (cqe.fields failed).unrecorded context true))
      (completionOf cqe record true) = true := by
  unfold same
  rw [completionOf_user, if_pos rfl, wcOf_id, completionOf_counter,
    completionOf_opcode, publicOpcode_and]
  rcases decodable_cases can with is | is | is | is | is | is | is
  all_goals
    simp only [polledOf, wcOf, sameImmediate, completionOf, sendSide,
      fields_eq, Completion.unrecorded, is, completionStatus_eq]
    simp
  case inr.inl => decide
  case inr.inr.inr.inr.inr.inl => exact status_le _
  case inr.inr.inr.inr.inr.inr => exact status_le _
  all_goals
    split_ifs <;> simp_all

end

end Mirror
end Mcdma
