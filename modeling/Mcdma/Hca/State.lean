import Mcdma.Hca.Index
import Mcdma.Hca.Queue
import Mcdma.Verbs.Encode

/-!
# The kernel's device state

Completion queues, queue pairs, the list and the index of queue pairs, and the
operations on them.  A command to the firmware is refused, lost or done; after
one that was lost the transport is quarantined.  Memory that is allocated or
released is a flag here, and the places of the queue structures are numbers.
-/

namespace Mcdma
namespace Hca

/-- A firmware object's number, while it lives. -/
structure Object where
  id : UInt32
  live : Bool
  deriving DecidableEq

/-- A completion queue: its ring, the word that tells userspace it is live, and
the kernel's counts. -/
structure HardwareCq where
  object : Object
  buffer : Bool
  ring : Fin 32 → Cqe
  live : Bool
  consumer : UInt32
  references : Nat
  outstanding : Nat
  userMode : Bool

/-- A queue pair, its page of work queues and its outstanding requests. -/
structure HardwareQp where
  object : Object
  buffer : Bool
  page : Mem
  sendCq : Nat
  recvCq : Nat
  pd : UInt32
  state : Nat
  producer : UInt32
  recvProducer : UInt32
  sends : WorkQueue
  receives : WorkQueue
  clientContext : Option Nat
  userPosted : Bool

/-- How a firmware command ends: refused, without a certain answer, or done
with its output word. -/
inductive Reply where
  | refused
  | lost
  | done (output : UInt32)
  deriving DecidableEq

/-- The structures of one device, by their places in memory. -/
structure Device where
  cqs : Nat → HardwareCq
  qps : Nat → HardwareQp
  list : List Nat
  index : PointerIndex 8 Nat
  eqLive : Bool
  userQueues : Bool
  uar : UInt32
  quarantined : Bool
  detached : Bool
  inactive : Bool
  resources : Nat

/-- A queue structure as it is declared. -/
def HardwareCq.init : HardwareCq where
  object := ⟨0, false⟩
  buffer := false
  ring := fun _ _ => 0
  live := false
  consumer := 0
  references := 0
  outstanding := 0
  userMode := false

/-- A queue pair structure as it is declared. -/
def HardwareQp.init : HardwareQp where
  object := ⟨0, false⟩
  buffer := false
  page := fun _ => 0
  sendCq := 0
  recvCq := 0
  pd := 0
  state := 0
  producer := 0
  recvProducer := 0
  sends := Slots.empty
  receives := Slots.empty
  clientContext := none
  userPosted := false

namespace HardwareCq

/-- The entry at a ring index. -/
def entry (cq : HardwareCq) (index : UInt32) : Cqe :=
  cq.ring (slotOf index)

/-- The ring before the device has written to it. -/
def blank : Fin 32 → Cqe := fun _ byte => if byte.val = 63 then 0xf1 else 0

/-- The queue with its consumer index moved on. -/
def consume (cq : HardwareCq) (count : UInt32) : HardwareCq :=
  { cq with consumer := cq.consumer + count }

end HardwareCq

namespace HardwareQp

/-- The roles of a queue pair on a completion queue. -/
def roles (qp : HardwareQp) (c : Nat) : Nat :=
  (if qp.sendCq = c then 1 else 0) + (if qp.recvCq = c then 1 else 0)

/-- Its outstanding requests that complete there. -/
def load (qp : HardwareQp) (c : Nat) : Nat :=
  (if qp.sendCq = c then qp.sends.pending else 0) +
    (if qp.recvCq = c then qp.receives.pending else 0)

/-- The queue pair with its requests forgotten and its page cleared. -/
def cleared (qp : HardwareQp) : HardwareQp :=
  { qp with
    page := fun _ => 0
    state := 0
    producer := 0
    recvProducer := 0
    sends := WorkQueue.removed
    receives := WorkQueue.removed }

end HardwareQp

namespace Device

/-- No queue is there yet. -/
def init (userQueues : Bool) (uar : UInt32) : Device where
  cqs := fun _ => HardwareCq.init
  qps := fun _ => HardwareQp.init
  list := []
  index := PointerIndex.empty
  eqLive := true
  userQueues := userQueues
  uar := uar
  quarantined := false
  detached := false
  inactive := false
  resources := 0

variable (h : Device)

/-- `Transport::ready` of an open transport. -/
def ready : Bool := !h.quarantined && !h.inactive

def setCq (c : Nat) (cq : HardwareCq) : Device :=
  { h with cqs := Function.update h.cqs c cq }

def setQp (q : Nat) (qp : HardwareQp) : Device :=
  { h with qps := Function.update h.qps q qp }

def quarantine : Device := { h with quarantined := true }

@[simp] theorem cqs_setCq (c : Nat) (cq : HardwareCq) :
    (h.setCq c cq).cqs = Function.update h.cqs c cq := rfl

@[simp] theorem qps_setCq (c : Nat) (cq : HardwareCq) :
    (h.setCq c cq).qps = h.qps := rfl

@[simp] theorem list_setCq (c : Nat) (cq : HardwareCq) :
    (h.setCq c cq).list = h.list := rfl

@[simp] theorem index_setCq (c : Nat) (cq : HardwareCq) :
    (h.setCq c cq).index = h.index := rfl

@[simp] theorem quarantined_setCq (c : Nat) (cq : HardwareCq) :
    (h.setCq c cq).quarantined = h.quarantined := rfl

@[simp] theorem cqs_setQp (q : Nat) (qp : HardwareQp) :
    (h.setQp q qp).cqs = h.cqs := rfl

@[simp] theorem qps_setQp (q : Nat) (qp : HardwareQp) :
    (h.setQp q qp).qps = Function.update h.qps q qp := rfl

@[simp] theorem list_setQp (q : Nat) (qp : HardwareQp) :
    (h.setQp q qp).list = h.list := rfl

@[simp] theorem index_setQp (q : Nat) (qp : HardwareQp) :
    (h.setQp q qp).index = h.index := rfl

@[simp] theorem quarantined_setQp (q : Nat) (qp : HardwareQp) :
    (h.setQp q qp).quarantined = h.quarantined := rfl

/-- Submit a command: its output if it is done. -/
def call (reply : Reply) : Option UInt32 × Device :=
  if h.ready then
    match reply with
    | .refused => (none, h)
    | .lost => (none, h.quarantine)
    | .done output => (some output, h)
  else (none, h)

/-- `Hca::create`: the new object. -/
def create (object : Object) (reply : Reply) : Option Object × Device :=
  if object.live then (none, h)
  else
    match h.call reply with
    | (none, h) => (none, h)
    | (some output, h) =>
        (some ⟨output &&& 0xffffff, true⟩,
          { h with resources := h.resources + 1 })

/-- `Hca::destroy`: what is left of the object. -/
def destroy (object : Object) (reply : Reply) : Option Object × Device :=
  if !object.live then (some object, h)
  else if h.detached then
    (some ⟨0, false⟩, { h with resources := h.resources - 1 })
  else
    match h.call reply with
    | (none, h) => (none, h)
    | (some _, h) => (some ⟨0, false⟩, { h with resources := h.resources - 1 })

/-- `Hca::create_cq`. -/
def createCq (c : Nat) (allocated : Bool) (reply : Reply) : Bool × Device :=
  let cq := h.cqs c
  if cq.object.live || cq.buffer || !h.eqLive || !allocated then (false, h)
  else
    match h.create cq.object reply with
    | (none, h) =>
        (false, h.setCq c
          { cq with buffer := h.quarantined, ring := HardwareCq.blank })
    | (some object, h) =>
        (true, h.setCq c
          { cq with
            object := object
            buffer := true
            ring := HardwareCq.blank
            live := true
            consumer := 0 })

/-- `Hca::destroy_cq`. -/
def destroyCq (c : Nat) (reply : Reply) (released : Bool) : Bool × Device :=
  let cq := h.cqs c
  if cq.references ≠ 0 || cq.outstanding ≠ 0 then (false, h)
  else
    match h.destroy cq.object reply with
    | (none, h) => (false, h)
    | (some object, h) =>
        (released, h.setCq c
          { cq with
            object := object
            buffer := cq.buffer && !released
            live := false })

/-- One more queue pair in a role of a completion queue. -/
def refer (c : Nat) (user : Bool) : Device :=
  let cq := h.cqs c
  h.setCq c
    { cq with
      references := cq.references + 1
      userMode := cq.userMode || user }

/-- `Hca::create_qp`; without a page of its own the queue pair is on the
kernel's. -/
def createQp (q : Nat) (pd : UInt32) (send recv : Nat) (uarPage : Option UInt32)
    (allocated : Bool) (reply : Reply) : Bool × Device :=
  let qp := h.qps q
  let user := uarPage.isSome
  if h.index.size == 256 || qp.object.live || qp.buffer ||
      !(h.cqs send).object.live || !(h.cqs recv).object.live ||
      pd > 0xffffff then (false, h)
  else if uarPage.any (fun page =>
      !h.userQueues || page > 0xffffff || page == h.uar) || !allocated then
    (false, h)
  else
    match h.create qp.object reply with
    | (none, h) => (false, h.setQp q { qp with buffer := h.quarantined })
    | (some object, h) =>
        let created := h.setQp q
          { qp with
            object := object
            buffer := true
            sendCq := send
            recvCq := recv
            pd := pd
            userPosted := user }
        let referred := (created.refer send user).refer recv user
        let listed := { referred with list := q :: referred.list }
        match listed.index.insert object.id q with
        | none => (false, listed.quarantine)
        | some index => (true, { listed with index := index })

/-- `Hca::rebuild_cq_accounting`. -/
def rebuild (c : Nat) : Device :=
  let live := h.list.filter fun q => (h.qps q).object.live
  h.setCq c
    { h.cqs c with
      references := (live.map fun q => (h.qps q).roles c).sum
      outstanding := (live.map fun q => (h.qps q).load c).sum }

/-- Both completion queues of a queue pair. -/
def rebuildBoth (send recv : Nat) : Device :=
  if recv = send then h.rebuild send else (h.rebuild send).rebuild recv

theorem qps_rebuildBoth (send recv : Nat) :
    (h.rebuildBoth send recv).qps = h.qps := by
  unfold rebuildBoth
  split <;> rfl

theorem quarantined_rebuildBoth (send recv : Nat) :
    (h.rebuildBoth send recv).quarantined = h.quarantined := by
  unfold rebuildBoth
  split <;> rfl

end Device

/-! ## Removing a queue pair's completions -/

/-- The entries published from an index on, up to a number; none if one of
them has an unsupported opcode. -/
def visible (cq : HardwareCq) : Nat → UInt32 → Option Nat
  | 0, _ => some 0
  | left + 1, index =>
      if !(cq.entry index).published index then some 0
      else if (decodeCqe (cq.entry index) index).1 = .unsupported then none
      else (visible cq left (index + 1)).map (· + 1)

/-- An entry with the owner bit of another index's lap. -/
def Cqe.owned (cqe : Cqe) (index : UInt32) : Cqe := fun byte =>
  if byte.val = 63 then
    (cqe.owner &&& (0xfe : UInt8)) ||| UInt32.toUInt8 ((index >>> 5) &&& 1)
  else cqe byte

/-- The loop from the newest entry back: an entry of the queue pair is
discarded, another moves on by as many as were. -/
def compact (cq : HardwareCq) (qpn : UInt32) :
    Nat → (Fin 32 → Cqe) → UInt32 → (Fin 32 → Cqe) × UInt32
  | 0, ring, discarded => (ring, discarded)
  | remaining + 1, ring, discarded =>
      let index := cq.consumer + UInt32.ofNat remaining
      let entry := ring (slotOf index)
      if entry.qpn = qpn then
        compact cq qpn remaining ring (discarded + 1)
      else if discarded ≠ 0 then
        let destination := index + discarded
        compact cq qpn remaining
          (Function.update ring (slotOf destination) (entry.owned destination))
          discarded
      else compact cq qpn remaining ring discarded

namespace Device

variable (h : Device)

/-- `Hca::purge_qp_completions`. -/
def purge (c : Nat) (qpn : UInt32) : Bool × Device :=
  let cq := h.cqs c
  if !cq.object.live || !h.ready then (false, h)
  else
    match visible cq 32 cq.consumer with
    | none => (false, h.quarantine)
    | some count =>
        if !cq.userMode && count > cq.outstanding then (false, h.quarantine)
        else
          let (ring, discarded) := compact cq qpn count cq.ring 0
          (true, h.setCq c
            { cq with ring := ring, consumer := cq.consumer + discarded })

/-- The purge of both completion queues. -/
def purgeBoth (send recv : Nat) (qpn : UInt32) : Bool × Device :=
  match h.purge send qpn with
  | (false, h) => (false, h)
  | (true, h) => if recv = send then (true, h) else h.purge recv qpn

/-- Give back the credit of a queue pair's requests. -/
def credit (send recv sends receives : Nat) : Device :=
  let cq := h.cqs send
  let h := h.setCq send { cq with outstanding := cq.outstanding - sends }
  let cq := h.cqs recv
  h.setCq recv { cq with outstanding := cq.outstanding - receives }

/-- Whether the counts of its completion queues cover a queue pair's
requests. -/
def covered (qp : HardwareQp) : Bool :=
  decide (qp.sends.pending ≤ (h.cqs qp.sendCq).outstanding) &&
    decide (qp.receives.pending ≤ (h.cqs qp.recvCq).outstanding) &&
    (qp.sendCq != qp.recvCq || decide (qp.sends.pending + qp.receives.pending ≤
      (h.cqs qp.sendCq).outstanding))

/-- The rest of a reset once the firmware has stopped the queue pair. -/
def resetStopped (q : Nat) : Bool × Device :=
  let qp := h.qps q
  match h.purgeBoth qp.sendCq qp.recvCq qp.object.id with
  | (false, h) => (false, h)
  | (true, h) =>
      (true, (h.credit qp.sendCq qp.recvCq qp.sends.pending
        qp.receives.pending).setQp q qp.cleared)

/-- `Hca::reset_qp`. -/
def resetQp (q : Nat) (reply : Reply) : Bool × Device :=
  let qp := h.qps q
  if !qp.object.live then (true, h)
  else if h.detached then
    (true, (h.setQp q qp.cleared).rebuildBoth qp.sendCq qp.recvCq)
  else if !qp.userPosted && !h.covered qp then (false, h.quarantine)
  else if qp.state ≠ 0 then
    match h.call reply with
    | (none, h) => (false, h)
    | (some _, h) => (h.setQp q { qp with state := 0 }).resetStopped q
  else h.resetStopped q

/-- Take a queue pair off the list and out of the index. -/
def unlist (q : Nat) (qpn : UInt32) : Device :=
  { h with
    list := h.list.erase q
    index := (h.index.erase qpn q).getD h.index }

/-- The bookkeeping once the firmware has destroyed a queue pair. -/
def forgetQp (q : Nat) (wasLive : Bool) (qpn : UInt32) (object : Object) :
    Device :=
  let qp := h.qps q
  let dead := h.setQp q { qp with object := object }
  if wasLive then (dead.unlist q qpn).rebuildBoth qp.sendCq qp.recvCq
  else dead

/-- `Hca::destroy_qp`. -/
def destroyQp (q : Nat) (reset destroyed : Reply) (released : Bool) :
    Bool × Device :=
  let wasLive := (h.qps q).object.live
  let qpn := (h.qps q).object.id
  match h.resetQp q reset with
  | (false, h) => (false, h)
  | (true, h) =>
      match h.destroy (h.qps q).object destroyed with
      | (none, h) => (false, h)
      | (some object, h) =>
          let forgotten := h.forgetQp q wasLive qpn object
          if released then (true, forgotten.setQp q HardwareQp.init)
          else (false, forgotten)

/-- `Hca::transition`; whether the connection matches the queue pair and
encodes is given. -/
def transition (q : Nat) (opcode : Nat) (agrees : Bool) (reply : Reply) :
    Bool × Device :=
  let qp := h.qps q
  if !qp.object.live || !agrees || opcode ≠ 0x502 + qp.state then (false, h)
  else
    match h.call reply with
    | (none, h) => (false, h)
    | (some _, h) => (true, h.setQp q { qp with state := qp.state + 1 })

/-- One more request outstanding on a completion queue. -/
def charge (c : Nat) : Device :=
  let cq := h.cqs c
  h.setCq c { cq with outstanding := cq.outstanding + 1 }

/-- `Hca::post`; whether the doorbell is written is given. -/
def post (q : Nat) (id : UInt64) (r : Verbs.SendRequest) (rung : Bool) :
    Bool × Device :=
  let qp := h.qps q
  if qp.userPosted || !qp.object.live || qp.state ≠ 3 || !h.ready ||
      r.inlineData.isSome || !qp.sends.canPost qp.producer ||
      (h.cqs qp.sendCq).outstanding ≥ 31 then (false, h)
  else
    let length := Verbs.Kernel.requestBytes r
    match Verbs.Kernel.postWqe 0 qp.object.id qp.producer r qp.page with
    | (false, _) => (false, h)
    | (true, page) =>
        match qp.sends.post qp.producer id r.opcode length
            (r.entries.map Verbs.SendSge.lkey) with
        | none => (false, h.setQp q { qp with page := page })
        | some sends =>
            let recorded := (h.setQp q
              { qp with
                page := Verbs.Kernel.writeBe32 page 4100 (qp.producer + 1)
                sends := sends
                producer := if rung then qp.producer + 1 else qp.producer
                }).charge qp.sendCq
            if rung then (true, recorded) else (false, recorded.quarantine)

/-- `Hca::receive`. -/
def receive (q : Nat) (id : UInt64) (address : UInt64) (length lkey : UInt32) :
    Bool × Device :=
  let qp := h.qps q
  if qp.userPosted || !qp.object.live || qp.state < 1 || !h.ready ||
      length == 0 || lkey == 0 ||
      address > Verbs.uint64Max - length.toUInt64 ||
      !qp.receives.canPost qp.recvProducer ||
      (h.cqs qp.recvCq).outstanding ≥ 31 then (false, h)
  else
    let wqe := (slotOf qp.recvProducer).val * 16
    let page := Verbs.Kernel.writeEntry qp.page wqe ⟨address, lkey, length⟩
    match qp.receives.post qp.recvProducer id 0x0a length [lkey] with
    | none => (false, h.setQp q { qp with page := page })
    | some receives =>
        (true, (h.setQp q
          { qp with
            page := Verbs.Kernel.writeBe32 page 4096 (qp.recvProducer + 1)
            receives := receives
            recvProducer := qp.recvProducer + 1 }).charge qp.recvCq)

end Device

/-- What a poll of one entry returns. -/
structure Polled where
  result : CqResult
  completion : Completion
  work : WorkRecord
  context : Option Nat
  user : Bool
  deriving DecidableEq

/-- The outputs of a poll that reports nothing. -/
def Polled.nothing (result : CqResult) (completion : Completion) : Polled where
  result := result
  completion := completion
  work := ⟨0, 0, 0, 0, 0, []⟩
  context := none
  user := false

/-- The work of a request the kernel has no record of. -/
def Completion.unrecorded (completion : Completion) : WorkRecord where
  id := completion.wqeCounter.toUInt64
  length := completion.bytes
  lkey := 0
  counter := completion.wqeCounter
  opcode := 0
  lkeys := []

/-- Whether a completion is of the send side. -/
def Completion.send (completion : Completion) : Bool :=
  completion.opcode == 0 || completion.opcode == 13

namespace HardwareQp

/-- The completion queue of one side. -/
def cqOf (qp : HardwareQp) (send : Bool) : Nat :=
  if send then qp.sendCq else qp.recvCq

/-- The requests of one side. -/
def queueOf (qp : HardwareQp) (send : Bool) : WorkQueue :=
  if send then qp.sends else qp.receives

/-- The queue pair with the requests of one side replaced. -/
def withQueue (qp : HardwareQp) (send : Bool) (queue : WorkQueue) :
    HardwareQp :=
  if send then { qp with sends := queue } else { qp with receives := queue }

end HardwareQp

namespace Device

variable (h : Device)

/-- One entry of a completion queue is consumed, with a credit. -/
def settle (c : Nat) (credit : Nat) : Device :=
  let cq := h.cqs c
  h.setCq c
    { cq.consume 1 with outstanding := cq.outstanding - credit }

/-- The consumption of an entry that names a queue pair. -/
def pollQp (c : Nat) (result : CqResult) (completion : Completion) (q : Nat) :
    Polled × Device :=
  let qp := h.qps q
  let send := completion.send
  if qp.cqOf send ≠ c then
    (Polled.nothing .unsupported completion, h.quarantine)
  else if qp.userPosted then
    (⟨result, completion, completion.unrecorded, qp.clientContext, true⟩,
      h.settle c 0)
  else if (h.cqs c).outstanding = 0 then
    (Polled.nothing .unsupported completion, h.quarantine)
  else
    match (qp.queueOf send).complete completion.wqeCounter with
    | none => (Polled.nothing .unsupported completion, h.quarantine)
    | some (work, rest) =>
        (⟨result, completion, work, qp.clientContext, false⟩,
          (h.setQp q (qp.withQueue send rest)).settle c 1)

/-- `Hca::poll`. -/
def poll (c : Nat) : Polled × Device :=
  let cq := h.cqs c
  if !cq.object.live || !h.ready then
    (Polled.nothing .unsupported ⟨0, 0, 0, 0, 0, 0, 0⟩, h)
  else
    match decodeCqe (cq.entry cq.consumer) cq.consumer with
    | (.empty, completion) => (Polled.nothing .empty completion, h)
    | (.unsupported, completion) =>
        (Polled.nothing .unsupported completion, h)
    | (result, completion) =>
        match h.index.find completion.qpn with
        | none => (Polled.nothing .unsupported completion, h.quarantine)
        | some q => h.pollQp c result completion q

end Device

end Hca
end Mcdma
