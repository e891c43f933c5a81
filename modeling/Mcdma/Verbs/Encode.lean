import Mcdma.Lib.Bytes
import Mcdma.Lib.Patch

/-!
# Send requests and their two encoders

A send request becomes one block of 64 bytes in the send queue.  The kernel
writes it when it posts for the process, and the process writes it itself when
its queue pair is user-posted.  Each side has its own validity check and its
own encoder, in its own language.
-/

namespace Mcdma
namespace Verbs

/-- A run of registered memory a request gathers from. -/
structure SendSge where
  address : UInt64
  lkey : UInt32
  length : UInt32

/-- One send request in the hardware's terms.  The inline data is a pointer:
none, or the bytes found from it on. -/
structure SendRequest where
  opcode : UInt8
  flags : UInt8
  immediate : UInt32
  remote : UInt64
  rkey : UInt32
  sge : Fin 3 → SendSge
  sgeCount : UInt32
  inlineData : Option Mem
  inlineBytes : UInt32

namespace SendRequest

/-- The entry a loop over the scatter list reads. -/
def entry (r : SendRequest) (index : Nat) : SendSge :=
  if below : index < 3 then r.sge ⟨index, below⟩ else ⟨0, 0, 0⟩

/-- The entries such a loop reads. -/
def entries (r : SendRequest) : List SendSge :=
  (List.range r.sgeCount.toNat).map r.entry

end SendRequest

def wqeWrite : UInt8 := 0x08
def wqeWriteImm : UInt8 := 0x09
def wqeSend : UInt8 := 0x0a
def wqeSendImm : UInt8 := 0x0b
def wqeRead : UInt8 := 0x10

def sendFence : UInt8 := 1
def sendSignaled : UInt8 := 2
def sendSolicited : UInt8 := 4

def maxSendSge : UInt32 := 3
def maxRdmaSge : UInt32 := 2
def maxInlineSend : UInt32 := 44
def maxInlineRdma : UInt32 := 28

/-- The largest 64-bit number. -/
def uint64Max : UInt64 := 0xffffffffffffffff

/-- Where the send queue starts in the page of a queue pair. -/
def sqOffset : Nat := 512

/-- Store bytes from an address on. -/
def store (m : Mem) (off : Nat) (bytes : List UInt8) : Mem :=
  Patch.apply m ⟨off, bytes⟩

/-- The eight bytes from an address on, as the host loads them. -/
def load64 (m : Mem) (off : Nat) : UInt64 :=
  UInt64.ofNat (Bytes.number (m.read off 8))

/-- The bytes of a 32-bit number as the host stores them. -/
def hostBytes (v : UInt32) : List UInt8 :=
  Bytes.lowBytes 4 v.toNat

/-! ## The process's encoder -/

namespace User

/-- `mcdma_put_be32`. -/
def putBe32 (m : Mem) (p : Nat) (v : UInt32) : Mem :=
  store m p [(v >>> 24).toUInt8, (v >>> 16).toUInt8, (v >>> 8).toUInt8,
    v.toUInt8]

/-- `mcdma_put_be64`. -/
def putBe64 (m : Mem) (p : Nat) (v : UInt64) : Mem :=
  putBe32 (putBe32 m p (v >>> 32).toUInt32) (p + 4) v.toUInt32

/-- `mcdma_rdma_opcode`. -/
def rdmaOpcode (opcode : UInt8) : Bool :=
  opcode == wqeWrite || opcode == wqeWriteImm || opcode == wqeRead

/-- The loop over the scatter list: the sum of the lengths, or nothing if an
entry is refused. -/
def gathered (total : UInt64) : List SendSge → Option UInt64
  | [] => some total
  | s :: rest =>
      if s.length == 0 || s.lkey == 0 ||
          s.address > uint64Max - s.length.toUInt64 then
        none
      else gathered (total + s.length.toUInt64) rest

/-- The payload bytes before the checks on their sum. -/
def payload (r : SendRequest) : Option UInt64 :=
  let rdma := rdmaOpcode r.opcode
  if r.inlineData.isSome || r.inlineBytes != 0 then
    if r.inlineData.isNone || r.sgeCount != 0 || r.opcode == wqeRead then none
    else if r.inlineBytes < 1 ||
        r.inlineBytes > (if rdma then maxInlineRdma else maxInlineSend) then
      none
    else some r.inlineBytes.toUInt64
  else if r.sgeCount < 1 ||
      r.sgeCount > (if rdma then maxRdmaSge else maxSendSge) then
    none
  else gathered 0 r.entries

/-- `mcdma_request_bytes`: the payload bytes of an encodable request, else
zero. -/
def requestBytes (r : SendRequest) : UInt32 :=
  let rdma := rdmaOpcode r.opcode
  if !rdma && r.opcode != wqeSend && r.opcode != wqeSendImm then 0
  else if r.flags &&& ~~~(sendFence ||| sendSignaled ||| sendSolicited) != 0 then
    0
  else if rdma && r.rkey == 0 then 0
  else
    match payload r with
    | none => 0
    | some total =>
        if total == 0 || total > 0x7fffffff ||
            (rdma && r.remote > uint64Max - total) then 0
        else total.toUInt32

/-- The descriptor count: the control segment, the remote address and the
data. -/
def descriptors (r : SendRequest) : UInt32 :=
  1 + (if rdmaOpcode r.opcode then 1 else 0) +
    if r.inlineData.isSome then (4 + r.inlineBytes + 15) / 16 else r.sgeCount

/-- The completion, fence and solicited-event bits. -/
def controlByte (r : SendRequest) : UInt8 :=
  8 ||| (if r.flags &&& sendFence != 0 then 0x80 else 0) |||
    (if r.flags &&& sendSolicited != 0 then 0x02 else 0)

/-- One scatter entry. -/
def putEntry (m : Mem) (p : Nat) (s : SendSge) : Mem :=
  putBe64 (putBe32 (putBe32 m p s.length) (p + 4) s.lkey) (p + 8) s.address

/-- The loop that writes the scatter list. -/
def putEntries (m : Mem) (p : Nat) : List SendSge → Mem
  | [] => m
  | s :: rest => putEntries (putEntry m p s) (p + 16) rest

/-- The control segment. -/
def putControl (m : Mem) (wqe : Nat) (qpn producer : UInt32)
    (r : SendRequest) : Mem :=
  let m := store m wqe (List.replicate 64 0)
  let m := putBe32 m wqe
    ((producer.toUInt16.toUInt32 <<< 8) ||| r.opcode.toUInt32)
  let m := putBe32 m (wqe + 4) ((qpn <<< 8) ||| descriptors r)
  let m := store m (wqe + 11) [controlByte r]
  if r.opcode == wqeWriteImm || r.opcode == wqeSendImm then
    store m (wqe + 12) (hostBytes r.immediate)
  else m

/-- The remote address of an RDMA request. -/
def putRemote (m : Mem) (wqe : Nat) (r : SendRequest) : Mem :=
  if rdmaOpcode r.opcode then
    putBe32 (putBe64 m (wqe + 16) r.remote) (wqe + 24) r.rkey
  else m

/-- Where the data starts. -/
def dataOffset (r : SendRequest) : Nat :=
  if rdmaOpcode r.opcode then 32 else 16

/-- The inline bytes or the scatter list. -/
def putData (m : Mem) (wqe : Nat) (r : SendRequest) : Mem :=
  match r.inlineData with
  | some data =>
      store (putBe32 m (wqe + dataOffset r) (0x80000000 ||| r.inlineBytes))
        (wqe + dataOffset r + 4) (data.read 0 r.inlineBytes.toNat)
  | none => putEntries m (wqe + dataOffset r) r.entries

/-- The stores of `mcdma_encode_send_request`. -/
def writeWqe (m : Mem) (wqe : Nat) (qpn producer : UInt32) (r : SendRequest) :
    Mem :=
  putData (putRemote (putControl m wqe qpn producer r) wqe r) wqe r

/-- `mcdma_encode_send_request`: the doorbell value, zero for a request that is
not encodable, and the memory. -/
def encodeSendRequest (queuePage : Option Nat) (qpn producer : UInt32)
    (r : SendRequest) (m : Mem) : UInt64 × Mem :=
  match queuePage with
  | none => (0, m)
  | some page =>
      if qpn > 0xffffff || requestBytes r == 0 then (0, m)
      else if descriptors r > 4 then (0, m)
      else
        let wqe := page + sqOffset + (producer &&& 31).toNat * 64
        let written := writeWqe m wqe qpn producer r
        (load64 written wqe, written)

end User

/-! ## The kernel's encoder -/

namespace Kernel

/-- `write_be32`: the loop over the four bytes. -/
def writeBe32 (m : Mem) (p : Nat) (v : UInt32) : Mem :=
  (List.range 4).foldl
    (fun m n => store m (p + n) [(v >>> UInt32.ofNat (24 - n * 8)).toUInt8]) m

/-- `write_be64`. -/
def writeBe64 (m : Mem) (p : Nat) (v : UInt64) : Mem :=
  writeBe32 (writeBe32 m p (v >>> 32).toUInt32) (p + 4) v.toUInt32

/-- `rdma_opcode`. -/
def rdmaOpcode (opcode : UInt8) : Bool :=
  opcode == wqeWrite || opcode == wqeWriteImm || opcode == wqeRead

/-- `immediate_opcode`. -/
def immediateOpcode (opcode : UInt8) : Bool :=
  opcode == wqeWriteImm || opcode == wqeSendImm

/-- One round of the loop over the scatter list. -/
def gather (total : UInt64) (s : SendSge) : Option UInt64 :=
  if s.length == 0 || s.lkey == 0 ||
      s.address > uint64Max - s.length.toUInt64 then none
  else some (total + s.length.toUInt64)

/-- The payload bytes before the checks on their sum. -/
def payload (r : SendRequest) : Option UInt64 :=
  let rdma := rdmaOpcode r.opcode
  if r.inlineData.isSome || r.inlineBytes != 0 then
    if r.inlineData.isNone || r.sgeCount != 0 || r.opcode == wqeRead then none
    else if r.inlineBytes < 1 ||
        r.inlineBytes > (if rdma then maxInlineRdma else maxInlineSend) then
      none
    else some r.inlineBytes.toUInt64
  else if r.sgeCount < 1 ||
      r.sgeCount > (if rdma then maxRdmaSge else maxSendSge) then
    none
  else r.entries.foldlM gather 0

/-- `request_bytes`. -/
def requestBytes (r : SendRequest) : UInt32 :=
  let rdma := rdmaOpcode r.opcode
  if !rdma && r.opcode != wqeSend && r.opcode != wqeSendImm then 0
  else if r.flags &&& ~~~(sendFence ||| sendSignaled ||| sendSolicited) != 0 then
    0
  else if rdma && r.rkey == 0 then 0
  else
    match payload r with
    | none => 0
    | some total =>
        if total == 0 || total > 0x7fffffff ||
            (rdma && r.remote > uint64Max - total) then 0
        else total.toUInt32

/-- The descriptor count. -/
def descriptors (r : SendRequest) : UInt32 :=
  let dataUnits :=
    if r.inlineData.isSome then (4 + r.inlineBytes + 15) / 16 else r.sgeCount
  1 + (if rdmaOpcode r.opcode then 1 else 0) + dataUnits

/-- One scatter entry. -/
def writeEntry (m : Mem) (p : Nat) (s : SendSge) : Mem :=
  writeBe64 (writeBe32 (writeBe32 m p s.length) (p + 4) s.lkey) (p + 8)
    s.address

/-- The loop that writes the scatter list, with the offset it has come to. -/
def writeEntries (m : Mem) (p : Nat) (entries : List SendSge) : Mem × Nat :=
  entries.foldl (fun state s => (writeEntry state.1 state.2 s, state.2 + 16))
    (m, p)

/-- The control segment: a completion always, the fence and solicited-event
bits of the request, and the immediate. -/
def writeControl (m : Mem) (p : Nat) (qpn : UInt32) (producer : UInt16)
    (r : SendRequest) : Mem :=
  let m := store m p (List.replicate 64 0)
  let m := writeBe32 m p ((producer.toUInt32 <<< 8) ||| r.opcode.toUInt32)
  let m := writeBe32 m (p + 4) ((qpn <<< 8) ||| descriptors r)
  let m := store m (p + 11)
    [8 ||| (if r.flags &&& sendFence != 0 then 0x80 else 0) |||
      (if r.flags &&& sendSolicited != 0 then 0x02 else 0)]
  if immediateOpcode r.opcode then
    store m (p + 12) (hostBytes r.immediate)
  else m

/-- The remote address and the data. -/
def writeTail (m : Mem) (p : Nat) (r : SendRequest) : Mem :=
  let rdma := rdmaOpcode r.opcode
  let m :=
    if rdma then
      writeBe32 (writeBe64 m (p + 16) r.remote) (p + 24) r.rkey
    else m
  let start := if rdma then 32 else 16
  match r.inlineData with
  | some data =>
      store (writeBe32 m (p + start) (0x80000000 ||| r.inlineBytes))
        (p + start + 4) (data.read 0 r.inlineBytes.toNat)
  | none => (writeEntries m (p + start) r.entries).1

/-- `encode_send_request`: whether the request was encoded, and the memory. -/
def encodeSendRequest (wire : Option Nat) (capacity : Nat) (qpn : UInt32)
    (producer : UInt16) (r : SendRequest) (m : Mem) : Bool × Mem :=
  match wire with
  | none => (false, m)
  | some p =>
      if capacity < 64 || qpn > 0xffffff || requestBytes r == 0 then (false, m)
      else if descriptors r > 4 then (false, m)
      else (true, writeTail (writeControl m p qpn producer r) p r)

/-- The encoding of `Hca::post`: the block of the producer's slot, whose
counter is its low half. -/
def postWqe (page : Nat) (qpn producer : UInt32) (r : SendRequest) (m : Mem) :
    Bool × Mem :=
  encodeSendRequest (some (page + sqOffset + (producer &&& 31).toNat * 64)) 64
    qpn producer.toUInt16 r m

end Kernel

end Verbs
end Mcdma
