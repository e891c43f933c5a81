import Mcdma.Hca.State
import Mcdma.Mirror.Queue
import Mcdma.Verbs.Encoders

/-!
# Posting a list of requests, twice

The process records in its mirror every request of a list that it expects the
kernel to accept, has the kernel post the list, and takes back the records of
the part that was refused.  Each side makes its own hardware request of a public
one and checks it.
-/

namespace Mcdma
namespace Mirror

open Hca (Device)
open Verbs (SendSge SendRequest)

/-- The error numbers of a post. -/
inductive Errno where
  | io
  | invalid
  | access
  | noMemory
  | notSupported
  deriving DecidableEq

/-- `struct ibv_send_wr`: its scatter list has no entries when the pointer is
null or the count is not positive. -/
structure SendWr where
  id : UInt64
  sges : List SendSge
  opcode : Nat
  flags : UInt32
  immediate : UInt32
  remote : UInt64
  rkey : UInt32

/-- `struct ibv_recv_wr`. -/
structure RecvWr where
  id : UInt64
  sges : List SendSge

/-- `hardware_opcode`, of the process and of the kernel alike. -/
def hardwareOpcode (opcode : Nat) : UInt8 :=
  if opcode = 0 then Verbs.wqeWrite
  else if opcode = 1 then Verbs.wqeWriteImm
  else if opcode = 2 then Verbs.wqeSend
  else if opcode = 3 then Verbs.wqeSendImm
  else if opcode = 4 then Verbs.wqeRead
  else 0

/-- Whether a request asks for a completion. -/
def SendWr.signaled (w : SendWr) : Bool := w.flags &&& 2 != 0

/-- The hardware request of a public one with a scatter list. -/
def SendWr.request (w : SendWr) : SendRequest :=
  let opcode := hardwareOpcode w.opcode
  let rdma := Verbs.Kernel.rdmaOpcode opcode
  { opcode := opcode
    flags := (w.flags &&& 5).toUInt8
    immediate := w.immediate
    remote := if rdma then w.remote else 0
    rkey := if rdma then w.rkey else 0
    sge := fun index => w.sges.getD index ⟨0, 0, 0⟩
    sgeCount := UInt32.ofNat w.sges.length
    inlineData := none
    inlineBytes := 0 }

/-- The limit on the entries of a scatter list. -/
def sgeLimit (opcode : UInt8) : Nat :=
  if Verbs.Kernel.rdmaOpcode opcode then 2 else 3

/-! ## The process -/

/-- `build_request` where inline data is not allowed. -/
def buildRequest (w : SendWr) : Except Errno SendRequest :=
  let opcode := hardwareOpcode w.opcode
  if opcode = 0 then .error .notSupported
  else if w.flags &&& ~~~(15 : UInt32) ≠ 0 then .error .notSupported
  else if !w.signaled then .error .notSupported
  else if w.sges = [] then .error .invalid
  else if w.flags &&& 8 ≠ 0 then .error .notSupported
  else if w.sges.length > sgeLimit opcode then .error .notSupported
  else if Verbs.User.requestBytes w.request = 0 then .error .invalid
  else .ok w.request

/-- What the mirror records of a send request, if it does. -/
def sendEntry (w : SendWr) : Option (UInt64 × UInt8 × UInt32) :=
  match buildRequest w with
  | .error _ => none
  | .ok r => some (w.id, r.opcode, Verbs.User.requestBytes r)

/-- What the mirror records of a receive request, if it does. -/
def receiveEntry (w : RecvWr) : Option (UInt64 × UInt8 × UInt32) :=
  match w.sges with
  | [entry] => some (w.id, 0x0a, entry.length)
  | _ => none

/-- The loop that records a list: the queue, and how many were recorded. -/
def recordAll {Wr : Type} (entry : Wr → Option (UInt64 × UInt8 × UInt32))
    (queue : UserQueue) : List Wr → UserQueue × Nat
  | [] => (queue, 0)
  | w :: rest =>
      match (entry w).bind fun made => queue.post made.1 made.2.1 made.2.2 with
      | none => (queue, 0)
      | some queue =>
          ((recordAll entry queue rest).1, (recordAll entry queue rest).2 + 1)

/-- `accepted_sends` and `accepted_recvs`: the requests before the bad one. -/
def accepted (count : Nat) (error : Option Errno) (bad : Option Nat) : Nat :=
  match error, bad with
  | some _, none => 0
  | some _, some index => min index count
  | none, _ => count

/-! ## The kernel -/

/-- `usable_sge`. -/
def usableSge (entry : SendSge) : Bool :=
  entry.length != 0 && entry.lkey != 0 &&
    decide (entry.address ≤ Verbs.uint64Max - entry.length.toUInt64)

/-- `apple_send_request`. -/
def appleSendRequest (signalAll : Bool) (w : SendWr) :
    Except Errno SendRequest :=
  let opcode := hardwareOpcode w.opcode
  if opcode = 0 then .error .notSupported
  else if w.flags &&& ~~~(7 : UInt32) ≠ 0 ∨
      signalAll = false ∧ w.signaled = false then .error .notSupported
  else if w.sges.length < 1 ∨ w.sges.length > sgeLimit opcode then
    .error .invalid
  else if !w.sges.all usableSge then .error .invalid
  else if Verbs.Kernel.requestBytes w.request = 0 then .error .invalid
  else .ok w.request

/-- What is not decided by the request itself: whether the memory regions of its
scatter list allow it, and whether its doorbell is written. -/
structure Grant where
  granted : Bool
  rung : Bool

/-- One round of the loop of `AppleProvider::post_send`, with
`apple_post_send`. -/
def postSend (h : Device) (q : Nat) (signalAll : Bool) (grant : Grant)
    (w : SendWr) : Option Errno × Device :=
  match appleSendRequest signalAll w with
  | .error error => (some error, h)
  | .ok r =>
      let qp := h.qps q
      if grant.granted = false then (some .access, h)
      else if qp.clientContext.isNone || !qp.object.live || qp.state ≠ 3 ||
          !h.ready then (some .io, h)
      else if !qp.sends.canPost qp.producer ||
          (h.cqs qp.sendCq).outstanding ≥ 31 then (some .noMemory, h)
      else
        match h.post q w.id r grant.rung with
        | (false, h) => (some .io, h)
        | (true, h) => (none, h)

/-- One round of the loop of `AppleProvider::post_recv`, with
`apple_post_recv`. -/
def postRecv (h : Device) (q : Nat) (grant : Grant) (w : RecvWr) :
    Option Errno × Device :=
  match w.sges with
  | [entry] =>
      let qp := h.qps q
      if grant.granted = false then (some .access, h)
      else if qp.clientContext.isNone || !qp.object.live || qp.state < 1 ||
          !h.ready then (some .io, h)
      else if !usableSge entry then (some .invalid, h)
      else if !qp.receives.canPost qp.recvProducer ||
          (h.cqs qp.recvCq).outstanding ≥ 31 then (some .noMemory, h)
      else
        match h.receive q w.id entry.address entry.length entry.lkey with
        | (false, h) => (some .io, h)
        | (true, h) => (none, h)
  | _ => (some .notSupported, h)

/-- The loop over a list: the error of the request it stops at, and how many
were posted before. -/
def postAll {Wr : Type} (one : Device → Grant → Wr → Option Errno × Device)
    (h : Device) (grants : Nat → Grant) :
    List Wr → Option Errno × Nat × Device
  | [] => (none, 0, h)
  | w :: rest =>
      match one h (grants 0) w with
      | (some error, h) => (some error, 0, h)
      | (none, h) =>
          let (error, posted, h) :=
            postAll one h (fun index => grants (index + 1)) rest
          (error, posted + 1, h)

/-- How a command of the process fares: whether the kernel gets it, and what it
grants to each request. -/
structure Command where
  reached : Bool
  grants : Nat → Grant

/-- `AppleProvider::post_send` and `AppleProvider::post_recv` of a process's
command: the error, the place of the bad request, and the device. -/
def kernelPost {Wr : Type} (one : Device → Grant → Wr → Option Errno × Device)
    (h : Device) (q : Nat) (command : Command) (wrs : List Wr) :
    Option Errno × Option Nat × Device :=
  if command.reached = false then (some .io, none, h)
  else if !h.ready then (some .invalid, some 0, h)
  else if (h.qps q).userPosted then (some .notSupported, some 0, h)
  else
    match postAll one h command.grants wrs with
    | (none, _, h) => (none, none, h)
    | (some error, posted, h) => (some error, some posted, h)

/-! ## The two sides agree on a request -/

/-- The entries of the request of a list that fits are those of the list. -/
theorem entries_request {w : SendWr} (few : w.sges.length ≤ 3) :
    w.request.entries = w.sges := by
  have count : (UInt32.ofNat w.sges.length).toNat = w.sges.length :=
    UInt32.toNat_ofNat_of_lt' (by
      have size : UInt32.size = 4294967296 := rfl
      omega)
  apply List.ext_getElem
  · simp [SendRequest.entries, SendWr.request, count]
  · intro index below below'
    simp only [SendRequest.entries, List.getElem_map, List.getElem_range,
      SendRequest.entry, SendWr.request]
    rw [dif_pos (by omega)]
    exact (List.getElem_eq_getD _).symm

theorem gathered_usable {total sum : UInt64} {entries : List SendSge}
    (gathers : Verbs.User.gathered total entries = some sum) :
    entries.all usableSge = true := by
  induction entries generalizing total with
  | nil => rfl
  | cons entry rest inductionHypothesis =>
      rw [Verbs.User.gathered] at gathers
      simp only [Option.ite_none_left_eq_some, Bool.or_eq_true, beq_iff_eq,
        decide_eq_true_eq, not_or, gt_iff_lt, UInt64.not_lt] at gathers
      obtain ⟨⟨⟨length, lkey⟩, address⟩, onward⟩ := gathers
      rw [List.all_cons, inductionHypothesis onward, Bool.and_true, usableSge]
      simp [length, lkey, address]

/-- The scatter list of an encodable request is usable. -/
theorem usable_of_bytes {w : SendWr} (few : w.sges.length ≤ 3)
    (bytes : Verbs.User.requestBytes w.request ≠ 0) :
    w.sges.all usableSge = true := by
  cases data : Verbs.User.payload w.request with
  | none =>
      simp only [Verbs.User.requestBytes, data] at bytes
      split_ifs at bytes <;> exact absurd rfl bytes
  | some total =>
      have listed : (w.request.inlineData.isSome ||
          w.request.inlineBytes != 0) = false := rfl
      rw [Verbs.User.payload, listed, if_neg Bool.false_ne_true] at data
      rw [Option.ite_none_left_eq_some, entries_request few] at data
      exact gathered_usable data.2

private theorem ite_error {p : Prop} [Decidable p] {error : Errno}
    {rest : Except Errno SendRequest} {r : SendRequest} :
    (if p then .error error else rest) = .ok r ↔ ¬p ∧ rest = .ok r := by
  split
  · next holds => simp [holds]
  · next fails => simp [fails]

/-- What the kernel makes of a request that asks for a completion is what the
process makes of it. -/
theorem appleSendRequest_iff {signalAll : Bool} {w : SendWr} {r : SendRequest}
    (signaled : signalAll = true → w.signaled = true) :
    appleSendRequest signalAll w = .ok r ↔ buildRequest w = .ok r := by
  have limit : sgeLimit (hardwareOpcode w.opcode) ≤ 3 := by
    rw [sgeLimit]
    split <;> decide
  have bits : w.flags &&& ~~~(7 : UInt32) = 0 ↔
      w.flags &&& ~~~(15 : UInt32) = 0 ∧ w.flags &&& 8 = 0 := by
    rw [← UInt32.or_eq_zero_iff]
    have split : w.flags &&& ~~~(7 : UInt32) =
        (w.flags &&& ~~~(15 : UInt32)) ||| (w.flags &&& 8) := by
      rw [← UInt32.toBitVec_inj, UInt32.toBitVec_or, UInt32.toBitVec_and,
        UInt32.toBitVec_and, UInt32.toBitVec_and, ← BitVec.and_or_distrib_left]
      rfl
    rw [split]
  have emptyIff : w.sges = [] ↔ w.sges.length < 1 := by
    rw [Nat.lt_one_iff, List.length_eq_zero_iff]
  simp only [appleSendRequest, buildRequest, Verbs.Kernel.requestBytes_eq,
    ite_error, not_or, not_and, Except.ok.injEq]
  constructor
  · rintro ⟨known, ⟨flags, asked⟩, ⟨few, fits⟩, -, bytes, same⟩
    obtain ⟨high, inline⟩ := bits.mp (not_not.mp flags)
    refine ⟨known, not_not.mpr high, ?_, ?_, not_not.mpr inline, fits, bytes,
      same⟩
    · cases signalAll with
      | true => simp [signaled rfl]
      | false => simpa using asked rfl
    · rwa [emptyIff]
  · rintro ⟨known, high, asked, some', inline, fits, bytes, same⟩
    refine ⟨known, ⟨not_not.mpr (bits.mpr ⟨not_not.mp high, not_not.mp inline⟩),
      fun _ => ?_⟩, ⟨?_, fits⟩, ?_, bytes, same⟩
    · simpa using asked
    · rwa [emptyIff] at some'
    · have usable := usable_of_bytes (by omega) bytes
      simp [usable]

/-- The mirror records what the kernel posts. -/
theorem sendEntry_eq {signalAll : Bool} {w : SendWr} {r : SendRequest}
    (signaled : signalAll = true → w.signaled = true)
    (made : appleSendRequest signalAll w = .ok r) :
    sendEntry w = some (w.id, r.opcode, Verbs.Kernel.requestBytes r) := by
  rw [sendEntry, (appleSendRequest_iff signaled).mp made,
    Verbs.Kernel.requestBytes_eq]

end Mirror
end Mcdma
