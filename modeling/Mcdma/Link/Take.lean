import Mcdma.Link.Wire

/-!
# Taking a message from the receive ring

`take` and its parts from `rpc/link_tb.c`: one whole message, as it lies in the
ring, is checked against the receiving half of the link and takes effect.  The
function reads the message through a `Msg`, whose reads answer `none` outside
the message, so a result of `none` stands for a read the message does not
authorise.  Stores to the window are appended to `Recv.stores` in the order in
which they are made.  A bond's hooks are a parameter, as in the source.
-/

namespace Mcdma
namespace Link

open Bytes

/-- A whole message in the ring: its packets, its bytes, its first packet read
in place and its bytes copied out. -/
structure Msg where
  count : Nat
  bytes : Nat
  peek : Nat → Nat → Option (List UInt8)
  copySkip : Nat → Nat → Option (List UInt8)

/-- A message given by its bytes alone. -/
def Msg.ofBytes (content : List UInt8) : Msg where
  count := packets content.length
  bytes := content.length
  peek := fun skip len =>
    if skip + len ≤ min content.length tbPacket then
      some (slice content skip len)
    else none
  copySkip := fun skip len =>
    if skip + len ≤ content.length then some (slice content skip len) else none

/-- The answer of a readiness hook. -/
inductive Ready
  | now
  | notYet
  | never
  deriving DecidableEq, Repr

/-- `struct bond_tail`: where a tail goes and which write of its link it is. -/
structure BondTail where
  off : Nat
  len : Nat
  ordinal : Nat
  deriving DecidableEq, Repr

/-- `struct tb_bond`: a bond's receive hooks over a shared state.  `signal`
answers whether the signal was queued, `announce` whether there was room. -/
structure Hooks (σ : Type) where
  lane : Nat
  links : Nat
  placed : σ → Nat → σ × List Store
  signal : σ → Nat → (Nat → Nat) → Nat → Nat → (σ × List Store) × Bool
  ready : σ → Nat → Nat → Nat → Ready
  announce : σ → BondTail → σ × Bool
  tail : σ → Option (BondTail × σ)
  readyN : σ → Nat → Nat → (Nat → Nat) → Ready

/-- The receiving half of `struct tb`.  `accepted` is the range `[lo, hi)` the
peer may write, once there is one, and `why` the first reason once poisoned. -/
structure Rx where
  accepted : Option (Nat × Nat)
  rxSeq : Nat := 0
  wantLen : Nat := 0
  wantOff : Nat := 0
  writesPlaced : Nat := 0
  fenceAcked : Nat := 0
  stalled : Nat := 0
  why : Option String := none
  deriving DecidableEq, Repr

/-- Whether `len` bytes at `off` lie in what the peer may write. -/
def Rx.inside (rx : Rx) (off len : Nat) : Bool :=
  match rx.accepted with
  | some (lo, hi) => decide (lo ≤ off ∧ off ≤ hi ∧ len ≤ hi - off)
  | none => false

/-- The receiving end of one link: its own half, the state it shares with the
other links of its bond and the stores made to the window so far. -/
structure Recv (σ : Type) where
  rx : Rx
  bond : σ
  stores : List Store

/-- What answering a fence meets: no room for the answer, the answer posted, or
the device refusing the post. -/
inductive Reply
  | noRoom
  | sent
  | refused
  deriving DecidableEq, Repr

/-- The result of `take`: 1 with the answer a fence asked for, 0 or -1. -/
inductive Taken
  | taken (answer : Option Nat)
  | notYet
  | failed
  deriving DecidableEq, Repr

section

variable {σ : Type}

namespace Recv

/-- `poison`: the first reason stays. -/
def poison (recv : Recv σ) (why : String) : Recv σ :=
  { recv with rx := { recv.rx with why := some (recv.rx.why.getD why) } }

/-- Poison the link and give the message up. -/
def fail (recv : Recv σ) (why : String) : Option (Recv σ × Taken) :=
  some (recv.poison why, .failed)

/-- Count one more header message of the peer. -/
def nextSeq (recv : Recv σ) : Recv σ :=
  { recv with rx := { recv.rx with rxSeq := (recv.rx.rxSeq + 1) % 2 ^ 32 } }

/-- Expect a write's bytes as the next message. -/
def want (recv : Recv σ) (off len : Nat) : Recv σ :=
  { recv with rx := { recv.rx with wantOff := off, wantLen := len } }

/-- Copy a write's bytes into the window. -/
def copy (recv : Recv σ) (lane off : Nat) (bytes : List UInt8) : Recv σ :=
  { recv with
    stores := recv.stores ++
      [⟨.placed lane (recv.rx.writesPlaced + 1), ⟨off, bytes⟩⟩] }

/-- Store a single link's signal word. -/
def storeWord (recv : Recv σ) (off value : Nat) : Recv σ :=
  { recv with stores := recv.stores ++ [⟨.word, ⟨off, word value⟩⟩] }

/-- `placed`: count the write and tell the bond. -/
def placed (hooks : Option (Hooks σ)) (recv : Recv σ) : Recv σ :=
  let rx := { recv.rx with writesPlaced := recv.rx.writesPlaced + 1 }
  match hooks with
  | none => { recv with rx := rx }
  | some hooks =>
      let told := hooks.placed recv.bond rx.writesPlaced
      { rx := rx, bond := told.1, stores := recv.stores ++ told.2 }

/-- Hand a bonded signal to the bond: the state after, and whether it was
queued. -/
def signal (hooks : Hooks σ) (recv : Recv σ) (sig : Nat) (need : Nat → Nat)
    (off value : Nat) : Recv σ × Bool :=
  let told := hooks.signal recv.bond sig need off value
  ({ recv with bond := told.1.1, stores := recv.stores ++ told.1.2 }, told.2)

/-- `stall`: wait for the other link, but not for ever. -/
def stall (recv : Recv σ) (now : Nat) (why : String) :
    Option (Recv σ × Taken) :=
  if recv.rx.stalled = 0 then
    some ({ recv with rx := { recv.rx with stalled := now } }, .notYet)
  else if now - recv.rx.stalled > tbStallNs then recv.fail why
  else some (recv, .notYet)

end Recv

/-- The lane a link's own stores are tagged with. -/
def laneOf : Option (Hooks σ) → Nat
  | none => 0
  | some hooks => hooks.lane

/-- `t->bond.links`: 0 without hooks. -/
def linksOf : Option (Hooks σ) → Nat
  | none => 0
  | some hooks => hooks.links

/-- The bytes a write's header announced. -/
def takePayload (hooks : Option (Hooks σ)) (recv : Recv σ) (msg : Msg) :
    Option (Recv σ × Taken) :=
  if msg.bytes ≠ recv.rx.wantLen then
    recv.fail "a write's bytes differ in length from its header"
  else
    (msg.copySkip 0 msg.bytes).bind fun bytes =>
      let copied := recv.copy (laneOf hooks) recv.rx.wantOff bytes
      some ((copied.want recv.rx.wantOff 0).placed hooks, .taken none)

/-- `take_tail`: the bytes of a joined write that its part on the other link
announced. -/
def takeTail (hooks : Hooks σ) (now : Nat) (recv : Recv σ) (msg : Msg) :
    Option (Recv σ × Taken) :=
  match hooks.tail recv.bond with
  | none => recv.stall now
      "a message with no head waited 10 s for the other link to announce it"
  | some (told, bond) =>
      let recv := { recv with bond := bond }
      if msg.bytes ≠ told.len ∨
          told.ordinal ≠ (recv.rx.writesPlaced + 1) % 2 ^ 32 ∨
          recv.rx.inside told.off told.len = false then
        recv.fail "a joined write's tail differs from what its head announced"
      else
        (msg.copySkip 0 msg.bytes).bind fun bytes =>
          let copied := recv.nextSeq.copy hooks.lane told.off bytes
          some (copied.placed (some hooks), .taken none)

/-- `take_joined`: a joined write's part on this link. -/
def takeJoined (hooks : Hooks σ) (now : Nat) (recv : Recv σ) (msg : Msg)
    (head : Head) : Option (Recv σ × Taken) :=
  if hooks.links > 2 then
    recv.fail "two-link joined message on an N-link bond"
  else
    (if bondWsHead ≤ msg.bytes then msg.peek headLen (bondWsHead - headLen)
      else some []).bind fun rest =>
    let soff := field rest 0 8
    let sig := field rest 8 8
    let need := fun lane => if lane < 2 then field rest (16 + 4 * lane) 4 else 0
    let tail := field rest 24 4
    let wait := field rest 28 4
    let me := hooks.lane % 2
    if msg.bytes ≠ bondWsHead + head.len ∨ head.len = 0 ∨ soff % 8 ≠ 0 ∨
        recv.rx.inside head.off head.len = false ∨
        recv.rx.inside soff 8 = false ∨
        (tail ≠ 0 ∧ recv.rx.inside (head.off + head.len) tail = false) ∨
        sig = 0 ∨ bondWaitLink + bondWaitSignals < head.pad ∨
        need me ≠ (recv.rx.writesPlaced + 1) % 2 ^ 32 then
      recv.fail "a malformed bonded write-and-signal message"
    else
      match hooks.ready recv.bond sig head.pad wait with
      | .never => recv.fail "a bonded write-and-signal out of sequence"
      | .notYet =>
          recv.stall now
            "a joined write waited 10 s for the other link's earlier writes"
      | .now =>
          let announced :=
            if tail ≠ 0 then
              hooks.announce recv.bond
                ⟨head.off + head.len, tail, need (1 - me)⟩
            else (recv.bond, true)
          if announced.2 = false then
            recv.stall now "a joined write waited 10 s to announce its tail"
          else
            (msg.copySkip bondWsHead head.len).bind fun bytes =>
              let recv := { recv with bond := announced.1 }
              let copied := recv.nextSeq.copy hooks.lane head.off bytes
              let handed := (copied.placed (some hooks)).signal hooks
                sig need soff head.value
              if handed.2 then some (handed.1, .taken none)
              else handed.1.fail "the bonded signal was refused"

/-- A write and then its signal in one message on a single link. -/
def takeWriteSignal (hooks : Option (Hooks σ)) (recv : Recv σ) (msg : Msg)
    (head : Head) : Option (Recv σ × Taken) :=
  (if wsHead ≤ msg.bytes then msg.peek headLen 8
    else some []).bind fun rest =>
  let soff := field rest 0 8
  if msg.bytes ≠ wsHead + head.len ∨ head.len = 0 ∨ soff % 8 ≠ 0 ∨
      recv.rx.inside head.off head.len = false ∨
      recv.rx.inside soff 8 = false then
    recv.fail "a malformed write-and-signal message"
  else
    (msg.copySkip wsHead head.len).bind fun bytes =>
      let copied := recv.nextSeq.copy (laneOf hooks) head.off bytes
      some ((copied.placed hooks).storeWord soff head.value, .taken none)

/-- A bonded signal, in its two-link or its N-link form. -/
def takeBondSignal (hooks : Option (Hooks σ)) (recv : Recv σ) (msg : Msg)
    (head : Head) : Option (Recv σ × Taken) :=
  let links := if head.kind = Kind.bondSignal.code then 2 else head.pad
  let expected := if linksOf hooks ≠ 0 then linksOf hooks else 2
  let size := headLen + 8 + links * 4
  (if 2 ≤ links ∧ links ≤ tbBondMax ∧ links = expected ∧ msg.bytes = size then
      msg.peek headLen (8 + links * 4)
    else some []).bind fun rest =>
  let sig := field rest 0 8
  let need := fun lane => field rest (8 + 4 * lane) 4
  match hooks with
  | none => recv.fail "a malformed bonded signal message"
  | some hooks =>
      if links < 2 ∨ tbBondMax < links ∨ links ≠ expected ∨ msg.count ≠ 1 ∨
          msg.bytes ≠ size ∨ head.len ≠ 8 ∨ head.off % 8 ≠ 0 ∨
          recv.rx.inside head.off 8 = false ∨ sig = 0 then
        recv.fail "a malformed bonded signal message"
      else
        let handed := recv.nextSeq.signal hooks sig need head.off head.value
        if handed.2 then some (handed.1, .taken none)
        else handed.1.fail "the bonded signal was refused"

/-- A short write of an N-link bond with its signal, in one packet. -/
def takeInlineN (hooks : Option (Hooks σ)) (now : Nat) (recv : Recv σ)
    (msg : Msg) (head : Head) : Option (Recv σ × Taken) :=
  let links := head.pad / 256
  let flags := head.pad % 256
  let size := headLen + 16 + links * 8
  match hooks with
  | none => recv.fail "a malformed N-link inline message"
  | some hooks =>
      if links < 2 ∨ tbBondMax < links ∨ links ≠ hooks.links ∨
          msg.count ≠ 1 ∨ tbPacket < size ∨ tbPacket - size < head.len ∨
          msg.bytes ≠ size + head.len ∨
          (flags ≠ 0 ∧ flags ≠ bondWaitSignals) ∨ head.len = 0 ∨
          recv.rx.inside head.off head.len = false then
        recv.fail "a malformed N-link inline message"
      else
        (msg.peek headLen 16).bind fun front =>
        (msg.peek (headLen + 16) (links * 4)).bind fun needs =>
        (msg.peek (headLen + 16 + links * 4) (links * 4)).bind fun waits =>
        let soff := field front 0 8
        let sig := field front 8 8
        let need := fun lane => field needs (4 * lane) 4
        let wait := fun lane => field waits (4 * lane) 4
        if sig = 0 ∨ soff % 8 ≠ 0 ∨ recv.rx.inside soff 8 = false ∨
            need hooks.lane ≠ (recv.rx.writesPlaced + 1) % 2 ^ 32 then
          recv.fail "an N-link inline watermark is invalid"
        else
          match hooks.readyN recv.bond sig flags wait with
          | .never => recv.fail "an N-link inline message is out of sequence"
          | .notYet =>
              recv.stall now
                "an N-link inline message waited for prior placements"
          | .now =>
              (msg.peek size head.len).bind fun bytes =>
                let copied := recv.copy hooks.lane head.off bytes
                let handed := (copied.placed (some hooks)).nextSeq.signal
                  hooks sig need soff head.value
                if handed.2 then some (handed.1, .taken none)
                else handed.1.fail "an N-link inline signal was refused"

/-- The header of a write's part on one link of an N-link bond. -/
def takeWriteN (hooks : Option (Hooks σ)) (now : Nat) (recv : Recv σ)
    (msg : Msg) (head : Head) : Option (Recv σ × Taken) :=
  let links := head.pad / 256
  let flags := head.pad % 256
  match hooks with
  | none => recv.fail "a malformed N-link write header"
  | some hooks =>
      if links < 2 ∨ tbBondMax < links ∨ links ≠ hooks.links ∨
          msg.count ≠ 1 ∨ msg.bytes ≠ headLen + links * 4 ∨
          (flags ≠ 0 ∧ flags ≠ bondWaitSignals) ∨ head.value = 0 ∨
          head.len = 0 ∨ tbMsg < head.len ∨
          recv.rx.inside head.off head.len = false then
        recv.fail "a malformed N-link write header"
      else
        (msg.peek headLen (links * 4)).bind fun waits =>
        let wait := fun lane => field waits (4 * lane) 4
        match hooks.readyN recv.bond head.value flags wait with
        | .never => recv.fail "an N-link write is out of sequence"
        | .notYet =>
            recv.stall now "an N-link write waited for earlier placements"
        | .now => some (recv.nextSeq.want head.off head.len, .taken none)

/-- Why a plain header message is refused, if it is. -/
def plainFault (rx : Rx) (msg : Msg) (head : Head) : Option String :=
  if head.magic ≠ magic then some "a malformed header message"
  else if head.seq ≠ rx.rxSeq then some "a message was lost or reordered"
  else if rx.accepted = none ∧ head.kind ≠ Kind.fenceAck.code then
    some "the peer wrote before this end accepted"
  else if head.kind = Kind.inline.code ∧ head.len ≠ msg.bytes - headLen then
    some "an inline write of the wrong length"
  else if head.kind = Kind.write.code ∧ (head.len = 0 ∨ tbMsg < head.len) then
    some "a write of an impossible size"
  else if head.kind = Kind.signal.code ∧ head.off % 8 ≠ 0 then
    some "an unaligned signal"
  else if head.kind < Kind.write.code ∨ Kind.fenceAck.code < head.kind then
    some "an unknown message"
  else if head.kind ≤ Kind.inline.code ∧
      rx.inside head.off head.len = false then
    some "a write outside what the peer may write"
  else if head.kind = Kind.signal.code ∧ rx.inside head.off 8 = false then
    some "a signal outside what the peer may write"
  else none

/-- The plain kinds: write, inline, signal, fence and its answer. -/
def takePlain (hooks : Option (Hooks σ)) (reply : Reply) (recv : Recv σ)
    (msg : Msg) (head : Head) : Option (Recv σ × Taken) :=
  if msg.count ≠ 1 then recv.fail "a malformed header message"
  else
    match plainFault recv.rx msg head with
    | some why => recv.fail why
    | none =>
        if head.kind = Kind.fence.code then
          match reply with
          | .noRoom => some (recv, .notYet)
          | .refused => recv.fail "posting a send failed"
          | .sent => some (recv.nextSeq, .taken (some head.value))
        else if head.kind = Kind.inline.code then
          (msg.peek headLen head.len).bind fun bytes =>
            let copied := recv.nextSeq.copy (laneOf hooks) head.off bytes
            some (copied.placed hooks, .taken none)
        else if head.kind = Kind.write.code then
          some (recv.nextSeq.want head.off head.len, .taken none)
        else if head.kind = Kind.signal.code then
          some (recv.nextSeq.storeWord head.off head.value, .taken none)
        else
          some ({ recv.nextSeq with rx :=
            { recv.nextSeq.rx with fenceAcked := head.value % 2 ^ 32 } },
            .taken none)

/-- A head of the given kind, next in sequence, on a link that accepts
writes. -/
def isNext (rx : Rx) (head : Head) (kind : Kind) : Prop :=
  head.magic = magic ∧ head.kind = kind.code ∧ head.seq = rx.rxSeq ∧
    rx.accepted ≠ none

instance (rx : Rx) (head : Head) (kind : Kind) :
    Decidable (isNext rx head kind) :=
  inferInstanceAs (Decidable (_ ∧ _))

/-- The dispatch of `take` over a header message's kind. -/
def takeHead (hooks : Option (Hooks σ)) (now : Nat) (reply : Reply)
    (recv : Recv σ) (msg : Msg) (head : Head) : Option (Recv σ × Taken) :=
  if msg.bytes < headLen then recv.fail "a malformed header message"
  else if isNext recv.rx head .bondWriteSignal ∧ hooks.isSome then
    match hooks with
    | some hooks => takeJoined hooks now recv msg head
    | none => recv.fail "a malformed header message"
  else if isNext recv.rx head .writeSignal then
    takeWriteSignal hooks recv msg head
  else if isNext recv.rx head .bondSignal ∨ isNext recv.rx head .bondSignalN then
    takeBondSignal hooks recv msg head
  else if isNext recv.rx head .bondInlineN then
    takeInlineN hooks now recv msg head
  else if isNext recv.rx head .bondWriteN then
    takeWriteN hooks now recv msg head
  else takePlain hooks reply recv msg head

/-- `take`: one whole message from the ring. -/
def take (hooks : Option (Hooks σ)) (now : Nat) (reply : Reply)
    (recv : Recv σ) (msg : Msg) : Option (Recv σ × Taken) :=
  if recv.rx.wantLen ≠ 0 then takePayload hooks recv msg
  else
    (msg.peek 0 (min msg.bytes headLen)).bind fun raw =>
    let head := Head.decode raw
    match hooks with
    | some hooks =>
        if recv.rx.accepted ≠ none ∧ (msg.bytes < 4 ∨ head.magic ≠ magic) then
          takeTail hooks now recv msg
        else takeHead (some hooks) now reply recv msg head
    | none => takeHead none now reply recv msg head

/-- One round of `drain` over a landed message: a poisoned link takes nothing
more, and a message that was taken ends any stall. -/
def drainOne (hooks : Option (Hooks σ)) (now : Nat) (reply : Reply)
    (recv : Recv σ) (msg : Msg) : Option (Recv σ × Taken) :=
  if recv.rx.why ≠ none then some (recv, .failed)
  else
    (take hooks now reply recv msg).map fun after =>
      match after.2 with
      | .taken answer =>
          ({ after.1 with rx := { after.1.rx with stalled := 0 } },
            .taken answer)
      | result => (after.1, result)

end

end Link
end Mcdma
