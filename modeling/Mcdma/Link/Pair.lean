import Mcdma.Link.Cost
import Mcdma.Link.Plain

/-!
# Two ends of one link

Two ends that each run calls one after another over a single link: a call posts
its sections as the flow control gives room, packets land in the other end's
ring in order, sends complete once all their packets have landed, and each end
takes the messages in its ring and answers fences.  Every wait of a call is a
state here in which the other steps go on.
-/

namespace Mcdma
namespace Link

/-- A registered source region: `seg` bytes a registration. -/
structure Region where
  mem : Mem
  length : Nat
  seg : Nat
  segPos : 0 < seg

/-- The calls of a single link, with the source as it is when the call reads
it. -/
inductive Call
  | write (src : Region) (off roff len : Nat)
  | writeTry (src : Region) (off roff len : Nat)
  | signal (roff value : Nat)
  | writeSignal (src : Region) (off roff len soff value : Nat)
  | fence

/-- What a call posts without a break, once it has room for it. -/
inductive Section
  | piece (src : Mem) (cut : Piece)
  | pieces (src : Mem) (cuts : List Piece)
  | signal (roff value : Nat)
  | fused (src : Mem) (off roff len soff value : Nat)
  | fence

namespace Section

/-- The operation whose room check a section makes. -/
def op : Section → Op
  | .piece _ cut => .write cut.len
  | .pieces _ cuts => .writeTry (cuts.map Piece.len)
  | .signal _ _ => .signal
  | .fused _ _ _ len _ _ => .writeSignal len
  | .fence => .fence

/-- The messages of a section. -/
def post (lane : Lane) : Section → List Post × Lane
  | .piece src cut => writePiece src lane cut
  | .pieces src cuts =>
      let posted := postPieces (writePiece src) lane cuts
      (posted.1.flatten, posted.2)
  | .signal roff value => tbSignal lane roff value
  | .fused src off roff len soff value =>
      ([.writeSignal lane.txSeq (lane.writesPosted + 1) roff
        (src.read off len) soff value], lane.sent 1)
  | .fence => tbFence lane

/-- Whether the call waits for an answer behind this section. -/
def waits : Section → Bool
  | .fence => true
  | _ => false

end Section

namespace Call

/-- `tb_write`, `tb_write_try`, `tb_signal`, `tb_write_signal` and `tb_fence` as
sections. -/
def sections (max : Nat) : Call → List Section
  | .write src off roff len =>
      (cut max src.seg off roff len).map (Section.piece src.mem)
  | .writeTry src off roff len =>
      [.pieces src.mem (cut max src.seg off roff len)]
  | .signal roff value => [.signal roff value]
  | .writeSignal src off roff len soff value =>
      if max < len + wsHead ∨
          (off - wsHead) / src.seg ≠ (off + len - 1) / src.seg then
        (cut max src.seg off roff len).map (Section.piece src.mem) ++
          [.signal soff value]
      else [.fused src.mem off roff len soff value]
  | .fence => [.fence]

/-- The checks a call makes on its arguments. -/
def Checked : Call → Prop
  | .write src off _ len => off ≤ src.length ∧ len ≤ src.length - off
  | .writeTry src off roff len => roff + len < 2 ^ 64 ∧ off ≤ src.length ∧
      len ≤ src.length - off ∧ len ≤ tbTryMax
  | .signal _ _ => True
  | .writeSignal src off _ len _ _ => wsHead ≤ off ∧ off ≤ src.length ∧
      len ≤ src.length - off ∧ len ≠ 0
  | .fence => True

/-- What the callers promise: the call stays inside what the other end may be
written. -/
def Inside (range : Nat × Nat) : Call → Prop
  | .write _ _ roff len => range.1 ≤ roff ∧ roff + len ≤ range.2
  | .writeTry _ _ roff len => range.1 ≤ roff ∧ roff + len ≤ range.2
  | .signal roff value => WordAt range roff ∧ value < 2 ^ 64
  | .writeSignal _ _ roff len soff value => range.1 ≤ roff ∧
      roff + len ≤ range.2 ∧ WordAt range soff ∧ value < 2 ^ 64
  | .fence => True

instance : (call : Call) → Decidable call.Checked
  | .write _ _ _ _ => inferInstanceAs (Decidable (_ ∧ _))
  | .writeTry _ _ _ _ => inferInstanceAs (Decidable (_ ∧ _))
  | .signal _ _ => inferInstanceAs (Decidable True)
  | .writeSignal _ _ _ _ _ _ => inferInstanceAs (Decidable (_ ∧ _))
  | .fence => inferInstanceAs (Decidable True)

instance (range : Nat × Nat) : (call : Call) → Decidable (call.Inside range)
  | .write _ _ _ _ => inferInstanceAs (Decidable (_ ∧ _))
  | .writeTry _ _ _ _ => inferInstanceAs (Decidable (_ ∧ _))
  | .signal _ _ => inferInstanceAs (Decidable (_ ∧ _))
  | .writeSignal _ _ _ _ _ _ => inferInstanceAs (Decidable (_ ∧ _))
  | .fence => inferInstanceAs (Decidable True)

/-- The section of a call that gives up at once when there is no room. -/
def tryPart (max : Nat) : Call → Option Section
  | .writeTry src off roff len =>
      some (.pieces src.mem (cut max src.seg off roff len))
  | _ => none

/-- A call that gives up at once finds room. -/
def Tries (flow : Flow) (call : Call) : Prop :=
  ∀ part ∈ call.tryPart flow.max, part.op.canPost flow = true

instance (flow : Flow) (call : Call) : Decidable (call.Tries flow) :=
  inferInstanceAs (Decidable (∀ _ ∈ _, _))

end Call

/-- Messages as they cross. -/
def packetsOfAll (posts : List Post) : List Packet :=
  posts.flatMap fun post => packetsOf post.wire

/-- `(int32_t)(fence_acked - mine) >= 0`. -/
def fenceDone (acked mine : Nat) : Bool :=
  decide (0 ≤ Int.bmod ((acked : Int) - mine) (2 ^ 32))

/-- One end of a link.  `out` holds its posted packets that have not landed,
`todo` the sections of the call it is in, `waits` the fence it waits for; `range`
is what the other end may write.  `calls` and `log` are the history of its calls
and of its messages. -/
structure End where
  range : Nat × Nat
  flow : Flow
  ring : Ring
  recv : Recv Unit
  lane : Lane := {}
  out : List Packet := []
  todo : List Section := []
  waits : Option Nat := none
  calls : List Call := []
  log : List Post := []

namespace End

/-- An end as `tb_init`, `tb_connect` and `tb_accept` leave it. -/
def init (depth slots peerSlots : Nat) (range : Nat × Nat) : End where
  range := range
  flow := { depth := depth, peerSlots := peerSlots }
  ring := { slots := slots, posted := slots }
  recv := ⟨{ accepted := some range }, (), []⟩

/-- Post messages; the device accepts them. -/
def emit (one : End) (posted : List Post × Lane) : End :=
  { one with
    lane := posted.2
    flow := (one.flow.postAll (fun _ => true) (sendsOf posted.1)).1
    out := one.out ++ packetsOfAll posted.1
    log := one.log ++ posted.1 }

/-- Post the next section of the call. -/
def postSection (one : End) (part : Section) (rest : List Section) : End :=
  let posted := one.emit (part.post one.lane)
  { posted with
    todo := rest
    waits := if part.waits then some posted.lane.fences else one.waits }

/-- The answer a fence meets at this end. -/
def reply (one : End) : Reply :=
  if one.flow.hasRoom 1 1 true then .sent else .noRoom

/-- Take the message found at the ring's head, and answer it if it is a
fence. -/
def take (one : End) (now : Nat) (found : Nat × Nat) : Option End :=
  (drainOne none now one.reply one.recv
      (one.ring.msg one.ring.used found.1 found.2)).bind fun after =>
    match after.2 with
    | .taken answer =>
        let taken := { one with
          recv := after.1
          ring := one.ring.consume found.1 }
        match answer with
        | none => some taken
        | some value =>
            some (taken.emit
              ([.fenceAck taken.lane.txSeq value], taken.lane.sent 0))
    | .notYet => none
    | .failed => some { one with recv := after.1 }

end End

/-- The two ends of a link. -/
structure Pair where
  here : End
  there : End

namespace Pair

/-- What happens at one end: a call begins, a section is posted, a packet of the
other end lands, a send completion is reaped, the head message is taken, slots
are posted again, or a fence returns. -/
inductive Act
  | call (call : Call)
  | post
  | land
  | reap
  | take (now : Nat)
  | repost (n : Nat)
  | finish

/-- The same link seen from its other end. -/
def swap (pair : Pair) : Pair :=
  ⟨pair.there, pair.here⟩

/-- A call begins; one that does not wait posts at once. -/
def begin (one : End) (call : Call) : End :=
  match call.tryPart one.flow.max with
  | some part =>
      { one.emit (part.post one.lane) with calls := one.calls ++ [call] }
  | none =>
      { one with
        calls := one.calls ++ [call]
        todo := call.sections one.flow.max }

/-- The oldest send of an end has landed whole. -/
def Landed (one : End) : Prop :=
  one.flow.txDone < one.flow.txPosted ∧
    one.flow.txPackets (one.flow.txDone % tbSendWr) + one.out.length ≤
      one.flow.packets

instance (one : End) : Decidable (Landed one) :=
  inferInstanceAs (Decidable (_ ∧ _))

/-- One step of the end at hand. -/
def stepHere (pair : Pair) : Act → Option Pair
  | .call call =>
      if pair.here.todo.isEmpty ∧ pair.here.waits = none ∧ call.Checked ∧
          call.Inside pair.there.range ∧ call.Tries pair.here.flow then
        some { pair with here := begin pair.here call }
      else none
  | .post =>
      match pair.here.todo with
      | [] => none
      | part :: rest =>
          if part.op.canPost pair.here.flow then
            some { pair with here := pair.here.postSection part rest }
          else none
  | .land =>
      match pair.there.out with
      | [] => none
      | packet :: rest =>
          if pair.here.ring.filled < pair.here.ring.posted then
            some
              { here := { pair.here with ring := pair.here.ring.land packet }
                there := { pair.there with out := rest } }
          else none
  | .reap =>
      if Landed pair.here then
        some { pair with
          here := { pair.here with flow := pair.here.flow.complete } }
      else none
  | .take now =>
      pair.here.ring.next?.bind fun found =>
        (pair.here.take now found).map fun one => { pair with here := one }
  | .repost n =>
      if 0 < n ∧ n ≤ pair.here.ring.used + pair.here.ring.slots -
          pair.here.ring.posted then
        some { pair with
          here := { pair.here with ring := pair.here.ring.repost n } }
      else none
  | .finish =>
      match pair.here.waits with
      | none => none
      | some mine =>
          if fenceDone pair.here.recv.rx.fenceAcked mine then
            some { pair with here := { pair.here with waits := none } }
          else none

/-- One step of either end. -/
def step (pair : Pair) (act : Bool × Act) : Option Pair :=
  if act.1 then (pair.swap.stepHere act.2).map swap else pair.stepHere act.2

end Pair

/-- What the two devices granted and what each end may be written. -/
structure PairCfg where
  depth : Bool → Nat
  slots : Bool → Nat
  range : Bool → Nat × Nat
  deep : ∀ side, 4 ≤ depth side
  wide : ∀ side, 4 ≤ slots side
  fits : ∀ side, (range side).2 < 2 ^ 64

/-- Sixteen packets are enough for either end. -/
theorem sixteen_enough (_side : Bool) : 4 ≤ 16 := by omega

/-- A link between two ends. -/
def Pair.machine (cfg : PairCfg) : Machine Pair (Bool × Pair.Act) where
  start :=
    { here := End.init (cfg.depth false) (cfg.slots false) (cfg.slots true)
        (cfg.range false)
      there := End.init (cfg.depth true) (cfg.slots true) (cfg.slots false)
        (cfg.range true) }
  step := Pair.step

end Link
end Mcdma
