import Mcdma.Lib.Machine
import Mcdma.Link.Ring
import Mcdma.Link.Send
import Mathlib.Algebra.BigOperators.Intervals

/-!
# Flow control of a link

The counters of `struct tb` that decide whether a link may post: packets in
flight, sends in flight and staging slots in flight, with the record each send
keeps until its completion, and the counters of the receive ring.  Every sender
checks them its own way before it posts; the machine here interleaves the
senders with completions of any content, and its invariant says that the checks
are enough for each other.
-/

namespace Mcdma
namespace Link

/-- The sending half of the flow control of `struct tb`. -/
structure Flow where
  depth : Nat
  peerSlots : Nat
  packets : Nat := 0
  txPosted : Nat := 0
  txDone : Nat := 0
  staged : Nat := 0
  unstaged : Nat := 0
  txPackets : Nat → Nat := fun _ => 0
  txStaged : Nat → Nat := fun _ => 0
  poisoned : Bool := false

namespace Flow

/-- `has_room`: room for `n` more packets in `sends` more sends, holding back one
header for a fence's answer unless `reply`. -/
def hasRoom (flow : Flow) (n sends : Nat) (reply : Bool) : Bool :=
  let spare := if reply then 0 else 1
  decide (flow.packets + n + spare ≤ flow.depth ∧
    flow.txPosted - flow.txDone + sends + spare ≤ tbSendWr ∧
    flow.staged - flow.unstaged + spare < tbStage)

/-- The largest message of this link. -/
def max (flow : Flow) : Nat :=
  msgMax flow.depth flow.peerSlots

/-- What an accepted `post_send` records. -/
def post (flow : Flow) (len staged : Nat) : Flow :=
  let record := flow.txPosted % tbSendWr
  { flow with
    txPackets := Function.update flow.txPackets record
      (Link.packets len % 2 ^ 16)
    txStaged := Function.update flow.txStaged record staged
    packets := flow.packets + Link.packets len
    txPosted := flow.txPosted + 1 }

/-- `post_send`, where `device` says whether it accepts the link's send of each
number. -/
def postSend (device : Nat → Bool) (flow : Flow) (len staged : Nat) :
    Flow × Bool :=
  if len = 0 ∨ device flow.txPosted = false then
    ({ flow with poisoned := true }, false)
  else (flow.post len staged, true)

/-- Post messages one after another.  A message from the staging ring counts its
slot as soon as it is posted, as in `send_head`. -/
def postAll (device : Nat → Bool) : Flow → List (Nat × Nat) → Flow × Bool
  | flow, [] => (flow, true)
  | flow, (len, staged) :: rest =>
      let posted := flow.postSend device len staged
      if posted.2 then
        postAll device
          { posted.1 with staged := posted.1.staged + staged } rest
      else posted

/-- A send completed: its record says what it frees. -/
def complete (flow : Flow) : Flow :=
  let record := flow.txDone % tbSendWr
  { flow with
    packets := flow.packets - flow.txPackets record
    unstaged := flow.unstaged + flow.txStaged record
    txDone := flow.txDone + 1 }

/-- The counting loop of `tb_can_write` over the pieces of a write: packets,
sends and staging slots, unless no possible room remains. -/
def countPieces (depth : Nat) : List Nat → Nat × Nat × Nat →
    Option (Nat × Nat × Nat)
  | [], counts => some counts
  | take :: rest, (n, sends, stages) =>
      let n := n + (if take ≤ inlineMax then 1 else 1 + Link.packets take)
      let sends := sends + (if take ≤ inlineMax then 1 else 2)
      let stages := stages + 1
      if depth ≤ n ∨ tbSendWr ≤ sends ∨ tbStage ≤ stages then none
      else countPieces depth rest (n, sends, stages)

/-- `tb_can_write`: every header at once. -/
def canWrite (flow : Flow) (pieces : List Nat) : Bool :=
  match countPieces flow.depth pieces (0, 0, 0) with
  | none => false
  | some (n, sends, stages) =>
      decide (flow.packets + n + 1 ≤ flow.depth ∧
        flow.txPosted - flow.txDone + sends + 1 ≤ tbSendWr ∧
        flow.staged - flow.unstaged + stages + 1 ≤ tbStage)

/-- The room check of `tb_can_bond_write_signal` and `tb_can_bond_tail`: one
message that needs no staging slot. -/
def canFused (flow : Flow) (bytes : Nat) : Bool :=
  decide (flow.packets + Link.packets bytes + 1 ≤ flow.depth ∧
    flow.txPosted - flow.txDone + 2 ≤ tbSendWr ∧
    flow.staged - flow.unstaged + 1 ≤ tbStage)

end Flow

/-- `BOND_SIGNAL_HEAD`: bytes of a two-link bonded signal. -/
def bondSignalHead : Nat := 48

/-- What one piece of a plain write posts: each message's bytes and the staging
slots it takes. -/
def pieceSends (take : Nat) : List (Nat × Nat) :=
  if take ≤ inlineMax then [(headLen + take, 1)]
  else [(headLen, 1), (take, 0)]

/-- The operations that post, each as far as it posts without a break. -/
inductive Op
  | write (take : Nat)
  | writeTry (pieces : List Nat)
  | signal
  | fence
  | writeSignal (len : Nat)
  | bondSignal
  | bondSignalN (links : Nat)
  | bondInlineN (links len : Nat)
  | bondWriteN (links take : Nat)
  | bondWriteSignal (len : Nat)
  | bondTail (len : Nat)
  | fenceAck
  deriving DecidableEq

namespace Op

/-- The messages of an operation: bytes and staging slots. -/
def sends : Op → List (Nat × Nat)
  | .write take => pieceSends take
  | .writeTry pieces => pieces.flatMap pieceSends
  | .signal => [(headLen, 1)]
  | .fence => [(headLen, 1)]
  | .writeSignal len => [(wsHead + len, 0)]
  | .bondSignal => [(bondSignalHead, 1)]
  | .bondSignalN links => [(headLen + 8 + links * 4, 1)]
  | .bondInlineN links len => [(headLen + 16 + links * 8 + len, 1)]
  | .bondWriteN links take => [(headLen + links * 4, 1), (take, 0)]
  | .bondWriteSignal len => [(bondWsHead + len, 0)]
  | .bondTail len => [(len, 0)]
  | .fenceAck => [(headLen, 1)]

/-- The check an operation makes before it posts. -/
def canPost (flow : Flow) : Op → Bool
  | .write take =>
      if take ≤ inlineMax then flow.hasRoom 1 1 false
      else flow.hasRoom (1 + packets take) 2 false
  | .writeTry pieces => flow.canWrite pieces
  | .signal => flow.hasRoom 1 1 false
  | .fence => flow.hasRoom 1 1 false
  | .writeSignal len => flow.hasRoom (packets (wsHead + len)) 1 false
  | .bondSignal => flow.hasRoom 1 1 false
  | .bondSignalN _ => flow.hasRoom 1 1 false
  | .bondInlineN _ _ => flow.hasRoom 1 1 false
  | .bondWriteN _ take => flow.hasRoom (1 + packets take) 2 false
  | .bondWriteSignal len => flow.canFused (bondWsHead + len)
  | .bondTail len => flow.canFused len
  | .fenceAck => flow.hasRoom 1 1 true

/-- The sizes the operations are called with: pieces come from the cutting loop,
fused messages and headers fit where the callers check that they do. -/
def Sized (max : Nat) : Op → Prop
  | .write take => 0 < take ∧ take ≤ max
  | .writeTry pieces => ∀ take ∈ pieces, 0 < take ∧ take ≤ max
  | .writeSignal len => 0 < len ∧ wsHead + len ≤ max
  | .bondSignalN links => links ≤ tbBondMax
  | .bondInlineN links len =>
      links ≤ tbBondMax ∧ headLen + 16 + links * 8 + len ≤ tbPacket
  | .bondWriteN links take => links ≤ tbBondMax ∧ 0 < take ∧ take ≤ max
  | .bondWriteSignal len => 0 < len ∧ bondWsHead + len ≤ max
  | .bondTail len => 0 < len ∧ len ≤ max
  | _ => True

instance (max : Nat) : (op : Op) → Decidable (op.Sized max)
  | .write _ => inferInstanceAs (Decidable (_ ∧ _))
  | .writeTry _ => inferInstanceAs (Decidable (∀ _ ∈ _, _))
  | .signal => inferInstanceAs (Decidable True)
  | .fence => inferInstanceAs (Decidable True)
  | .writeSignal _ => inferInstanceAs (Decidable (_ ∧ _))
  | .bondSignal => inferInstanceAs (Decidable True)
  | .bondSignalN _ => inferInstanceAs (Decidable (_ ≤ _))
  | .bondInlineN _ _ => inferInstanceAs (Decidable (_ ∧ _))
  | .bondWriteN _ _ => inferInstanceAs (Decidable (_ ∧ _))
  | .bondWriteSignal _ => inferInstanceAs (Decidable (_ ∧ _))
  | .bondTail _ => inferInstanceAs (Decidable (_ ∧ _))
  | .fenceAck => inferInstanceAs (Decidable True)

/-- Post an operation's messages.  `tb_bond_write_n` counts its staging slot only
once its payload is posted too. -/
def run (device : Nat → Bool) (flow : Flow) : Op → Flow
  | .bondWriteN links take =>
      let headed := flow.postSend device (headLen + links * 4) 1
      if headed.2 then
        let posted := headed.1.postSend device take 0
        if posted.2 then { posted.1 with staged := posted.1.staged + 1 }
        else posted.1
      else headed.1
  | op => (flow.postAll device op.sends).1

end Op

/-- The status of a completion: `IBV_WC_SUCCESS`, `IBV_WC_LOC_LEN_ERR` or
another. -/
inductive Status
  | success
  | locLenErr
  | other
  deriving DecidableEq

/-- The tag of a work request: `T_SEND`, `T_RECV` or neither. -/
inductive WorkTag
  | send
  | recv
  | other
  deriving DecidableEq

/-- `struct ibv_wc` as far as `complete` reads it; a receive's packet brings
`byte_len` bytes. -/
structure Completion where
  tag : WorkTag
  index : Nat
  status : Status
  packet : List UInt8
  deriving DecidableEq

/-- The flow control of one end: its sending counters and its receive ring. -/
structure Port where
  flow : Flow
  ring : Ring

namespace Port

/-- A receive completion `complete` accepts. -/
def Receives (port : Port) (wc : Completion) : Prop :=
  wc.tag = .recv ∧ wc.index = port.ring.filled % port.ring.slots ∧
    port.ring.filled < port.ring.posted ∧
    ((wc.status = .success ∧ 1 ≤ wc.packet.length ∧
        wc.packet.length ≤ tbPacket) ∨
      (wc.status = .locLenErr ∧ wc.packet.length = tbPacket))

instance (port : Port) (wc : Completion) : Decidable (port.Receives wc) :=
  inferInstanceAs (Decidable (_ ∧ _))

/-- A send completion `complete` accepts. -/
def Sent (port : Port) (wc : Completion) : Prop :=
  wc.tag = .send ∧ wc.status = .success ∧
    wc.index = port.flow.txDone % tbSendWr ∧
    port.flow.txDone < port.flow.txPosted

instance (port : Port) (wc : Completion) : Decidable (port.Sent wc) :=
  inferInstanceAs (Decidable (_ ∧ _))

/-- The link failed. -/
def poison (port : Port) : Port :=
  { port with flow := { port.flow with poisoned := true } }

/-- `complete`. -/
def complete (port : Port) (wc : Completion) : Port :=
  if port.Receives wc then
    { port with
      ring := port.ring.land ⟨wc.packet, decide (wc.status = .success)⟩ }
  else if port.Sent wc then { port with flow := port.flow.complete }
  else port.poison

/-- What happens at one end, in any order: an operation posts, a completion
arrives, `drain` takes the message at the ring's head or fails, and slots go
back to the device. -/
inductive Act
  | post (op : Op)
  | complete (wc : Completion)
  | take
  | fail
  | repost (n : Nat) (accepted : Bool)

/-- One step of an end.  A poisoned link does nothing more. -/
def step (device : Nat → Bool) (port : Port) : Act → Option Port
  | .post op =>
      if port.flow.poisoned = false ∧ op.Sized port.flow.max ∧
          op.canPost port.flow then
        some { port with flow := op.run device port.flow }
      else none
  | .complete wc =>
      if port.flow.poisoned then none else some (port.complete wc)
  | .take =>
      if port.flow.poisoned then none
      else
        port.ring.next?.map fun found =>
          { port with ring := port.ring.consume found.1 }
  | .fail => if port.flow.poisoned then none else some port.poison
  | .repost n accepted =>
      if port.flow.poisoned = false ∧ 0 < n ∧
          n ≤ port.ring.used + port.ring.slots - port.ring.posted then
        some (if accepted then { port with ring := port.ring.repost n }
          else port.poison)
      else none

/-- One end of a link: `tb_init` posts every slot of the ring. -/
def machine (device : Nat → Bool) (depth peerSlots slots : Nat) :
    Machine Port Act where
  start :=
    { flow := { depth := depth, peerSlots := peerSlots }
      ring := { slots := slots, posted := slots } }
  step := step device

end Port

/-! ## The sending counters -/

namespace Flow

/-- The counters agree with the records of the sends posted and not done. -/
structure Ok (flow : Flow) : Prop where
  done : flow.txDone ≤ flow.txPosted
  window : flow.txPosted - flow.txDone ≤ tbSendWr
  packets : flow.packets =
    ∑ send ∈ Finset.Ico flow.txDone flow.txPosted,
      flow.txPackets (send % tbSendWr)
  depth : flow.packets ≤ flow.depth
  staged : flow.staged = flow.unstaged +
    ∑ send ∈ Finset.Ico flow.txDone flow.txPosted,
      flow.txStaged (send % tbSendWr)
  stage : flow.staged - flow.unstaged ≤ tbStage

/-- What posting `n` packets in `sends` sends from `stages` staging slots may
move. -/
structure Grew (flow next : Flow) (n sends stages : Nat) : Prop where
  packets : next.packets ≤ flow.packets + n
  posted : next.txPosted ≤ flow.txPosted + sends
  staged : next.staged ≤ flow.staged + stages
  done : next.txDone = flow.txDone
  unstaged : next.unstaged = flow.unstaged
  depth : next.depth = flow.depth

/-- There is room for `n` packets in `sends` sends from `stages` slots. -/
structure Fits (flow : Flow) (n sends stages : Nat) : Prop where
  packets : flow.packets + n ≤ flow.depth
  posted : flow.txPosted - flow.txDone + sends ≤ tbSendWr
  staged : flow.staged - flow.unstaged + stages ≤ tbStage

variable {device : Nat → Bool} {flow next : Flow}

/-- A record written for the next send leaves those in flight alone. -/
theorem sum_update (records : Nat → Nat) {done posted : Nat} (value : Nat)
    (before : done ≤ posted) (room : posted - done < tbSendWr) :
    ∑ send ∈ Finset.Ico done (posted + 1),
        Function.update records (posted % tbSendWr) value (send % tbSendWr) =
      ∑ send ∈ Finset.Ico done posted, records (send % tbSendWr) + value := by
  rw [Finset.sum_Ico_succ_top before, Function.update_self]
  congr 1
  refine Finset.sum_congr rfl fun send member => ?_
  have range := Finset.mem_Ico.mp member
  exact Function.update_of_ne (Circular.slot_ne range.2 (by omega)) _ _

/-- One more message, with the staging slot it takes counted. -/
theorem Ok.post (ok : flow.Ok) {len staged : Nat}
    (small : Link.packets len < 2 ^ 16)
    (fits : flow.Fits (Link.packets len) 1 staged) :
    Ok { flow.post len staged with
      staged := (flow.post len staged).staged + staged } := by
  have room := fits.posted
  have before := ok.done
  have stage := fits.staged
  have counted := ok.staged
  refine ⟨?_, ?_, ?_, fits.packets, ?_, ?_⟩
  · exact le_trans before (Nat.le_succ _)
  · change flow.txPosted + 1 - flow.txDone ≤ tbSendWr
    omega
  · change flow.packets + Link.packets len = ∑ send ∈ Finset.Ico flow.txDone
      (flow.txPosted + 1), Function.update flow.txPackets
        (flow.txPosted % tbSendWr) (Link.packets len % 2 ^ 16)
        (send % tbSendWr)
    rw [sum_update _ _ before (by omega), ← ok.packets,
      Nat.mod_eq_of_lt small]
  · change flow.staged + staged = flow.unstaged + ∑ send ∈ Finset.Ico
      flow.txDone (flow.txPosted + 1), Function.update flow.txStaged
        (flow.txPosted % tbSendWr) staged (send % tbSendWr)
    rw [sum_update _ _ before (by omega), ← Nat.add_assoc, ← counted]
  · change flow.staged + staged - flow.unstaged ≤ tbStage
    omega

/-- A poisoned link keeps its counters. -/
theorem Ok.poison (ok : flow.Ok) : Ok { flow with poisoned := true } :=
  ⟨ok.done, ok.window, ok.packets, ok.depth, ok.staged, ok.stage⟩

/-- What posting messages may move, wherever the device stops. -/
theorem postAll_grew (sends : List (Nat × Nat)) :
    flow.Grew (flow.postAll device sends).1
      (sends.map fun send => Link.packets send.1).sum sends.length
      (sends.map Prod.snd).sum := by
  induction sends generalizing flow with
  | nil => exact ⟨by simp [postAll], by simp [postAll], by simp [postAll],
      rfl, rfl, rfl⟩
  | cons send rest inductionHypothesis =>
      obtain ⟨len, staged⟩ := send
      simp only [List.map_cons, List.sum_cons, List.length_cons]
      rw [postAll, postSend]
      split
      · refine ⟨?_, ?_, ?_, rfl, rfl, rfl⟩ <;> simp
      · obtain ⟨packets, posted, stages, done, unstaged, depth⟩ :=
          @inductionHypothesis { flow.post len staged with
            staged := (flow.post len staged).staged + staged }
        refine ⟨?_, ?_, ?_, done, unstaged, depth⟩
        · simp only [post] at packets ⊢
          simp only [if_true]
          omega
        · simp only [post] at posted ⊢
          simp only [if_true]
          omega
        · simp only [post] at stages ⊢
          simp only [if_true]
          omega

/-- Posting messages there is room for keeps the counters right, wherever the
device stops. -/
theorem postAll_ok (ok : flow.Ok) (sends : List (Nat × Nat))
    (small : ∀ send ∈ sends, Link.packets send.1 < 2 ^ 16)
    (fits : flow.Fits (sends.map fun send => Link.packets send.1).sum
      sends.length (sends.map Prod.snd).sum) :
    (flow.postAll device sends).1.Ok := by
  induction sends generalizing flow with
  | nil => exact ok
  | cons send rest inductionHypothesis =>
      obtain ⟨len, staged⟩ := send
      obtain ⟨packetsFit, postedFit, stagedFit⟩ := fits
      simp only [List.map_cons, List.sum_cons, List.length_cons]
        at packetsFit postedFit stagedFit
      have counted := ok.staged
      have before := ok.done
      rw [postAll, postSend]
      split
      · exact ok.poison
      · have one : flow.Fits (Link.packets len) 1 staged :=
          ⟨by omega, by omega, by omega⟩
        have posted := ok.post (small (len, staged) (List.mem_cons_self ..)) one
        exact inductionHypothesis posted
          (fun send member => small send (List.mem_cons_of_mem _ member))
          ⟨by simp only [post]; omega, by simp only [post]; omega,
            by simp only [post]; omega⟩

/-- A completion in order frees what its send's record says. -/
theorem Ok.complete (ok : flow.Ok) (some : flow.txDone < flow.txPosted) :
    flow.complete.Ok := by
  have window := ok.window
  have packetsEq := ok.packets
  have stagedEq := ok.staged
  have stage := ok.stage
  have depth := ok.depth
  rw [Finset.sum_eq_sum_Ico_succ_bot some] at packetsEq stagedEq
  refine ⟨some, ?_, ?_, ?_, ?_, ?_⟩
  · change flow.txPosted - (flow.txDone + 1) ≤ tbSendWr
    omega
  · change flow.packets - flow.txPackets (flow.txDone % tbSendWr) = _
    rw [packetsEq, Nat.add_sub_cancel_left]
    rfl
  · change flow.packets - _ ≤ flow.depth
    omega
  · change flow.staged = flow.unstaged +
      flow.txStaged (flow.txDone % tbSendWr) + _
    rw [stagedEq, ← Nat.add_assoc]
    rfl
  · change flow.staged - (flow.unstaged + _) ≤ tbStage
    omega

end Flow

/-! ## Each operation's check is enough for what it posts -/

theorem msgMax_le (depth peerSlots : Nat) : msgMax depth peerSlots ≤ tbMsg :=
  Nat.min_le_right _ _

theorem packets_small {len : Nat} (short : len ≤ tbMsg) :
    packets len < 2 ^ 16 := by
  simp only [packets, tbMsg, tbPacket] at *
  omega

/-- Packets a list of messages crosses as. -/
def packetSum (sends : List (Nat × Nat)) : Nat :=
  (sends.map fun send => packets send.1).sum

/-- Staging slots a list of messages takes. -/
def stageSum (sends : List (Nat × Nat)) : Nat :=
  (sends.map Prod.snd).sum

theorem packetSum_append (first second : List (Nat × Nat)) :
    packetSum (first ++ second) = packetSum first + packetSum second := by
  simp [packetSum]

theorem stageSum_append (first second : List (Nat × Nat)) :
    stageSum (first ++ second) = stageSum first + stageSum second := by
  simp [stageSum]

/-- What one piece costs. -/
theorem cost_pieceSends (take : Nat) :
    packetSum (pieceSends take) =
        (if take ≤ inlineMax then 1 else 1 + packets take) ∧
      (pieceSends take).length = (if take ≤ inlineMax then 1 else 2) ∧
      stageSum (pieceSends take) = 1 := by
  unfold pieceSends
  split
  · next short =>
      have one : packets (headLen + take) = 1 :=
        packets_eq_one (by simp only [headLen]; omega) (by
          simp only [inlineMax, headLen, tbPacket] at *
          omega)
      simp [packetSum, stageSum, one]
  · have one : packets headLen = 1 := by decide
    simp [packetSum, stageSum, one]

/-- The counting loop counts what the pieces post. -/
theorem countPieces_eq {depth : Nat} {pieces : List Nat}
    {counts final : Nat × Nat × Nat}
    (counted : Flow.countPieces depth pieces counts = some final) :
    final = (counts.1 + packetSum (pieces.flatMap pieceSends),
      counts.2.1 + (pieces.flatMap pieceSends).length,
      counts.2.2 + stageSum (pieces.flatMap pieceSends)) := by
  induction pieces generalizing counts with
  | nil =>
      have same := Option.some.inj counted
      rw [← same]
      rfl
  | cons take rest inductionHypothesis =>
      obtain ⟨n, sends, stages⟩ := counts
      obtain ⟨packetCost, sendCost, stageCost⟩ := cost_pieceSends take
      unfold Flow.countPieces at counted
      rw [Option.ite_none_left_eq_some] at counted
      rw [inductionHypothesis counted.2, List.flatMap_cons, packetSum_append,
        stageSum_append, List.length_append, packetCost, sendCost, stageCost]
      simp only [Nat.add_assoc]

namespace Op

/-- Whether an operation leaves room for a fence's answer. -/
def spare : Op → Nat
  | .fenceAck => 0
  | _ => 1

variable {device : Nat → Bool} {flow : Flow} {op : Op}

/-- The messages of an operation fit their records. -/
theorem sends_small (sized : op.Sized flow.max) :
    ∀ send ∈ op.sends, packets send.1 < 2 ^ 16 := by
  have most : flow.max ≤ tbMsg := msgMax_le _ _
  have pieces : ∀ take ≤ flow.max, ∀ send ∈ pieceSends take,
      send.1 ≤ tbMsg := by
    intro take short send member
    unfold pieceSends at member
    split at member
    · next inline =>
        rw [List.mem_singleton.mp member]
        simp only [inlineMax, headLen, tbPacket, tbMsg] at *
        omega
    · simp only [List.mem_cons, List.not_mem_nil, or_false] at member
      rcases member with rfl | rfl
      · decide
      · exact le_trans short most
  intro send member
  apply packets_small
  cases op with
  | write take => exact pieces take sized.2 send member
  | writeTry takes =>
      obtain ⟨take, inside, mine⟩ := List.mem_flatMap.mp member
      exact pieces take (sized take inside).2 send mine
  | bondWriteN links take =>
      obtain ⟨few, -, short⟩ := sized
      simp only [sends, List.mem_cons, List.not_mem_nil, or_false] at member
      rcases member with rfl | rfl
      · simp only [headLen, tbBondMax, tbMsg] at *
        omega
      · exact le_trans short most
  | writeSignal len | bondWriteSignal len | bondTail len =>
      rw [List.mem_singleton.mp member]
      exact le_trans sized.2 most
  | bondSignalN links =>
      rw [List.mem_singleton.mp member]
      simp only [Sized, headLen, tbBondMax, tbMsg] at *
      omega
  | bondInlineN links len =>
      rw [List.mem_singleton.mp member]
      refine le_trans sized.2 ?_
      decide
  | signal | fence | bondSignal | fenceAck =>
      rw [List.mem_singleton.mp member]
      decide

theorem fits_of_hasRoom {n sends stages : Nat} (one : stages ≤ 1)
    (room : flow.hasRoom n sends false = true) :
    flow.Fits (n + 1) (sends + 1) (stages + 1) := by
  simp only [Flow.hasRoom, Bool.false_eq_true, if_false,
    decide_eq_true_eq] at room
  exact ⟨by omega, by omega, by omega⟩

theorem packets_header {len : Nat} (pos : 0 < len) (short : len ≤ tbPacket) :
    packetSum [(len, 1)] = 1 := by
  simp [packetSum, packets_eq_one pos short]

/-- An operation whose check passes has room for all its messages, and unless it
is itself an answer for one answer more. -/
theorem fits (sized : op.Sized flow.max) (can : op.canPost flow = true) :
    flow.Fits (packetSum op.sends + op.spare) (op.sends.length + op.spare)
      (stageSum op.sends + op.spare) := by
  cases op with
  | write take =>
      obtain ⟨packetCost, sendCost, stageCost⟩ := cost_pieceSends take
      simp only [canPost] at can
      simp only [sends, spare, packetCost, sendCost, stageCost]
      split at can
      · next short =>
          rw [if_pos short, if_pos short]
          exact fits_of_hasRoom le_rfl can
      · next long =>
          rw [if_neg long, if_neg long]
          exact fits_of_hasRoom le_rfl can
  | writeTry takes =>
      simp only [canPost, Flow.canWrite] at can
      split at can
      · simp at can
      · next counted =>
          have counts := countPieces_eq counted
          simp only [Prod.mk.injEq, Nat.zero_add] at counts
          obtain ⟨rfl, rfl, rfl⟩ := counts
          simp only [decide_eq_true_eq] at can
          exact ⟨can.1, can.2.1, can.2.2⟩
  | bondWriteN links take =>
      have few : links ≤ 24 := sized.1
      have head : packets (headLen + links * 4) = 1 :=
        packets_eq_one (by simp only [headLen]; omega) (by
          simp only [headLen, tbPacket]
          omega)
      have costs : packetSum (Op.bondWriteN links take).sends =
          1 + packets take := by
        simp [packetSum, sends, head]
      rw [costs]
      exact fits_of_hasRoom le_rfl can
  | writeSignal len => exact fits_of_hasRoom (Nat.zero_le 1) can
  | bondWriteSignal len | bondTail len =>
      simp only [canPost, Flow.canFused, decide_eq_true_eq] at can
      exact ⟨can.1, can.2.1, can.2.2⟩
  | signal | fence | bondSignal =>
      exact fits_of_hasRoom le_rfl can
  | bondSignalN links =>
      have few : links ≤ 24 := sized
      simp only [sends]
      rw [packets_header (by simp only [headLen]; omega) (by
        simp only [headLen, tbPacket]
        omega)]
      exact fits_of_hasRoom le_rfl can
  | bondInlineN links len =>
      simp only [sends]
      rw [packets_header (by simp only [headLen]; omega) sized.2]
      exact fits_of_hasRoom le_rfl can
  | fenceAck =>
      simp only [canPost, Flow.hasRoom, if_true, decide_eq_true_eq] at can
      exact ⟨can.1, can.2.1, can.2.2⟩

/-- The device refuses the payload of a bonded part after it accepted its
header. -/
def HalfRefused (device : Nat → Bool) (flow : Flow) : Op → Prop
  | .bondWriteN _ _ =>
      device flow.txPosted = true ∧ device (flow.txPosted + 1) = false
  | _ => False

/-- An operation that is not refused half way counts each staging slot with its
header. -/
theorem run_eq (sized : op.Sized flow.max)
    (whole : ¬op.HalfRefused device flow) :
    op.run device flow = (flow.postAll device op.sends).1 := by
  cases op with
  | bondWriteN links take =>
      obtain ⟨-, pos, -⟩ := sized
      have headPos : headLen ≠ 0 := by decide
      have payloadPos : ¬take = 0 := by omega
      by_cases accepted : device flow.txPosted = true
      · have payload : device (flow.txPosted + 1) = true := by
          simpa [HalfRefused, accepted] using whole
        simp [run, sends, Flow.postAll, Flow.postSend, Flow.post, headPos,
          payloadPos, accepted, payload]
      · simp [run, sends, Flow.postAll, Flow.postSend, accepted]
  | _ => rfl

/-- An operation that is not refused half way keeps the counters right and,
unless it is an answer, leaves room for one. -/
theorem run_ok (ok : flow.Ok) (sized : op.Sized flow.max)
    (can : op.canPost flow = true) (whole : ¬op.HalfRefused device flow) :
    (op.run device flow).Ok ∧
      (op ≠ .fenceAck → (op.run device flow).hasRoom 1 1 true = true) := by
  obtain ⟨packetsFit, postedFit, stagedFit⟩ := fits sized can
  rw [run_eq sized whole]
  have grew : flow.Grew (flow.postAll device op.sends).1 _ _ _ :=
    Flow.postAll_grew op.sends
  refine ⟨Flow.postAll_ok ok op.sends (sends_small sized)
    ⟨by change flow.packets + packetSum op.sends ≤ flow.depth; omega,
      by omega,
      by change flow.staged - flow.unstaged + stageSum op.sends ≤ tbStage;
         omega⟩, fun proper => ?_⟩
  have one : op.spare = 1 := by
    cases op <;> first | rfl | exact absurd rfl proper
  have before := ok.done
  have counted := ok.staged
  obtain ⟨packetsGrew, postedGrew, stagedGrew, done, unstaged, depth⟩ := grew
  change _ ≤ flow.packets + packetSum op.sends at packetsGrew
  change _ ≤ flow.staged + stageSum op.sends at stagedGrew
  simp only [Flow.hasRoom, if_true, decide_eq_true_eq]
  rw [done, unstaged, depth]
  refine ⟨by omega, by omega, ?_⟩
  omega

end Op

/-! ## Runs of one end -/

namespace Port

/-- The counters of both halves of an end are right. -/
structure Ok (port : Port) : Prop where
  flow : port.flow.Ok
  ring : ∃ cells, port.ring.Holds cells

/-- Steps in which no bonded part is refused between its header and its
payload. -/
def WholeParts (device : Nat → Bool) (port : Port) : Act → Prop
  | .post op => ¬op.HalfRefused device port.flow
  | _ => True

variable {device : Nat → Bool} {port next : Port}

theorem Ok.poison (ok : port.Ok) : port.poison.Ok :=
  ⟨ok.flow.poison, ok.ring⟩

/-- A completion that fits moves one counter; any other poisons the link. -/
theorem Ok.complete (ok : port.Ok) (wc : Completion) :
    (port.complete wc).Ok := by
  unfold Port.complete
  split
  · next receives =>
      obtain ⟨cells, holds⟩ := ok.ring
      obtain ⟨-, -, room, shape⟩ := receives
      refine ⟨ok.flow, _, holds.land room ?_⟩
      rcases shape with ⟨success, least, most⟩ | ⟨partly, full⟩
      · exact ⟨least, most, by simp [success]⟩
      · exact ⟨by rw [full]; decide, full.le, fun _ => full⟩
  · split
    · next sent => exact ⟨ok.flow.complete sent.2.2.2, ok.ring⟩
    · exact ok.poison

/-- Every step keeps the counters right. -/
theorem Ok.step (ok : port.Ok) {act : Act}
    (whole : WholeParts device port act)
    (taken : step device port act = some next) : next.Ok := by
  cases act with
  | post op =>
      rw [Port.step, Option.ite_none_right_eq_some] at taken
      obtain ⟨⟨-, sized, can⟩, same⟩ := taken
      have final := Option.some.inj same
      subst final
      exact ⟨(Op.run_ok ok.flow sized can whole).1, ok.ring⟩
  | complete wc =>
      rw [Port.step, Option.ite_none_left_eq_some] at taken
      have final := Option.some.inj taken.2
      subst final
      exact ok.complete wc
  | take =>
      rw [Port.step, Option.ite_none_left_eq_some] at taken
      obtain ⟨found, same, final⟩ := Option.map_eq_some_iff.mp taken.2
      subst final
      obtain ⟨cells, holds⟩ := ok.ring
      cases first : firstMessage cells with
      | none =>
          rw [holds.next?_none first] at same
          simp at same
      | some pair =>
          obtain ⟨message, rest⟩ := pair
          rw [holds.next?_some first] at same
          have equal := Option.some.inj same
          subst equal
          exact ⟨ok.flow, rest, holds.consume first⟩
  | fail =>
      rw [Port.step, Option.ite_none_left_eq_some] at taken
      have final := Option.some.inj taken.2
      subst final
      exact ok.poison
  | repost n accepted =>
      rw [Port.step, Option.ite_none_right_eq_some] at taken
      obtain ⟨⟨-, -, free⟩, same⟩ := taken
      have final := Option.some.inj same
      subst final
      split
      · obtain ⟨cells, holds⟩ := ok.ring
        exact ⟨ok.flow, cells, holds.repost free⟩
      · exact ok.poison

theorem ok_start (device : Nat → Bool) (depth peerSlots : Nat) {slots : Nat}
    (some : 0 < slots) : (machine device depth peerSlots slots).start.Ok where
  flow := ⟨le_rfl, Nat.zero_le _, by simp [machine], Nat.zero_le _,
    by simp [machine], Nat.zero_le _⟩
  ring := ⟨[], some, rfl, Nat.zero_le _, by simp [machine], by simp, trivial⟩

theorem Ok.ofReaches {depth peerSlots slots : Nat} (some : 0 < slots)
    (reached : (machine device depth peerSlots slots).Reaches
      (WholeParts device) port) : port.Ok :=
  reached.invariant Port.Ok (ok_start device depth peerSlots some)
    fun _ _ _ _ ok whole taken => ok.step whole taken

end Port

/-- Counters in flight that are fewer than the slots use each slot once. -/
theorem slots_distinct {slots done posted first second : Nat}
    (few : posted - done ≤ slots) (left : done ≤ first ∧ first < posted)
    (right : done ≤ second ∧ second < posted)
    (same : first % slots = second % slots) : first = second := by
  rcases Nat.lt_trichotomy first second with before | equal | after
  · exact absurd same (Circular.slot_ne before (by omega))
  · exact equal
  · exact absurd same.symm (Circular.slot_ne after (by omega))

/-- In every run in which no bonded part is refused between its header and its
payload, the counters of an end agree with its sends in flight and stay inside
their limits, no staging slot and no record serves two sends at once, every send
but an answer leaves room for an answer, and the ring's counters keep their
order.  A completion that does not fit only poisons the link. -/
theorem flow_control_holds (device : Nat → Bool) {depth peerSlots slots : Nat}
    (granted : 4 ≤ depth ∧ 4 ≤ peerSlots ∧ 4 ≤ slots) {port : Port}
    (reached : (Port.machine device depth peerSlots slots).Reaches
      (Port.WholeParts device) port) :
    (port.flow.packets = ∑ send ∈ Finset.Ico port.flow.txDone
        port.flow.txPosted, port.flow.txPackets (send % tbSendWr) ∧
      port.flow.packets ≤ port.flow.depth) ∧
    (port.flow.txDone ≤ port.flow.txPosted ∧
      port.flow.txPosted - port.flow.txDone ≤ tbSendWr) ∧
    (port.flow.unstaged ≤ port.flow.staged ∧
      port.flow.staged - port.flow.unstaged = ∑ send ∈ Finset.Ico
        port.flow.txDone port.flow.txPosted,
        port.flow.txStaged (send % tbSendWr) ∧
      port.flow.staged - port.flow.unstaged ≤ tbStage) ∧
    (∀ first second, port.flow.txDone ≤ first ∧ first < port.flow.txPosted →
      port.flow.txDone ≤ second ∧ second < port.flow.txPosted →
      first % tbSendWr = second % tbSendWr → first = second) ∧
    (∀ first second, port.flow.unstaged ≤ first ∧ first < port.flow.staged →
      port.flow.unstaged ≤ second ∧ second < port.flow.staged →
      first % tbStage = second % tbStage → first = second) ∧
    (∀ op next, op ≠ .fenceAck → Port.WholeParts device port (.post op) →
      Port.step device port (.post op) = some next →
      next.flow.hasRoom 1 1 true = true) ∧
    (port.ring.used ≤ port.ring.filled ∧
      port.ring.filled ≤ port.ring.posted ∧
      port.ring.posted ≤ port.ring.used + port.ring.slots) ∧
    ∀ wc next, ¬port.Receives wc → ¬port.Sent wc →
      Port.step device port (.complete wc) = some next →
      next = port.poison := by
  have ok := Port.Ok.ofReaches (by omega) reached
  have counted := ok.flow.staged
  obtain ⟨cells, holds⟩ := ok.ring
  refine ⟨⟨ok.flow.packets, ok.flow.depth⟩, ⟨ok.flow.done, ok.flow.window⟩,
    ⟨by omega, by omega, ok.flow.stage⟩, ?_, ?_, ?_, ?_, ?_⟩
  · exact fun _ _ left right same =>
      slots_distinct ok.flow.window left right same
  · exact fun _ _ left right same =>
      slots_distinct ok.flow.stage left right same
  · intro op next proper whole taken
    rw [Port.step, Option.ite_none_right_eq_some] at taken
    obtain ⟨⟨-, sized, can⟩, same⟩ := taken
    have final := Option.some.inj same
    subst final
    exact (Op.run_ok ok.flow sized can whole).2 proper
  · exact ⟨by rw [holds.filled]; omega, holds.landed, holds.bound⟩
  · intro wc next strange unsent taken
    rw [Port.step, Option.ite_none_left_eq_some, Port.complete, if_neg strange,
      if_neg unsent] at taken
    exact (Option.some.inj taken.2).symm

/-- The counters after a bonded part whose payload and header are both in
flight. -/
theorem flow_control_holds_part : ∃ port,
    (Port.machine (fun _ => true) 16 16 16).Reaches
      (Port.WholeParts fun _ => true) port ∧
    port.flow.packets = 3 ∧ port.flow.staged - port.flow.unstaged = 1 ∧
    port.flow.packets ≤ port.flow.depth := by
  have reached : (Port.machine (fun _ => true) 16 16 16).Reaches
      (Port.WholeParts fun _ => true) _ :=
    .step .start (.post (.bondWriteN 3 5000))
      (by simp [Port.WholeParts, Op.HalfRefused]) rfl
  exact ⟨_, reached, rfl, rfl,
    (flow_control_holds (fun _ => true) ⟨by decide, by decide, by decide⟩
      reached).1.2⟩

/-- A device that accepts a bonded part's header and refuses its payload leaves
the header in flight and its staging slot uncounted. -/
theorem staging_slot_uncounted :
    ¬∀ (device : Nat → Bool) (depth peerSlots slots : Nat) (port : Port),
      4 ≤ depth ∧ 4 ≤ peerSlots ∧ 4 ≤ slots →
      (Port.machine device depth peerSlots slots).Reach port →
      port.flow.staged - port.flow.unstaged = ∑ send ∈ Finset.Ico
        port.flow.txDone port.flow.txPosted,
        port.flow.txStaged (send % tbSendWr) := by
  intro holds
  have reached : (Port.machine (fun n => decide (n = 0)) 16 16 16).Reach _ :=
    Machine.Reach.next Machine.Reaches.start (.post (.bondWriteN 2 5000)) rfl
  have wrong := holds _ 16 16 16 _ ⟨by decide, by decide, by decide⟩ reached
  exact absurd wrong (by decide)

end Link
end Mcdma
