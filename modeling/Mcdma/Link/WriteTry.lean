import Mcdma.Link.Cost

/-!
# The write that does not wait

`tb_can_write` counts everything a write will post before its first message,
and `tb_write_try` posts only when there is room for all of it.  The state here
has all that a post touches: the flow control, the message and write numbers,
the records of bytes and payload, the staging slots and what went to the device.
-/

namespace Mcdma
namespace Link

/-- The sending state of a link.  Each staging slot holds the message last
written there. -/
structure Sending where
  flow : Flow
  lane : Lane
  txBytes : Nat → Nat
  txPayload : Nat → Nat
  sentBytes : Nat
  sentPayload : Nat
  slots : Nat → Option Post
  posted : List Post

/-- A source: its length and the length of its registrations. -/
structure Source where
  mem : Mem
  length : Nat
  seg : Nat

namespace Sending

/-- `post_send`. -/
def postSend (device : Nat → Bool) (s : Sending) (post : Post)
    (len staged payload : Nat) : Sending × Bool :=
  let result := s.flow.postSend device len staged
  if result.2 then
    let record := s.flow.txPosted % tbSendWr
    ({ s with
        flow := result.1
        txBytes := Function.update s.txBytes record len
        txPayload := Function.update s.txPayload record payload
        sentBytes := s.sentBytes + len
        sentPayload := s.sentPayload + payload
        posted := s.posted ++ [post] }, true)
  else ({ s with flow := result.1 }, false)

/-- `send_head`: the message is written to its slot before it is posted. -/
def sendHead (device : Nat → Bool) (s : Sending) (post : Post)
    (len payload : Nat) : Sending × Bool :=
  let slot := s.flow.staged % tbStage
  let written := { s with slots := Function.update s.slots slot (some post) }
  let result := written.postSend device post len 1 payload
  if result.2 then
    ({ result.1 with
        flow := { result.1.flow with staged := result.1.flow.staged + 1 }
        lane :=
          { result.1.lane with txSeq := (result.1.lane.txSeq + 1) % 2 ^ 32 } },
      true)
  else result

/-- The write count after a piece. -/
def countWrite (s : Sending) : Sending :=
  { s with lane := { s.lane with writesPosted := s.lane.writesPosted + 1 } }

/-- One piece of `tb_write_try`. -/
def postPiece (device : Nat → Bool) (src : Source) (s : Sending)
    (piece : Piece) : Sending × Bool :=
  let bytes := src.mem.read piece.off piece.len
  let ord := s.lane.writesPosted + 1
  if piece.len ≤ inlineMax then
    let result := s.sendHead device
      (.inline s.lane.txSeq ord piece.roff bytes) (headLen + piece.len)
      piece.len
    if result.2 then (result.1.countWrite, true) else result
  else
    let result := s.sendHead device (.write s.lane.txSeq ord piece.roff bytes)
      headLen 0
    if result.2 then
      let result := result.1.postSend device (.payload ord piece.roff bytes)
        piece.len 0 piece.len
      if result.2 then (result.1.countWrite, true) else result
    else result

/-- The posting loop of `tb_write_try`. -/
def postLoop (device : Nat → Bool) (src : Source) :
    Sending → List Piece → Sending × Bool
  | s, [] => (s, true)
  | s, piece :: rest =>
      let result := s.postPiece device src piece
      if result.2 then postLoop device src result.1 rest else result

end Sending

/-- The lengths of the pieces a write is cut into. -/
def takes (max : Nat) (src : Source) (off len : Nat) : List Nat :=
  (cut max src.seg off 0 len).map Piece.len

/-- `tb_can_write`: 1 room, 0 no room, -1 invalid. -/
def tbCanWrite (flow : Flow) (src : Source) (off len : Nat) : Int :=
  if flow.poisoned = true ∨ src.seg = 0 ∨ off > src.length ∨
      len > src.length - off ∨ len > tbTryMax then -1
  else if flow.max = 0 then -1
  else if flow.canWrite (takes flow.max src off len) then 1
  else 0

/-- `tb_write_try`: 0 posted, 1 no room, -1 invalid or failed. -/
def tbTryWrite (device : Nat → Bool) (src : Source) (s : Sending)
    (off roff len : Nat) : Int × Sending :=
  if len > 2 ^ 64 - 1 - roff then (-1, s)
  else
    let can := tbCanWrite s.flow src off len
    if can ≤ 0 then (if can < 0 then -1 else 1, s)
    else
      let result := s.postLoop device src
        (cut s.flow.max src.seg off roff len)
      (if result.2 then 0 else -1, result.1)

/-- The messages of all pieces of a write. -/
def trySends (flow : Flow) (src : Source) (off len : Nat) :
    List (Nat × Nat) :=
  (takes flow.max src off len).flatMap pieceSends

/-- The payload bytes of the messages of one piece. -/
def piecePayloads (take : Nat) : List Nat :=
  if take ≤ inlineMax then [take] else [0, take]

/-- The payload bytes of all messages of a write. -/
def tryPayloads (flow : Flow) (src : Source) (off len : Nat) : List Nat :=
  (takes flow.max src off len).flatMap piecePayloads

/-- Values recorded from one place of a table on, around its end. -/
def recorded : List Nat → Nat → (Nat → Nat) → Nat → Nat
  | [], _, table => table
  | value :: rest, first, table =>
      recorded rest (first + 1)
        (Function.update table (first % tbSendWr) value)

/-! ## What is posted -/

/-- Posting goes on after messages that were all accepted. -/
theorem Flow.postAll_append (device : Nat → Bool) (flow : Flow)
    (first rest : List (Nat × Nat)) :
    flow.postAll device (first ++ rest) =
      if (flow.postAll device first).2 then
        (flow.postAll device first).1.postAll device rest
      else flow.postAll device first := by
  induction first generalizing flow with
  | nil => simp [Flow.postAll]
  | cons send more inductionHypothesis =>
      obtain ⟨len, staged⟩ := send
      simp only [List.cons_append, Flow.postAll]
      split
      · exact inductionHypothesis _
      · simp

namespace Sending

variable (device : Nat → Bool) (src : Source) (s : Sending)

/-- The flow control of a header from the staging ring. -/
theorem flow_sendHead (post : Post) (len payload : Nat) :
    ((s.sendHead device post len payload).1.flow,
        (s.sendHead device post len payload).2) =
      s.flow.postAll device [(len, 1)] := by
  simp only [sendHead, postSend, Flow.postAll]
  cases posted : (s.flow.postSend device len 1).2 with
  | false =>
      simp only [Bool.false_eq_true, if_false]
      rw [← posted]
  | true => simp

/-- The flow control of a message from the source. -/
theorem flow_postSend (post : Post) (len payload : Nat) :
    ((s.postSend device post len 0 payload).1.flow,
        (s.postSend device post len 0 payload).2) =
      s.flow.postAll device [(len, 0)] := by
  simp only [postSend, Flow.postAll]
  cases posted : (s.flow.postSend device len 0).2 with
  | false =>
      simp only [Bool.false_eq_true, if_false]
      rw [← posted]
  | true => simp

/-- The flow control of a piece is that of its messages. -/
theorem flow_postPiece (piece : Piece) :
    ((s.postPiece device src piece).1.flow,
        (s.postPiece device src piece).2) =
      s.flow.postAll device (pieceSends piece.len) := by
  simp only [postPiece, pieceSends]
  split
  · rw [← flow_sendHead device s (.inline s.lane.txSeq
      (s.lane.writesPosted + 1) piece.roff
      (src.mem.read piece.off piece.len)) (headLen + piece.len) piece.len]
    split
    · next accepted =>
        rw [accepted]
        rfl
    · rfl
  · have head := flow_sendHead device s (.write s.lane.txSeq
      (s.lane.writesPosted + 1) piece.roff
      (src.mem.read piece.off piece.len)) headLen 0
    rw [show [(headLen, 1), (piece.len, 0)] =
      [(headLen, 1)] ++ [(piece.len, 0)] from rfl, Flow.postAll_append,
      ← head]
    generalize s.sendHead device (.write s.lane.txSeq
      (s.lane.writesPosted + 1) piece.roff
      (src.mem.read piece.off piece.len)) headLen 0 = headed
    dsimp only
    split
    · rw [← flow_postSend device headed.1 (.payload
        (s.lane.writesPosted + 1) piece.roff
        (src.mem.read piece.off piece.len)) piece.len piece.len]
      split
      · next accepted =>
          rw [accepted]
          rfl
      · rfl
    · rfl

/-- The flow control of the posting loop is that of all messages. -/
theorem flow_postLoop (list : List Piece) :
    ((s.postLoop device src list).1.flow, (s.postLoop device src list).2) =
      s.flow.postAll device ((list.map Piece.len).flatMap pieceSends) := by
  induction list generalizing s with
  | nil => rfl
  | cons piece rest inductionHypothesis =>
      have first := flow_postPiece device src s piece
      rw [List.map_cons, List.flatMap_cons, Flow.postAll_append, ← first]
      simp only [postLoop]
      split
      · exact inductionHypothesis _
      · rfl

end Sending

/-! ## Messages and their records -/

theorem recorded_append (first rest : List Nat) (start : Nat)
    (table : Nat → Nat) :
    recorded (first ++ rest) start table =
      recorded rest (start + first.length) (recorded first start table) := by
  induction first generalizing start table with
  | nil => rfl
  | cons value more inductionHypothesis =>
      rw [List.cons_append, recorded, recorded, inductionHypothesis,
        List.length_cons]
      congr 1
      omega

theorem recorded_other {values : List Nat} {start place : Nat}
    (table : Nat → Nat)
    (apart : ∀ i < values.length, (start + i) % tbSendWr ≠ place) :
    recorded values start table place = table place := by
  induction values generalizing start table with
  | nil => rfl
  | cons value rest inductionHypothesis =>
      rw [recorded, inductionHypothesis]
      · exact Function.update_of_ne (apart 0 (Nat.succ_pos _)).symm _ _
      · intro i below
        have other := apart (i + 1) (Nat.succ_lt_succ below)
        rwa [Nat.add_right_comm, ← Nat.add_assoc] at *

/-- No more values than the table has places keep their places. -/
theorem recorded_get {values : List Nat} {start i value : Nat}
    (table : Nat → Nat) (few : values.length ≤ tbSendWr)
    (here : values[i]? = some value) :
    recorded values start table ((start + i) % tbSendWr) = value := by
  induction values generalizing start i table with
  | nil => cases here
  | cons first rest inductionHypothesis =>
      rw [List.length_cons] at few
      cases i with
      | zero =>
          obtain rfl := Option.some.inj here
          rw [recorded, recorded_other, Nat.add_zero, Function.update_self]
          intro j below same
          simp only [tbSendWr] at few same
          omega
      | succ i =>
          rw [recorded, Nat.add_comm i, ← Nat.add_assoc]
          exact inductionHypothesis _ (Nat.le_of_succ_le few) here

namespace Sending

/-- Messages went to the device, each with its record, and are counted. -/
structure Wrote (s after : Sending) (posts : List Post)
    (bytes payloads : List Nat) : Prop where
  posted : after.posted = s.posted ++ posts
  counted : after.flow.txPosted = s.flow.txPosted + bytes.length
  same : payloads.length = bytes.length
  txBytes : after.txBytes = recorded bytes s.flow.txPosted s.txBytes
  txPayload : after.txPayload =
    recorded payloads s.flow.txPosted s.txPayload
  sentBytes : after.sentBytes = s.sentBytes + bytes.sum
  sentPayload : after.sentPayload = s.sentPayload + payloads.sum

variable {s middle after : Sending}

theorem Wrote.append {first rest : List Post}
    {bytes bytes' payloads payloads' : List Nat}
    (left : s.Wrote middle first bytes payloads)
    (right : middle.Wrote after rest bytes' payloads') :
    s.Wrote after (first ++ rest) (bytes ++ bytes')
      (payloads ++ payloads') where
  posted := by rw [right.posted, left.posted, List.append_assoc]
  counted := by
    rw [right.counted, left.counted, List.length_append, Nat.add_assoc]
  same := by
    rw [List.length_append, List.length_append, left.same, right.same]
  txBytes := by
    rw [right.txBytes, left.txBytes, left.counted, recorded_append]
  txPayload := by
    rw [right.txPayload, left.txPayload, left.counted, recorded_append,
      left.same]
  sentBytes := by
    rw [right.sentBytes, left.sentBytes, List.sum_append, Nat.add_assoc]
  sentPayload := by
    rw [right.sentPayload, left.sentPayload, List.sum_append, Nat.add_assoc]

/-- A device that accepts everything gets a message that has bytes. -/
theorem wrote_postSend (s : Sending) (post : Post) {len : Nat}
    (staged payload : Nat) (nonzero : len ≠ 0) :
    (s.postSend (fun _ => true) post len staged payload).2 = true ∧
      s.Wrote (s.postSend (fun _ => true) post len staged payload).1 [post]
        [len] [payload] ∧
      (s.postSend (fun _ => true) post len staged payload).1.lane = s.lane := by
  have accepted : s.flow.postSend (fun _ => true) len staged =
      (s.flow.post len staged, true) := by
    simp [Flow.postSend, nonzero]
  simp only [postSend, accepted, if_true]
  exact ⟨trivial, ⟨rfl, rfl, rfl, rfl, rfl, rfl, rfl⟩, trivial⟩

theorem wrote_sendHead (s : Sending) (post : Post) {len : Nat} (payload : Nat)
    (nonzero : len ≠ 0) :
    (s.sendHead (fun _ => true) post len payload).2 = true ∧
      s.Wrote (s.sendHead (fun _ => true) post len payload).1 [post] [len]
        [payload] ∧
      (s.sendHead (fun _ => true) post len payload).1.lane = s.lane.sent 0 := by
  obtain ⟨accepted, wrote, lane⟩ := wrote_postSend
    { s with
      slots := Function.update s.slots (s.flow.staged % tbStage) (some post) }
    post 1 payload nonzero
  simp only [sendHead, accepted, if_true]
  refine ⟨trivial, ⟨wrote.posted, wrote.counted, wrote.same, wrote.txBytes,
    wrote.txPayload, wrote.sentBytes, wrote.sentPayload⟩, ?_⟩
  rw [lane]
  rfl

/-- All messages of a piece go to the device. -/
theorem wrote_postPiece (src : Source) (s : Sending) {piece : Piece}
    (nonzero : 0 < piece.len) :
    (s.postPiece (fun _ => true) src piece).2 = true ∧
      s.Wrote (s.postPiece (fun _ => true) src piece).1
        (writePiece src.mem s.lane piece).1
        ((pieceSends piece.len).map Prod.fst) (piecePayloads piece.len) ∧
      (s.postPiece (fun _ => true) src piece).1.lane =
        (writePiece src.mem s.lane piece).2 := by
  have bytes : headLen + piece.len ≠ 0 := by omega
  unfold postPiece writePiece pieceSends piecePayloads
  dsimp only
  split
  · obtain ⟨accepted, wrote, lane⟩ := s.wrote_sendHead
      (.inline s.lane.txSeq (s.lane.writesPosted + 1) piece.roff
        (src.mem.read piece.off piece.len)) piece.len bytes
    rw [accepted, if_pos rfl]
    refine ⟨rfl, ⟨wrote.posted, wrote.counted, wrote.same, wrote.txBytes,
      wrote.txPayload, wrote.sentBytes, wrote.sentPayload⟩, ?_⟩
    rw [countWrite, lane]
    rfl
  · obtain ⟨accepted, first, lane⟩ := s.wrote_sendHead
      (.write s.lane.txSeq (s.lane.writesPosted + 1) piece.roff
        (src.mem.read piece.off piece.len)) 0 (by decide : headLen ≠ 0)
    rw [accepted, if_pos rfl]
    obtain ⟨accepted', second, lane'⟩ := wrote_postSend
      (s.sendHead (fun _ => true) (.write s.lane.txSeq
        (s.lane.writesPosted + 1) piece.roff
        (src.mem.read piece.off piece.len)) headLen 0).1
      (.payload (s.lane.writesPosted + 1) piece.roff
        (src.mem.read piece.off piece.len)) 0 piece.len
      (Nat.pos_iff_ne_zero.mp nonzero)
    rw [accepted', if_pos rfl]
    have wrote := first.append second
    refine ⟨rfl, ⟨wrote.posted, wrote.counted, wrote.same, wrote.txBytes,
      wrote.txPayload, wrote.sentBytes, wrote.sentPayload⟩, ?_⟩
    rw [countWrite, lane', lane]
    rfl

/-- All messages of all pieces go to the device. -/
theorem wrote_postLoop (src : Source) (s : Sending) {list : List Piece}
    (bytes : ∀ piece ∈ list, 0 < piece.len) :
    (s.postLoop (fun _ => true) src list).2 = true ∧
      s.Wrote (s.postLoop (fun _ => true) src list).1
        (postPieces (writePiece src.mem) s.lane list).1.flatten
        (((list.map Piece.len).flatMap pieceSends).map Prod.fst)
        ((list.map Piece.len).flatMap piecePayloads) ∧
      (s.postLoop (fun _ => true) src list).1.lane =
        (postPieces (writePiece src.mem) s.lane list).2 := by
  induction list generalizing s with
  | nil =>
      refine ⟨rfl, ⟨?_, rfl, rfl, rfl, rfl, rfl, rfl⟩, rfl⟩
      exact (List.append_nil _).symm
  | cons piece rest inductionHypothesis =>
      obtain ⟨accepted, first, lane⟩ :=
        wrote_postPiece src s (bytes piece List.mem_cons_self)
      obtain ⟨all, later, lane'⟩ := inductionHypothesis
        (s.postPiece (fun _ => true) src piece).1 fun other member =>
          bytes other (List.mem_cons_of_mem _ member)
      rw [lane] at later lane'
      simp only [postLoop, accepted, if_true, postPieces, List.flatten_cons,
        List.map_cons, List.flatMap_cons, List.map_append]
      exact ⟨all, first.append later, lane'⟩

end Sending

/-- There is room for an answer: a packet, a send and a staging slot. -/
structure Flow.Spare (flow : Flow) : Prop where
  packets : flow.packets + 1 ≤ flow.depth
  sends : flow.txPosted - flow.txDone + 1 ≤ tbSendWr
  staging : flow.staged - flow.unstaged + 1 ≤ tbStage

/-- Messages for which there is room leave room for an answer after every one
of them. -/
theorem Flow.spare_postAll (device : Nat → Bool) {flow : Flow}
    {sends first rest : List (Nat × Nat)} (split : sends = first ++ rest)
    (room : flow.Fits (packetSum sends + 1) (sends.length + 1)
      (stageSum sends + 1)) :
    (flow.postAll device first).1.Spare := by
  obtain ⟨packets, posted, staged⟩ := room
  obtain ⟨morePackets, morePosted, moreStaged, done, unstaged, depth⟩ :=
    (Flow.postAll_grew first : flow.Grew (flow.postAll device first).1 _ _ _)
  rw [split, packetSum_append] at packets
  rw [split, List.length_append] at posted
  rw [split, stageSum_append] at staged
  change _ ≤ flow.packets + packetSum first at morePackets
  change _ ≤ flow.staged + stageSum first at moreStaged
  refine ⟨?_, ?_, ?_⟩
  · rw [depth]
    omega
  · rw [done]
    omega
  · rw [unstaged]
    omega

/-- `tb_can_write` answers 1 when there is room for all messages and one
answer. -/
theorem fits_of_tbCanWrite {flow : Flow} {src : Source} {off len : Nat}
    (can : tbCanWrite flow src off len = 1) :
    flow.Fits (packetSum (trySends flow src off len) + 1)
      ((trySends flow src off len).length + 1)
      (stageSum (trySends flow src off len) + 1) := by
  unfold tbCanWrite at can
  split at can
  · simp at can
  · split at can
    · simp at can
    · split at can
      · next room =>
          unfold Flow.canWrite at room
          split at room
          · simp at room
          · next counted =>
              have counts := countPieces_eq counted
              simp only [Prod.mk.injEq, Nat.zero_add] at counts
              obtain ⟨rfl, rfl, rfl⟩ := counts
              have bounds := of_decide_eq_true room
              exact ⟨bounds.1, bounds.2.1, bounds.2.2⟩
      · simp at can

/-- A device that accepts everything accepts messages that have bytes. -/
theorem Flow.postAll_accepted (flow : Flow) {sends : List (Nat × Nat)}
    (bytes : ∀ send ∈ sends, 0 < send.1) :
    (flow.postAll (fun _ => true) sends).2 = true := by
  induction sends generalizing flow with
  | nil => rfl
  | cons send rest inductionHypothesis =>
      obtain ⟨len, staged⟩ := send
      have nonzero : len ≠ 0 := by
        have positive := bytes (len, staged) (List.mem_cons_self ..)
        omega
      simp only [Flow.postAll, Flow.postSend, nonzero, false_or,
        Bool.true_eq_false, if_false, if_true]
      exact inductionHypothesis _ fun send member =>
        bytes send (List.mem_cons_of_mem _ member)

theorem pieceSends_pos {take : Nat} {send : Nat × Nat}
    (member : send ∈ pieceSends take) : 0 < send.1 := by
  unfold pieceSends at member
  split at member
  · rw [List.mem_singleton.mp member]
    simp only [headLen]
    omega
  · next long =>
      simp only [List.mem_cons, List.not_mem_nil, or_false] at member
      rcases member with rfl | rfl
      · decide
      · exact lt_of_le_of_lt (Nat.zero_le _) (not_le.mp long)

/-- What `tb_write_try` does when there is room. -/
theorem tbTryWrite_of_can (device : Nat → Bool) {src : Source}
    {s : Sending} {off roff len : Nat} (can : tbCanWrite s.flow src off len = 1)
    (fits : len ≤ 2 ^ 64 - 1 - roff) :
    ((tbTryWrite device src s off roff len).1,
        (tbTryWrite device src s off roff len).2.flow) =
      (if (s.flow.postAll device (trySends s.flow src off len)).2 then 0
        else -1,
        (s.flow.postAll device (trySends s.flow src off len)).1) := by
  have loop := s.flow_postLoop device src
    (cut s.flow.max src.seg off roff len)
  have same : (cut s.flow.max src.seg off roff len).map Piece.len =
      takes s.flow.max src off len := map_len_pieces _ _ _ _ _ _ _
  rw [same] at loop
  rw [trySends, ← loop, tbTryWrite, if_neg (by omega)]
  simp only [can]
  rfl

/-- A write has gone out whole: its messages follow those posted before, the
counters count them, and each record holds its message's bytes and payload. -/
structure Sending.Whole (s after : Sending) (src : Source)
    (off roff len : Nat) : Prop where
  posted : after.posted = s.posted ++
    (tbWriteTry s.flow.max src.seg src.mem s.lane off roff len).1
  lane : after.lane =
    (tbWriteTry s.flow.max src.seg src.mem s.lane off roff len).2
  counted : after.flow.txPosted =
    s.flow.txPosted + (trySends s.flow src off len).length
  txBytes : ∀ i send, (trySends s.flow src off len)[i]? = some send →
    after.txBytes ((s.flow.txPosted + i) % tbSendWr) = send.1
  txPayload : ∀ i payload,
    (tryPayloads s.flow src off len)[i]? = some payload →
      after.txPayload ((s.flow.txPosted + i) % tbSendWr) = payload
  sentBytes : after.sentBytes =
    s.sentBytes + ((trySends s.flow src off len).map Prod.fst).sum
  sentPayload : after.sentPayload = s.sentPayload + len

theorem sum_piecePayloads (takes : List Nat) :
    (takes.flatMap piecePayloads).sum = takes.sum := by
  induction takes with
  | nil => rfl
  | cons take rest inductionHypothesis =>
      rw [List.flatMap_cons, List.sum_append, inductionHypothesis,
        List.sum_cons, piecePayloads]
      split <;> simp

/-- A write for which there is room goes out whole on a device that accepts
everything. -/
theorem whole_of_can {src : Source} {s : Sending} {off roff len : Nat}
    (can : tbCanWrite s.flow src off len = 1) (fits : len ≤ 2 ^ 64 - 1 - roff) :
    s.Whole (tbTryWrite (fun _ => true) src s off roff len).2 src off roff
      len := by
  obtain ⟨maxPos, segPos⟩ : 0 < s.flow.max ∧ 0 < src.seg := by
    unfold tbCanWrite at can
    split at can
    · cases can
    · next valid =>
        split at can
        · cases can
        · next nonzero =>
            simp only [not_or] at valid
            exact ⟨Nat.pos_of_ne_zero nonzero,
              Nat.pos_of_ne_zero valid.2.1⟩
  obtain ⟨-, room, -⟩ := fits_of_tbCanWrite can
  have few : (trySends s.flow src off len).length ≤ tbSendWr := by omega
  obtain ⟨-, wrote, lane⟩ := Sending.wrote_postLoop src s
    fun piece member => (mem_pieces maxPos segPos
      (show piece ∈ cut s.flow.max src.seg off roff len from member)).1
  have same : (cut s.flow.max src.seg off roff len).map Piece.len =
      takes s.flow.max src off len := map_len_pieces _ _ _ _ _ _ _
  rw [same] at wrote
  have after : (tbTryWrite (fun _ => true) src s off roff len).2 =
      (s.postLoop (fun _ => true) src
        (cut s.flow.max src.seg off roff len)).1 := by
    rw [tbTryWrite, if_neg (by omega)]
    simp only [can]
    rfl
  rw [after]
  have sizes : ((trySends s.flow src off len).map Prod.fst).length ≤
      tbSendWr := by
    rwa [List.length_map]
  refine ⟨wrote.posted, lane, ?_, fun i send here => ?_,
    fun i payload here => ?_, wrote.sentBytes, ?_⟩
  · rw [wrote.counted, List.length_map]
    rfl
  · rw [wrote.txBytes]
    refine recorded_get _ sizes ?_
    rw [List.getElem?_map]
    exact congrArg (Option.map Prod.fst) here
  · rw [wrote.txPayload]
    exact recorded_get _ (wrote.same.trans_le sizes) here
  · rw [wrote.sentPayload, sum_piecePayloads, ← same,
      cut, sum_pieces maxPos segPos le_rfl]

/-- `tb_write_try` that answers 1 leaves everything as it was.  When
`tb_can_write` answers 1, posting all the pieces leaves room for an answer after
every message, in packets, sends and staging slots, and a device that accepts
the messages gets all of them. -/
theorem tbTryWrite_all_or_nothing (device : Nat → Bool) (src : Source)
    (s : Sending) (off roff len : Nat) :
    ((tbTryWrite device src s off roff len).1 = 1 →
      (tbTryWrite device src s off roff len).2 = s) ∧
    (tbCanWrite s.flow src off len = 1 → len ≤ 2 ^ 64 - 1 - roff →
      (tbTryWrite device src s off roff len).2.flow =
          (s.flow.postAll device (trySends s.flow src off len)).1 ∧
        (∀ first rest, trySends s.flow src off len = first ++ rest →
          (s.flow.postAll device first).1.packets + 1 ≤ s.flow.depth ∧
          (s.flow.postAll device first).1.txPosted - s.flow.txDone + 1 ≤
            1024 ∧
          (s.flow.postAll device first).1.staged - s.flow.unstaged + 1 ≤
            64) ∧
        ((∀ n, device n = true) →
          (tbTryWrite device src s off roff len).1 = 0 ∧
            s.Whole (tbTryWrite device src s off roff len).2 src off roff
              len)) := by
  refine ⟨fun refused => ?_, fun can fits => ?_⟩
  · unfold tbTryWrite at refused ⊢
    split
    · rfl
    · next small =>
        rw [if_neg small] at refused
        dsimp only at refused ⊢
        split
        · rfl
        · next room =>
            rw [if_neg room] at refused
            dsimp only at refused
            split at refused <;> simp at refused
  · obtain ⟨answer, flow⟩ := Prod.mk.inj
      (tbTryWrite_of_can device can fits)
    refine ⟨flow, fun first rest split => ?_, fun accepts => ?_⟩
    · have grew : s.flow.Grew (s.flow.postAll device first).1 _ _ _ :=
        Flow.postAll_grew first
      obtain ⟨packets, sends, staging⟩ :=
        Flow.spare_postAll device split (fits_of_tbCanWrite can)
      rw [grew.depth] at packets
      rw [grew.done] at sends
      rw [grew.unstaged] at staging
      exact ⟨packets, sends, staging⟩
    · obtain rfl : device = fun _ => true := funext accepts
      refine ⟨?_, whole_of_can can fits⟩
      rw [answer, Flow.postAll_accepted, if_pos rfl]
      intro send member
      obtain ⟨take, _, mine⟩ := List.mem_flatMap.mp member
      exact pieceSends_pos mine

/-- A link with nothing in flight and 16 packets of depth. -/
def idleSending : Sending where
  flow := { depth := 16, peerSlots := 16 }
  lane := {}
  txBytes := fun _ => 0
  txPayload := fun _ => 0
  sentBytes := 0
  sentPayload := 0
  slots := fun _ => none
  posted := []

/-- A write of 10000 bytes over two registrations is posted whole; one of 20000
bytes over twenty finds no room and changes nothing. -/
theorem tbTryWrite_all_or_nothing_idle :
    (tbTryWrite (fun _ => true) ⟨fun _ => 0, 20000, 8000⟩ idleSending
        0 0 10000).1 = 0 ∧
      (tbTryWrite (fun _ => true) ⟨fun _ => 0, 20000, 1000⟩ idleSending
        0 0 20000).2 = idleSending := by
  constructor
  · exact (((tbTryWrite_all_or_nothing (fun _ => true) ⟨fun _ => 0, 20000, 8000⟩
      idleSending 0 0 10000).2 (by decide) (by decide)).2.2 (fun _ => rfl)).1
  · exact (tbTryWrite_all_or_nothing (fun _ => true) ⟨fun _ => 0, 20000, 1000⟩
      idleSending 0 0 20000).1 (by decide)

end Link
end Mcdma
