import Mcdma.Link.Flow

/-!
# What messages cost

The flow control counts a message by its bytes and by the staging slot it takes.
What the senders of `rpc/link_tb.c` post is counted as the operations whose room
checks they make before.
-/

namespace Mcdma
namespace Link

/-- The staging slots a message takes. -/
def Post.staged : Post → Nat
  | .payload _ _ _ => 0
  | .writeSignal _ _ _ _ _ _ => 0
  | .bondWriteSignal _ _ _ _ _ _ _ _ _ _ _ => 0
  | .tail _ _ _ => 0
  | _ => 1

/-- Messages as the flow control counts them. -/
def sendsOf (posts : List Post) : List (Nat × Nat) :=
  posts.map fun post => (post.wire.length, post.staged)

section

variable (src : Mem) (lane : Lane)

theorem length_wire {post : Post} {head : Head} {len : Nat}
    (has : post.head = some head) (body : post.body.length = len) :
    post.wire.length = headLen + len := by
  rw [Post.length_wire_of_head has, body]
  rfl

/-- A piece of a write costs what its room check reckons with. -/
theorem sendsOf_writePiece (piece : Piece) :
    sendsOf (writePiece src lane piece).1 = pieceSends piece.len := by
  have bytes := Mem.length_read src piece.off piece.len
  unfold writePiece pieceSends
  dsimp only
  split
  · have wire : (Post.inline lane.txSeq (lane.writesPosted + 1) piece.roff
        (src.read piece.off piece.len)).wire.length = headLen + piece.len :=
      length_wire rfl bytes
    simp only [sendsOf, List.map_cons, List.map_nil, wire, Post.staged]
  · have wire : (Post.write lane.txSeq (lane.writesPosted + 1) piece.roff
        (src.read piece.off piece.len)).wire.length = headLen + 0 :=
      length_wire rfl rfl
    have payload : (Post.payload (lane.writesPosted + 1) piece.roff
        (src.read piece.off piece.len)).wire.length = piece.len := bytes
    simp only [sendsOf, List.map_cons, List.map_nil, wire, payload,
      Nat.add_zero, Post.staged]

theorem sendsOf_bondPiece (sig links : Nat) (wait : Nat → Nat) (flags : Nat)
    (piece : Piece) :
    sendsOf (bondPiece src sig links wait flags lane piece).1 =
      (Op.bondWriteN links piece.len).sends := by
  have wire : (Post.bondWriteN lane.txSeq (lane.writesPosted + 1) piece.roff
      (src.read piece.off piece.len) sig links wait flags).wire.length =
        headLen + links * 4 := by
    refine length_wire rfl ?_
    rw [Post.body, Bytes.length_lowTable, Nat.mul_comm]
  have payload : (Post.payload (lane.writesPosted + 1) piece.roff
      (src.read piece.off piece.len)).wire.length = piece.len :=
    Mem.length_read src piece.off piece.len
  simp only [sendsOf, bondPiece, List.map_cons, List.map_nil, wire, payload,
    Post.staged, Op.sends]

theorem sendsOf_tbSignal (roff value : Nat) :
    sendsOf (tbSignal lane roff value).1 = Op.signal.sends := by
  have wire : (Post.signal lane.txSeq roff value).wire.length = headLen + 0 :=
    length_wire rfl rfl
  simp only [sendsOf, tbSignal, List.map_cons, List.map_nil, wire,
    Nat.add_zero, Post.staged, Op.sends]

theorem sendsOf_writeSignal (seq ord roff : Nat) (bytes : List UInt8)
    (soff value : Nat) :
    sendsOf [.writeSignal seq ord roff bytes soff value] =
      (Op.writeSignal bytes.length).sends := by
  have wire : (Post.writeSignal seq ord roff bytes soff value).wire.length =
      headLen + (8 + (8 + bytes.length)) := by
    refine length_wire rfl ?_
    simp only [Post.body, List.length_append, Bytes.length_lowBytes,
      List.length_replicate]
  simp only [sendsOf, List.map_cons, List.map_nil, wire, Post.staged, Op.sends,
    headLen, wsHead]
  congr 2
  omega

theorem sendsOf_tbBondInlineN (off roff len soff value sig : Nat)
    (need wait : Nat → Nat) (links flags : Nat) :
    sendsOf (tbBondInlineN src lane off roff len soff value sig need wait links
      flags).1 = (Op.bondInlineN links len).sends := by
  have wire : (Post.bondInlineN lane.txSeq (lane.writesPosted + 1) roff
      (src.read off len) soff value sig links need wait flags).wire.length =
        headLen + (8 + (8 + (4 * links + (4 * links + len)))) := by
    refine length_wire rfl ?_
    simp only [Post.body, List.length_append, Bytes.length_lowBytes,
      Bytes.length_lowTable, Mem.length_read]
  simp only [sendsOf, tbBondInlineN, List.map_cons, List.map_nil, wire,
    Post.staged, Op.sends]
  congr 2
  omega

variable {src}

/-- Pieces posted one after another cost what the checks of their operations
reckon with. -/
theorem sendsOf_postPieces {post : Lane → Piece → List Post × Lane}
    (op : Nat → Op)
    (each : ∀ lane piece, sendsOf (post lane piece).1 = (op piece.len).sends)
    (list : List Piece) :
    (postPieces post lane list).1.map sendsOf =
      (list.map Piece.len).map fun take => (op take).sends := by
  induction list generalizing lane with
  | nil => rfl
  | cons piece rest inductionHypothesis =>
      simp only [postPieces, List.map_cons]
      rw [each, inductionHypothesis]

theorem sendsOf_flatten (sections : List (List Post)) :
    sendsOf sections.flatten = (sections.map sendsOf).flatten := by
  rw [sendsOf, List.map_flatten]
  rfl

end

end Link
end Mcdma
