import Mcdma.Link.Wire

/-!
# What a link's calls post

The sending functions of `rpc/link_tb.c`, as far as they decide the content of
messages: how a write is cut, which kind each piece takes, and how the link's
message number and write count move.  Whether there is room to post is left to
the flow control.  A call's messages come in sections; the link waits for room
before each and posts it without a break.
-/

namespace Mcdma
namespace Link

/-- The sending half of `struct tb` that shows in messages. -/
structure Lane where
  txSeq : Nat := 0
  writesPosted : Nat := 0
  fences : Nat := 0
  fenceAcked : Nat := 0
  deriving DecidableEq, Repr

/-- Count one more message, and `writes` more writes. -/
def Lane.sent (lane : Lane) (writes : Nat) : Lane :=
  { lane with
    txSeq := (lane.txSeq + 1) % 2 ^ 32
    writesPosted := lane.writesPosted + writes }

/-- `msg_max`: the largest message the peer's ring takes whole. -/
def msgMax (depth peerSlots : Nat) : Nat :=
  min (min (peerSlots / 2 * tbPacket) (depth / 2 * tbPacket)) tbMsg

/-- `tb_write_limit`. -/
def tbWriteLimit (max : Nat) : Nat :=
  min max tbTryMax

/-- One piece of a write: source offset, remote offset and length. -/
structure Piece where
  off : Nat
  roff : Nat
  len : Nat
  deriving DecidableEq, Repr

/-- The cutting loop all writes share: each piece at most `max` bytes inside one
source registration of `seg` bytes. -/
def pieces (max seg : Nat) : Nat → Nat → Nat → Nat → List Piece
  | 0, _, _, _ => []
  | fuel + 1, off, roff, len =>
      if len = 0 then []
      else
        let take := min (min len max) (seg - off % seg)
        ⟨off, roff, take⟩ ::
          pieces max seg fuel (off + take) (roff + take) (len - take)

/-- A write cut into pieces; every piece has a byte, so `len` rounds do. -/
def cut (max seg off roff len : Nat) : List Piece :=
  pieces max seg len off roff len

/-- Post pieces one after another, each by `post`. -/
def postPieces (post : Lane → Piece → List Post × Lane) :
    Lane → List Piece → List (List Post) × Lane
  | lane, [] => ([], lane)
  | lane, piece :: rest =>
      let first := post lane piece
      let others := postPieces post first.2 rest
      (first.1 :: others.1, others.2)

/-- One piece of a plain write: inside its header, or behind it. -/
def writePiece (src : Mem) (lane : Lane) (piece : Piece) : List Post × Lane :=
  let bytes := src.read piece.off piece.len
  let ord := lane.writesPosted + 1
  if piece.len ≤ inlineMax then
    ([.inline lane.txSeq ord piece.roff bytes], lane.sent 1)
  else
    ([.write lane.txSeq ord piece.roff bytes, .payload ord piece.roff bytes],
      lane.sent 1)

/-- `tb_write`: a section for each piece. -/
def tbWrite (max seg : Nat) (src : Mem) (lane : Lane) (off roff len : Nat) :
    List (List Post) × Lane :=
  postPieces (writePiece src) lane (cut max seg off roff len)

/-- `tb_write_try`: all pieces in one section. -/
def tbWriteTry (max seg : Nat) (src : Mem) (lane : Lane) (off roff len : Nat) :
    List Post × Lane :=
  let posted := postPieces (writePiece src) lane (cut max seg off roff len)
  (posted.1.flatten, posted.2)

/-- One piece of a write on an N-link bond. -/
def bondPiece (src : Mem) (sig links : Nat) (wait : Nat → Nat) (flags : Nat)
    (lane : Lane) (piece : Piece) : List Post × Lane :=
  let bytes := src.read piece.off piece.len
  let ord := lane.writesPosted + 1
  ([.bondWriteN lane.txSeq ord piece.roff bytes sig links wait flags,
    .payload ord piece.roff bytes], lane.sent 1)

/-- `tb_bond_write_n`: a section for each piece. -/
def tbBondWriteN (max seg : Nat) (src : Mem) (lane : Lane)
    (off roff len sig : Nat) (wait : Nat → Nat) (links flags : Nat) :
    List (List Post) × Lane :=
  postPieces (bondPiece src sig links wait flags) lane
    (cut max seg off roff len)

/-- `tb_signal`. -/
def tbSignal (lane : Lane) (roff value : Nat) : List Post × Lane :=
  ([.signal lane.txSeq roff value], lane.sent 0)

/-- `tb_write_signal`: one message where it fits, else the write and then the
signal. -/
def tbWriteSignal (max seg : Nat) (src : Mem) (lane : Lane)
    (off roff len soff value : Nat) : List (List Post) × Lane :=
  if max < len + wsHead ∨ (off - wsHead) / seg ≠ (off + len - 1) / seg then
    let written := tbWrite max seg src lane off roff len
    let signalled := tbSignal written.2 soff value
    (written.1 ++ [signalled.1], signalled.2)
  else
    ([[.writeSignal lane.txSeq (lane.writesPosted + 1) roff
      (src.read off len) soff value]], lane.sent 1)

/-- `tb_bond_signal_n`. -/
def tbBondSignalN (lane : Lane) (soff value sig : Nat) (need : Nat → Nat)
    (links : Nat) : List Post × Lane :=
  ([.bondSignalN lane.txSeq soff value sig links need], lane.sent 0)

/-- `tb_bond_inline_n`. -/
def tbBondInlineN (src : Mem) (lane : Lane) (off roff len soff value sig : Nat)
    (need wait : Nat → Nat) (links flags : Nat) : List Post × Lane :=
  ([.bondInlineN lane.txSeq (lane.writesPosted + 1) roff (src.read off len)
    soff value sig links need wait flags], lane.sent 1)

/-- `tb_bond_write_signal`: the part with the head. -/
def tbBondWriteSignal (src : Mem) (lane : Lane)
    (off roff len soff value sig : Nat) (need : Nat → Nat)
    (tail flags wait : Nat) : List Post × Lane :=
  ([.bondWriteSignal lane.txSeq (lane.writesPosted + 1) roff
    (src.read off len) soff value sig need tail flags wait], lane.sent 1)

/-- `tb_bond_tail`: the part without one; `roff` is where it will go. -/
def tbBondTail (src : Mem) (lane : Lane) (off roff len : Nat) :
    List Post × Lane :=
  ([.tail (lane.writesPosted + 1) roff (src.read off len)], lane.sent 1)

/-- The first half of `tb_fence`: ask for an answer with the next number. -/
def tbFence (lane : Lane) : List Post × Lane :=
  let mine := (lane.fences + 1) % 2 ^ 32
  ([.fence lane.txSeq mine], { lane.sent 0 with fences := mine })

/-- `tb_tail_clean`: the bytes at `off` do not read as a head's magic. -/
def tbTailClean (src : Mem) (length off : Nat) : Bool :=
  decide (length < off ∨ length - off < 4 ∨
    Bytes.number (src.read off 4) ≠ magic)

/-! ## Cutting -/

section

variable {max seg : Nat}

/-- The bytes a piece brings to the receiver. -/
def Piece.patch (src : Mem) (piece : Piece) : Patch :=
  ⟨piece.roff, src.read piece.off piece.len⟩

@[simp] theorem Piece.stop_patch (src : Mem) (piece : Piece) :
    (piece.patch src).stop = piece.roff + piece.len := by
  simp [Piece.patch, Patch.stop]

/-- Pieces have a byte, fit a message and stay inside the call's range. -/
theorem mem_pieces {fuel off roff len : Nat} {piece : Piece}
    (maxPos : 0 < max) (segPos : 0 < seg)
    (member : piece ∈ pieces max seg fuel off roff len) :
    0 < piece.len ∧ piece.len ≤ max ∧ roff ≤ piece.roff ∧
      piece.roff + piece.len ≤ roff + len := by
  induction fuel generalizing off roff len with
  | zero => simp [pieces] at member
  | succ fuel inductionHypothesis =>
      rw [pieces] at member
      have below := Nat.mod_lt off segPos
      split at member
      · simp at member
      · rcases List.mem_cons.mp member with rfl | later
        · dsimp only
          omega
        · have inner := inductionHypothesis later
          omega

/-- A part that fits one message is one piece. -/
theorem cut_single {max seg off roff take : Nat} (some : 0 < take)
    (fits : take ≤ max) (inSeg : take ≤ seg - off % seg) :
    cut max seg off roff take = [⟨off, roff, take⟩] := by
  unfold cut
  obtain ⟨fuel, same⟩ : ∃ fuel, take = fuel + 1 := ⟨take - 1, by omega⟩
  have whole : min (min take max) (seg - off % seg) = take := by omega
  rw [same] at whole ⊢
  rw [pieces, if_neg (by omega), whole]
  simp only [Nat.sub_self]
  cases fuel <;> rfl

/-- Where the bytes go does not change how they are cut. -/
theorem map_len_pieces (max seg fuel off roff other len : Nat) :
    (pieces max seg fuel off roff len).map Piece.len =
      (pieces max seg fuel off other len).map Piece.len := by
  induction fuel generalizing off roff other len with
  | zero => rfl
  | succ fuel inductionHypothesis =>
      simp only [pieces]
      split
      · rfl
      · simp only [List.map_cons]
        rw [inductionHypothesis]

/-- The cutting loop ends with no byte left over. -/
theorem sum_pieces (maxPos : 0 < max) (segPos : 0 < seg)
    {fuel off roff len : Nat} (enough : len ≤ fuel) :
    ((pieces max seg fuel off roff len).map Piece.len).sum = len := by
  induction fuel generalizing off roff len with
  | zero => simp [pieces, Nat.le_zero.mp enough]
  | succ fuel inductionHypothesis =>
      rw [pieces]
      split
      · next empty => simp [empty]
      · have below := Nat.mod_lt off segPos
        rw [List.map_cons, List.sum_cons, inductionHypothesis (by omega)]
        dsimp only
        omega

/-- Storing the pieces one after another stores the write. -/
theorem replay_pieces (src : Mem) (memory : Mem) (maxPos : 0 < max)
    (segPos : 0 < seg) (fuel off roff len : Nat) (enough : len ≤ fuel) :
    Patch.replay memory
        ((pieces max seg fuel off roff len).map (Piece.patch src)) =
      Patch.apply memory ⟨roff, src.read off len⟩ := by
  induction fuel generalizing off roff len memory with
  | zero =>
      have empty : len = 0 := by omega
      subst empty
      simp [pieces, Mem.read, Patch.apply_nil]
  | succ fuel inductionHypothesis =>
      rw [pieces]
      split
      · next empty =>
          subst empty
          simp [Mem.read, Patch.apply_nil]
      · next some =>
          have below := Nat.mod_lt off segPos
          set take := min (min len max) (seg - off % seg) with takeDef
          have whole : src.read off len =
              src.read off take ++ src.read (off + take) (len - take) := by
            rw [← Mem.read_add]
            congr 1
            omega
          have split := Patch.apply_split memory roff (src.read off take)
            (src.read (off + take) (len - take))
          rw [Mem.length_read] at split
          rw [List.map_cons, whole, ← split]
          exact inductionHypothesis _ _ _ _ (by omega)

theorem replay_cut (src : Mem) (memory : Mem) (maxPos : 0 < max)
    (segPos : 0 < seg) (off roff len : Nat) :
    Patch.replay memory ((cut max seg off roff len).map (Piece.patch src)) =
      Patch.apply memory ⟨roff, src.read off len⟩ :=
  replay_pieces src memory maxPos segPos len off roff len (Nat.le_refl _)

end

end Link
end Mcdma
