import Mcdma.Fabric.Sender
import Mcdma.Link.WriteTry

/-!
# Room on an idle link

Each sender cuts its bytes by the largest message and then waits for room that
it reckons in its own way: a header, a spare packet and a staging slot more or
less.  On a link with nothing in flight every one of these checks passes, at
the smallest depths a device may grant too, so no sender waits for ever.
-/

namespace Mcdma
namespace Fabric

open Link

/-- Nothing is in flight. -/
structure Idle (flow : Flow) : Prop where
  packets : flow.packets = 0
  sends : flow.txPosted = flow.txDone
  staging : flow.staged = flow.unstaged

/-- An operation passes its own check, and each of its messages has bytes, takes
at most half the peer's ring and fits the 32- and 16-bit fields of its record. -/
structure Goes (flow : Flow) (op : Op) : Prop where
  room : op.canPost flow = true
  bytes : ∀ send ∈ op.sends, 0 < send.1 ∧ send.1 < 2 ^ 32
  packets : ∀ send ∈ op.sends, packets send.1 < 2 ^ 16
  half : ∀ send ∈ op.sends, Link.packets send.1 ≤ flow.peerSlots / 2

/-- The room checks of `tb_write`, one for each piece. -/
def writeOps (max seg off len : Nat) : List Op :=
  (cut max seg off 0 len).map fun piece => .write piece.len

/-- The room checks of `tb_write_signal`: one for the fused message, or those of
the write and the signal. -/
def writeSignalOps (max seg off len : Nat) : List Op :=
  if len + wsHead > max ∨ (off - wsHead) / seg ≠ (off + len - 1) / seg then
    writeOps max seg off len ++ [.signal]
  else [.writeSignal len]

/-- The room checks of `tb_bond_write_n`. -/
def bondWriteNOps (max seg off len links : Nat) : List Op :=
  (cut max seg off 0 len).map fun piece => .bondWriteN links piece.len

/-- `bond_rooms` for one link: the bytes it would take and whether it is
ready. -/
def bondRooms (flow : Flow) (src : Source) (backlog off len : Nat) :
    Nat × Bool :=
  let limit := tbWriteLimit flow.max
  let lroom := src.seg - off % src.seg
  let take := min (min (min len bondChunk) limit) lroom
  (take, decide (tbCanWrite flow src off take = 1) && decide (take ≠ 0) &&
    decide (backlog < bondBacklog))

section

variable {flow : Flow} {op : Op}

/-- The largest message is at least two packets, and at most half of either
depth. -/
theorem max_bounds (deep : 4 ≤ flow.depth) (wide : 4 ≤ flow.peerSlots) :
    2 * tbPacket ≤ flow.max ∧ flow.max ≤ flow.peerSlots / 2 * tbPacket ∧
      flow.max ≤ flow.depth / 2 * tbPacket ∧ flow.max ≤ tbMsg := by
  simp only [Flow.max, msgMax, tbPacket, tbMsg]
  omega

/-- A message within the largest is at most half of either depth. -/
theorem packets_le_half (deep : 4 ≤ flow.depth) (wide : 4 ≤ flow.peerSlots)
    {len : Nat} (fits : len ≤ flow.max) :
    packets len ≤ flow.peerSlots / 2 ∧ packets len ≤ flow.depth / 2 := by
  obtain ⟨_, slots, depth, _⟩ := max_bounds deep wide
  simp only [packets, tbPacket] at *
  omega

/-- On an idle link there is room for a header, half the depth and an
answer. -/
theorem hasRoom_idle (idle : Idle flow) (deep : 4 ≤ flow.depth)
    {n sends : Nat} (few : n ≤ flow.depth / 2 + 1) (two : sends ≤ 2) :
    flow.hasRoom n sends false = true := by
  have packets := idle.packets
  have posted := idle.sends
  have staging := idle.staging
  simp only [Flow.hasRoom, Bool.false_eq_true, if_false, decide_eq_true_eq,
    tbSendWr, tbStage]
  omega

/-- An operation whose messages fit the largest one goes as soon as it passes
its check. -/
theorem goes_of_sized (deep : 4 ≤ flow.depth) (wide : 4 ≤ flow.peerSlots)
    (room : op.canPost flow = true)
    (sized : ∀ send ∈ op.sends, 0 < send.1 ∧ send.1 ≤ flow.max) :
    Goes flow op := by
  obtain ⟨_, _, _, most⟩ := max_bounds deep wide
  have small : tbMsg < 2 ^ 32 := by decide
  refine ⟨room, fun send member => ?_, fun send member => ?_,
    fun send member => ?_⟩
  · exact ⟨(sized send member).1, (sized send member).2.trans_lt
      (most.trans_lt small)⟩
  · exact packets_small ((sized send member).2.trans most)
  · exact (packets_le_half deep wide (sized send member).2).1

/-- The messages of a piece fit the largest one. -/
theorem sized_pieceSends (deep : 4 ≤ flow.depth) (wide : 4 ≤ flow.peerSlots)
    {take : Nat} (fits : take ≤ flow.max) {send : Nat × Nat}
    (member : send ∈ pieceSends take) : 0 < send.1 ∧ send.1 ≤ flow.max := by
  obtain ⟨least, _, _, _⟩ := max_bounds deep wide
  refine ⟨pieceSends_pos member, ?_⟩
  unfold pieceSends at member
  split at member
  · next short =>
      rw [List.mem_singleton.mp member]
      simp only [inlineMax, headLen, tbPacket] at short least ⊢
      omega
  · simp only [List.mem_cons, List.not_mem_nil, or_false] at member
    rcases member with rfl | rfl
    · simp only [headLen, tbPacket] at least ⊢
      omega
    · exact fits

theorem goes_write (idle : Idle flow) (deep : 4 ≤ flow.depth)
    (wide : 4 ≤ flow.peerSlots) {take : Nat} (fits : take ≤ flow.max) :
    Goes flow (.write take) := by
  refine goes_of_sized deep wide ?_ fun send member =>
    sized_pieceSends deep wide fits member
  have half := (packets_le_half deep wide fits).2
  simp only [Op.canPost]
  split
  · exact hasRoom_idle idle deep (by omega) (by decide)
  · exact hasRoom_idle idle deep (by omega) (by decide)

theorem goes_signal (idle : Idle flow) (deep : 4 ≤ flow.depth)
    (wide : 4 ≤ flow.peerSlots) : Goes flow .signal := by
  obtain ⟨least, _, _, _⟩ := max_bounds deep wide
  refine goes_of_sized deep wide
    (hasRoom_idle idle deep (by omega) (by decide)) fun send member => ?_
  rw [List.mem_singleton.mp member]
  simp only [headLen, tbPacket] at least ⊢
  omega

theorem goes_writeSignal (idle : Idle flow) (deep : 4 ≤ flow.depth)
    (wide : 4 ≤ flow.peerSlots) {len : Nat} (fits : len + wsHead ≤ flow.max) :
    Goes flow (.writeSignal len) := by
  rw [Nat.add_comm] at fits
  have half := (packets_le_half deep wide fits).2
  refine goes_of_sized deep wide
    (hasRoom_idle idle deep (by omega) (by decide)) fun send member => ?_
  rw [List.mem_singleton.mp member]
  exact ⟨by simp only [wsHead]; omega, fits⟩

theorem goes_bondWriteN (idle : Idle flow) (deep : 4 ≤ flow.depth)
    (wide : 4 ≤ flow.peerSlots) {links take : Nat} (few : links ≤ tbBondMax)
    (nonzero : 0 < take) (fits : take ≤ flow.max) :
    Goes flow (.bondWriteN links take) := by
  obtain ⟨least, _, _, _⟩ := max_bounds deep wide
  have half := (packets_le_half deep wide fits).2
  refine goes_of_sized deep wide
    (hasRoom_idle idle deep (by omega) (by decide)) fun send member => ?_
  simp only [Op.sends, List.mem_cons, List.not_mem_nil, or_false] at member
  rcases member with rfl | rfl
  · simp only [headLen, tbPacket, tbBondMax] at few least ⊢
    omega
  · exact ⟨nonzero, fits⟩

theorem goes_bondInlineN (idle : Idle flow) (deep : 4 ≤ flow.depth)
    (wide : 4 ≤ flow.peerSlots) {links len : Nat}
    (short : len ≤ tbPacket - (headLen + 16 + links * 8))
    (few : links ≤ tbBondMax) : Goes flow (.bondInlineN links len) := by
  obtain ⟨least, _, _, _⟩ := max_bounds deep wide
  refine goes_of_sized deep wide
    (hasRoom_idle idle deep (by omega) (by decide)) fun send member => ?_
  rw [List.mem_singleton.mp member]
  simp only [headLen, tbPacket, tbBondMax] at few short least ⊢
  omega

/-- `tb_can_write` finds room for one piece. -/
theorem canWrite_single (idle : Idle flow) (deep : 4 ≤ flow.depth)
    (wide : 4 ≤ flow.peerSlots) {take : Nat} (fits : take ≤ flow.max) :
    flow.canWrite [take] = true := by
  have half := (packets_le_half deep wide fits).2
  have packets := idle.packets
  have posted := idle.sends
  have staging := idle.staging
  have few : (if take ≤ inlineMax then 1 else 1 + Link.packets take) ≤
      flow.depth / 2 + 1 := by
    split <;> omega
  have two : (if take ≤ inlineMax then 1 else 2) ≤ 2 := by
    split <;> omega
  simp only [Flow.canWrite, Flow.countPieces, Nat.zero_add]
  rw [if_neg (by simp only [tbSendWr, tbStage]; omega)]
  apply decide_eq_true
  simp only [tbSendWr, tbStage]
  omega

theorem goes_writeTry (idle : Idle flow) (deep : 4 ≤ flow.depth)
    (wide : 4 ≤ flow.peerSlots) {take : Nat} (fits : take ≤ flow.max) :
    Goes flow (.writeTry [take]) := by
  refine goes_of_sized deep wide (canWrite_single idle deep wide fits)
    fun send member => ?_
  simp only [Op.sends, List.flatMap_cons, List.flatMap_nil,
    List.append_nil] at member
  exact sized_pieceSends deep wide fits member

/-- The bytes `bond_rooms` offers: some, no more than are left, within the
limit of a try and inside one registration. -/
theorem bondRooms_take (deep : 4 ≤ flow.depth) (wide : 4 ≤ flow.peerSlots)
    {src : Source} (segPos : 1 ≤ src.seg) (backlog off : Nat) {len : Nat}
    (nonzero : 0 < len) :
    0 < (bondRooms flow src backlog off len).1 ∧
      (bondRooms flow src backlog off len).1 ≤ len ∧
      (bondRooms flow src backlog off len).1 ≤ flow.max ∧
      (bondRooms flow src backlog off len).1 ≤ tbTryMax ∧
      (bondRooms flow src backlog off len).1 ≤
        src.seg - off % src.seg := by
  obtain ⟨least, _, _, _⟩ := max_bounds deep wide
  have below := Nat.mod_lt off segPos
  simp only [bondRooms, bondChunk, tbWriteLimit, tbTryMax, tbPacket] at least ⊢
  omega

/-- An idle link is ready for what `bond_rooms` offers it, and
`tb_write_try` posts that as one piece. -/
theorem bondRooms_ready (idle : Idle flow) (deep : 4 ≤ flow.depth)
    (wide : 4 ≤ flow.peerSlots) {src : Source} (segPos : 1 ≤ src.seg)
    {off len : Nat} (nonzero : 0 < len) (inside : off ≤ src.length)
    (within : len ≤ src.length - off) (healthy : flow.poisoned = false) :
    (bondRooms flow src 0 off len).2 = true ∧
      takes flow.max src off (bondRooms flow src 0 off len).1 =
        [(bondRooms flow src 0 off len).1] ∧
      Goes flow (.writeTry [(bondRooms flow src 0 off len).1]) := by
  obtain ⟨least, _, _, _⟩ := max_bounds deep wide
  obtain ⟨positive, shorter, fits, short, inSeg⟩ :=
    bondRooms_take deep wide segPos 0 off nonzero
  have single : takes flow.max src off (bondRooms flow src 0 off len).1 =
      [(bondRooms flow src 0 off len).1] := by
    rw [takes, cut_single positive fits inSeg]
    rfl
  refine ⟨?_, single, goes_writeTry idle deep wide fits⟩
  have can : tbCanWrite flow src off (bondRooms flow src 0 off len).1 = 1 := by
    rw [tbCanWrite, single, canWrite_single idle deep wide fits,
      if_neg (by rw [healthy]; simp; omega), if_neg ?_, if_pos rfl]
    simp only [tbPacket] at least
    omega
  simp only [bondRooms, Bool.and_eq_true, decide_eq_true_eq] at can positive ⊢
  exact ⟨⟨can, by omega⟩, by decide⟩

/-- The checks of the senders are those of what they post: one for each section,
of as many bytes and staging slots. -/
structure Checked (max seg off len links : Nat) : Prop where
  write : ∀ src lane roff,
    (tbWrite max seg src lane off roff len).1.map sendsOf =
      (writeOps max seg off len).map Op.sends
  writeTry : ∀ src lane roff, seg = src.seg →
    sendsOf (tbWriteTry max seg src.mem lane off roff len).1 =
      (Op.writeTry (takes max src off len)).sends
  writeSignal : ∀ src lane roff soff value,
    (tbWriteSignal max seg src lane off roff len soff value).1.map sendsOf =
      (writeSignalOps max seg off len).map Op.sends
  bondWriteN : ∀ src lane roff sig wait flags,
    (tbBondWriteN max seg src lane off roff len sig wait links flags).1.map
        sendsOf =
      (bondWriteNOps max seg off len links).map Op.sends
  bondInlineN : ∀ src lane roff soff value sig need wait flags,
    sendsOf (tbBondInlineN src lane off roff len soff value sig need wait links
      flags).1 = (Op.bondInlineN links len).sends

/-- A sender that waits before each piece checks for each of them. -/
theorem checked_cut {post : Lane → Piece → List Post × Lane} (op : Nat → Op)
    (each : ∀ lane piece, sendsOf (post lane piece).1 = (op piece.len).sends)
    (max seg off roff len : Nat) (lane : Lane) :
    (postPieces post lane (cut max seg off roff len)).1.map sendsOf =
      ((cut max seg off 0 len).map fun piece => op piece.len).map Op.sends := by
  rw [sendsOf_postPieces lane op each, cut,
    map_len_pieces max seg len off roff 0 len, cut, List.map_map, List.map_map]
  rfl

theorem checked_write (max seg off len : Nat) (src : Mem) (lane : Lane)
    (roff : Nat) :
    (tbWrite max seg src lane off roff len).1.map sendsOf =
      (writeOps max seg off len).map Op.sends :=
  checked_cut Op.write (sendsOf_writePiece src) max seg off roff len lane

theorem checked (max seg off len links : Nat) :
    Checked max seg off len links where
  write := checked_write max seg off len
  writeTry := by
    rintro src lane roff rfl
    rw [tbWriteTry, sendsOf_flatten,
      sendsOf_postPieces lane Op.write (sendsOf_writePiece src.mem), cut,
      map_len_pieces max src.seg len off roff 0 len]
    rfl
  writeSignal := by
    intro src lane roff soff value
    unfold tbWriteSignal writeSignalOps
    split
    · dsimp only
      rw [List.map_append, List.map_append, checked_write, List.map_singleton,
        sendsOf_tbSignal]
      rfl
    · rw [List.map_singleton, List.map_singleton, sendsOf_writeSignal,
        Mem.length_read]
  bondWriteN := fun src lane roff sig wait flags =>
    checked_cut (Op.bondWriteN links)
      (fun lane piece => sendsOf_bondPiece src lane sig links wait flags piece)
      max seg off roff len lane
  bondInlineN := fun src lane roff soff value sig need wait flags =>
    sendsOf_tbBondInlineN src lane off roff len soff value sig need wait links
      flags

/-- On a link with nothing in flight, with a depth and a peer's ring of at least
four, every piece that a sender cuts passes the sender's own room check and has
messages of at most half the peer's ring that fit their records; the pieces of a
request add up to it, the checks are those of what the senders post, and
`bond_rooms` finds the link ready. -/
theorem idle_goes (flow : Flow) (src : Source) (off len links : Nat)
    (idle : Idle flow) (deep : 4 ≤ flow.depth) (wide : 4 ≤ flow.peerSlots)
    (segPos : 1 ≤ src.seg) (nonzero : 0 < len) (inside : off ≤ src.length)
    (within : len ≤ src.length - off) (few : links ≤ tbBondMax) :
    ((cut flow.max src.seg off 0 len).map Piece.len).sum = len ∧
    Checked flow.max src.seg off len links ∧
    (∀ op ∈ writeOps flow.max src.seg off len, Goes flow op) ∧
    (wsHead ≤ off →
      ∀ op ∈ writeSignalOps flow.max src.seg off len, Goes flow op) ∧
    (∀ op ∈ bondWriteNOps flow.max src.seg off len links, Goes flow op) ∧
    (len ≤ tbPacket - (headLen + 16 + links * 8) →
      Goes flow (.bondInlineN links len)) ∧
    (flow.poisoned = false →
      (bondRooms flow src 0 off len).2 = true ∧
      takes flow.max src off (bondRooms flow src 0 off len).1 =
        [(bondRooms flow src 0 off len).1] ∧
      Goes flow (.writeTry [(bondRooms flow src 0 off len).1])) := by
  have maxPos : 0 < flow.max := by
    obtain ⟨least, _, _, _⟩ := max_bounds deep wide
    simp only [tbPacket] at least
    omega
  have writes : ∀ op ∈ writeOps flow.max src.seg off len, Goes flow op := by
    intro op member
    obtain ⟨piece, mine, rfl⟩ := List.mem_map.mp member
    exact goes_write idle deep wide (mem_pieces maxPos segPos mine).2.1
  refine ⟨sum_pieces maxPos segPos le_rfl, checked _ _ _ _ _, writes,
    fun _ op member => ?_,
    fun op member => ?_, fun short => goes_bondInlineN idle deep wide short few,
    bondRooms_ready idle deep wide segPos nonzero inside within⟩
  · unfold writeSignalOps at member
    split at member
    · rcases List.mem_append.mp member with write | signal
      · exact writes op write
      · rw [List.mem_singleton.mp signal]
        exact goes_signal idle deep wide
    · next fused =>
        rw [List.mem_singleton.mp member]
        exact goes_writeSignal idle deep wide (by omega)
  · obtain ⟨piece, mine, rfl⟩ := List.mem_map.mp member
    have sized := mem_pieces maxPos segPos mine
    exact goes_bondWriteN idle deep wide few sized.1 sized.2.1

/-- At the least depths a request of 20000 bytes over registrations of 5000 still
goes. -/
theorem idle_goes_least :
    ((cut (msgMax 4 4) 5000 70 0 20000).map Piece.len).sum = 20000 ∧
      ∀ op ∈ writeOps (msgMax 4 4) 5000 70 20000,
        Goes { depth := 4, peerSlots := 4 } op := by
  have goes := idle_goes { depth := 4, peerSlots := 4 }
    ⟨fun _ => 0, 30000, 5000⟩ 70 20000 2 ⟨rfl, rfl, rfl⟩ (by decide)
    (by decide) (by decide) (by decide) (by decide) (by decide) (by decide)
  exact ⟨goes.1, goes.2.2.1⟩

end

end Fabric
end Mcdma
