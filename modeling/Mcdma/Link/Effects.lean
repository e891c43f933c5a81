import Mcdma.Link.Pair

/-!
# What a section's messages do

Each message of a single link has effects at the receiver: bytes copied, a word
stored, or a fence reached.  The messages of a section have the effects of the
section, those of a call's sections the effects of the call, and applying a
call's effects one after another is what the call means.
-/

namespace Mcdma
namespace Link

/-- One effect of a message at its receiver. -/
inductive Effect
  | bytes (patch : Patch)
  | word (patch : Patch)
  | fence
  deriving DecidableEq

/-- The store of an effect, and whether it is a signal's word. -/
def Effect.store? : Effect → Option (Bool × Patch)
  | .bytes patch => some (false, patch)
  | .word patch => some (true, patch)
  | .fence => none

/-- The effects of a message of a single link. -/
def Post.effects : Post → List Effect
  | .inline _ _ roff bytes => [.bytes ⟨roff, bytes⟩]
  | .payload _ roff bytes => [.bytes ⟨roff, bytes⟩]
  | .signal _ soff value => [.word ⟨soff, Link.word value⟩]
  | .fence _ _ => [.fence]
  | .writeSignal _ _ roff bytes soff value =>
      [.bytes ⟨roff, bytes⟩, .word ⟨soff, Link.word value⟩]
  | _ => []

/-- A message stores what its effects store. -/
theorem Post.stores_effects {range : Nat × Nat} {post : Post}
    (plain : post.Plain range) :
    (post.stores 0).map (fun store => (store.tag.isWord, store.patch)) =
      post.effects.filterMap Effect.store? := by
  cases post <;>
    first
    | rfl
    | simp [Post.Plain] at plain

namespace Section

/-- The effects of a section. -/
def effects : Section → List Effect
  | .piece src cut => [.bytes (cut.patch src)]
  | .pieces src cuts => cuts.map fun cut => .bytes (cut.patch src)
  | .signal roff value => [.word ⟨roff, Link.word value⟩]
  | .fused src off roff len soff value =>
      [.bytes ⟨roff, src.read off len⟩, .word ⟨soff, Link.word value⟩]
  | .fence => [.fence]

/-- A piece of a size the link sends, inside what the receiver may be
written. -/
def GoodPiece (range : Nat × Nat) (max : Nat) (cut : Piece) : Prop :=
  0 < cut.len ∧ cut.len ≤ max ∧ range.1 ≤ cut.roff ∧
    cut.roff + cut.len ≤ range.2

/-- A section of sizes the link sends, inside what the receiver may be
written. -/
def Good (range : Nat × Nat) (max : Nat) : Section → Prop
  | .piece _ cut => GoodPiece range max cut
  | .pieces _ cuts => ∀ cut ∈ cuts, GoodPiece range max cut
  | .signal roff value => WordAt range roff ∧ value < 2 ^ 64
  | .fused _ _ roff len soff value => 0 < len ∧ wsHead + len ≤ max ∧
      range.1 ≤ roff ∧ roff + len ≤ range.2 ∧ WordAt range soff ∧
      value < 2 ^ 64
  | .fence => True

/-- The number a fence section asks with. -/
def asks (lane : Lane) (part : Section) : List Nat :=
  if part.waits then [(lane.fences + 1) % 2 ^ 32] else []

end Section

/-- What posting messages from a lane means: they follow the lane's position,
have these effects, cost these sends, and ask for and give these answers. -/
structure Posted (range : Nat × Nat) (slots : Nat) (lane : Lane)
    (posted : List Post × Lane) (effects : List Effect)
    (sends : List (Nat × Nat)) (asks acks : List Nat) : Prop where
  walks : walk (Pos.ofLane lane) posted.1 = some (Pos.ofLane posted.2)
  effects : posted.1.flatMap Post.effects = effects
  sends : sendsOf posted.1 = sends
  plain : ∀ post ∈ posted.1, post.Plain range ∧
    packets post.wire.length ≤ slots ∧ post.wire ≠ []
  asks : posted.1.filterMap Post.answer? = asks
  acks : posted.1.filterMap Post.ack? = acks

section

variable {range : Nat × Nat} {slots depth : Nat} {lane : Lane}

/-- Bytes of a message that fits half a ring. -/
theorem packets_le_of_max {len : Nat}
    (short : len ≤ msgMax depth slots) : packets len ≤ slots / 2 := by
  have half : len ≤ slots / 2 * tbPacket :=
    short.trans ((Nat.min_le_left _ _).trans (Nat.min_le_left _ _))
  simp only [packets, tbPacket] at *
  omega

theorem sends_head {post : Post} {head : Head} (has : post.head = some head) :
    post.wire.length = headLen + post.body.length ∧ post.wire ≠ [] := by
  have length := Post.length_wire_of_head has
  refine ⟨length, ?_⟩
  intro empty
  rw [empty, List.length_nil] at length
  omega

theorem packets_inline {len : Nat} (short : len ≤ inlineMax) :
    packets (headLen + len) = 1 := by
  simp only [inlineMax, headLen, tbPacket] at *
  exact packets_eq_one (by omega) (by simp only [tbPacket]; omega)

/-- One piece of a write. -/
theorem posted_piece (src : Mem) {cut : Piece} (wide : 4 ≤ slots)
    (good : Section.GoodPiece range (msgMax depth slots) cut) :
    Posted range slots lane (writePiece src lane cut)
      [.bytes (cut.patch src)] (pieceSends cut.len) [] [] := by
  obtain ⟨some, short, low, high⟩ := good
  have most : cut.len ≤ tbMsg := short.trans (msgMax_le _ _)
  have nonempty : src.read cut.off cut.len ≠ [] := by
    intro empty
    have length := Mem.length_read src cut.off cut.len
    rw [empty, List.length_nil] at length
    omega
  have sends := sendsOf_writePiece src lane cut
  unfold writePiece pieceSends at sends ⊢
  by_cases inline : cut.len ≤ inlineMax
  · rw [if_pos inline, if_pos inline] at sends ⊢
    have wire := sends_head (rfl : (Post.inline lane.txSeq
      (lane.writesPosted + 1) cut.roff (src.read cut.off cut.len)).head =
        Option.some _)
    simp only [Post.body, Mem.length_read] at wire
    refine ⟨?_, rfl, sends, ?_, rfl, rfl⟩
    · simp [walk, Post.step, Pos.past, Pos.ofLane, Lane.sent]
    · intro post mine
      rw [List.mem_singleton.mp mine]
      refine ⟨⟨nonempty, by simpa using inline, low, by simpa using high⟩, ?_,
        wire.2⟩
      rw [wire.1, packets_inline inline]
      omega
  · rw [if_neg inline, if_neg inline] at sends ⊢
    have wire := sends_head (rfl : (Post.write lane.txSeq
      (lane.writesPosted + 1) cut.roff (src.read cut.off cut.len)).head =
        Option.some _)
    simp only [Post.body, List.length_nil, Nat.add_zero] at wire
    have payload : (Post.payload (lane.writesPosted + 1) cut.roff
        (src.read cut.off cut.len)).wire = src.read cut.off cut.len := rfl
    refine ⟨?_, rfl, sends, ?_, rfl, rfl⟩
    · simp [walk, Post.step, Pos.pastHeader, Pos.ofLane, Lane.sent]
    · intro post member
      simp only [List.mem_cons, List.not_mem_nil, or_false] at member
      rcases member with rfl | rfl
      · refine ⟨⟨nonempty, by simpa using most, low, by simpa using high⟩, ?_,
          wire.2⟩
        rw [wire.1]
        exact le_trans (by decide : packets headLen ≤ 1) (by omega)
      · refine ⟨⟨nonempty, by simpa using most⟩, ?_, nonempty⟩
        rw [payload, Mem.length_read]
        exact (packets_le_of_max short).trans (Nat.div_le_self _ _)

/-- Postings one after another. -/
theorem Posted.append {first second : List Post × Lane}
    {effects effects' : List Effect} {sends sends' : List (Nat × Nat)}
    {asks asks' acks acks' : List Nat}
    (left : Posted range slots lane first effects sends asks acks)
    (right : Posted range slots first.2 second effects' sends' asks' acks') :
    Posted range slots lane (first.1 ++ second.1, second.2)
      (effects ++ effects') (sends ++ sends') (asks ++ asks')
      (acks ++ acks') where
  walks := walk_append_of left.walks right.walks
  effects := by rw [List.flatMap_append, left.effects, right.effects]
  sends := by rw [sendsOf, List.map_append, ← left.sends, ← right.sends]; rfl
  plain := by
    intro post member
    rcases List.mem_append.mp member with earlier | later
    · exact left.plain post earlier
    · exact right.plain post later
  asks := by rw [List.filterMap_append, left.asks, right.asks]
  acks := by rw [List.filterMap_append, left.acks, right.acks]

/-- The pieces of a write that does not wait. -/
theorem posted_pieces (src : Mem) {cuts : List Piece} (wide : 4 ≤ slots)
    (good : ∀ cut ∈ cuts, Section.GoodPiece range (msgMax depth slots) cut) :
    Posted range slots lane
      ((postPieces (writePiece src) lane cuts).1.flatten,
        (postPieces (writePiece src) lane cuts).2)
      (cuts.map fun cut => .bytes (cut.patch src))
      ((cuts.map Piece.len).flatMap pieceSends) [] [] := by
  induction cuts generalizing lane with
  | nil => exact ⟨rfl, rfl, rfl, by simp [postPieces], rfl, rfl⟩
  | cons cut rest inductionHypothesis =>
      exact (posted_piece src wide (good cut (List.mem_cons_self ..))).append
        (inductionHypothesis fun other member =>
          good other (List.mem_cons_of_mem _ member))

/-- A section's messages have the section's effects and cost. -/
theorem Section.posted {part : Section} (wide : 4 ≤ slots)
    (good : part.Good range (msgMax depth slots)) :
    Posted range slots lane (part.post lane) part.effects part.op.sends
      (part.asks lane) [] := by
  cases part with
  | piece src cut => exact posted_piece src wide good
  | pieces src cuts => exact posted_pieces src wide good
  | signal roff value =>
      have wire := sends_head (rfl : (Post.signal lane.txSeq roff value).head =
        some _)
      simp only [Post.body, List.length_nil, Nat.add_zero] at wire
      refine ⟨?_, rfl, sendsOf_tbSignal lane roff value, ?_, rfl, rfl⟩
      · simp [walk, Section.post, tbSignal, Post.step, Pos.past, Pos.ofLane,
          Lane.sent]
      · intro post mine
        rw [List.mem_singleton.mp mine]
        refine ⟨good, ?_, wire.2⟩
        rw [wire.1]
        exact le_trans (by decide : packets headLen ≤ 1) (by omega)
  | fused src off roff len soff value =>
      obtain ⟨pos, short, low, high, word, valueFits⟩ := good
      have nonempty : src.read off len ≠ [] := by
        intro empty
        have length := Mem.length_read src off len
        rw [empty, List.length_nil] at length
        omega
      have wire := sends_head (rfl : (Post.writeSignal lane.txSeq
        (lane.writesPosted + 1) roff (src.read off len) soff value).head =
          some _)
      have length : (Post.writeSignal lane.txSeq (lane.writesPosted + 1) roff
          (src.read off len) soff value).wire.length = wsHead + len := by
        rw [wire.1]
        simp only [Post.body, List.length_append, Bytes.length_lowBytes,
          List.length_replicate, Mem.length_read, headLen, wsHead]
        omega
      refine ⟨?_, rfl, ?_, ?_, rfl, rfl⟩
      · simp [walk, Section.post, Post.step, Pos.past, Pos.ofLane, Lane.sent]
      · rw [Section.post, sendsOf_writeSignal, Mem.length_read]
        rfl
      · intro post mine
        rw [List.mem_singleton.mp mine]
        have most := short.trans (msgMax_le depth slots)
        refine ⟨⟨nonempty, by rw [Mem.length_read]; omega, low,
          by simpa using high, word, valueFits⟩, ?_, wire.2⟩
        rw [length]
        exact (packets_le_of_max short).trans (Nat.div_le_self _ _)
  | fence =>
      have wire := sends_head (rfl : (Post.fence lane.txSeq
        ((lane.fences + 1) % 2 ^ 32)).head = some _)
      simp only [Post.body, List.length_nil, Nat.add_zero] at wire
      refine ⟨?_, rfl, ?_, ?_, rfl, rfl⟩
      · simp [walk, Section.post, tbFence, Post.step, Pos.past, Pos.ofLane,
          Lane.sent]
      · simp only [sendsOf, Section.post, tbFence, List.map_cons, List.map_nil,
          wire.1, Post.staged, Section.op, Op.sends]
      · intro post mine
        rw [List.mem_singleton.mp mine]
        refine ⟨Nat.mod_lt _ (by decide), ?_, wire.2⟩
        rw [wire.1]
        exact le_trans (by decide : packets headLen ≤ 1) (by omega)

/-- The answer to a fence. -/
theorem posted_answer {value : Nat} (wide : 4 ≤ slots)
    (small : value < 2 ^ 32) :
    Posted range slots lane ([.fenceAck lane.txSeq value], lane.sent 0) []
      Op.fenceAck.sends [] [value] := by
  have wire := sends_head (rfl : (Post.fenceAck lane.txSeq value).head = some _)
  simp only [Post.body, List.length_nil, Nat.add_zero] at wire
  refine ⟨?_, rfl, ?_, ?_, rfl, rfl⟩
  · simp [walk, Post.step, Pos.past, Pos.ofLane, Lane.sent]
  · simp [sendsOf, wire.1, Post.staged, Op.sends]
  · intro post mine
    rw [List.mem_singleton.mp mine]
    refine ⟨small, ?_, wire.2⟩
    rw [wire.1]
    exact le_trans (by decide : packets headLen ≤ 1) (by omega)

end

/-! ## What a call means -/

namespace Call

/-- The bytes a call writes. -/
def bytes? : Call → Option Patch
  | .write src off roff len => some ⟨roff, src.mem.read off len⟩
  | .writeTry src off roff len => some ⟨roff, src.mem.read off len⟩
  | .writeSignal src off roff len _ _ => some ⟨roff, src.mem.read off len⟩
  | _ => none

/-- The word a call stores, after its bytes. -/
def word? : Call → Option Patch
  | .signal roff value => some ⟨roff, word value⟩
  | .writeSignal _ _ _ _ soff value => some ⟨soff, word value⟩
  | _ => none

/-- A window with a call's bytes written. -/
def copy (window : Mem) (call : Call) : Mem :=
  call.bytes?.elim window (Patch.apply window)

/-- A window after a call. -/
def apply (window : Mem) (call : Call) : Mem :=
  call.word?.elim (call.copy window) (Patch.apply (call.copy window))

/-- A window after calls one after another. -/
def applyAll (window : Mem) (calls : List Call) : Mem :=
  calls.foldl apply window

/-- The effects of a call. -/
def effects (max : Nat) (call : Call) : List Effect :=
  (call.sections max).flatMap Section.effects

/-- What comes behind the bytes of a call. -/
def last : Call → List Effect
  | .signal roff value => [.word ⟨roff, Link.word value⟩]
  | .writeSignal _ _ _ _ soff value => [.word ⟨soff, Link.word value⟩]
  | .fence => [.fence]
  | _ => []

end Call

/-- The stores of effects. -/
def patchesOf (effects : List Effect) : List Patch :=
  (effects.filterMap Effect.store?).map Prod.snd

theorem patchesOf_append (first second : List Effect) :
    patchesOf (first ++ second) = patchesOf first ++ patchesOf second := by
  simp [patchesOf]

@[simp] theorem patchesOf_bytes (patches : List Patch) :
    patchesOf (patches.map Effect.bytes) = patches := by
  induction patches with
  | nil => rfl
  | cons patch rest inductionHypothesis =>
      simpa [patchesOf, Effect.store?] using inductionHypothesis

namespace Call

variable {max : Nat}

theorem effects_pieces (src : Mem) (cuts : List Piece) :
    (cuts.map (Section.piece src)).flatMap Section.effects =
      (cuts.map (Piece.patch src)).map Effect.bytes := by
  induction cuts with
  | nil => rfl
  | cons cut rest inductionHypothesis =>
      simpa [Section.effects] using inductionHypothesis

/-- A call's effects are copies that write its bytes, and then at most its word
or its fence. -/
theorem effects_eq (pos : 0 < max) (call : Call) :
    ∃ front : List Patch, call.effects max = front.map .bytes ++ call.last ∧
      ∀ window, Patch.replay window front = call.copy window := by
  cases call with
  | write src off roff len =>
      refine ⟨(cut max src.seg off roff len).map (Piece.patch src.mem), ?_,
        fun window => replay_cut src.mem window pos src.segPos off roff len⟩
      exact (effects_pieces src.mem _).trans (List.append_nil _).symm
  | writeTry src off roff len =>
      refine ⟨(cut max src.seg off roff len).map (Piece.patch src.mem), ?_,
        fun window => replay_cut src.mem window pos src.segPos off roff len⟩
      simp [effects, sections, last, Section.effects, Function.comp_def]
  | signal roff value => exact ⟨[], rfl, fun _ => rfl⟩
  | fence => exact ⟨[], rfl, fun _ => rfl⟩
  | writeSignal src off roff len soff value =>
      by_cases apart : max < len + wsHead ∨
          (off - wsHead) / src.seg ≠ (off + len - 1) / src.seg
      · refine ⟨(cut max src.seg off roff len).map (Piece.patch src.mem), ?_,
          fun window => replay_cut src.mem window pos src.segPos off roff len⟩
        rw [effects, sections, if_pos apart, List.flatMap_append,
          effects_pieces]
        rfl
      · refine ⟨[⟨roff, src.mem.read off len⟩], ?_, fun _ => rfl⟩
        rw [effects, sections, if_neg apart]
        rfl

/-- Storing a call's effects applies the call. -/
theorem replay_effects (pos : 0 < max) (window : Mem) (call : Call) :
    Patch.replay window (patchesOf (call.effects max)) =
      call.apply window := by
  obtain ⟨front, same, copies⟩ := call.effects_eq pos
  rw [same, patchesOf_append, patchesOf_bytes, Patch.replay_append, copies]
  cases call <;> rfl

theorem replay_flatMap (pos : 0 < max) (window : Mem) (calls : List Call) :
    Patch.replay window (patchesOf (calls.flatMap (effects max))) =
      applyAll window calls := by
  induction calls generalizing window with
  | nil => rfl
  | cons call rest inductionHypothesis =>
      rw [List.flatMap_cons, patchesOf_append, Patch.replay_append,
        replay_effects pos, inductionHypothesis]
      rfl

/-- The sections of a call inside its limits are inside theirs. -/
theorem sections_good {range : Nat × Nat} {call : Call} (pos : 0 < max)
    (checked : call.Checked) (inside : call.Inside range) :
    ∀ part ∈ call.sections max, part.Good range max := by
  have pieces : ∀ (src : Region) (off roff len : Nat),
      range.1 ≤ roff ∧ roff + len ≤ range.2 →
      ∀ piece ∈ cut max src.seg off roff len,
        Section.GoodPiece range max piece := by
    intro src off roff len bounds piece member
    obtain ⟨some, short, low, high⟩ := mem_pieces pos src.segPos member
    exact ⟨some, short, by omega, by omega⟩
  cases call with
  | write src off roff len =>
      intro part member
      obtain ⟨piece, mine, rfl⟩ := List.mem_map.mp member
      exact pieces src off roff len inside piece mine
  | writeTry src off roff len =>
      intro part member
      rw [List.mem_singleton.mp member]
      exact pieces src off roff len inside
  | signal roff value =>
      intro part member
      rw [List.mem_singleton.mp member]
      exact inside
  | fence =>
      intro part member
      rw [List.mem_singleton.mp member]
      trivial
  | writeSignal src off roff len soff value =>
      obtain ⟨low, high, word, value⟩ := inside
      intro part member
      rw [sections] at member
      split at member
      · rcases List.mem_append.mp member with early | late
        · obtain ⟨piece, mine, rfl⟩ := List.mem_map.mp early
          exact pieces src off roff len ⟨low, high⟩ piece mine
        · rw [List.mem_singleton.mp late]
          exact ⟨word, value⟩
      · next together =>
          push Not at together
          rw [List.mem_singleton.mp member]
          have some := checked.2.2.2
          exact ⟨by omega, by omega, low, high, word, value⟩

theorem tryPart_eq {call : Call} {part : Section}
    (tries : call.tryPart max = some part) : call.sections max = [part] := by
  cases call <;> simp only [tryPart, Option.some.injEq, reduceCtorEq] at tries
  rw [← tries]
  rfl

end Call

/-- The sizes of a good section are those its operation is called with. -/
theorem Section.Good.sized {range : Nat × Nat} {max : Nat} {part : Section}
    (good : part.Good range max) : part.op.Sized max := by
  cases part with
  | piece src piece => exact ⟨good.1, good.2.1⟩
  | pieces src pieces =>
      intro take member
      obtain ⟨piece, mine, rfl⟩ := List.mem_map.mp member
      exact ⟨(good piece mine).1, (good piece mine).2.1⟩
  | fused src off roff len soff value => exact ⟨good.1, good.2.1⟩
  | signal _ _ => trivial
  | fence => trivial

end Link
end Mcdma
