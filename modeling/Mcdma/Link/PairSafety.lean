import Mcdma.Link.Effects

/-!
# What every reachable pair of ends keeps

For each direction of a link: the messages posted are those taken and those in
flight, the packets of the latter are what lies in the ring and behind it, the
receiver stands behind the former with exactly their stores, and the messages
posted have the effects of the calls so far.  Fences are numbered, each is
answered once when it is taken, and an end that is in no fence has taken the
answers to all of its own.
-/

namespace Mcdma
namespace Link

/-- The numbers of the first `count` fences of an end. -/
def fenceNumbers (count : Nat) : List Nat :=
  (List.range count).map fun index => (index + 1) % 2 ^ 32

theorem fenceNumbers_succ (count : Nat) :
    fenceNumbers (count + 1) =
      fenceNumbers count ++ [(count + 1) % 2 ^ 32] := by
  simp [fenceNumbers, List.range_succ]

/-- The fences an end has posted. -/
def End.asked (one : End) : List Nat :=
  one.log.filterMap Post.answer?

/-- The sections left of a call that waits for room: inside the link's limits,
and a fence stands alone. -/
structure Outstanding (range : Nat × Nat) (max : Nat) (todo : List Section) :
    Prop where
  good : ∀ part ∈ todo, part.Good range max
  alone : ∀ part ∈ todo, part.waits = true → todo = [part]
  patient : ∀ part ∈ todo, ∀ src cuts, part ≠ .pieces src cuts

theorem Outstanding.rest {range : Nat × Nat} {max : Nat} {part : Section}
    {rest : List Section} (all : Outstanding range max (part :: rest)) :
    Outstanding range max rest := by
  refine ⟨fun other member => all.good other (List.mem_cons_of_mem _ member),
    ?_, fun other member => all.patient other (List.mem_cons_of_mem _ member)⟩
  intro other member waits
  have only := all.alone other (List.mem_cons_of_mem _ member) waits
  rw [(List.cons.inj only).2] at member
  simp at member

/-- One direction of a link: `taken` are the messages the receiver has taken,
`flying` those it has not, and `cells` the packets in its ring. -/
structure Carries (sender receiver : End) (taken flying : List Post)
    (cells : List Packet) : Prop where
  deep : 4 ≤ sender.flow.depth
  wide : 4 ≤ receiver.ring.slots
  peer : sender.flow.peerSlots = receiver.ring.slots
  fits : receiver.range.2 < 2 ^ 64
  log : sender.log = taken ++ flying
  sent : walk (Pos.ofLane {}) sender.log = some (Pos.ofLane sender.lane)
  plain : ∀ post ∈ sender.log, post.Plain receiver.range ∧
    packets post.wire.length ≤ receiver.ring.slots ∧ post.wire ≠ []
  ready : Outstanding receiver.range sender.flow.max sender.todo
  holds : receiver.ring.Holds cells
  flight : cells ++ sender.out = packetsOfAll flying
  stands : ∃ pos, walk (Pos.ofLane {}) taken = some pos ∧
    At receiver.range receiver.recv.rx pos
  sane : receiver.recv.rx.why = none
  stores : receiver.recv.stores = taken.flatMap (Post.stores 0)
  effects : sender.log.flatMap Post.effects ++
      sender.todo.flatMap Section.effects =
    sender.calls.flatMap (Call.effects sender.flow.max)
  flow : sender.flow.Ok
  room : sender.flow.hasRoom 1 1 true = true ∨
    ∃ post, sender.log.getLast? = some post ∧ post.ack?.isSome

/-- The fences of one end: `answered` are its messages the other end has taken,
`heard` the other end's messages it has taken. -/
structure Fences (asker answerer : End) (answered heard : List Post) :
    Prop where
  numbered : asker.asked = fenceNumbers asker.asked.length
  counted : asker.lane.fences = asker.asked.length % 2 ^ 32
  answers : answerer.log.filterMap Post.ack? =
    answered.filterMap Post.answer?
  acked : asker.recv.rx.fenceAcked =
    (heard.filterMap Post.ack?).length % 2 ^ 32
  idle : asker.waits = none →
    (heard.filterMap Post.ack?).length = asker.asked.length
  waiting : ∀ mine, asker.waits = some mine →
    mine = asker.asked.length % 2 ^ 32 ∧
      asker.asked.length ≤ (heard.filterMap Post.ack?).length + 1 ∧
      asker.todo = [] ∧
      (asker.log.flatMap Post.effects).getLast? = some .fence

/-- Both directions of a link and the fences of both ends. -/
structure Pair.Inv (pair : Pair) : Prop where
  holds : ∃ sent flying cells came coming others,
    Carries pair.here pair.there sent flying cells ∧
    Carries pair.there pair.here came coming others ∧
    Fences pair.here pair.there sent came ∧
    Fences pair.there pair.here came sent

theorem Pair.Inv.swap {pair : Pair} (inv : pair.Inv) : pair.swap.Inv := by
  obtain ⟨sent, flying, cells, came, coming, others, out, back, asks, asked⟩ :=
    inv.holds
  exact ⟨came, coming, others, sent, flying, cells, back, out, asked, asks⟩

theorem Post.Plain.answer_lt {range : Nat × Nat} {post : Post} {value : Nat}
    (plain : post.Plain range) (asks : post.answer? = some value) :
    value < 2 ^ 32 := by
  cases post <;> simp only [Post.answer?, Option.some.injEq, reduceCtorEq] at asks
  rw [← asks]
  exact plain

/-- An end that has taken a message, with its answer posted. -/
def End.after (one : End) (post : Post) (recv : Recv Unit) : End :=
  let taken := { one with
    recv := recv
    ring := one.ring.consume (packetsOf post.wire).length }
  match post.answer? with
  | none => taken
  | some value =>
      taken.emit ([.fenceAck taken.lane.txSeq value], taken.lane.sent 0)

section

variable {sender receiver other : End} {taken flying : List Post}
variable {cells : List Packet}

/-- A direction depends on its receiver's ring, range and receiving half. -/
theorem Carries.atReceiver
    (carries : Carries sender receiver taken flying cells)
    (range : other.range = receiver.range) (ring : other.ring = receiver.ring)
    (recv : other.recv = receiver.recv) :
    Carries sender other taken flying cells := by
  obtain ⟨deep, wide, peer, fits, log, sent, plain, ready, holds, flight, stands,
    sane, stores, effects, flow, room⟩ := carries
  rw [← range] at fits plain ready stands
  rw [← ring] at wide peer plain holds
  rw [← recv] at stands sane stores
  exact ⟨deep, wide, peer, fits, log, sent, plain, ready, holds, flight, stands,
    sane, stores, effects, flow, room⟩

/-- A direction does not depend on its sender's receiving side. -/
theorem Carries.atSender (carries : Carries sender receiver taken flying cells)
    (ring : Ring) (recv : Recv Unit) (waits : Option Nat) :
    Carries { sender with ring := ring, recv := recv, waits := waits } receiver
      taken flying cells :=
  ⟨carries.deep, carries.wide, carries.peer, carries.fits, carries.log,
    carries.sent, carries.plain, carries.ready, carries.holds, carries.flight,
    carries.stands, carries.sane, carries.stores, carries.effects, carries.flow,
    carries.room⟩

theorem packetsOfAll_append (first second : List Post) :
    packetsOfAll (first ++ second) =
      packetsOfAll first ++ packetsOfAll second := by
  simp [packetsOfAll]

/-- Posting keeps what the device granted. -/
theorem Flow.postAll_granted (device : Nat → Bool) (flow : Flow)
    (sends : List (Nat × Nat)) :
    (flow.postAll device sends).1.depth = flow.depth ∧
      (flow.postAll device sends).1.peerSlots = flow.peerSlots := by
  induction sends generalizing flow with
  | nil => exact ⟨rfl, rfl⟩
  | cons send rest inductionHypothesis =>
      obtain ⟨len, staged⟩ := send
      rw [postAll, postSend]
      split
      · exact ⟨rfl, rfl⟩
      · exact inductionHypothesis _

/-- Posting an operation's messages on an accepting device. -/
theorem Op.emit_ok {flow : Flow} {op : Op} (ok : flow.Ok)
    (sized : op.Sized flow.max) (can : op.canPost flow = true) :
    (flow.postAll (fun _ => true) op.sends).1.Ok ∧
      (op ≠ .fenceAck →
        (flow.postAll (fun _ => true) op.sends).1.hasRoom 1 1 true = true) := by
  have whole : ¬op.HalfRefused (fun _ => true) flow := by
    cases op <;> simp [HalfRefused]
  have ran := run_ok ok sized can whole
  rw [run_eq sized whole] at ran
  exact ran

/-- Posting messages adds them to those in flight. -/
theorem Carries.emit (carries : Carries sender receiver taken flying cells)
    {posted : List Post × Lane} {effects : List Effect} {asks acks : List Nat}
    {op : Op} {todo : List Section} {calls : List Call}
    (posting : Posted receiver.range receiver.ring.slots sender.lane posted
      effects op.sends asks acks)
    (sized : op.Sized sender.flow.max)
    (can : op.canPost sender.flow = true)
    (last : op = .fenceAck → ∃ post, (sender.log ++ posted.1).getLast? =
      some post ∧ post.ack?.isSome)
    (ready : Outstanding receiver.range sender.flow.max todo)
    (spec : (sender.log ++ posted.1).flatMap Post.effects ++
        todo.flatMap Section.effects =
      calls.flatMap (Call.effects sender.flow.max)) :
    Carries { sender.emit posted with todo := todo, calls := calls } receiver
      taken (flying ++ posted.1) cells := by
  obtain ⟨depth, slots⟩ := Flow.postAll_granted (fun _ => true) sender.flow
    (sendsOf posted.1)
  obtain ⟨ok, room⟩ := Op.emit_ok carries.flow sized can
  rw [← posting.sends] at ok room
  have most : (sender.flow.postAll (fun _ => true) (sendsOf posted.1)).1.max =
      sender.flow.max := by
    rw [Flow.max, depth, slots]
    rfl
  refine ⟨?_, carries.wide, ?_, carries.fits, ?_, ?_, ?_, ?_, carries.holds, ?_,
    carries.stands, carries.sane, carries.stores, ?_, ok, ?_⟩
  · exact depth.symm ▸ carries.deep
  · exact slots.trans carries.peer
  · change sender.log ++ posted.1 = taken ++ (flying ++ posted.1)
    rw [carries.log, List.append_assoc]
  · exact walk_append_of carries.sent posting.walks
  · intro post member
    rcases List.mem_append.mp member with earlier | mine
    · exact carries.plain post earlier
    · exact posting.plain post mine
  · exact most.symm ▸ ready
  · change cells ++ (sender.out ++ packetsOfAll posted.1) = _
    rw [← List.append_assoc, carries.flight, packetsOfAll_append]
  · exact spec.trans (by
      change _ = calls.flatMap (Call.effects
        (sender.flow.postAll (fun _ => true) (sendsOf posted.1)).1.max)
      rw [most])
  · by_cases answers : op = .fenceAck
    · exact Or.inr (last answers)
    · exact Or.inl (room answers)

/-- A completion keeps the room there was. -/
theorem Flow.hasRoom_complete {flow : Flow}
    (room : flow.hasRoom 1 1 true = true) :
    flow.complete.hasRoom 1 1 true = true := by
  simp only [hasRoom, complete, if_true, decide_eq_true_eq] at room ⊢
  omega

theorem Carries.reap (carries : Carries sender receiver taken flying cells)
    (some : sender.flow.txDone < sender.flow.txPosted) :
    Carries { sender with flow := sender.flow.complete } receiver taken flying
      cells := by
  refine ⟨carries.deep, carries.wide, carries.peer, carries.fits, carries.log,
    carries.sent, carries.plain, carries.ready, carries.holds, carries.flight,
    carries.stands, carries.sane, carries.stores, carries.effects,
    carries.flow.complete some, ?_⟩
  rcases carries.room with room | answered
  · exact Or.inl (Flow.hasRoom_complete room)
  · exact Or.inr answered

theorem packetsOf_shaped (content : List UInt8) :
    ∀ packet ∈ packetsOf content, packet.Shaped :=
  packetize_shaped (Nat.le_refl _)

/-- A packet of the sender lands in the receiver's ring. -/
theorem Carries.land {packet : Packet} {rest : List Packet}
    (carries : Carries sender receiver taken flying cells)
    (next : sender.out = packet :: rest)
    (room : receiver.ring.filled < receiver.ring.posted) :
    Carries { sender with out := rest }
      { receiver with ring := receiver.ring.land packet } taken flying
      (cells ++ [packet]) := by
  have flight := carries.flight
  rw [next] at flight
  have shaped : packet.Shaped := by
    have member : packet ∈ packetsOfAll flying := by
      rw [← flight]
      simp
    obtain ⟨post, -, mine⟩ := List.mem_flatMap.mp member
    exact packetsOf_shaped _ packet mine
  exact ⟨carries.deep, carries.wide, carries.peer, carries.fits, carries.log,
    carries.sent, carries.plain, carries.ready, carries.holds.land room shaped,
    by rw [← flight]; simp, carries.stands, carries.sane, carries.stores,
    carries.effects, carries.flow, carries.room⟩

theorem Carries.repost {n : Nat}
    (carries : Carries sender receiver taken flying cells)
    (free : n ≤ receiver.ring.used + receiver.ring.slots -
      receiver.ring.posted) :
    Carries sender { receiver with ring := receiver.ring.repost n } taken
      flying cells :=
  ⟨carries.deep, carries.wide, carries.peer, carries.fits, carries.log,
    carries.sent, carries.plain, carries.ready, carries.holds.repost free,
    carries.flight, carries.stands, carries.sane, carries.stores,
    carries.effects, carries.flow, carries.room⟩

/-- More packets behind do not change the first whole message. -/
theorem firstMessage_more {found : List Packet × List Packet}
    (first : firstMessage cells = some found) (more : List Packet) :
    firstMessage (cells ++ more) = some (found.1, found.2 ++ more) := by
  induction cells generalizing found with
  | nil => simp [firstMessage] at first
  | cons packet rest inductionHypothesis =>
      rw [List.cons_append, firstMessage]
      rw [firstMessage] at first
      split at first
      · next isLast =>
          have same := Option.some.inj first
          subst same
          rw [if_pos isLast]
      · next notLast =>
          obtain ⟨inner, same, pair⟩ := Option.map_eq_some_iff.mp first
          subst pair
          rw [if_neg notLast, inductionHypothesis same]
          rfl

/-- The whole message at the head of the ring is the oldest in flight. -/
theorem Carries.first (carries : Carries sender receiver taken flying cells)
    {message rest : List Packet}
    (first : firstMessage cells = some (message, rest)) :
    ∃ post others, flying = post :: others ∧ message = packetsOf post.wire ∧
      bytesOf message = post.wire ∧
      rest ++ sender.out = packetsOfAll others := by
  have whole := firstMessage_more first sender.out
  rw [carries.flight] at whole
  cases flying with
  | nil => simp [packetsOfAll, firstMessage] at whole
  | cons post others =>
      have mine : post ∈ sender.log := by
        rw [carries.log]
        simp
      have nonempty := (carries.plain post mine).2.2
      have split := firstMessage_packetize nonempty (Nat.le_refl _)
        (packetsOfAll others)
      have same := whole.symm.trans split.1
      simp only [Option.some.injEq, Prod.mk.injEq] at same
      exact ⟨post, others, rfl, same.1, by rw [same.1]; exact split.2, same.2⟩

/-- Where the receiver stands the oldest message in flight fits. -/
theorem Carries.fits_next {post : Post} {others : List Post}
    (carries : Carries sender receiver taken (post :: others) cells) :
    ∃ pos next, walk (Pos.ofLane {}) taken = some pos ∧
      At receiver.range receiver.recv.rx pos ∧ post.step pos = some next ∧
      walk (Pos.ofLane {}) (taken ++ [post]) = some next := by
  obtain ⟨pos, walked, stands⟩ := carries.stands
  have sent := carries.sent
  rw [carries.log, walk_append, walked, Option.bind_some, walk_cons] at sent
  obtain ⟨next, step, -⟩ := Option.bind_eq_some_iff.mp sent
  refine ⟨pos, next, walked, stands, step, ?_⟩
  rw [walk_append, walked, Option.bind_some, walk_cons, step]
  rfl

/-- The receiver takes the oldest message in flight. -/
theorem Carries.take {post : Post} {others : List Post}
    {rest : List Packet} {recv : Recv Unit} {next : Pos}
    (carries : Carries sender receiver taken (post :: others) cells)
    (first : firstMessage cells = some (packetsOf post.wire, rest))
    (behind : rest ++ sender.out = packetsOfAll others)
    (walked : walk (Pos.ofLane {}) (taken ++ [post]) = some next)
    (took : TookPlain receiver.range receiver.recv post next recv) :
    Carries sender
      { receiver with
        recv := recv
        ring := receiver.ring.consume (packetsOf post.wire).length }
      (taken ++ [post]) others rest := by
  refine ⟨carries.deep, carries.wide, carries.peer, carries.fits, ?_,
    carries.sent, carries.plain, carries.ready, carries.holds.consume first,
    behind, ⟨next, walked, took.stands⟩, took.why.trans carries.sane, ?_,
    carries.effects, carries.flow, carries.room⟩
  · rw [carries.log]
    simp
  · rw [took.stores, carries.stores, List.flatMap_append]
    simp

/-- The message at the head of a receiver's ring, with the packets behind
it. -/
structure Heads (sender receiver : End) (cells : List Packet)
    (found : Nat × Nat) (post : Post) (others : List Post)
    (rest : List Packet) : Prop where
  first : firstMessage cells = some (packetsOf post.wire, rest)
  behind : rest ++ sender.out = packetsOfAll others
  count : found.1 = (packetsOf post.wire).length
  reads : (receiver.ring.msg receiver.ring.used found.1 found.2).Reads post.wire
  plain : post.Plain receiver.range

/-- What `drain` finds is the oldest message in flight. -/
theorem Carries.head (carries : Carries sender receiver taken flying cells)
    {found : Nat × Nat} (next : receiver.ring.next? = some found) :
    ∃ post others rest, flying = post :: others ∧
      Heads sender receiver cells found post others rest := by
  cases first : firstMessage cells with
  | none =>
      rw [carries.holds.next?_none first] at next
      simp at next
  | some whole =>
      obtain ⟨message, rest⟩ := whole
      obtain ⟨post, others, rfl, rfl, bytes, behind⟩ := carries.first first
      rw [carries.holds.next?_some first] at next
      have same := Option.some.inj next
      subst same
      have reads := carries.holds.reads first
      rw [bytes] at reads
      refine ⟨post, others, rest, rfl, first, behind, rfl, ?_, ?_⟩
      · rw [bytes]
        exact reads
      · refine (carries.plain post ?_).1
        rw [carries.log]
        simp

/-- The head message is taken as its sender meant it, and answered if it is a
fence and there is room. -/
theorem Carries.takes {post : Post} {others : List Post} {rest : List Packet}
    {found : Nat × Nat} (now : Nat)
    (carries : Carries sender receiver taken (post :: others) cells)
    (head : Heads sender receiver cells found post others rest)
    (room : post.answer?.isSome → receiver.flow.hasRoom 1 1 true = true) :
    ∃ recv pos, walk (Pos.ofLane {}) (taken ++ [post]) = some pos ∧
      TookPlain receiver.range receiver.recv post pos recv ∧
      receiver.take now found = some (receiver.after post recv) := by
  obtain ⟨pos, next, -, stands, step, walked⟩ := carries.fits_next
  have sent : post.answer?.isSome → receiver.reply = .sent := by
    intro asks
    rw [End.reply, if_pos (room asks)]
  obtain ⟨recv, drained, took⟩ := drainOne_plain now carries.fits head.reads
    carries.sane stands step head.plain sent
  refine ⟨recv, next, walked, took, ?_⟩
  rw [End.take, drained]
  cases answer : post.answer? <;> simp [answer, End.after, head.count]

/-- A fence without room for its answer is not taken. -/
theorem Carries.take_waits {post : Post} {others : List Post}
    {rest : List Packet} {found : Nat × Nat} (now : Nat)
    (carries : Carries sender receiver taken (post :: others) cells)
    (head : Heads sender receiver cells found post others rest)
    (asks : post.answer?.isSome)
    (full : receiver.flow.hasRoom 1 1 true ≠ true) :
    receiver.take now found = none := by
  obtain ⟨pos, next, -, stands, step, -⟩ := carries.fits_next
  rw [End.take, End.reply, if_neg full, drainOne_plain_waits now head.reads
    carries.sane stands step head.plain asks]
  rfl

/-- A message that was taken was answered if it is a fence. -/
theorem Carries.took {post : Post} {others : List Post} {rest : List Packet}
    {now : Nat} {found : Nat × Nat} {one : End}
    (carries : Carries sender receiver taken (post :: others) cells)
    (head : Heads sender receiver cells found post others rest)
    (takes : receiver.take now found = some one) :
    (post.answer?.isSome → receiver.flow.hasRoom 1 1 true = true) ∧
      ∃ recv pos, walk (Pos.ofLane {}) (taken ++ [post]) = some pos ∧
        TookPlain receiver.range receiver.recv post pos recv ∧
        one = receiver.after post recv := by
  have room : post.answer?.isSome →
      receiver.flow.hasRoom 1 1 true = true := by
    intro asks
    by_contra full
    rw [carries.take_waits now head asks full] at takes
    simp at takes
  obtain ⟨recv, pos, walked, took, same⟩ := carries.takes now head room
  rw [takes] at same
  exact ⟨room, recv, pos, walked, took, Option.some.inj same⟩

end

/-! ## Fences -/

section

variable {asker answerer : End} {answered heard : List Post}

theorem Lane.fences_postPieces (src : Mem) (lane : Lane) (cuts : List Piece) :
    (postPieces (writePiece src) lane cuts).2.fences = lane.fences := by
  induction cuts generalizing lane with
  | nil => rfl
  | cons cut rest inductionHypothesis =>
      have one : (writePiece src lane cut).2.fences = lane.fences := by
        unfold writePiece
        split <;> rfl
      exact (inductionHypothesis _).trans one

/-- Only a fence moves the count of fences. -/
theorem Section.post_fences (lane : Lane) (part : Section) :
    (part.post lane).2.fences =
      if part.waits then (lane.fences + 1) % 2 ^ 32 else lane.fences := by
  cases part with
  | piece src cut =>
      simp only [Section.post, Section.waits, Bool.false_eq_true, if_false]
      unfold writePiece
      split <;> rfl
  | pieces src cuts => exact Lane.fences_postPieces src lane cuts
  | signal _ _ => rfl
  | fused _ _ _ _ _ _ => rfl
  | fence => rfl

theorem Section.effects_of_waits (part : Section) (waits : part.waits = true) :
    part.effects = [.fence] := by
  cases part <;> first | rfl | simp [Section.waits] at waits

/-- Fences depend on what an end asked, heard and waits for, and on the answers
the other end gave. -/
theorem Fences.of_same {asker' answerer' : End}
    (fences : Fences asker answerer answered heard)
    (log : asker'.log = asker.log)
    (counted : asker'.lane.fences = asker.lane.fences)
    (acked : asker'.recv.rx.fenceAcked = asker.recv.rx.fenceAcked)
    (waits : asker'.waits = asker.waits)
    (todo : asker.waits ≠ none → asker'.todo = asker.todo)
    (acks : answerer'.log.filterMap Post.ack? =
      answerer.log.filterMap Post.ack?) :
    Fences asker' answerer' answered heard := by
  have asked : asker'.asked = asker.asked := by
    rw [End.asked, log]
    rfl
  refine ⟨by rw [asked]; exact fences.numbered,
    by rw [counted, asked]; exact fences.counted, acks.trans fences.answers,
    acked.trans fences.acked, by rw [asked, waits]; exact fences.idle, ?_⟩
  intro mine same
  rw [waits] at same
  rw [asked, todo (by simp [same]), log]
  exact fences.waiting mine same

/-- An end posts a section of its call. -/
theorem Fences.ask (fences : Fences asker answerer answered heard)
    {posts : List Post} {part : Section} {rest : List Section} {asker' : End}
    (idle : asker.waits = none)
    (asks : posts.filterMap Post.answer? = part.asks asker.lane)
    (effects : posts.flatMap Post.effects = part.effects)
    (alone : part.waits = true → rest = [])
    (log : asker'.log = asker.log ++ posts)
    (lane : asker'.lane.fences = (part.post asker.lane).2.fences)
    (acked : asker'.recv.rx.fenceAcked = asker.recv.rx.fenceAcked)
    (todo : asker'.todo = rest)
    (waits : asker'.waits =
      if part.waits then some (part.post asker.lane).2.fences else none) :
    Fences asker' answerer answered heard := by
  have heardAll := fences.idle idle
  have number : (asker.lane.fences + 1) % 2 ^ 32 =
      (asker.asked.length + 1) % 2 ^ 32 := by
    rw [fences.counted]
    omega
  have asked : asker'.asked = asker.asked ++ part.asks asker.lane := by
    rw [End.asked, log, List.filterMap_append, asks]
    rfl
  rw [Section.post_fences] at lane waits
  by_cases fence : part.waits = true
  · rw [Section.asks, if_pos fence, number] at asked
    rw [if_pos fence, number] at lane waits
    have length : asker'.asked.length = asker.asked.length + 1 := by
      rw [asked, List.length_append, List.length_singleton]
    refine ⟨?_, ?_, fences.answers, acked.trans fences.acked, ?_, ?_⟩
    · rw [length, fenceNumbers_succ, ← fences.numbered, asked]
    · rw [lane, length]
    · intro none
      rw [waits] at none
      simp at none
    · intro mine same
      rw [waits, if_pos fence] at same
      rw [length, ← heardAll, ← Option.some.inj same, heardAll]
      refine ⟨rfl, by omega, todo.trans (alone fence), ?_⟩
      rw [log, List.flatMap_append, effects, part.effects_of_waits fence]
      exact List.getLast?_concat ..
  · rw [Section.asks, if_neg fence, List.append_nil] at asked
    rw [if_neg fence] at lane waits
    refine ⟨by rw [asked]; exact fences.numbered,
      by rw [lane, asked]; exact fences.counted, fences.answers,
      acked.trans fences.acked, ?_, ?_⟩
    · intro _
      rw [asked]
      exact heardAll
    · intro mine same
      rw [waits] at same
      simp at same

/-- The answers given are numbered as the fences they answer. -/
theorem Fences.ack_number (fences : Fences asker answerer answered heard)
    {flying others : List Post} {post : Post} {value : Nat}
    (log : asker.log = answered ++ flying)
    (came : answerer.log = heard ++ post :: others)
    (acks : post.ack? = some value) :
    value = ((heard.filterMap Post.ack?).length + 1) % 2 ^ 32 ∧
      (heard.filterMap Post.ack?).length < asker.asked.length := by
  have answers := fences.answers
  rw [came, List.filterMap_append, List.filterMap_cons, acks] at answers
  have asked : asker.asked = answered.filterMap Post.answer? ++
      flying.filterMap Post.answer? := by
    rw [End.asked, log, List.filterMap_append]
  rw [← answers, List.append_assoc] at asked
  have below : (heard.filterMap Post.ack?).length < asker.asked.length := by
    rw [asked]
    simp
  refine ⟨?_, below⟩
  have read : asker.asked[(heard.filterMap Post.ack?).length]? =
      some value := by
    rw [asked]
    simp
  rw [fences.numbered, fenceNumbers, List.getElem?_map,
    List.getElem?_range below] at read
  simpa using read.symm

/-- An end takes a message of the other end. -/
theorem Fences.hear (fences : Fences asker answerer answered heard)
    {flying others : List Post} {post : Post} {asker' : End}
    (log : asker.log = answered ++ flying)
    (came : answerer.log = heard ++ post :: others)
    (asked : asker'.asked = asker.asked)
    (effects : asker'.log.flatMap Post.effects =
      asker.log.flatMap Post.effects)
    (counted : asker'.lane.fences = asker.lane.fences)
    (acked : asker'.recv.rx.fenceAcked =
      post.ack?.getD asker.recv.rx.fenceAcked)
    (waits : asker'.waits = asker.waits) (todo : asker'.todo = asker.todo) :
    Fences asker' answerer answered (heard ++ [post]) := by
  have numbered : asker'.asked = fenceNumbers asker'.asked.length := by
    rw [asked]
    exact fences.numbered
  have counts : asker'.lane.fences = asker'.asked.length % 2 ^ 32 := by
    rw [counted, asked]
    exact fences.counted
  cases acks : post.ack? with
  | none =>
      have same : (heard ++ [post]).filterMap Post.ack? =
          heard.filterMap Post.ack? := by
        rw [List.filterMap_append, List.filterMap_cons, acks]
        simp
      rw [acks] at acked
      refine ⟨numbered, counts, fences.answers, ?_, ?_, ?_⟩
      · rw [same]
        exact acked.trans fences.acked
      · rw [same, waits, asked]
        exact fences.idle
      · rw [same, waits, asked, todo, effects]
        exact fences.waiting
  | some value =>
      obtain ⟨number, below⟩ := fences.ack_number log came acks
      have length : ((heard ++ [post]).filterMap Post.ack?).length =
          (heard.filterMap Post.ack?).length + 1 := by
        rw [List.filterMap_append, List.filterMap_cons, acks]
        simp
      refine ⟨numbered, counts, fences.answers, ?_, ?_, ?_⟩
      · rw [acked, acks, length]
        exact number
      · intro none
        rw [waits] at none
        have all := fences.idle none
        omega
      · intro mine same
        rw [waits] at same
        obtain ⟨number, behind, closing⟩ := fences.waiting mine same
        rw [asked, length, todo, effects]
        exact ⟨number, by omega, closing⟩

/-- The other end takes a message of this end and gives the answer it asks
for. -/
theorem Fences.answer (fences : Fences asker answerer answered heard)
    {post : Post} {answerer' : End}
    (acks : answerer'.log.filterMap Post.ack? =
      answerer.log.filterMap Post.ack? ++ post.answer?.toList) :
    Fences asker answerer' (answered ++ [post]) heard := by
  refine ⟨fences.numbered, fences.counted, ?_, fences.acked, fences.idle,
    fences.waiting⟩
  rw [acks, fences.answers, List.filterMap_append]
  cases same : post.answer? <;> simp [same]

/-- A number one behind the fence's does not end the wait. -/
theorem fenceDone_behind (count : Nat) :
    fenceDone (count % 2 ^ 32) ((count + 1) % 2 ^ 32) = false := by
  have behind : Int.bmod (((count % 2 ^ 32 : Nat) : Int) -
      ((count + 1) % 2 ^ 32 : Nat)) (2 ^ 32) = -1 := by
    have same : (((count % 2 ^ 32 : Nat) : Int) -
        ((count + 1) % 2 ^ 32 : Nat)) % (2 ^ 32 : Nat) =
        (-1 : Int) % (2 ^ 32 : Nat) := by
      omega
    rw [Int.bmod, same]
    decide
  rw [fenceDone, behind]
  decide

/-- The answers heard were given, and those given were asked for. -/
theorem Fences.heard_le (fences : Fences asker answerer answered heard)
    {flying coming : List Post} (log : asker.log = answered ++ flying)
    (came : answerer.log = heard ++ coming) :
    (heard.filterMap Post.ack?).length ≤
        (answered.filterMap Post.answer?).length ∧
      (answered.filterMap Post.answer?).length ≤ asker.asked.length := by
  have answers := congrArg List.length fences.answers
  rw [came, List.filterMap_append, List.length_append] at answers
  have asked : asker.asked.length = (answered.filterMap Post.answer?).length +
      (flying.filterMap Post.answer?).length := by
    rw [End.asked, log, List.filterMap_append, List.length_append]
  omega

/-- A fence that may return has heard its own answer. -/
theorem Fences.heard_all (fences : Fences asker answerer answered heard)
    {flying coming : List Post} {mine : Nat}
    (log : asker.log = answered ++ flying)
    (came : answerer.log = heard ++ coming)
    (waits : asker.waits = some mine)
    (done : fenceDone asker.recv.rx.fenceAcked mine = true) :
    (heard.filterMap Post.ack?).length = asker.asked.length := by
  obtain ⟨number, behind, -⟩ := fences.waiting mine waits
  have most := fences.heard_le log came
  by_contra short
  have one : asker.asked.length =
      (heard.filterMap Post.ack?).length + 1 := by omega
  rw [number, one, fences.acked, fenceDone_behind] at done
  simp at done

/-- A fence returns. -/
theorem Fences.finish (fences : Fences asker answerer answered heard)
    {flying coming : List Post} {mine : Nat}
    (log : asker.log = answered ++ flying)
    (came : answerer.log = heard ++ coming)
    (waits : asker.waits = some mine)
    (done : fenceDone asker.recv.rx.fenceAcked mine = true) :
    Fences { asker with waits := none } answerer answered heard :=
  ⟨fences.numbered, fences.counted, fences.answers, fences.acked,
    fun _ => fences.heard_all log came waits done, by simp⟩

end

/-! ## One step -/

theorem Section.op_ne_fenceAck (part : Section) : part.op ≠ .fenceAck := by
  cases part <;> simp [Section.op]

/-- The sections of a call that waits for room. -/
theorem Call.outstanding {range : Nat × Nat} {max : Nat} {call : Call}
    (pos : 0 < max) (checked : call.Checked) (inside : call.Inside range)
    (waits : call.tryPart max = none) :
    Outstanding range max (call.sections max) := by
  have pieces : ∀ (src : Mem) (cuts : List Piece),
      ∀ part ∈ cuts.map (Section.piece src), part.waits = false ∧
        ∀ other others, part ≠ .pieces other others := by
    intro src cuts part member
    obtain ⟨cut, -, rfl⟩ := List.mem_map.mp member
    simp [Section.waits]
  have all : (∀ part ∈ call.sections max, part.waits = false ∧
      ∀ src cuts, part ≠ .pieces src cuts) ∨
      call.sections max = [.fence] := by
    cases call with
    | write src off roff len => exact Or.inl (pieces _ _)
    | writeTry src off roff len => simp [tryPart] at waits
    | signal roff value =>
        refine Or.inl fun part member => ?_
        rw [List.mem_singleton.mp member]
        simp [Section.waits]
    | fence => exact Or.inr rfl
    | writeSignal src off roff len soff value =>
        refine Or.inl fun part member => ?_
        rw [sections] at member
        split at member
        · rcases List.mem_append.mp member with early | late
          · exact pieces _ _ part early
          · rw [List.mem_singleton.mp late]
            simp [Section.waits]
        · rw [List.mem_singleton.mp member]
          simp [Section.waits]
  refine ⟨sections_good pos checked inside, ?_, ?_⟩
  · intro part member fence
    rcases all with quiet | alone
    · rw [(quiet part member).1] at fence
      simp at fence
    · rw [alone] at member ⊢
      rw [List.mem_singleton.mp member]
  · intro part member
    rcases all with quiet | alone
    · exact (quiet part member).2
    · rw [alone] at member
      rw [List.mem_singleton.mp member]
      simp

theorem Call.tryPart_waits {max : Nat} {call : Call} {part : Section}
    (tries : call.tryPart max = some part) : part.waits = false := by
  cases call <;> simp only [tryPart, Option.some.injEq, reduceCtorEq] at tries
  rw [← tries]
  rfl

theorem Carries.max_pos {sender receiver : End} {taken flying : List Post}
    {cells : List Packet}
    (carries : Carries sender receiver taken flying cells) :
    0 < sender.flow.max := by
  have deep := carries.deep
  have wide := carries.wide
  rw [← carries.peer] at wide
  simp only [Flow.max, msgMax, tbMsg, tbPacket]
  omega

namespace Pair

variable {pair next : Pair}

/-- The end at hand posts a section and has `rest` left. -/
theorem Inv.posted (inv : pair.Inv) {part : Section} {rest : List Section}
    {calls : List Call} (idle : pair.here.waits = none)
    (good : part.Good pair.there.range pair.here.flow.max)
    (ready : Outstanding pair.there.range pair.here.flow.max rest)
    (alone : part.waits = true → rest = [])
    (can : part.op.canPost pair.here.flow = true)
    (spec : pair.here.log.flatMap Post.effects ++
        (part.effects ++ rest.flatMap Section.effects) =
      calls.flatMap (Call.effects pair.here.flow.max)) :
    Inv { pair with
      here := { pair.here.emit (part.post pair.here.lane) with
        todo := rest
        calls := calls
        waits := if part.waits then
          some (part.post pair.here.lane).2.fences else none } } := by
  obtain ⟨sent, flying, cells, came, coming, others, out, back, asks, asked⟩ :=
    inv.holds
  have sized := good.sized
  rw [Flow.max, out.peer] at good
  have posting : Posted pair.there.range pair.there.ring.slots pair.here.lane
      (part.post pair.here.lane) part.effects part.op.sends
      (part.asks pair.here.lane) [] :=
    Section.posted out.wide good
  refine ⟨sent, flying ++ (part.post pair.here.lane).1, cells, came, coming,
    others, ?_, back.atReceiver rfl rfl rfl,
    asks.ask idle posting.asks posting.effects alone rfl rfl rfl rfl rfl,
    asked.of_same rfl rfl rfl rfl (fun _ => rfl) ?_⟩
  · refine Carries.atSender (out.emit posting sized can ?_ ready ?_) _ _ _
    · exact fun answers => absurd answers part.op_ne_fenceAck
    · rw [List.flatMap_append, posting.effects, List.append_assoc]
      exact spec
  · change (pair.here.log ++ _).filterMap Post.ack? = _
    rw [List.filterMap_append, posting.acks, List.append_nil]

/-- A call begins. -/
theorem Inv.begin (inv : pair.Inv) {call : Call}
    (empty : pair.here.todo = []) (idle : pair.here.waits = none)
    (checked : call.Checked) (inside : call.Inside pair.there.range)
    (tries : call.Tries pair.here.flow) :
    Inv { pair with here := Pair.begin pair.here call } := by
  obtain ⟨sent, flying, cells, came, coming, others, out, back, asks, asked⟩ :=
    inv.holds
  have good := Call.sections_good out.max_pos checked inside
  have before := out.effects
  rw [empty, List.flatMap_nil, List.append_nil] at before
  have spec : pair.here.log.flatMap Post.effects ++
      call.effects pair.here.flow.max =
      (pair.here.calls ++ [call]).flatMap
        (Call.effects pair.here.flow.max) := by
    rw [before, List.flatMap_append, List.flatMap_singleton]
  unfold Pair.begin
  cases whole : call.tryPart pair.here.flow.max with
  | none =>
      exact ⟨sent, flying, cells, came, coming, others,
        ⟨out.deep, out.wide, out.peer, out.fits, out.log, out.sent, out.plain,
          Call.outstanding out.max_pos checked inside whole, out.holds, out.flight, out.stands, out.sane, out.stores, spec,
          out.flow, out.room⟩,
        back.atReceiver rfl rfl rfl,
        asks.of_same rfl rfl rfl rfl (fun waits => absurd idle waits) rfl,
        asked.of_same rfl rfl rfl rfl (fun _ => rfl) rfl⟩
  | some part =>
      have only := Call.tryPart_eq whole
      have posted : Inv _ := inv.posted idle (good part (by simp [only]))
        ⟨by simp, by simp, by simp⟩ (fun _ => rfl) (tries part whole)
        (show _ ++ (part.effects ++ [].flatMap Section.effects) = _ by
          rw [← spec, Call.effects, only]
          simp)
      rw [Call.tryPart_waits whole] at posted
      simpa [End.emit, empty, idle] using posted

/-- The end at hand posts the next section of its call. -/
theorem Inv.postSection (inv : pair.Inv) {part : Section}
    {rest : List Section} (todo : pair.here.todo = part :: rest)
    (can : part.op.canPost pair.here.flow = true) :
    Inv { pair with here := pair.here.postSection part rest } := by
  obtain ⟨sent, flying, cells, came, coming, others, out, back, asks, asked⟩ :=
    inv.holds
  have idle : pair.here.waits = none := by
    cases waits : pair.here.waits with
    | none => rfl
    | some mine =>
        have empty := (asks.waiting mine waits).2.2.1
        rw [todo] at empty
        simp at empty
  have ready := out.ready
  have spec := out.effects
  rw [todo] at ready spec
  rw [List.flatMap_cons] at spec
  have posted := inv.posted idle (ready.good part (List.mem_cons_self ..))
    ready.rest (fun waits => by
      simpa using ready.alone part (List.mem_cons_self ..) waits) can spec
  unfold End.postSection
  rw [idle]
  exact posted

/-- A packet of the other end lands here. -/
theorem Inv.land (inv : pair.Inv) {packet : Packet} {rest : List Packet}
    (next : pair.there.out = packet :: rest)
    (room : pair.here.ring.filled < pair.here.ring.posted) :
    Inv
      { here := { pair.here with ring := pair.here.ring.land packet }
        there := { pair.there with out := rest } } := by
  obtain ⟨sent, flying, cells, came, coming, others, out, back, asks, asked⟩ :=
    inv.holds
  exact ⟨sent, flying, cells, came, coming, others ++ [packet],
    (out.atSender _ _ _).atReceiver rfl rfl rfl, back.land next room,
    asks.of_same rfl rfl rfl rfl (fun _ => rfl) rfl,
    asked.of_same rfl rfl rfl rfl (fun _ => rfl) rfl⟩

/-- A send completion is reaped. -/
theorem Inv.reap (inv : pair.Inv)
    (some : pair.here.flow.txDone < pair.here.flow.txPosted) :
    Inv { pair with
      here := { pair.here with flow := pair.here.flow.complete } } := by
  obtain ⟨sent, flying, cells, came, coming, others, out, back, asks, asked⟩ :=
    inv.holds
  exact ⟨sent, flying, cells, came, coming, others, out.reap some,
    back.atReceiver rfl rfl rfl,
    asks.of_same rfl rfl rfl rfl (fun _ => rfl) rfl,
    asked.of_same rfl rfl rfl rfl (fun _ => rfl) rfl⟩

/-- Slots are posted again. -/
theorem Inv.repost (inv : pair.Inv) {n : Nat}
    (free : n ≤ pair.here.ring.used + pair.here.ring.slots -
      pair.here.ring.posted) :
    Inv { pair with
      here := { pair.here with ring := pair.here.ring.repost n } } := by
  obtain ⟨sent, flying, cells, came, coming, others, out, back, asks, asked⟩ :=
    inv.holds
  exact ⟨sent, flying, cells, came, coming, others, out.atSender _ _ _,
    back.repost free, asks.of_same rfl rfl rfl rfl (fun _ => rfl) rfl,
    asked.of_same rfl rfl rfl rfl (fun _ => rfl) rfl⟩

/-- A fence returns. -/
theorem Inv.finish (inv : pair.Inv) {mine : Nat}
    (waits : pair.here.waits = some mine)
    (done : fenceDone pair.here.recv.rx.fenceAcked mine = true) :
    Inv { pair with here := { pair.here with waits := none } } := by
  obtain ⟨sent, flying, cells, came, coming, others, out, back, asks, asked⟩ :=
    inv.holds
  exact ⟨sent, flying, cells, came, coming, others, out.atSender _ _ _,
    back.atReceiver rfl rfl rfl, asks.finish out.log back.log waits done,
    asked.of_same rfl rfl rfl rfl (fun _ => rfl) rfl⟩

/-- The end at hand takes the head message, answering it if it is a fence. -/
theorem Inv.take (inv : pair.Inv) {now : Nat} {found : Nat × Nat} {one : End}
    (next : pair.here.ring.next? = some found)
    (taken : pair.here.take now found = some one) :
    Inv { pair with here := one } := by
  obtain ⟨sent, flying, cells, came, coming, others, out, back, asks, asked⟩ :=
    inv.holds
  obtain ⟨post, later, rest, rfl, head⟩ := back.head next
  obtain ⟨room, recv, pos, walked, took, same⟩ := back.took head taken
  have moved := back.take head.first head.behind walked took
  cases answer : post.answer? with
  | none =>
      rw [End.after, answer] at same
      subst same
      exact ⟨sent, flying, cells, came ++ [post], later, rest,
        out.atSender _ _ _, moved,
        asks.hear out.log back.log rfl rfl rfl took.acked rfl rfl,
        asked.answer (by rw [answer]; exact (List.append_nil _).symm)⟩
  | some value =>
      rw [End.after, answer] at same
      subst same
      have small := Post.Plain.answer_lt head.plain answer
      have posting : Posted pair.there.range pair.there.ring.slots
          pair.here.lane ([.fenceAck pair.here.lane.txSeq value],
            pair.here.lane.sent 0) [] Op.fenceAck.sends [] [value] :=
        posted_answer out.wide small
      have emitted := out.emit posting trivial (room (by simp [answer]))
        (fun _ => ⟨_, List.getLast?_concat .., rfl⟩) out.ready (by
          rw [List.flatMap_append, posting.effects, List.append_nil]
          exact out.effects)
      refine ⟨sent, flying ++ _, cells, came ++ [post], later, rest,
        emitted.atSender _ _ _, moved.atReceiver rfl rfl rfl,
        asks.hear out.log back.log ?_ ?_ rfl took.acked rfl rfl,
        asked.answer ?_⟩
      · change (pair.here.log ++ _).filterMap Post.answer? = _
        rw [List.filterMap_append, posting.asks, List.append_nil]
        rfl
      · change (pair.here.log ++ _).flatMap Post.effects = _
        rw [List.flatMap_append, posting.effects, List.append_nil]
      · change (pair.here.log ++ _).filterMap Post.ack? = _
        rw [List.filterMap_append, posting.acks, answer]
        rfl

/-- A step of the end at hand keeps the invariant. -/
theorem Inv.stepHere (inv : pair.Inv) {act : Act}
    (step : pair.stepHere act = some next) : next.Inv := by
  cases act with
  | call call =>
      rw [Pair.stepHere] at step
      split at step
      · next guard =>
          obtain ⟨empty, idle, checked, inside, tries⟩ := guard
          have same := Option.some.inj step
          exact same ▸ inv.begin (List.isEmpty_iff.mp empty) idle checked
            inside tries
      · simp at step
  | post =>
      rw [Pair.stepHere] at step
      split at step
      · simp at step
      · next part rest todo =>
          split at step
          · next can =>
              have same := Option.some.inj step
              exact same ▸ inv.postSection todo can
          · simp at step
  | land =>
      rw [Pair.stepHere] at step
      split at step
      · simp at step
      · next packet rest out =>
          split at step
          · next room =>
              have same := Option.some.inj step
              exact same ▸ inv.land out room
          · simp at step
  | reap =>
      rw [Pair.stepHere] at step
      split at step
      · next landed =>
          have same := Option.some.inj step
          exact same ▸ inv.reap landed.1
      · simp at step
  | take now =>
      obtain ⟨found, head, taken⟩ := Option.bind_eq_some_iff.mp step
      obtain ⟨one, took, same⟩ := Option.map_eq_some_iff.mp taken
      exact same ▸ inv.take head took
  | repost n =>
      rw [Pair.stepHere] at step
      split at step
      · next free =>
          have same := Option.some.inj step
          exact same ▸ inv.repost free.2
      · simp at step
  | finish =>
      rw [Pair.stepHere] at step
      split at step
      · simp at step
      · next mine waits =>
          split at step
          · next done =>
              have same := Option.some.inj step
              exact same ▸ inv.finish waits done
          · simp at step

/-- A step of either end keeps the invariant. -/
theorem Inv.step (inv : pair.Inv) {act : Bool × Act}
    (step : pair.step act = some next) : next.Inv := by
  unfold Pair.step at step
  split at step
  · obtain ⟨other, took, same⟩ := Option.map_eq_some_iff.mp step
    exact same ▸ (inv.swap.stepHere took).swap
  · exact inv.stepHere step

theorem carries_start {depth slots peerSlots otherDepth : Nat}
    {range otherRange : Nat × Nat} (deep : 4 ≤ depth) (wide : 4 ≤ peerSlots)
    (fits : otherRange.2 < 2 ^ 64) :
    Carries (End.init depth slots peerSlots range)
      (End.init otherDepth peerSlots slots otherRange) [] [] [] where
  deep := deep
  wide := wide
  peer := rfl
  fits := fits
  log := rfl
  sent := rfl
  plain := by simp [End.init]
  ready := ⟨by simp [End.init], by simp [End.init], by simp [End.init]⟩
  holds := ⟨by change 0 < peerSlots; omega, rfl, Nat.zero_le _,
    by simp [End.init], by simp, trivial⟩
  flight := rfl
  stands := ⟨_, rfl, rfl, rfl, by decide, rfl, fun _ => rfl,
    by simp [Pos.ofLane]⟩
  sane := rfl
  stores := rfl
  effects := rfl
  flow := (Port.ok_start (fun _ => true) depth peerSlots Nat.one_pos).flow
  room := Or.inl (by
    simp [Flow.hasRoom, End.init, tbSendWr, tbStage]
    omega)

theorem fences_start {depth slots peerSlots otherDepth : Nat}
    {range otherRange : Nat × Nat} :
    Fences (End.init depth slots peerSlots range)
      (End.init otherDepth peerSlots slots otherRange) [] [] :=
  ⟨rfl, rfl, rfl, rfl, fun _ => rfl, by simp [End.init]⟩

/-- Every reachable pair keeps the invariant. -/
theorem Inv.ofReach {cfg : PairCfg} (reach : (machine cfg).Reach pair) :
    pair.Inv :=
  reach.invariant Inv
    ⟨[], [], [], [], [], [], carries_start (cfg.deep _) (cfg.wide _)
      (cfg.fits _), carries_start (cfg.deep _) (cfg.wide _) (cfg.fits _),
      fences_start, fences_start⟩
    fun _ _ _ inv step => inv.step step

end Pair

end Link
end Mcdma
