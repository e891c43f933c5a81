import Mcdma.Link.Refines

/-!
# Two ends never wait for each other

An end that cannot answer the fence at the head of its ring has answered every
fence before, and its own messages have all been taken, so a send completion
frees the room it needs.  Everywhere else a packet in flight can land, a used
slot can go back or the head message can be taken; with nothing of the kind left
no call waits.
-/

namespace Mcdma
namespace Link

/-- The steps that need no caller. -/
def Pair.Act.Moves : Pair.Act → Prop
  | .land => True
  | .reap => True
  | .take _ => True
  | .repost _ => True
  | _ => False

/-- A call of this end waits for room or for a fence's answer. -/
def End.Waits (one : End) : Prop :=
  (∃ part rest, one.todo = part :: rest ∧ part.op.canPost one.flow = false) ∨
    ∃ mine, one.waits = some mine ∧
      fenceDone one.recv.rx.fenceAcked mine = false

/-- A packet has not landed, a whole message has not been taken, or the sender
waits. -/
def Busy (sender receiver : End) : Prop :=
  sender.out ≠ [] ∨ receiver.ring.next? ≠ none ∨ sender.Waits

namespace Flow

/-- A flow with nothing in flight. -/
structure Empty (flow : Flow) : Prop where
  packets : flow.packets = 0
  sends : flow.txPosted - flow.txDone = 0
  staged : flow.staged - flow.unstaged = 0

/-- With no send in flight nothing is. -/
theorem Ok.empty {flow : Flow} (ok : flow.Ok)
    (none : flow.txPosted ≤ flow.txDone) : flow.Empty := by
  have same : flow.txDone = flow.txPosted := le_antisymm ok.done none
  have packets := ok.packets
  have staged := ok.staged
  rw [same, Finset.Ico_self, Finset.sum_empty] at packets staged
  exact ⟨packets, by omega, by omega⟩

/-- The oldest send is counted among the packets in flight. -/
theorem Ok.oldest {flow : Flow} (ok : flow.Ok)
    (some : flow.txDone < flow.txPosted) :
    flow.txPackets (flow.txDone % tbSendWr) ≤ flow.packets := by
  rw [ok.packets, Finset.sum_eq_sum_Ico_succ_bot some]
  exact Nat.le_add_right _ _

/-- An empty flow has room for every message it may send. -/
theorem Empty.hasRoom {flow : Flow} (empty : flow.Empty)
    {n sends : Nat} {reply : Bool} (few : n + 1 ≤ flow.depth)
    (short : sends ≤ 2) : flow.hasRoom n sends reply = true := by
  have packets := empty.packets
  have sent := empty.sends
  have staged := empty.staged
  have spare : (if reply = true then 0 else 1) ≤ 1 := by split <;> omega
  have fits : flow.packets + n + (if reply = true then 0 else 1) ≤
        flow.depth ∧
      flow.txPosted - flow.txDone + sends + (if reply = true then 0 else 1) ≤
        tbSendWr ∧
      flow.staged - flow.unstaged + (if reply = true then 0 else 1) <
        tbStage := by
    simp only [tbSendWr, tbStage]
    omega
  exact decide_eq_true fits

end Flow

/-- Packets of a message of at most half the send depth. -/
theorem packets_le_half_depth {depth slots len : Nat}
    (short : len ≤ msgMax depth slots) : packets len ≤ depth / 2 := by
  have half : len ≤ depth / 2 * tbPacket :=
    short.trans ((Nat.min_le_left _ _).trans (Nat.min_le_right _ _))
  simp only [packets, tbPacket] at *
  omega

/-- A section that waits for room has it in an empty flow. -/
theorem Section.canPost_empty {range : Nat × Nat} {flow : Flow}
    {part : Section} (empty : flow.Empty) (deep : 4 ≤ flow.depth)
    (good : part.Good range flow.max)
    (patient : ∀ src cuts, part ≠ .pieces src cuts) :
    part.op.canPost flow = true := by
  cases part with
  | piece src cut =>
      have half := packets_le_half_depth good.2.1
      simp only [Section.op, Op.canPost]
      split
      · exact empty.hasRoom (by omega) (by omega)
      · exact empty.hasRoom (by omega) (by omega)
  | pieces src cuts => exact absurd rfl (patient src cuts)
  | signal _ _ => exact empty.hasRoom (by omega) (by omega)
  | fused src off roff len soff value =>
      have half := packets_le_half_depth good.2.1
      exact empty.hasRoom (by omega) (by omega)
  | fence => exact empty.hasRoom (by omega) (by omega)

section

variable {sender receiver : End} {taken flying : List Post}
variable {cells : List Packet}

/-- The receiver's end of a direction can do nothing with what was sent. -/
structure Stuck (sender receiver : End) : Prop where
  land : sender.out ≠ [] → receiver.ring.posted ≤ receiver.ring.filled
  repost : receiver.ring.used + receiver.ring.slots ≤ receiver.ring.posted

/-- Where nothing lands or goes back and no whole message waits, everything was
taken. -/
theorem Carries.drained (carries : Carries sender receiver taken flying cells)
    (stuck : Stuck sender receiver) (none : receiver.ring.next? = none) :
    flying = [] ∧ sender.out = [] := by
  have first : firstMessage cells = Option.none := by
    by_contra found
    obtain ⟨⟨message, rest⟩, found⟩ := Option.ne_none_iff_exists'.mp found
    rw [carries.holds.next?_some found] at none
    simp at none
  have short : cells.length < receiver.ring.slots := by
    by_contra full
    exact carries.first_of_full (by omega) first
  have out : sender.out = [] := by
    by_contra more
    have full := stuck.land more
    have free := stuck.repost
    have filled := carries.holds.filled
    omega
  refine ⟨?_, out⟩
  have flight := carries.flight
  rw [out, List.append_nil] at flight
  cases flying with
  | nil => rfl
  | cons post others =>
      refine absurd first (carries.first_of_length ?_)
      rw [flight]
      simp [packetsOfAll]

/-- With all its packets landed an end can reap until nothing is in flight. -/
theorem Carries.reaps (carries : Carries sender receiver taken flying cells)
    (out : sender.out = []) (idle : ¬Pair.Landed sender) :
    sender.flow.Empty := by
  refine carries.flow.empty ?_
  by_contra some
  have oldest := carries.flow.oldest (by omega)
  exact idle ⟨by omega, by rw [out]; simpa using oldest⟩

/-- An end that cannot answer the fence at the head of its ring has had all of
its own messages taken. -/
theorem Carries.blocked {sent others came coming : List Post} {post : Post}
    {cells cells' : List Packet}
    (out : Carries sender receiver sent (post :: others) cells)
    (back : Carries receiver sender came coming cells')
    (asks : Fences sender receiver sent came) (fence : post.answer?.isSome)
    (full : receiver.flow.hasRoom 1 1 true ≠ true) : coming = [] := by
  have most := asks.heard_le out.log back.log
  have asked : (sent.filterMap Post.answer?).length + 1 ≤
      sender.asked.length := by
    obtain ⟨value, same⟩ := Option.isSome_iff_exists.mp fence
    rw [End.asked, out.log, List.filterMap_append, List.filterMap_cons, same,
      List.length_append, List.length_cons]
    omega
  have heard : sender.asked.length ≤
      (came.filterMap Post.ack?).length + 1 := by
    cases waits : sender.waits with
    | none =>
        have all := asks.idle waits
        omega
    | some mine => exact (asks.waiting mine waits).2.1
  have given := congrArg List.length asks.answers
  rw [back.log, List.filterMap_append, List.length_append] at given
  have none : coming.filterMap Post.ack? = [] :=
    List.length_eq_zero_iff.mp (by omega)
  obtain ⟨last, isLast, acks⟩ := back.room.resolve_left full
  by_contra some
  rw [back.log, List.getLast?_append_of_ne_nil _ some] at isLast
  have silent := List.filterMap_eq_nil_iff.mp none last
    (List.mem_of_getLast? isLast)
  rw [silent] at acks
  simp at acks

/-- A receiver that can neither take nor reap has no whole message. -/
theorem Carries.no_head {sent came coming : List Post}
    {cells cells' : List Packet}
    (out : Carries sender receiver sent flying cells)
    (back : Carries receiver sender came coming cells')
    (asks : Fences sender receiver sent came)
    (reap : ¬Pair.Landed receiver)
    (take : ∀ found, receiver.ring.next? = some found →
      receiver.take 0 found = none) : receiver.ring.next? = none := by
  by_contra some
  obtain ⟨found, next⟩ := Option.ne_none_iff_exists'.mp some
  obtain ⟨post, others, rest, rfl, head⟩ := out.head next
  by_cases room : post.answer?.isSome → receiver.flow.hasRoom 1 1 true = true
  · obtain ⟨recv, pos, -, -, took⟩ := out.takes 0 head room
    rw [take found next] at took
    simp at took
  · push Not at room
    have taken := out.blocked back asks room.1 room.2
    subst taken
    have landed : receiver.out = [] :=
      (List.append_eq_nil_iff.mp back.flight).2
    have deep := back.deep
    exact room.2 ((back.reaps landed reap).hasRoom (by omega) (by omega))

/-- With everything landed and answered a fence may return. -/
theorem Fences.may_return {sent came : List Post} {mine : Nat}
    (asks : Fences sender receiver sent came) (out : sender.log = sent)
    (back : receiver.log = came) (waits : sender.waits = some mine) :
    fenceDone sender.recv.rx.fenceAcked mine = true := by
  have given := asks.answers
  rw [back, ← out] at given
  rw [(asks.waiting mine waits).1, asks.acked, given, fenceDone]
  simp [End.asked]

end

namespace Pair

variable {pair : Pair}

/-- No step that needs no caller is possible at the end at hand. -/
structure Still (pair : Pair) : Prop where
  stuck : Stuck pair.there pair.here
  reap : ¬Landed pair.here
  take : ∀ found, pair.here.ring.next? = some found →
    pair.here.take 0 found = none

theorem Still.of_none
    (none : ∀ act : Act, act.Moves → pair.stepHere act = none) :
    pair.Still := by
  refine ⟨⟨?_, ?_⟩, ?_, ?_⟩
  · intro some
    obtain ⟨packet, rest, out⟩ := List.exists_cons_of_ne_nil some
    have land := none .land trivial
    rw [stepHere, out] at land
    simpa using land
  · have repost := none (.repost 1) trivial
    rw [stepHere] at repost
    simp only [Nat.one_pos, true_and, ite_eq_right_iff, reduceCtorEq,
      imp_false] at repost
    omega
  · have reap := none .reap trivial
    rw [stepHere] at reap
    simpa using reap
  · intro found next
    have take := none (.take 0) trivial
    rw [stepHere, next, Option.bind_some] at take
    simpa using take

/-- Where neither end can move nothing of the end at hand is on its way and none
of its calls waits. -/
theorem Inv.settled (inv : pair.Inv) (here : pair.Still)
    (there : pair.swap.Still) : ¬Busy pair.here pair.there := by
  obtain ⟨sent, flying, cells, came, coming, others, out, back, asks, asked⟩ :=
    inv.holds
  have noneThere := out.no_head back asks there.reap there.take
  have noneHere := back.no_head out asked here.reap here.take
  obtain ⟨rfl, landed⟩ := out.drained there.stuck noneThere
  obtain ⟨rfl, -⟩ := back.drained here.stuck noneHere
  have empty := out.reaps landed here.reap
  rintro (unlanded | untaken | waits)
  · exact unlanded landed
  · exact untaken noneThere
  · rcases waits with ⟨part, rest, todo, full⟩ | ⟨mine, waits, pending⟩
    · have mine : part ∈ pair.here.todo := by
        rw [todo]
        exact List.mem_cons_self ..
      rw [Section.canPost_empty empty out.deep (out.ready.good part mine)
        (out.ready.patient part mine)] at full
      simp at full
    · rw [asks.may_return (by rw [out.log, List.append_nil])
        (by rw [back.log, List.append_nil]) waits] at pending
      simp at pending

end Pair

/-- Two ends of one link never wait for each other: while a packet has not
landed, a whole message has not been taken or a call waits, one of the ends can
move. -/
theorem two_ends_never_deadlock (cfg : PairCfg) {pair : Pair}
    (reach : (Pair.machine cfg).Reach pair)
    (busy : Busy pair.here pair.there ∨ Busy pair.there pair.here) :
    ∃ side act, act.Moves ∧ (pair.step (side, act)).isSome = true := by
  have inv := Pair.Inv.ofReach reach
  by_contra none
  push Not at none
  have here : pair.Still := Pair.Still.of_none fun act moves => by
    simpa [Pair.step] using none false act moves
  have there : pair.swap.Still := Pair.Still.of_none fun act moves => by
    simpa [Pair.step] using none true act moves
  rcases busy with busy | busy
  · exact inv.settled here there busy
  · exact inv.swap.settled there here busy

/-- A fence in flight lands. -/
theorem two_ends_never_deadlock_fence : ∃ pair,
    (Pair.machine smallPair).Reach pair ∧ pair.here.waits = some 1 ∧
      ∃ side act, act.Moves ∧ (pair.step (side, act)).isSome = true := by
  have reach : (Pair.machine smallPair).Reach _ :=
    Machine.Reach.next (Machine.Reach.next Machine.Reaches.start
      (false, .call .fence) rfl) (false, .post) rfl
  exact ⟨_, reach, rfl, two_ends_never_deadlock smallPair reach
    (Or.inl (Or.inl (by decide +kernel)))⟩

end Link
end Mcdma
