import Mcdma.Link.Format
import Mcdma.Link.PairSafety

/-!
# Lost and reordered messages

A sequence of messages of which some are lost and the rest arrive in another
order.  Up to the first message out of its place everything lands where its
sender meant it.  That message fails the link when it differs from the one due
in what the receiver looks at: the length alone for a write's bytes, the format
and the sequence number for a header.
-/

namespace Mcdma
namespace Link

open Bytes

/-- The receiving half of a link that accepts writes and has taken nothing. -/
def Recv.fresh (range : Nat × Nat) : Recv Unit :=
  ⟨{ accepted := some range }, (), []⟩

/-- Take whole messages one after another; every answer has room. -/
def arrive (recv : Recv Unit) (posts : List Post) : Option (Recv Unit) :=
  posts.foldlM
    (fun recv post => (drainOne none 0 .sent recv post.msg).map Prod.fst) recv

/-- The messages of a log in the order in which their indices arrive. -/
def delivered (log : List Post) (order : List Nat) : List Post :=
  order.filterMap fun index => log[index]?

/-- Each message arrives at most once. -/
structure Delivery (log : List Post) (order : List Nat) : Prop where
  once : order.Nodup
  known : ∀ index ∈ order, index < log.length

/-- Message `index` arrives where message `place` was due, and it is the first
out of its place. -/
structure FirstOut (order : List Nat) (place index : Nat) : Prop where
  before : ∀ earlier < place, order[earlier]? = some earlier
  here : order[place]? = some index
  other : index ≠ place

/-- Everything lands where its sender meant it, and the first message out of its
place fails the link. -/
structure Faithful (range : Nat × Nat) (log : List Post) (order : List Nat) :
    Prop where
  placed : ∃ recv, arrive (.fresh range) (delivered log order) = some recv ∧
    ∀ store ∈ recv.stores, ∃ post ∈ log, ∃ effect ∈ post.effects,
      effect.store? = some (store.tag.isWord, store.patch)
  poisoned : ∀ place index, FirstOut order place index →
    ∃ recv, arrive (.fresh range) (delivered log (order.take (place + 1))) =
      some recv ∧ recv.rx.why ≠ none

/-- What tells a message from the one due: another length where bytes are due,
and where a header is due anything but a message in the format of its kind with
the header's sequence number. -/
def Tells (range : Nat × Nat) (due came : Post) : Prop :=
  match due.head with
  | none => came.wire.length ≠ due.wire.length
  | some head => ¬Formed (none : Option (Hooks Unit))
      { accepted := some range, rxSeq := head.seq } came.wire

section

variable {recv : Recv Unit} {msg : Msg} {content : List UInt8}

/-- On a single link the format depends on what the receiver accepts and on the
next sequence number. -/
theorem Formed.congr {rx rx' : Rx} (accepted : rx.accepted = rx'.accepted)
    (next : rx.rxSeq = rx'.rxSeq)
    (formed : Formed (none : Option (Hooks Unit)) rx content) :
    Formed (none : Option (Hooks Unit)) rx' content := by
  obtain ⟨long, marked, seq, kind, code, opened, inner⟩ := formed
  have inside : ∀ off len, rx.inside off len = rx'.inside off len := by
    intro off len
    unfold Rx.inside
    rw [accepted]
  refine ⟨long, marked, seq.trans next, kind, code, accepted ▸ opened, ?_⟩
  cases kind <;> simp only [Kind.Formed] at inner ⊢
  case write => rwa [← inside]
  case inline => rwa [← inside]
  case signal => rwa [← inside]
  case fence => exact inner
  case fenceAck => exact inner
  case writeSignal =>
    exact ⟨inner.length, inner.nonempty, inside _ _ ▸ inner.inside,
      inner.aligned, inside _ _ ▸ inner.insideWord⟩
  case bondSignal => simpa using inner.bonded
  case bondSignalN => simpa using inner.bonded
  case bondWriteSignal => obtain ⟨-, -, -, -, own, ⟨⟩, -⟩ := inner
  case bondInlineN => obtain ⟨own, ⟨⟩, -⟩ := inner.1.agreed
  case bondWriteN => obtain ⟨own, ⟨⟩, -⟩ := inner.1.agreed

/-- The message is taken and the link does not fail. -/
def Accepted (recv : Recv Unit) (taken : Option (Recv Unit × Taken)) : Prop :=
  ∃ after answer, taken = some (after, .taken answer) ∧
    after.rx.why = recv.rx.why

theorem takePlain_accepts (reads : msg.Reads content) {head : Head}
    (long : headLen ≤ content.length) (short : content.length ≤ tbPacket)
    (sound : plainFault recv.rx msg head = none) :
    Accepted recv (takePlain none .sent recv msg head) := by
  have one : msg.count = 1 := by
    rw [reads.count]
    refine packets_eq_one ?_ short
    simp only [headLen] at long
    omega
  unfold takePlain
  rw [if_neg (not_not.mpr one), sound]
  dsimp only
  split
  · exact ⟨_, _, rfl, rfl⟩
  · split
    · next isInline =>
        have length := (plainFault_eq_none.mp sound).2.2.2.1 isInline
        rw [reads.bytes] at length
        rw [reads.peek headLen head.len (by omega) (by omega)]
        exact ⟨_, _, rfl, rfl⟩
    · split
      · exact ⟨_, _, rfl, rfl⟩
      · split
        · exact ⟨_, _, rfl, rfl⟩
        · exact ⟨_, _, rfl, rfl⟩

theorem takeWriteSignal_accepts (reads : msg.Reads content)
    (formed : FusedFormed recv.rx content wsHead) :
    Accepted recv (takeWriteSignal none recv msg (headOf content)) := by
  have length := formed.length
  have long : wsHead ≤ msg.bytes := by
    rw [reads.bytes]
    omega
  unfold takeWriteSignal
  rw [if_pos long, reads.peek headLen 8
    (by simp only [headLen, wsHead] at *; omega) (by decide), Option.bind_some]
  dsimp only
  rw [field_slice _ _ _ _ _ (by decide), Nat.add_zero, reads.bytes, if_neg]
  · rw [reads.copySkip _ _ (by omega)]
    exact ⟨_, _, rfl, rfl⟩
  · simp only [formed.aligned, formed.inside, formed.insideWord,
      formed.nonempty, length, ne_eq, not_true, Bool.true_eq_false, or_false,
      not_false_iff]

/-- A message that violates nothing is taken. -/
theorem takeHead_accepts (reads : msg.Reads content)
    (accepts : recv.rx.accepted ≠ none)
    (formed : Formed (none : Option (Hooks Unit)) recv.rx content) :
    Accepted recv (takeHead none 0 .sent recv msg (headOf content)) := by
  obtain ⟨long, marked, next, kind, code, -, inner⟩ := formed
  have same : ∀ other : Kind, isNext recv.rx (headOf content) other ↔
      other = kind := by
    intro other
    constructor
    · intro ready
      exact Kind.code_injective (ready.2.1.symm.trans code)
    · rintro rfl
      exact ⟨marked, code, next, accepts⟩
  have plain : ∀ short : content.length ≤ tbPacket,
      (Kind.write.code ≤ kind.code ∧ kind.code ≤ Kind.fenceAck.code) →
      plainFault recv.rx msg (headOf content) = none →
      Accepted recv (takeHead none 0 .sent recv msg (headOf content)) := by
    intro short which sound
    have others : ∀ other : Kind, Kind.fenceAck.code < other.code →
        ¬isNext recv.rx (headOf content) other := by
      intro other above ready
      rw [(same other).mp ready] at above
      omega
    unfold takeHead
    rw [reads.bytes, if_neg (Nat.not_lt.mpr long), if_neg (by simp),
      if_neg (others .writeSignal (by decide)),
      if_neg (not_or.mpr ⟨others .bondSignal (by decide),
        others .bondSignalN (by decide)⟩),
      if_neg (others .bondInlineN (by decide)),
      if_neg (others .bondWriteN (by decide))]
    exact takePlain_accepts reads long short sound
  cases kind with
  | write =>
      obtain ⟨short, some, small, inside⟩ := inner
      refine plain short (by decide) (plainFault_eq_none.mpr ?_)
      simp [marked, next, code, accepts, Kind.code, some, small, inside]
  | inline =>
      obtain ⟨short, length, inside⟩ := inner
      refine plain short (by decide) (plainFault_eq_none.mpr ?_)
      simp [marked, next, code, accepts, Kind.code, inside, reads.bytes, length]
  | signal =>
      obtain ⟨short, aligned, inside⟩ := inner
      refine plain short (by decide) (plainFault_eq_none.mpr ?_)
      simp [marked, next, code, accepts, Kind.code, aligned, inside]
  | fence =>
      refine plain inner (by decide) (plainFault_eq_none.mpr ?_)
      simp [marked, next, code, accepts, Kind.code]
  | fenceAck =>
      refine plain inner (by decide) (plainFault_eq_none.mpr ?_)
      simp [marked, next, code, accepts, Kind.code]
  | writeSignal =>
      unfold takeHead
      rw [reads.bytes, if_neg (Nat.not_lt.mpr long), if_neg (by simp),
        if_pos ((same .writeSignal).mpr rfl)]
      exact takeWriteSignal_accepts reads inner
  | bondSignal => simpa using inner.bonded
  | bondSignalN => simpa using inner.bonded
  | bondWriteSignal => obtain ⟨-, -, -, -, own, ⟨⟩, -⟩ := inner
  | bondInlineN => obtain ⟨own, ⟨⟩, -⟩ := inner.1.agreed
  | bondWriteN => obtain ⟨own, ⟨⟩, -⟩ := inner.1.agreed

/-- On a single link a message that violates nothing is taken. -/
theorem drainOne_accepts (reads : msg.Reads content)
    (accepts : recv.rx.accepted ≠ none) (sane : recv.rx.why = none)
    (sound : ¬Violates none recv content) :
    ∃ after answer, drainOne none 0 .sent recv msg =
      some (after, .taken answer) ∧ after.rx.why = none := by
  have accepted : Accepted recv (take none 0 .sent recv msg) := by
    unfold take
    unfold Violates at sound
    split
    · next wanted =>
        rw [if_pos wanted, not_not] at sound
        unfold takePayload
        rw [reads.bytes, if_neg (not_not.mpr sound),
          reads.copySkip _ _ (by omega)]
        exact ⟨_, _, rfl, rfl⟩
    · next idle =>
        rw [if_neg idle, if_neg (by simp [TailShaped]), not_not] at sound
        rw [reads.bytes, reads.peek 0 (min content.length headLen) (by omega)
          (by simp only [headLen, tbPacket]; omega), Option.bind_some]
        exact takeHead_accepts reads accepts sound
  obtain ⟨after, answer, same, why⟩ := accepted
  unfold drainOne
  rw [if_neg (by simpa using sane), same]
  exact ⟨_, answer, rfl, why.trans sane⟩

end

/-- A sequence of messages a sender can post. -/
structure Sendable (range : Nat × Nat) (log : List Post) : Prop where
  fits : range.2 < 2 ^ 64
  walks : ∃ pos, walk (Pos.ofLane {}) log = some pos
  plain : ∀ post ∈ log, post.Plain range

section

variable {range : Nat × Nat} {recv : Recv Unit} {pos next : Pos}
variable {log : List Post} {order : List Nat}

/-- Where a message is due, another one violates what the receiver looks at
exactly when it can be told from it. -/
theorem violates_iff_tells {due : Post} (stands : At range recv.rx pos)
    (step : due.step pos = some next) (plain : due.Plain range) (came : Post) :
    Violates none recv came.wire ↔ Tells range due came := by
  have headed : ∀ head, due.head = some head → pos.want = none →
      head.seq = pos.seq →
      (Violates none recv came.wire ↔ Tells range due came) := by
    intro head has idle seq
    have number : recv.rx.rxSeq = head.seq := stands.seq.trans seq.symm
    unfold Violates Tells
    rw [if_neg (by simp [stands.idle idle]), if_neg (by simp [TailShaped]), has,
      not_iff_not]
    exact ⟨Formed.congr stands.accepted number,
      Formed.congr stands.accepted.symm number.symm⟩
  cases due with
  | inline seq ord roff bytes =>
      simp only [Post.step] at step
      split at step
      · obtain ⟨idle, same, -⟩ := Pos.past_eq step
        exact headed _ rfl idle same
      · simp at step
  | write seq ord roff bytes =>
      obtain ⟨idle, same, -, -⟩ := Pos.pastHeader_eq step
      exact headed _ rfl idle same
  | payload ord roff bytes =>
      simp only [Post.step] at step
      split at step
      · next fitting =>
          obtain ⟨nonempty, -, length⟩ := stands.wanted roff bytes fitting.1
          have due : (Post.payload ord roff bytes).wire.length =
              recv.rx.wantLen := length.symm
          unfold Violates Tells
          rw [if_pos (by rw [length]; simpa using nonempty)]
          simp only [Post.head, due]
      · simp at step
  | signal seq soff value =>
      obtain ⟨idle, same, -⟩ := Pos.past_eq step
      exact headed _ rfl idle same
  | fence seq value =>
      obtain ⟨idle, same, -⟩ := Pos.past_eq step
      exact headed _ rfl idle same
  | fenceAck seq value =>
      obtain ⟨idle, same, -⟩ := Pos.past_eq step
      exact headed _ rfl idle same
  | writeSignal seq ord roff bytes soff value =>
      simp only [Post.step] at step
      split at step
      · obtain ⟨idle, same, -⟩ := Pos.past_eq step
        exact headed _ rfl idle same
      · simp at step
  | _ => simp [Post.Plain] at plain

theorem arrive_append (recv : Recv Unit) (first second : List Post) :
    arrive recv (first ++ second) =
      (arrive recv first).bind fun middle => arrive middle second := by
  unfold arrive
  rw [List.foldlM_append]
  rfl

theorem arrive_cons (recv : Recv Unit) (post : Post) (rest : List Post) :
    arrive recv (post :: rest) = ((drainOne none 0 .sent recv post.msg).map
      Prod.fst).bind fun middle => arrive middle rest := rfl

/-- Messages in their order are taken as their sender meant them. -/
theorem arrive_in_order {posts : List Post} (fits : range.2 < 2 ^ 64)
    (stands : At range recv.rx pos) (sane : recv.rx.why = none)
    (walked : walk pos posts = some next)
    (plain : ∀ post ∈ posts, post.Plain range) :
    ∃ after, arrive recv posts = some after ∧ At range after.rx next ∧
      after.rx.why = none ∧
      after.stores = recv.stores ++ posts.flatMap (Post.stores 0) := by
  induction posts generalizing recv pos with
  | nil =>
      have same := Option.some.inj walked
      subst same
      exact ⟨recv, rfl, stands, sane, (List.append_nil _).symm⟩
  | cons post rest inductionHypothesis =>
      rw [walk_cons] at walked
      obtain ⟨middle, step, onward⟩ := Option.bind_eq_some_iff.mp walked
      have reads : post.msg.Reads post.wire := Msg.reads_ofBytes post.wire
      obtain ⟨taken, drained, took⟩ := drainOne_plain 0 fits reads sane stands
        step (plain post (List.mem_cons_self ..)) (fun _ => rfl)
      obtain ⟨after, ran, final, why, stores⟩ := inductionHypothesis
        took.stands (took.why.trans sane) onward fun other member =>
          plain other (List.mem_cons_of_mem _ member)
      refine ⟨after, ?_, final, why, ?_⟩
      · rw [arrive_cons, drained]
        exact ran
      · rw [stores, took.stores, List.append_assoc, List.flatMap_cons]

/-- A failed link takes nothing more. -/
theorem arrive_poisoned (failed : recv.rx.why ≠ none) (posts : List Post) :
    arrive recv posts = some recv := by
  induction posts with
  | nil => rfl
  | cons post rest inductionHypothesis =>
      rw [arrive_cons, drainOne_poisoned 0 .sent failed]
      exact inductionHypothesis

/-! ## Orders of arrival -/

/-- The messages up to the first out of its place are the log's first. -/
theorem FirstOut.take_eq {place index : Nat}
    (out : FirstOut order place index) : order.take place = List.range place := by
  have long : place < order.length :=
    (List.getElem?_eq_some_iff.mp out.here).1
  refine List.ext_getElem? fun entry => ?_
  rw [List.getElem?_take]
  split
  · next early => rw [out.before entry early, List.getElem?_range early]
  · next late =>
      symm
      rw [List.getElem?_eq_none_iff, List.length_range]
      omega

/-- Everything is in its place or there is a first message out of it. -/
theorem in_order_or_firstOut (order : List Nat) :
    order = List.range order.length ∨
      ∃ place index, FirstOut order place index := by
  by_cases some : ∃ place, place < order.length ∧ order[place]? ≠ some place
  · right
    obtain ⟨short, other⟩ := Nat.find_spec some
    refine ⟨Nat.find some, order[Nat.find some], ?_, ?_, ?_⟩
    · intro earlier early
      have fine := Nat.find_min some early
      push Not at fine
      exact fine (early.trans short)
    · exact List.getElem?_eq_getElem short
    · intro same
      exact other (by rw [List.getElem?_eq_getElem short, same])
  · left
    push Not at some
    refine List.ext_getElem? fun entry => ?_
    by_cases short : entry < order.length
    · rw [some entry short, List.getElem?_range short]
    · rw [List.getElem?_eq_none (by omega),
        List.getElem?_eq_none (by simpa using short)]

theorem delivered_range {place : Nat} (few : place ≤ log.length) :
    delivered log (List.range place) = log.take place := by
  induction place with
  | zero => rfl
  | succ place inductionHypothesis =>
      have short : place < log.length := few
      rw [List.range_succ, delivered, List.filterMap_append]
      change delivered log (List.range place) ++ _ = _
      rw [inductionHypothesis (by omega), List.take_add_one]
      simp [List.getElem?_eq_getElem short]

/-- A message out of its place comes instead of another. -/
theorem FirstOut.due {place index : Nat} (out : FirstOut order place index)
    (delivery : Delivery log order) :
    ∃ due came rest, log[place]? = some due ∧ log[index]? = some came ∧
      delivered log (order.take (place + 1)) = log.take place ++ [came] ∧
      delivered log order = log.take place ++ came :: rest := by
  have long := (List.getElem?_eq_some_iff.mp out.here).1
  have member : index ∈ order := List.mem_of_getElem? out.here
  have known := delivery.known index member
  have later : place < index := by
    by_contra early
    have less : index < place := lt_of_le_of_ne (by omega) out.other
    have twice := (List.getElem?_inj (less.trans long) delivery.once).mp
      ((out.before index less).trans out.here.symm)
    exact out.other twice
  have front : delivered log (order.take place) = log.take place := by
    rw [out.take_eq, delivered_range (by omega)]
  have came : log[index]? = some (log.get ⟨index, known⟩) :=
    List.getElem?_eq_getElem known
  have first : delivered log (order.take (place + 1)) =
      log.take place ++ [log.get ⟨index, known⟩] := by
    rw [List.take_add_one, out.here, delivered, List.filterMap_append]
    change delivered log (order.take place) ++ _ = _
    rw [front, Option.toList_some, List.filterMap_cons, came]
    rfl
  refine ⟨log.get ⟨place, later.trans known⟩, log.get ⟨index, known⟩,
    delivered log (order.drop (place + 1)),
    List.getElem?_eq_getElem (later.trans known), came, first, ?_⟩
  calc delivered log order
      = delivered log (order.take (place + 1)) ++
          delivered log (order.drop (place + 1)) := by
        rw [delivered, delivered, delivered, ← List.filterMap_append,
          List.take_append_drop]
    _ = _ := by
        rw [first, List.append_assoc]
        rfl

/-- The first messages of a log are taken as their sender meant them. -/
theorem Sendable.arrives (sendable : Sendable range log) (place : Nat) :
    ∃ recv pos, walk (Pos.ofLane {}) (log.take place) = some pos ∧
      arrive (.fresh range) (log.take place) = some recv ∧
      At range recv.rx pos ∧ recv.rx.why = none ∧
      recv.stores = (log.take place).flatMap (Post.stores 0) := by
  obtain ⟨final, walked⟩ := sendable.walks
  rw [← List.take_append_drop place log, walk_append] at walked
  obtain ⟨pos, front, -⟩ := Option.bind_eq_some_iff.mp walked
  have start : At range (Recv.fresh range).rx (Pos.ofLane {}) :=
    ⟨rfl, rfl, by decide, rfl, fun _ => rfl, by simp [Pos.ofLane]⟩
  obtain ⟨recv, ran, stands, sane, stores⟩ := arrive_in_order sendable.fits
    start rfl front fun post member =>
      sendable.plain post (List.mem_of_mem_take member)
  exact ⟨recv, pos, front, ran, stands, sane,
    stores.trans (List.nil_append _)⟩

/-- The message due fits behind those before it. -/
theorem Sendable.due_step (sendable : Sendable range log) {place : Nat}
    {due : Post} {pos : Pos} (here : log[place]? = some due)
    (front : walk (Pos.ofLane {}) (log.take place) = some pos) :
    ∃ next, due.step pos = some next := by
  obtain ⟨final, walked⟩ := sendable.walks
  obtain ⟨short, same⟩ := List.getElem?_eq_some_iff.mp here
  have split : log = log.take place ++ due :: log.drop (place + 1) := by
    rw [← same, ← List.drop_eq_getElem_cons short, List.take_append_drop]
  rw [split, walk_append, front, Option.bind_some, walk_cons] at walked
  obtain ⟨next, step, -⟩ := Option.bind_eq_some_iff.mp walked
  exact ⟨next, step⟩

/-- The stores of messages are their effects. -/
theorem Sendable.store_effect (sendable : Sendable range log)
    {posts : List Post} (among : ∀ post ∈ posts, post ∈ log) :
    ∀ store ∈ posts.flatMap (Post.stores 0), ∃ post ∈ log,
      ∃ effect ∈ post.effects,
        effect.store? = some (store.tag.isWord, store.patch) := by
  intro store member
  obtain ⟨post, mine, stored⟩ := List.mem_flatMap.mp member
  have all := Post.stores_effects (sendable.plain post (among post mine))
  have seen : (store.tag.isWord, store.patch) ∈
      post.effects.filterMap Effect.store? := by
    rw [← all]
    exact List.mem_map_of_mem stored
  obtain ⟨effect, has, same⟩ := List.mem_filterMap.mp seen
  exact ⟨post, among post mine, effect, has, same⟩

/-- A message out of its place either cannot be told from the one due, and then
is taken in its stead, or fails the link and stores nothing. -/
theorem Sendable.out_of_place (sendable : Sendable range log)
    {place : Nat} {due : Post} (here : log[place]? = some due) (came : Post) :
    ∃ recv, arrive (.fresh range) (log.take place ++ [came]) = some recv ∧
      (recv.rx.why ≠ none ↔ Tells range due came) ∧
      (Tells range due came →
        recv.stores = (log.take place).flatMap (Post.stores 0)) := by
  obtain ⟨recv, pos, front, ran, stands, sane, stores⟩ :=
    sendable.arrives place
  obtain ⟨next, step⟩ := sendable.due_step here front
  have plain := sendable.plain due (List.mem_of_getElem? here)
  have reads : came.msg.Reads came.wire := Msg.reads_ofBytes came.wire
  have tells := violates_iff_tells stands step plain came
  rw [arrive_append, ran, Option.bind_some, arrive_cons]
  by_cases bad : Violates none recv came.wire
  · obtain ⟨after, drained, failed, kept⟩ :=
      drainOne_refuses 0 .sent reads sane bad
    rw [drained]
    exact ⟨after, rfl, iff_of_true failed (tells.mp bad),
      fun _ => kept.trans stores⟩
  · obtain ⟨after, answer, drained, fine⟩ := drainOne_accepts reads
      (by rw [stands.accepted]; simp) sane bad
    rw [drained]
    have untold := mt tells.mpr bad
    exact ⟨after, rfl, iff_of_false (not_not.mpr fine) untold,
      fun told => absurd told untold⟩

/-- Everything lands where its sender meant it and a message out of its place
fails the link exactly when the first such message can be told from the one
due. -/
theorem Sendable.faithful_iff (sendable : Sendable range log)
    (delivery : Delivery log order) :
    Faithful range log order ↔ ∀ place index due came,
      FirstOut order place index → log[place]? = some due →
      log[index]? = some came → Tells range due came := by
  constructor
  · intro faithful place index due came out here there
    obtain ⟨recv, ran, failed⟩ := faithful.poisoned place index out
    obtain ⟨due', came', rest, here', there', first, -⟩ := out.due delivery
    rw [here] at here'
    rw [there] at there'
    obtain rfl := Option.some.inj here'
    obtain rfl := Option.some.inj there'
    obtain ⟨after, same, told, -⟩ := sendable.out_of_place here came
    rw [first, same] at ran
    obtain rfl := Option.some.inj ran
    exact told.mp failed
  · intro tells
    refine ⟨?_, ?_⟩
    · rcases in_order_or_firstOut order with ordered | ⟨place, index, out⟩
      · have few : order.length ≤ log.length := by
          by_contra long
          have last : log.length ∈ order := by
            rw [ordered, List.mem_range]
            omega
          exact absurd (delivery.known _ last) (by omega)
        obtain ⟨recv, -, -, ran, -, -, stores⟩ := sendable.arrives order.length
        refine ⟨recv, ?_, ?_⟩
        · rw [ordered, delivered_range (by simpa using few)]
          simpa using ran
        · rw [stores]
          exact sendable.store_effect fun post member =>
            List.mem_of_mem_take member
      · obtain ⟨due, came, rest, here, there, -, whole⟩ := out.due delivery
        obtain ⟨recv, ran, told, kept⟩ := sendable.out_of_place here came
        have tell := tells place index due came out here there
        refine ⟨recv, ?_, ?_⟩
        · rw [whole, ← List.singleton_append, ← List.append_assoc,
            arrive_append, ran]
          exact arrive_poisoned (told.mpr tell) rest
        · rw [kept tell]
          exact sendable.store_effect fun post member =>
            List.mem_of_mem_take member
    · intro place index out
      obtain ⟨due, came, rest, here, there, first, -⟩ := out.due delivery
      obtain ⟨recv, ran, told, -⟩ := sendable.out_of_place here came
      rw [first]
      exact ⟨recv, ran, told.mpr (tells place index due came out here there)⟩

end

/-- The messages an end of a link has posted can be sent. -/
theorem Pair.Inv.sendable {pair : Pair} (inv : pair.Inv) :
    Sendable pair.there.range pair.here.log := by
  obtain ⟨sent, flying, cells, came, coming, others, out, -⟩ := inv.holds
  exact ⟨out.fits, ⟨_, out.sent⟩, fun post member => (out.plain post member).1⟩

/-- Whatever an end of a link has called, and whatever of its messages is lost or
reordered: nothing lands elsewhere and the first message out of its place fails
the link exactly when that message can be told from the one due. -/
theorem reordering_faithful_iff (cfg : PairCfg) {pair : Pair}
    (reach : (Pair.machine cfg).Reach pair) {order : List Nat}
    (delivery : Delivery pair.here.log order) :
    Faithful pair.there.range pair.here.log order ↔
      ∀ place index due came, FirstOut order place index →
        pair.here.log[place]? = some due →
        pair.here.log[index]? = some came →
        Tells pair.there.range due came :=
  (Pair.Inv.ofReach reach).sendable.faithful_iff delivery

/-- Two ends of sixteen packets each way, with windows of 16 KiB. -/
def widePair : PairCfg where
  depth := fun _ => 16
  slots := fun _ => 16
  range := fun _ => (0, 16384)
  deep := sixteen_enough
  wide := sixteen_enough
  fits := fun _ => by decide

/-- A source whose bytes are all `value`. -/
def plainSource (value : UInt8) : Region :=
  ⟨fun _ => value, 16384, 16384, by decide⟩

/-- Two writes of 5000 bytes, each a header and its bytes. -/
def twoWrites : List (Bool × Pair.Act) :=
  [(false, .call (.write (plainSource 1) 0 0 5000)), (false, .post),
    (false, .call (.write (plainSource 2) 0 8192 5000)), (false, .post)]

theorem twoWrites_isSome : ((Pair.machine widePair).run
    (Pair.machine widePair).start twoWrites).isSome = true := by
  decide +kernel

/-- The link behind both writes. -/
def twoWritten : Pair :=
  ((Pair.machine widePair).run (Pair.machine widePair).start twoWrites).get
    twoWrites_isSome

theorem twoWritten_reach : (Pair.machine widePair).Reach twoWritten :=
  Machine.Reach.get twoWrites_isSome

/-- Bytes that arrive without their header fail the link. -/
theorem reordering_faithful_headless :
    Faithful twoWritten.there.range twoWritten.here.log [1] := by
  refine (reordering_faithful_iff widePair twoWritten_reach
    ⟨by decide, by decide +kernel⟩).mpr ?_
  intro place index due came out here there
  have first : place = 0 := by
    have short := (List.getElem?_eq_some_iff.mp out.here).1
    simpa using short
  subst first
  have second : index = 1 := by simpa using out.here.symm
  subst second
  have headed : (twoWritten.here.log[0]?.bind Post.head).isSome = true := by
    decide +kernel
  have unmarked : twoWritten.here.log[1]?.map
      (fun post => decide ((headOf post.wire).magic = magic)) =
        some false := by
    decide +kernel
  rw [here, Option.bind_some, Option.isSome_iff_exists] at headed
  rw [there, Option.map_some, Option.some.injEq, decide_eq_false_iff_not]
    at unmarked
  obtain ⟨head, has⟩ := headed
  unfold Tells
  rw [has]
  exact fun formed => unmarked formed.marked

/-- Without the first write's bytes and the second's header, the second write's
bytes land where the first's were due and the link goes on. -/
theorem second_write_misplaced :
    ¬∀ (cfg : PairCfg) (pair : Pair) (order : List Nat),
      (Pair.machine cfg).Reach pair → Delivery pair.here.log order →
      Faithful pair.there.range pair.here.log order := by
  intro holds
  have faithful := holds widePair twoWritten [0, 3] twoWritten_reach
    ⟨by decide, by decide +kernel⟩
  obtain ⟨recv, ran, failed⟩ := faithful.poisoned 1 3
    ⟨by decide, rfl, by decide⟩
  have fine : (arrive (.fresh twoWritten.there.range) (delivered
      twoWritten.here.log ([0, 3].take (1 + 1)))).map
        (fun recv => recv.rx.why) = some none := by
    decide +kernel
  rw [ran] at fine
  exact failed (Option.some.inj fine)

end Link
end Mcdma
