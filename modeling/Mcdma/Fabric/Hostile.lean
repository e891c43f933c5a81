import Mcdma.Fabric.Hooks
import Mcdma.Lib.Machine
import Mcdma.Link.Format

/-!
# A receiver under arbitrary messages

The receiving side of one link, or of the links of one bond, when the device may
land any packets in any order over its lanes.  Whatever arrives, the window
changes only inside the accepted range, every signal word stored or queued is
aligned and inside it, no read leaves the message it belongs to, and a message
outside its format ends its link.
-/

namespace Mcdma
namespace Fabric

open Link

/-! ## The bond's hooks -/

/-- Every queued signal is aligned and inside a range. -/
structure Bond.Safe (range : Nat × Nat) (bond : Bond) : Prop where
  counted : 0 < bond.rxSignal
  queued : ∀ slot, (bond.pending slot).seq ≠ 0 →
    WordAt range (bond.pending slot).off

namespace Bond

variable {range : Nat × Nat} {bond : Bond}

theorem Safe.publish (safe : bond.Safe range) : bond.publish.Safe range := by
  refine ⟨Nat.succ_pos _, fun slot held => ?_⟩
  simp only [Bond.publish, Function.update_apply] at held ⊢
  split at held
  · simp at held
  · next other =>
      rw [if_neg other]
      exact safe.queued slot held

/-- A published word was queued. -/
theorem Safe.headStore (safe : bond.Safe range) (due : bond.Due) :
    Within range bond.headStore := by
  have held : (bond.pending (bond.rxSignal % bondSignals)).seq ≠ 0 := by
    have counted := safe.counted
    rw [due.1]
    omega
  obtain ⟨aligned, low, high⟩ := safe.queued _ held
  refine ⟨low, ?_, fun _ => ⟨aligned, by simp [Bond.headStore]⟩⟩
  simpa [Bond.headStore, Patch.stop] using high

theorem Safe.drainLoop (safe : bond.Safe range) (fuel : Nat) :
    (Bond.drainLoop fuel bond).1.Safe range ∧
      ∀ store ∈ (Bond.drainLoop fuel bond).2, Within range store := by
  induction fuel generalizing bond with
  | zero => exact ⟨safe, by simp [Bond.drainLoop]⟩
  | succ fuel inductionHypothesis =>
      rw [Bond.drainLoop]
      split
      · next goes =>
          obtain ⟨kept, inside⟩ := inductionHypothesis safe.publish
          refine ⟨kept, fun store member => ?_⟩
          rcases List.mem_cons.mp member with rfl | later
          · exact safe.headStore goes.2
          · exact inside store later
      · exact ⟨safe, by simp⟩

theorem Safe.enqueue (safe : bond.Safe range) (seq : Nat) (need : Nat → Nat)
    {off : Nat} (value : Nat) (word : WordAt range off) :
    (bond.enqueue seq need off value).Safe range := by
  refine ⟨safe.counted, fun slot held => ?_⟩
  simp only [Bond.enqueue, Function.update_apply] at held ⊢
  split
  · exact word
  · next other =>
      rw [if_neg other] at held
      exact safe.queued slot held

end Bond

/-- The hooks of a bond store and keep only what they were handed. -/
theorem bondHooks_keeps (links lane : Nat) (range : Nat × Nat) :
    (bondHooks links lane).Keeps (Bond.Safe range) range where
  placed := by
    intro bond count safe
    have moved : (bond.place lane count).Safe range :=
      ⟨safe.counted, safe.queued⟩
    simp only [bondHooks, Bond.bondPlaced]
    split
    · exact moved.drainLoop bondSignals
    · exact ⟨moved, by simp⟩
  signal := by
    intro bond sig need off value safe word
    simp only [bondHooks, Bond.bondSignal]
    split
    · exact ⟨⟨safe.counted, safe.queued⟩, by simp⟩
    · exact (safe.enqueue sig need value word).drainLoop bondSignals
  announce := by
    intro bond tail safe
    simp only [bondHooks, Bond.bondAnnounce]
    generalize (if lane = 0 then 1 else 0) = other
    split
    · exact safe
    · exact ⟨safe.counted, safe.queued⟩
  tail := by
    intro bond told after safe answer
    simp only [bondHooks, Bond.bondTail] at answer
    split at answer
    · simp at answer
    · simp only [Option.some.injEq, Prod.mk.injEq] at answer
      obtain ⟨-, rfl⟩ := answer
      exact ⟨safe.counted, safe.queued⟩

/-! ## The receiver -/

/-- The receiving side of a peer: each lane's half of its link and its ring, the
state the lanes share and the stores made to the window. -/
structure Node where
  lanes : Nat → Rx
  rings : Nat → Ring
  bond : Bond
  stores : List Store

namespace Node

/-- The hooks of a lane; a bond of no links is a single link without hooks. -/
def hooksOf (links lane : Nat) : Option (Hooks Bond) :=
  if links = 0 then none else some (bondHooks links lane)

/-- The receiving end of a lane. -/
def recv (node : Node) (lane : Nat) : Recv Bond :=
  ⟨node.lanes lane, node.bond, node.stores⟩

/-- The bytes of the message at the head of a lane's ring. -/
def text (node : Node) (lane bytes : Nat) : List UInt8 :=
  Circular.content tbPacket (node.rings lane).slots (node.rings lane).mem
    (node.rings lane).used bytes

/-- One round of `drain` on a lane over the message found at its ring's head. -/
def drainLane (links : Nat) (node : Node) (lane now : Nat) (reply : Reply)
    (found : Nat × Nat) : Option (Recv Bond × Taken) :=
  drainOne (hooksOf links lane) now reply (node.recv lane)
    ((node.rings lane).msg (node.rings lane).used found.1 found.2)

/-- What may happen: a lane accepts writes, a packet lands, a lane takes the
message at its ring's head, or slots go back to the device. -/
inductive Act
  | accept (lane : Nat)
  | land (lane : Nat) (packet : Packet)
  | take (lane now : Nat) (reply : Reply)
  | repost (lane n : Nat)

instance (packet : Packet) : Decidable packet.Shaped :=
  decidable_of_iff (1 ≤ packet.bytes.length ∧
    packet.bytes.length ≤ tbPacket ∧
    (packet.last = false → packet.bytes.length = tbPacket))
    ⟨fun all => ⟨all.1, all.2.1, all.2.2⟩,
      fun shaped => ⟨shaped.nonempty, shaped.small, shaped.full⟩⟩

/-- `tb_accept`: the peer may write a range. -/
def accept (range : Nat × Nat) (rx : Rx) : Rx :=
  { rx with accepted := some range }

/-- One step of the receiver. -/
def step (links : Nat) (range : Nat × Nat) (node : Node) : Act → Option Node
  | .accept lane =>
      if (node.lanes lane).accepted = none then
        some { node with
          lanes := Function.update node.lanes lane
            (accept range (node.lanes lane)) }
      else none
  | .land lane packet =>
      if packet.Shaped ∧
          (node.rings lane).filled < (node.rings lane).posted then
        some { node with
          rings := Function.update node.rings lane
            ((node.rings lane).land packet) }
      else none
  | .take lane now reply =>
      (node.rings lane).next?.bind fun found =>
        (drainLane links node lane now reply found).map fun after =>
          { lanes := Function.update node.lanes lane after.1.rx
            rings := match after.2 with
              | .taken _ => Function.update node.rings lane
                  ((node.rings lane).consume found.1)
              | _ => node.rings
            bond := after.1.bond
            stores := after.1.stores }
  | .repost lane n =>
      if n ≤ (node.rings lane).used + (node.rings lane).slots -
          (node.rings lane).posted then
        some { node with
          rings := Function.update node.rings lane
            ((node.rings lane).repost n) }
      else none

/-- A receiver of `links` bonded lanes, or of one link when that is 0, whose
rings have `slots` slots. -/
def machine (links slots winLength : Nat) (range : Nat × Nat) :
    Machine Node Act where
  start :=
    { lanes := fun _ => { accepted := none }
      rings := fun _ => { slots := slots, posted := slots }
      bond := { bonded := links, winLength := winLength }
      stores := [] }
  step := step links range

/-- What every reachable receiver keeps. -/
structure Contained (range : Nat × Nat) (node : Node) : Prop where
  guarded : ∀ lane, Guarded (Bond.Safe range) range (node.recv lane)
  rings : ∀ lane, ∃ cells, (node.rings lane).Holds cells

variable {links slots winLength : Nat} {range : Nat × Nat} {node next : Node}

/-- The message `drain` finds is one the ring holds whole. -/
theorem Contained.found (contained : node.Contained range) {lane : Nat}
    {found : Nat × Nat} (whole : (node.rings lane).next? = some found) :
    ((node.rings lane).msg (node.rings lane).used found.1 found.2).Reads
        (node.text lane found.2) ∧
      ∃ cells, ((node.rings lane).consume found.1).Holds cells := by
  obtain ⟨cells, holds⟩ := contained.rings lane
  cases first : firstMessage cells with
  | none =>
      rw [holds.next?_none first] at whole
      simp at whole
  | some pair =>
      obtain ⟨message, rest⟩ := pair
      rw [holds.next?_some first] at whole
      have same := Option.some.inj whole
      subst same
      have reads := holds.reads first
      rw [← Ring.content_eq holds.cells holds.shaped first] at reads
      simp only [Circular.length_content] at reads
      exact ⟨reads, rest, holds.consume first⟩

theorem hooksOf_keeps (links lane : Nat) (range : Nat × Nat) :
    ∀ own, hooksOf links lane = some own → own.Keeps (Bond.Safe range) range := by
  intro own same
  unfold hooksOf at same
  split at same
  · simp at same
  · have equal := Option.some.inj same
    rw [← equal]
    exact bondHooks_keeps links lane range

/-- Taking the message at the head of a ring succeeds as a read and stays
inside. -/
theorem Contained.drainLane (contained : node.Contained range)
    (links : Nat) {lane : Nat} (now : Nat) (reply : Reply) {found : Nat × Nat}
    (whole : (node.rings lane).next? = some found) :
    Stays (Bond.Safe range) range
      (node.drainLane links lane now reply found) :=
  drainOne_stays now reply (contained.guarded lane)
    (hooksOf_keeps links lane range) (contained.found whole).1

/-- Every step stays inside. -/
theorem Contained.step (contained : node.Contained range) (links : Nat)
    {act : Act} (taken : Node.step links range node act = some next) :
    next.Contained range := by
  cases act with
  | accept lane =>
      rw [Node.step, Option.ite_none_right_eq_some] at taken
      have final := Option.some.inj taken.2
      subst final
      refine ⟨fun other => ?_, contained.rings⟩
      have before := contained.guarded other
      by_cases mine : other = lane
      · subst mine
        have closed : (node.lanes other).accepted = none := taken.1
        have idle : (node.lanes other).wantLen = 0 := by
          by_contra wanted
          have inside := before.want wanted
          simp [Node.recv, Rx.inside, closed] at inside
        refine ⟨Or.inr ?_, ?_, before.bond, before.stores⟩
        · simp [Node.recv, accept]
        · intro wanted
          exact absurd idle (by simpa [Node.recv, accept] using wanted)
      · refine ⟨?_, ?_, before.bond, before.stores⟩
        · simpa [Node.recv, Function.update_of_ne mine] using before.accepted
        · simpa [Node.recv, Function.update_of_ne mine] using before.want
  | land lane packet =>
      rw [Node.step, Option.ite_none_right_eq_some] at taken
      obtain ⟨⟨shaped, room⟩, same⟩ := taken
      have final := Option.some.inj same
      subst final
      refine ⟨contained.guarded, fun other => ?_⟩
      by_cases mine : other = lane
      · subst mine
        obtain ⟨cells, holds⟩ := contained.rings other
        exact ⟨_, by simpa using holds.land room shaped⟩
      · simpa [Function.update_of_ne mine] using contained.rings other
  | take lane now reply =>
      rw [Node.step] at taken
      obtain ⟨found, whole, rest⟩ := Option.bind_eq_some_iff.mp taken
      obtain ⟨after, drained, final⟩ := Option.map_eq_some_iff.mp rest
      subst final
      obtain ⟨recv, result, same, guarded⟩ :=
        contained.drainLane links now reply whole
      rw [drained] at same
      have equal := Option.some.inj same
      subst equal
      constructor
      · intro other
        by_cases mine : other = lane
        · subst mine
          simpa [Node.recv] using guarded
        · have before := contained.guarded other
          refine ⟨?_, ?_, guarded.bond, guarded.stores⟩
          · simpa [Node.recv, Function.update_of_ne mine] using before.accepted
          · simpa [Node.recv, Function.update_of_ne mine] using before.want
      · intro other
        dsimp only
        split
        · by_cases mine : other = lane
          · subst mine
            simpa using (contained.found whole).2
          · simpa [Function.update_of_ne mine] using contained.rings other
        · exact contained.rings other
  | repost lane n =>
      rw [Node.step, Option.ite_none_right_eq_some] at taken
      obtain ⟨free, same⟩ := taken
      have final := Option.some.inj same
      subst final
      refine ⟨contained.guarded, fun other => ?_⟩
      by_cases mine : other = lane
      · subst mine
        obtain ⟨cells, holds⟩ := contained.rings other
        exact ⟨cells, by simpa using holds.repost free⟩
      · simpa [Function.update_of_ne mine] using contained.rings other

theorem Contained.ofReach (some : 0 < slots)
    (reached : (machine links slots winLength range).Reach node) :
    node.Contained range := by
  refine reached.invariant (Contained range) ?_
    fun _ _ _ contained taken => contained.step links taken
  refine ⟨fun lane => ⟨Or.inl rfl, by simp [machine, Node.recv],
    ⟨by simp [machine, Node.recv], by simp [machine, Node.recv]⟩,
    by simp [machine, Node.recv]⟩, fun lane => ⟨[], some, rfl, ?_, ?_, by simp,
    trivial⟩⟩
  · exact Nat.zero_le _
  · simp [machine]

end Node

/-- Whatever messages arrive, on a single link or on the lanes of a bond: every
store lies in the accepted range, every signal word stored or queued is aligned
and inside it, the message at a ring's head is taken without a read outside its
own bytes, a message outside the format of its kind poisons its link and stores
nothing, and a poisoned link changes nothing more. -/
theorem hostile_messages_contained {links slots winLength : Nat}
    {range : Nat × Nat} (granted : 4 ≤ slots) {node : Node}
    (reached : (Node.machine links slots winLength range).Reach node) :
    (∀ store ∈ node.stores, Within range store) ∧
    (∀ slot, (node.bond.pending slot).seq ≠ 0 →
      WordAt range (node.bond.pending slot).off) ∧
    ∀ lane now reply found, (node.rings lane).next? = some found →
      (∃ after result,
        node.drainLane links lane now reply found = some (after, result) ∧
        ∀ store ∈ after.stores, Within range store) ∧
      ((node.lanes lane).why = none →
        Violates (Node.hooksOf links lane) (node.recv lane)
          (node.text lane found.2) →
        ∃ after,
          node.drainLane links lane now reply found = some (after, .failed) ∧
          after.rx.why ≠ none ∧ after.stores = node.stores) ∧
      ((node.lanes lane).why ≠ none →
        node.drainLane links lane now reply found =
          some (node.recv lane, .failed)) := by
  have contained := Node.Contained.ofReach (by omega) reached
  refine ⟨(contained.guarded 0).stores, (contained.guarded 0).bond.queued, ?_⟩
  intro lane now reply found whole
  refine ⟨?_, ?_, ?_⟩
  · obtain ⟨after, result, same, guarded⟩ :=
      contained.drainLane links now reply whole
    exact ⟨after, result, same, guarded.stores⟩
  · exact fun sane bad =>
      drainOne_refuses now reply (contained.found whole).1 sane bad
  · exact fun failed => drainOne_poisoned now reply failed

/-- A signal's head whose length field no sender writes, with eight bytes
behind it. -/
def oddSignal : List UInt8 :=
  Head.encode ⟨magic, 0, Kind.signal.code, 0, 0, 64, 7⟩ ++ List.replicate 8 0

/-- A single link accepts writes and that message lands. -/
def oddSignalLands : List Node.Act :=
  [.accept 0, .land 0 ⟨oddSignal, true⟩]

theorem oddSignalLands_runs :
    ((Node.machine 0 4 4096 (0, 4096)).run
      (Node.machine 0 4 4096 (0, 4096)).start oddSignalLands).isSome = true := by
  decide +kernel

/-- The receiver with that message at its ring's head. -/
def oddSignalNode : Node :=
  ((Node.machine 0 4 4096 (0, 4096)).run
    (Node.machine 0 4 4096 (0, 4096)).start oddSignalLands).get
    oddSignalLands_runs

theorem oddSignalNode_reached :
    (Node.machine 0 4 4096 (0, 4096)).Reach oddSignalNode :=
  Machine.Reach.get oddSignalLands_runs

theorem oddSignalNode_found :
    (oddSignalNode.rings 0).next? = some (1, 40) := by
  decide +kernel

/-- What a reachable receiver keeps, at one whose link takes a signal. -/
theorem hostile_messages_contained_signal :
    (oddSignalNode.rings 0).next? = some (1, 40) ∧
      ∃ after result,
        oddSignalNode.drainLane 0 0 0 .sent (1, 40) = some (after, result) ∧
        ∀ store ∈ after.stores, Within (0, 4096) store :=
  ⟨oddSignalNode_found,
    ((hostile_messages_contained (by decide) oddSignalNode_reached).2.2 0 0
      .sent (1, 40) oddSignalNode_found).1⟩

/-- No sender lays that message out. -/
theorem wire_ne_oddSignal (post : Post) (headed : post.head ≠ none) :
    post.wire ≠ oddSignal := by
  intro same
  obtain ⟨head, has⟩ := Option.ne_none_iff_exists'.mp headed
  have kind := Head.field_kind head post.body
  have length := Post.length_wire_of_head has
  rw [← Post.wire_of_head has, same] at kind
  rw [same] at length
  have code : Bytes.field oddSignal 8 2 = 3 := by decide
  have long : oddSignal.length = 40 := by decide
  rw [code] at kind
  cases post <;> simp only [Post.head, Option.some.injEq, reduceCtorEq] at has
  all_goals
    subst has
    simp [Kind.code, Post.body, long] at kind length

/-- A message that is not laid out as any sender does it, with the length field
of a signal at zero and bytes behind its head, is taken all the same. -/
theorem odd_signal_taken :
    ¬∀ (links slots winLength : Nat) (range : Nat × Nat) (node : Node)
      (lane now : Nat) (reply : Reply) (found : Nat × Nat),
      (Node.machine links slots winLength range).Reach node →
      (node.rings lane).next? = some found →
      (node.lanes lane).why = none → (node.lanes lane).wantLen = 0 →
      (∀ post : Post, post.head ≠ none →
        post.wire ≠ node.text lane found.2) →
      ∃ after,
        node.drainLane links lane now reply found = some (after, .failed) := by
  intro holds
  have text : oddSignalNode.text 0 40 = oddSignal := by decide +kernel
  have taken : (oddSignalNode.drainLane 0 0 0 .sent (1, 40)).map Prod.snd =
      some (.taken none) := by
    decide +kernel
  obtain ⟨after, failed⟩ := holds 0 4 4096 (0, 4096) oddSignalNode 0 0 .sent
    (1, 40) oddSignalNode_reached oddSignalNode_found (by decide +kernel)
    (by decide +kernel) (by
      intro post headed
      rw [text]
      exact wire_ne_oddSignal post headed)
  rw [failed] at taken
  simp at taken

end Fabric
end Mcdma
