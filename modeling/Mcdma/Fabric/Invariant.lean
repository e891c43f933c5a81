import Mcdma.Fabric.Deliver

/-!
# The invariant of a bond

What holds of the messages in flight in every state a bond can reach.  Each link
is in order from the receiver's position over its wire and its outbox to the
sender's.  Every copy in flight that must come after some other store is on the
same link behind it, or has it done already, or waits for it.  Every signal in
flight counts exactly the writes before it.  All of it is stated against the log
of the sender.
-/

namespace Mcdma
namespace Fabric

open Link

namespace Sys

/-- The messages of a link still to be taken. -/
def queue (sys : Sys) (lane : Nat) : List Post :=
  sys.wire lane ++ sys.out lane

/-- The stores still to be made by the messages of a link. -/
def queued (sys : Sys) (lane : Nat) : List Store :=
  (sys.queue lane).flatMap (Post.stores lane)

/-- The stores a link's outbox still holds. -/
def outStores (sys : Sys) (lane : Nat) : List Store :=
  (sys.out lane).flatMap (Post.stores lane)

/-- The receiver's shared state. -/
abbrev bond (sys : Sys) : Bond :=
  sys.receiver.bond

/-- The stores made so far. -/
abbrev trace (sys : Sys) : List Store :=
  sys.receiver.stores

end Sys

/-- The counts a message of link `lane` carries are close to those of the
receiver. -/
structure CountsClose (links lane : Nat) (bond : Bond) (post : Post) :
    Prop where
  waits : ∀ guard, post.guard? lane = some guard → ∀ other < links,
    guard.wait other ≠ 0 → Close (bond.placed other) (guard.wait other)
  needs : ∀ carried, post.carried? = some carried → ∀ other < links,
    Close (bond.placed other) (carried.need other)

/-- No message at the head of a wire carries a count 2^31 or more away from the
writes placed. -/
def Sys.Near (cfg : Config) (sys : Sys) : Prop :=
  ∀ lane < cfg.links, ∀ post ∈ (sys.wire lane).head?,
    CountsClose cfg.links lane sys.bond post

/-- A guarded copy waits for a store. -/
def Awaits (guard : Guard) (entry : Entry) : Prop :=
  match entry.tag with
  | .placed lane ord => ord ≤ guard.wait lane
  | .published sig => guard.signals = true ∧ sig < guard.sig
  | .word => False

/-- One link is in order from the receiver to the sender. -/
structure LaneOk (cfg : Config) (sys : Sys) (lane : Nat) : Prop where
  onWire : ∃ pos, At cfg.remoteLength (sys.receiver.lanes lane) pos ∧
    sys.bond.placed lane = pos.writes ∧
    walk pos (sys.wire lane) = some (sys.sent lane)
  inOut : walk (sys.sent lane) (sys.out lane) =
    some (Pos.ofLane (sys.peer.lanes lane))
  sound : ∀ post ∈ sys.queue lane,
    post.Sound cfg.links cfg.remoteLength lane
  inLog : (sys.queued lane).Sublist (sys.log.map Entry.store)
  based : sys.base lane ≤ sys.bond.placed lane

/-- A guard in flight: its signal is within credit and still to come, it waits
only for what has left and what was logged before its copy. -/
structure GuardOk (cfg : Config) (sys : Sys) (lane ord : Nat) (guard : Guard) :
    Prop where
  credit : guard.sig ≤ sys.peer.txFenced + bondSignals
  next : guard.sig ≤ sys.peer.txSignal + 1
  entry : ∃ copy ∈ sys.log, copy.tag = .placed lane ord
  ahead : guard.sig = sys.peer.txSignal + 1 ∨ ∃ copy signal,
    copy.tag = .placed lane ord ∧ signal.tag = .published guard.sig ∧
      Before sys.log copy signal
  left : ∀ other < cfg.links, guard.wait other ≤ (sys.sent other).writes
  near : ∀ other < cfg.links,
    guard.wait other = 0 ∨ sys.base other < guard.wait other
  earlier : ∀ copy ∈ sys.log, copy.tag = .placed lane ord →
    ∀ entry ∈ sys.log, Awaits guard entry → Before sys.log entry copy
  quiet : ∀ other < cfg.links, ∀ store ∈ sys.outStores other,
    ∀ sig, store.tag = .published sig → guard.sig ≤ sig

/-- A signal in flight: it is logged, and counts the writes before it. -/
structure CarriedOk (cfg : Config) (sys : Sys) (lane : Nat) (post : Post)
    (carried : Carried) : Prop where
  logged : ∃ signal ∈ sys.log, signal.store = carried.store ∧
    Watermark cfg.links sys.log sys.peer.writes signal carried.need
  near : ∀ other < cfg.links, sys.base other ≤ carried.need other
  left : ∀ other < cfg.links, carried.need other ≤ (sys.sent other).writes ∨
    (other = lane ∧ post.ord? = some (carried.need other))

/-- Everything a bond keeps but its sender's table and its calls. -/
structure Core (cfg : Config) (sys : Sys) : Prop where
  lanes : ∀ lane < cfg.links, LaneOk cfg sys lane
  history : Log cfg.links sys.log sys.peer.writes sys.peer.txSignal
  ledger : Ledger cfg.links sys.log sys.peer.writes sys.bond sys.trace
  drained : ¬sys.bond.Due
  window : sys.bond.winLength = cfg.remoteLength
  tails : sys.bond.tailPut = (fun _ => 0) ∧ sys.bond.tailGot = fun _ => 0
  fenced : sys.peer.txFenced < sys.bond.rxSignal
  credit : sys.peer.txSignal ≤ sys.peer.txFenced + bondSignals
  signalsFit : sys.peer.txSignal < 2 ^ 64
  guards : ∀ lane < cfg.links, ∀ post ∈ sys.queue lane, ∀ guard ord,
    post.guard? lane = some guard → post.ord? = some ord →
    GuardOk cfg sys lane ord guard
  carried : ∀ lane < cfg.links, ∀ post ∈ sys.queue lane, ∀ carried,
    post.carried? = some carried → CarriedOk cfg sys lane post carried
  pendingLeft : ∀ slot < bondSignals, (sys.bond.pending slot).seq ≠ 0 →
    ∀ other < cfg.links,
      (sys.bond.pending slot).need other ≤ (sys.sent other).writes
  complete : ∀ entry ∈ sys.log, ∀ sig, entry.tag = .published sig →
    sys.bond.rxSignal ≤ sig →
    (∃ slot < bondSignals, (sys.bond.pending slot).seq = sig) ∨
      ∃ lane < cfg.links, entry.store ∈ sys.queued lane
  upcoming : ∀ lane < cfg.links, ∀ store ∈ sys.queued lane,
    ∀ sig, store.tag = .published sig → sys.bond.rxSignal ≤ sig ∧
      ∀ slot < bondSignals, (sys.bond.pending slot).seq ≠ sig
  exclusive : ∀ lane < cfg.links, ∀ other < cfg.links, lane ≠ other →
    ∀ store ∈ sys.queued lane, store ∈ sys.queued other →
      ∀ sig, store.tag ≠ .published sig
  depends : ∀ lane < cfg.links, ∀ copy ∈ sys.log, ∀ ord,
    copy.tag = .placed lane ord → sys.bond.placed lane < ord →
    ∀ first, Ordered sys.log first copy →
      Applied sys.bond first ∨ (∃ other, first.tag = .placed lane other) ∨
        ∃ post ∈ sys.queue lane, post.ord? = some ord ∧
          ∃ guard, post.guard? lane = some guard ∧ Awaits guard first
  epochs : ∀ entry ∈ sys.log, entry.epoch ≤ sys.epoch
  settled : ∀ entry ∈ sys.log, entry.epoch < sys.epoch →
    Applied sys.bond entry

section

variable {cfg : Config} {sys : Sys} {lane : Nat}

theorem Config.remoteLength_lt (cfg : Config) : cfg.remoteLength < 2 ^ 63 := by
  have bound := cfg.remote_le
  simp only [linkRegionMax, tbSeg] at bound
  omega

/-- What is placed was posted. -/
theorem LaneOk.placed_le (ok : LaneOk cfg sys lane) :
    sys.bond.placed lane ≤ (sys.sent lane).writes ∧
      (sys.sent lane).writes ≤ sys.peer.writes lane := by
  obtain ⟨pos, -, counted, walked⟩ := ok.onWire
  refine ⟨?_, walk_writes_le ok.inOut⟩
  rw [counted]
  exact walk_writes_le walked

/-- A link's messages are in order from the receiver to the sender. -/
theorem LaneOk.walk_queue (ok : LaneOk cfg sys lane) :
    ∃ pos, At cfg.remoteLength (sys.receiver.lanes lane) pos ∧
      sys.bond.placed lane = pos.writes ∧
      walk pos (sys.queue lane) = some (Pos.ofLane (sys.peer.lanes lane)) := by
  obtain ⟨pos, stands, counted, walked⟩ := ok.onWire
  exact ⟨pos, stands, counted, walk_append_of walked ok.inOut⟩

/-- A store in flight is logged. -/
theorem LaneOk.exists_entry (ok : LaneOk cfg sys lane) {store : Store}
    (member : store ∈ sys.queued lane) :
    ∃ entry ∈ sys.log, entry.store = store := by
  have logged := ok.inLog.subset member
  obtain ⟨entry, found, same⟩ := List.mem_map.mp logged
  exact ⟨entry, found, same⟩

namespace Core

/-- Every published signal was posted. -/
theorem rxSignal_le (core : Core cfg sys) :
    sys.bond.rxSignal ≤ sys.peer.txSignal + 1 := by
  have pos := core.ledger.counted.1
  by_contra beyond
  have last : sys.bond.rxSignal - 1 ∈
      List.range' 1 (sys.bond.rxSignal - 1) := by
    rw [List.mem_range'_1]
    omega
  rw [← core.ledger.signals, List.mem_filterMap] at last
  obtain ⟨store, stored, kind⟩ := last
  obtain ⟨entry, member, same⟩ := core.ledger.logged store stored
  have tag : entry.tag = .published (sys.bond.rxSignal - 1) := by
    rw [Entry.tag, same]
    exact published?_eq kind
  have bound := (core.history.published entry member _ tag).2
  omega

/-- With nothing in flight everything was made. -/
theorem all_applied (core : Core cfg sys)
    (empty : ∀ lane < cfg.links, sys.queue lane = []) :
    (∀ entry ∈ sys.log, Applied sys.bond entry) ∧
      sys.bond.rxSignal = sys.peer.txSignal + 1 ∧
      ∀ lane < cfg.links, sys.bond.placed lane = sys.peer.writes lane := by
  have placed : ∀ lane < cfg.links,
      sys.bond.placed lane = sys.peer.writes lane := by
    intro lane below
    obtain ⟨pos, -, counted, walked⟩ := (core.lanes lane below).walk_queue
    rw [empty lane below, walk_nil] at walked
    rw [counted, Option.some.inj walked]
    rfl
  have published : sys.bond.rxSignal = sys.peer.txSignal + 1 := by
    refine le_antisymm core.rxSignal_le ?_
    by_contra behind
    have pos := core.ledger.counted.1
    obtain ⟨entry, member, tag⟩ := core.history.signalled sys.bond.rxSignal
      pos (by omega)
    rcases core.complete entry member _ tag (Nat.le_refl _) with
      ⟨slot, below, seq⟩ | ⟨lane, below, found⟩
    · -- a queued signal whose writes are all placed would have been drained
      have occupied : (sys.bond.pending slot).seq ≠ 0 := by omega
      obtain ⟨home, -, signal, -, -, watermark⟩ :=
        core.ledger.queue slot below occupied
      rw [seq] at home
      apply core.drained
      rw [Bond.Due, home]
      refine ⟨seq, ?_⟩
      intro lane inBond
      rw [core.ledger.bonded] at inBond
      rw [placed lane inBond]
      exact watermark.bounded lane inBond
    · simp [Sys.queued, empty lane below] at found
  refine ⟨?_, published, placed⟩
  intro entry member
  rcases core.history.cases member with ⟨lane, ord, tag⟩ | ⟨sig, tag⟩
  · have bound := core.history.placed entry member lane ord tag
    rw [applied_placed tag, placed lane bound.1]
    exact bound.2.2
  · have bound := core.history.published entry member sig tag
    rw [applied_published tag, published]
    omega

/-- The head of a wire fits the receiver's position. -/
theorem head_fits (core : Core cfg sys) (below : lane < cfg.links)
    {post : Post} {rest : List Post} (wire : sys.wire lane = post :: rest) :
    ∃ pos next, At cfg.remoteLength (sys.receiver.lanes lane) pos ∧
      sys.bond.placed lane = pos.writes ∧ post.step pos = some next ∧
      walk next rest = some (sys.sent lane) ∧
      post.Sound cfg.links cfg.remoteLength lane := by
  obtain ⟨pos, stands, counted, walked⟩ := (core.lanes lane below).onWire
  rw [wire, walk_cons] at walked
  obtain ⟨next, step, onward⟩ := Option.bind_eq_some_iff.mp walked
  refine ⟨pos, next, stands, counted, step, onward, ?_⟩
  apply (core.lanes lane below).sound post
  simp [Sys.queue, wire]

end Core

end

end Fabric
end Mcdma
