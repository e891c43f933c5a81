import Mcdma.Mirror.Agreement

/-!
# The state of both followers

What ties the kernel, the mirror, the device and the pending completions of a
context to the completions in flight, apart from where the running call stands,
and what each kind of progress does to it.
-/

namespace Mcdma
namespace Mirror

open Hca (Cqe Device HardwareQp slotOf slotOfCounter window)

/-- The completions a node has pending are the first in flight on its ring. -/
structure Pending (node : UserCq) (live : List Entry) : Prop where
  count : node.pendingCount = node.ahead
  few : node.ahead ≤ live.length
  same : ∀ offset entry, offset < node.ahead → live[offset]? = some entry →
    node.pending (slotOf (node.pendingHead + UInt32.ofNat offset)) =
      completionOf entry.cqe entry.record false

/-- The kernel, the mirror and the device as followers of what is in flight, and
what has been settled before. -/
structure Core {cqOf : Nat → Bool → Nat} (flight : Flight cqOf)
    (settled : Nat → List Entry) (w : World) (cursor : Nat → Nat) : Prop where
  kernel : Kernel flight w.context w.device cursor
  within : ∀ c, cursor c ≤ (flight.live c).length
  mirror : w.context.ledger = flight.view fun c => (w.nodes c).ahead
  producers : w.device.quarantined = false → ∀ q send,
    ((w.context.qps q).side send).producer =
      producerOf (w.device.qps q) send
  owed : w.owed = flight.view fun c => (flight.live c).length
  most : ∀ c, Log.AtMost flight.held (laneOf cqOf) c 31
  written : ∀ c, w.written c = settled c ++ flight.live c
  pending : ∀ c, Pending (w.nodes c) (flight.live c)
  hardware : ∀ c, w.hardware c = (w.device.cqs c).consumer -
    UInt32.ofNat (cursor c) + UInt32.ofNat (flight.live c).length

namespace Core

variable {cqOf : Nat → Bool → Nat} {flight : Flight cqOf}
  {settled : Nat → List Entry} {w : World} {cursor : Nat → Nat}

theorem length_le (core : Core flight settled w cursor) (c : Nat) :
    (flight.live c).length ≤ 31 :=
  flight.length_le (core.most c)

/-- Only what it does not look at changes. -/
theorem congr {w' : World} (core : Core flight settled w cursor)
    (device : w'.device = w.device) (context : w'.context = w.context)
    (hardware : w'.hardware = w.hardware) (owed : w'.owed = w.owed)
    (written : w'.written = w.written)
    (nodes : ∀ c, (w'.nodes c).ahead = (w.nodes c).ahead ∧
      (w'.nodes c).pending = (w.nodes c).pending ∧
      (w'.nodes c).pendingHead = (w.nodes c).pendingHead ∧
      (w'.nodes c).pendingCount = (w.nodes c).pendingCount) :
    Core flight settled w' cursor where
  kernel := by
    rw [device, context]
    exact core.kernel
  within := core.within
  mirror := by
    rw [context, core.mirror]
    exact congrArg flight.view (funext fun c => (nodes c).1.symm)
  producers := by
    rw [device, context]
    exact core.producers
  owed := owed.trans core.owed
  most := core.most
  written := fun c => by rw [written, core.written]
  pending := fun c => by
    obtain ⟨ahead, pending, head, count⟩ := nodes c
    obtain ⟨counted, few, same⟩ := core.pending c
    refine ⟨by rw [count, counted, ahead], by rw [ahead]; exact few, ?_⟩
    rw [ahead, pending, head]
    exact same
  hardware := fun c => by
    rw [hardware, device, core.hardware]

/-- A node is replaced by one with the same pending completions. -/
theorem setNode (core : Core flight settled w cursor) {c : Nat} {node : UserCq}
    (ahead : node.ahead = (w.nodes c).ahead)
    (pending : node.pending = (w.nodes c).pending)
    (head : node.pendingHead = (w.nodes c).pendingHead)
    (count : node.pendingCount = (w.nodes c).pendingCount) :
    Core flight settled (w.setNode c node) cursor := by
  refine core.congr rfl rfl rfl rfl rfl fun other => ?_
  rw [World.setNode]
  by_cases one : other = c
  · subst one
    simp only [Function.update_self]
    exact ⟨ahead, pending, head, count⟩
  · simp [Function.update_of_ne one]

/-- The transport is lost, or the rings are, and nothing moves. -/
theorem device (core : Core flight settled w cursor) {h : Device}
    (index : h.index = w.device.index) (qps : h.qps = w.device.qps)
    (sound : h.Sound) (calm : h.quarantined = false →
      w.device.quarantined = false)
    (rings : ∀ c, (h.cqs c).object = (w.device.cqs c).object ∧
      ((h.cqs c).live = true → (w.device.cqs c).live = true) ∧
      (h.cqs c).ring = (w.device.cqs c).ring ∧
      (h.cqs c).consumer = (w.device.cqs c).consumer) :
    Core flight settled { w with device := h } cursor := by
  refine ⟨⟨⟨fun q send => ?_, core.kernel.coherent.userSides,
    fun qpn q found => ?_⟩, fun c entry member => ?_, fun c => ?_, sound,
    fun still => ?_⟩, core.within, core.mirror, fun still q send => ?_,
    core.owed, core.most, core.written, core.pending, fun c => ?_⟩
  · rw [qps]
    exact core.kernel.coherent.kernelSides q send
  · rw [qps]
    exact core.kernel.coherent.found qpn q (index ▸ found)
  · exact (core.kernel.valid c entry member).of_index index
  · dsimp only
    obtain ⟨object, live, ring, consumer⟩ := rings c
    rw [consumer]
    exact (core.kernel.rings c).congr object live ring
  · have same : kernelLedger h = kernelLedger w.device := by
      funext offset
      rw [kernelLedger, kernelLedger, qps]
    exact same.trans (core.kernel.records (calm still))
  · dsimp only
    rw [qps]
    exact core.producers (calm still) q send
  · dsimp only
    rw [(rings c).2.2.2]
    exact core.hardware c

/-! ## The mirror reports an entry -/

/-- The entry the mirror reports next is decoded as the one in flight. -/
theorem decode (core : Core flight settled w cursor) {c : Nat} {entry : Entry}
    (next : (flight.live c)[(w.nodes c).ahead]? = some entry) :
    ∃ context, userDecode w.context entry.cqe =
        some (completionOf entry.cqe entry.record false, context) ∧
      context.ledger = (flight.view (Function.update
        (fun c => (w.nodes c).ahead) c ((w.nodes c).ahead + 1))) ∧
      (∀ h, Coherent cqOf h w.context → Coherent cqOf h context) ∧
      ∀ q send, ((context.qps q).side send).producer =
        ((w.context.qps q).side send).producer := by
  obtain ⟨below, here⟩ := List.getElem?_eq_some_iff.mp next
  have member : entry ∈ flight.live c := here ▸ List.getElem_mem below
  obtain ⟨can, found, counter⟩ := core.kernel.valid c entry member
  obtain ⟨looked, posted, -, -⟩ := core.kernel.coherent.found _ _ found
  have held : w.context.ledger entry.key = some entry.record := by
    rw [core.mirror]
    exact flight.view_next next
  obtain ⟨rest, decodes, ledger, producer⟩ :=
    userDecode_next can looked posted held counter
  refine ⟨_, decodes, ?_, fun h coherent => coherent.setSide _ _ _, ?_⟩
  · rw [ledger, core.mirror]
    exact (flight.view_advance next).symm
  · intro q send
    rw [Context.qps_setSide]
    by_cases one : q = entry.q
    · subst one
      rw [Function.update_self, side_withSide]
      split
      · next same => rw [same, producer]
      · rfl
    · rw [Function.update_of_ne one]

/-- The entries in flight after one of them is reported. -/
theorem report (core : Core flight settled w cursor) {c : Nat} {entry : Entry}
    (next : (flight.live c)[(w.nodes c).ahead]? = some entry)
    {context : Context}
    (ledger : context.ledger = (flight.view (Function.update
      (fun c => (w.nodes c).ahead) c ((w.nodes c).ahead + 1))))
    (coherent : ∀ h, Coherent cqOf h w.context → Coherent cqOf h context)
    (producers : ∀ q send, ((context.qps q).side send).producer =
      ((w.context.qps q).side send).producer) :
    Core flight settled (w.report c
      (completionOf entry.cqe entry.record false) context) cursor := by
  have below := (List.getElem?_eq_some_iff.mp next).1
  have few := core.length_le c
  have aheads : (fun other => ((w.report c (completionOf entry.cqe
      entry.record false) context).nodes other).ahead) =
        Function.update (fun c => (w.nodes c).ahead) c
          ((w.nodes c).ahead + 1) := by
    funext other
    rw [World.report, World.setNode]
    by_cases one : other = c
    · subst one
      simp only [Function.update_self]
    · simp only [Function.update_of_ne one]
  refine ⟨⟨coherent _ core.kernel.coherent, core.kernel.valid,
    core.kernel.rings, core.kernel.sound, core.kernel.records⟩, core.within,
    ?_, ?_, core.owed, core.most, core.written, fun other => ?_,
    core.hardware⟩
  · rw [aheads]
    exact ledger
  · intro calm q send
    exact (producers q send).trans (core.producers calm q send)
  · obtain ⟨count, few', same⟩ := core.pending other
    rw [World.report, World.setNode]
    by_cases one : other = c
    · subst one
      simp only [Function.update_self]
      refine ⟨congrArg (· + 1) count, below, fun offset found small here => ?_⟩
      have smaller : offset < (w.nodes other).ahead + 1 := small
      have low : (w.nodes other).ahead < 32 := by omega
      by_cases last : offset = (w.nodes other).ahead
      · subst last
        dsimp only
        rw [count, Function.update_self]
        have equal := Option.some.inj (here.symm.trans next)
        rw [equal]
      · dsimp only
        rw [count, Function.update_of_ne]
        · exact same offset found (by omega) here
        · have low' : offset < 32 := by omega
          exact fun slots => last (Hca.slotOf_add_inj low' low slots)
    · simp only [Function.update_of_ne one]
      exact ⟨count, few', same⟩

/-! ## Entries are settled -/

/-- The first entries of a ring that both sides have worked through are
settled. -/
theorem settle (core : Core flight settled w cursor) {c count : Nat}
    (through : count ≤ cursor c) (ahead : count ≤ (w.nodes c).ahead)
    {node : UserCq} (less : node.ahead = (w.nodes c).ahead - count)
    (pending : Pending node ((flight.live c).drop count)) :
    ∃ flight' : Flight cqOf,
      flight'.live =
        Function.update flight.live c ((flight.live c).drop count) ∧
      Core flight' (Function.update settled c
          (settled c ++ (flight.live c).take count))
        (w.setNode c node) (Function.update cursor c (cursor c - count)) := by
  have few := core.length_le c
  have within : count ≤ (flight.live c).length :=
    ahead.trans (core.pending c).few
  obtain ⟨flight', live, held, views⟩ := flight.exists_settle c within
  have aheads : (fun other => ((w.setNode c node).nodes other).ahead) =
      Function.update (fun other => (w.nodes other).ahead) c
        ((w.nodes c).ahead - count) := by
    funext other
    rw [World.setNode]
    by_cases one : other = c
    · subst one
      simp only [Function.update_self, less]
    · simp only [Function.update_of_ne one]
  have lengths : (fun other => (flight'.live other).length) =
      Function.update (fun other => (flight.live other).length) c
        ((flight.live c).length - count) := by
    funext other
    rw [live]
    by_cases one : other = c
    · subst one
      simp only [Function.update_self, List.length_drop]
    · simp only [Function.update_of_ne one]
  refine ⟨flight', live, ⟨core.kernel.coherent, ?_, ?_, core.kernel.sound, ?_⟩,
    ?_, ?_, core.producers, ?_, ?_, ?_, ?_, ?_⟩
  · intro other entry member
    rw [live] at member
    by_cases one : other = c
    · subst one
      rw [Function.update_self] at member
      exact core.kernel.valid other entry (List.mem_of_mem_drop member)
    · rw [Function.update_of_ne one] at member
      exact core.kernel.valid other entry member
  · intro other
    rw [live]
    by_cases one : other = c
    · subst one
      rw [Function.update_self, Function.update_self,
        sub_ofNat_sub _ through, List.map_drop]
      exact (core.kernel.rings other).drop (by simp; omega) (by simpa)
    · rw [Function.update_of_ne one, Function.update_of_ne one]
      exact core.kernel.rings other
  · intro calm
    rw [views cursor through]
    exact core.kernel.records calm
  · intro other
    rw [live]
    by_cases one : other = c
    · subst one
      rw [Function.update_self, Function.update_self, List.length_drop]
      exact Nat.sub_le_sub_right (core.within other) count
    · rw [Function.update_of_ne one, Function.update_of_ne one]
      exact core.within other
  · rw [aheads, views (fun other => (w.nodes other).ahead) ahead]
    exact core.mirror
  · rw [lengths, views (fun other => (flight.live other).length) within]
    exact core.owed
  · exact fun other => (core.most other).mono held
  · intro other
    rw [live]
    by_cases one : other = c
    · subst one
      rw [Function.update_self, Function.update_self, List.append_assoc,
        List.take_append_drop]
      exact core.written other
    · rw [Function.update_of_ne one, Function.update_of_ne one]
      exact core.written other
  · intro other
    rw [live, World.setNode]
    by_cases one : other = c
    · subst one
      simp only [Function.update_self]
      exact pending
    · simp only [Function.update_of_ne one]
      exact core.pending other
  · intro other
    rw [live]
    by_cases one : other = c
    · subst one
      rw [Function.update_self, Function.update_self,
        sub_ofNat_sub _ through, List.length_drop, Hca.add_ofNat,
        Nat.add_sub_cancel' within]
      exact core.hardware other
    · rw [Function.update_of_ne one, Function.update_of_ne one]
      exact core.hardware other

/-- The pending completions after the oldest are dropped. -/
theorem pending_drop (core : Core flight settled w cursor) (c : Nat)
    {count : Nat} (within : count ≤ (w.nodes c).ahead) :
    Pending ((w.nodes c).drop count) ((flight.live c).drop count) := by
  obtain ⟨counted, few, same⟩ := core.pending c
  refine ⟨?_, ?_, fun offset entry small here => ?_⟩
  · rw [UserCq.drop]
    dsimp only
    rw [counted]
  · rw [List.length_drop, UserCq.drop]
    exact Nat.sub_le_sub_right few count
  · rw [List.getElem?_drop] at here
    have smaller : offset < (w.nodes c).ahead - count := small
    rw [UserCq.drop]
    dsimp only
    rw [Hca.add_ofNat]
    exact same (count + offset) entry (by omega) here

/-- The kernel has consumed entries: it alone moves. -/
theorem consumed (core : Core flight settled w cursor) {h : Device}
    {c count : Nat} (consumes : Consumes flight w.context w.device h cursor c
      count) (few : cursor c + count ≤ (flight.live c).length) :
    Core flight settled { w with device := h }
      (Function.update cursor c (cursor c + count)) := by
  refine ⟨consumes.kernel, fun other => ?_, core.mirror, fun calm q send => ?_,
    core.owed, core.most, core.written, core.pending, fun other => ?_⟩
  · by_cases one : other = c
    · rw [one, Function.update_self]
      exact few
    · rw [Function.update_of_ne one]
      exact core.within other
  · have same := congrFun consumes.producers (q, send)
    rw [consumes.quarantined] at calm
    exact (core.producers calm q send).trans same.symm
  · have consumer : (h.cqs other).consumer = _ :=
      congrFun consumes.consumers other
    rw [consumer]
    by_cases one : other = c
    · subst one
      rw [Function.update_self, Function.update_self]
      rw [add_sub_ofNat]
      exact core.hardware other
    · rw [Function.update_of_ne one, Function.update_of_ne one]
      exact core.hardware other

/-- An entry that the kernel has consumed is decoded: it is settled without ever
being pending. -/
theorem verify (core : Core flight settled w cursor) {c : Nat} {entry : Entry}
    (level : (w.nodes c).ahead = 0) (through : 1 ≤ cursor c)
    (next : (flight.live c)[0]? = some entry) {context : Context}
    (ledger : context.ledger = (flight.view (Function.update
      (fun c => (w.nodes c).ahead) c ((w.nodes c).ahead + 1))))
    (coherent : ∀ h, Coherent cqOf h w.context → Coherent cqOf h context)
    (producers : ∀ q send, ((context.qps q).side send).producer =
      ((w.context.qps q).side send).producer) :
    ∃ flight' : Flight cqOf,
      flight'.live = Function.update flight.live c ((flight.live c).drop 1) ∧
      Core flight' (Function.update settled c (settled c ++ [entry]))
        { w with context := context }
        (Function.update cursor c (cursor c - 1)) := by
  have reported := core.report (level ▸ next) ledger coherent producers
  have node : (w.report c (completionOf entry.cqe entry.record false)
      context).nodes c = { w.nodes c with
        pending := Function.update (w.nodes c).pending
          (slotOf ((w.nodes c).pendingHead +
            UInt32.ofNat (w.nodes c).pendingCount))
          (completionOf entry.cqe entry.record false)
        pendingCount := (w.nodes c).pendingCount + 1
        ahead := (w.nodes c).ahead + 1 } := by
    simp [World.report, World.setNode]
  obtain ⟨counted, -, -⟩ := core.pending c
  have nothing : Pending (w.nodes c) ((flight.live c).drop 1) :=
    ⟨counted, level ▸ Nat.zero_le _, fun offset found small =>
      absurd small (by omega)⟩
  obtain ⟨flight', live, after⟩ := reported.settle through
    (by rw [node]; exact Nat.le_add_left _ _) (by rw [node]; rfl) nothing
  refine ⟨flight', live, ?_⟩
  have first : (flight.live c).take 1 = [entry] := by
    cases entries : flight.live c with
    | nil => simp [entries] at next
    | cons head rest =>
        rw [entries] at next
        simpa using next
  rw [first] at after
  refine after.congr rfl rfl rfl rfl rfl fun other => ?_
  simp only [World.report, World.setNode]
  by_cases one : other = c
  · simp [one]
  · simp [Function.update_of_ne one]

/-! ## The device writes an entry -/

/-- What a correct device writes: a completion of a request it owes, on the ring
that the request completes on, published at its place there. -/
structure Writes (cqOf : Nat → Bool → Nat) (w : World) (c : Nat)
    (entry : Entry) : Prop where
  created : (w.device.cqs c).object.live = true
  valid : Valid w.device entry
  lane : laneOf cqOf entry.key = c
  owed : w.owed entry.key = some entry.record
  published : entry.cqe.published (w.hardware c) = true

theorem write (core : Core flight settled w cursor) {c : Nat} {entry : Entry}
    (writes : Writes cqOf w c entry) :
    ∃ flight' : Flight cqOf,
      flight'.live = Function.update flight.live c
        (flight.live c ++ [entry]) ∧
      Core flight' settled (w.write c entry) cursor := by
  have few := core.length_le c
  have holds : flight.view (fun c => (flight.live c).length) entry.key =
      some entry.record := by
    rw [← core.owed]
    exact writes.owed
  -- the device works through its entry as it writes it
  have lengths : (fun other => (((flight.append c entry writes.lane
      holds).live) other).length) = Function.update
        (fun other => (flight.live other).length) c
        ((flight.live c).length + 1) := by
    funext other
    rw [Log.live_append]
    by_cases one : other = c
    · subst one
      simp
    · simp [Function.update_of_ne one]
  have longer : ∀ other, (flight.live other).length ≤
      (((flight.append c entry writes.lane holds).live) other).length := by
    intro other
    rw [Log.live_append]
    by_cases one : other = c
    · subst one
      simp
    · simp [Function.update_of_ne one]
  have last : ((flight.append c entry writes.lane holds).live c)[
      (flight.live c).length]? = some entry := by
    simp
  refine ⟨flight.append c entry writes.lane holds, rfl,
    ⟨⟨core.kernel.coherent.kernelSides, core.kernel.coherent.userSides,
      core.kernel.coherent.found⟩, ?_, fun other => ?_,
      core.kernel.sound.quiet (Device.Quiet.setCq _ rfl rfl rfl),
      fun calm => ?_⟩,
    fun other => (core.within other).trans (longer other), ?_, core.producers,
    ?_, core.most, fun other => ?_, fun other => ?_, fun other => ?_⟩
  · intro other one member
    rw [Log.live_append] at member
    by_cases mine : other = c
    · subst mine
      rw [Function.update_self, List.mem_append, List.mem_singleton] at member
      rcases member with early | rfl
      · exact (core.kernel.valid other one early).of_index rfl
      · exact writes.valid.of_index rfl
    · rw [Function.update_of_ne mine] at member
      exact (core.kernel.valid other one member).of_index rfl
  · rw [Log.live_append, World.write]
    dsimp only
    rw [Device.cqs_setCq]
    by_cases mine : other = c
    · subst mine
      rw [Function.update_self, Function.update_self, core.hardware,
        List.map_append, List.map_singleton]
      have room : ((flight.live other).map Entry.cqe).length < 32 := by
        rw [List.length_map]
        omega
      have published := writes.published
      rw [core.hardware, ← List.length_map Entry.cqe] at published
      refine ⟨fun _ => writes.created, fun _ => writes.created, fun created => ?_⟩
      have appended := ((core.kernel.rings other).holds created).append room
        published
      rwa [List.length_map] at appended
    · rw [Function.update_of_ne mine, Function.update_of_ne mine]
      exact core.kernel.rings other
  · rw [flight.view_append writes.lane holds (core.within c)]
    exact core.kernel.records calm
  · have seen : (flight.append c entry writes.lane holds).view
        (fun c => (w.nodes c).ahead) = _ :=
      flight.view_append writes.lane holds (core.pending c).few
    exact core.mirror.trans seen.symm
  · have seen : (flight.append c entry writes.lane holds).view
        (fun c => (flight.live c).length) = _ :=
      flight.view_append writes.lane holds (Nat.le_refl _)
    have advanced : _ = Function.update
        ((flight.append c entry writes.lane holds).view
          fun c => (flight.live c).length) entry.key none :=
      (flight.append c entry writes.lane holds).view_advance last
    rw [seen, ← core.owed, ← lengths] at advanced
    exact advanced.symm
  · rw [Log.live_append, World.write]
    dsimp only
    by_cases mine : other = c
    · subst mine
      rw [Function.update_self, Function.update_self, core.written,
        List.append_assoc]
    · rw [Function.update_of_ne mine, Function.update_of_ne mine]
      exact core.written other
  · obtain ⟨counted, few', same⟩ := core.pending other
    refine ⟨counted, few'.trans (longer other), fun offset found small here => ?_⟩
    have smaller : offset < (w.nodes other).ahead := small
    refine same offset found small ?_
    rw [Log.live_append] at here
    by_cases mine : other = c
    · subst mine
      rwa [Function.update_self, List.getElem?_append_left (by omega)] at here
    · rwa [Function.update_of_ne mine] at here
  · rw [Log.live_append, World.write]
    dsimp only
    rw [Device.cqs_setCq]
    by_cases mine : other = c
    · subst mine
      rw [Function.update_self, Function.update_self, Function.update_self,
        core.hardware, List.length_append, List.length_singleton,
        ← Hca.add_ofNat]
      rfl
    · rw [Function.update_of_ne mine, Function.update_of_ne mine,
        Function.update_of_ne mine]
      exact core.hardware other

/-! ## A list is posted -/

/-- The part of a list that the kernel refuses does not reach over the wrap of
the producer index, where `mcdma_user_queue_rollback` stops and would leave
records of requests that were never posted. -/
def Inside {Wr : Type} (w : World)
    (entry : Wr → Option (UInt64 × UInt8 × UInt32))
    (one : Device → Grant → Wr → Option Errno × Device) (command : Command)
    (p : Post) (wrs : List Wr) : Prop :=
  let side := (w.context.qps p.qp).side p.isSend
  let answer := kernelPost one w.device p.qp command wrs
  ∀ offset, accepted wrs.length answer.1 answer.2.1 < offset →
    offset ≤ (recordAll entry side wrs).2 →
    side.producer + UInt32.ofNat offset ≠ 0

/-- What the mirror keeps of a list is what recording the accepted part does. -/
theorem queue_attempt {Wr : Type}
    {entry : Wr → Option (UInt64 × UInt8 × UInt32)} {side : UserQueue}
    {wrs : List Wr} {kept : Nat} (few : kept ≤ (recordAll entry side wrs).2)
    (inside : ∀ offset, kept < offset → offset ≤ (recordAll entry side wrs).2 →
      side.producer + UInt32.ofNat offset ≠ 0) :
    (if kept < (recordAll entry side wrs).2 then
      (recordAll entry side wrs).1.rollback
        ((recordAll entry side wrs).2 - kept)
      else (recordAll entry side wrs).1) =
      (recordAll entry side (wrs.take kept)).1 := by
  have sum : kept + ((recordAll entry side wrs).2 - kept) =
      (recordAll entry side wrs).2 := Nat.add_sub_cancel' few
  split
  · exact rollback_recordAll wrs _ sum fun offset low high =>
      inside offset low (sum ▸ high)
  · next all =>
      have whole : kept = (recordAll entry side wrs).2 :=
        Nat.le_antisymm few (Nat.le_of_not_lt all)
      rw [whole, recordAll_all]

/-- An attempt that the mirror has recorded as much of as the kernel accepts. -/
theorem attempt_eq {Wr : Type}
    {entry : Wr → Option (UInt64 × UInt8 × UInt32)}
    {one : Device → Grant → Wr → Option Errno × Device} {command : Command}
    {p : Post} {wrs : List Wr} (number : Nat)
    (inside : Inside w entry one command p wrs) :
    let side := (w.context.qps p.qp).side p.isSend
    let answer := kernelPost one w.device p.qp command wrs
    let kept := accepted wrs.length answer.1 answer.2.1
    kept ≤ (recordAll entry side wrs).2 →
    ∃ call, w.attempt entry one command p wrs number =
      { w with
        device := answer.2.2
        context := w.context.setSide p.qp p.isSend
          (recordAll entry side (wrs.take kept)).1
        owed := Log.fill w.owed (puts entry p.qp p.isSend
          (producerOf (w.device.qps p.qp) p.isSend) (wrs.take kept))
        call := call } ∧
      (call = .idle ∨ call = .ack (w.cqOf p) (.post p 1)) := by
  intro side answer kept few
  have queue := queue_attempt few inside
  have node : (if kept > (recordAll entry side wrs).2 then
      { w.nodes (w.cqOf p) with retired := true } else w.nodes (w.cqOf p)) =
        w.nodes (w.cqOf p) := if_neg (Nat.not_lt.mpr few)
  have same : w.setNode (w.cqOf p) (w.nodes (w.cqOf p)) = w := by
    rw [World.setNode, Function.update_eq_self]
  unfold World.attempt
  dsimp only
  rw [queue, node, same]
  split
  · exact ⟨_, rfl, .inl rfl⟩
  · exact ⟨_, rfl, .inr rfl⟩

theorem attempt {Wr : Type} (core : Core flight settled w cursor)
    (level : ∀ c, cursor c = 0)
    {entry : Wr → Option (UInt64 × UInt8 × UInt32)}
    {one : Device → Grant → Wr → Option Errno × Device} {command : Command}
    {p : Post} {wrs : List Wr} (number : Nat)
    (does : ∀ wr ∈ wrs, ∀ h grant,
      Does h (one h grant wr) (entry wr) p.qp p.isSend)
    (inside : Inside w entry one command p wrs) :
    ∃ flight' : Flight cqOf, flight'.live = flight.live ∧
      Core flight' settled (w.attempt entry one command p wrs number) cursor ∧
      (w.attempt entry one command p wrs number).nodes = w.nodes ∧
      (w.attempt entry one command p wrs number).handed = w.handed ∧
      ((w.attempt entry one command p wrs number).call = .idle ∨
        (w.attempt entry one command p wrs number).call =
          .ack (w.cqOf p) (.post p 1)) := by
  have records : w.device.quarantined = false →
      kernelLedger w.device = flight.held := fun calm =>
    (core.kernel.records calm).trans (flight.view_zero level)
  have follows : w.device.quarantined = false →
      Follows ((w.context.qps p.qp).side p.isSend) w.device p.qp p.isSend := by
    intro calm
    refine ⟨core.producers calm p.qp p.isSend, fun slot holds => ?_⟩
    rw [records calm]
    have seen : (flight.view (fun c => (w.nodes c).ahead)
        (p.qp, p.isSend, slot)).isSome = true := by
      rw [← core.mirror]
      exact holds
    exact flight.view_isSome seen
  have zero : w.device.quarantined = true → accepted wrs.length
      (kernelPost one w.device p.qp command wrs).1
      (kernelPost one w.device p.qp command wrs).2.1 = 0 := by
    intro lost
    rw [kernelPost]
    split
    · rfl
    · rw [if_pos (by simp [Device.ready, lost])]
      exact Nat.zero_min _
  have took := kernelPost_took flight w.device command
    ((w.context.qps p.qp).side p.isSend) wrs does records follows
  obtain ⟨call, whole, calls⟩ := attempt_eq number inside took.1
  rw [whole]
  dsimp only at took zero ⊢
  generalize accepted wrs.length (kernelPost one w.device p.qp command wrs).1
    (kernelPost one w.device p.qp command wrs).2.1 = kept at took zero ⊢
  generalize (kernelPost one w.device p.qp command wrs).2.2 = h' at took ⊢
  obtain ⟨few, same, consumers, sound, flight', live, held, views, most,
    final⟩ := took
  refine ⟨flight', live, ?_, rfl, rfl, calls⟩
  have part := recordAll_take wrs few
  -- both sides name the accepted requests from the same producer index on
  have made : puts entry p.qp p.isSend
      ((w.context.qps p.qp).side p.isSend).producer (wrs.take kept) =
        puts entry p.qp p.isSend (producerOf (w.device.qps p.qp) p.isSend)
          (wrs.take kept) := by
    cases calm : w.device.quarantined with
    | false => rw [core.producers calm]
    | true => rw [zero calm, List.take_zero, puts, puts]
  have ledger := @ledger_recordAll Wr entry w.context p.qp p.isSend
    (wrs.take kept)
  rw [part, List.take_take, Nat.min_self, made] at ledger
  have before : h'.quarantined = false → w.device.quarantined = false := by
    intro calm
    rcases final with lost | ⟨-, -, same⟩
    · rw [lost] at calm
      cases calm
    · exact same ▸ calm
  have coherent := (core.kernel.coherent.kept same).setSide p.qp p.isSend
    (recordAll entry ((w.context.qps p.qp).side p.isSend) (wrs.take kept)).1
  have consumer : ∀ c, (h'.cqs c).consumer = (w.device.cqs c).consumer :=
    congrFun consumers
  refine ⟨⟨coherent, fun c one member => ?_, fun c => ?_,
    sound core.kernel.sound, fun calm => ?_⟩, fun c => ?_, ?_,
    fun calm q send => ?_, ?_, ?_, fun c => ?_, fun c => ?_, fun c => ?_⟩
  · rw [live] at member
    exact (core.kernel.valid c one member).of_index same.index
  · rw [live]
    dsimp only
    rw [consumer]
    exact (core.kernel.rings c).congr (same.created c) (same.live c ▸ id)
      (same.ring c)
  · rcases final with lost | ⟨filled, -, -⟩
    · rw [lost] at calm
      cases calm
    · exact filled.trans (flight'.view_zero level).symm
  · rw [live]
    exact core.within c
  · rw [views, ← core.mirror]
    exact ledger
  · rcases final with lost | ⟨-, producers, -⟩
    · rw [lost] at calm
      cases calm
    · have here := congrFun producers (q, send)
      have old := core.producers (before calm)
      refine Eq.trans ?_ here.symm
      rw [Context.qps_setSide]
      by_cases one : q = p.qp
      · subst one
        rw [Function.update_self, side_withSide]
        by_cases two : send = p.isSend
        · subst two
          rw [if_pos rfl, Function.update_self, producer_recordAll, part, old]
        · rw [if_neg two, Function.update_of_ne (by simp [two])]
          exact old _ _
      · rw [Function.update_of_ne one, Function.update_of_ne (by simp [one])]
        exact old _ _
  · rw [live, views, ← core.owed]
  · exact most core.kernel.sound core.kernel.coherent.bounded core.most
  · rw [live]
    exact core.written c
  · rw [live]
    exact core.pending c
  · rw [live]
    dsimp only
    rw [consumer]
    exact core.hardware c

end Core

end Mirror
end Mcdma
