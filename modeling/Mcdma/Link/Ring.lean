import Mcdma.Lib.Circular
import Mcdma.Link.TakeSpec

/-!
# The receive ring

The ring of one-packet receives of `struct tb`: packets land in its slots in
order, `drain` looks for the last packet of the message at its head, and `take`
reads that message in place.  A read answers `none` unless every address it
touches belongs to the message's own bytes, so whatever reads a ring through
`Ring.msg` and gets an answer has stayed inside the message.
-/

namespace Mcdma
namespace Link

open Bytes

/-- One packet of a message as it completes: `last` for `IBV_WC_SUCCESS`. -/
structure Packet where
  bytes : List UInt8
  last : Bool
  deriving DecidableEq

/-- Every packet of a message but its last is full, and none is empty. -/
structure Packet.Shaped (packet : Packet) : Prop where
  nonempty : 1 ≤ packet.bytes.length
  small : packet.bytes.length ≤ tbPacket
  full : packet.last = false → packet.bytes.length = tbPacket

/-- The receive ring of `struct tb`: its memory, what each slot's completion
said, and the counters of slots filled, used and posted. -/
structure Ring where
  slots : Nat
  mem : Mem := fun _ => 0
  rxLen : Nat → Nat := fun _ => 0
  rxLast : Nat → Bool := fun _ => false
  filled : Nat := 0
  used : Nat := 0
  posted : Nat := 0

namespace Ring

/-- Read straight runs of the ring, if all of them belong to the message of
`bytes` bytes at slot counter `first`. -/
def readOwn (ring : Ring) (first bytes : Nat) (runs : List (Nat × Nat)) :
    Option (List UInt8) :=
  if ∀ run ∈ runs, ∀ index < run.2,
      Circular.Owns tbPacket ring.slots first bytes (run.1 + index) then
    some (runs.flatMap fun run => ring.mem.read run.1 run.2)
  else none

/-- The straight runs `copy_skip` reads. -/
def copySkipRuns (ring : Ring) (first skip len : Nat) : List (Nat × Nat) :=
  let size := ring.slots * tbPacket
  let place := (first % ring.slots * tbPacket + skip) % size
  let head := min len (size - place)
  [(place, head), (0, len - head)]

/-- The message of `count` packets and `bytes` bytes at slot counter `first`. -/
def msg (ring : Ring) (first count bytes : Nat) : Msg where
  count := count
  bytes := bytes
  peek := fun skip len => ring.readOwn first bytes
    [(first % ring.slots * tbPacket + skip, len)]
  copySkip := fun skip len =>
    ring.readOwn first bytes (ring.copySkipRuns first skip len)

/-- A packet lands in the next slot. -/
def land (ring : Ring) (packet : Packet) : Ring :=
  let slot := ring.filled % ring.slots
  { ring with
    mem := Patch.apply ring.mem ⟨slot * tbPacket, packet.bytes⟩
    rxLen := Function.update ring.rxLen slot packet.bytes.length
    rxLast := Function.update ring.rxLast slot packet.last
    filled := ring.filled + 1 }

/-- The search of `drain` for a message's last packet. -/
def scan (ring : Ring) : Nat → Nat → Nat
  | 0, place => place
  | fuel + 1, place =>
      if ring.rxLast (place % ring.slots) then place
      else scan ring fuel (place + 1)

/-- The whole message at the head of the ring, as `drain` finds it: its packets
and its bytes. -/
def next? (ring : Ring) : Option (Nat × Nat) :=
  let stop := ring.scan (ring.filled - ring.used) ring.used
  if stop = ring.filled then none
  else
    some (stop - ring.used + 1,
      (stop - ring.used) * tbPacket + ring.rxLen (stop % ring.slots))

/-- The message at the head of the ring was taken. -/
def consume (ring : Ring) (count : Nat) : Ring :=
  { ring with used := ring.used + count }

/-- `repost`: put back `n` slots. -/
def repost (ring : Ring) (n : Nat) : Ring :=
  { ring with posted := ring.posted + n }

end Ring

/-! ## Reading a message -/

/-- A message whose bytes are `content` and that answers every read inside
them. -/
structure Msg.Reads (msg : Msg) (content : List UInt8) : Prop where
  count : msg.count = packets content.length
  bytes : msg.bytes = content.length
  peek : ∀ skip len, skip + len ≤ content.length → skip + len ≤ tbPacket →
    msg.peek skip len = some (slice content skip len)
  copySkip : ∀ skip len, skip + len ≤ content.length →
    msg.copySkip skip len = some (slice content skip len)

theorem Msg.reads_ofBytes (content : List UInt8) :
    (Msg.ofBytes content).Reads content where
  count := rfl
  bytes := rfl
  peek := fun _ _ within packet => Msg.ofBytes_peek within packet
  copySkip := fun _ _ within => Msg.ofBytes_copySkip within

namespace Ring

variable {ring : Ring}

/-- A straight run inside a message is read. -/
theorem own_of_address (first skip place : Nat) {bytes len : Nat}
    (slotsPos : 0 < ring.slots) (fits : bytes ≤ ring.slots * tbPacket)
    (within : skip + len ≤ bytes)
    (straight : ∀ index < len, place + index =
      Circular.address tbPacket ring.slots first (skip + index)) :
    ∀ index < len,
      Circular.Owns tbPacket ring.slots first bytes (place + index) := by
  intro index small
  rw [straight index small]
  exact Circular.owns_address (by decide) slotsPos fits (by omega)

/-- The ring answers every read inside a message that fits it. -/
theorem msg_reads (ring : Ring) (first : Nat) {count bytes : Nat}
    (slotsPos : 0 < ring.slots) (fits : bytes ≤ ring.slots * tbPacket)
    (counted : count = packets bytes) :
    (ring.msg first count bytes).Reads
      (Circular.content tbPacket ring.slots ring.mem first bytes) where
  count := by rw [Circular.length_content]; exact counted
  bytes := (Circular.length_content _ _ _).symm
  peek := by
    intro skip len within packet
    rw [Circular.length_content] at within
    have owned := own_of_address first skip
      (first % ring.slots * tbPacket + skip) slotsPos fits within (by
        intro index small
        have inCell : skip + index < tbPacket := by omega
        rw [Circular.address, Nat.div_eq_of_lt inCell, Nat.mod_eq_of_lt inCell,
          Nat.add_zero, Nat.add_assoc])
    change ring.readOwn first bytes _ = _
    rw [readOwn, if_pos (by simpa using owned)]
    simp [Circular.read_straight ring.mem within packet]
  copySkip := by
    intro skip len within
    rw [Circular.length_content] at within
    have below : first % ring.slots * tbPacket < ring.slots * tbPacket :=
      Circular.start_lt (by decide) slotsPos first
    have sizePos : 0 < ring.slots * tbPacket := by omega
    have inRing := Nat.mod_lt (first % ring.slots * tbPacket + skip) sizePos
    have place : ∀ index, Circular.address tbPacket ring.slots first
        (skip + index) = ((first % ring.slots * tbPacket + skip) %
          (ring.slots * tbPacket) + index) % (ring.slots * tbPacket) := by
      intro index
      rw [Circular.address_eq_mod (by decide), Nat.mod_add_mod, Nat.add_assoc]
    have text := Circular.read_wrapped (by decide) slotsPos ring.mem first
      within fits
    change ring.readOwn first bytes (ring.copySkipRuns first skip len) = _
    simp only [copySkipRuns]
    generalize (first % ring.slots * tbPacket + skip) %
      (ring.slots * tbPacket) = start at *
    set head := min len (ring.slots * tbPacket - start) with headDef
    have front := own_of_address first skip start slotsPos fits
      (show skip + head ≤ bytes by omega) (by
        intro index small
        rw [place, Nat.mod_eq_of_lt (by omega)])
    have rest := own_of_address first (skip + head) 0 slotsPos fits
      (show skip + head + (len - head) ≤ bytes by omega) (by
        intro index small
        have wrapped : start + (head + index) =
            index + ring.slots * tbPacket := by omega
        rw [Nat.add_assoc, place, wrapped, Nat.add_mod_right,
          Nat.mod_eq_of_lt (by omega), Nat.zero_add])
    rw [readOwn, if_pos (by simpa using ⟨front, by simpa using rest⟩)]
    simpa using text

end Ring

/-! ## Packets in the ring -/

/-- The bytes of packets one after another. -/
def bytesOf (cells : List Packet) : List UInt8 :=
  cells.flatMap Packet.bytes

/-- The first whole message among packets, and what follows it. -/
def firstMessage : List Packet → Option (List Packet × List Packet)
  | [] => none
  | packet :: rest =>
      if packet.last then some ([packet], rest)
      else (firstMessage rest).map fun found => (packet :: found.1, found.2)

theorem firstMessage_append {cells message rest : List Packet}
    (found : firstMessage cells = some (message, rest)) :
    cells = message ++ rest := by
  induction cells generalizing message with
  | nil => simp [firstMessage] at found
  | cons packet others inductionHypothesis =>
      rw [firstMessage] at found
      split at found
      · simp only [Option.some.injEq, Prod.mk.injEq] at found
        obtain ⟨rfl, rfl⟩ := found
        rfl
      · obtain ⟨inner, same, pair⟩ := Option.map_eq_some_iff.mp found
        simp only [Prod.mk.injEq] at pair
        obtain ⟨rfl, rfl⟩ := pair
        rw [List.cons_append, ← inductionHypothesis same]

/-- A message of shaped packets has a byte and as many packets as its bytes
need. -/
theorem firstMessage_length {cells message rest : List Packet}
    (shaped : ∀ packet ∈ cells, packet.Shaped)
    (found : firstMessage cells = some (message, rest)) :
    0 < (bytesOf message).length ∧
      message.length = packets (bytesOf message).length := by
  induction cells generalizing message with
  | nil => simp [firstMessage] at found
  | cons packet others inductionHypothesis =>
      have mine := shaped packet (List.mem_cons_self ..)
      rw [firstMessage] at found
      split at found
      · simp only [Option.some.injEq, Prod.mk.injEq] at found
        obtain ⟨rfl, rfl⟩ := found
        have nonempty := mine.nonempty
        have small := mine.small
        simp only [bytesOf, List.flatMap_cons, List.flatMap_nil,
          List.append_nil, List.length_singleton]
        exact ⟨by omega, (packets_eq_one (by omega) small).symm⟩
      · next notLast =>
          obtain ⟨inner, same, pair⟩ := Option.map_eq_some_iff.mp found
          simp only [Prod.mk.injEq] at pair
          obtain ⟨rfl, rfl⟩ := pair
          have later := inductionHypothesis
            (fun packet member => shaped packet (List.mem_cons_of_mem _ member))
            same
          have full := mine.full (by simpa using notLast)
          simp only [bytesOf, List.flatMap_cons, List.length_append,
            List.length_cons, full] at later ⊢
          refine ⟨by omega, ?_⟩
          rw [later.2]
          simp only [packets, tbPacket]
          omega

namespace Ring

/-- The slots from counter `place` on hold these packets. -/
def Cells (ring : Ring) : Nat → List Packet → Prop
  | _, [] => True
  | place, packet :: rest =>
      let slot := place % ring.slots
      ring.mem.read (slot * tbPacket) packet.bytes.length = packet.bytes ∧
        ring.rxLen slot = packet.bytes.length ∧
        ring.rxLast slot = packet.last ∧ Cells ring (place + 1) rest

theorem cells_append (ring : Ring) (place : Nat) (first second : List Packet) :
    ring.Cells place (first ++ second) ↔
      ring.Cells place first ∧ ring.Cells (place + first.length) second := by
  induction first generalizing place with
  | nil => simp [Cells]
  | cons packet rest inductionHypothesis =>
      have next : place + 1 + rest.length = place + (rest.length + 1) := by
        omega
      simp only [List.cons_append, Cells, inductionHypothesis, and_assoc,
        List.length_cons, next]

/-- Counters do not move what the slots hold. -/
theorem cells_counters (ring : Ring) (used posted place : Nat)
    (cells : List Packet) :
    ({ ring with used := used, posted := posted } : Ring).Cells place cells ↔
      ring.Cells place cells := by
  induction cells generalizing place with
  | nil => exact Iff.rfl
  | cons packet rest inductionHypothesis =>
      simp only [Cells, inductionHypothesis]

/-- What the ring holds between the slots used and the slots filled. -/
structure Holds (ring : Ring) (cells : List Packet) : Prop where
  slotsPos : 0 < ring.slots
  filled : ring.filled = ring.used + cells.length
  landed : ring.filled ≤ ring.posted
  bound : ring.posted ≤ ring.used + ring.slots
  shaped : ∀ packet ∈ cells, packet.Shaped
  cells : ring.Cells ring.used cells

variable {ring : Ring} {cells message rest : List Packet}

/-- Storing one slot leaves every other slot as it was. -/
theorem read_apply_other (memory : Mem) {slot other len : Nat}
    {bytes : List UInt8} (apart : slot ≠ other) (small : len ≤ tbPacket)
    (short : bytes.length ≤ tbPacket) :
    (Patch.apply memory ⟨other * tbPacket, bytes⟩).read (slot * tbPacket) len =
      memory.read (slot * tbPacket) len := by
  refine List.map_congr_left fun index member => ?_
  have below := List.mem_range.mp member
  apply Patch.apply_of_not_covers
  simp only [Patch.Covers, Patch.stop, tbPacket] at *
  omega

theorem read_apply_same (memory : Mem) (place : Nat) (bytes : List UInt8) :
    (Patch.apply memory ⟨place, bytes⟩).read place bytes.length = bytes := by
  apply List.ext_getElem
  · simp
  · intro index left right
    simp only [Mem.read, List.getElem_map, List.getElem_range]
    rw [Patch.apply_of_covers (by simp only [Patch.Covers, Patch.stop]; omega)]
    simp [right]

/-- A packet lands without touching the packets before it. -/
theorem Cells.land {place : Nat} {packet : Packet}
    (holds : ring.Cells place cells)
    (shaped : ∀ packet ∈ cells, packet.Shaped)
    (short : packet.bytes.length ≤ tbPacket)
    (before : place + cells.length ≤ ring.filled)
    (near : ring.filled < place + ring.slots) :
    (ring.land packet).Cells place cells := by
  induction cells generalizing place with
  | nil => trivial
  | cons first others inductionHypothesis =>
      rw [List.length_cons] at before
      obtain ⟨text, len, last, onward⟩ := holds
      have apart : place % ring.slots ≠ ring.filled % ring.slots :=
        Circular.slot_ne (by omega) near
      refine ⟨?_, ?_, ?_, inductionHypothesis onward
        (fun packet member => shaped packet (List.mem_cons_of_mem _ member))
        (by omega) (by omega)⟩
      · exact (read_apply_other ring.mem apart
          (shaped first (List.mem_cons_self ..)).small short).trans text
      · exact (Function.update_of_ne apart _ _).trans len
      · exact (Function.update_of_ne apart _ _).trans last

/-- A shaped packet lands in a posted slot behind the others. -/
theorem Holds.land {packet : Packet} (holds : ring.Holds cells)
    (room : ring.filled < ring.posted) (shaped : packet.Shaped) :
    (ring.land packet).Holds (cells ++ [packet]) where
  slotsPos := holds.slotsPos
  filled := by
    change ring.filled + 1 = ring.used + _
    rw [holds.filled, List.length_append, List.length_singleton, Nat.add_assoc]
  landed := room
  bound := holds.bound
  shaped := by
    intro other member
    rcases List.mem_append.mp member with earlier | mine
    · exact holds.shaped other earlier
    · rw [List.mem_singleton.mp mine]
      exact shaped
  cells := by
    have bound := holds.bound
    have filled := holds.filled
    refine (cells_append _ _ _ _).mpr ⟨holds.cells.land holds.shaped
      shaped.small filled.ge (by omega), ?_⟩
    change (ring.land packet).Cells (ring.used + cells.length) [packet]
    rw [← filled]
    exact ⟨read_apply_same _ _ _, Function.update_self .., Function.update_self ..,
      trivial⟩

/-- The search stops at the last packet of the first whole message. -/
theorem scan_eq {place : Nat} (holds : ring.Cells place cells) :
    ring.scan cells.length place =
      match firstMessage cells with
      | some found => place + found.1.length - 1
      | none => place + cells.length := by
  induction cells generalizing place with
  | nil => rfl
  | cons packet others inductionHypothesis =>
      obtain ⟨-, -, last, onward⟩ := holds
      rw [List.length_cons, scan, last, firstMessage]
      by_cases isLast : packet.last = true
      · rw [if_pos isLast, if_pos isLast]
        simp
      · rw [if_neg isLast, if_neg isLast, inductionHypothesis onward]
        cases found : firstMessage others with
        | none =>
            change place + 1 + others.length = place + (others.length + 1)
            omega
        | some pair =>
            change place + 1 + pair.1.length - 1 =
              place + (pair.1.length + 1) - 1
            omega

/-- The packets of a message lie in the ring one after another. -/
theorem content_eq {place : Nat} (holds : ring.Cells place cells)
    (shaped : ∀ packet ∈ cells, packet.Shaped)
    (found : firstMessage cells = some (message, rest)) :
    Circular.content tbPacket ring.slots ring.mem place
        (bytesOf message).length = bytesOf message := by
  induction cells generalizing place message with
  | nil => simp [firstMessage] at found
  | cons packet others inductionHypothesis =>
      obtain ⟨text, -, -, onward⟩ := holds
      have mine := shaped packet (List.mem_cons_self ..)
      rw [firstMessage] at found
      split at found
      · simp only [Option.some.injEq, Prod.mk.injEq] at found
        obtain ⟨rfl, rfl⟩ := found
        simp only [bytesOf, List.flatMap_cons, List.flatMap_nil,
          List.append_nil]
        rw [Circular.content_short _ _ mine.small, text]
      · next notLast =>
          obtain ⟨inner, same, pair⟩ := Option.map_eq_some_iff.mp found
          simp only [Prod.mk.injEq] at pair
          obtain ⟨rfl, rfl⟩ := pair
          have full := mine.full (by simpa using notLast)
          have later := inductionHypothesis onward
            (fun packet member => shaped packet (List.mem_cons_of_mem _ member))
            same
          rw [full] at text
          simp only [bytesOf, List.flatMap_cons, List.length_append] at later ⊢
          rw [full, Circular.content_succ (by decide), later, text]

/-- The last packet of a message says its length. -/
theorem rxLen_last {place : Nat} (holds : ring.Cells place cells)
    (shaped : ∀ packet ∈ cells, packet.Shaped)
    (found : firstMessage cells = some (message, rest)) :
    (message.length - 1) * tbPacket +
        ring.rxLen ((place + message.length - 1) % ring.slots) =
      (bytesOf message).length := by
  induction cells generalizing place message with
  | nil => simp [firstMessage] at found
  | cons packet others inductionHypothesis =>
      obtain ⟨-, len, -, onward⟩ := holds
      have mine := shaped packet (List.mem_cons_self ..)
      rw [firstMessage] at found
      split at found
      · simp only [Option.some.injEq, Prod.mk.injEq] at found
        obtain ⟨rfl, rfl⟩ := found
        simp [bytesOf, len]
      · next notLast =>
          obtain ⟨inner, same, pair⟩ := Option.map_eq_some_iff.mp found
          simp only [Prod.mk.injEq] at pair
          obtain ⟨rfl, rfl⟩ := pair
          have full := mine.full (by simpa using notLast)
          have others' : ∀ packet ∈ others, packet.Shaped :=
            fun packet member => shaped packet (List.mem_cons_of_mem _ member)
          have later := inductionHypothesis onward others' same
          have some := (firstMessage_length others' same).2
          have least := (firstMessage_length others' same).1
          have pos : 0 < inner.1.length := by
            rw [some]
            simp only [packets, tbPacket]
            omega
          have place' : place + (inner.1.length + 1) - 1 =
              place + 1 + inner.1.length - 1 := by omega
          simp only [bytesOf, List.flatMap_cons, List.length_append,
            List.length_cons] at later ⊢
          rw [place', full, ← later, Nat.add_sub_cancel]
          simp only [tbPacket]
          omega

/-- `drain` finds the first whole message. -/
theorem Holds.next?_some (holds : ring.Holds cells)
    (found : firstMessage cells = some (message, rest)) :
    ring.next? = some (message.length, (bytesOf message).length) := by
  have whole := firstMessage_append found
  have pos : 0 < message.length := by
    have least := firstMessage_length holds.shaped found
    rw [least.2]
    simp only [packets, tbPacket]
    omega
  have filled := holds.filled
  rw [whole, List.length_append] at filled
  have fuel : ring.filled - ring.used = cells.length := by
    rw [holds.filled]
    omega
  have stop : ring.scan (ring.filled - ring.used) ring.used =
      ring.used + message.length - 1 := by
    rw [fuel, scan_eq holds.cells, found]
  have text := rxLen_last holds.cells holds.shaped found
  have first : ring.used + message.length - 1 - ring.used + 1 =
      message.length := by omega
  have before : ring.used + message.length - 1 - ring.used =
      message.length - 1 := by omega
  unfold next?
  simp only [stop]
  rw [if_neg (by omega), first, before, text]

/-- Without a whole message there is nothing to take. -/
theorem Holds.next?_none (holds : ring.Holds cells)
    (found : firstMessage cells = none) : ring.next? = none := by
  have fuel : ring.filled - ring.used = cells.length := by
    rw [holds.filled]
    omega
  have stop : ring.scan (ring.filled - ring.used) ring.used =
      ring.filled := by
    rw [fuel, scan_eq holds.cells, found, holds.filled]
  unfold next?
  simp only [stop, if_true]

/-- The message at the head of the ring reads as the bytes of its packets. -/
theorem Holds.reads (holds : ring.Holds cells)
    (found : firstMessage cells = some (message, rest)) :
    (ring.msg ring.used message.length (bytesOf message).length).Reads
      (bytesOf message) := by
  have counted := (firstMessage_length holds.shaped found).2
  have whole := firstMessage_append found
  have filled := holds.filled
  have landed := holds.landed
  have bound := holds.bound
  rw [whole, List.length_append] at filled
  have short : message.length ≤ ring.slots := by omega
  have fits : (bytesOf message).length ≤ ring.slots * tbPacket := by
    refine le_trans ?_ (Nat.mul_le_mul_right tbPacket short)
    rw [counted]
    simp only [packets, tbPacket]
    omega
  have read := ring.msg_reads ring.used holds.slotsPos fits counted
  rwa [content_eq holds.cells holds.shaped found] at read

/-- Taking the first message leaves the rest. -/
theorem Holds.consume (holds : ring.Holds cells)
    (found : firstMessage cells = some (message, rest)) :
    (ring.consume message.length).Holds rest := by
  have whole := firstMessage_append found
  subst whole
  have filled := holds.filled
  rw [List.length_append] at filled
  refine ⟨holds.slotsPos, ?_, holds.landed, ?_, ?_, ?_⟩
  · change ring.filled = ring.used + message.length + rest.length
    omega
  · have bound := holds.bound
    change ring.posted ≤ ring.used + message.length + ring.slots
    omega
  · exact fun packet member =>
      holds.shaped packet (List.mem_append_right _ member)
  · exact (cells_counters _ _ _ _ _).mpr
      ((cells_append _ _ _ _).mp holds.cells).2

/-- Slots go back to the device only behind what was used. -/
theorem Holds.repost (holds : ring.Holds cells) {n : Nat}
    (free : n ≤ ring.used + ring.slots - ring.posted) :
    (ring.repost n).Holds cells := by
  refine ⟨holds.slotsPos, holds.filled, ?_, ?_, holds.shaped,
    (cells_counters _ _ _ _ _).mpr holds.cells⟩
  · exact le_trans holds.landed (Nat.le_add_right _ _)
  · have bound := holds.bound
    change ring.posted + n ≤ ring.used + ring.slots
    omega

end Ring

/-! ## A whole message as packets -/

/-- The packets a message crosses as, given fuel for each. -/
def packetize : Nat → List UInt8 → List Packet
  | 0, _ => []
  | fuel + 1, content =>
      if content = [] then []
      else if content.length ≤ tbPacket then [⟨content, true⟩]
      else
        ⟨content.take tbPacket, false⟩ :: packetize fuel (content.drop tbPacket)

/-- The packets a message crosses as. -/
def packetsOf (content : List UInt8) : List Packet :=
  packetize content.length content

section

variable {fuel : Nat} {content : List UInt8}

theorem packetize_shaped (enough : content.length ≤ fuel) :
    ∀ packet ∈ packetize fuel content, packet.Shaped := by
  induction fuel generalizing content with
  | zero => simp [packetize]
  | succ fuel inductionHypothesis =>
      rw [packetize]
      split
      · simp
      · next nonempty =>
          split
          · next short =>
              simp only [List.mem_singleton, forall_eq]
              exact ⟨List.length_pos_of_ne_nil nonempty, short, by simp⟩
          · next long =>
              have cut : (content.take tbPacket).length = tbPacket := by
                rw [List.length_take]
                omega
              intro packet member
              rcases List.mem_cons.mp member with rfl | later
              · exact ⟨by rw [cut]; decide, cut.le, fun _ => cut⟩
              · refine inductionHypothesis ?_ packet later
                rw [List.length_drop]
                simp only [tbPacket] at *
                omega

/-- Packets put together give the message back, whatever comes behind. -/
theorem firstMessage_packetize (nonempty : content ≠ [])
    (enough : content.length ≤ fuel) (rest : List Packet) :
    firstMessage (packetize fuel content ++ rest) =
        some (packetize fuel content, rest) ∧
      bytesOf (packetize fuel content) = content := by
  induction fuel generalizing content with
  | zero =>
      exact absurd (List.length_eq_zero_iff.mp (Nat.le_zero.mp enough)) nonempty
  | succ fuel inductionHypothesis =>
      rw [packetize, if_neg nonempty]
      split
      · simp [firstMessage, bytesOf]
      · next long =>
          have more : content.drop tbPacket ≠ [] := by
            intro empty
            have short := List.drop_eq_nil_iff.mp empty
            omega
          have later := inductionHypothesis more (by
            rw [List.length_drop]
            simp only [tbPacket] at *
            omega)
          constructor
          · rw [List.cons_append, firstMessage, later.1]
            simp
          · have text := later.2
            simp only [bytesOf, List.flatMap_cons] at text ⊢
            rw [text, List.take_append_drop]

end

end Link
end Mcdma
