import Mcdma.Mirror.Rings

/-!
# The kernel and the mirror as followers of one log

The completions the device has written and that one of the two sides has not
worked through are the log.  The kernel works through it when it consumes, the
mirror when it reports, and both make the same completion of an entry.
-/

namespace Mcdma
namespace Mirror

open Hca (Cqe Device HardwareQp slotOf slotOfCounter window)

/-- The completion queue a request completes on, given that of each side of each
queue pair. -/
def laneOf (cqOf : Nat → Bool → Nat) (spot : Key) : Nat := cqOf spot.1 spot.2.1

/-- The completions in flight. -/
abbrev Flight (cqOf : Nat → Bool → Nat) :=
  Log (laneOf cqOf) Entry.key Entry.record

/-- The process and the kernel have the same queue pairs under the same numbers,
on the same completion queues, and the kernel posts for them. -/
structure Coherent (cqOf : Nat → Bool → Nat) (h : Device) (mc : Context) :
    Prop where
  kernelSides : ∀ q send, (h.qps q).cqOf send = cqOf q send
  userSides : ∀ q send, (mc.qps q).cqOf send = cqOf q send
  found : ∀ qpn q, h.index.find qpn = some q →
    mc.lookupQp qpn = some q ∧ (mc.qps q).userPosted = false ∧
      (h.qps q).userPosted = false ∧ (h.qps q).clientContext.isSome = true

theorem Coherent.kept {cqOf : Nat → Bool → Nat} {h h' : Device} {mc : Context}
    (coherent : Coherent cqOf h mc) (kept : Kept h h') :
    Coherent cqOf h' mc where
  kernelSides := fun q send =>
    (kept.cqOf q send).trans (coherent.kernelSides q send)
  userSides := coherent.userSides
  found := fun qpn q found => by
    rw [kept.userPosted, kept.clientContext]
    exact coherent.found qpn q (kept.index ▸ found)

theorem lookupQp_setSide (mc : Context) (q : Nat) (send : Bool)
    (queue : UserQueue) (qpn : UInt32) :
    (mc.setSide q send queue).lookupQp qpn = mc.lookupQp qpn := by
  have same : ∀ other, ((mc.setSide q send queue).qps other).num =
      (mc.qps other).num ∧
        ((mc.setSide q send queue).qps other).kernelDestroyed =
          (mc.qps other).kernelDestroyed := by
    intro other
    rw [Context.qps_setSide]
    by_cases one : other = q
    · rw [one, Function.update_self]
      cases send <;> exact ⟨rfl, rfl⟩
    · rw [Function.update_of_ne one]
      exact ⟨rfl, rfl⟩
  simp only [Context.lookupQp, Context.table_setSide, same]

theorem Coherent.setSide {cqOf : Nat → Bool → Nat} {h : Device} {mc : Context}
    (coherent : Coherent cqOf h mc) (q : Nat) (send : Bool)
    (queue : UserQueue) : Coherent cqOf h (mc.setSide q send queue) := by
  have same : ∀ other, (∀ side, ((mc.setSide q send queue).qps other).cqOf
      side = (mc.qps other).cqOf side) ∧
        ((mc.setSide q send queue).qps other).userPosted =
          (mc.qps other).userPosted := by
    intro other
    rw [Context.qps_setSide]
    by_cases one : other = q
    · rw [one, Function.update_self]
      cases send <;> exact ⟨fun side => rfl, rfl⟩
    · rw [Function.update_of_ne one]
      exact ⟨fun side => rfl, rfl⟩
  refine ⟨coherent.kernelSides, fun other side => ?_, fun qpn other found => ?_⟩
  · rw [(same other).1]
    exact coherent.userSides other side
  · rw [lookupQp_setSide, (same other).2]
    exact coherent.found qpn other found

/-- The accounts bound what is outstanding on a completion queue. -/
theorem Coherent.bounded {cqOf : Nat → Bool → Nat} {h : Device} {mc : Context}
    (coherent : Coherent cqOf h mc) : Bounded (laneOf cqOf) h := by
  intro h' kept sound calm c keys nodup all
  have accounts := sound.resolve_left (by simp [calm])
  refine (length_le_load accounts.listing nodup fun spot member => ?_).trans
    (accounts.counted c).bounded
  obtain ⟨lane, held⟩ := all spot member
  refine ⟨?_, held⟩
  rw [(coherent.kept kept).kernelSides]
  exact lane

/-! ## The mirror -/

/-- The mirror decodes the next entry it has not worked through. -/
theorem userDecode_next {mc : Context} {entry : Entry}
    (can : decodable entry.cqe = true)
    (found : mc.lookupQp entry.cqe.qpn = some entry.q)
    (posted : (mc.qps entry.q).userPosted = false)
    (held : mc.ledger entry.key = some entry.record)
    (same : entry.record.counter = entry.cqe.counter) :
    ∃ rest, userDecode mc entry.cqe =
        some (completionOf entry.cqe entry.record false,
          mc.setSide entry.q (sendSide entry.cqe) rest) ∧
      (mc.setSide entry.q (sendSide entry.cqe) rest).ledger =
        Function.update mc.ledger entry.key none ∧
      rest.producer =
        ((mc.qps entry.q).side (sendSide entry.cqe)).producer := by
  cases took : ((mc.qps entry.q).side (sendSide entry.cqe)).complete
      entry.cqe.counter with
  | none =>
      have differs := UserQueue.complete_eq_none_iff.mp took _ held
      exact absurd same differs
  | some taken =>
      obtain ⟨record, rest⟩ := taken
      obtain ⟨mine, -, producer, cleared⟩ :=
        UserQueue.complete_eq_some_iff.mp took
      have one : record = entry.record := Option.some.inj (mine.symm.trans held)
      refine ⟨rest, ?_, ledger_setSide cleared, producer⟩
      rw [userDecode, if_neg (by simp [can]), found, Option.bind_some]
      simp only [took, Option.map_some, one, posted]

/-! ## The kernel -/

section

variable {cqOf : Nat → Bool → Nat}

/-- Each entry in flight is a completion of the request it names. -/
structure Valid (h : Device) (entry : Entry) : Prop where
  can : decodable entry.cqe = true
  found : h.index.find entry.cqe.qpn = some entry.q
  counter : entry.record.counter = entry.cqe.counter

theorem Valid.of_index {h h' : Device} {entry : Entry} (valid : Valid h entry)
    (same : h'.index = h.index) : Valid h' entry :=
  ⟨valid.can, same ▸ valid.found, valid.counter⟩

/-- The kernel as a follower that has worked through a number of entries of each
ring; what is in flight starts that many places before its consumer index. -/
structure Kernel (flight : Flight cqOf) (mc : Context) (h : Device)
    (cursor : Nat → Nat) : Prop where
  coherent : Coherent cqOf h mc
  valid : ∀ c, ∀ entry ∈ flight.live c, Valid h entry
  rings : ∀ c, Ring (h.cqs c)
    ((h.cqs c).consumer - UInt32.ofNat (cursor c))
    ((flight.live c).map Entry.cqe)
  sound : h.Sound
  records : h.quarantined = false → kernelLedger h = flight.view cursor

variable {flight : Flight cqOf} {mc : Context} {h : Device}
  {cursor : Nat → Nat}

theorem Kernel.kept {h' : Device} (kernel : Kernel flight mc h cursor)
    (kept : Kept h h') (consumers : consumed h' = consumed h)
    (sound : h'.Sound)
    (records : h'.quarantined = false → kernelLedger h' = flight.view cursor) :
    Kernel flight mc h' cursor where
  coherent := kernel.coherent.kept kept
  valid := fun c entry member =>
    (kernel.valid c entry member).of_index kept.index
  rings := fun c => by
    have same : (h'.cqs c).consumer = (h.cqs c).consumer :=
      congrFun consumers c
    rw [same]
    exact (kernel.rings c).congr (kept.created c) (kept.live c ▸ id)
      (kept.ring c)
  sound := sound
  records := records

theorem ready_iff : h.ready = true ↔
    h.quarantined = false ∧ h.inactive = false := by
  simp [Device.ready]

/-- The kernel has consumed so many more entries of one ring. -/
structure Consumes (flight : Flight cqOf) (mc : Context) (h h' : Device)
    (cursor : Nat → Nat) (c count : Nat) : Prop where
  kernel : Kernel flight mc h' (Function.update cursor c (cursor c + count))
  kept : Kept h h'
  producers : produced h' = produced h
  quarantined : h'.quarantined = h.quarantined
  consumers : consumed h' = Function.update (consumed h) c
    (consumed h c + UInt32.ofNat count)

theorem Consumes.zero (kernel : Kernel flight mc h cursor) (c : Nat) :
    Consumes flight mc h h cursor c 0 := by
  refine ⟨?_, .refl h, rfl, rfl, ?_⟩
  · rw [Nat.add_zero, Function.update_eq_self]
    exact kernel
  · rw [show UInt32.ofNat 0 = 0 from rfl, UInt32.add_zero,
      Function.update_eq_self]

theorem Consumes.trans {h' h'' : Device} {c first second : Nat}
    (one : Consumes flight mc h h' cursor c first)
    (two : Consumes flight mc h' h''
      (Function.update cursor c (cursor c + first)) c second) :
    Consumes flight mc h h'' cursor c (first + second) := by
  refine ⟨?_, one.kept.trans two.kept, two.producers.trans one.producers,
    two.quarantined.trans one.quarantined, ?_⟩
  · have kernel := two.kernel
    rwa [Function.update_self, Function.update_idem, Nat.add_assoc] at kernel
  · rw [two.consumers, one.consumers, Function.update_self,
      Function.update_idem, Hca.add_ofNat]

/-- The kernel consumes the next entry it has not worked through. -/
theorem Kernel.consume (kernel : Kernel flight mc h cursor)
    (ready : h.ready = true) {c : Nat} {entry : Entry}
    (few : (flight.live c).length ≤ 32)
    (next : (flight.live c)[cursor c]? = some entry) :
    (pollOne h c).1 = .ok (some entry.wc) ∧
      Consumes flight mc h (pollOne h c).2 cursor c 1 := by
  obtain ⟨calm, -⟩ := ready_iff.mp ready
  obtain ⟨below, here⟩ := List.getElem?_eq_some_iff.mp next
  have member : entry ∈ flight.live c := here ▸ List.getElem_mem below
  obtain ⟨can, found, counter⟩ := kernel.valid c entry member
  obtain ⟨-, -, posted, owned⟩ := kernel.coherent.found _ _ found
  have place : (h.cqs c).consumer - UInt32.ofNat (cursor c) +
      UInt32.ofNat (cursor c) = (h.cqs c).consumer := UInt32.sub_add_cancel _ _
  have small : cursor c < 32 := by omega
  have listed : ((flight.live c).map Entry.cqe)[cursor c]? =
      some entry.cqe := by
    rw [List.getElem?_map, next, Option.map_some]
  obtain ⟨same, published⟩ := (kernel.rings c).get small listed
  rw [place] at published
  rw [window, place] at same
  have accounts := kernel.sound.resolve_left (by simp [calm])
  obtain ⟨lane, -⟩ := flight.logged c entry member
  have serves : (h.qps entry.q).cqOf (sendSide entry.cqe) = c := by
    rw [kernel.coherent.kernelSides]
    exact lane
  have held : kernelLedger h entry.key = some entry.record := by
    rw [kernel.records calm]
    exact flight.view_next next
  obtain ⟨reports, effect⟩ := poll_entry accounts ready same published can
    found serves posted owned held counter
  have sound : (pollOne h c).2.Sound := by
    have polled := Device.poll_sound kernel.sound c
    rw [pollOne]
    split
    · exact polled
    · split
      · exact polled
      · split
        · exact .inl rfl
        · exact polled
  refine ⟨reports, ⟨kernel.coherent.kept effect.kept, ?_, fun other => ?_,
    sound, fun _ => ?_⟩, effect.kept, effect.producers, effect.quarantined,
    effect.consumers⟩
  · exact fun other one member =>
      (kernel.valid other one member).of_index effect.kept.index
  · have consumer : ((pollOne h c).2.cqs other).consumer = _ :=
      congrFun effect.consumers other
    rw [consumer]
    refine Ring.congr ?_ (effect.kept.created other)
      (effect.kept.live other ▸ id) (effect.kept.ring other)
    by_cases mine : other = c
    · subst mine
      have base : consumed h other + 1 - UInt32.ofNat (cursor other + 1) =
          (h.cqs other).consumer - UInt32.ofNat (cursor other) :=
        add_sub_ofNat _ _ 1
      rw [Function.update_self, Function.update_self, base]
      exact kernel.rings other
    · rw [Function.update_of_ne mine, Function.update_of_ne mine]
      exact kernel.rings other
  · rw [effect.records, kernel.records calm]
    exact (flight.view_advance next).symm

/-- It consumes nothing where nothing is published. -/
theorem pollOne_nothing {c : Nat}
    (empty : (h.cqs c).object.live = true →
      ((h.cqs c).entry (h.cqs c).consumer).published
        (h.cqs c).consumer = false) :
    (pollOne h c).2 = h ∧
      ((pollOne h c).1 = .ok none ∨ (pollOne h c).1 = .error ()) := by
  by_cases can : (h.cqs c).object.live = true ∧ h.ready = true
  · rw [poll_empty can.1 can.2 (empty can.1)]
    exact ⟨rfl, .inl rfl⟩
  · have polled : h.poll c =
        (Hca.Polled.nothing .unsupported ⟨0, 0, 0, 0, 0, 0, 0⟩, h) := by
      rw [Device.poll, if_pos]
      simp only [Bool.or_eq_true, Bool.not_eq_true', ← Bool.not_eq_true]
      exact not_and_or.mp can
    rw [pollOne, polled]
    exact ⟨rfl, .inr rfl⟩

/-- What the rest of a lane is after one more entry. -/
private theorem drop_next {entries : List Entry} {spot : Nat} {entry : Entry}
    (next : entries[spot]? = some entry) :
    entries.drop spot = entry :: entries.drop (spot + 1) := by
  obtain ⟨below, here⟩ := List.getElem?_eq_some_iff.mp next
  rw [List.drop_eq_getElem_cons below, here]

/-- The loop of the kernel's poll consumes as many entries as it was asked for,
or all there are. -/
theorem Kernel.consumeAll (kernel : Kernel flight mc h cursor)
    (ready : h.ready = true) {c : Nat}
    (few : (flight.live c).length < 32)
    (within : cursor c ≤ (flight.live c).length) (left : Nat)
    (out : List Wc) :
    Consumes flight mc h (pollLoop h c left out).2 cursor c
        (min left ((flight.live c).drop (cursor c)).length) ∧
      ((pollLoop h c left out).1 = .ok (out ++
          (((flight.live c).drop (cursor c)).take left).map Entry.wc) ∨
        (pollLoop h c left out).1 = .error () ∧ out = [] ∧
          (flight.live c).drop (cursor c) = []) := by
  induction left generalizing h cursor out with
  | zero =>
      refine ⟨?_, .inl ?_⟩
      · rw [Nat.zero_min]
        exact .zero kernel c
      · simp [pollLoop]
  | succ left inductionHypothesis =>
      cases next : (flight.live c)[cursor c]? with
      | none =>
          have all : cursor c = (flight.live c).length :=
            Nat.le_antisymm within (List.getElem?_eq_none_iff.mp next)
          have empty : (flight.live c).drop (cursor c) = [] := by
            rw [all, List.drop_length]
          obtain ⟨same, result⟩ := pollOne_nothing (h := h) (c := c)
            fun created => by
              have ends := ((kernel.rings c).holds created).ends
                (by simpa using few)
              rwa [List.length_map, ← all, UInt32.sub_add_cancel, window,
                UInt32.sub_add_cancel] at ends
          rw [empty, List.length_nil, Nat.min_zero]
          cases answer : pollOne h c with
          | mk outcome after =>
              rw [answer] at same result
              have unchanged : after = h := same
              subst unchanged
              rw [pollLoop, answer]
              rcases result with fine | fails
              · have noError : outcome = .ok none := fine
                subst noError
                exact ⟨.zero kernel c, .inl (by simp)⟩
              · have noError : outcome = .error () := fails
                subst noError
                refine ⟨.zero kernel c, ?_⟩
                by_cases first : out = []
                · exact .inr ⟨if_pos first, first, rfl⟩
                · exact .inl (by simp [first])
      | some entry =>
          obtain ⟨reports, one⟩ := kernel.consume ready (by omega) next
          have below := (List.getElem?_eq_some_iff.mp next).1
          cases answer : pollOne h c with
          | mk outcome after =>
              rw [answer] at reports one
              have noError : outcome = .ok (some entry.wc) := reports
              subst noError
              have ready' : after.ready = true := by
                rw [ready_iff] at ready ⊢
                rw [one.quarantined, one.kept.inactive]
                exact ready
              obtain ⟨more, result⟩ := inductionHypothesis one.kernel ready'
                (by rw [Function.update_self]; omega) (out ++ [entry.wc])
              rw [Function.update_self] at more result
              rw [pollLoop, answer, drop_next next]
              constructor
              · rw [List.length_cons, Nat.add_min_add_right, Nat.add_comm]
                exact one.trans more
              · rcases result with fine | ⟨-, nothing, -⟩
                · left
                  rw [fine, List.take_succ_cons, List.map_cons,
                    List.append_assoc]
                  rfl
                · simp at nothing

/-- A command that polls, of a device that is not ready, does nothing. -/
theorem pollCq_idle (idle : h.ready = false) (c : Nat) {maximum : Nat}
    (nonzero : maximum ≠ 0) : pollCq h c maximum = (.error (), h) := by
  obtain ⟨left, rfl⟩ := Nat.exists_eq_succ_of_ne_zero nonzero
  have polled : h.poll c =
      (Hca.Polled.nothing .unsupported ⟨0, 0, 0, 0, 0, 0, 0⟩, h) := by
    rw [Device.poll, if_pos (by simp [idle])]
  have one : pollOne h c = (.error (), h) := by
    rw [pollOne, polled]
    rfl
  rw [pollCq, pollLoop, one]
  rfl

end

end Mirror
end Mcdma
