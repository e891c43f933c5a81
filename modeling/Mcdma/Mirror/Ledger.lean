import Mcdma.Hca.AccountRuns
import Mcdma.Lib.Follow
import Mcdma.Mirror.Decode
import Mathlib.Algebra.BigOperators.Group.Finset.Basic
import Mathlib.Algebra.Order.BigOperators.Group.Finset

/-!
# The outstanding requests as one map

A request is named by its queue pair, its side and its slot.  Under these names
the kernel's records and the mirror's are two maps, and each operation of the
kernel that a process can ask for changes the kernel's at one name.
-/

namespace Mcdma
namespace Mirror

open Hca (Cqe CqResult Completion Device HardwareQp Polled WorkQueue WorkRecord
  slotOf slotOfCounter)

/-- A queue pair, whether it is the send side, and a slot. -/
abbrev Key := Nat × Bool × Fin 32

/-- The mirror's records. -/
def Context.ledger (mc : Context) : Key → Option UserRecord := fun spot =>
  ((mc.qps spot.1).side spot.2.1).slots.records spot.2.2

theorem Context.ledger_apply (mc : Context) (q : Nat) (send : Bool)
    (spot : Fin 32) : mc.ledger (q, send, spot) =
      ((mc.qps q).side send).slots.records spot := rfl

/-- The kernel's records, as the mirror keeps them. -/
def kernelLedger (h : Device) : Key → Option UserRecord := fun spot =>
  (((h.qps spot.1).queueOf spot.2.1).records spot.2.2).map ofWork

/-- The producer index of one side of a queue pair. -/
def producerOf (qp : HardwareQp) (send : Bool) : UInt32 :=
  if send then qp.producer else qp.recvProducer

/-- The name of the request at a producer index. -/
def keyAt (q : Nat) (send : Bool) (producer : UInt32) : Key :=
  (q, send, slotOf producer)

/-! ## How many there can be -/

section Count

variable {h : Device}

/-- The names in use on one side of a queue pair, if it completes there. -/
def sideKeys (h : Device) (c q : Nat) (send : Bool) : Finset Key :=
  if (h.qps q).cqOf send = c then
    (Slots.occupied ((h.qps q).queueOf send).records).image fun spot =>
      (q, send, spot)
  else ∅

theorem card_sideKeys (c q : Nat) (send : Bool) :
    (sideKeys h c q send).card ≤
      if (h.qps q).cqOf send = c then ((h.qps q).queueOf send).pending
      else 0 := by
  unfold sideKeys
  split
  · rw [← ((h.qps q).queueOf send).counted]
    exact Finset.card_image_le
  · exact Nat.le_of_eq Finset.card_empty

theorem mem_sideKeys {c : Nat} {spot : Key}
    (serves : (h.qps spot.1).cqOf spot.2.1 = c)
    (held : (kernelLedger h spot).isSome = true) :
    spot ∈ sideKeys h c spot.1 spot.2.1 := by
  rw [sideKeys, if_pos serves, Finset.mem_image]
  refine ⟨spot.2.2, ?_, rfl⟩
  rw [Slots.mem_occupied]
  simpa [kernelLedger] using held

/-- A queue pair with a record is on the list. -/
theorem listed_of_held (listing : h.Listing) {spot : Key}
    (held : (kernelLedger h spot).isSome = true) : spot.1 ∈ h.list := by
  rw [listing.listed]
  by_contra dead
  obtain ⟨sends, receives⟩ := listing.idle _ dead
  obtain ⟨work, found⟩ : ∃ work,
      ((h.qps spot.1).queueOf spot.2.1).records spot.2.2 = some work :=
    Option.isSome_iff_exists.mp (by simpa [kernelLedger] using held)
  have more := Slots.pending_pos found
  cases send : spot.2.1 with
  | true => simp [HardwareQp.queueOf, send, sends] at more
  | false => simp [HardwareQp.queueOf, send, receives] at more

/-- The names in use on a completion queue are no more than the load on it. -/
theorem length_le_load (listing : h.Listing) {c : Nat} {keys : List Key}
    (nodup : keys.Nodup)
    (all : ∀ spot ∈ keys, (h.qps spot.1).cqOf spot.2.1 = c ∧
      (kernelLedger h spot).isSome = true) :
    keys.length ≤ h.load c := by
  have covered : keys.toFinset ⊆ h.list.toFinset.biUnion fun q =>
      sideKeys h c q true ∪ sideKeys h c q false := by
    intro spot member
    obtain ⟨serves, held⟩ := all spot (List.mem_toFinset.mp member)
    rw [Finset.mem_biUnion]
    refine ⟨spot.1, List.mem_toFinset.mpr (listed_of_held listing held), ?_⟩
    have mine := mem_sideKeys serves held
    rw [Finset.mem_union]
    cases send : spot.2.1 with
    | true => exact Or.inl (send ▸ mine)
    | false => exact Or.inr (send ▸ mine)
  have each : ∀ q ∈ h.list.toFinset,
      (sideKeys h c q true ∪ sideKeys h c q false).card ≤
        (h.qps q).load c := by
    intro q _
    have sends := card_sideKeys (h := h) c q true
    have receives := card_sideKeys (h := h) c q false
    refine (Finset.card_union_le _ _).trans ?_
    exact Nat.add_le_add sends receives
  calc keys.length = keys.toFinset.card :=
        (List.toFinset_card_of_nodup nodup).symm
    _ ≤ _ := Finset.card_le_card covered
    _ ≤ ∑ q ∈ h.list.toFinset,
          (sideKeys h c q true ∪ sideKeys h c q false).card :=
        Finset.card_biUnion_le
    _ ≤ ∑ q ∈ h.list.toFinset, (h.qps q).load c := Finset.sum_le_sum each
    _ = h.load c := List.sum_toFinset _ listing.nodup

end Count

/-! ## What the kernel's operations do -/

/-- What no operation of a process changes. -/
structure Kept (h h' : Device) : Prop where
  index : h'.index = h.index
  object : ∀ q, (h'.qps q).object = (h.qps q).object
  cqOf : ∀ q send, (h'.qps q).cqOf send = (h.qps q).cqOf send
  userPosted : ∀ q, (h'.qps q).userPosted = (h.qps q).userPosted
  clientContext : ∀ q, (h'.qps q).clientContext = (h.qps q).clientContext
  created : ∀ c, (h'.cqs c).object = (h.cqs c).object
  live : ∀ c, (h'.cqs c).live = (h.cqs c).live
  ring : ∀ c, (h'.cqs c).ring = (h.cqs c).ring
  inactive : h'.inactive = h.inactive

namespace Kept

variable {h h' h'' : Device}

theorem refl (h : Device) : Kept h h :=
  ⟨rfl, fun _ => rfl, fun _ _ => rfl, fun _ => rfl, fun _ => rfl, fun _ => rfl,
    fun _ => rfl, fun _ => rfl, rfl⟩

theorem trans (first : Kept h h') (second : Kept h' h'') : Kept h h'' where
  index := second.index.trans first.index
  object := fun q => (second.object q).trans (first.object q)
  cqOf := fun q send => (second.cqOf q send).trans (first.cqOf q send)
  userPosted := fun q => (second.userPosted q).trans (first.userPosted q)
  clientContext := fun q =>
    (second.clientContext q).trans (first.clientContext q)
  created := fun c => (second.created c).trans (first.created c)
  live := fun c => (second.live c).trans (first.live c)
  ring := fun c => (second.ring c).trans (first.ring c)
  inactive := second.inactive.trans first.inactive

/-- A queue pair is replaced by one that keeps all of this. -/
theorem setQp (h : Device) {q : Nat} {qp : HardwareQp}
    (object : qp.object = (h.qps q).object)
    (cqOf : ∀ send, qp.cqOf send = (h.qps q).cqOf send)
    (userPosted : qp.userPosted = (h.qps q).userPosted)
    (clientContext : qp.clientContext = (h.qps q).clientContext) :
    Kept h (h.setQp q qp) := by
  have each : ∀ {Value : Type} (field : HardwareQp → Value),
      field qp = field (h.qps q) →
      ∀ other, field ((h.setQp q qp).qps other) = field (h.qps other) := by
    intro Value field same other
    rw [Device.qps_setQp]
    by_cases one : other = q
    · rw [one, Function.update_self, same]
    · rw [Function.update_of_ne one]
  exact ⟨rfl, each _ object, fun other send => each (·.cqOf send) (cqOf send)
    other, each _ userPosted, each _ clientContext, fun _ => rfl, fun _ => rfl,
    fun _ => rfl, rfl⟩

/-- A completion queue is replaced by one with the same ring. -/
theorem setCq (h : Device) {c : Nat} {cq : Hca.HardwareCq}
    (created : cq.object = (h.cqs c).object)
    (live : cq.live = (h.cqs c).live) (ring : cq.ring = (h.cqs c).ring) :
    Kept h (h.setCq c cq) := by
  have each : ∀ {Value : Type} (field : Hca.HardwareCq → Value),
      field cq = field (h.cqs c) →
      ∀ other, field ((h.setCq c cq).cqs other) = field (h.cqs other) := by
    intro Value field same other
    rw [Device.cqs_setCq]
    by_cases one : other = c
    · rw [one, Function.update_self, same]
    · rw [Function.update_of_ne one]
  exact ⟨rfl, fun _ => rfl, fun _ _ => rfl, fun _ => rfl, fun _ => rfl,
    each _ created, each _ live, each _ ring, rfl⟩

theorem quarantine (h : Device) : Kept h h.quarantine :=
  ⟨rfl, fun _ => rfl, fun _ _ => rfl, fun _ => rfl, fun _ => rfl, fun _ => rfl,
    fun _ => rfl, fun _ => rfl, rfl⟩

end Kept

/-- The producer indices of every side. -/
def produced (h : Device) : Nat × Bool → UInt32 := fun side =>
  producerOf (h.qps side.1) side.2

/-- The consumer indices. -/
def consumed (h : Device) : Nat → UInt32 := fun c => (h.cqs c).consumer

/-- An operation that does not quarantine, by what it leaves. -/
structure Effect (h h' : Device) (records : Key → Option UserRecord)
    (producers : Nat × Bool → UInt32) (consumers : Nat → UInt32) : Prop where
  kept : Kept h h'
  records : kernelLedger h' = records
  producers : produced h' = producers
  consumers : consumed h' = consumers
  quarantined : h'.quarantined = h.quarantined

theorem Effect.refl (h : Device) :
    Effect h h (kernelLedger h) (produced h) (consumed h) :=
  ⟨.refl h, rfl, rfl, rfl, rfl⟩

section

variable {h : Device} {q : Nat} {qp : HardwareQp}

/-- The records after a queue pair is replaced by one that differs at one
name. -/
theorem kernelLedger_setQp {spot : Key} {found : Option UserRecord}
    (name : spot.1 = q)
    (mine : ∀ send slot, ((qp.queueOf send).records slot).map ofWork =
      Function.update (kernelLedger h) spot found (q, send, slot)) :
    kernelLedger (h.setQp q qp) =
      Function.update (kernelLedger h) spot found := by
  funext other
  by_cases one : other.1 = q
  · obtain ⟨q', send, slot⟩ := other
    cases one
    rw [← mine, kernelLedger, Device.qps_setQp, Function.update_self]
  · have differs : other ≠ spot := fun same => one (same ▸ name)
    rw [Function.update_of_ne differs, kernelLedger, Device.qps_setQp,
      Function.update_of_ne one, kernelLedger]

/-- The records after those of one side are. -/
theorem queueOf_withQueue (qp : HardwareQp) (send : Bool) (queue : WorkQueue)
    (other : Bool) : (qp.withQueue send queue).queueOf other =
      if other = send then queue else qp.queueOf other := by
  cases send <;> cases other <;> rfl

theorem kernelLedger_withQueue {send : Bool} {queue : WorkQueue}
    {slot : Fin 32} {found : Option WorkRecord}
    (moved : queue.records =
      Function.update ((h.qps q).queueOf send).records slot found) :
    kernelLedger (h.setQp q ((h.qps q).withQueue send queue)) =
      Function.update (kernelLedger h) (q, send, slot) (found.map ofWork) := by
  refine kernelLedger_setQp rfl fun other spot => ?_
  rw [queueOf_withQueue]
  by_cases same : other = send
  · subst same
    rw [if_pos rfl, moved]
    by_cases here : spot = slot
    · rw [here, Function.update_self, Function.update_self]
    · rw [Function.update_of_ne here, Function.update_of_ne (by simp [here])]
      rfl
  · rw [if_neg same, Function.update_of_ne (by simp [same])]
    rfl

theorem produced_setQp (h : Device) (q : Nat)
    (same : ∀ send, producerOf qp send = producerOf (h.qps q) send) :
    produced (h.setQp q qp) = produced h := by
  funext side
  rw [produced, produced, Device.qps_setQp]
  by_cases one : side.1 = q
  · rw [one, Function.update_self, same]
  · rw [Function.update_of_ne one]

theorem consumed_setCq (h : Device) (c : Nat) (cq : Hca.HardwareCq) :
    consumed (h.setCq c cq) = Function.update (consumed h) c cq.consumer := by
  funext other
  rw [consumed, Device.cqs_setCq]
  by_cases one : other = c
  · rw [one, Function.update_self, Function.update_self]
  · rw [Function.update_of_ne one, Function.update_of_ne one, consumed]

end

/-- Whether an entry reports a failure. -/
def failed (cqe : Cqe) : Bool := cqe.opcode == 13 || cqe.opcode == 14

/-- The kernel's decoding of an entry that can be decoded. -/
theorem decodeCqe_eq {cqe : Cqe} {index : UInt32}
    (published : cqe.published index = true) (can : decodable cqe = true) :
    Hca.decodeCqe cqe index =
      (if failed cqe then .error else .success, cqe.fields (failed cqe)) := by
  rw [Hca.decodeCqe, if_neg (by simp [published])]
  cases fails : failed cqe with
  | true =>
      rw [failed] at fails
      rw [if_pos fails, if_pos rfl]
  | false =>
      have low : cqe.opcode ≤ 4 := by
        rw [failed, Bool.or_eq_false_iff] at fails
        rw [decodable, fails.1, fails.2] at can
        simpa using can
      rw [failed] at fails
      rw [fails, if_neg Bool.false_ne_true, if_pos low,
        if_neg Bool.false_ne_true]

/-- A request the kernel has recorded is taken from its records. -/
theorem complete_of_held {queue : WorkQueue} {counter : UInt16}
    {record : UserRecord}
    (held : (queue.records (slotOfCounter counter)).map ofWork = some record)
    (same : record.counter = counter) :
    ∃ work rest, queue.complete counter = some (work, rest) ∧
      ofWork work = record ∧ rest.records =
        Function.update queue.records (slotOfCounter counter) none := by
  obtain ⟨work, here, rfl⟩ := Option.map_eq_some_iff.mp held
  cases took : queue.complete counter with
  | none =>
      have differs := Slots.take_eq_none_iff.mp took work here
      have other : work.counter ≠ counter := by simpa using differs
      exact absurd same other
  | some pair =>
      obtain ⟨taken, rest⟩ := pair
      obtain ⟨mine, -, cleared⟩ := Slots.take_eq_some_iff.mp took
      have one := Option.some.inj (mine.symm.trans here)
      exact ⟨taken, rest, rfl, congrArg ofWork one, cleared⟩

/-- The kernel consumes an entry that completes a request it has recorded: what
it reports is what the mirror makes of that request. -/
theorem poll_entry {h : Device} {c q : Nat} {cqe : Cqe} {record : UserRecord}
    (accounts : h.Accounts) (ready : h.ready = true)
    (here : (h.cqs c).entry (h.cqs c).consumer = cqe)
    (published : cqe.published (h.cqs c).consumer = true)
    (can : decodable cqe = true) (found : h.index.find cqe.qpn = some q)
    (serves : (h.qps q).cqOf (sendSide cqe) = c)
    (posted : (h.qps q).userPosted = false)
    (owned : (h.qps q).clientContext.isSome = true)
    (held : kernelLedger h (q, sendSide cqe, slotOfCounter cqe.counter) =
      some record)
    (same : record.counter = cqe.counter) :
    (pollOne h c).1 = .ok (some (publish (completionOf cqe record false))) ∧
      Effect h (pollOne h c).2
        (Function.update (kernelLedger h)
          (q, sendSide cqe, slotOfCounter cqe.counter) none)
        (produced h)
        (Function.update (consumed h) c (consumed h c + 1)) := by
  have live : h.Live q := ((accounts.listing.indexed _ _).mp
    (h.index.find_eq_some_iff.mp found)).1
  have alive : (h.cqs c).object.live = true := by
    have served := accounts.listing.served q live
    rw [← serves, HardwareQp.cqOf]
    split
    · exact served.1
    · exact served.2
  have owed : (h.cqs c).outstanding ≠ 0 := by
    have one := length_le_load accounts.listing (List.nodup_singleton
      (q, sendSide cqe, slotOfCounter cqe.counter)) (c := c) (by
        intro spot member
        rw [List.mem_singleton] at member
        subst member
        exact ⟨serves, by rw [held]; rfl⟩)
    rw [(accounts.counted c).outstanding]
    rw [List.length_singleton] at one
    omega
  obtain ⟨work, rest, took, rfl, cleared⟩ := complete_of_held held same
  have polled : h.poll c =
      (polledOf cqe work (h.qps q).clientContext false,
        (h.setQp q ((h.qps q).withQueue (sendSide cqe) rest)).settle c 1) := by
    have consumes : h.pollQp c (if failed cqe then .error else .success)
        (cqe.fields (failed cqe)) q =
          (polledOf cqe work (h.qps q).clientContext false,
            (h.setQp q ((h.qps q).withQueue (sendSide cqe) rest)).settle c
              1) := by
      rw [Device.pollQp]
      have side : (cqe.fields (failed cqe)).send = sendSide cqe := rfl
      have counter : (cqe.fields (failed cqe)).wqeCounter = cqe.counter := rfl
      rw [side, counter, took, if_neg (not_not.mpr serves),
        if_neg (by simp [posted]), if_neg owed]
      rfl
    rw [Device.poll, if_neg (by simp [alive, ready]), here,
      decodeCqe_eq published can]
    have number : (cqe.fields (failed cqe)).qpn = cqe.qpn := rfl
    cases fails : failed cqe with
    | true =>
        rw [fails] at consumes number
        simp only [if_true, number, found]
        exact consumes
    | false =>
        rw [fails] at consumes number
        simp only [Bool.false_eq_true, if_false, number, found]
        exact consumes
  obtain ⟨context, mine⟩ := Option.isSome_iff_exists.mp owned
  have reports : pollOne h c =
      (.ok (some (publish (completionOf cqe (ofWork work) false))),
        (h.setQp q ((h.qps q).withQueue (sendSide cqe) rest)).settle c 1) := by
    rw [pollOne, polled, mine, publish_completionOf can]
    have result : (polledOf cqe work (some context) false).result ≠ .empty ∧
        (polledOf cqe work (some context) false).result ≠ .unsupported := by
      simp only [polledOf]
      split <;> exact ⟨by simp, by simp⟩
    rw [if_neg result.1, if_neg result.2]
    rfl
  rw [reports]
  refine ⟨rfl, ?_, ?_, ?_, ?_, rfl⟩
  · refine (Kept.setQp h ?_ ?_ ?_ ?_).trans (Kept.setCq _ rfl rfl rfl)
    all_goals
      simp only [HardwareQp.withQueue, HardwareQp.cqOf]
      cases sendSide cqe <;> intros <;> rfl
  · exact kernelLedger_withQueue cleared
  · refine produced_setQp h q fun send => ?_
    simp only [HardwareQp.withQueue]
    cases sendSide cqe <;> rfl
  · exact consumed_setCq _ c _

/-- The kernel sees nothing where nothing is published. -/
theorem poll_empty {h : Device} {c : Nat}
    (live : (h.cqs c).object.live = true) (ready : h.ready = true)
    (empty : ((h.cqs c).entry (h.cqs c).consumer).published
      (h.cqs c).consumer = false) :
    pollOne h c = (.ok none, h) := by
  have decoded : Hca.decodeCqe ((h.cqs c).entry (h.cqs c).consumer)
      (h.cqs c).consumer = (.empty, ⟨0, 0, 0, 0, 0, 0, 0⟩) := by
    rw [Hca.decodeCqe, if_pos (by simp [empty])]
  have polled : h.poll c =
      (Hca.Polled.nothing .empty ⟨0, 0, 0, 0, 0, 0, 0⟩, h) := by
    rw [Device.poll, if_neg (by simp [live, ready]), decoded]
  rw [pollOne, polled]
  rfl

/-! ## The same completion on both sides -/

/-- What the kernel reports of an entry that names a queue pair. -/
theorem pollQp_reports {h after : Device} {c q : Nat} {result : CqResult}
    {completion : Completion} {polled : Polled}
    (polls : h.pollQp c result completion q = (polled, after))
    (consumes : polled.result ≠ .unsupported) :
    polled = ⟨result, completion, polled.work, polled.context, polled.user⟩ ∧
      (polled.user = true → polled.work = completion.unrecorded) := by
  unfold Device.pollQp at polls
  dsimp only at polls
  split at polls
  · cases polls
    exact absurd rfl consumes
  · split at polls
    · cases polls
      exact ⟨rfl, fun _ => rfl⟩
    · split at polls
      · cases polls
        exact absurd rfl consumes
      · split at polls
        · cases polls
          exact absurd rfl consumes
        · cases polls
          exact ⟨rfl, fun user => by cases user⟩

/-- What it reports of the entry at its consumer index. -/
theorem poll_reports {h after : Device} {c : Nat} {cqe : Cqe} {polled : Polled}
    (here : (h.cqs c).entry (h.cqs c).consumer = cqe)
    (polls : h.poll c = (polled, after))
    (consumes : polled.result = .success ∨ polled.result = .error) :
    decodable cqe = true ∧
      polled = polledOf cqe polled.work polled.context polled.user ∧
      (polled.user = true →
        polled.work = (cqe.fields (failed cqe)).unrecorded) := by
  have told : polled.result ≠ .unsupported ∧ polled.result ≠ .empty := by
    rcases consumes with same | same <;> simp [same]
  unfold Device.poll at polls
  dsimp only at polls
  split at polls
  · cases polls
    exact absurd rfl told.1
  · rw [here] at polls
    cases published : cqe.published (h.cqs c).consumer with
    | false =>
        rw [Hca.decodeCqe, if_pos (by simp [published])] at polls
        cases polls
        exact absurd rfl told.2
    | true =>
        cases can : decodable cqe with
        | false =>
            rw [decodable, Bool.or_eq_false_iff, Bool.or_eq_false_iff] at can
            rw [Hca.decodeCqe, if_neg (by simp [published]),
              if_neg (by simp [can.1.2, can.2]),
              if_neg (by simpa using can.1.1)] at polls
            cases polls
            exact absurd rfl told.1
        | true =>
            rw [decodeCqe_eq published can] at polls
            have found : ∃ q, h.pollQp c
                (if failed cqe then .error else .success)
                (cqe.fields (failed cqe)) q = (polled, after) := by
              cases fails : failed cqe with
              | true =>
                  rw [fails] at polls
                  simp only [if_true] at polls ⊢
                  split at polls
                  · cases polls
                    exact absurd rfl told.1
                  · exact ⟨_, polls⟩
              | false =>
                  rw [fails] at polls
                  simp only [Bool.false_eq_true, if_false] at polls ⊢
                  split at polls
                  · cases polls
                    exact absurd rfl told.1
                  · exact ⟨_, polls⟩
            obtain ⟨q, reports⟩ := found
            exact ⟨rfl, pollQp_reports reports told.1⟩

end Mirror
end Mcdma
