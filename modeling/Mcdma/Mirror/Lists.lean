import Mcdma.Mirror.Ledger
import Mcdma.Mirror.Requests

/-!
# A list that is posted in part

The mirror records as much of a list as it can and takes back what the kernel
refused.  What is left is what it would have recorded of the part that the
kernel accepted, and that part is never more than it had recorded.
-/

namespace Mcdma
namespace Mirror

open Hca (Device HardwareQp WorkQueue slotOf)

section

variable {Wr : Type} {entry : Wr → Option (UInt64 × UInt8 × UInt32)}
variable {queue : UserQueue}

/-- The records of a list from a producer index on. -/
def puts (entry : Wr → Option (UInt64 × UInt8 × UInt32)) (q : Nat)
    (send : Bool) : UInt32 → List Wr → List (Key × UserRecord)
  | _, [] => []
  | producer, w :: rest =>
      match entry w with
      | none => []
      | some (id, opcode, length) =>
          (keyAt q send producer, recordAt producer id opcode length) ::
            puts entry q send (producer + 1) rest

/-! ## The mirror alone -/

/-- What a round of the loop that records does. -/
theorem recordAll_cons (w : Wr) (rest : List Wr) :
    (∃ made next, entry w = some made ∧
      queue.post made.1 made.2.1 made.2.2 = some next ∧
      recordAll entry queue (w :: rest) =
        ((recordAll entry next rest).1, (recordAll entry next rest).2 + 1)) ∨
    recordAll entry queue (w :: rest) = (queue, 0) := by
  cases made : entry w with
  | none =>
      right
      rw [recordAll, made]
      rfl
  | some wanted =>
      cases posted : queue.post wanted.1 wanted.2.1 wanted.2.2 with
      | none =>
          right
          rw [recordAll, made, Option.bind_some, posted]
      | some next =>
          left
          refine ⟨wanted, next, rfl, posted, ?_⟩
          rw [recordAll, made, Option.bind_some, posted]

theorem recordAll_of_post {w : Wr} {rest : List Wr}
    {made : UInt64 × UInt8 × UInt32} {next : UserQueue}
    (known : entry w = some made)
    (posted : queue.post made.1 made.2.1 made.2.2 = some next) :
    recordAll entry queue (w :: rest) =
      ((recordAll entry next rest).1, (recordAll entry next rest).2 + 1) := by
  rw [recordAll, known, Option.bind_some, posted]

/-- Recording the part that was recorded records the same. -/
theorem recordAll_take (wrs : List Wr) {count : Nat}
    (within : count ≤ (recordAll entry queue wrs).2) :
    (recordAll entry queue (wrs.take count)).2 = count := by
  induction wrs generalizing queue count with
  | nil =>
      have zero : count = 0 := Nat.le_zero.mp within
      rw [zero, List.take_zero]
      rfl
  | cons w rest inductionHypothesis =>
      cases count with
      | zero => rfl
      | succ count =>
          obtain ⟨made, next, known, posted, whole⟩ | stopped :=
            @recordAll_cons Wr entry queue w rest
          · rw [whole] at within
            have part := @inductionHypothesis next count
              (Nat.le_of_succ_le_succ within)
            rw [List.take_succ_cons, recordAll_of_post known posted]
            exact congrArg (· + 1) part
          · rw [stopped] at within
            exact absurd within (Nat.not_succ_le_zero _)

/-- Recording all of it leaves the queue as recording the part does. -/
theorem recordAll_all (wrs : List Wr) :
    (recordAll entry queue
      (wrs.take (recordAll entry queue wrs).2)).1 =
        (recordAll entry queue wrs).1 := by
  induction wrs generalizing queue with
  | nil => rfl
  | cons w rest inductionHypothesis =>
      obtain ⟨made, next, known, posted, whole⟩ | stopped :=
        @recordAll_cons Wr entry queue w rest
      · rw [whole]
        dsimp only
        rw [List.take_succ_cons, recordAll_of_post known posted]
        exact inductionHypothesis
      · rw [stopped]
        rfl

/-- One more request is recorded by one more post. -/
theorem recordAll_next (wrs : List Wr) {count : Nat}
    (within : count < (recordAll entry queue wrs).2) :
    ∃ made : UInt64 × UInt8 × UInt32,
      (recordAll entry queue (wrs.take count)).1.post made.1 made.2.1 made.2.2 =
        some (recordAll entry queue (wrs.take (count + 1))).1 := by
  induction wrs generalizing queue count with
  | nil => exact absurd within (Nat.not_lt_zero _)
  | cons w rest inductionHypothesis =>
      obtain ⟨made, next, known, posted, whole⟩ | stopped :=
        @recordAll_cons Wr entry queue w rest
      · rw [whole] at within
        rw [List.take_succ_cons, recordAll_of_post known posted]
        cases count with
        | zero => exact ⟨made, by simpa [recordAll] using posted⟩
        | succ count =>
            rw [List.take_succ_cons, recordAll_of_post known posted]
            exact inductionHypothesis (Nat.lt_of_succ_lt_succ within)
      · rw [stopped] at within
        exact absurd within (Nat.not_lt_zero _)

theorem producer_recordAll (wrs : List Wr) :
    (recordAll entry queue wrs).1.producer =
      queue.producer + UInt32.ofNat (recordAll entry queue wrs).2 := by
  induction wrs generalizing queue with
  | nil => exact (UInt32.add_zero _).symm
  | cons w rest inductionHypothesis =>
      obtain ⟨made, next, known, posted, whole⟩ | stopped :=
        @recordAll_cons Wr entry queue w rest
      · rw [whole]
        dsimp only
        rw [inductionHypothesis,
          (UserQueue.post_eq_some_iff.mp posted).2.2.1, UInt32.add_assoc,
          UInt32.ofNat_add, UInt32.add_comm 1]
        rfl
      · rw [stopped]
        exact (UInt32.add_zero _).symm

/-- Taking back what was refused leaves what recording the accepted part
does, unless the refused part reaches over the wrap of the producer index. -/
theorem rollback_recordAll (wrs : List Wr) {kept : Nat} (back : Nat)
    (within : kept + back = (recordAll entry queue wrs).2)
    (inside : ∀ offset, kept < offset → offset ≤ kept + back →
      queue.producer + UInt32.ofNat offset ≠ 0) :
    (recordAll entry queue wrs).1.rollback back =
      (recordAll entry queue (wrs.take kept)).1 := by
  have each : ∀ back, kept + back ≤ (recordAll entry queue wrs).2 →
      (∀ offset, kept < offset → offset ≤ kept + back →
        queue.producer + UInt32.ofNat offset ≠ 0) →
      (recordAll entry queue (wrs.take (kept + back))).1.rollback back =
        (recordAll entry queue (wrs.take kept)).1 := by
    intro back
    induction back with
    | zero => exact fun _ _ => rfl
    | succ back inductionHypothesis =>
        intro reach inside
        obtain ⟨made, posted⟩ := @recordAll_next Wr entry queue wrs
          (kept + back) (by omega)
        have nonzero := inside (kept + (back + 1)) (by omega) (by omega)
        have counted := @producer_recordAll Wr entry queue
          (wrs.take (kept + (back + 1)))
        rw [recordAll_take wrs reach] at counted
        rw [← counted] at nonzero
        have undone : (recordAll entry queue
            (wrs.take (kept + (back + 1)))).1.unpost =
              some (recordAll entry queue (wrs.take (kept + back))).1 :=
          UserQueue.unpost_post posted nonzero
        rw [UserQueue.rollback, undone]
        exact inductionHypothesis (by omega) fun offset low high =>
          inside offset low (by omega)
  rw [← recordAll_all wrs, ← within]
  exact each back (by omega) inside

/-! ## Its ledger -/

theorem side_withSide (qp : UserQp) (send : Bool) (queue : UserQueue)
    (other : Bool) : (qp.withSide send queue).side other =
      if other = send then queue else qp.side other := by
  cases send <;> cases other <;> rfl

/-- The mirror after one side is replaced by one that differs at one slot. -/
theorem ledger_setSide {mc : Context} {q : Nat} {send : Bool}
    {next : UserQueue} {slot : Fin 32} {found : Option UserRecord}
    (moved : next.slots.records =
      Function.update ((mc.qps q).side send).slots.records slot found) :
    (mc.setSide q send next).ledger =
      Function.update mc.ledger (q, send, slot) found := by
  funext other
  obtain ⟨q', send', offset⟩ := other
  rw [Context.ledger_apply, Context.qps_setSide]
  by_cases one : q' = q
  · subst one
    rw [Function.update_self, side_withSide]
    by_cases same : send' = send
    · subst same
      rw [if_pos rfl, moved]
      by_cases here : offset = slot
      · rw [here, Function.update_self, Function.update_self]
      · rw [Function.update_of_ne here, Function.update_of_ne (by simp [here])]
        rfl
    · rw [if_neg same, Function.update_of_ne (by simp [same])]
      rfl
  · rw [Function.update_of_ne one, Function.update_of_ne (by simp [one])]
    rfl

@[simp] theorem side_setSide (mc : Context) (q : Nat) (send : Bool)
    (queue : UserQueue) :
    ((mc.setSide q send queue).qps q).side send = queue := by
  rw [Context.qps_setSide, Function.update_self, side_withSide, if_pos rfl]

@[simp] theorem setSide_setSide (mc : Context) (q : Nat) (send : Bool)
    (queue next : UserQueue) :
    (mc.setSide q send queue).setSide q send next = mc.setSide q send next := by
  have both : ((mc.qps q).withSide send queue).withSide send next =
      (mc.qps q).withSide send next := by
    cases send <;> rfl
  simp only [Context.setSide, Function.update_self, Function.update_idem, both]

@[simp] theorem setSide_side (mc : Context) (q : Nat) (send : Bool) :
    mc.setSide q send ((mc.qps q).side send) = mc := by
  have same : (mc.qps q).withSide send ((mc.qps q).side send) = mc.qps q := by
    cases send <;> rfl
  rw [Context.setSide, same, Function.update_eq_self]

/-- The records of a list that is recorded are put under their names. -/
theorem ledger_recordAll (mc : Context) (q : Nat) (send : Bool)
    (wrs : List Wr) :
    (mc.setSide q send
      (recordAll entry ((mc.qps q).side send) wrs).1).ledger =
      Log.fill mc.ledger (puts entry q send ((mc.qps q).side send).producer
        (wrs.take (recordAll entry ((mc.qps q).side send) wrs).2)) := by
  induction wrs generalizing mc with
  | nil =>
      rw [recordAll]
      simp [puts, Log.fill]
  | cons w rest inductionHypothesis =>
      obtain ⟨made, next, known, posted, whole⟩ | stopped :=
        @recordAll_cons Wr entry ((mc.qps q).side send) w rest
      · obtain ⟨-, -, producer, records⟩ := UserQueue.post_eq_some_iff.mp posted
        have onward := inductionHypothesis (mc.setSide q send next)
        rw [side_setSide, setSide_setSide, ledger_setSide records,
          producer] at onward
        rw [whole]
        dsimp only
        rw [List.take_succ_cons, puts, known]
        exact onward
      · rw [stopped]
        simp [puts, Log.fill]

end

end Mirror
end Mcdma
