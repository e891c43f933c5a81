import Mcdma.Mirror.Ends

/-!
# A poll hands out what waits

Between two calls fewer than 24 completions are reported ahead on a queue that
is not retired, so that a poll has room to look at the ring.  A poll that starts
while a completion waits there finds it and hands it out, unless the queue is
retired.
-/

namespace Mcdma
namespace Mirror

open Hca (Device window)

variable {cqOf : Nat → Bool → Nat} {start w after : World} {c : Nat}

/-! ## How many are ahead between two calls -/

/-- The running call is to hand out completions that it has found on a ring. -/
inductive Finding (w : World) (c : Nat) : Prop
  | poll {maximum : Nat} {base : UInt32} {out : List Wc} (nonempty : out ≠ [])
      (here : w.call = .poll c maximum base out)
  | ack {out : List Wc} (nonempty : out ≠ []) (here : w.call = .ack c (.poll out))

theorem Finding.congr (finding : Finding w c) (call : after.call = w.call) :
    Finding after c := by
  cases finding with
  | poll nonempty here => exact .poll nonempty (call.trans here)
  | ack nonempty here => exact .ack nonempty (call.trans here)

/-- A queue that is retired stays so, and no more is reported ahead on it. -/
structure Steady (w after : World) (c : Nat) : Prop where
  retired : (w.nodes c).retired = true → (after.nodes c).retired = true
  ahead : (after.nodes c).ahead ≤ (w.nodes c).ahead

namespace Steady

theorem of_eq (same : after.nodes c = w.nodes c) : Steady w after c where
  retired := by rw [same]; exact id
  ahead := Nat.le_of_eq (by rw [same])

end Steady

/-- Only few completions are reported ahead, unless the queue is retired or the
call that reported them still runs. -/
def Low (w : World) (c : Nat) : Prop :=
  Finding w c ∨ (w.nodes c).retired = true ∨ (w.nodes c).ahead < 24

namespace Low

/-- The call goes on where it was. -/
theorem still (low : Low w c) (call : after.call = w.call)
    (steady : Steady w after c) : Low after c :=
  low.imp (·.congr call)
    (Or.imp steady.retired fun few => steady.ahead.trans_lt few)

/-- The call had found nothing on this ring. -/
theorem quiet (low : Low w c) (nothing : ¬Finding w c)
    (steady : Steady w after c) : Low after c :=
  .inr ((low.resolve_left nothing).imp steady.retired fun few =>
    steady.ahead.trans_lt few)

end Low

variable {flight : Flight cqOf} {settled : Nat → List Entry}

/-- The entry in flight at a place of a live ring is published there. -/
theorem ready_of_entry (core : Core flight settled w fun _ => 0)
    (live : (w.device.cqs c).live = true) {offset : Nat} {entry : Entry}
    (small : offset < 32) (next : (flight.live c)[offset]? = some entry) :
    cqEntry w.device c (cqConsumer w.device c + UInt32.ofNat offset) =
      .ready entry.cqe := by
  have ring := core.kernel.rings c
  have place := ring.holds (ring.shown live) offset small
  rw [show UInt32.ofNat 0 = 0 from rfl, UInt32.sub_zero, List.getElem?_map,
    next, Option.map_some] at place
  obtain ⟨same, published⟩ := place
  have shown : (window (w.device.cqs c).ring (w.device.cqs c).consumer
      offset).published ((w.device.cqs c).consumer + UInt32.ofNat offset) =
        true := same.symm ▸ published
  rw [cqConsumer, cqEntry_eq live]
  rw [if_pos shown, same]

/-- A poll that has found nothing yet reports the completion that waits. -/
theorem pollRound_waiting (seen : Seen cqOf w flight settled) {maximum : Nat}
    {base : UInt32} (here : w.call = .poll c maximum base [])
    (live : (w.device.cqs c).live = true) (few : (w.nodes c).ahead < 31)
    (waits : (w.handed c).length < (w.written c).length) :
    Finding (w.pollRound c maximum base []) c ∧
      (w.pollRound c maximum base []).handed = w.handed := by
  obtain ⟨polling, nonzero, based⟩ := seen.polling here
  have all := polling.mine.all polling.working
  have toldLength : (told flight settled w c).length =
      (settled c).length + (w.nodes c).ahead := by
    have within := (polling.core.pending c).few
    rw [told, List.length_map, List.length_append, List.length_take,
      Nat.min_eq_left within]
  have more : (w.nodes c).ahead < (flight.live c).length := by
    rw [polling.core.written c, List.length_append] at waits
    rw [List.append_nil] at all
    rw [all, toldLength] at waits
    omega
  have next := List.getElem?_eq_getElem more
  have ready := ready_of_entry polling.core live (by omega) next
  obtain ⟨context, decodes, -, -, -⟩ := polling.core.decode next
  unfold World.pollRound
  dsimp only
  rw [if_pos ⟨Nat.pos_of_ne_zero nonzero, few⟩, based, ready]
  dsimp only
  rw [decodes]
  exact ⟨.poll (by simp) rfl, rfl⟩

/-- What becomes of completions that a call has found: it keeps them, hands them
out, or retires the queue. -/
inductive Fate (w after : World) (c : Nat) : Prop
  | keeps (finding : Finding after c) (handed : after.handed = w.handed)
  | hands {out : List Wc} (nonempty : out ≠ []) (ended : after.call = .idle)
      (handed : after.handed c = w.handed c ++ out)
  | retires (retired : (after.nodes c).retired = true)

theorem endPoll_found {maximum : Nat} {out : List Wc} (nonempty : out ≠ [])
    (ended : w.EndPoll c maximum out after) : Fate w after c := by
  cases ended with
  | acknowledges => exact .keeps (.ack nonempty rfl) rfl
  | hands => exact .hands nonempty rfl (Function.update_self _ _ _)
  | waits nothing => exact absurd nothing nonempty
  | settles nothing => exact absurd nothing nonempty
  | asks nothing => exact absurd nothing nonempty

theorem pollRound_found {maximum : Nat} {base : UInt32} {out : List Wc}
    (nonempty : out ≠ []) : Fate w (w.pollRound c maximum base out) c := by
  have retires : Fate w (w.retire c).fail c :=
    .retires (by simp [World.fail, World.retire])
  have round := w.pollRound_spec c maximum base out
  generalize w.pollRound c maximum base out = after at round ⊢
  cases round with
  | ends ended => exact endPoll_found nonempty ended
  | gone => exact retires
  | unknown => exact retires
  | reports => exact .keeps (.poll (by simp) rfl) rfl

theorem ackRound_found {command : Command} {out : List Wc} (nonempty : out ≠ [])
    (here : w.call = .ack c (.poll out)) :
    Fate w (w.ackRound command c (.poll out)) c := by
  have round := w.ackRound_spec command c (.poll out)
  generalize w.ackRound command c (.poll out) = after at round ⊢
  cases round with
  | done =>
      cases retired : (w.nodes c).retired with
      | false => exact .hands nonempty rfl (Function.update_self _ _ _)
      | true => exact .retires retired
  | fails retired => exact .retires retired
  | retires => exact .retires (by simp [World.round])
  | drops retired => exact .retires (by simp [World.round, UserCq.drop, retired])
  | settles => exact .keeps (.ack nonempty here) rfl

/-- A step of a call that has found something. -/
theorem finding_next (finding : Finding w c) (command : Command) :
    Fate w (w.next command) c := by
  unfold World.next
  cases finding with
  | poll nonempty here =>
      rw [here]
      exact pollRound_found nonempty
  | ack nonempty here =>
      rw [here]
      exact ackRound_found nonempty here

/-! ## What waits is handed out -/

/-- A poll of a ring hands out more than so many completions: it has done so, has
found some, or has room to look for the one that waits. -/
inductive Promised (w : World) (c count : Nat) : Prop
  | handed (ended : w.call = .idle) (more : count < (w.handed c).length)
  | found (finding : Finding w c) (least : count ≤ (w.handed c).length)
  | waits {maximum : Nat} {base : UInt32}
      (here : w.call = .poll c maximum base []) (few : (w.nodes c).ahead < 24)
      (least : count ≤ (w.handed c).length)
      (more : (w.handed c).length < (w.written c).length)

theorem Promised.next {count : Nat} (promised : Promised w c count)
    (seen : Seen cqOf w flight settled) {command : Command}
    (healthy : Healthy w (.next command))
    (working : ((w.next command).nodes c).retired = false) :
    Promised (w.next command) c count := by
  cases promised with
  | handed ended more =>
      have same : w.next command = w := by rw [World.next, ended]
      rw [same]
      exact .handed ended more
  | found finding least =>
      cases finding_next finding command with
      | keeps finding handed => exact .found finding (by rwa [handed])
      | hands nonempty ended handed =>
          have longer := List.length_pos_iff.mpr nonempty
          refine .handed ended ?_
          rw [handed, List.length_append]
          omega
      | retires retired =>
          rw [working] at retired
          cases retired
  | waits here few least more =>
      rename_i maximum base
      have live : (w.device.cqs c).live = true := by
        by_contra dead
        exact healthy c (.inl ⟨maximum, base, [], here, by simpa using dead⟩)
      obtain ⟨finding, handed⟩ :=
        pollRound_waiting seen here live (by omega) more
      have same : w.next command = w.pollRound c maximum base [] := by
        rw [World.next, here]
      rw [same]
      exact .found finding (by rwa [handed])

/-- What can happen during a call of a healthy run. -/
def Meanwhile (cqOf : Nat → Bool → Nat) (w : World) (action : Action) : Prop :=
  Allowed cqOf w action ∧ Healthy w action ∧ action.starts = false

theorem Promised.act {count : Nat} {action : Action}
    (promised : Promised w c count) (seen : Seen cqOf w flight settled)
    (can : Meanwhile cqOf w action) (taken : w.act action = some after)
    (working : (after.nodes c).retired = false) : Promised after c count := by
  obtain ⟨-, healthy, other⟩ := can
  have still : ∀ later : World, later.call = w.call → later.nodes = w.nodes →
      later.handed = w.handed →
      (w.written c).length ≤ (later.written c).length →
      Promised later c count := by
    intro later call nodes handed written
    cases promised with
    | handed ended more => exact .handed (call.trans ended) (by rwa [handed])
    | found finding least => exact .found (finding.congr call) (by rwa [handed])
    | waits here few least more =>
        refine .waits (call.trans here) (by rwa [nodes]) (by rwa [handed]) ?_
        rw [handed]
        exact more.trans_le written
  cases World.acts taken with
  | startPoll => cases other
  | startPost => cases other
  | next command => exact promised.next seen healthy working
  | write ring entry =>
      refine still _ rfl rfl rfl ?_
      dsimp only [World.write]
      by_cases one : c = ring
      · subst one
        rw [Function.update_self, List.length_append]
        exact Nat.le_add_right _ _
      · rw [Function.update_of_ne one]
  | quarantine => exact still _ rfl rfl rfl (Nat.le_refl _)
  | quiesce => exact still _ rfl rfl rfl (Nat.le_refl _)

end Mirror
end Mcdma
