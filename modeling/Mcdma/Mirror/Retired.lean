import Mcdma.Mirror.Seen

/-!
# What retires a queue

A queue is retired for one of two reasons: its ring is not live any more, or
the kernel could not be asked.  The mirror never disagrees with the kernel.
Once a queue is retired nothing more is handed out for it.
-/

namespace Mcdma
namespace Mirror

open Hca (Cqe Device slotOf window)

/-- What a step does to the queues that are retired and to those that are
not, given what can retire one. -/
structure Retires (w after : World) (lost : Nat → Prop) : Prop where
  stays : ∀ c, (w.nodes c).retired = true →
    (after.nodes c).retired = true ∧ after.handed c = w.handed c
  caused : ∀ c, (w.nodes c).retired = false →
    (after.nodes c).retired = true → lost c

/-- What can retire a queue: the ring that is polled is not live, the device is
not ready, or a command does not reach the kernel. -/
def Lost (w : World) (action : Action) (c : Nat) : Prop :=
  (∃ maximum base out, w.call = .poll c maximum base out ∧
    (w.device.cqs c).live = false) ∨
  w.device.ready = false ∨
  ∃ command, action = .next command ∧ command.reached = false

namespace Retires

variable {w after : World} {lost : Nat → Prop} {c : Nat}

theorem same (nodes : ∀ c, (after.nodes c).retired = (w.nodes c).retired)
    (handed : after.handed = w.handed) : Retires w after lost where
  stays := fun c was => ⟨(nodes c).trans was, by rw [handed]⟩
  caused := fun c was now => by
    rw [nodes, was] at now
    cases now

theorem setNode_retired {node : UserCq}
    (same : node.retired = (w.nodes c).retired) (other : Nat) :
    ((w.setNode c node).nodes other).retired = (w.nodes other).retired := by
  simp only [World.setNode]
  by_cases one : other = c
  · rw [one, Function.update_self, same]
  · rw [Function.update_of_ne one]

/-- One queue is retired, for a reason. -/
theorem retire (reason : lost c) (node : UserCq)
    (retired : node.retired = true)
    (nodes : after.nodes = Function.update w.nodes c node)
    (handed : after.handed = w.handed) : Retires w after lost where
  stays := fun other was => by
    rw [nodes, handed]
    by_cases one : other = c
    · rw [one, Function.update_self]
      exact ⟨retired, rfl⟩
    · rw [Function.update_of_ne one]
      exact ⟨was, rfl⟩
  caused := fun other was now => by
    by_cases one : other = c
    · exact one ▸ reason
    · rw [nodes, Function.update_of_ne one, was] at now
      cases now

/-- Completions of a queue that is not retired are handed out. -/
theorem hand (working : (w.nodes c).retired = false)
    (nodes : ∀ other, (after.nodes other).retired = (w.nodes other).retired)
    (handed : ∀ other, other ≠ c → after.handed other = w.handed other) :
    Retires w after lost where
  stays := fun other was => by
    refine ⟨(nodes other).trans was, handed other ?_⟩
    rintro rfl
    rw [working] at was
    cases was
  caused := fun other was now => by
    rw [nodes, was] at now
    cases now

end Retires

/-! ## A queue that is retired -/

/-- The queue that the running call hands completions out for is not retired. -/
def World.Works (w : World) : Prop :=
  match w.call with
  | .poll c _ _ _ | .fresh c _ | .verify c _ _ _ =>
      (w.nodes c).retired = false
  | _ => True

theorem handed_hand (w : World) {c other : Nat} {out : List Wc}
    (differs : other ≠ c) : (w.hand c out).handed other = w.handed other := by
  rw [World.hand]
  exact Function.update_of_ne differs _ _

/-- `user_poll` after its loop retires nothing. -/
theorem endPoll_retires {w after : World} {lost : Nat → Prop}
    {c maximum : Nat} {out : List Wc}
    (working : (w.nodes c).retired = false)
    (ended : w.EndPoll c maximum out after) :
    after.Works ∧ Retires w after lost := by
  have nodes : ∀ count other, ((w.setNode c
      { w.nodes c with emptyPolls := count }).nodes other).retired =
        (w.nodes other).retired := fun count =>
    Retires.setNode_retired rfl
  cases ended with
  | acknowledges => exact ⟨trivial, .same (nodes 0) rfl⟩
  | hands => exact ⟨trivial, .hand working (nodes 0) fun _ => handed_hand _⟩
  | waits nothing count =>
      exact ⟨trivial, .hand working (nodes count) fun _ => handed_hand _⟩
  | settles => exact ⟨trivial, .same (nodes 0) rfl⟩
  | asks => exact ⟨(nodes 0 c).trans working, .same (nodes 0) rfl⟩

namespace World.Works

variable {w : World}

/-- What retires a queue is of no concern here. -/
abbrev Stays (w after : World) : Prop := Retires w after fun _ => True

theorem pollRound {c maximum : Nat} {base : UInt32} {out : List Wc}
    (works : w.Works) (here : w.call = .poll c maximum base out) :
    (w.pollRound c maximum base out).Works ∧
      Stays w (w.pollRound c maximum base out) := by
  have working : (w.nodes c).retired = false := by
    rwa [World.Works, here] at works
  have round := w.pollRound_spec c maximum base out
  generalize w.pollRound c maximum base out = after at round ⊢
  cases round with
  | ends ended => exact endPoll_retires working ended
  | gone => exact ⟨trivial, .retire trivial _ rfl rfl rfl⟩
  | unknown => exact ⟨trivial, .retire trivial _ rfl rfl rfl⟩
  | reports =>
      refine ⟨?_, .same (fun other => ?_) rfl⟩
      · rw [World.Works]
        dsimp only [World.report]
        exact (Retires.setNode_retired (by rfl) c).trans working
      · dsimp only [World.report]
        exact Retires.setNode_retired (by rfl) other

theorem ackRound {c : Nat} {client : Then} (here : w.call = .ack c client)
    (command : Command) :
    (w.ackRound command c client).Works ∧
      Stays w (w.ackRound command c client) := by
  have rounds : ∀ node h, (w.round c node h).Works := by
    intro node h
    have still : (w.round c node h).call = .ack c client := here
    rw [World.Works, still]
    trivial
  have round := w.ackRound_spec command c client
  generalize w.ackRound command c client = after at round ⊢
  cases round with
  | done =>
      cases retired : (w.nodes c).retired with
      | true => exact ⟨trivial, .same (fun _ => rfl) rfl⟩
      | false =>
          cases client with
          | poll out =>
              exact ⟨trivial, .hand retired (fun _ => rfl)
                fun _ => handed_hand _⟩
          | post p attempt => exact ⟨trivial, .same (fun _ => rfl) rfl⟩
  | fails => exact ⟨trivial, .same (fun _ => rfl) rfl⟩
  | retires working h => exact ⟨rounds _ _, .retire trivial _ rfl rfl rfl⟩
  | drops retired _ listed h =>
      exact ⟨rounds _ _, .same (Retires.setNode_retired (by rfl)) rfl⟩
  | settles working _ listed first last h =>
      refine ⟨rounds _ _, fun other was => ?_, fun _ _ _ => trivial⟩
      have differs : other ≠ c := by
        rintro rfl
        rw [working] at was
        cases was
      exact ⟨by simpa [World.round, World.setNode, differs] using was, rfl⟩

theorem freshCommand {c maximum : Nat} (works : w.Works)
    (here : w.call = .fresh c maximum) (command : Command) :
    (w.freshCommand command c maximum).Works ∧
      Stays w (w.freshCommand command c maximum) := by
  rw [World.Works, here] at works
  unfold World.freshCommand
  split
  · exact ⟨trivial, .same (fun _ => rfl) rfl⟩
  · exact ⟨works, .same (fun _ => rfl) rfl⟩

theorem verifyRound {c : Nat} {base : UInt32} {done left : List Wc}
    (works : w.Works) (here : w.call = .verify c base done left) :
    (w.verifyRound c base done left).Works ∧
      Stays w (w.verifyRound c base done left) := by
  have working : (w.nodes c).retired = false := by
    rwa [World.Works, here] at works
  cases left with
  | nil =>
      exact ⟨trivial, .hand working (fun _ => rfl) fun _ => handed_hand _⟩
  | cons wc left =>
      unfold World.verifyRound
      dsimp only
      split
      · exact ⟨trivial, .retire trivial _ rfl rfl rfl⟩
      · split
        · exact ⟨working, .same (fun _ => rfl) rfl⟩
        · exact ⟨trivial, .retire trivial _ rfl rfl rfl⟩

theorem attempt {Wr : Type} (entry : Wr → Option (UInt64 × UInt8 × UInt32))
    (one : Device → Grant → Wr → Option Errno × Device) (command : Command)
    (p : Post) (wrs : List Wr) (number : Nat) :
    (w.attempt entry one command p wrs number).Works ∧
      Stays w (w.attempt entry one command p wrs number) := by
  obtain ⟨node, nodes, handed, still, -, calls⟩ :=
    w.attempt_spec entry one command p wrs number
  refine ⟨?_, fun other was => ?_, fun _ _ _ => trivial⟩
  · rw [World.Works]
    rcases calls with idle | acks
    · rw [idle]
      trivial
    · rw [acks]
      trivial
  · rw [nodes, handed]
    by_cases one : other = w.cqOf p
    · subst one
      rw [Function.update_self]
      exact ⟨still was, rfl⟩
    · rw [Function.update_of_ne one]
      exact ⟨was, rfl⟩

theorem act {action : Action} {after : World} (works : w.Works)
    (taken : w.act action = some after) : after.Works ∧ Stays w after := by
  cases World.acts taken with
  | startPoll idle c maximum =>
      unfold World.startPoll
      split
      · exact ⟨works, .same (fun _ => rfl) rfl⟩
      · next can =>
          have working : (w.nodes c).retired = false := by
            simpa using (not_or.mp can).2
          exact ⟨working, .same (fun _ => rfl) rfl⟩
  | startPost idle p =>
      unfold World.startPost
      dsimp only
      split
      · exact ⟨works, .same (fun _ => rfl) rfl⟩
      · split <;> exact ⟨trivial, .same (fun _ => rfl) rfl⟩
  | next command =>
      rw [World.next]
      cases here : w.call with
      | idle => exact ⟨works, .same (fun _ => rfl) rfl⟩
      | poll c maximum base out => exact works.pollRound here
      | ack c client => exact ackRound here command
      | fresh c maximum => exact works.freshCommand here command
      | verify c base done left => exact works.verifyRound here
      | post p number =>
          cases p with
          | send q wrs => exact attempt _ _ command _ wrs number
          | receive q wrs => exact attempt _ _ command _ wrs number
  | write => exact ⟨works, .same (fun _ => rfl) rfl⟩
  | quarantine => exact ⟨works, .same (fun _ => rfl) rfl⟩
  | quiesce => exact ⟨works, .same (fun _ => rfl) rfl⟩

end World.Works

/-! ## What retires a queue -/

namespace Seen

variable {cqOf : Nat → Bool → Nat} {w : World} {flight : Flight cqOf}
  {settled : Nat → List Entry} {lost : Nat → Prop}

theorem pollRound_retires (seen : Seen cqOf w flight settled) {c maximum : Nat}
    {base : UInt32} {out : List Wc} (here : w.call = .poll c maximum base out)
    (reason : (w.device.cqs c).live = false → lost c) :
    Retires w (w.pollRound c maximum base out) lost := by
  obtain ⟨polling, -, based⟩ := seen.polling here
  have round := w.pollRound_spec c maximum base out
  generalize w.pollRound c maximum base out = after at round ⊢
  cases round with
  | ends ended => exact (endPoll_retires polling.working ended).2
  | gone gone => exact .retire (reason gone) _ rfl rfl rfl
  | unknown few ready unknown =>
      -- what is published there is an entry in flight, and is decoded
      rw [based] at ready
      obtain ⟨entry, next, same⟩ := entry_of_ready polling.core (by omega) ready
      subst same
      obtain ⟨context, decodes, -, -, -⟩ := polling.core.decode next
      cases decodes.symm.trans unknown
  | reports =>
      refine .same (fun other => ?_) rfl
      dsimp only [World.report]
      exact Retires.setNode_retired (by rfl) other

/-- The kernel answers when it is asked for what has been reported ahead. -/
theorem pollKernel_fails (core : Core flight settled w fun _ => 0)
    {command : Command} {c maximum : Nat} (waiting : flight.live c ≠ [])
    (fails : (w.pollKernel command c maximum).1 = .error ()) :
    w.device.ready = false ∨ command.reached = false := by
  unfold World.pollKernel at fails
  split at fails
  · left
    by_contra can
    have few : (flight.live c).length < 32 := by
      have most := core.length_le c
      omega
    obtain ⟨-, result⟩ := core.kernel.consumeAll (by simpa using can) few
      (Nat.zero_le _) maximum []
    rcases result with fine | ⟨-, -, nothing⟩
    · rw [pollCq, fine] at fails
      cases fails
    · exact waiting nothing
  · next notReached => exact .inr (by simpa using notReached)

theorem ackRound_retires (seen : Seen cqOf w flight settled) {c : Nat}
    {client : Then} (here : w.call = .ack c client) {command : Command}
    (reason : w.device.ready = false ∨ command.reached = false → lost c) :
    Retires w (w.ackRound command c client) lost := by
  have acking := seen.acking here
  have resumes : ∀ h fine, (fine = true → (w.nodes c).retired = false) →
      Retires w (World.resume { w with device := h } c client fine) lost := by
    intro h fine working
    cases fine with
    | false => exact .same (fun _ => rfl) rfl
    | true =>
        cases client with
        | poll out =>
            exact .hand (working rfl) (fun _ => rfl) fun _ => handed_hand _
        | post p attempt => exact .same (fun _ => rfl) rfl
  unfold World.ackRound
  dsimp only
  split
  · exact resumes w.device _ (by simp)
  · next nonzero =>
      have waiting : flight.live c ≠ [] := by
        intro nothing
        have few := (acking.core.pending c).few
        rw [nothing] at few
        exact nonzero (Nat.le_zero.mp few)
      have failing := @pollKernel_fails cqOf w flight settled acking.core
        command c (w.nodes c).ahead waiting
      rcases pollKernel_cases acking.core command c nonzero with
        ⟨fails, -⟩ | ⟨answers, consumes⟩
      · generalize w.pollKernel command c (w.nodes c).ahead = answer
          at fails failing
        obtain ⟨result, h⟩ := answer
        subst fails
        dsimp only
        split
        · exact resumes h false (fun here => by cases here)
        · exact .retire (reason (failing rfl)) _ rfl rfl rfl
      · rw [Nat.min_eq_left (acking.core.pending c).few] at consumes
        have settles := settle_eq acking.core consumes
        generalize w.pollKernel command c (w.nodes c).ahead = answer
          at answers settles
        obtain ⟨result, h⟩ := answer
        have answered : result = _ := answers
        subst answered
        obtain ⟨listed, all⟩ := answer_all acking.core nonzero
        have fits := not_or.mpr ⟨listed, Nat.not_lt.mpr (Nat.le_of_eq all)⟩
        have kept : ∀ other, ((w.round c ((w.nodes c).drop
            (w.nodes c).ahead) h).nodes other).retired =
              (w.nodes other).retired := by
          intro other
          dsimp only [World.round]
          exact Retires.setNode_retired (by rfl) other
        dsimp only
        split
        · rw [all]
          exact .same kept rfl
        · rw [settles]
          exact .same kept rfl

theorem verifyRound_retires (seen : Seen cqOf w flight settled) {c : Nat}
    {base : UInt32} {done left : List Wc}
    (here : w.call = .verify c base done left) :
    Retires w (w.verifyRound c base done left) lost := by
  cases left with
  | nil =>
      obtain ⟨-, -, stands⟩ := seen
      rw [Stands, here] at stands
      exact .hand stands.1 (fun _ => rfl) fun _ => handed_hand _
  | cons wc left =>
      obtain ⟨core, -, stands⟩ := seen
      rw [here] at core
      rw [Stands, here] at stands
      obtain ⟨-, level, listed, place⟩ := stands
      obtain ⟨entry, rest, entries, rfl, -, there⟩ :=
        verified core listed place
      have next : (flight.live c)[(w.nodes c).ahead]? = some entry := by
        rw [level, entries]
        rfl
      obtain ⟨context, decodes, -, -, -⟩ := core.decode next
      have agrees : Mirror.same entry.wc
          (completionOf entry.cqe entry.record false) = true :=
        same_publish (completionOf_user _ _ _)
      rw [World.verifyRound, there, decodes]
      dsimp only
      rw [if_pos agrees]
      exact .same (fun _ => rfl) rfl

theorem startPoll_retires (w : World) (c maximum : Nat) :
    Retires w (w.startPoll c maximum) lost := by
  unfold World.startPoll
  split <;> exact .same (fun _ => rfl) rfl

theorem startPost_retires (w : World) (p : Post) :
    Retires w (w.startPost p) lost := by
  unfold World.startPost
  dsimp only
  split
  · exact .same (fun _ => rfl) rfl
  · split <;> exact .same (fun _ => rfl) rfl

theorem freshCommand_retires (w : World) (command : Command) (c maximum : Nat) :
    Retires w (w.freshCommand command c maximum) lost := by
  unfold World.freshCommand
  split <;> exact .same (fun _ => rfl) rfl

theorem postRound_retires (seen : Seen cqOf w flight settled) {p : Post}
    {number : Nat} (here : w.call = .post p number) {command : Command}
    (can : Sendable w command p) :
    Retires w (w.postRound command p number) lost := by
  obtain ⟨flight', live, moved, nodes, handed, -⟩ := attempted seen here can
  exact .same (fun c => by rw [nodes]) handed

/-- Each step retires a queue for a reason, and leaves a retired one alone. -/
theorem retires (seen : Seen cqOf w flight settled) {action : Action}
    {after : World} (allowed : Allowed cqOf w action)
    (taken : w.act action = some after) :
    Retires w after (Lost w action) := by
  cases World.acts taken with
  | startPoll idle c maximum => exact startPoll_retires w c maximum
  | startPost idle p => exact startPost_retires w p
  | next command =>
      rw [World.next]
      cases here : w.call with
      | idle => exact .same (fun _ => rfl) rfl
      | poll c maximum base out =>
          exact seen.pollRound_retires here fun dead =>
            .inl ⟨maximum, base, out, here, dead⟩
      | ack c client =>
          refine seen.ackRound_retires here fun why => .inr ?_
          exact why.imp_right fun lost => ⟨command, rfl, lost⟩
      | fresh c maximum => exact freshCommand_retires w command c maximum
      | verify c base done left => exact seen.verifyRound_retires here
      | post p number =>
          exact seen.postRound_retires here (allowed p number here)
  | write => exact .same (fun _ => rfl) rfl
  | quarantine => exact .same (fun _ => rfl) rfl
  | quiesce => exact .same (fun _ => rfl) rfl

end Seen

end Mirror
end Mcdma
