import Mcdma.Mirror.Runs

/-!
# Calls come to an end

Whatever the kernel answers, and whatever the device and the transport do
between two steps of a call, the call returns after a bounded number of its own
steps.
-/

namespace Mcdma
namespace Mirror

open Hca (Device)

/-! ## The steps a call has left -/

/-- The steps an attempt to post has left, given how many completions are
reported ahead on its queue. -/
def postSteps (ahead attempt : Nat) : Nat :=
  if attempt = 0 then ahead + 4 else 1

/-- The steps that are left to the caller of `acknowledge`. -/
def Then.steps (w : World) : Then → Nat
  | .poll _ => 0
  | .post p attempt => postSteps (w.nodes (w.cqOf p)).ahead attempt

/-- The steps `acknowledge` has left: each round confirms a completion, retires
the queue or ends. -/
def UserCq.ackSteps (node : UserCq) : Nat :=
  node.ahead + (if node.retired then 1 else 2)

/-- The steps that the running call has left at most. -/
def World.steps (w : World) : Nat :=
  match w.call with
  | .idle => 0
  | .poll c maximum _ _ =>
      31 - (w.nodes c).ahead + max (w.nodes c).ahead 31 + maximum + 3
  | .ack c client => (w.nodes c).ackSteps + client.steps w
  | .fresh _ maximum => maximum + 2
  | .verify _ _ _ left => left.length + 1
  | .post p attempt => postSteps (w.nodes (w.cqOf p)).ahead attempt

/-- Whether an action starts a call. -/
def Action.starts : Action → Bool
  | .startPoll _ _ => true
  | .startPost _ => true
  | _ => false

/-- Whether an action is a step of the running call. -/
def Action.goesOn : Action → Bool
  | .next _ => true
  | _ => false

namespace World

variable (w : World)

@[simp] theorem steps_fail : w.fail.steps = 0 := rfl

theorem steps_idle {w : World} : w.steps = 0 ↔ w.call = .idle := by
  unfold steps
  cases w.call with
  | idle => simp
  | poll c maximum base out => simp
  | ack c client =>
      simp only [UserCq.ackSteps, reduceCtorEq, iff_false]
      split <;> omega
  | fresh c maximum => simp
  | verify c base done left => simp
  | post p attempt =>
      simp only [postSteps, reduceCtorEq, iff_false]
      split <;> omega

@[simp] theorem nodes_setNode (c : Nat) (node : UserCq) :
    (w.setNode c node).nodes = Function.update w.nodes c node := rfl

@[simp] theorem call_setNode (c : Nat) (node : UserCq) :
    (w.setNode c node).call = w.call := rfl

/-- What `user_poll` leaves after its loop. -/
theorem endPoll_steps {w after : World} {c maximum : Nat} {out : List Wc}
    (ended : w.EndPoll c maximum out after) :
    after.steps ≤ max (w.nodes c).ahead 31 + maximum + 2 := by
  cases ended with
  | acknowledges =>
      simp only [steps, UserCq.ackSteps, Then.steps, nodes_setNode,
        Function.update_self]
      split <;> omega
  | hands => exact Nat.zero_le _
  | waits => exact Nat.zero_le _
  | settles =>
      simp only [steps, UserCq.ackSteps, Then.steps, nodes_setNode,
        Function.update_self]
      split <;> omega
  | asks =>
      simp only [steps]
      omega

/-- A round of `user_poll` ends its loop or reports one more completion. -/
theorem pollRound_steps {c maximum : Nat} {base : UInt32} {out : List Wc}
    (here : w.call = .poll c maximum base out) :
    (w.pollRound c maximum base out).steps < w.steps := by
  have now : w.steps = 31 - (w.nodes c).ahead + max (w.nodes c).ahead 31 +
      maximum + 3 := by
    rw [steps, here]
  have round := w.pollRound_spec c maximum base out
  generalize w.pollRound c maximum base out = after at round ⊢
  cases round with
  | ends ended =>
      have left := endPoll_steps ended
      omega
  | gone =>
      rw [steps_fail]
      omega
  | unknown =>
      rw [steps_fail]
      omega
  | reports =>
      simp only [steps, report, nodes_setNode, Function.update_self] at now ⊢
      omega

/-- What `acknowledge` leaves to its caller. -/
theorem resume_steps (c : Nat) (client : Then) (fine : Bool) :
    (w.resume c client fine).steps ≤ client.steps w := by
  unfold resume
  split
  · cases client with
    | poll out => exact Nat.le_refl _
    | post p attempt => exact Nat.le_refl _
  · exact Nat.zero_le _

/-- A round that leaves fewer steps to `acknowledge` leaves the caller no
more. -/
theorem round_steps {c : Nat} {client : Then} {node : UserCq} (h : Device)
    (here : w.call = .ack c client)
    (less : node.ackSteps < (w.nodes c).ackSteps)
    (ahead : node.ahead ≤ (w.nodes c).ahead) :
    (w.round c node h).steps < w.steps := by
  have mine : (w.round c node h).steps = node.ackSteps +
      client.steps (w.round c node h) := by
    simp only [steps, round, call_setNode, here, nodes_setNode,
      Function.update_self]
  have now : w.steps = (w.nodes c).ackSteps + client.steps w := by
    rw [steps, here]
  have callers : client.steps (w.round c node h) ≤ client.steps w := by
    cases client with
    | poll out => exact Nat.le_refl _
    | post p attempt =>
        have still : (w.round c node h).cqOf p = w.cqOf p := rfl
        simp only [Then.steps, still, postSteps]
        simp only [round, nodes_setNode]
        by_cases one : w.cqOf p = c
        · rw [one, Function.update_self]
          split <;> omega
        · rw [Function.update_of_ne one]
  omega

end World

namespace UserCq

variable (node : UserCq)

theorem checkOff_ahead (completions : List Wc) :
    (node.checkOff completions).ahead = node.ahead - completions.length := by
  induction completions generalizing node with
  | nil => rfl
  | cons wc rest inductionHypothesis =>
      rw [checkOff, inductionHypothesis, List.length_cons, Nat.add_comm,
        ← Nat.sub_sub]
      rfl

/-- Completions that the kernel has answered with are no longer ahead. -/
theorem settle_ahead (completions : List Wc) (before after : UInt32) :
    (node.settle completions before after).ahead =
      node.ahead - completions.length := by
  have all := node.checkOff_ahead completions
  unfold settle
  dsimp only
  split
  · exact all
  · exact all

end UserCq

/-- The kernel answers with no more completions than it was asked for. -/
theorem pollLoop_le {h : Device} {c left : Nat} {out completions : List Wc}
    (answer : (pollLoop h c left out).1 = .ok completions) :
    completions.length ≤ out.length + left := by
  induction left generalizing h out with
  | zero =>
      cases answer
      exact Nat.le_refl _
  | succ left inductionHypothesis =>
      rw [pollLoop] at answer
      split at answer
      · cases answer
        exact Nat.le_add_right _ _
      · dsimp only at answer
        split at answer
        · cases answer
        · cases answer
          exact Nat.le_add_right _ _
      · have most := inductionHypothesis answer
        rw [List.length_append, List.length_singleton] at most
        omega

namespace World

variable (w : World)

theorem pollKernel_le {command : Command} {c maximum : Nat}
    {completions : List Wc} {h : Device}
    (answer : w.pollKernel command c maximum = (.ok completions, h)) :
    completions.length ≤ maximum := by
  unfold pollKernel at answer
  split at answer
  · have most := pollLoop_le (congrArg Prod.fst answer)
    rwa [List.length_nil, Nat.zero_add] at most
  · cases answer

theorem ackRound_steps (command : Command) {c : Nat} {client : Then}
    (here : w.call = .ack c client) :
    (w.ackRound command c client).steps < w.steps := by
  have now : w.steps = (w.nodes c).ackSteps + client.steps w := by
    rw [steps, here]
  have resumes : ∀ (h : Device) (fine : Bool),
      ({ w with device := h }.resume c client fine).steps < w.steps := by
    intro h fine
    have left := { w with device := h }.resume_steps c client fine
    have still : client.steps { w with device := h } = client.steps w := by
      cases client <;> rfl
    have nonzero : 0 < (w.nodes c).ackSteps := by
      rw [UserCq.ackSteps]
      split <;> omega
    omega
  have round := w.ackRound_spec command c client
  generalize w.ackRound command c client = after at round ⊢
  cases round with
  | done => exact resumes w.device _
  | fails retired h => exact resumes h false
  | retires working h =>
      refine w.round_steps h here ?_ (Nat.le_refl _)
      simp [UserCq.ackSteps, working]
  | drops retired nonzero listed h =>
      have counted := List.length_pos_iff.mpr listed
      refine w.round_steps h here ?_ (Nat.sub_le _ _)
      simp only [UserCq.ackSteps, UserCq.drop, retired, if_true]
      omega
  | settles working nonzero listed before after h =>
      have counted := List.length_pos_iff.mpr listed
      have level : (w.nodes c).ackSteps = (w.nodes c).ahead + 2 := by
        simp [UserCq.ackSteps, working]
      refine w.round_steps h here ?_ ?_
      · rw [level, UserCq.ackSteps, UserCq.settle_ahead]
        split <;> omega
      · rw [UserCq.settle_ahead]
        exact Nat.sub_le _ _

theorem verifyRound_steps {c : Nat} {base : UInt32} {done left : List Wc}
    (here : w.call = .verify c base done left) :
    (w.verifyRound c base done left).steps < w.steps := by
  have now : w.steps = left.length + 1 := by rw [steps, here]
  cases left with
  | nil => exact now ▸ Nat.succ_pos _
  | cons wc left =>
      unfold verifyRound
      dsimp only
      split
      · exact now ▸ Nat.succ_pos _
      · split
        · rw [now, List.length_cons]
          exact Nat.lt_succ_self _
        · exact now ▸ Nat.succ_pos _

theorem freshCommand_steps (command : Command) {c maximum : Nat}
    (here : w.call = .fresh c maximum) :
    (w.freshCommand command c maximum).steps < w.steps := by
  have now : w.steps = maximum + 2 := by rw [steps, here]
  unfold freshCommand
  split
  · exact now ▸ Nat.succ_pos _
  · next completions h answer =>
      have most := w.pollKernel_le answer
      simp only [steps] at now ⊢
      omega

/-- A post ends, or its first attempt goes to `acknowledge`. -/
theorem post_steps {refused : Prop} [Decidable refused] {ended retried : World}
    {c : Nat} {p : Post} {number : Nat} (first : ¬refused → number = 0)
    (ends : ended.call = .idle) (retries : retried.call = .ack c (.post p 1))
    (ahead : (retried.nodes c).ahead = (w.nodes c).ahead) :
    (if refused then ended else retried).steps <
      postSteps (w.nodes c).ahead number := by
  split
  · rw [steps_idle.mpr ends, postSteps]
    split <;> omega
  · next again =>
      rw [first again, steps, retries]
      simp only [UserCq.ackSteps, ahead, Then.steps, postSteps, if_true,
        one_ne_zero, if_false]
      split <;> omega

theorem attempt_steps {Wr : Type}
    (entry : Wr → Option (UInt64 × UInt8 × UInt32))
    (one : Device → Grant → Wr → Option Errno × Device) (command : Command)
    {p : Post} (wrs : List Wr) {number : Nat} (here : w.call = .post p number) :
    (w.attempt entry one command p wrs number).steps < w.steps := by
  have now : w.steps = postSteps (w.nodes (w.cqOf p)).ahead number := by
    rw [steps, here]
  rw [now]
  unfold attempt
  dsimp only
  refine w.post_steps ?_ rfl rfl ?_
  · intro again
    exact not_not.mp (not_or.mp (not_or.mp again).2).1
  · rw [nodes_setNode, Function.update_self]
    split <;> rfl

/-- The next step of a running call leaves it fewer. -/
theorem next_steps (command : Command) :
    (w.next command).steps ≤ w.steps - 1 := by
  unfold next
  cases here : w.call with
  | idle => simp [steps_idle.mpr here]
  | poll c maximum base out =>
      have less := w.pollRound_steps here
      dsimp only
      omega
  | ack c client =>
      have less := w.ackRound_steps command here
      dsimp only
      omega
  | fresh c maximum =>
      have less := w.freshCommand_steps command here
      dsimp only
      omega
  | verify c base done left =>
      have less := w.verifyRound_steps here
      dsimp only
      omega
  | post p number =>
      have less : (w.postRound command p number).steps < w.steps := by
        cases p with
        | send q wrs => exact w.attempt_steps _ _ command wrs here
        | receive q wrs => exact w.attempt_steps _ _ command wrs here
      dsimp only
      omega

/-- The other steps leave the call as it is. -/
theorem act_steps {after : World} {action : Action}
    (other : action.starts = false) (taken : w.act action = some after) :
    after.steps ≤ w.steps - action.goesOn.toNat := by
  cases acts taken with
  | startPoll => cases other
  | startPost => cases other
  | next command => exact w.next_steps command
  | write => exact Nat.le_refl _
  | quarantine => exact Nat.le_refl _
  | quiesce => exact Nat.le_refl _

/-! ## How many completions are ahead -/

variable {w} in
theorem update_ahead {after : World} {c : Nat} {node : UserCq} {most : Nat}
    (few : ∀ other, (w.nodes other).ahead ≤ most)
    (nodes : after.nodes = Function.update w.nodes c node)
    (fits : node.ahead ≤ most) (other : Nat) :
    (after.nodes other).ahead ≤ most := by
  rw [nodes]
  by_cases one : other = c
  · subst one
    rwa [Function.update_self]
  · rw [Function.update_of_ne one]
    exact few other

theorem next_ahead (few : ∀ c, (w.nodes c).ahead ≤ 31) (command : Command)
    (c : Nat) : ((w.next command).nodes c).ahead ≤ 31 := by
  unfold next
  cases w.call with
  | idle => exact few c
  | poll ring maximum base out =>
      have round := w.pollRound_spec ring maximum base out
      dsimp only
      generalize w.pollRound ring maximum base out = after at round ⊢
      cases round with
      | ends ended =>
          cases ended <;> refine update_ahead few rfl ?_ c <;> exact few ring
      | gone =>
          refine update_ahead few rfl ?_ c
          exact few ring
      | unknown =>
          refine update_ahead few rfl ?_ c
          exact few ring
      | reports room below =>
          refine update_ahead few rfl ?_ c
          exact below
  | ack ring client =>
      have round := w.ackRound_spec command ring client
      dsimp only
      generalize w.ackRound command ring client = after at round ⊢
      have resumes : ∀ h fine,
          ((resume { w with device := h } ring client fine).nodes c).ahead ≤
            31 := by
        intro h fine
        unfold resume
        split
        · cases client <;> exact few c
        · exact few c
      cases round with
      | done => exact resumes w.device _
      | fails retired h => exact resumes h false
      | retires =>
          refine update_ahead few rfl ?_ c
          exact few ring
      | drops =>
          refine update_ahead few rfl ?_ c
          exact (Nat.sub_le _ _).trans (few ring)
      | settles =>
          refine update_ahead few rfl ?_ c
          rw [UserCq.settle_ahead]
          exact (Nat.sub_le _ _).trans (few ring)
  | fresh ring maximum =>
      dsimp only
      unfold freshCommand
      split <;> exact few c
  | verify ring base done left =>
      cases left with
      | nil => exact few c
      | cons wc left =>
          dsimp only
          unfold verifyRound
          dsimp only
          split
          · refine update_ahead few rfl ?_ c
            exact few ring
          · split
            · exact few c
            · refine update_ahead few rfl ?_ c
              exact few ring
  | post p number =>
      have posts : ∀ {Wr : Type}
          (entry : Wr → Option (UInt64 × UInt8 × UInt32))
          (one : Device → Grant → Wr → Option Errno × Device) (wrs : List Wr),
          ((w.attempt entry one command p wrs number).nodes c).ahead ≤ 31 := by
        intro Wr entry one wrs
        obtain ⟨node, tried⟩ := w.attempt_spec entry one command p wrs number
        refine update_ahead few tried.nodes ?_ c
        rw [tried.ahead]
        exact few _
      cases p with
      | send q wrs => exact posts _ _ wrs
      | receive q wrs => exact posts _ _ wrs

/-- No more than 31 completions are ever ahead of the kernel. -/
theorem act_ahead {after : World} {action : Action}
    (few : ∀ c, (w.nodes c).ahead ≤ 31) (taken : w.act action = some after)
    (c : Nat) : (after.nodes c).ahead ≤ 31 := by
  cases acts taken with
  | startPoll idle ring maximum =>
      unfold startPoll
      split <;> exact few c
  | startPost idle p =>
      unfold startPost
      dsimp only
      split
      · exact few c
      · split <;> exact few c
  | next command => exact w.next_ahead few command c
  | write => exact few c
  | quarantine => exact few c
  | quiesce => exact few c

end World

/-! ## Every call returns -/

/-- How many steps of its own a call takes at most. -/
def Action.bound : Action → Nat
  | .startPoll _ maximum => maximum + 65
  | _ => 68

variable {cqOf : Nat → Bool → Nat} {start w : World}

/-- What a call has before it when it starts. -/
theorem start_steps (few : ∀ c, (w.nodes c).ahead ≤ 31) {action : Action}
    {began : World} (starts : action.starts = true)
    (taken : w.act action = some began) : began.steps ≤ action.bound := by
  cases World.acts taken with
  | startPoll idle c maximum =>
      have most := few c
      unfold World.startPoll
      split
      · rw [World.steps_idle.mpr idle]
        exact Nat.zero_le _
      · simp only [World.steps, Action.bound]
        omega
  | startPost idle p =>
      have most := few (w.cqOf p)
      have still : ∀ call, ({ w with call := call } : World).cqOf p =
          w.cqOf p := fun _ => rfl
      unfold World.startPost
      dsimp only
      split
      · rw [World.steps_idle.mpr idle]
        exact Nat.zero_le _
      · split
        · simp only [World.steps, UserCq.ackSteps, Then.steps, postSteps,
            still, if_true, Action.bound]
          split <;> omega
        · simp only [World.steps, postSteps, still, if_true, Action.bound]
          omega
  | next => cases starts
  | write => cases starts
  | quarantine => cases starts
  | quiesce => cases starts

/-- A call that has taken so many steps has returned, whatever the kernel has
answered and whatever has happened in between. -/
theorem call_returns (level : ∀ c, (start.nodes c).ahead ≤ 31)
    (reached : (consume start).Reach w) {call : Action}
    {began later : World} (starts : call.starts = true)
    (taken : (consume start).step w call = some began) {actions : List Action}
    (others : ∀ action ∈ actions, action.starts = false)
    (ran : (consume start).run began actions = some later)
    (enough : call.bound ≤ actions.countP Action.goesOn) :
    later.call = .idle := by
  have few : ∀ c, (w.nodes c).ahead ≤ 31 :=
    reached.invariant (fun w => ∀ c, (w.nodes c).ahead ≤ 31) level
      fun before next _ few taken => before.act_ahead few taken
  have most := start_steps few starts taken
  have each : ∀ before next action, action.starts = false →
      (consume start).step before action = some next →
      next.steps ≤ before.steps - action.goesOn.toNat :=
    fun before next action other taken => before.act_steps other taken
  have left := Machine.run_rank World.steps Action.goesOn each others ran
  exact World.steps_idle.mp (by omega)

/-- Between two calls there is nothing to go on with. -/
theorem run_idle (idle : w.call = .idle) (command : Command) (count : Nat) :
    (consume start).run w (List.replicate count (.next command)) = some w := by
  induction count with
  | zero => rfl
  | succ count inductionHypothesis =>
      have same : w.next command = w := by rw [World.next, idle]
      rw [List.replicate_succ, Machine.run_cons _ (congrArg some same)]
      exact inductionHypothesis

/-- The poll of the sample, and 69 steps. -/
theorem call_returns_polled : polled.call = .idle := by
  have began : (consume sample).step completed (.startPoll 0 4) =
      some polling := rfl
  have first : (consume sample).step polling (.next granted) =
      some reporting := rfl
  have second : (consume sample).step reporting (.next granted) =
      some polled := rfl
  have ran : (consume sample).run polling
      (.next granted :: .next granted ::
        List.replicate 67 (.next granted)) = some polled := by
    rw [Machine.run_cons _ first, Machine.run_cons _ second]
    exact run_idle rfl granted 67
  refine call_returns (fun _ => Nat.zero_le _)
    (completed_reached.mono fun _ _ _ => trivial) (by rfl) began ?_ ran
    (by decide +kernel)
  intro action member
  simp only [List.mem_cons, List.mem_replicate] at member
  obtain rfl | rfl | ⟨-, rfl⟩ := member <;> rfl

end Mirror
end Mcdma
