import Mcdma.Hca.Purge
import Mcdma.Lib.Machine
import Mcdma.Mirror.Posts

/-!
# The user provider while it consumes completions itself

A process's calls run under the lock of its context, one at a time, while the
device writes completions into the rings.  A call is a sequence of steps: it
reads one entry of a ring, or gives the kernel one command and works on its
answer.  Between two steps the device can write, and the transport can be
quarantined.

What the device owes, what it has written and what the application was handed
are kept for the record.
-/

namespace Mcdma
namespace Mirror

open Hca (Cqe Device slotOf slotOfCounter)

/-- `struct mcdma_cq` of a queue whose completions the process consumes. -/
structure UserCq where
  retired : Bool
  ahead : Nat
  pending : Fin 32 → UserCompletion
  pendingHead : UInt32
  pendingCount : Nat
  emptyPolls : Nat

/-- A call of `mcdma_post_send` or `mcdma_post_recv`. -/
inductive Post where
  | send (q : Nat) (wrs : List SendWr)
  | receive (q : Nat) (wrs : List RecvWr)

/-- The queue pair of a call. -/
def Post.qp : Post → Nat
  | .send q _ => q
  | .receive q _ => q

/-- Whether a call is of the send side. -/
def Post.isSend : Post → Bool
  | .send _ _ => true
  | .receive _ _ => false

/-- Who has called `acknowledge`: `user_poll` with what it has reported, or a
post that then makes an attempt. -/
inductive Then where
  | poll (out : List Wc)
  | post (p : Post) (attempt : Nat)

/-- Where the call stands that holds the context's lock: in the loop of
`user_poll`, in that of `acknowledge`, before the command of `kernel_fresh`, in
its loop over what the kernel answered, or before an attempt to post. -/
inductive Call where
  | idle
  | poll (c maximum : Nat) (base : UInt32) (out : List Wc)
  | ack (c : Nat) (client : Then)
  | fresh (c maximum : Nat)
  | verify (c : Nat) (base : UInt32) (done left : List Wc)
  | post (p : Post) (attempt : Nat)

/-- A completion that the device has written, with the request it completes. -/
structure Entry where
  cqe : Cqe
  q : Nat
  record : UserRecord

/-- The name of the request. -/
def Entry.key (entry : Entry) : Key :=
  (entry.q, sendSide entry.cqe, slotOfCounter entry.cqe.counter)

/-- What the application should be handed for it. -/
def Entry.wc (entry : Entry) : Wc :=
  publish (completionOf entry.cqe entry.record false)

/-- The kernel, the process, and the record of the run: the device's position
in each ring, the requests it owes, what it has written and what the application
was handed. -/
structure World where
  device : Device
  signalAll : Nat → Bool
  context : Context
  nodes : Nat → UserCq
  call : Call
  hardware : Nat → UInt32
  owed : Key → Option UserRecord
  written : Nat → List Entry
  handed : Nat → List Wc

/-- `mcdma_cq_consumer`. -/
def cqConsumer (h : Device) (c : Nat) : UInt32 :=
  (h.cqs c).consumer &&& 0xffffff

/-- What `mcdma_cq_entry` finds. -/
inductive Found where
  | retired
  | empty
  | ready (cqe : Cqe)

/-- `mcdma_cq_entry`. -/
def cqEntry (h : Device) (c : Nat) (index : UInt32) : Found :=
  if !(h.cqs c).live then .retired
  else if ((h.cqs c).entry index).published index then
    .ready ((h.cqs c).entry index)
  else .empty

namespace World

variable (w : World)

def setNode (c : Nat) (node : UserCq) : World :=
  { w with nodes := Function.update w.nodes c node }

/-- `retire`. -/
def retire (c : Nat) : World :=
  w.setNode c { w.nodes c with retired := true }

/-- The call returns an error. -/
def fail : World := { w with call := .idle }

/-- `poll_cq` returns completions. -/
def hand (c : Nat) (out : List Wc) : World :=
  { w with
    call := .idle
    handed := Function.update w.handed c (w.handed c ++ out) }

/-- The kernel's answer to `ibv_cmd_poll_cq`. -/
def pollKernel (command : Command) (c maximum : Nat) :
    Except Unit (List Wc) × Device :=
  if command.reached then pollCq w.device c maximum else (.error (), w.device)

/-! ## `user_poll` -/

/-- The start of `poll_cq`. -/
def startPoll (c maximum : Nat) : World :=
  if maximum = 0 ∨ (w.nodes c).retired then w
  else { w with call := .poll c maximum (cqConsumer w.device c) [] }

/-- `user_poll` after its loop. -/
def endPoll (c maximum : Nat) (out : List Wc) : World :=
  let node := w.nodes c
  if out ≠ [] then
    let w := w.setNode c { node with emptyPolls := 0 }
    if node.ahead ≥ 24 then { w with call := .ack c (.poll out) }
    else w.hand c out
  else if node.emptyPolls + 1 < 256 then
    (w.setNode c { node with emptyPolls := node.emptyPolls + 1 }).hand c []
  else
    let w := w.setNode c { node with emptyPolls := 0 }
    if node.ahead ≠ 0 then { w with call := .ack c (.poll []) }
    else { w with call := .fresh c maximum }

/-- One more completion is reported ahead of the kernel. -/
def report (c : Nat) (completion : UserCompletion) (context : Context) :
    World :=
  let node := w.nodes c
  { w.setNode c
      { node with
        pending := Function.update node.pending
          (slotOf (node.pendingHead + UInt32.ofNat node.pendingCount))
          completion
        pendingCount := node.pendingCount + 1
        ahead := node.ahead + 1 } with
    context := context }

/-- One round of the loop of `user_poll`. -/
def pollRound (c maximum : Nat) (base : UInt32) (out : List Wc) : World :=
  let node := w.nodes c
  if out.length < maximum ∧ node.ahead < 31 then
    match cqEntry w.device c (base + UInt32.ofNat node.ahead) with
    | .retired => (w.retire c).fail
    | .empty => w.endPoll c maximum out
    | .ready cqe =>
        match userDecode w.context cqe with
        | none => (w.retire c).fail
        | some (completion, context) =>
            { w.report c completion context with
              call := .poll c maximum base (out ++ [publish completion]) }
  else w.endPoll c maximum out

/-- What `user_poll` can do after its loop. -/
inductive EndPoll (c maximum : Nat) (out : List Wc) : World → Prop
  | acknowledges (nonempty : out ≠ []) (many : 24 ≤ (w.nodes c).ahead) :
      EndPoll c maximum out
        { w.setNode c { w.nodes c with emptyPolls := 0 } with
          call := .ack c (.poll out) }
  | hands (nonempty : out ≠ []) (few : (w.nodes c).ahead < 24) :
      EndPoll c maximum out
        ((w.setNode c { w.nodes c with emptyPolls := 0 }).hand c out)
  | waits (nothing : out = []) (count : Nat) :
      EndPoll c maximum out
        ((w.setNode c { w.nodes c with emptyPolls := count }).hand c [])
  | settles (nothing : out = []) :
      EndPoll c maximum out
        { w.setNode c { w.nodes c with emptyPolls := 0 } with
          call := .ack c (.poll []) }
  | asks (nothing : out = []) (level : (w.nodes c).ahead = 0) :
      EndPoll c maximum out
        { w.setNode c { w.nodes c with emptyPolls := 0 } with
          call := .fresh c maximum }

theorem endPoll_spec (c maximum : Nat) (out : List Wc) :
    w.EndPoll c maximum out (w.endPoll c maximum out) := by
  unfold endPoll
  dsimp only
  split
  · next nonempty =>
      split
      · next many => exact .acknowledges nonempty many
      · next few => exact .hands nonempty (Nat.lt_of_not_le few)
  · next nothing =>
      have silent := not_not.mp nothing
      split
      · exact .waits silent _
      · split
        · exact .settles silent
        · next level => exact .asks silent (not_not.mp level)

/-- What a round of the loop of `user_poll` can do. -/
inductive PollRound (c maximum : Nat) (base : UInt32) (out : List Wc) :
    World → Prop
  | ends {after : World} (ended : w.EndPoll c maximum out after) :
      PollRound c maximum base out after
  | gone (gone : (w.device.cqs c).live = false) :
      PollRound c maximum base out (w.retire c).fail
  | unknown {cqe : Cqe} (few : (w.nodes c).ahead < 31)
      (ready : cqEntry w.device c (base + UInt32.ofNat (w.nodes c).ahead) =
        .ready cqe)
      (decodes : userDecode w.context cqe = none) :
      PollRound c maximum base out (w.retire c).fail
  | reports {cqe : Cqe} {completion : UserCompletion} {context : Context}
      (room : out.length < maximum) (few : (w.nodes c).ahead < 31)
      (ready : cqEntry w.device c (base + UInt32.ofNat (w.nodes c).ahead) =
        .ready cqe)
      (decodes : userDecode w.context cqe = some (completion, context)) :
      PollRound c maximum base out
        { w.report c completion context with
          call := .poll c maximum base (out ++ [publish completion]) }

theorem pollRound_spec (c maximum : Nat) (base : UInt32) (out : List Wc) :
    w.PollRound c maximum base out (w.pollRound c maximum base out) := by
  have ends := w.endPoll_spec c maximum out
  unfold pollRound
  dsimp only
  split
  · next room =>
      split
      · next retired =>
          refine .gone ?_
          unfold cqEntry at retired
          split at retired
          · next dead => simpa using dead
          · split at retired <;> cases retired
      · exact .ends ends
      · next cqe ready =>
          split
          · next unknown => exact .unknown room.2 ready unknown
          · next decodes => exact .reports room.1 room.2 ready decodes
  · exact .ends ends

/-! ## `acknowledge` -/

/-- The caller of `acknowledge` goes on. -/
def resume (c : Nat) (client : Then) (fine : Bool) : World :=
  if fine then
    match client with
    | .poll out => w.hand c out
    | .post p attempt => { w with call := .post p attempt }
  else w.fail

/-- The round ends with the call still in `acknowledge`. -/
def round (c : Nat) (node : UserCq) (device : Device) : World :=
  { w.setNode c node with device := device }

end World

namespace UserCq

/-- So many completions are no longer pending. -/
def drop (node : UserCq) (count : Nat) : UserCq :=
  { node with
    pendingHead := node.pendingHead + UInt32.ofNat count
    pendingCount := node.pendingCount - count
    ahead := node.ahead - count }

/-- The loop over the kernel's completions: each is compared with the oldest
pending one. -/
def checkOff (node : UserCq) : List Wc → UserCq
  | [] => node
  | wc :: rest =>
      let agrees := same wc (node.pending (slotOf node.pendingHead))
      let node := { node with retired := node.retired || !agrees }
      (node.drop 1).checkOff rest

/-- The node after the kernel has answered with completions, given its consumer
index before and after. -/
def settle (node : UserCq) (completions : List Wc) (before after : UInt32) :
    UserCq :=
  let node := node.checkOff completions
  let moved := (after - before) &&& 0xffffff
  if node.retired = false ∧ moved ≠ UInt32.ofNat completions.length then
    { node with retired := true }
  else node

theorem drop_drop (node : UserCq) (first second : Nat) :
    (node.drop first).drop second = node.drop (first + second) := by
  simp only [drop, mk.injEq, true_and, and_true]
  refine ⟨Nat.sub_sub _ _ _, ?_, Nat.sub_sub _ _ _⟩
  rw [UInt32.ofNat_add, UInt32.add_assoc]

/-- The kernel's completions are checked off when they are those pending. -/
theorem checkOff_eq (node : UserCq) (entries : List Entry)
    (pending : ∀ offset entry, entries[offset]? = some entry →
      node.pending (slotOf (node.pendingHead + UInt32.ofNat offset)) =
        completionOf entry.cqe entry.record false) :
    node.checkOff (entries.map Entry.wc) = node.drop entries.length := by
  induction entries generalizing node with
  | nil =>
      rw [List.map_nil, checkOff, List.length_nil, drop]
      rw [show UInt32.ofNat 0 = 0 from rfl, UInt32.add_zero]
      rfl
  | cons entry rest inductionHypothesis =>
      have first := pending 0 entry rfl
      rw [show UInt32.ofNat 0 = 0 from rfl, UInt32.add_zero] at first
      have agrees : same entry.wc (node.pending (slotOf node.pendingHead)) =
          true := by
        rw [first]
        exact same_publish (completionOf_user _ _ _)
      have still : ({ node with retired := node.retired || !true } : UserCq) =
          node := by
        simp
      rw [List.map_cons, checkOff, agrees, still, inductionHypothesis,
        drop_drop, List.length_cons, Nat.add_comm]
      intro offset found here
      have later := pending (offset + 1) found here
      rw [drop]
      dsimp only
      rw [Hca.add_ofNat, Nat.add_comm]
      exact later

end UserCq

namespace World

variable (w : World)

/-- One round of the loop of `acknowledge`. -/
def ackRound (command : Command) (c : Nat) (client : Then) : World :=
  let node := w.nodes c
  if node.ahead = 0 then w.resume c client (!node.retired)
  else
    match w.pollKernel command c node.ahead with
    | (.error _, h) =>
        if node.retired then { w with device := h }.resume c client false
        else w.round c { node with retired := true } h
    | (.ok completions, h) =>
        if node.retired then
          if completions = [] then { w with device := h }.resume c client false
          else w.round c (node.drop completions.length) h
        else if completions = [] ∨ completions.length > node.ahead then
          w.round c { node with retired := true } h
        else
          w.round c (node.settle completions (cqConsumer w.device c)
            (cqConsumer h c)) h

/-- What a round of the loop of `acknowledge` can do: its caller goes on, the
queue is retired, or fewer completions are ahead. -/
inductive AckRound (c : Nat) (client : Then) : World → Prop
  | done (level : (w.nodes c).ahead = 0) :
      AckRound c client (w.resume c client (!(w.nodes c).retired))
  | fails (retired : (w.nodes c).retired = true) (h : Device) :
      AckRound c client ({ w with device := h }.resume c client false)
  | retires (working : (w.nodes c).retired = false) (h : Device) :
      AckRound c client (w.round c { w.nodes c with retired := true } h)
  | drops (retired : (w.nodes c).retired = true) (nonzero : (w.nodes c).ahead ≠ 0)
      {completions : List Wc} (listed : completions ≠ []) (h : Device) :
      AckRound c client (w.round c ((w.nodes c).drop completions.length) h)
  | settles (working : (w.nodes c).retired = false)
      (nonzero : (w.nodes c).ahead ≠ 0) {completions : List Wc}
      (listed : completions ≠ []) (before after : UInt32) (h : Device) :
      AckRound c client
        (w.round c ((w.nodes c).settle completions before after) h)

theorem ackRound_spec (command : Command) (c : Nat) (client : Then) :
    w.AckRound c client (w.ackRound command c client) := by
  unfold ackRound
  dsimp only
  split
  · next level => exact .done level
  · next nonzero =>
      split
      · next h answer =>
          split
          · next retired => exact .fails retired h
          · next working => exact .retires (by simpa using working) h
      · next completions h answer =>
          split
          · next retired =>
              split
              · exact .fails retired h
              · next listed => exact .drops retired nonzero listed h
          · next working =>
              have still : (w.nodes c).retired = false := by simpa using working
              split
              · exact .retires still h
              · next fits =>
                  exact .settles still nonzero (not_or.mp fits).1 _ _ h

/-! ## `kernel_fresh` -/

/-- The command of `kernel_fresh`. -/
def freshCommand (command : Command) (c maximum : Nat) : World :=
  match w.pollKernel command c maximum with
  | (.error _, h) => { w with device := h }.fail
  | (.ok completions, h) =>
      { w with
        device := h
        call := .verify c (cqConsumer w.device c) [] completions }

/-- One round of the loop of `kernel_fresh`. -/
def verifyRound (c : Nat) (base : UInt32) (done : List Wc) :
    List Wc → World
  | [] => w.hand c done
  | wc :: left =>
      let cqe := (w.device.cqs c).entry (base + UInt32.ofNat done.length)
      match userDecode w.context cqe with
      | none => (w.retire c).fail
      | some (completion, context) =>
          let w := { w with context := context }
          if same wc completion then
            let handed := if completion.user then publish completion else wc
            { w with call := .verify c base (done ++ [handed]) left }
          else (w.retire c).fail

/-! ## `mcdma_post_send` and `mcdma_post_recv` -/

/-- The completion queue of a call. -/
def cqOf (p : Post) : Nat := (w.context.qps p.qp).cqOf p.isSend

/-- The start of a post through the kernel; a queue pair that the process posts
itself (`user_posted`) is left out. -/
def startPost (p : Post) : World :=
  let c := w.cqOf p
  if (w.context.qps p.qp).kernelDestroyed ∨ (w.nodes c).retired then w
  else if (w.nodes c).ahead ≥ 8 then { w with call := .ack c (.post p 0) }
  else { w with call := .post p 0 }

/-- One attempt: the mirror records the list, the kernel posts it, and the
mirror takes back what was refused. -/
def attempt {Wr : Type} (entry : Wr → Option (UInt64 × UInt8 × UInt32))
    (one : Device → Grant → Wr → Option Errno × Device) (command : Command)
    (p : Post) (wrs : List Wr) (number : Nat) : World :=
  let c := w.cqOf p
  let side := (w.context.qps p.qp).side p.isSend
  let recorded := recordAll entry side wrs
  let answer := kernelPost one w.device p.qp command wrs
  let kept := accepted wrs.length answer.1 answer.2.1
  let queue :=
    if kept < recorded.2 then recorded.1.rollback (recorded.2 - kept)
    else recorded.1
  let node := w.nodes c
  let node :=
    if kept > recorded.2 then { node with retired := true } else node
  let made := puts entry p.qp p.isSend
    (producerOf (w.device.qps p.qp) p.isSend) (wrs.take kept)
  let w : World :=
    { w.setNode c node with
      device := answer.2.2
      context := w.context.setSide p.qp p.isSend queue
      owed := Log.fill w.owed made }
  if answer.1 ≠ some .noMemory ∨ number ≠ 0 ∨ kept ≠ 0 ∨ node.ahead = 0 then
    { w with call := .idle }
  else { w with call := .ack c (.post p 1) }

/-- What an attempt leaves of the nodes and of the call: no queue is taken up
again, and none is further ahead. -/
structure Attempt (p : Post) (node : UserCq) (after : World) : Prop where
  nodes : after.nodes = Function.update w.nodes (w.cqOf p) node
  handed : after.handed = w.handed
  retired : (w.nodes (w.cqOf p)).retired = true → node.retired = true
  ahead : node.ahead = (w.nodes (w.cqOf p)).ahead
  call : after.call = .idle ∨ after.call = .ack (w.cqOf p) (.post p 1)

theorem attempt_spec {Wr : Type}
    (entry : Wr → Option (UInt64 × UInt8 × UInt32))
    (one : Device → Grant → Wr → Option Errno × Device) (command : Command)
    (p : Post) (wrs : List Wr) (number : Nat) :
    ∃ node, w.Attempt p node (w.attempt entry one command p wrs number) := by
  have node : ∀ refused : Prop, [Decidable refused] →
      ((w.nodes (w.cqOf p)).retired = true →
        (if refused then { w.nodes (w.cqOf p) with retired := true }
          else w.nodes (w.cqOf p)).retired = true) ∧
      (if refused then { w.nodes (w.cqOf p) with retired := true }
        else w.nodes (w.cqOf p)).ahead = (w.nodes (w.cqOf p)).ahead := by
    intro refused _
    split
    · exact ⟨fun _ => rfl, rfl⟩
    · exact ⟨id, rfl⟩
  have either : ∀ (again : Prop) [Decidable again] {node : UserCq}
      {first second : World}, w.Attempt p node first →
      w.Attempt p node second →
      w.Attempt p node (if again then first else second) := by
    intro again _ node first second one other
    split
    · exact one
    · exact other
  exact ⟨_, either _
    ⟨rfl, rfl, (node _).1, (node _).2, .inl rfl⟩
    ⟨rfl, rfl, (node _).1, (node _).2, .inr rfl⟩⟩

/-- One attempt of a post. -/
def postRound (command : Command) (p : Post) (number : Nat) : World :=
  match p with
  | .send q wrs =>
      w.attempt sendEntry (fun h => postSend h q (w.signalAll q)) command p wrs
        number
  | .receive q wrs =>
      w.attempt receiveEntry (fun h => postRecv h q) command p wrs number

/-! ## The steps -/

/-- The next step of the call that holds the lock. -/
def next (command : Command) : World :=
  match w.call with
  | .idle => w
  | .poll c maximum base out => w.pollRound c maximum base out
  | .ack c client => w.ackRound command c client
  | .fresh c maximum => w.freshCommand command c maximum
  | .verify c base done left => w.verifyRound c base done left
  | .post p number => w.postRound command p number

/-- The device writes a completion into a ring. -/
def write (c : Nat) (entry : Entry) : World :=
  let cq := w.device.cqs c
  { w with
    device := w.device.setCq c
      { cq with
        ring := Function.update cq.ring (slotOf (w.hardware c)) entry.cqe }
    hardware := Function.update w.hardware c (w.hardware c + 1)
    owed := Function.update w.owed entry.key none
    written := Function.update w.written c (w.written c ++ [entry]) }

end World

/-- What can happen next. -/
inductive Action where
  | startPoll (c maximum : Nat)
  | startPost (p : Post)
  | next (command : Command)
  | write (c : Nat) (entry : Entry)
  | quarantine
  | quiesce

/-- `AppleProvider::quiesce`: the provider is not ready any more, and no ring is
live. -/
def quiesce (h : Device) : Device :=
  { h with
    inactive := true
    cqs := fun c => { h.cqs c with live := false } }

/-- The world after an action; a call waits for the lock. -/
def World.act (w : World) : Action → Option World
  | .startPoll c maximum =>
      match w.call with
      | .idle => some (w.startPoll c maximum)
      | _ => none
  | .startPost p =>
      match w.call with
      | .idle => some (w.startPost p)
      | _ => none
  | .next command => some (w.next command)
  | .write c entry => some (w.write c entry)
  | .quarantine => some { w with device := w.device.quarantine }
  | .quiesce => some { w with device := quiesce w.device }

/-- What an action does: a call starts only where none runs. -/
inductive World.Acts (w : World) : Action → World → Prop
  | startPoll (idle : w.call = .idle) (c maximum : Nat) :
      w.Acts (.startPoll c maximum) (w.startPoll c maximum)
  | startPost (idle : w.call = .idle) (p : Post) :
      w.Acts (.startPost p) (w.startPost p)
  | next (command : Command) : w.Acts (.next command) (w.next command)
  | write (c : Nat) (entry : Entry) : w.Acts (.write c entry) (w.write c entry)
  | quarantine : w.Acts .quarantine { w with device := w.device.quarantine }
  | quiesce : w.Acts .quiesce { w with device := quiesce w.device }

theorem World.acts {w after : World} {action : Action}
    (taken : w.act action = some after) : w.Acts action after := by
  cases action with
  | startPoll c maximum =>
      rw [World.act] at taken
      split at taken
      · next idle =>
          cases taken
          exact .startPoll idle c maximum
      · cases taken
  | startPost p =>
      rw [World.act] at taken
      split at taken
      · next idle =>
          cases taken
          exact .startPost idle p
      · cases taken
  | next command =>
      cases taken
      exact .next command
  | write c entry =>
      cases taken
      exact .write c entry
  | quarantine =>
      cases taken
      exact .quarantine
  | quiesce =>
      cases taken
      exact .quiesce

/-- The runs from a world. -/
def consume (start : World) : Machine World Action where
  start := start
  step := World.act

end Mirror
end Mcdma
