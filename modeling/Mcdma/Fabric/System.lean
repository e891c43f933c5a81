import Mcdma.Fabric.Ledger
import Mcdma.Fabric.Sender
import Mcdma.Link.Chain

/-!
# A bond at work

The sender of a bond, its links and its receiver as one transition system.  The
sender runs one call at a time.  Its messages leave through a link's outbox one
by one, cross a reliable, ordered wire and are taken by the receiver's `take`;
the links do this independently of each other, so every interleaving of their
steps is a run.  Answers to fences travel back on the same link.

A state also keeps what the program does not: the calls made, the log of their
stores, how many flushes were completed, what was posted when the last one was,
and where each wire ends.
-/

namespace Mcdma
namespace Fabric

open Link

/-- The receiving end of a bond. -/
structure Receiver where
  lanes : Nat → Rx
  bond : Bond
  stores : List Store := []

namespace Receiver

/-- The receiving end as link `lane` sees it. -/
def recv (receiver : Receiver) (lane : Nat) : Recv Bond :=
  ⟨receiver.lanes lane, receiver.bond, receiver.stores⟩

/-- What link `lane` leaves behind. -/
def put (receiver : Receiver) (lane : Nat) (recv : Recv Bond) : Receiver where
  lanes := Function.update receiver.lanes lane recv.rx
  bond := recv.bond
  stores := recv.stores

/-- Link `lane` tries to take a message. -/
def deliver (links lane now : Nat) (reply : Reply) (receiver : Receiver)
    (msg : Msg) : Option (Receiver × Taken) :=
  (drainOne (some (bondHooks links lane)) now reply (receiver.recv lane)
    msg).map fun after => (receiver.put lane after.1, after.2)

end Receiver

/-- A call on a bonded peer. -/
inductive Call
  | write (copy : Write)
  | signal (word : Word)
  | writeSignal (copy : Write) (word : Word)
  | flush

/-- `in`: `len` bytes at `off` lie below `limit`. -/
def within (off len limit : Nat) : Prop :=
  off ≤ limit ∧ len ≤ limit - off

instance (off len limit : Nat) : Decidable (within off len limit) :=
  inferInstanceAs (Decidable (_ ∧ _))

/-- A word a signal may store. -/
def Word.InBounds (cfg : Config) (word : Word) : Prop :=
  word.off % 8 = 0 ∧ within word.off 8 cfg.remoteLength ∧ word.value < 2 ^ 64

instance (cfg : Config) (word : Word) : Decidable (word.InBounds cfg) :=
  inferInstanceAs (Decidable (_ ∧ _))

/-- A copy between the windows. -/
def Write.InBounds (cfg : Config) (copy : Write) : Prop :=
  within copy.off copy.len cfg.winLength ∧
    within copy.roff copy.len cfg.remoteLength

instance (cfg : Config) (copy : Write) : Decidable (copy.InBounds cfg) :=
  inferInstanceAs (Decidable (_ ∧ _))

/-- The bounds every call checks first. -/
def Call.InBounds (cfg : Config) : Call → Prop
  | .write copy => copy.InBounds cfg
  | .signal word => word.InBounds cfg
  | .writeSignal copy word =>
      (copy.len ≠ 0 → wsRoom ≤ copy.off) ∧ copy.InBounds cfg ∧
        word.InBounds cfg
  | .flush => True

instance (cfg : Config) : (call : Call) → Decidable (call.InBounds cfg)
  | .write copy => inferInstanceAs (Decidable (copy.InBounds cfg))
  | .signal word => inferInstanceAs (Decidable (word.InBounds cfg))
  | .writeSignal _ _ => inferInstanceAs (Decidable (_ ∧ _))
  | .flush => inferInstanceAs (Decidable True)

/-- Where the sender stands: at a point of a call, or in a flush before it, with
the links below `lane` fenced and perhaps a fence of `lane` under way. -/
inductive Pc
  | run (rest : Rest)
  | flush (lane : Nat) (rest : Rest)
  | fence (lane mine : Nat) (rest : Rest)

/-- Where a stretch of a call leaves the sender. -/
def Next.pc : Next → Pc
  | .go rest => .run rest
  | .flush rest => .flush 0 rest

/-- The first point of a call. -/
def Call.start : Call → Pc
  | .write copy => .run (.prepare copy none)
  | .signal word => .run (.signal word)
  | .writeSignal copy word =>
      if copy.len = 0 then .run (.signal word)
      else .run (.writeSignal copy word)
  | .flush => .flush 0 .done

/-- A bond with everything in flight. -/
structure Sys where
  peer : Peer := {}
  pc : Pc := .run .done
  out : Nat → List Post := fun _ => []
  wire : Nat → List Post := fun _ => []
  acks : Nat → List Nat := fun _ => []
  receiver : Receiver
  calls : List Call := []
  log : List Entry := []
  epoch : Nat := 0
  base : Nat → Nat := fun _ => 0
  sent : Nat → Pos := fun _ => ⟨0, 0, none⟩

namespace Sys

/-- A bond just connected. -/
def init (cfg : Config) : Sys where
  receiver :=
    { lanes := fun _ => { accepted := some (0, cfg.remoteLength) }
      bond := { bonded := cfg.links, winLength := cfg.remoteLength } }

/-- Put messages into a link's outbox and their stores into the log. -/
def emit (sys : Sys) (batch : Batch) : Sys :=
  { sys with
    out := Function.update sys.out batch.1 (sys.out batch.1 ++ batch.2)
    log := sys.log ++ (batch.2.flatMap (Post.stores batch.1)).map
      (Entry.mk sys.epoch) }

/-- Everything the sender decided to post has left. -/
def Quiet (cfg : Config) (sys : Sys) : Prop :=
  ∀ lane < cfg.links, sys.out lane = []

instance (cfg : Config) (sys : Sys) : Decidable (sys.Quiet cfg) :=
  decidable_of_iff (∀ lane < cfg.links, (sys.out lane).isEmpty = true)
    (by simp [Quiet])

/-- The sender carries its call on. -/
def advance (cfg : Config) (oracle : Oracle) (sys : Sys) : Option Sys :=
  match sys.pc with
  | .run rest =>
      (rest.run cfg oracle sys.peer).map fun ran =>
        { ran.2.1.foldl emit sys with
          peer := ran.1
          pc := ran.2.2.pc }
  | .flush lane rest =>
      if lane < cfg.links then
        let fence := tbFence (sys.peer.lanes lane)
        some { sys.emit (lane, fence.1) with
          peer := sys.peer.setLane lane fence.2
          pc := .fence lane fence.2.fences rest }
      else
        -- every link has answered: nothing earlier is left to wait for
        some { sys with
          peer := { sys.peer with
            table := {}
            txFenced := sys.peer.txSignal }
          pc := .run rest
          epoch := sys.epoch + 1
          base := sys.peer.writes }
  | .fence lane mine rest =>
      if 0 ≤ diff32 (sys.peer.lanes lane).fenceAcked mine then
        some { sys with pc := .flush (lane + 1) rest }
      else none

/-- A message leaves a link's outbox for the wire. -/
def transmit (lane : Nat) (sys : Sys) : Option Sys :=
  match sys.out lane with
  | [] => none
  | post :: rest =>
      some { sys with
        out := Function.update sys.out lane rest
        wire := Function.update sys.wire lane (sys.wire lane ++ [post])
        sent := Function.update sys.sent lane
          ((post.step (sys.sent lane)).getD (sys.sent lane)) }

/-- The receiver's link tries to take the first message on its wire. -/
def take (cfg : Config) (lane now : Nat) (reply : Reply) (sys : Sys) :
    Option (Sys × Taken) :=
  match sys.wire lane with
  | [] => none
  | post :: rest =>
      (sys.receiver.deliver cfg.links lane now reply post.msg).map fun after =>
        (match after.2 with
          | .taken answer =>
              { sys with
                wire := Function.update sys.wire lane rest
                receiver := after.1
                acks := Function.update sys.acks lane
                  (sys.acks lane ++ answer.toList) }
          | _ => { sys with receiver := after.1 },
        after.2)

/-- The sender's link takes the answer to a fence. -/
def ack (lane : Nat) (sys : Sys) : Option Sys :=
  match sys.acks lane with
  | [] => none
  | value :: rest =>
      some { sys with
        acks := Function.update sys.acks lane rest
        peer := sys.peer.setLane lane
          { sys.peer.lanes lane with fenceAcked := value % 2 ^ 32 } }

end Sys

/-- What can happen next. -/
inductive Action
  | call (call : Call)
  | advance (oracle : Oracle)
  | transmit (lane : Nat)
  | take (lane now : Nat) (reply : Reply)
  | ack (lane : Nat)

/-- One step of a bond. -/
def Sys.step (cfg : Config) (sys : Sys) : Action → Option Sys
  | .call call =>
      match sys.pc with
      | .run .done =>
          if call.InBounds cfg ∧ sys.Quiet cfg then
            some { sys with pc := call.start, calls := sys.calls ++ [call] }
          else none
      | _ => none
  | .advance oracle =>
      if sys.Quiet cfg then sys.advance cfg oracle else none
  | .transmit lane => if lane < cfg.links then sys.transmit lane else none
  | .take lane now reply =>
      if lane < cfg.links then (sys.take cfg lane now reply).map Prod.fst
      else none
  | .ack lane => if lane < cfg.links then sys.ack lane else none

/-- The states a bond can get into. -/
inductive Reach (cfg : Config) : Sys → Prop
  | init : Reach cfg (Sys.init cfg)
  | step {sys next : Sys} (action : Action) (reach : Reach cfg sys)
      (stepped : sys.step cfg action = some next) : Reach cfg next

/-- Run a list of actions. -/
def Sys.run (cfg : Config) (sys : Sys) : List Action → Option Sys
  | [] => some sys
  | action :: rest => (sys.step cfg action).bind fun next => next.run cfg rest

/-- Whatever a list of actions leads to can be reached. -/
theorem Reach.run {cfg : Config} {sys final : Sys} (reach : Reach cfg sys)
    (actions : List Action) (ran : sys.run cfg actions = some final) :
    Reach cfg final := by
  induction actions generalizing sys with
  | nil =>
      have same := Option.some.inj ran
      rwa [← same]
  | cons action rest inductionHypothesis =>
      obtain ⟨next, stepped, onward⟩ := Option.bind_eq_some_iff.mp ran
      exact inductionHypothesis (reach.step action stepped) onward

theorem Reach.get {cfg : Config} {actions : List Action}
    (ran : ((Sys.init cfg).run cfg actions).isSome = true) :
    Reach cfg (((Sys.init cfg).run cfg actions).get ran) :=
  Reach.init.run actions (Option.some_get ran).symm

end Fabric
end Mcdma
