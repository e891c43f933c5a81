import Mcdma.Setup.Daemon

/-!
# A client's call and the connect daemon's thread

`peer_thread`, `peer_down` and `peer_connect` of `rpcd_connect.c` at the grain of
their loads and stores of the mailbox's words, beside a client that makes one
call after another as the mailbox's documentation says: it notes the link
generation, stages its request with a sequence it has not used before, and waits
for the done word to carry it or for the generation to change.
-/

namespace Mcdma
namespace Setup

/-- A request as the client staged it: the word, the generation it had noted,
and how often the link had come up by then. -/
structure Staged where
  word : UInt64
  generation : UInt64
  noted : Nat
  deriving DecidableEq, Repr

/-- Where the client stands in its call. -/
inductive Client
  | idle
  | noted (generation : UInt64) (ups : Nat)
  | waits (call : Staged)
  deriving DecidableEq, Repr

/-- The next load or store of the daemon's thread. -/
inductive ThreadPc
  /-- The head of the loop, where `up` is read. -/
  | top
  /-- `peer_connect` up to its confirmation. -/
  | connecting
  | clearRequest
  | clearReady
  | clearDone
  | sample
  | raise
  | bump
  | publish
  /-- Thunderbolt receives are driven. -/
  | progress
  | load
  /-- `connect_service`, now and then while there is no new request. -/
  | service
  /-- The request is longer than the half it lies in. -/
  | refuse (word : UInt64)
  | transfer (word : UInt64)
  /-- Pull mode waits for the ready word. -/
  | await (word : UInt64)
  | finish (word ready : UInt64)
  /-- `peer_down`. -/
  | lower
  | lowerWord
  deriving DecidableEq, Repr

/-- The words of the mailbox, the thread with its `last` sequence and its count
of generations, and the client.  The histories are the requests staged, the
words handed to `box_transfer`, and how often the link has come up. -/
structure Mailbox where
  b : Box
  direct : Bool
  request : UInt64 := 0
  ready : UInt64 := 0
  done : UInt64 := 0
  upWord : UInt64 := 0
  generationWord : UInt64 := 0
  up : Bool := false
  generation : UInt64 := 0
  last : UInt32 := 0
  pc : ThreadPc := .top
  client : Client := .idle
  staged : List Staged := []
  handed : List UInt64 := []
  ups : Nat := 0

/-- `WORD`. -/
def word (seq len : UInt32) : UInt64 :=
  (seq.toUInt64 <<< 32) ||| len.toUInt64

namespace Mailbox

/-- `len > p->b.req - CTRL`. -/
def tooLong (b : Box) (w : UInt64) : Bool :=
  decide (b.req - ctrl < (wordLen w).toUInt64)

/-- `rlen > p->b.rep - CTRL`. -/
def replyTooLong (b : Box) (r : UInt64) : Bool :=
  decide (b.rep - ctrl < (wordLen r).toUInt64)

/-- One step of the daemon's thread.  The luck says how the part of it that is
not in this model goes: an attempt to connect fails before the socket is open or
after, a link fails, a transfer or a read fails, or all goes well. -/
inductive Luck
  | well
  | fails
  | unopened
  deriving DecidableEq, Repr

/-- One load or store of the daemon's thread. -/
def proceed (m : Mailbox) (luck : Luck) : Mailbox :=
  match m.pc with
  | .top => { m with pc := if m.up then .progress else .connecting }
  | .connecting =>
      match luck with
      | .unopened => { m with pc := .top }
      | .fails => { m with pc := .lower }
      | .well => { m with pc := .clearRequest }
  | .clearRequest => { m with request := 0, pc := .clearReady }
  | .clearReady => { m with ready := 0, pc := .clearDone }
  | .clearDone => { m with done := 0, pc := .sample }
  | .sample => { m with last := wordSeq m.request, pc := .raise }
  | .raise => { m with up := true, pc := .bump }
  | .bump =>
      { m with
        generation := m.generation + 1
        generationWord := m.generation + 1
        ups := m.ups + 1
        pc := .publish }
  | .publish => { m with upWord := 1, pc := .progress }
  | .progress => { m with pc := if luck = .well then .load else .lower }
  | .load =>
      if wordSeq m.request = 0 ∨ wordSeq m.request = m.last then
        { m with pc := .service }
      else
        { m with
          last := wordSeq m.request
          pc := if tooLong m.b m.request then .refuse m.request
            else .transfer m.request }
  | .service => { m with pc := if luck = .well then .top else .lower }
  | .refuse w => { m with done := word (wordSeq w) 0, pc := .top }
  | .transfer w =>
      { m with
        handed := w :: m.handed
        pc := if luck = .well then (if m.direct then .top else .await w)
          else .lower }
  | .await w =>
      if luck ≠ .well then { m with pc := .lower }
      else if wordSeq m.ready ≠ wordSeq w then m
      else if replyTooLong m.b m.ready then { m with pc := .lower }
      else { m with pc := .finish w m.ready }
  | .finish w r =>
      if luck ≠ .well then { m with pc := .lower }
      else { m with done := word (wordSeq w) (wordLen r), pc := .top }
  | .lower => { m with up := false, pc := .lowerWord }
  | .lowerWord => { m with upWord := 0, pc := .top }

/-- What can happen at a mailbox. -/
inductive Event
  /-- The daemon's thread takes a step. -/
  | thread (luck : Luck)
  /-- The client notes the generation. -/
  | notes
  /-- It stores its request word. -/
  | stages (seq len : UInt32)
  /-- It sees the done word carry its sequence, or another generation. -/
  | returns
  /-- The peer writes its ready word. -/
  | readyLands (word : UInt64)
  /-- The peer answers a request it was handed with the done word. -/
  | replyLands (word : UInt64)

/-- The sequences of the requests staged. -/
def used (m : Mailbox) : List UInt32 :=
  m.staged.map fun call => wordSeq call.word

/-- An event, where it is possible. -/
def step (m : Mailbox) : Event → Option Mailbox
  | .thread luck => some (m.proceed luck)
  | .notes =>
      if m.client = .idle then
        some { m with client := .noted m.generationWord m.ups }
      else none
  | .stages seq len =>
      match m.client with
      | .noted generation ups =>
          if seq = 0 ∨ seq ∈ m.used then none
          else
            let call : Staged := ⟨word seq len, generation, ups⟩
            some { m with
              request := word seq len
              client := .waits call
              staged := call :: m.staged }
      | _ => none
  | .returns =>
      match m.client with
      | .waits call =>
          if wordSeq m.done = wordSeq call.word ∨
              m.generationWord ≠ call.generation then
            some { m with client := .idle }
          else none
      | _ => none
  | .readyLands word => some { m with ready := word }
  | .replyLands word =>
      if wordSeq word ∈ m.handed.map wordSeq then some { m with done := word }
      else none

/-- The machine of a mailbox. -/
def machine (b : Box) (direct : Bool) : Machine Mailbox Event where
  start := { b := b, direct := direct }
  step := step

end Mailbox

/-- The thread is in its loop. -/
def ThreadPc.loops : ThreadPc → Bool
  | .top | .progress | .load | .service | .refuse _ | .transfer _ | .await _
  | .finish _ _ => true
  | _ => false

namespace Mailbox

/-- The thread is in its loop with the link up. -/
def InLoop (m : Mailbox) : Prop :=
  m.up = true ∧ m.pc.loops = true

/-- The request is the one the thread takes next: it lies in the request word
with a sequence other than the last, or the thread is about to hand it over. -/
def TakesNext (m : Mailbox) (call : Staged) : Prop :=
  (m.request = call.word ∧ wordSeq call.word ≠ m.last) ∨
    m.pc = .transfer call.word

/-- The request has been handed to `box_transfer`. -/
def Handed (m : Mailbox) (call : Staged) : Prop :=
  wordSeq call.word ∈ m.handed.map wordSeq

end Mailbox

end Setup
end Mcdma
