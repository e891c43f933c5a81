import Mcdma.Lib.Machine
import Mcdma.Setup.Message
import Mathlib.Data.Fintype.Basic
import Mathlib.Logic.Function.Basic

/-!
# A peer goes down once and for good

`peer_down`, `mark_down`, `peer_fail`, `tell_peer`, `service`, the failing half
of `progress_all`, `settle` and the calls that post, of
`rpc/libmcdma_fabric.c`, run by any number of threads one access to the flags at
a time.  What a call does once it has found the peer up is left open: it may post
on any link and fail any of them.
-/

namespace Mcdma
namespace Fabric
namespace Failure

open Setup

/-- The peer itself, or one link of a bond. -/
inductive Target where
  | top
  | lane (index : Nat)
  deriving DecidableEq

/-- `MCDMA_FABRIC_OK` and so on. -/
inductive Status where
  | ok | bounds | unsupported | peer
  deriving DecidableEq

/-- A call on a peer. -/
inductive Request where
  | write (off roff length : Nat)
  | signal (roff value : Nat)
  | writeSignal (off roff length soff value : Nat)
  | flush (timeout : Nat)
  deriving DecidableEq

/-- A call in progress: whether the peer was down when it began, and how often
it has posted. -/
structure Call where
  request : Request
  late : Bool
  posts : Nat := 0
  deriving DecidableEq

/-- What a thread does after `peer_fail` or `tell_peer` returns. -/
inductive Next where
  | idle
  | body (call : Call)
  | settle (call : Call)
  | failed (call : Call)
  deriving DecidableEq

/-- One run of `peer_fail`: the reason it would record, whether the other end is
told, and whether `tell_peer` follows. -/
structure Job where
  target : Target
  text : String
  tell : Bool
  tells : Option Target
  next : Next
  deriving DecidableEq

/-- Where a thread stands: the step it takes next. -/
inductive Pc where
  | idle
  /-- `peer_fail`: exchange `failing`. -/
  | claim (job : Job)
  /-- Write the reason. -/
  | record (job : Job)
  /-- Set `why_done`. -/
  | publish (job : Job)
  /-- Mark a link to tell the other end. -/
  | flag (job : Job) (index : Nat)
  /-- `mark_down`. -/
  | mark (job : Job)
  | markBond (job : Job)
  | markTop (job : Job)
  /-- `tell_peer`: read, then exchange `tell`, then send. -/
  | tellLoad (target : Target) (next : Next)
  | tellSwap (target : Target) (next : Next)
  | tellSend (target : Target) (next : Next)
  /-- A call looks whether the peer is down. -/
  | look (call : Call)
  /-- A call that found the peer up. -/
  | body (call : Call)
  /-- `settle` after a failure. -/
  | settle (call : Call)
  | returned (call : Call) (status : Status)
  deriving DecidableEq

/-- A peer, its flags, the error datagrams each of its links has sent, and the
threads that run its code. -/
structure Peer where
  bonded : Nat
  thunderbolt : Bool
  winLength : Nat
  remoteLength : Nat
  device : Target → String
  session : Target → Fin 16 → UInt8
  peerSession : Target → Fin 16 → UInt8
  part : Nat → Bool
  down : Bool := false
  laneDown : Nat → Bool := fun _ => false
  failing : Bool := false
  whyDone : Bool := false
  why : String := ""
  tell : Target → Bool := fun _ => false
  sent : Target → List String := fun _ => []
  pcs : Nat → Pc := fun _ => .idle

/-- What the code does not decide: how a post turned out, what a link has logged,
and what the call finds to do. -/
inductive Op where
  | post (target : Target)
  | fail (target : Target) (why : Option String)
  | tell (target : Target)
  | finish (failed : Bool)
  deriving DecidableEq

structure Luck where
  op : Op
  link : Option String
  refuses : Bool
  opened : Bool

/-- `snprintf` into a buffer of `size` bytes. -/
def clip (size : Nat) (text : String) : String :=
  String.ofList (text.toList.take (size - 1))

/-- The reason `peer_fail` records. -/
def reason (why link : Option String) (device : String) : String :=
  clip 96 (match why, link with
    | some why, _ => why
    | none, some link => device ++ ": " ++ link
    | none, none =>
        device ++ (if device = "" then "" else ": ") ++
          "a link operation failed")

/-- `in`. -/
def inside (off len limit : Nat) : Bool :=
  decide (off ≤ limit ∧ len ≤ limit - off)

/-- `WRITE_FAILED` and so on. -/
def Request.failed : Request → String
  | .write _ _ _ => "a write failed"
  | .signal _ _ => "a signal failed"
  | .writeSignal _ _ length _ _ =>
      if length = 0 then "a signal failed" else "a write-and-signal failed"
  | .flush _ => "a flush failed"

/-- The call is a flush. -/
def Request.isFlush : Request → Bool
  | .flush _ => true
  | _ => false

/-- The text of a message. -/
def textOf (m : Xmsg) : String :=
  String.ofList (((List.ofFn m.text).takeWhile (· ≠ 0)).map
    fun byte => Char.ofNat byte.toNat)

namespace Peer

/-- `peer_down`. -/
def peerDown (peer : Peer) : Target → Bool
  | .top => peer.down
  | .lane index => peer.laneDown index || peer.down

/-- `mcdma_fabric_peer_status`: the reason, if the peer is down. -/
def status (peer : Peer) (target : Target) : Option String :=
  if peer.peerDown target then
    some (if peer.whyDone then peer.why else "down")
  else none

/-- `MCDMA_FABRIC_WS_ROOM`. -/
def wsRoom : Nat := 64

/-- What a call is refused for before it takes the lock. -/
def refusal (peer : Peer) : Request → Option Status
  | .write off roff length =>
      if inside off length peer.winLength = false ∨
          inside roff length peer.remoteLength = false then some .bounds
      else none
  | .signal roff _ =>
      if roff % 8 ≠ 0 ∨ inside roff 8 peer.remoteLength = false then
        some .bounds
      else none
  | .writeSignal off roff length soff _ =>
      if (length ≠ 0 ∧ off < wsRoom) ∨
          inside off length peer.winLength = false ∨
          inside roff length peer.remoteLength = false ∨ soff % 8 ≠ 0 ∨
          inside soff 8 peer.remoteLength = false then some .bounds
      -- no bytes: the signal alone, on every link kind
      else if length ≠ 0 ∧ peer.bonded = 0 ∧ peer.thunderbolt = false then
        some .unsupported
      else none
  | .flush _ => none

/-- A thread goes on. -/
def goto (peer : Peer) (thread : Nat) (pc : Pc) : Peer :=
  { peer with pcs := Function.update peer.pcs thread pc }

end Peer

/-- Where a thread goes on after `peer_fail` or `tell_peer`. -/
def Next.pc : Next → Pc
  | .idle => .idle
  | .body call => .body call
  | .settle call => .settle call
  | .failed call => .returned call .peer

/-- Where a thread goes on after `peer_fail`. -/
def Job.done (job : Job) : Pc :=
  match job.tells with
  | some target => .tellLoad target job.next
  | none => job.next.pc

/-- Where a thread reads exchange sockets: between calls, and in a call that waits
(`peer_gone`). -/
def Pc.reads : Pc → Option Next
  | .idle => some .idle
  | .body call => some (.body call)
  | _ => none

namespace Peer

/-- The next step of a thread. -/
def proceed (peer : Peer) (thread : Nat) (luck : Luck) : Option Peer :=
  match peer.pcs thread with
  | .idle | .returned _ _ => none
  | .claim job =>
      if peer.failing then some (peer.goto thread (.mark job))
      else some ({ peer with failing := true }.goto thread (.record job))
  | .record job =>
      some ({ peer with why := job.text }.goto thread (.publish job))
  | .publish job =>
      some ({ peer with whyDone := true }.goto thread (.flag job 0))
  | .flag job index =>
      if job.tell = true ∧ index < max peer.bonded 1 then
        if peer.bonded = 0 then
          some ({ peer with tell := Function.update peer.tell .top true }.goto
            thread (.flag job (index + 1)))
        else if peer.part index then
          some ({ peer with
            tell := Function.update peer.tell (.lane index) true }.goto thread
              (.flag job (index + 1)))
        else some (peer.goto thread (.flag job (index + 1)))
      else some (peer.goto thread (.mark job))
  | .mark job =>
      match job.target with
      | .top => some ({ peer with down := true }.goto thread (.markTop job))
      | .lane index =>
          some ({ peer with
            laneDown := Function.update peer.laneDown index true }.goto thread
              (.markBond job))
  | .markBond job =>
      some ({ peer with down := true }.goto thread (.markTop job))
  | .markTop job => some ({ peer with down := true }.goto thread job.done)
  | .tellLoad target next =>
      some (peer.goto thread
        (if peer.tell target then .tellSwap target next else next.pc))
  | .tellSwap target next =>
      some ({ peer with tell := Function.update peer.tell target false }.goto
        thread (if peer.tell target then .tellSend target next else next.pc))
  | .tellSend target next =>
      let text := if peer.whyDone then peer.why else "failed"
      if luck.opened then
        some ({ peer with
          sent := Function.update peer.sent target
            (peer.sent target ++ [text]) }.goto thread next.pc)
      else some (peer.goto thread next.pc)
  | .look call =>
      if peer.down = true ∨ luck.refuses = true then
        if peer.bonded ≠ 0 ∧ call.request.isFlush = true then
          some (peer.goto thread (.claim
            { target := .top
              text := reason (some
                "a flush of all bond members did not complete") none ""
              tell := true
              tells := none
              next := .settle call }))
        else some (peer.goto thread (.settle call))
      else some (peer.goto thread (.body call))
  | .body call =>
      match luck.op with
      | .post _ =>
          some (peer.goto thread (.body { call with posts := call.posts + 1 }))
      | .fail target why =>
          some (peer.goto thread (.claim
            { target := target
              text := reason why luck.link (peer.device target)
              tell := true
              tells := none
              next := .body call }))
      | .tell target => some (peer.goto thread (.tellLoad target (.body call)))
      | .finish failed =>
          some (peer.goto thread
            (if failed then .settle call else .returned call .ok))
  | .settle call =>
      some (peer.goto thread (.claim
        { target := .top
          text := reason
            (if luck.link.isSome then none else some call.request.failed)
            luck.link (peer.device .top)
          tell := true
          tells := if peer.bonded = 0 then some .top else none
          next := .failed call }))

/-- The peer's link or links as `progress_all` and `service` see them. -/
def HasLink (peer : Peer) : Target → Prop
  | .top => peer.bonded = 0
  | .lane index => index < peer.bonded

instance (peer : Peer) : (target : Target) → Decidable (peer.HasLink target)
  | .top => inferInstanceAs (Decidable (_ = _))
  | .lane _ => inferInstanceAs (Decidable (_ < _))

/-- What a link's exchange socket has `service` fail the peer for. -/
def serviced (peer : Peer) (target : Target) (m : Xmsg) : Option String :=
  if m.role ≠ .peer then none
  else if (m.kind = .bye ∨ m.kind = .err) ∧
      m.toSession = peer.session target then
    some (if m.kind = .err then "the other end failed: " ++ textOf m
      else "the other end said goodbye")
  else if m.kind = .offer ∧ m.fromSession ≠ peer.peerSession target then
    some "the other end restarted; this link is gone"
  else none

/-- What can happen next. -/
inductive Act where
  /-- A thread begins a call, or ends one. -/
  | call (thread : Nat) (request : Request)
  | leave (thread : Nat)
  /-- A thread goes on. -/
  | proceed (thread : Nat) (luck : Luck)
  /-- `progress_all` reaches a link, whose progress may have failed. -/
  | progress (thread : Nat) (target : Target) (failed : Bool)
      (link : Option String)
  /-- `service` reads a datagram. -/
  | service (thread : Nat) (target : Target) (m : Xmsg)
  /-- `bond_signal` refuses a signal. -/
  | refuse

/-- One step. -/
def step (peer : Peer) : Act → Option Peer
  | .call thread request =>
      match peer.pcs thread with
      | .idle =>
          let call : Call := { request := request, late := peer.down }
          some (peer.goto thread (match peer.refusal request with
            | some status => .returned call status
            | none => .look call))
      | _ => none
  | .leave thread =>
      match peer.pcs thread with
      | .returned _ _ => some (peer.goto thread .idle)
      | _ => none
  | .proceed thread luck => peer.proceed thread luck
  | .progress thread target failed link =>
      if peer.pcs thread = .idle ∧ peer.HasLink target then
        if peer.peerDown target then
          some (peer.goto thread (.tellLoad target .idle))
        else if failed then
          some (peer.goto thread (.claim
            { target := target
              text := reason none link (peer.device target)
              tell := true
              tells := some target
              next := .idle }))
        else some peer
      else none
  | .service thread target m =>
      match (peer.pcs thread).reads with
      | none => none
      | some next =>
          if peer.HasLink target ∧ peer.peerDown target = false then
            match peer.serviced target m with
            | some why =>
                some (peer.goto thread (.claim
                  { target := target
                    text := reason (some why) none (peer.device target)
                    tell := false
                    tells := none
                    next := next }))
            | none => some peer
          else none
  | .refuse => if peer.bonded ≠ 0 then some { peer with down := true } else none

end Peer

/-- A peer as it comes up. -/
structure Config where
  bonded : Nat
  thunderbolt : Bool
  winLength : Nat
  remoteLength : Nat
  device : Target → String
  session : Target → Fin 16 → UInt8
  peerSession : Target → Fin 16 → UInt8
  part : Nat → Bool

/-- Any number of threads on a peer. -/
def machine (cfg : Config) : Machine Peer Peer.Act where
  start := { cfg with }
  step := Peer.step

end Failure
end Fabric
end Mcdma
