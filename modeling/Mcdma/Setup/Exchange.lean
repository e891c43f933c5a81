import Mcdma.Lib.Machine
import Mcdma.Setup.Xchg

/-!
# The exchange of two fabric ends

`exchange`, `service` and `mcdma_fabric_connect_links` of `libmcdma_fabric.c`:
two ends that run the same loop on each lane of a link, one lane after another,
until each holds the other's offer and has heard that the other holds its own.
Any datagram that was ever sent may reach any lane of either end.
-/

namespace Mcdma
namespace Setup

/-- A fabric opened over several devices, or over one with several queue
pairs. -/
structure Bond where
  devices : Nat
  qps : Nat
  someDevices : 1 ≤ devices
  fewDevices : devices ≤ 8
  someQps : 1 ≤ qps
  fewQps : qps ≤ 3

/-- The lanes of a bond. -/
def Bond.bonded (bond : Bond) : Nat :=
  bond.devices * bond.qps

/-- `valid_name`, on the bytes of a name. -/
def validName (name : List UInt8) : Bool :=
  name.all (fun c => decide (65 ≤ c ∧ c ≤ 90 ∨ 97 ≤ c ∧ c ≤ 122 ∨
    48 ≤ c ∧ c ≤ 57 ∨ c = 95 ∨ c = 45)) &&
  decide (1 ≤ name.length ∧ name.length ≤ 20)

/-- The decimal digits `%u` prints, for numbers below a hundred. -/
def decimal (n : Nat) : List UInt8 :=
  if n < 10 then [UInt8.ofNat (48 + n)]
  else [UInt8.ofNat (48 + n / 10), UInt8.ofNat (48 + n % 10)]

/-- `snprintf(name, X_NAME, "%s", text)`. -/
def nameBytes (text : List UInt8) : Fin xName → UInt8 := fun index =>
  if index.val + 1 < xName then text.getD index.val 0 else 0

/-- What `mcdma_fabric_connect_links` is called with and what chance and the
devices give it: the session, and for each lane the kind of its device and what
`ep_info` tells of its queue pair.  The first two fields only tell attempts
apart: the end that makes it, and how many attempts were made before. -/
structure Attempt where
  side : Bool
  number : Nat
  session : Session
  name : List UInt8
  valid : validName name = true
  bond : Option Bond
  kind : Nat → UInt8
  made : Nat → Xinfo
  length : UInt64

namespace Attempt

/-- `f->bonded ? f->bonded : 1`. -/
def lanes (a : Attempt) : Nat :=
  match a.bond with
  | none => 1
  | some bond => bond.bonded

/-- `snprintf(link_name, "%s-%u", name, k)` for the lanes of a bond. -/
def laneName (a : Attempt) (k : Nat) : Fin xName → UInt8 :=
  match a.bond with
  | none => nameBytes a.name
  | some _ => nameBytes (a.name ++ 45 :: decimal k)

/-- `mine.info.mode`. -/
def mode (a : Attempt) : UInt8 :=
  match a.bond with
  | none => modeDirect
  | some bond => modeDirect ||| if 1 < bond.qps then 0xb0 else 0xa0

/-- `mine.info.rep`. -/
def rep (a : Attempt) (k : Nat) : UInt64 :=
  match a.bond with
  | none => 0
  | some bond =>
      let width := (UInt64.ofNat bond.bonded <<< 32) ||| UInt64.ofNat (k + 1)
      if 1 < bond.qps then
        width ||| ((UInt64.ofNat bond.devices <<< 56) |||
          (UInt64.ofNat bond.qps <<< 48))
      else width

/-- `mine.info`: what a lane offers. -/
def info (a : Attempt) (k : Nat) : Xinfo :=
  { a.made k with
    transport := a.kind k
    mode := a.mode
    req := a.length
    rep := a.rep k }

end Attempt

/-- What an exchange or a call that makes a link returns. -/
inductive Outcome
  | ok
  | timeout
  | device
  | peer
  deriving DecidableEq, Repr

/-! ## One lane -/

/-- `struct mcdma_fabric_peer` of one lane with the two flags of `exchange`. -/
structure Lane where
  x : Xchg
  e : Ep
  mine : Xmsg
  have_ : Bool := false
  heard : Bool := false
  remote : Table := {}
  remoteLength : UInt64 := 0

namespace Lane

/-- `connect_lane` and `exchange` until the first datagram is sent. -/
def begin (a : Attempt) (k : Nat) : Lane :=
  let x : Xchg := { name := a.laneName k, session := a.session }
  let e : Ep := Ep.create { kind := a.kind k } (a.made k)
  { x := x
    e := e
    mine := { x.prepare .offer .peer 0 with info := a.info k } }

/-- Why an offer is refused. -/
def refuse (a : Attempt) (k : Nat) (i : Xinfo) : Option String :=
  if i.transport ≠ a.kind k then some "the two ends use different link kinds"
  else if i.rep ≠ a.rep k ∨ (a.bond.isSome ∧ i.mode ≠ a.mode) then
    some "the two ends use different fabric link configurations"
  else if i.req < 8 ∨ ¬tableValid i.table i.req (i.transport = linkRoce) then
    some "a malformed window"
  else none

/-- The error that answers an offer. -/
def err (l : Lane) (got : Xmsg) (why : String) : Xmsg :=
  l.x.answer got.fromSession .err .peer why

/-- The lane's queue pair is at RTS for this offer: the lane says so. -/
def join (l : Lane) (got : Xmsg) : Lane :=
  { l with
    x := l.x.hold got.fromSession
    e := l.e.connect got.info
    remote := got.info.table
    remoteLength := got.info.req
    have_ := true
    mine := { l.mine with flags := xHave, toSession := got.fromSession } }

/-- `(got.flags & X_HAVE) && xchg_ours(&p->x, &got)`. -/
def hear (l : Lane) (got : Xmsg) : Lane :=
  { l with heard := l.heard || (got.have_ && l.x.ours got) }

/-- One pass of the loop of `exchange` with a datagram: the lane, what it sends,
and what the call returns if the datagram ends it with an error. -/
def exchange (l : Lane) (a : Attempt) (k : Nat) (got : Xmsg)
    (connects : Bool) : Lane × List Xmsg × Option Outcome :=
  if got.role ≠ .peer then (l, [], none)
  else if got.kind = .err ∧ l.x.ours got then (l, [], some .peer)
  else if got.kind ≠ .offer ∨
      (l.have_ ∧ got.fromSession ≠ l.x.peerSession) then (l, [], none)
  else if l.have_ then (l.hear got, [], none)
  else
    match refuse a k got.info with
    | some why => (l, [l.err got why], some .peer)
    | none =>
        if connects then
          ((l.join got).hear got, [(l.join got).mine], none)
        else
          (l, [l.err got "queue pair refused RTR or RTS"], some .device)

/-- `service`: what the lane sends and whether the peer has failed. -/
def service (l : Lane) (m : Xmsg) : List Xmsg × Bool :=
  if m.role ≠ .peer then ([], false)
  else if (m.kind = .bye ∨ m.kind = .err) ∧ l.x.ours m then ([], true)
  else if m.kind = .offer ∧ m.fromSession = l.x.peerSession then
    ([l.mine], false)
  else if m.kind = .offer then ([], true)
  else ([], false)

/-- The goodbye of `release_peer`. -/
def goodbye (l : Lane) : List Xmsg :=
  if l.x.sessionKnown then [l.x.prepare .bye .peer 0] else []

end Lane

/-! ## One end -/

/-- A call in progress or its link: the lanes below `lane` have returned from
their exchange, `lane` itself is in it, and `up` means that the call has
returned with the link. -/
structure Call where
  attempt : Attempt
  lanes : Nat → Lane
  lane : Nat
  up : Bool := false
  down : Bool := false

namespace Call

/-- The first lane begins its exchange. -/
def begin (a : Attempt) : Call where
  attempt := a
  lanes := Lane.begin a
  lane := 0

/-- The call with another state of its present lane. -/
def set (c : Call) (l : Lane) : Call :=
  { c with lanes := Function.update c.lanes c.lane l }

/-- The lanes hold the same peer, as `mcdma_fabric_connect_links` compares
them. -/
def agrees (c : Call) : Bool :=
  decide (∀ k < c.attempt.lanes,
    (c.lanes 0).x.peerSession = (c.lanes k).x.peerSession ∧
    (c.lanes 0).remoteLength = (c.lanes k).remoteLength ∧
    (c.lanes 0).remote.base = (c.lanes k).remote.base)

/-- The goodbyes of every lane that has begun. -/
def release (c : Call) : List Xmsg :=
  (List.range (c.lane + 1)).flatMap fun k => (c.lanes k).goodbye

/-- The exchange of the present lane has both: the next lane begins, and after
the last the call returns, if the lanes hold one peer that has not failed. -/
def advance (c : Call) : Option Call :=
  if ¬((c.lanes c.lane).have_ ∧ (c.lanes c.lane).heard) then some c
  else if c.lane + 1 < c.attempt.lanes then some { c with lane := c.lane + 1 }
  else if c.attempt.bond.isNone ∨ (c.agrees ∧ ¬c.down) then
    some { c with lane := c.lane + 1, up := true }
  else none

/-- The present lane reads a datagram.  Without a call in the result, the call
has failed. -/
def reads (c : Call) (m : Xmsg) (connects : Bool) :
    Option Call × List Xmsg :=
  let l := c.lanes c.lane
  if l.x.admits m then
    let passed := l.exchange c.attempt c.lane m connects
    let set := c.set passed.1
    match passed.2.2 with
    | some _ => (none, passed.2.1 ++ set.release)
    | none =>
        match set.advance with
        | none => (none, passed.2.1 ++ set.release)
        | some next => (some next, passed.2.1)
  else (some c, [])

/-- A lane that has returned from its exchange reads its socket. -/
def serves (c : Call) (k : Nat) (m : Xmsg) : Call × List Xmsg :=
  if (c.lanes k).x.admits m then
    let served := (c.lanes k).service m
    ({ c with down := c.down || served.2 }, served.1)
  else (c, [])

end Call

/-! ## Both ends -/

/-- A lane of an attempt has connected its queue pair to what a session of its
peer offered. -/
structure Connection where
  session : Session
  lane : Nat
  peer : Session
  info : Xinfo

/-- The two ends and the network, with the histories of attempts and
connections. -/
structure Meeting where
  calls : Bool → Option Call := fun _ => none
  net : List Xmsg := []
  attempts : List Attempt := []
  connected : List Connection := []

/-- What can happen. -/
inductive Meet
  /-- An end calls `mcdma_fabric_connect_links`. -/
  | begins (attempt : Attempt)
  /-- The present lane sends its offer, again and again. -/
  | offers (side : Bool)
  /-- The present lane reads the datagram that was sent as this one. -/
  | reads (side : Bool) (index : Nat) (connects : Bool)
  /-- The call fails of itself: its deadline, its socket, a device. -/
  | fails (side : Bool)
  /-- A lane that has returned reads the datagram that was sent as this one. -/
  | serves (side : Bool) (lane index : Nat)
  /-- A lane that has returned tells the peer why it went down. -/
  | tells (side : Bool) (lane : Nat) (text : String)
  /-- The link is given up. -/
  | leaves (side : Bool)

namespace Meeting

/-- What a lane that has just joined puts on record. -/
def joins (c : Call) (before after : Lane) : List Connection :=
  if ¬before.have_ ∧ after.have_ then
    [⟨after.x.session, c.lane, after.x.peerSession, after.e.remote.getD {}⟩]
  else []

/-- An end moves. -/
def set (m : Meeting) (side : Bool) (call : Option Call) (sent : List Xmsg) :
    Meeting :=
  { m with calls := Function.update m.calls side call, net := m.net ++ sent }

/-- What happens, where it is possible.  Sessions are fresh. -/
def step (m : Meeting) : Meet → Option Meeting
  | .begins a =>
      if (m.calls a.side).isNone ∧ a.number = m.attempts.length ∧
          a.session ∉ m.attempts.map Attempt.session then
        some (set { m with attempts := a :: m.attempts } a.side
          (some (Call.begin a)) [])
      else none
  | .offers side =>
      (m.calls side).bind fun c =>
        if c.up then none
        else some (m.set side (some c) [(c.lanes c.lane).mine])
  | .reads side index connects =>
      (m.calls side).bind fun c =>
        if c.up then none
        else
          m.net[index]?.map fun got =>
            let moved := c.reads got connects
            let passed := (c.lanes c.lane).exchange c.attempt c.lane got connects
            let joined := if (c.lanes c.lane).x.admits got then
              joins c (c.lanes c.lane) passed.1 else []
            set { m with connected := joined ++ m.connected } side moved.1
              moved.2
  | .fails side =>
      (m.calls side).bind fun c =>
        if c.up then none else some (m.set side none c.release)
  | .serves side lane index =>
      (m.calls side).bind fun c =>
        if lane < c.lane ∧ ¬c.down then
          m.net[index]?.map fun got =>
            let served := c.serves lane got
            m.set side (some served.1) served.2
        else none
  | .tells side lane text =>
      (m.calls side).bind fun c =>
        if lane < c.lane then
          let x := (c.lanes lane).x
          some (m.set side (some { c with down := true })
            [x.answer x.peerSession .err .peer text])
        else none
  | .leaves side =>
      (m.calls side).bind fun c =>
        if c.up then some (m.set side none c.release) else none

/-- The machine of two ends. -/
def machine : Machine Meeting Meet where
  start := {}
  step := step

end Meeting

end Setup
end Mcdma
