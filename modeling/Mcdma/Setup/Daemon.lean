import Mcdma.Lib.Machine
import Mcdma.Setup.Xchg

/-!
# The two daemons of a link

`rpcd_connect.c` and `rpcd_listen.c` as far as the setup exchange goes: how an
attempt offers, answers and confirms, what each end does with a datagram, and
how a link ends.  The network keeps every datagram ever sent and may deliver any
of them at any time, again and again or never.
-/

namespace Mcdma
namespace Setup

/-- `struct box`: the two halves of a mailbox. -/
structure Box where
  req : UInt64
  rep : UInt64

/-- `CTRL`: the control page at the head of each half. -/
def ctrl : UInt64 := 4096

/-- `WORD_SEQ`. -/
def wordSeq (word : UInt64) : UInt32 := (word >>> 32).toUInt32

/-- `WORD_LEN`. -/
def wordLen (word : UInt64) : UInt32 := word.toUInt32

/-- `box_offer`. -/
def boxOffer (x : Xchg) (e : Ep) (b : Box) (role : Role) (mode flags : UInt8) :
    Xmsg :=
  { x.prepare .offer role flags with
    info := { e.info with mode := mode, req := b.req, rep := b.rep } }

/-- `box_refuse`: why the peer's offer cannot serve this mailbox. -/
def boxRefuse (e : Ep) (b : Box) (peer : Xinfo) : Option String :=
  if peer.transport ≠ e.kind then some "the two ends use different link kinds"
  else if peer.req ≠ b.req ∨ peer.rep ≠ b.rep then some "mailbox sizes differ"
  else if e.kind = linkTb ∧ peer.mode ≠ modeDirect then
    some "pull mode needs RDMA READ, which Thunderbolt lacks"
  else if ¬tableValid peer.table (b.req + b.rep) (e.kind = linkRoce) then
    some "the peer's registrations are malformed"
  else none

/-! ## The connect end -/

/-- Where the thread of a peer stands: between attempts, waiting for the answer
to its offer, or in its loop. -/
inductive Phase
  | down
  | waiting
  | up
  deriving DecidableEq, Repr

/-- `struct peer` with the words of its mailbox.  The offer is the local
variable of `peer_connect`. -/
structure Connect where
  x : Xchg
  e : Ep
  b : Box
  mode : UInt8
  phase : Phase := .down
  offer : Xmsg
  confirm : Xmsg
  remote : Table := {}
  request : UInt64 := 0
  ready : UInt64 := 0
  done : UInt64 := 0
  upWord : UInt64 := 0
  generation : UInt64 := 0

namespace Connect

/-- `peer_down`. -/
def peerDown (p : Connect) : Connect × List Xmsg :=
  ({ p with
      x := p.x.hold noSession
      e := p.e.destroy
      phase := .down
      upWord := 0 },
    if p.x.sessionKnown then
      [p.x.answer p.x.peerSession .bye .connect ""]
    else [])

/-- `peer_connect` until it waits for an answer.  The queue pair is the one made
for the attempt, if there is one. -/
def peerConnect (p : Connect) (session : Session) :
    Option Xinfo → Connect × List Xmsg
  | none => p.peerDown
  | some made =>
      let e := p.e.create made
      let x := p.x.renew session
      ({ p with
          x := x
          e := e
          phase := .waiting
          offer := boxOffer x e p.b .connect p.mode 0 }, [])

/-- `peer_connect` with an answer it can use, where `ep_connect` may fail. -/
def peerAnswered (p : Connect) (got : Xmsg) (connects : Bool) :
    Connect × List Xmsg :=
  let x := p.x.hold got.fromSession
  if connects then
    let e := p.e.connect got.info
    let confirm := boxOffer x e p.b .connect p.mode xHave
    ({ p with
        x := x
        e := e
        phase := .up
        confirm := confirm
        remote := got.info.table
        request := 0
        ready := 0
        done := 0
        upWord := 1
        generation := p.generation + 1 }, [confirm])
  else peerDown { p with x := x }

/-- A datagram while `peer_connect` waits. -/
def peerWaits (p : Connect) (got : Xmsg) (connects : Bool) :
    Connect × List Xmsg :=
  if got.role ≠ .listen ∨ ¬p.x.ours got then (p, [])
  else if got.kind = .err ∨ got.kind = .bye then p.peerDown
  else if got.kind ≠ .offer ∨ ¬got.have_ then (p, [])
  else
    match boxRefuse p.e p.b got.info with
    | some why =>
        let down := p.peerDown
        (down.1, p.x.answer got.fromSession .err .connect why :: down.2)
    | none => p.peerAnswered got connects

/-- `connect_service`: a datagram while the link is up. -/
def connectService (p : Connect) (m : Xmsg) : Connect × List Xmsg :=
  if m.role ≠ .listen ∨ ¬p.x.ours m then (p, [])
  else if m.kind = .bye ∨ m.kind = .err then p.peerDown
  else if m.fromSession ≠ p.x.peerSession then (p, [])
  else if m.kind = .offer then (p, [p.confirm])
  else (p, [])

/-- What `xchg_recv` admits goes to the loop the thread is in; between attempts
nothing is read. -/
def receive (p : Connect) (m : Xmsg) (connects : Bool) : Connect × List Xmsg :=
  if p.x.admits m then
    match p.phase with
    | .down => (p, [])
    | .waiting => p.peerWaits m connects
    | .up => p.connectService m
  else (p, [])

end Connect

/-! ## The listen end -/

/-- `struct listen_state` with the words of its mailbox, and the last staged
reply that `run_listen` keeps. -/
structure Listen where
  x : Xchg
  e : Ep
  b : Box
  remote : Table := {}
  answer : Xmsg
  svc : Bool := false
  direct : Bool := false
  hello : Bool := false
  armed : Bool := false
  reqWord : UInt64 := 0
  stagedWord : UInt64 := 0
  lastStaged : UInt32 := 0

/-- What chance and the device give to an attempt of the listen end: a session,
the queue pair if one is made, and whether it connects. -/
structure Draw where
  session : Session
  made : Option Xinfo
  connects : Bool

namespace Listen

/-- `listen_drop`. -/
def drop (s : Listen) : Listen × List Xmsg :=
  ({ s with
      x := s.x.hold noSession
      e := s.e.destroy
      svc := s.svc && !(s.armed || s.hello)
      armed := false
      hello := false },
    if s.x.sessionKnown then [s.x.answer s.x.peerSession .bye .listen ""]
    else [])

/-- `listen_offer` with its queue pair at RTS: a session of this end's own, and
the answer that offers it. -/
def begin (s : Listen) (m : Xmsg) (session : Session) (made : Xinfo) :
    Listen × List Xmsg :=
  let e := (s.e.create made).connect m.info
  let x := (s.x.renew session).hold m.fromSession
  let answer := boxOffer x e s.b .listen m.info.mode xHave
  ({ s with
      x := x
      e := e
      remote := m.info.table
      direct := decide (m.info.mode = modeDirect)
      reqWord := 0
      stagedWord := 0
      answer := answer
      hello := true }, [answer])

/-- `listen_offer` once the earlier session is gone. -/
def offer (s : Listen) (m : Xmsg) (draw : Draw) : Listen × List Xmsg :=
  match boxRefuse s.e s.b m.info with
  | some why => (s, [s.x.answer m.fromSession .err .listen why])
  | none =>
      match draw.made with
      | none => (s, [s.x.answer m.fromSession .err .listen "qp"])
      | some made =>
          if draw.connects then s.begin m draw.session made
          else
            ({ s with e := (s.e.create made).destroy },
              [s.x.answer m.fromSession .err .listen "qp"])

/-- `listen_offer`: a new session. -/
def listenOffer (s : Listen) (m : Xmsg) (draw : Draw) : Listen × List Xmsg :=
  if s.hello then
    let dropped := s.drop
    let offered := dropped.1.offer m draw
    (offered.1, dropped.2 ++ offered.2)
  else s.offer m draw

/-- The datagram is of the session this end holds. -/
def current (s : Listen) (m : Xmsg) : Bool :=
  s.hello && decide (m.fromSession = s.x.peerSession)

/-- The value `listen_datagram` returns: the datagram asks for a new session. -/
def asks (s : Listen) (m : Xmsg) : Bool :=
  decide (m.role = .connect ∧ m.kind = .offer ∧ ¬s.current m ∧ ¬m.have_)

/-- `listen_datagram`. -/
def listenDatagram (s : Listen) (m : Xmsg) (draw : Draw) :
    Listen × List Xmsg :=
  if m.role ≠ .connect then (s, [])
  else if m.kind = .offer ∧ ¬s.current m ∧ ¬m.have_ then s.listenOffer m draw
  else if ¬s.current m then
    (s, if m.kind = .ping ∨ m.kind = .offer then
      [s.x.answer m.fromSession .bye .listen ""] else [])
  else
    match m.kind with
    | .offer =>
        if m.have_ ∧ ¬s.armed then ({ s with armed := true }, [])
        else (s, if s.armed then [] else [s.answer])
    | .ping => (s, [s.x.answer s.x.peerSession .pong .listen ""])
    | .bye | .err => s.drop
    | .pong => (s, [])

/-- `run_listen` forgets the last staged reply. -/
def forget (s : Listen) : Listen :=
  { s with lastStaged := 0 }

/-- What `xchg_recv` admits goes to `listen_datagram`, and the last staged reply
is forgotten when it asks for a new session. -/
def receive (s : Listen) (m : Xmsg) (draw : Draw) : Listen × List Xmsg :=
  if s.x.admits m then
    let moved := s.listenDatagram m draw
    if s.asks m then (moved.1.forget, moved.2) else moved
  else (s, [])

/-- A staged reply that `run_listen` has not sent yet. -/
def staged (s : Listen) : Bool :=
  s.svc && s.armed && decide (wordSeq s.stagedWord ≠ 0) &&
    decide (wordSeq s.stagedWord ≠ s.lastStaged)

/-- `run_listen` sends a staged reply, where the write may fail. -/
def reply (s : Listen) (fails : Bool) : Listen × List Xmsg :=
  let taken := { s with lastStaged := wordSeq s.stagedWord }
  if s.b.rep - ctrl < (wordLen s.stagedWord).toUInt64 ∨ fails then taken.drop
  else (taken, [])

/-- A service attaches. -/
def attach (s : Listen) : Listen :=
  if s.svc then s
  else { s with svc := true, lastStaged := wordSeq s.stagedWord }

end Listen

/-! ## The link -/

/-- The two ends and the network.  Three histories are kept beside them: the
sessions drawn, what each session of the listen end offered, and which offers
the sessions of the connect end connected to. -/
structure Link where
  connect : Connect
  listen : Listen
  net : List Xmsg := []
  drawn : List Session
  offers : List (Session × Xinfo) := []
  joined : List (Session × Session × Xinfo) := []

/-- What can happen to a link. -/
inductive Event
  /-- `peer_connect` begins an attempt. -/
  | attempt (session : Session) (made : Option Xinfo)
  /-- It sends its offer, again and again. -/
  | offers
  /-- The connect end reads the datagram that was sent as this one. -/
  | toConnect (index : Nat) (connects : Bool)
  /-- An attempt runs into its deadline, or the link fails or is silent. -/
  | connectFails
  /-- The connect end pings. -/
  | pings
  /-- The listen end reads the datagram that was sent as this one. -/
  | toListen (index : Nat) (draw : Draw)
  /-- No confirmation within the handshake's time. -/
  | handshakeTimeout
  /-- The answer is sent again. -/
  | answers
  /-- The connect end is silent. -/
  | silent
  /-- A staged reply is sent, or its write fails. -/
  | replies (fails : Bool)
  /-- A Thunderbolt link fails. -/
  | thunderboltFails
  /-- A service attaches. -/
  | attaches
  /-- The service detaches by itself. -/
  | detaches
  /-- A request word lands at the listen end. -/
  | requestLands (word : UInt64)
  /-- The service stages a reply. -/
  | stages (word : UInt64)
  /-- A client stores its request word. -/
  | requests (word : UInt64)
  /-- A reply lands at the connect end: the ready word and the done word. -/
  | replyLands (ready done : UInt64)

namespace Link

/-- An entry for the queue pair that the connect end has just connected. -/
def joins (before after : Connect) : List (Session × Session × Xinfo) :=
  if before.phase = .waiting ∧ after.phase = .up then
    [(after.x.session, after.x.peerSession, after.e.remote.getD {})]
  else []

/-- An entry for the session that the listen end has just begun. -/
def begins (before after : Listen) : List (Session × Xinfo) :=
  if after.hello ∧ after.x.session ≠ before.x.session then
    [(after.x.session, after.answer.info)]
  else []

/-- The connect end moves. -/
def withConnect (link : Link) (moved : Connect × List Xmsg) : Link :=
  { link with
    connect := moved.1
    net := link.net ++ moved.2
    joined := joins link.connect moved.1 ++ link.joined }

/-- The listen end moves. -/
def withListen (link : Link) (moved : Listen × List Xmsg) : Link :=
  { link with
    listen := moved.1
    net := link.net ++ moved.2
    offers := begins link.listen moved.1 ++ link.offers }

/-- An event, where it is possible.  Sessions are fresh. -/
def step (link : Link) : Event → Option Link
  | .attempt session made =>
      if link.connect.phase = .down ∧ session ∉ link.drawn then
        some (withConnect { link with drawn := session :: link.drawn }
          (link.connect.peerConnect session made))
      else none
  | .offers =>
      if link.connect.phase = .waiting then
        some (link.withConnect (link.connect, [link.connect.offer]))
      else none
  | .toConnect index connects =>
      link.net[index]?.map fun m =>
        link.withConnect (link.connect.receive m connects)
  | .connectFails =>
      if link.connect.phase = .down then none
      else some (link.withConnect link.connect.peerDown)
  | .pings =>
      if link.connect.phase = .up then
        some (link.withConnect (link.connect,
          [link.connect.x.answer link.connect.x.peerSession .ping .connect ""]))
      else none
  | .toListen index draw =>
      if draw.session ∈ link.drawn then none
      else
        link.net[index]?.map fun m =>
          withListen { link with drawn := draw.session :: link.drawn }
            (link.listen.receive m draw)
  | .handshakeTimeout =>
      if link.listen.hello ∧ ¬link.listen.armed then
        some (link.withListen link.listen.drop)
      else none
  | .answers =>
      if link.listen.hello ∧ ¬link.listen.armed then
        some (link.withListen (link.listen, [link.listen.answer]))
      else none
  | .silent =>
      if link.listen.armed then some (link.withListen link.listen.drop)
      else none
  | .thunderboltFails =>
      if link.listen.hello ∧ link.listen.e.kind = linkTb then
        some (link.withListen link.listen.drop)
      else none
  | .replies fails =>
      if link.listen.staged then
        some (link.withListen (link.listen.reply fails))
      else none
  | .attaches =>
      some { link with listen := link.listen.attach }
  | .detaches =>
      some { link with listen := { link.listen with svc := false } }
  | .requestLands word =>
      some { link with listen := { link.listen with reqWord := word } }
  | .stages word =>
      some { link with listen := { link.listen with stagedWord := word } }
  | .requests word =>
      some { link with connect := { link.connect with request := word } }
  | .replyLands ready done =>
      some { link with
        connect := { link.connect with ready := ready, done := done } }

end Link

/-- The link as the daemons start it: its name, each end's kind of link and
mailbox, the reply mode, and the first session of the listen end. -/
structure Config where
  name : Fin xName → UInt8
  kind : Role → UInt8
  box : Role → Box
  mode : UInt8
  session : Session

namespace Config

/-- Both ends before the first datagram. -/
def start (config : Config) : Link where
  connect :=
    { x := { name := config.name }
      e := { kind := config.kind .connect }
      b := config.box .connect
      mode := config.mode
      offer := Xchg.prepare { name := config.name } .offer .connect 0
      confirm := Xchg.prepare { name := config.name } .offer .connect 0 }
  listen :=
    { x := { name := config.name, session := config.session }
      e := { kind := config.kind .listen }
      b := config.box .listen
      answer := Xchg.prepare { name := config.name } .offer .listen 0 }
  drawn := [config.session]

/-- The machine of a link. -/
def machine (config : Config) : Machine Link Event where
  start := config.start
  step := Link.step

end Config

end Setup
end Mcdma
