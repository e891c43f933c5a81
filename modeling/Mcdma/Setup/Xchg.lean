import Mathlib.Data.Fintype.Basic
import Mcdma.Setup.Keys

/-!
# One end of the exchange

`struct xchg` of `link.h` with the sessions an end writes into its messages and
looks for in those it receives, and the queue pair of `struct ep` as far as
the messages of the exchange describe it.
-/

namespace Mcdma
namespace Setup

/-- A random identifier of one attempt. -/
abbrev Session : Type := Fin 16 → UInt8

/-- Whether a session is among those already used. -/
instance decidableMemSession (session : Session) (used : List Session) :
    Decidable (session ∈ used) :=
  List.instDecidableMemOfLawfulBEq session used

/-- No session. -/
def noSession : Session := fun _ => 0

/-- `X_HAVE`. -/
def xHave : UInt8 := 1

/-- `MODE_DIRECT`. -/
def modeDirect : UInt8 := 1

/-- `m.flags & X_HAVE`: the sender holds an offer and its queue pairs are at
RTS. -/
def Xmsg.have_ (m : Xmsg) : Bool :=
  m.flags &&& xHave != 0

/-- `struct xchg` without its socket. -/
structure Xchg where
  name : Fin xName → UInt8
  session : Session := noSession
  peerSession : Session := noSession

namespace Xchg

/-- `xchg_session`, with what `link_random` draws. -/
def renew (x : Xchg) (session : Session) : Xchg :=
  { x with session := session, peerSession := noSession }

/-- `memcpy(x->peer_session, session, 16)`. -/
def hold (x : Xchg) (session : Session) : Xchg :=
  { x with peerSession := session }

/-- `xchg_prepare`. -/
def prepare (x : Xchg) (kind : Kind) (role : Role) (flags : UInt8) : Xmsg where
  kind := kind
  role := role
  flags := flags
  name := x.name
  fromSession := x.session
  toSession := x.peerSession

/-- The checks of `xchg_recv` on a datagram of this cable: it names this link
and is not this end's own, looped back. -/
def admits (x : Xchg) (m : Xmsg) : Bool :=
  decide (m.name = x.name ∧ m.fromSession ≠ x.session)

/-- `xchg_ours`. -/
def ours (x : Xchg) (m : Xmsg) : Bool :=
  decide (m.toSession = x.session)

/-- `session_known`. -/
def sessionKnown (x : Xchg) : Bool :=
  decide (x.peerSession ≠ noSession)

/-- The bytes of a C string in the text of an error. -/
def textBytes (text : String) : Fin xText → UInt8 := fun index =>
  if index.val + 1 < xText then
    UInt8.ofNat (text.toList.getD index.val (Char.ofNat 0)).toNat
  else 0

/-- `xchg_answer`. -/
def answer (x : Xchg) (session : Session) (kind : Kind) (role : Role)
    (text : String) : Xmsg :=
  { x.prepare kind role 0 with
    toSession := session
    text := textBytes text }

variable (x : Xchg) (session : Session) (kind : Kind) (role : Role)
variable (flags : UInt8) (text : String)

@[simp] theorem renew_name : (x.renew session).name = x.name := rfl

@[simp] theorem renew_session : (x.renew session).session = session := rfl

@[simp] theorem hold_name : (x.hold session).name = x.name := rfl

@[simp] theorem hold_session : (x.hold session).session = x.session := rfl

@[simp] theorem hold_peerSession :
    (x.hold session).peerSession = session := rfl

@[simp] theorem answer_kind :
    (x.answer session kind role text).kind = kind := rfl

@[simp] theorem answer_role :
    (x.answer session kind role text).role = role := rfl

@[simp] theorem answer_name :
    (x.answer session kind role text).name = x.name := rfl

end Xchg

/-- `struct ep` as far as the exchange goes: the kind of link, what `ep_info`
tells of the queue pair the end holds, and what that queue pair has been
connected to. -/
structure Ep where
  kind : UInt8
  qp : Option Xinfo := none
  remote : Option Xinfo := none

namespace Ep

/-- `ep_create_qp` where it succeeds, with the number and the first packet the
device and chance give. -/
def create (e : Ep) (made : Xinfo) : Ep :=
  { e with qp := some { made with transport := e.kind }, remote := none }

/-- `ep_connect` where it succeeds. -/
def connect (e : Ep) (peer : Xinfo) : Ep :=
  { e with remote := some peer }

/-- `ep_destroy_qp`. -/
def destroy (e : Ep) : Ep :=
  { e with qp := none, remote := none }

/-- `ep_info`. -/
def info (e : Ep) : Xinfo :=
  e.qp.getD { transport := e.kind }

end Ep

end Setup
end Mcdma
