import Mcdma.Lib.Layout

/-!
# The messages of the setup exchange

`struct xmsg` of `link.h` with the offer it carries, and `xchg_encode` and
`xchg_decode` of `link_xchg.c`: a header of 64 bytes, behind it an offer of 80
bytes with its keys, an error text of 96 bytes, or nothing.
-/

namespace Mcdma
namespace Setup

open Bytes

/-- `LINK_REGION_MAX`: keys of a table. -/
def linkRegionMax : Nat := 128

/-- `X_NAME`: bytes of a link's name. -/
def xName : Nat := 24

/-- Bytes of an error text. -/
def xText : Nat := 96

/-- `X_MAX`: bytes of a datagram. -/
def xMax : Nat := 1232

/-- `X_MAGIC`. -/
def xMagic : List UInt8 := [77, 67, 68, 88]

/-- `X_VERSION`. -/
def xVersion : UInt8 := 1

/-- `X_HEAD`: bytes of a header. -/
def xHead : Nat := 64

/-- `X_OFFER_FIXED`: bytes of an offer without its keys. -/
def xOfferFixed : Nat := 144

/-- `LINK_ROCE`. -/
def linkRoce : UInt8 := 1

/-- `LINK_TB`. -/
def linkTb : UInt8 := 2

/-- The kinds of message. -/
inductive Kind
  | offer
  | ping
  | pong
  | bye
  | err
  deriving DecidableEq, Repr

/-- The roles of an end. -/
inductive Role
  | connect
  | listen
  | peer
  deriving DecidableEq, Repr

/-- `X_OFFER` to `X_ERR`. -/
def Kind.code : Kind → UInt8
  | .offer => 1
  | .ping => 2
  | .pong => 3
  | .bye => 4
  | .err => 5

/-- The kind of a code that names one. -/
def Kind.ofCode? (code : UInt8) : Option Kind :=
  [Kind.offer, .ping, .pong, .bye, .err].find? fun kind => kind.code = code

/-- `ROLE_CONNECT` to `ROLE_PEER`. -/
def Role.code : Role → UInt8
  | .connect => 1
  | .listen => 2
  | .peer => 3

/-- The role of a code that names one. -/
def Role.ofCode? (code : UInt8) : Option Role :=
  [Role.connect, .listen, .peer].find? fun role => role.code = code

/-- `struct table`: the peer's region as its offer describes it. -/
structure Table where
  base : UInt64 := 0
  length : UInt64 := 0
  seg : UInt64 := 0
  n : UInt32 := 0
  rkey : Fin linkRegionMax → UInt32 := fun _ => 0

/-- `struct xinfo`: one side's queue pairs and region. -/
structure Xinfo where
  transport : UInt8 := 0
  mode : UInt8 := 0
  lid : UInt16 := 0
  qpn : UInt32 := 0
  qpn2 : UInt32 := 0
  psn : UInt32 := 0
  frames : UInt32 := 0
  gid : Fin 16 → UInt8 := fun _ => 0
  req : UInt64 := 0
  rep : UInt64 := 0
  table : Table := {}

/-- `struct xmsg`, of a known kind and role. -/
structure Xmsg where
  kind : Kind
  role : Role
  flags : UInt8 := 0
  name : Fin xName → UInt8
  fromSession : Fin 16 → UInt8
  toSession : Fin 16 → UInt8
  info : Xinfo := {}
  text : Fin xText → UInt8 := fun _ => 0

/-- `memchr(text, 0, size)`: a zero ends the text. -/
def Terminated {size : Nat} (text : Fin size → UInt8) : Prop :=
  ∃ index, text index = 0

instance {size : Nat} (text : Fin size → UInt8) : Decidable (Terminated text) :=
  inferInstanceAs (Decidable (∃ index, text index = 0))

/-- A transport an end may offer. -/
def KnownTransport (transport : UInt8) : Prop :=
  transport = linkRoce ∨ transport = linkTb

instance (transport : UInt8) : Decidable (KnownTransport transport) :=
  inferInstanceAs (Decidable (_ ∨ _))

/-! ## Encoding -/

/-- The header: magic at 0, version, kind, role and flags at 4 to 7, name at 8,
the two sessions at 32 and 48. -/
def headChunks (m : Xmsg) : List (List UInt8) :=
  [xMagic, [xVersion], [m.kind.code], [m.role.code], [m.flags],
    List.ofFn m.name, List.ofFn m.fromSession, List.ofFn m.toSession]

/-- An offer behind its header: transport at 64, mode at 65, `lid` at 66, `qpn`,
`qpn2`, `psn` and `frames` at 68 to 80, `gid` at 84, `req` and `rep` at 100 and
108, and the table's `base`, `length`, `seg` and `n` at 116, 124, 132 and 140. -/
def offerChunks (i : Xinfo) : List (List UInt8) :=
  [[i.transport], [i.mode], lowBytes 2 i.lid.toNat, lowBytes 4 i.qpn.toNat,
    lowBytes 4 i.qpn2.toNat, lowBytes 4 i.psn.toNat, lowBytes 4 i.frames.toNat,
    List.ofFn i.gid, lowBytes 8 i.req.toNat, lowBytes 8 i.rep.toNat,
    lowBytes 8 i.table.base.toNat, lowBytes 8 i.table.length.toNat,
    lowBytes 8 i.table.seg.toNat, lowBytes 4 i.table.n.toNat]

/-- The first `n` keys of a table, one after another. -/
def keyBytes (table : Table) : List UInt8 :=
  lowTable 4 (fun k =>
    if below : k < linkRegionMax then (table.rkey ⟨k, below⟩).toNat else 0)
    table.n.toNat

/-- What follows the header. -/
def bodyBytes (m : Xmsg) : List UInt8 :=
  match m.kind with
  | .offer => (offerChunks m.info).flatten ++ keyBytes m.info.table
  | .err => (List.ofFn m.text).take (xText - 1) ++ [0]
  | _ => []

/-- The bytes a message of this kind takes. -/
def Xmsg.size (m : Xmsg) : Nat :=
  match m.kind with
  | .offer => xOfferFixed + 4 * m.info.table.n.toNat
  | .err => xHead + xText
  | _ => xHead

/-- `xchg_encode` into `cap` bytes. -/
def xchgEncode (m : Xmsg) (cap : Nat) : Option (List UInt8) :=
  if m.kind = .offer ∧ linkRegionMax < m.info.table.n.toNat then none
  else if cap < m.size ∨ xMax < m.size ∨ ¬Terminated m.name then none
  else some ((headChunks m).flatten ++ bodyBytes m)

/-! ## Decoding -/

/-- One byte of a datagram. -/
def byteAt (input : List UInt8) (offset : Nat) : UInt8 :=
  input.getD offset 0

def get16 (input : List UInt8) (offset : Nat) : UInt16 :=
  UInt16.ofNat (field input offset 2)

def get32 (input : List UInt8) (offset : Nat) : UInt32 :=
  UInt32.ofNat (field input offset 4)

def get64 (input : List UInt8) (offset : Nat) : UInt64 :=
  UInt64.ofNat (field input offset 8)

/-- The fields of an offer. -/
def readInfo (input : List UInt8) : Xinfo where
  transport := byteAt input 64
  mode := byteAt input 65
  lid := get16 input 66
  qpn := get32 input 68
  qpn2 := get32 input 72
  psn := get32 input 76
  frames := get32 input 80
  gid := array 16 (slice input 84 16)
  req := get64 input 100
  rep := get64 input 108
  table :=
    { base := get64 input 116
      length := get64 input 124
      seg := get64 input 132
      n := get32 input 140
      rkey := fun k => if k.val < (get32 input 140).toNat then
        get32 input (xOfferFixed + 4 * k.val) else 0 }

/-- The header of a datagram of known kind and role. -/
def readHead (input : List UInt8) (kind : Kind) (role : Role) : Xmsg where
  kind := kind
  role := role
  flags := byteAt input 7
  name := array xName (slice input 8 xName)
  fromSession := array 16 (slice input 32 16)
  toSession := array 16 (slice input 48 16)

/-- What follows the header, which the kind prescribes. -/
def readBody (input : List UInt8) (m : Xmsg) : Option Xmsg :=
  match m.kind with
  | .offer =>
      if input.length < xOfferFixed then none
      else
        let info := readInfo input
        if linkRegionMax < info.table.n.toNat ∨
            input.length ≠ xOfferFixed + 4 * info.table.n.toNat then
          none
        else if ¬KnownTransport info.transport then none
        else some { m with info := info }
  | .err =>
      if input.length ≠ xHead + xText then none
      else
        let text := array xText (slice input xHead xText)
        if ¬Terminated text then none else some { m with text := text }
  | _ => if input.length ≠ xHead then none else some m

/-- `xchg_decode`. -/
def xchgDecode (input : List UInt8) : Option Xmsg :=
  if input.length < xHead ∨ xMax < input.length ∨
      slice input 0 4 ≠ xMagic ∨ byteAt input 4 ≠ xVersion then none
  else
    match Kind.ofCode? (byteAt input 5), Role.ofCode? (byteAt input 6) with
    | some kind, some role =>
        let m := readHead input kind role
        if ¬Terminated m.name then none else readBody input m
    | _, _ => none

end Setup
end Mcdma
