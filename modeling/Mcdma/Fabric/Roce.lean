import Mathlib.Algebra.Order.Group.Nat
import Mcdma.Lib.Machine
import Mcdma.Lib.Tiles

/-!
# Requests on RoCE

A range is cut into pieces that stay inside one registration on each side.  The
pieces are posted in order, a bounded number of them at a time, and a signal's
value stays in a ring of words until it has been written.
-/

namespace Mcdma
namespace Fabric
namespace Roce

/-! ## Regions and pieces -/

/-- A registered region: its registrations of `seg` bytes and the key of
each. -/
structure Region where
  length : Nat
  seg : Nat
  lkeys : List UInt32
  segPos : 0 < seg
  covers : length ≤ lkeys.length * seg

/-- A peer's region as its offer describes it. -/
structure Table where
  base : UInt64
  length : Nat
  seg : Nat
  rkeys : List UInt32
  segPos : 0 < seg
  covers : length ≤ rkeys.length * seg

/-- Where a piece comes from or goes to on this side: an offset of the region,
or a word of the ring. -/
inductive Source
  | window (off : Nat)
  | slot (index : Nat)
deriving DecidableEq

/-- `struct piece`. -/
structure Piece where
  source : Source
  lkey : UInt32
  remote : UInt64
  rkey : UInt32
  len : UInt32
deriving DecidableEq

/-- `region_lkey`. -/
def regionLkey (r : Region) (off : Nat) : UInt32 :=
  r.lkeys.getD (off / r.seg) 0

/-- The bytes that one piece takes of what is left. -/
def takeOf (region : Region) (remote : Option Table) (max off roff len : Nat) :
    Nat :=
  let take := min len max
  let take := min take (region.seg - off % region.seg)
  match remote with
  | none => take
  | some remote => min take (remote.seg - roff % remote.seg)

/-- The piece of some bytes. -/
def pieceAt (region : Region) (remote : Option Table) (off roff take : Nat) :
    Piece where
  source := .window off
  lkey := regionLkey region off
  len := UInt32.ofNat take
  remote :=
    match remote with
    | none => 0
    | some remote => remote.base + UInt64.ofNat roff
  rkey :=
    match remote with
    | none => 0
    | some remote => remote.rkeys.getD (roff / remote.seg) 0

/-- `cut`, with room for `cap` pieces. -/
def cut (region : Region) (remote : Option Table) (max : Nat) :
    Nat → Nat → Nat → Nat → Option (List Piece)
  | cap, off, roff, len =>
      if len = 0 then some []
      else
        match cap with
        | 0 => none
        | cap + 1 =>
            let take := takeOf region remote max off roff len
            (cut region remote max cap (off + take) (roff + take)
              (len - take)).map (pieceAt region remote off roff take :: ·)

/-! ## The send queue -/

/-- `enum ibv_wr_opcode`, as far as it is used. -/
inductive Op
  | write
  | read
deriving DecidableEq

/-- The requests posted so far and how many are outstanding. -/
structure Endpoint where
  posts : List (Op × Piece)
  outstanding : Nat

/-- What one turn of the polling loop meets: no completion, a good one, a
failed one or a broken queue; and whether the time is up if it looks. -/
structure Turn where
  answer : Option (Option Bool)
  late : Bool

/-- The turns of the polling loops and the answers to posts to come. -/
structure Env where
  turns : List Turn
  accepts : List Bool

/-- `ep_post`: whether it went well. -/
def epPost (op : Op) (piece : Piece) (e : Endpoint) (env : Env) :
    Option (Bool × Endpoint × Env) :=
  match env.accepts with
  | [] => none
  | false :: rest => some (false, e, { env with accepts := rest })
  | true :: rest =>
      some (true, ⟨e.posts ++ [(op, piece)], e.outstanding + 1⟩,
        { env with accepts := rest })

/-- The loop of `ep_reap`, with `got` completions so far. -/
def reapFrom (want : Nat) :
    List Turn → Nat → Endpoint → Option (Bool × Endpoint × List Turn)
  | [], _, _ => none
  | turn :: rest, got, e =>
      match if 0 < e.outstanding then turn.answer else some none with
      | none => some (false, e, rest)
      | some (some true) =>
          reapFrom want rest (got + 1)
            { e with outstanding := e.outstanding - 1 }
      | some (some false) =>
          some (false, { e with outstanding := e.outstanding - 1 }, rest)
      | some none =>
          if want ≤ got then some (true, e, rest)
          else if turn.late then some (false, e, rest)
          else reapFrom want rest got e

/-- `ep_reap`: whether it went well. -/
def epReap (want : Nat) (e : Endpoint) (env : Env) :
    Option (Bool × Endpoint × Env) :=
  (reapFrom want env.turns 0 e).map fun done =>
    (done.1, done.2.1, { env with turns := done.2.2 })

/-- `post_pieces` for one piece with a window of one: wait until nothing is
outstanding, post it and wait for it. -/
def postAlone (op : Op) (piece : Piece) :
    Nat → Endpoint → Env → Option (Bool × Endpoint × Env)
  | 0, _, _ => none
  | fuel + 1, e, env =>
      if e.outstanding < 1 then
        match epPost op piece e env with
        | none => none
        | some (false, e, env) => some (false, e, env)
        | some (true, e, env) =>
            match epReap 1 e env with
            | none => none
            | some (false, e, env) => some (false, e, env)
            | some (true, e, env) => epReap e.outstanding e env
      else
        match epReap 1 e env with
        | none => none
        | some (false, e, env) => some (false, e, env)
        | some (true, e, env) => postAlone op piece fuel e env

/-- Where the code was built for: it sets how many requests are posted. -/
inductive Platform
  | apple
  | other

/-- `ROCE_WINDOW`. -/
def roceWindow : Platform → Nat
  | .apple => 4
  | .other => 16

/-- `SLOTS`. -/
def slotCount : Nat := 2048

/-- `READ_PIECE` or `PIECE`. -/
def pieceLimit : Op → Nat
  | .read => 2 * 2 ^ 20
  | .write => 4 * 2 ^ 20

section

variable (platform : Platform)

/-- `roce_post`. -/
def rocePost (op : Op) (piece : Piece) (e : Endpoint) (env : Env) :
    Option (Bool × Endpoint × Env) :=
  if roceWindow platform ≤ e.outstanding then
    match epReap 1 e env with
    | none => none
    | some (false, e, env) => some (false, e, env)
    | some (true, e, env) => epPost op piece e env
  else epPost op piece e env

/-- One piece of `roce_range`. -/
def postOne (op : Op) (piece : Piece) (e : Endpoint) (env : Env) :
    Option (Bool × Endpoint × Env) :=
  match op with
  | .read => postAlone op piece (env.turns.length + 1) e env
  | .write => rocePost platform op piece e env

/-- `roce_range`; every piece takes some bytes, so `len` turns are enough. -/
def roceRange (region : Region) (remote : Table) (op : Op) :
    Nat → Nat → Nat → Nat → Endpoint → Env → Option (Bool × Endpoint × Env)
  | fuel, off, roff, len, e, env =>
      if len = 0 then some (true, e, env)
      else
        match fuel with
        | 0 => none
        | fuel + 1 =>
            let max := pieceLimit op
            let take := takeOf region (some remote) max off roff len
            match cut region (some remote) max 1 off roff take with
            | some [piece] =>
                match postOne platform op piece e env with
                | none => none
                | some (false, e, env) => some (false, e, env)
                | some (true, e, env) =>
                    roceRange region remote op fuel (off + take) (roff + take)
                      (len - take) e env
            | _ => some (false, e, env)

/-! ## Calls -/

/-- A peer on a RoCE link. -/
structure Peer where
  win : Region
  remote : Table
  slotsKey : UInt32
  slots : Nat → UInt64
  signals : UInt64
  e : Endpoint
  down : Bool

/-- The word of the ring that the next signal takes. -/
def Peer.nextSlot (p : Peer) : Nat := p.signals.toNat % slotCount

/-- `roce_signal`. -/
def roceSignal (p : Peer) (roff : Nat) (value : UInt64) (env : Env) :
    Option (Bool × Peer × Env) :=
  let slot := p.nextSlot
  let p := { p with
    slots := fun index => if index = slot then value else p.slots index
    signals := p.signals + 1 }
  let piece : Piece := {
    source := .slot slot
    lkey := p.slotsKey
    remote := p.remote.base + UInt64.ofNat roff
    rkey := p.remote.rkeys.getD (roff / p.remote.seg) 0
    len := 8 }
  (rocePost platform .write piece p.e env).map fun done =>
    (done.1, { p with e := done.2.1 }, done.2.2)

/-- `in`. -/
def inRange (off len limit : Nat) : Bool := off ≤ limit && len ≤ limit - off

/-- A call of the library. -/
inductive Call
  | write (off roff len : Nat)
  | read (off roff len : Nat)
  | signal (roff : Nat) (value : UInt64)
  | flush
  | progress
  /-- Another thread finds the peer lost. -/
  | lost

/-- `settle`: a failed operation leaves the peer unusable. -/
def settle (p : Peer) (fine : Bool) (e : Endpoint) : Peer :=
  { p with e := e, down := p.down || !fine }

/-- What a call does, once it returns; a peer that is down is left alone. -/
def call (p : Peer) (c : Call) (env : Env) : Option Peer :=
  match c with
  | .write off roff len =>
      if !inRange off len p.win.length || !inRange roff len p.remote.length
      then some p
      else if p.down then some p
      else
        (roceRange platform p.win p.remote .write len off roff len p.e env).map
          fun done => settle p done.1 done.2.1
  | .read off roff len =>
      if !inRange off len p.win.length || !inRange roff len p.remote.length
      then some p
      else if p.down then some p
      else
        (roceRange platform p.win p.remote .read len off roff len p.e env).map
          fun done => settle p done.1 done.2.1
  | .signal roff value =>
      if roff % 8 ≠ 0 || !inRange roff 8 p.remote.length then some p
      else if p.down then some p
      else
        (roceSignal platform p roff value env).map fun done =>
          settle done.2.1 done.1 done.2.1.e
  | .flush =>
      if p.down then some p
      else
        (epReap p.e.outstanding p.e env).map fun done =>
          settle p done.1 done.2.1
  | .progress =>
      if p.down then some p
      else
        (epReap 0 p.e env).map fun done => settle p done.1 done.2.1
  | .lost => some { p with down := true }

/-- A peer that was just connected. -/
def connected (win : Region) (remote : Table) (slotsKey : UInt32)
    (slots : Nat → UInt64) : Peer where
  win := win
  remote := remote
  slotsKey := slotsKey
  slots := slots
  signals := 0
  e := ⟨[], 0⟩
  down := false

/-- The calls on a peer, one after another under the library's lock. -/
def machine (win : Region) (remote : Table) (slotsKey : UInt32)
    (slots : Nat → UInt64) : Machine Peer (Call × Env) where
  start := connected win remote slotsKey slots
  step := fun p action => call platform p action.1 action.2

end

/-- The requests that may still be in flight: a queue pair completes its
requests in the order they were posted. -/
def Endpoint.inFlight (e : Endpoint) : List (Op × Piece) :=
  e.posts.drop (e.posts.length - e.outstanding)

end Roce
end Fabric
end Mcdma
