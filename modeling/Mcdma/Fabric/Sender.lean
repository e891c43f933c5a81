import Mcdma.Fabric.Hooks
import Mcdma.Fabric.Ranges
import Mcdma.Link.Send

/-!
# The sender's half of a bond

The calls of `rpc/libmcdma_fabric.c` and `rpc/fabric_bond_n.h` on a bonded peer,
taken to pieces at the points where they wait for the peer: `Rest` is what is
left of a call, and `Rest.run` carries it to the next such point.  Each run
returns the messages it posts, link by link, in units of one write or one
signal.  What the code reads from the links without deciding it, such as queue
lengths, measured rates and whether there is room, is supplied by an oracle.
-/

namespace Mcdma
namespace Fabric

open Link

/-- `TB_SEG`: a window is registered in pieces of this size. -/
def tbSeg : Nat := 12 * 2 ^ 20

/-- `LINK_REGION_MAX`: registrations of a window. -/
def linkRegionMax : Nat := 128

/-- `BOND_CHUNK`. -/
def bondChunk : Nat := 256 * 2 ^ 10

/-- `BOND_BACKLOG`: bytes queued on a link that keep a write off it. -/
def bondBacklog : Nat := 4 * bondChunk

/-- `BOND_SMALL`: a write this short stays on one link. -/
def bondSmall : Nat := 16 * 2 ^ 10

/-- `BOND_SPLIT`: a write this long is cut across the links. -/
def bondSplit : Nat := 40 * 2 ^ 10

/-- `BOND_PART`: the least a link carries of a cut write. -/
def bondPart : Nat := 2048

/-- `BOND_RATE`: the rate assumed of a link that has not measured itself. -/
def bondRate : Nat := 8000

/-- `MCDMA_FABRIC_WS_ROOM`. -/
def wsRoom : Nat := 64

/-- A connected bond: its links, the windows of both ends and the depths each
link was granted. -/
structure Config where
  links : Nat
  winLength : Nat
  remoteLength : Nat
  depth : Nat → Nat
  peerSlots : Nat → Nat
  two_le : 2 ≤ links
  le_max : links ≤ tbBondMax
  depth_le : ∀ lane, 4 ≤ depth lane
  peerSlots_le : ∀ lane, 4 ≤ peerSlots lane
  win_le : winLength ≤ linkRegionMax * tbSeg
  remote_le : remoteLength ≤ linkRegionMax * tbSeg

/-- `tb_message_max` of a link. -/
def Config.max (cfg : Config) (lane : Nat) : Nat :=
  msgMax (cfg.depth lane) (cfg.peerSlots lane)

/-- The transmitting half of a bonded `struct mcdma_fabric_peer`. -/
structure Peer where
  lanes : Nat → Lane := fun _ => {}
  txSignal : Nat := 0
  txFenced : Nat := 0
  turn : Nat := 0
  affinity : Option Nat := none
  table : Table := {}

namespace Peer

/-- `tb_writes_posted` of a link. -/
def writes (peer : Peer) (lane : Nat) : Nat :=
  (peer.lanes lane).writesPosted

/-- `bond_watermarks`. -/
def watermarks (cfg : Config) (peer : Peer) : Nat → Nat := fun lane =>
  if lane < cfg.links then peer.writes lane else 0

/-- Replace the sending half of one link. -/
def setLane (peer : Peer) (lane : Nat) (half : Lane) : Peer :=
  { peer with lanes := Function.update peer.lanes lane half }

@[simp] theorem setLane_lane (peer : Peer) (lane : Nat) (half : Lane) :
    (peer.setLane lane half).lanes lane = half :=
  Function.update_self _ _ _

theorem setLane_other (peer : Peer) (half : Lane) {lane other : Nat}
    (different : other ≠ lane) :
    (peer.setLane lane half).lanes other = peer.lanes other :=
  Function.update_of_ne different _ _

@[simp] theorem setLane_setLane (peer : Peer) (lane : Nat)
    (first second : Lane) :
    (peer.setLane lane first).setLane lane second =
      peer.setLane lane second := by
  simp [setLane]

@[simp] theorem setLane_self (peer : Peer) (lane : Nat) :
    peer.setLane lane (peer.lanes lane) = peer := by
  simp [setLane]

end Peer

/-- Messages posted on one link that belong together. -/
abbrev Batch := Nat × List Post

/-- A copy of local bytes to the remote window; `src` is the local window. -/
structure Write where
  src : Mem
  off : Nat
  roff : Nat
  len : Nat

/-- A word for the remote window. -/
structure Word where
  off : Nat
  value : Nat

/-- `struct bond_load`. -/
structure Load where
  backlog : Nat
  rate : Nat
  max : Nat

/-- What one pass over the links finds while a write waits for room: bytes
queued, `tb_can_write` and whether `tb_write_try` posted. -/
structure Round where
  backlog : Nat → Nat
  can : Nat → Bool
  tried : Bool

/-- What one look at the links finds: bytes queued, rates measured and room for
the next message. -/
structure Pass where
  backlog : Nat → Nat := fun _ => 0
  rate : Nat → Nat := fun _ => 0
  room : Nat → Bool := fun _ => true

/-- What the code reads from the links during one run. -/
structure Oracle where
  look : Pass := {}
  rounds : List Round := []
  passes : List Pass := []

/-! ## Plain writes -/

/-- `bond_prepare`: the link the write must stay on, and whether it needs both
remote prefixes first. -/
def bondPrepare (cfg : Config) (peer : Peer) (off len : Nat) : Peer × Bool :=
  if len = 0 then ({ peer with affinity := none }, false)
  else
    let overlap := bondOverlap peer.table off len
    let lanes := (List.range cfg.links).filter fun lane => overlap.1 lane ≠ 0
    ({ peer with affinity := lanes.getLast? },
      overlap.2 || decide (1 < lanes.length))

/-- `struct bond_room`. -/
structure Room where
  backlog : Nat
  take : Nat
  ready : Bool

/-- `bond_rooms` for one link. -/
def bondRoom (cfg : Config) (round : Round) (off len lane : Nat) : Room :=
  let take := min (min (min len bondChunk) (tbWriteLimit (cfg.max lane)))
    (tbSeg - off % tbSeg)
  { backlog := round.backlog lane
    take := take
    ready := round.can lane && decide (take ≠ 0) &&
      decide (round.backlog lane < bondBacklog) }

/-- `bond_choose`: the ready link with less queued; equal queues alternate. -/
def bondChoose (cfg : Config) (turn : Nat) (rooms : Nat → Room) : Option Nat :=
  (List.range cfg.links).foldl
    (fun best step =>
      let lane := (turn + step) % cfg.links
      if (rooms lane).ready then
        match best with
        | none => some lane
        | some held =>
            if (rooms lane).backlog < (rooms held).backlog then some lane
            else best
      else best)
    none

/-- The link the next chunk of `bond_write_locked` goes to, if one is ready. -/
def bondTarget (cfg : Config) (peer : Peer) (rooms : Nat → Room) :
    Option (Nat × Peer) :=
  match peer.affinity with
  | none =>
      (bondChoose cfg peer.turn rooms).map fun lane =>
        (lane, { peer with turn := (lane + 1) % cfg.links })
  | some lane => if (rooms lane).ready then some (lane, peer) else none

/-- Post a chunk; the messages of a write of at most `bondSmall` bytes all stay
on the first link chosen. -/
def bondPostChunk (cfg : Config) (src : Mem) (length : Nat) (peer : Peer)
    (lane off roff take : Nat) : Peer × List Batch :=
  let posted := postPieces (writePiece src) (peer.lanes lane)
    (cut (cfg.max lane) tbSeg off roff take)
  let after := peer.setLane lane posted.2
  (if length ≤ bondSmall ∧ peer.affinity = none then
      { after with affinity := some lane }
    else after,
    posted.1.map fun posts => (lane, posts))

/-- The loop of `bond_write_locked`.  `ord` gathers the latest write on each
link and `length` is the whole write's. -/
def bondWriteLoop (cfg : Config) (src : Mem) (length : Nat) :
    List Round → Peer → Nat → Nat → Nat → (Nat → Nat) →
      Option (Peer × List Batch × (Nat → Nat))
  | [], peer, _, _, len, ord => if len = 0 then some (peer, [], ord) else none
  | round :: rest, peer, off, roff, len, ord =>
      if len = 0 then some (peer, [], ord)
      else
        let rooms := bondRoom cfg round off len
        match bondTarget cfg peer rooms with
        | none => bondWriteLoop cfg src length rest peer off roff len ord
        | some (lane, turned) =>
            if round.tried = false then
              bondWriteLoop cfg src length rest turned off roff len ord
            else
              let take := (rooms lane).take
              let posted := bondPostChunk cfg src length turned lane off roff
                take
              (bondWriteLoop cfg src length rest posted.1 (off + take)
                (roff + take) (len - take)
                (Function.update ord lane (posted.1.writes lane))).map
                fun others => (others.1, posted.2 ++ others.2.1, others.2.2)

/-- `bond_write_locked`. -/
def bondWriteLocked (cfg : Config) (oracle : Oracle) (peer : Peer)
    (write : Write) : Option (Peer × List Batch) :=
  (bondWriteLoop cfg write.src write.len oracle.rounds peer write.off
    write.roff write.len fun _ => 0).map fun done =>
      ({ done.1 with
        table := bondRemember done.1.table write.roff write.len done.2.2
          false }, done.2.1)

/-! ## Signals -/

/-- Remember a signal's word and cover everything before it. -/
def Peer.signalled (peer : Peer) (word : Word) : Peer :=
  { peer with
    txSignal := peer.txSignal + 1
    table := bondFlagged
      (bondRemember peer.table word.off 8 (fun _ => 0) true) }

/-- The posting loop of `bond_signal_locked`: each pass tries the links in turn
from the next one on. -/
def bondSignalLoop (cfg : Config) (need : Nat → Nat) (word : Word) :
    List Pass → Peer → Option (Peer × List Batch)
  | [], _ => none
  | pass :: rest, peer =>
      let start := peer.turn % cfg.links
      let turned := { peer with turn := peer.turn + 1 }
      match ((List.range cfg.links).map
          fun step => (start + step) % cfg.links).find? pass.room with
      | none => bondSignalLoop cfg need word rest turned
      | some lane =>
          let posted := tbBondSignalN (peer.lanes lane) word.off word.value
            (peer.txSignal + 1) need cfg.links
          some ((turned.setLane lane posted.2).signalled word,
            [(lane, posted.1)])

/-- `bond_signal_locked` once there is credit. -/
def bondSignalPost (cfg : Config) (oracle : Oracle) (peer : Peer)
    (word : Word) : Option (Peer × List Batch) :=
  bondSignalLoop cfg (peer.watermarks cfg) word oracle.passes peer

/-! ## A write and its signal -/

/-- `bond_look`. -/
def bondLook (cfg : Config) (pass : Pass) : Nat → Load := fun lane =>
  let fastest := (List.range cfg.links).foldl
    (fun rate other => max rate (pass.rate other)) 0
  { backlog := pass.backlog lane
    rate :=
      if pass.rate lane ≠ 0 then pass.rate lane
      else if fastest ≠ 0 then fastest
      else bondRate
    max := cfg.max lane }

/-- `bond_finish`. -/
def bondFinish (load : Load) (bytes : Nat) : Nat :=
  (load.backlog + bytes) * 1000 / load.rate

/-- `bond_pick`: the link that would finish first, and the next turn. -/
def bondPick (turn : Nat) (load : Nat → Load) (bytes : Nat) : Nat × Nat :=
  let first := bondFinish (load 0) bytes
  let second := bondFinish (load 1) bytes
  let lane := if second < first then 1 else 0
  let soon := min first second
  let late := max first second
  if late - soon ≤ late / 4 then (turn % 2, (turn + 1) % 2) else (lane, turn)

/-- `struct bond_plan`. -/
structure Plan where
  head : Nat
  first : Nat
  deriving DecidableEq, Repr

/-- The cut of a long write in `bond_plan`, if there is one. -/
def bondPlanSplit (cfg : Config) (load : Nat → Load) (write : Write)
    (turn : Nat) : Option Plan :=
  let off := write.off
  let len := write.len
  let room := ((off - wsRoom) / tbSeg + 1) * tbSeg - off
  let rate0 := (load 0).rate
  let rate1 := (load 1).rate
  let r0 := if 3 * rate1 < rate0 then 3 * rate1 else rate0
  let r1 := if 3 * r0 < rate1 then 3 * r0 else rate1
  let x := Int.tdiv ((r0 : Int) * ((load 1).backlog + len) -
    (r1 : Int) * (load 0).backlog) (r0 + r1)
  let share := if x < 0 then 0 else if (len : Int) < x then len else x.toNat
  let h := turn % 2
  let first := if h ≠ 0 then len - share else share
  let last := (off + len - 1) / tbSeg * tbSeg
  let lo := bondPart
  let hi := len - bondPart
  let lo := if off < last ∧ lo < last - off then last - off else lo
  let other := (load (1 - h)).max
  let lo := if other < len ∧ lo < len - other then len - other else lo
  let carry := (load h).max - wsRoom
  let hi := min hi room
  let hi := min hi carry
  let whole := (first + wsRoom + tbPacket / 2) / tbPacket * tbPacket
  let first := if wsRoom < whole then whole - wsRoom else first
  let first := if first < lo then lo else if hi < first then hi else first
  let clean := tbTailClean write.src cfg.winLength
  let first :=
    if clean (off + first) = false then
      if first < hi then first + 1 else first - 1
    else first
  if bondPart ≤ share ∧ bondPart ≤ len - share ∧ lo ≤ hi ∧ lo ≤ first ∧
      first ≤ hi ∧ clean (off + first) = true then
    some ⟨h, first⟩
  else none

/-- `bond_plan`: how a two-link write goes as one message a link, if it can, and
the next turn. -/
def bondPlan (cfg : Config) (load : Nat → Load) (write : Write)
    (turn : Nat) : Option Plan × Nat :=
  let off := write.off
  let len := write.len
  let start := off - wsRoom
  if start / tbSeg ≠ off / tbSeg then (none, turn)
  else
    let room := (start / tbSeg + 1) * tbSeg - off
    match (if bondSplit ≤ len then bondPlanSplit cfg load write turn
      else none) with
    | some plan => (some plan, if turn % 2 = 0 then turn + 1 else turn - 1)
    | none =>
        let picked := bondPick turn load len
        let fits := fun lane =>
          decide (len ≤ room ∧ wsRoom + len ≤ (load lane).max)
        if fits picked.1 then (some ⟨picked.1, len⟩, picked.2)
        else if fits (1 - picked.1) then (some ⟨1 - picked.1, len⟩, picked.2)
        else (none, picked.2)

/-- The part with the head fits one message on its link. -/
def bondFitsHead (cfg : Config) (plan : Plan) (write : Write) : Bool :=
  let max := cfg.max plan.head
  decide (bondWsHead ≤ write.off ∧ plan.first ≤ max ∧
    bondWsHead ≤ max - plan.first ∧
    (write.off - bondWsHead) / tbSeg = (write.off + plan.first - 1) / tbSeg)

/-- The tail fits one message on the other link. -/
def bondFitsTail (cfg : Config) (plan : Plan) (write : Write) : Bool :=
  let start := write.off + plan.first
  decide (write.len - plan.first ≤ cfg.max (1 - plan.head) ∧
    start / tbSeg = (write.off + write.len - 1) / tbSeg) &&
  tbTailClean write.src cfg.winLength start

/-- `bond_post` once both links have room: the tail, if there is one, and the
part with the head. -/
def bondPost (cfg : Config) (peer : Peer) (plan : Plan) (write : Write)
    (word : Word) : Peer × List Batch :=
  let h := plan.head
  let t := 1 - h
  let rest := write.len - plan.first
  let marks := peer.watermarks cfg
  let need := Function.update marks h (marks h + 1)
  let need := if rest ≠ 0 then Function.update need t (marks t + 1) else need
  let overlap := bondOverlap peer.table write.roff write.len
  let flags := (if overlap.1 t ≠ 0 then bondWaitLink else 0) +
    (if overlap.2 then bondWaitSignals else 0)
  let part := tbBondWriteSignal write.src (peer.lanes h) write.off write.roff
    plan.first word.off word.value (peer.txSignal + 1) need rest flags
    (overlap.1 t)
  let tail := tbBondTail write.src (peer.lanes t) (write.off + plan.first)
    (write.roff + plan.first) rest
  let posted := peer.setLane h part.2
  let posted := if rest ≠ 0 then posted.setLane t tail.2 else posted
  let mine := Function.update (fun _ => 0) h (need h)
  let mine := if rest ≠ 0 then Function.update mine t (need t) else mine
  let remembered := { posted with
    table := bondRemember posted.table write.roff write.len mine false }
  (remembered.signalled word,
    (if rest ≠ 0 then [(t, tail.1)] else []) ++ [(h, part.1)])

/-- The planning loop of `bond_write_signal_locked`: pass after pass until there
is room, or the write does not fit one message a link (`none`). -/
def bondJoinLoop (cfg : Config) (write : Write) (word : Word) :
    List Pass → Peer → Option (Peer × Option (List Batch))
  | [], _ => none
  | pass :: rest, peer =>
      let planned := bondPlan cfg (bondLook cfg pass) write peer.turn
      let turned := { peer with turn := planned.2 }
      match planned.1 with
      | none => some (turned, none)
      | some plan =>
          let alone := write.len = plan.first
          if bondFitsHead cfg plan write = false then some (turned, none)
          else if pass.room plan.head = false then
            bondJoinLoop cfg write word rest turned
          else if ¬alone ∧ bondFitsTail cfg plan write = false then
            some (turned, none)
          else if ¬alone ∧ pass.room (1 - plan.head) = false then
            bondJoinLoop cfg write word rest turned
          else
            let posted := bondPost cfg turned plan write word
            some (posted.1, some posted.2)

/-- `bond_parts`: the bytes each link carries of a write cut across all. -/
def bondParts (load : Nat → Load) (n len : Nat) : Nat → Nat :=
  let fastest := (List.range n).foldl
    (fun rate lane => max rate (load lane).rate) 0
  let rates := fun lane =>
    let rate := if (load lane).rate ≠ 0 then (load lane).rate else bondRate
    min (max rate (fastest / 3)) (2 ^ 20)
  let sum := (List.range n).foldl (fun sum lane => sum + rates lane) 0
  let minimum := min (len / n / 64 * 64) bondPart
  let rest := len - n * minimum
  let part := fun lane =>
    minimum + (rest / sum * rates lane + rest % sum * rates lane / sum) /
      64 * 64
  fun lane =>
    if lane + 1 < n then part lane
    else len - (List.range (n - 1)).foldl (fun used lane => used + part lane) 0

/-- The parts of `bond_parallel` posted link after link from offset `at` on. -/
def bondSpread (cfg : Config) (src : Mem) (sig : Nat) (wait : Nat → Nat)
    (flags : Nat) (sizes : Nat → Nat) :
    List Nat → Peer → Nat → Nat → Peer × List Batch
  | [], peer, _, _ => (peer, [])
  | lane :: rest, peer, off, roff =>
      let posted := tbBondWriteN (cfg.max lane) tbSeg src (peer.lanes lane)
        off roff (sizes lane) sig wait cfg.links flags
      let others := bondSpread cfg src sig wait flags sizes rest
        (peer.setLane lane posted.2) (off + sizes lane) (roff + sizes lane)
      (others.1, posted.1.map (fun posts => (lane, posts)) ++ others.2)

/-- `bond_parallel` up to its signal: the peer, the messages and whether the
signal went with them. -/
def bondParallel (cfg : Config) (oracle : Oracle) (peer : Peer)
    (write : Write) (word : Word) : Peer × List Batch × Bool :=
  let overlap := bondOverlap peer.table write.roff write.len
  let flags := if overlap.2 then bondWaitSignals else 0
  let sig := peer.txSignal + 1
  if write.len < bondSplit then
    let lane := peer.turn % cfg.links
    let turned := { peer with turn := peer.turn + 1 }
    if write.len + (48 + cfg.links * 8) ≤ tbPacket then
      let marks := peer.watermarks cfg
      let need := Function.update marks lane (marks lane + 1)
      let posted := tbBondInlineN write.src (peer.lanes lane) write.off
        write.roff write.len word.off word.value sig need overlap.1 cfg.links
        flags
      let after := turned.setLane lane posted.2
      let remembered := { after with
        table := bondRemember after.table write.roff write.len
          (Function.update (fun _ => 0) lane (need lane)) false }
      (remembered.signalled word, [(lane, posted.1)], true)
    else
      let posted := tbBondWriteN (cfg.max lane) tbSeg write.src
        (peer.lanes lane) write.off write.roff write.len sig overlap.1
        cfg.links flags
      let after := turned.setLane lane posted.2
      ({ after with
        table := bondRemember after.table write.roff write.len
          (Function.update (fun _ => 0) lane (after.writes lane)) false },
        posted.1.map fun posts => (lane, posts), false)
  else
    let sizes := bondParts (bondLook cfg oracle.look) cfg.links write.len
    let spread := bondSpread cfg write.src sig overlap.1 flags sizes
      (List.range cfg.links) peer write.off write.roff
    ({ spread.1 with
      table := bondRemember spread.1.table write.roff write.len
        (spread.1.watermarks cfg) false }, spread.2, false)

/-! ## Calls -/

/-- What is left of a call, from a point where it may have to wait.  `prepare`
and `signal` stand before the check that may flush, `write` and `signalPost`
behind it, and likewise for `writeSignal`. -/
inductive Rest
  | done
  | prepare (copy : Write) (follow : Option Word)
  | write (copy : Write) (follow : Option Word)
  | signal (word : Word)
  | signalPost (word : Word)
  | writeSignal (copy : Write) (word : Word)
  | writeSignalPost (copy : Write) (word : Word)

/-- Where a run stops: at the next point, or at a flush before it. -/
inductive Next
  | go (rest : Rest)
  | flush (rest : Rest)

/-- Go on with the signal of a write that went ahead of it. -/
def Rest.ofWord : Option Word → Rest
  | none => .done
  | some word => .signal word

/-- There is credit for one more signal in the receiver's queue. -/
def Peer.hasCredit (peer : Peer) : Bool :=
  decide (peer.txSignal - peer.txFenced < bondSignals)

/-- Carry a call to its next point. -/
def Rest.run (cfg : Config) (oracle : Oracle) (peer : Peer) :
    Rest → Option (Peer × List Batch × Next)
  | .done => none
  | .prepare copy follow =>
      let prepared := bondPrepare cfg peer copy.roff copy.len
      some (prepared.1, [],
        if prepared.2 then .flush (.write copy follow)
        else .go (.write copy follow))
  | .write copy follow =>
      let peer :=
        if follow.isSome ∧ copy.len < bondSplit ∧ peer.affinity = none then
          let picked := bondPick peer.turn (bondLook cfg oracle.look) copy.len
          { peer with affinity := some picked.1, turn := picked.2 }
        else peer
      (bondWriteLocked cfg oracle peer copy).map fun written =>
        (written.1, written.2, .go (Rest.ofWord follow))
  | .signal word =>
      if peer.txSignal = 2 ^ 64 - 1 then none
      else
        some (peer, [],
          if peer.hasCredit then .go (.signalPost word)
          else .flush (.signalPost word))
  | .signalPost word =>
      (bondSignalPost cfg oracle peer word).map fun posted =>
        (posted.1, posted.2, .go .done)
  | .writeSignal copy word =>
      if peer.txSignal = 2 ^ 64 - 1 then none
      else
        some (peer, [],
          if peer.hasCredit then .go (.writeSignalPost copy word)
          else .flush (.writeSignalPost copy word))
  | .writeSignalPost copy word =>
      if 2 < cfg.links ∨ bondSplit ≤ copy.len then
        let posted := bondParallel cfg oracle peer copy word
        some (posted.1, posted.2.1,
          .go (if posted.2.2 then .done else .signal word))
      else
        (bondJoinLoop cfg copy word oracle.passes peer).map
          fun joined =>
            match joined.2 with
            | some batches => (joined.1, batches, .go .done)
            | none => (joined.1, [], .go (.prepare copy (some word)))

end Fabric
end Mcdma
