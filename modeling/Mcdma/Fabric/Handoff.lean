import Mcdma.Lib.Machine
import Mathlib.Logic.Function.Basic
import Mathlib.Algebra.GroupWithZero.Nat
import Mathlib.Algebra.Order.Group.Nat

/-!
# Handing parts to the links' threads

`bond_parallel` of `rpc/fabric_bond_n.h`, and `bond_post`, `bond_ask_wait`,
`post_ask` and the asking half of `progress_main` of `rpc/libmcdma_fabric.c`,
one access to what they share at a time.  The caller hands a part to a link through
the link's `ask` word; the link's thread and the caller compete for it with
compare-and-exchange.  A batch lives in the frame of the call it belongs to.
-/

namespace Mcdma
namespace Fabric
namespace Handoff

/-- `ASK_NONE` and so on. -/
inductive Ask where
  | none | open | taken | done | failed
  deriving DecidableEq

/-- The atomic words of `struct bond_batch`. -/
structure Batch where
  ready : Nat := 0
  go : Bool := false
  cancel : Bool := false

/-- What one link is asked to post: a write of a batch, the head of a joined
write with its signal, or the tail of one. -/
inductive Part where
  | write (off roff len : Nat)
  | head (off roff len : Nat)
  | tail (off len : Nat)
  deriving DecidableEq

/-- Where a thread stands inside `post_ask`. -/
inductive Post where
  /-- Reads `f->batch`. -/
  | enters
  /-- Counts itself into `ready`. -/
  | arrives (batch : Nat)
  /-- Spins on `go`. -/
  | awaits (batch : Nat)
  /-- Reads `cancel`. -/
  | asks (batch : Nat)
  /-- Reads whether the peer is down. -/
  | looks (batch : Nat)
  /-- `tb_bond_write_n`. -/
  | writes (batch : Nat)
  /-- Reads whether the peer is down, for a tail. -/
  | looksTail
  /-- `tb_bond_tail`. -/
  | writesTail
  /-- `peer_fail`. -/
  | fails
  /-- Returns what the thread then stores into `ask`. -/
  | answers (ask : Ask)
  deriving DecidableEq

/-- Where a link's thread stands. -/
inductive Worker where
  /-- At the head of its loop. -/
  | idle
  /-- Has seen an open ask and tries the lock. -/
  | tries
  /-- Compares and exchanges `ask`, with the lock. -/
  | claims
  | posts (post : Post)
  /-- Gives the lock back after an ask. -/
  | leaves
  /-- Tries the lock for `progress_all`. -/
  | passes
  /-- In `progress_all`, with the lock. -/
  | works
  deriving DecidableEq

/-- Who holds a link's lock. -/
inductive Holder where
  | caller | worker
  deriving DecidableEq

/-- One link: its `ask` word, ask fields and batch pointer, its lock, where its
thread stands, and what has been posted on it for the current call, with whether
the post succeeded. -/
structure Lane where
  ask : Ask := .none
  batch : Option Nat := none
  off : Nat := 0
  roff : Nat := 0
  len : Nat := 0
  holder : Option Holder := none
  worker : Worker := .idle
  posts : List (Part × Bool) := []

/-- A call: a write cut over all links, a short write on one link, or a head and
a tail on two. -/
inductive Call where
  | parallel (off roff : Nat) (sizes : Nat → Nat)
  | single (lane off roff len : Nat)
  | joined (head off roff len first : Nat)

/-- Where the part of a link starts in a cut write. -/
def start (sizes : Nat → Nat) (lane : Nat) : Nat :=
  ((List.range lane).map sizes).sum

/-- The part of a call that belongs to a link. -/
def Call.part (links : Nat) : Call → Nat → Option Part
  | .parallel off roff sizes, lane =>
      if lane < links then
        some (.write (off + start sizes lane) (roff + start sizes lane)
          (sizes lane))
      else none
  | .single on off roff len, lane =>
      if lane = on then some (.write off roff len) else none
  | .joined head off roff len first, lane =>
      if lane = head then some (.head off roff first)
      else if lane = 1 - head ∧ len - first ≠ 0 then
        some (.tail (off + first) (len - first))
      else none

/-- The result of `bond_post` and of the checks in it: posted, no room yet, not
representable, failed. -/
inductive Outcome where
  | posted | noRoom | unfit | failed
  deriving DecidableEq

/-- Where the caller stands. -/
inductive Caller where
  | idle
  /-- `bond_look` reads whether the peer is down. -/
  | look
  /-- Short write: takes the link's lock. -/
  | singleLock (lane : Nat)
  | singlePost (lane : Nat)
  | singleUnlock (lane : Nat) (ok : Bool)
  /-- Opens the ask of each link in turn. -/
  | openLock (lane src dst : Nat)
  | openAsk (lane src dst : Nat)
  | openUnlock (lane src dst : Nat)
  /-- Reads `ready`. -/
  | awaitReady
  /-- After 100 us: claims what no thread has taken. -/
  | fallback (lane : Nat)
  | fallbackCount (lane : Nat)
  /-- Reads whether the peer is down or the time is up. -/
  | overdue
  | cancel
  | cancelAsk (lane : Nat)
  /-- Sets `go`. -/
  | release
  | readCancel
  /-- Posts what it claimed itself. -/
  | locals (lane : Nat) (bad : Bool)
  | localLock (lane : Nat) (bad : Bool)
  | localPost (lane : Nat) (bad : Bool) (post : Post)
  | localUnlock (lane : Nat) (bad : Bool)
  /-- Waits for each link in turn. -/
  | collect (lane : Nat) (bad : Bool)
  | collectLock (lane : Nat) (bad : Bool)
  | collectClear (lane : Nat) (bad : Bool)
  | collectUnlock (lane : Nat) (bad : Bool)
  /-- `bond_signal_locked` after the parts. -/
  | signals
  /-- `bond_post`. -/
  | headLock
  | headLook
  | tailLock
  | tailLook
  | tailOpen
  | tailUnlock (result : Outcome) (asked : Bool)
  | headPost (asked : Bool)
  | headUnlock (result : Outcome) (asked : Bool)
  /-- `bond_ask_wait`. -/
  | askWait (result : Outcome)
  | takeBack (result : Outcome)
  | backLock (result : Outcome)
  | backPost (result : Outcome) (post : Post)
  | backUnlock (result : Outcome)
  | askClear (result : Outcome)
  | returned (ok : Bool)
  deriving DecidableEq

/-- The caller and the links of one bond. -/
structure Hand where
  links : Nat
  postOnly : Nat → Bool
  call : Call := .single 0 0 0 0
  frame : Nat := 0
  frames : Nat → Batch := fun _ => {}
  down : Bool := false
  lanes : Nat → Lane := fun _ => {}
  taken : Nat → Bool := fun _ => false
  caller : Caller := .idle

/-- What the code does not decide: whether a deadline has passed, whether a post
or a signal succeeds and what a check for room says. -/
structure Luck where
  late : Bool
  ok : Bool
  room : Outcome

namespace Hand

/-- Change one link. -/
def setLane (hand : Hand) (lane : Nat) (next : Lane) : Hand :=
  { hand with lanes := Function.update hand.lanes lane next }

/-- The caller goes on. -/
def goto (hand : Hand) (caller : Caller) : Hand :=
  { hand with caller := caller }

/-- Store into a link's `ask` word. -/
def setAsk (hand : Hand) (lane : Nat) (ask : Ask) : Hand :=
  hand.setLane lane { hand.lanes lane with ask := ask }

/-- The caller or a thread takes a free lock. -/
def lock (hand : Hand) (lane : Nat) (holder : Holder) : Option Hand :=
  if (hand.lanes lane).holder = none then
    some (hand.setLane lane { hand.lanes lane with holder := some holder })
  else none

/-- Give a lock back. -/
def unlock (hand : Hand) (lane : Nat) : Hand :=
  hand.setLane lane { hand.lanes lane with holder := none }

/-- Post a part on a link. -/
def post (hand : Hand) (lane : Nat) (part : Part) (ok : Bool) : Hand :=
  hand.setLane lane
    { hand.lanes lane with posts := (hand.lanes lane).posts ++ [(part, ok)] }

/-- Change a batch. -/
def setBatch (hand : Hand) (frame : Nat) (batch : Batch) : Hand :=
  { hand with frames := Function.update hand.frames frame batch }

/-- `peer_fail` takes the peer down. -/
def fail (hand : Hand) : Hand :=
  { hand with down := true }

/-- One step of `post_ask` on a link, by whichever thread runs it. -/
def postAsk (hand : Hand) (lane : Nat) (luck : Luck) :
    Post → Option (Hand × Post)
  | .enters =>
      some (hand, (hand.lanes lane).batch.elim .looksTail .arrives)
  | .arrives batch =>
      some (hand.setBatch batch
        { hand.frames batch with ready := (hand.frames batch).ready + 1 },
        .awaits batch)
  | .awaits batch =>
      if (hand.frames batch).go then some (hand, .asks batch) else none
  | .asks batch =>
      some (hand, if (hand.frames batch).cancel then .fails else .looks batch)
  | .looks batch => some (hand, if hand.down then .fails else .writes batch)
  | .writes _ =>
      some (hand.post lane (.write (hand.lanes lane).off (hand.lanes lane).roff
        (hand.lanes lane).len) luck.ok,
        if luck.ok then .answers .done else .fails)
  | .looksTail => some (hand, if hand.down then .fails else .writesTail)
  | .writesTail =>
      some (hand.post lane (.tail (hand.lanes lane).off (hand.lanes lane).len)
        luck.ok, if luck.ok then .answers .done else .fails)
  | .fails => some (hand.fail, .answers .failed)
  | .answers _ => none

/-- A link's thread goes on. -/
def setWorker (hand : Hand) (lane : Nat) (worker : Worker) : Hand :=
  hand.setLane lane { hand.lanes lane with worker := worker }

/-- One step of `progress_main` on a link.  A thread that only posts sleeps
without the lock until it looks again, so it takes the lock and gives it back
where it finds no open ask. -/
def work (hand : Hand) (lane : Nat) (luck : Luck) : Option Hand :=
  match (hand.lanes lane).worker with
  | .idle =>
      if hand.postOnly lane then
        (hand.lock lane .worker).map (·.setWorker lane .claims)
      else
        some (hand.setWorker lane
          (if (hand.lanes lane).ask = .open then .tries else .passes))
  | .tries =>
      if (hand.lanes lane).holder = none then
        (hand.lock lane .worker).map (·.setWorker lane .claims)
      else some (hand.setWorker lane .passes)
  | .claims =>
      if (hand.lanes lane).ask = .open then
        some ((hand.setAsk lane .taken).setWorker lane (.posts .enters))
      else some (hand.setWorker lane .leaves)
  | .posts (.answers ask) =>
      some ((hand.setAsk lane ask).setWorker lane .leaves)
  | .posts post =>
      (hand.postAsk lane luck post).map fun next =>
        next.1.setWorker lane (.posts next.2)
  | .leaves =>
      some ((hand.unlock lane).setWorker lane
        (if hand.postOnly lane then .idle else .passes))
  | .passes =>
      if (hand.lanes lane).holder = none ∧ luck.ok then
        (hand.lock lane .worker).map (·.setWorker lane .works)
      else some (hand.setWorker lane .idle)
  | .works => some ((hand.unlock lane).setWorker lane .idle)

/-- The next link to open, or the wait for all of them. -/
def openFrom (hand : Hand) (lane src dst : Nat) : Caller :=
  if lane < hand.links then .openLock lane src dst else .awaitReady

/-- One step of `bond_parallel` on a write cut over all links. -/
def bondParallel (hand : Hand) (off roff : Nat) (sizes : Nat → Nat)
    (luck : Luck) : Caller → Option Hand
  | .look =>
      some (hand.goto
        (if hand.down then .returned false else hand.openFrom 0 off roff))
  | .openLock lane src dst =>
      (hand.lock lane .caller).map (·.goto (.openAsk lane src dst))
  | .openAsk lane src dst =>
      some ((hand.setLane lane { hand.lanes lane with
        off := src, roff := dst, len := sizes lane
        batch := some hand.frame, ask := .open }).goto
          (.openUnlock lane src dst))
  | .openUnlock lane src dst =>
      some ((hand.unlock lane).goto
        (hand.openFrom (lane + 1) (src + sizes lane) (dst + sizes lane)))
  | .awaitReady =>
      some (hand.goto
        (if hand.links ≤ (hand.frames hand.frame).ready then .release
          else if luck.late then .fallback 0 else .overdue))
  | .fallback lane =>
      if lane < hand.links then
        if (hand.lanes lane).ask = .open then
          some ({ hand.setAsk lane .taken with
            taken := Function.update hand.taken lane true }.goto
              (.fallbackCount lane))
        else some (hand.goto (.fallback (lane + 1)))
      else some (hand.goto .overdue)
  | .fallbackCount lane =>
      some ((hand.setBatch hand.frame { hand.frames hand.frame with
        ready := (hand.frames hand.frame).ready + 1 }).goto
          (.fallback (lane + 1)))
  | .overdue =>
      some (hand.goto
        (if hand.down = true ∨ luck.late = true then .cancel else .awaitReady))
  | .cancel =>
      some ((hand.setBatch hand.frame
        { hand.frames hand.frame with cancel := true }).goto (.cancelAsk 0))
  | .cancelAsk lane =>
      if lane < hand.links then
        if (hand.lanes lane).ask = .open then
          some ((hand.setAsk lane .failed).goto (.cancelAsk (lane + 1)))
        else some (hand.goto (.cancelAsk (lane + 1)))
      else some (hand.goto .release)
  | .release =>
      some ((hand.setBatch hand.frame
        { hand.frames hand.frame with go := true }).goto .readCancel)
  | .readCancel =>
      some (hand.goto (.locals 0 (hand.frames hand.frame).cancel))
  | .locals lane bad =>
      some (hand.goto
        (if lane < hand.links then
          if hand.taken lane then .localLock lane bad
          else .locals (lane + 1) bad
        else .collect 0 bad))
  | .localLock lane bad =>
      (hand.lock lane .caller).map (·.goto (.localPost lane bad .enters))
  | .localPost lane bad (.answers ask) =>
      some ((hand.setAsk lane ask).goto (.localUnlock lane bad))
  | .localPost lane bad post =>
      (hand.postAsk lane luck post).map fun next =>
        next.1.goto (.localPost lane bad next.2)
  | .localUnlock lane bad =>
      some ((hand.unlock lane).goto (.locals (lane + 1) bad))
  | .collect lane bad =>
      if lane < hand.links then
        if (hand.lanes lane).ask = .open ∨ (hand.lanes lane).ask = .taken then
          none
        else
          some (hand.goto (.collectLock lane
            (bad || decide ((hand.lanes lane).ask ≠ .done))))
      else if bad then some (hand.fail.goto (.returned false))
      else some (hand.goto .signals)
  | .collectLock lane bad =>
      (hand.lock lane .caller).map (·.goto (.collectClear lane bad))
  | .collectClear lane bad =>
      some ((hand.setLane lane
        { hand.lanes lane with batch := none, ask := .none }).goto
          (.collectUnlock lane bad))
  | .collectUnlock lane bad =>
      some ((hand.unlock lane).goto (.collect (lane + 1) bad))
  | .signals => some (hand.goto (.returned luck.ok))
  | _ => none

/-- One step of `bond_parallel` on a short write, which goes to one link whole.
A write that carries its signal has nothing left to do after its post. -/
def bondShort (hand : Hand) (on off roff len : Nat) (luck : Luck) :
    Caller → Option Hand
  | .look =>
      some (hand.goto (if hand.down then .returned false else .singleLock on))
  | .singleLock lane =>
      (hand.lock lane .caller).map (·.goto (.singlePost lane))
  | .singlePost lane =>
      some ((hand.post lane (.write off roff len) luck.ok).goto
        (.singleUnlock lane luck.ok))
  | .singleUnlock lane ok =>
      some ((hand.unlock lane).goto (if ok then .signals else .returned false))
  | .signals => some (hand.goto (.returned luck.ok))
  | _ => none

/-- A check for room, by a thread that first looks whether the peer is down. -/
def room (hand : Hand) (luck : Luck) : Outcome :=
  if hand.down then .failed else luck.room

/-- A failure in a check or a post takes the peer down. -/
def settle (hand : Hand) (result : Outcome) : Hand :=
  if result = .failed then hand.fail else hand

/-- One step of `bond_post`, with `bond_ask_wait`. -/
def bondPost (hand : Hand) (head off roff len first : Nat) (luck : Luck) :
    Caller → Option Hand
  | .headLock => (hand.lock head .caller).map (·.goto .headLook)
  | .headLook =>
      let result := hand.room luck
      some ((hand.settle result).goto
        (if result = .posted then
          if len - first ≠ 0 then .tailLock else .headPost false
        else .headUnlock result false))
  | .tailLock => (hand.lock (1 - head) .caller).map (·.goto .tailLook)
  | .tailLook =>
      let result := hand.room luck
      some ((hand.settle result).goto
        (if result = .posted then .tailOpen else .tailUnlock result false))
  | .tailOpen =>
      some ((hand.setLane (1 - head) { hand.lanes (1 - head) with
        off := off + first, len := len - first, ask := .open }).goto
          (.tailUnlock .posted true))
  | .tailUnlock result asked =>
      some ((hand.unlock (1 - head)).goto
        (if result = .posted then .headPost asked
          else .headUnlock result asked))
  | .headPost asked =>
      let result := if luck.ok then Outcome.posted else .failed
      some (((hand.post head (.head off roff first) luck.ok).settle
        result).goto (.headUnlock result asked))
  | .headUnlock result asked =>
      some ((hand.unlock head).goto
        (if asked then .askWait result
          else .returned (decide (result = .posted))))
  | .askWait result =>
      if (hand.lanes (1 - head)).ask = .open then
        if luck.late then some (hand.goto (.takeBack result)) else none
      else if (hand.lanes (1 - head)).ask = .taken then none
      else
        some (hand.goto (.askClear
          (if (hand.lanes (1 - head)).ask = .done then result else .failed)))
  | .takeBack result =>
      if (hand.lanes (1 - head)).ask = .open then
        some ((hand.setAsk (1 - head) .taken).goto (.backLock result))
      else some (hand.goto (.askWait result))
  | .backLock result =>
      (hand.lock (1 - head) .caller).map (·.goto (.backPost result .enters))
  | .backPost result (.answers ask) =>
      some ((hand.setAsk (1 - head) ask).goto (.backUnlock result))
  | .backPost result post =>
      (hand.postAsk (1 - head) luck post).map fun next =>
        next.1.goto (.backPost result next.2)
  | .backUnlock result =>
      some ((hand.unlock (1 - head)).goto (.askWait result))
  | .askClear result =>
      some ((hand.setAsk (1 - head) .none).goto
        (.returned (decide (result = .posted))))
  | _ => none

/-- One step of the caller. -/
def advance (hand : Hand) (luck : Luck) : Option Hand :=
  match hand.call with
  | .parallel off roff sizes =>
      hand.bondParallel off roff sizes luck hand.caller
  | .single lane off roff len =>
      hand.bondShort lane off roff len luck hand.caller
  | .joined head off roff len first =>
      hand.bondPost head off roff len first luck hand.caller

/-- A call begins with a batch of its own. -/
def begin (hand : Hand) (call : Call) : Hand :=
  { hand with
    call := call
    frame := hand.frame + 1
    frames := Function.update hand.frames (hand.frame + 1) {}
    lanes := fun lane => { hand.lanes lane with posts := [] }
    taken := fun _ => false
    caller := match call with
      | .joined _ _ _ _ _ => .headLock
      | _ => .look }

/-- Two links can join; a short write goes to one of the links. -/
def Fits (links : Nat) : Call → Prop
  | .parallel _ _ _ => True
  | .single lane _ _ _ => lane < links
  | .joined head _ _ _ _ => links = 2 ∧ head < 2

instance (links : Nat) : (call : Call) → Decidable (Fits links call)
  | .parallel _ _ _ => inferInstanceAs (Decidable True)
  | .single _ _ _ _ => inferInstanceAs (Decidable (_ < _))
  | .joined _ _ _ _ _ => inferInstanceAs (Decidable (_ ∧ _))

/-- Whether the caller stands between calls. -/
def away : Caller → Bool
  | .idle | .returned _ => true
  | _ => false

/-- What can happen next: a call begins, the caller or a link's thread goes on,
or the peer goes down for a reason of its own. -/
inductive Act where
  | call (call : Call)
  | caller (luck : Luck)
  | worker (lane : Nat) (luck : Luck)
  | fail

/-- One step. -/
def step (hand : Hand) : Act → Option Hand
  | .call call =>
      if away hand.caller = true ∧ Fits hand.links call then
        some (hand.begin call)
      else none
  | .caller luck => hand.advance luck
  | .worker lane luck =>
      if lane < hand.links then hand.work lane luck else none
  | .fail => some hand.fail

/-- A caller and the threads of `links` links, some of which only post. -/
def machine (links : Nat) (postOnly : Nat → Bool) : Machine Hand Act where
  start := { links := links, postOnly := postOnly }
  step := step

end Hand

end Handoff
end Fabric
end Mcdma
