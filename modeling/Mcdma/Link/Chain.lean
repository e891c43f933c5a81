import Mcdma.Link.Send
import Mcdma.Link.TakeSpec

/-!
# The order of messages on a link

A position says what a link's next message may be: its number, how many writes
came before it and, behind a write's header, the bytes that must follow.  A run
of messages is in order when each fits the position the one before it left.
What a link's calls post is in order from the sender's position, and a receiver
at a position takes the message that fits it.
-/

namespace Mcdma
namespace Link

/-- Where a link stands between two messages.  `want` is the remote offset and
the bytes of a write whose header went by. -/
structure Pos where
  seq : Nat
  writes : Nat
  want : Option (Nat × List UInt8) := none
  deriving DecidableEq

namespace Pos

/-- The position of a sender. -/
def ofLane (lane : Lane) : Pos :=
  ⟨lane.txSeq, lane.writesPosted, none⟩

/-- Step over a header message that brings `writes` writes. -/
def past (pos : Pos) (seq writes : Nat) : Option Pos :=
  if pos.want = none ∧ seq = pos.seq then
    some ⟨(pos.seq + 1) % 2 ^ 32, pos.writes + writes, none⟩
  else none

/-- Step over a header whose bytes follow in a message of their own. -/
def pastHeader (pos : Pos) (seq ord roff : Nat) (bytes : List UInt8) :
    Option Pos :=
  if pos.want = none ∧ seq = pos.seq ∧ ord = pos.writes + 1 then
    some ⟨(pos.seq + 1) % 2 ^ 32, pos.writes, some (roff, bytes)⟩
  else none

end Pos

/-- The position behind a message, if the message fits the one before it. -/
def Post.step (pos : Pos) : Post → Option Pos
  | .inline seq ord _ _ =>
      if ord = pos.writes + 1 then pos.past seq 1 else none
  | .write seq ord roff bytes => pos.pastHeader seq ord roff bytes
  | .payload ord roff bytes =>
      if pos.want = some (roff, bytes) ∧ ord = pos.writes + 1 then
        some ⟨pos.seq, ord, none⟩
      else none
  | .signal seq _ _ => pos.past seq 0
  | .fence seq _ => pos.past seq 0
  | .fenceAck seq _ => pos.past seq 0
  | .writeSignal seq ord _ _ _ _ =>
      if ord = pos.writes + 1 then pos.past seq 1 else none
  | .bondSignal seq _ _ _ _ => pos.past seq 0
  | .bondSignalN seq _ _ _ _ _ => pos.past seq 0
  | .bondWriteSignal seq ord _ _ _ _ _ _ _ _ _ =>
      if ord = pos.writes + 1 then pos.past seq 1 else none
  | .tail ord _ _ =>
      if pos.want = none ∧ ord = pos.writes + 1 then
        some ⟨(pos.seq + 1) % 2 ^ 32, ord, none⟩
      else none
  | .bondWriteN seq ord roff bytes _ _ _ _ =>
      pos.pastHeader seq ord roff bytes
  | .bondInlineN seq ord _ _ _ _ _ _ _ _ _ =>
      if ord = pos.writes + 1 then pos.past seq 1 else none

/-- The position behind a run of messages. -/
def walk (pos : Pos) (posts : List Post) : Option Pos :=
  posts.foldlM Post.step pos

@[simp] theorem walk_nil (pos : Pos) : walk pos [] = some pos := rfl

theorem walk_cons (pos : Pos) (post : Post) (rest : List Post) :
    walk pos (post :: rest) = (post.step pos).bind fun next => walk next rest :=
  rfl

theorem walk_append (pos : Pos) (first second : List Post) :
    walk pos (first ++ second) =
      (walk pos first).bind fun middle => walk middle second := by
  simp only [walk, List.foldlM_append]
  rfl

theorem walk_append_of {pos middle final : Pos} {first second : List Post}
    (left : walk pos first = some middle)
    (right : walk middle second = some final) :
    walk pos (first ++ second) = some final := by
  rw [walk_append, left, Option.bind_some, right]

/-- The number of the write a message belongs to, for messages that carry a
write or announce one. -/
def Post.ord? : Post → Option Nat
  | .inline _ ord _ _ => some ord
  | .write _ ord _ _ => some ord
  | .payload ord _ _ => some ord
  | .signal _ _ _ => none
  | .fence _ _ => none
  | .fenceAck _ _ => none
  | .writeSignal _ ord _ _ _ _ => some ord
  | .bondSignal _ _ _ _ _ => none
  | .bondSignalN _ _ _ _ _ _ => none
  | .bondWriteSignal _ ord _ _ _ _ _ _ _ _ _ => some ord
  | .tail ord _ _ => some ord
  | .bondWriteN _ ord _ _ _ _ _ _ => some ord
  | .bondInlineN _ ord _ _ _ _ _ _ _ _ _ => some ord

/-- Whether the message itself brings the bytes of its write. -/
def Post.brings : Post → Bool
  | .inline _ _ _ _ => true
  | .payload _ _ _ => true
  | .writeSignal _ _ _ _ _ _ => true
  | .bondWriteSignal _ _ _ _ _ _ _ _ _ _ _ => true
  | .tail _ _ _ => true
  | .bondInlineN _ _ _ _ _ _ _ _ _ _ _ => true
  | _ => false

/-- The copy of a write a message of lane `lane` brings. -/
def Post.copied? (lane : Nat) : Post → Option Store
  | .inline _ ord roff bytes => some ⟨.placed lane ord, ⟨roff, bytes⟩⟩
  | .payload ord roff bytes => some ⟨.placed lane ord, ⟨roff, bytes⟩⟩
  | .writeSignal _ ord roff bytes _ _ =>
      some ⟨.placed lane ord, ⟨roff, bytes⟩⟩
  | .bondWriteSignal _ ord roff bytes _ _ _ _ _ _ _ =>
      some ⟨.placed lane ord, ⟨roff, bytes⟩⟩
  | .tail ord roff bytes => some ⟨.placed lane ord, ⟨roff, bytes⟩⟩
  | .bondInlineN _ ord roff bytes _ _ _ _ _ _ _ =>
      some ⟨.placed lane ord, ⟨roff, bytes⟩⟩
  | _ => none

/-- A bonded signal as a message carries it. -/
structure Carried where
  sig : Nat
  need : Nat → Nat
  off : Nat
  value : Nat

/-- The word a carried signal stores once it is published. -/
def Carried.store (carried : Carried) : Store :=
  ⟨.published carried.sig, ⟨carried.off, word carried.value⟩⟩

/-- The bonded signal a message carries. -/
def Post.carried? : Post → Option Carried
  | .bondSignal _ soff value sig need => some ⟨sig, need, soff, value⟩
  | .bondSignalN _ soff value sig _ need => some ⟨sig, need, soff, value⟩
  | .bondWriteSignal _ _ _ _ soff value sig need _ _ _ =>
      some ⟨sig, need, soff, value⟩
  | .bondInlineN _ _ _ _ soff value sig _ need _ _ =>
      some ⟨sig, need, soff, value⟩
  | _ => none

/-- What a bonded copy waits for: its own signal's turn, every earlier signal if
`signals`, and `wait lane` writes on each other lane. -/
structure Guard where
  sig : Nat
  signals : Bool
  wait : Nat → Nat

/-- The guard of a bonded message on lane `lane`. -/
def Post.guard? (lane : Nat) : Post → Option Guard
  | .bondWriteSignal _ _ _ _ _ _ sig _ _ flags wait =>
      some ⟨sig, decide (flags &&& bondWaitSignals ≠ 0), fun other =>
        if other = (if lane = 0 then 1 else 0) ∧ flags &&& bondWaitLink ≠ 0
        then wait else 0⟩
  | .bondWriteN _ _ _ _ sig _ wait flags =>
      some ⟨sig, decide (flags &&& bondWaitSignals ≠ 0), wait⟩
  | .bondInlineN _ _ _ _ _ _ sig _ _ wait flags =>
      some ⟨sig, decide (flags &&& bondWaitSignals ≠ 0), wait⟩
  | _ => none

/-- The answer a message asks for. -/
def Post.answer? : Post → Option Nat
  | .fence _ value => some value
  | _ => none

/-- A bonded message of lane `lane` that the receiver of a bond of `links`
lanes, with a window of `limit` bytes, accepts as well formed. -/
def Post.Sound (links limit lane : Nat) : Post → Prop
  | .inline _ _ roff bytes =>
      bytes ≠ [] ∧ bytes.length ≤ inlineMax ∧ roff + bytes.length ≤ limit
  | .write _ _ roff bytes =>
      bytes ≠ [] ∧ bytes.length ≤ tbMsg ∧ roff + bytes.length ≤ limit
  | .payload _ _ bytes => bytes ≠ []
  | .fence _ value => value < 2 ^ 32
  | .bondSignalN _ soff value sig count _ =>
      count = links ∧ soff % 8 = 0 ∧ soff + 8 ≤ limit ∧ value < 2 ^ 64 ∧
        sig ≠ 0 ∧ sig < 2 ^ 64
  | .bondWriteSignal _ ord roff bytes soff value sig need rest flags _ =>
      links = 2 ∧ rest = 0 ∧ flags ≤ bondWaitLink + bondWaitSignals ∧
        bytes ≠ [] ∧ bytes.length + bondWsHead ≤ tbMsg ∧
        roff + bytes.length ≤ limit ∧ need lane = ord ∧
        soff % 8 = 0 ∧ soff + 8 ≤ limit ∧ value < 2 ^ 64 ∧
        sig ≠ 0 ∧ sig < 2 ^ 64
  | .bondWriteN _ _ roff bytes sig count _ flags =>
      count = links ∧ (flags = 0 ∨ flags = bondWaitSignals) ∧
        bytes ≠ [] ∧ bytes.length ≤ tbMsg ∧ roff + bytes.length ≤ limit ∧
        sig ≠ 0 ∧ sig < 2 ^ 64
  | .bondInlineN _ ord roff bytes soff value sig count need _ flags =>
      count = links ∧ (flags = 0 ∨ flags = bondWaitSignals) ∧
        bytes ≠ [] ∧ bytes.length + (48 + links * 8) ≤ tbPacket ∧
        roff + bytes.length ≤ limit ∧ need lane = ord ∧
        soff % 8 = 0 ∧ soff + 8 ≤ limit ∧ value < 2 ^ 64 ∧
        sig ≠ 0 ∧ sig < 2 ^ 64
  | _ => False

section

variable {links limit lane : Nat} {post : Post}

/-- A bonded message stores its copy and then its signal. -/
theorem Post.stores_eq (sound : post.Sound links limit lane) :
    post.stores lane = (post.copied? lane).toList ++
      (post.carried?.map Carried.store).toList := by
  cases post <;>
    first
    | rfl
    | exact absurd sound (by simp [Post.Sound])

/-- The copy a message brings is its own write. -/
theorem Post.copied?_tag {store : Store}
    (has : post.copied? lane = some store) :
    ∃ ord, post.ord? = some ord ∧ store.tag = .placed lane ord ∧
      post.brings = true := by
  cases post <;> simp only [Post.copied?, Option.some.injEq, reduceCtorEq] at has
  all_goals
    subst has
    exact ⟨_, rfl, rfl, rfl⟩

theorem Post.exists_copied? (lane : Nat) (brings : post.brings = true) :
    ∃ store, post.copied? lane = some store := by
  cases post <;> simp only [Post.brings, Bool.false_eq_true] at brings
  all_goals exact ⟨_, rfl⟩

theorem Post.exists_ord? (brings : post.brings = true) :
    ∃ ord, post.ord? = some ord := by
  cases post <;> simp only [Post.brings, Bool.false_eq_true] at brings
  all_goals exact ⟨_, rfl⟩

/-- A write that carries a signal is among the writes its signal counts. -/
theorem Post.need_of_carried? {carried : Carried} {ord : Nat}
    (sound : post.Sound links limit lane) (has : post.carried? = some carried)
    (number : post.ord? = some ord) : carried.need lane = ord := by
  cases post <;> simp only [Post.carried?, Post.ord?, Option.some.injEq,
    reduceCtorEq] at has number
  all_goals
    subst has number
    simp only [Post.Sound] at sound
    tauto

theorem Post.copied?_none (lane : Nat) (brings : post.brings = false) :
    post.copied? lane = none := by
  cases post <;>
    first
    | rfl
    | simp [Post.brings] at brings

/-- A guarded message belongs to a write. -/
theorem Post.ord?_of_guard? {guard : Guard}
    (has : post.guard? lane = some guard) : ∃ ord, post.ord? = some ord := by
  cases post <;> simp only [Post.guard?, reduceCtorEq] at has
  all_goals exact ⟨_, rfl⟩

end

section

variable {pos next : Pos} {post : Post}

theorem Pos.past_eq {seq writes : Nat}
    (step : pos.past seq writes = some next) :
    pos.want = none ∧ seq = pos.seq ∧
      next = ⟨(pos.seq + 1) % 2 ^ 32, pos.writes + writes, none⟩ := by
  unfold Pos.past at step
  split at step
  · next fits => exact ⟨fits.1, fits.2, (Option.some.inj step).symm⟩
  · simp at step

theorem Pos.pastHeader_eq {seq ord roff : Nat} {bytes : List UInt8}
    (step : pos.pastHeader seq ord roff bytes = some next) :
    pos.want = none ∧ seq = pos.seq ∧ ord = pos.writes + 1 ∧
      next = ⟨(pos.seq + 1) % 2 ^ 32, pos.writes, some (roff, bytes)⟩ := by
  unfold Pos.pastHeader at step
  split at step
  · next fits =>
      exact ⟨fits.1, fits.2.1, fits.2.2, (Option.some.inj step).symm⟩
  · simp at step

/-- One step counts at most one write, and only the write that is next. -/
theorem Post.step_writes (step : post.step pos = some next) :
    (∀ ord, post.ord? = some ord → ord = pos.writes + 1) ∧
      next.writes = if post.brings then pos.writes + 1 else pos.writes := by
  cases post <;> simp only [Post.step] at step
  case inline | writeSignal | bondWriteSignal | bondInlineN =>
      split at step
      · next same =>
          obtain ⟨-, -, rfl⟩ := Pos.past_eq step
          simpa [Post.ord?, Post.brings] using same
      · simp at step
  case write | bondWriteN =>
      obtain ⟨-, -, same, rfl⟩ := Pos.pastHeader_eq step
      simpa [Post.ord?, Post.brings] using same
  case payload | tail =>
      split at step
      · next same =>
          have final := Option.some.inj step
          subst final
          simpa [Post.ord?, Post.brings] using same.2
      · simp at step
  case signal | fence | fenceAck | bondSignal | bondSignalN =>
      obtain ⟨-, -, rfl⟩ := Pos.past_eq step
      simp [Post.ord?, Post.brings]

theorem Post.step_writes_le (step : post.step pos = some next) :
    pos.writes ≤ next.writes := by
  rw [(Post.step_writes step).2]
  split <;> omega

theorem walk_writes_le {final : Pos} {posts : List Post}
    (walked : walk pos posts = some final) : pos.writes ≤ final.writes := by
  induction posts generalizing pos with
  | nil =>
      have same := Option.some.inj walked
      rw [same]
  | cons post rest inductionHypothesis =>
      rw [walk_cons] at walked
      obtain ⟨middle, step, onward⟩ := Option.bind_eq_some_iff.mp walked
      exact (Post.step_writes_le step).trans (inductionHypothesis onward)

/-- The writes of a run in order lie between its two positions. -/
theorem walk_ord {final : Pos} {posts : List Post} {ord : Nat}
    (walked : walk pos posts = some final) (member : post ∈ posts)
    (has : post.ord? = some ord) : pos.writes < ord := by
  induction posts generalizing pos with
  | nil => simp at member
  | cons head rest inductionHypothesis =>
      rw [walk_cons] at walked
      obtain ⟨middle, step, onward⟩ := Option.bind_eq_some_iff.mp walked
      rcases List.mem_cons.mp member with rfl | later
      · have same := (Post.step_writes step).1 ord has
        omega
      · have grows := Post.step_writes_le step
        have ahead := inductionHypothesis onward later
        omega

end

/-! ## Headers and the bytes behind them -/

section

variable {pos final : Pos} {post : Post} {rest : List Post}
variable {links limit lane ord : Nat}

/-- Behind a header that announces a write come the write's bytes. -/
theorem walk_want {roff : Nat} {bytes : List UInt8}
    (walked : walk pos rest = some final) (wanted : pos.want = some (roff, bytes))
    (whole : final.want = none) :
    ∃ others, rest = .payload (pos.writes + 1) roff bytes :: others := by
  cases rest with
  | nil =>
      have same := Option.some.inj walked
      rw [same, whole] at wanted
      simp at wanted
  | cons head others =>
      rw [walk_cons] at walked
      obtain ⟨middle, step, -⟩ := Option.bind_eq_some_iff.mp walked
      cases head <;> simp only [Post.step, Pos.past, Pos.pastHeader, wanted,
        reduceCtorEq, false_and, if_false, ite_self] at step
      case payload ord' roff' bytes' =>
        split at step
        · next fits =>
            simp only [Option.some.injEq, Prod.mk.injEq] at fits
            obtain ⟨⟨rfl, rfl⟩, rfl⟩ := fits
            exact ⟨others, rfl⟩
        · simp at step

/-- The first store of a run that starts with a message of a write is the copy
of that write. -/
theorem exists_first_store (sound : post.Sound links limit lane)
    (walked : walk pos (post :: rest) = some final)
    (whole : final.want = none) (has : post.ord? = some ord) :
    ∃ store others, store.tag = .placed lane ord ∧
      (post :: rest).flatMap (Post.stores lane) = store :: others := by
  have here := walked
  rw [walk_cons] at here
  obtain ⟨middle, step, onward⟩ := Option.bind_eq_some_iff.mp here
  have number := (Post.step_writes step).1 ord has
  by_cases brings : post.brings = true
  · obtain ⟨store, copied⟩ := Post.exists_copied? lane brings
    obtain ⟨mine, same, tag, -⟩ := Post.copied?_tag copied
    have equal : mine = ord := Option.some.inj (same.symm.trans has)
    refine ⟨store, (post.carried?.map Carried.store).toList ++
      rest.flatMap (Post.stores lane), by rw [tag, equal], ?_⟩
    rw [List.flatMap_cons, Post.stores_eq sound, copied]
    rfl
  · -- a header: its bytes are the next message
    have follows : ∃ roff bytes, middle.want = some (roff, bytes) ∧
        middle.writes = pos.writes ∧ post.stores lane = [] := by
      cases post <;> simp only [Post.ord?, Post.brings, reduceCtorEq,
        not_true_eq_false] at has brings
      all_goals
        obtain ⟨-, -, -, rfl⟩ := Pos.pastHeader_eq step
        exact ⟨_, _, rfl, rfl, rfl⟩
    obtain ⟨roff, bytes, wanted, same, silent⟩ := follows
    obtain ⟨others, rfl⟩ := walk_want onward wanted whole
    refine ⟨⟨.placed lane (middle.writes + 1), ⟨roff, bytes⟩⟩,
      others.flatMap (Post.stores lane), ?_, ?_⟩
    · rw [same, number]
    · rw [List.flatMap_cons, silent]
      rfl

end

/-! ## Where a receiver stands -/

/-- The receiving half of a link, which may write `range`, stands at a
position. -/
structure At (range : Nat × Nat) (rx : Rx) (pos : Pos) : Prop where
  accepted : rx.accepted = some range
  seq : rx.rxSeq = pos.seq
  seqFits : pos.seq < 2 ^ 32
  writes : rx.writesPlaced = pos.writes
  idle : pos.want = none → rx.wantLen = 0
  wanted : ∀ roff bytes, pos.want = some (roff, bytes) →
    bytes ≠ [] ∧ rx.wantOff = roff ∧ rx.wantLen = bytes.length

section

variable {range : Nat × Nat} {rx : Rx} {pos : Pos}

theorem At.within (stands : At range rx pos) {off len : Nat}
    (low : range.1 ≤ off) (high : off + len ≤ range.2) :
    rx.inside off len = true := by
  simp only [Rx.inside, stands.accepted, decide_eq_true_eq]
  omega

/-- A link's stall timer and its poison do not move it. -/
theorem At.timer (stands : At range rx pos) (stalled : Nat)
    (why : Option String) :
    At range { rx with stalled := stalled, why := why } pos :=
  ⟨stands.accepted, stands.seq, stands.seqFits, stands.writes, stands.idle,
    stands.wanted⟩

/-- A header message moves its link by one number and `writes` writes. -/
theorem At.past (stands : At range rx pos) (idle : pos.want = none)
    (writes : Nat) {after : Rx}
    (accepted : after.accepted = rx.accepted)
    (seq : after.rxSeq = (rx.rxSeq + 1) % 2 ^ 32)
    (want : after.wantLen = rx.wantLen)
    (placed : after.writesPlaced = rx.writesPlaced + writes) :
    At range after ⟨(pos.seq + 1) % 2 ^ 32, pos.writes + writes, none⟩ where
  accepted := accepted.trans stands.accepted
  seq := by rw [seq, stands.seq]
  seqFits := Nat.mod_lt _ (by decide)
  writes := by rw [placed, stands.writes]
  idle := fun _ => want.trans (stands.idle idle)
  wanted := by simp

/-- A write's header moves its link to where its bytes are awaited. -/
theorem At.pastHeader {σ : Type} {recv : Recv σ}
    (stands : At range recv.rx pos) {roff : Nat} {bytes : List UInt8}
    (nonempty : bytes ≠ []) :
    At range (recv.nextSeq.want roff bytes.length).rx
      ⟨(pos.seq + 1) % 2 ^ 32, pos.writes, some (roff, bytes)⟩ where
  accepted := stands.accepted
  seq := by simp [Recv.want, Recv.nextSeq, stands.seq]
  seqFits := Nat.mod_lt _ (by decide)
  writes := stands.writes
  idle := by simp
  wanted := by
    intro roff' bytes' same
    simp only [Option.some.injEq, Prod.mk.injEq] at same
    obtain ⟨rfl, rfl⟩ := same
    exact ⟨nonempty, rfl, rfl⟩

end

end Link
end Mcdma
