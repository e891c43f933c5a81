import Mcdma.Fabric.Posting

/-!
# Posting a write piece by piece

A write leaves the sender as pieces, on one link or on several.  `Wrote` says
what all the ways of posting one have in common, and how such parts follow each
other; `Clear` is what makes the parts safe to post: nothing in flight meets
them but what their links or their guards keep in order.
-/

namespace Mcdma
namespace Fabric

open Link

/-- Nothing in flight hinders a copy into `[off, stop)`, except what is
`allowed`. -/
def Clear (sys : Sys) (allowed : Entry → Prop) (off stop : Nat) : Prop :=
  ∀ first ∈ sys.log, ∀ patch : Patch, off ≤ patch.off → patch.stop ≤ stop →
    Conflict sys.log first patch → Applied sys.bond first ∨ allowed first

/-- A log entry for bytes of `[roff, roff + len)`, posted between two states of
the sender's write counts. -/
structure Part (epoch roff len : Nat) (before after : Nat → Nat)
    (entry : Entry) : Prop where
  epoch : entry.epoch = epoch
  lower : roff ≤ entry.patch.off
  upper : entry.patch.stop ≤ roff + len
  placed : ∃ lane ord, entry.tag = .placed lane ord ∧ before lane < ord ∧
    ord ≤ after lane

/-- The sender has posted `len` bytes of `src` from `off` for the remote window
from `roff`, as at most `count` writes a link, and nothing else. -/
structure Wrote (before after : Sys) (src : Mem) (off roff len count : Nat) :
    Prop where
  added : ∃ entries, after.log = before.log ++ entries ∧
    (∀ entry ∈ entries, Part before.epoch roff len before.peer.writes
      after.peer.writes entry) ∧
    ∀ memory, Patch.replay memory (entries.map Entry.patch) =
      Patch.apply memory ⟨roff, src.read off len⟩
  few : ∀ lane, before.peer.writes lane ≤ after.peer.writes lane ∧
    after.peer.writes lane ≤ before.peer.writes lane + count
  txSignal : after.peer.txSignal = before.peer.txSignal
  txFenced : after.peer.txFenced = before.peer.txFenced
  table : after.peer.table = before.peer.table
  fences : ∀ lane, (after.peer.lanes lane).fences =
      (before.peer.lanes lane).fences ∧
    (after.peer.lanes lane).fenceAcked = (before.peer.lanes lane).fenceAcked
  out : ∀ lane, ∃ more, after.out lane = before.out lane ++ more ∧
    ∀ post ∈ more, post.answer? = none
  rest : after = { before with
    peer := after.peer
    out := after.out
    log := after.log }

section

variable {cfg : Config} {sys before middle after : Sys} {src : Mem}
variable {off roff len count : Nat} {allowed : Entry → Prop}

theorem Part.mono {epoch low high : Nat} {entry : Entry}
    {first first' last last' : Nat → Nat} {low' high' : Nat}
    (part : Part epoch low high first last entry) (lower : low' ≤ low)
    (upper : low + high ≤ low' + high')
    (earlier : ∀ lane, first' lane ≤ first lane)
    (later : ∀ lane, last lane ≤ last' lane) :
    Part epoch low' high' first' last' entry := by
  obtain ⟨lane, ord, tag, above, below⟩ := part.placed
  exact ⟨part.epoch, lower.trans part.lower, part.upper.trans upper, lane, ord,
    tag, lt_of_le_of_lt (earlier lane) above, below.trans (later lane)⟩

namespace Wrote

/-- Nothing is posted for no bytes. -/
theorem refl (sys : Sys) (src : Mem) (off roff : Nat) :
    Wrote sys sys src off roff 0 0 where
  added := ⟨[], by simp, by simp, fun memory => by
    simp [Mem.read, Patch.apply_nil]⟩
  few := fun lane => ⟨Nat.le_refl _, Nat.le_refl _⟩
  txSignal := rfl
  txFenced := rfl
  table := rfl
  fences := fun lane => ⟨rfl, rfl⟩
  out := fun lane => ⟨[], by simp, by simp⟩
  rest := rfl

/-- Two parts one behind the other. -/
theorem trans {len' count' : Nat}
    (first : Wrote before middle src off roff len count)
    (second : Wrote middle after src (off + len) (roff + len) len' count') :
    Wrote before after src off roff (len + len') (count + count') := by
  obtain ⟨early, firstLog, firstParts, firstReplay⟩ := first.added
  obtain ⟨late, secondLog, secondParts, secondReplay⟩ := second.added
  have epoch : middle.epoch = before.epoch := by rw [first.rest]
  refine ⟨⟨early ++ late, ?_, ?_, ?_⟩, ?_, second.txSignal.trans first.txSignal,
    second.txFenced.trans first.txFenced, second.table.trans first.table, ?_,
    ?_, ?_⟩
  · rw [secondLog, firstLog, List.append_assoc]
  · intro entry member
    rcases List.mem_append.mp member with old | new
    · exact (firstParts entry old).mono (Nat.le_refl _) (by omega)
        (fun _ => Nat.le_refl _) (fun lane => (second.few lane).1)
    · have part := secondParts entry new
      rw [epoch] at part
      exact part.mono (by omega) (by omega) (fun lane => (first.few lane).1)
        (fun _ => Nat.le_refl _)
  · intro memory
    rw [List.map_append, Patch.replay_append, firstReplay, secondReplay]
    have split := Patch.apply_split memory roff (src.read off len)
      (src.read (off + len) len')
    rw [Mem.length_read] at split
    rw [split, Mem.read_add]
  · intro lane
    have early := first.few lane
    have late := second.few lane
    omega
  · intro lane
    have early := first.fences lane
    have late := second.fences lane
    exact ⟨late.1.trans early.1, late.2.trans early.2⟩
  · intro lane
    obtain ⟨early, firstOut, firstPlain⟩ := first.out lane
    obtain ⟨late, secondOut, secondPlain⟩ := second.out lane
    refine ⟨early ++ late, by rw [secondOut, firstOut, List.append_assoc], ?_⟩
    intro post member
    rcases List.mem_append.mp member with old | new
    · exact firstPlain post old
    · exact secondPlain post new
  · rw [second.rest, first.rest]

theorem mono {count' : Nat} (wrote : Wrote before after src off roff len count)
    (more : count ≤ count') :
    Wrote before after src off roff len count' :=
  ⟨wrote.added, fun lane => ⟨(wrote.few lane).1, (wrote.few lane).2.trans
    (Nat.add_le_add_left more _)⟩, wrote.txSignal, wrote.txFenced,
    wrote.table, wrote.fences, wrote.out, wrote.rest⟩

theorem receiver (wrote : Wrote before after src off roff len count) :
    after.receiver = before.receiver := by
  rw [wrote.rest]

theorem sent (wrote : Wrote before after src off roff len count) :
    after.sent = before.sent := by
  rw [wrote.rest]

theorem base (wrote : Wrote before after src off roff len count) :
    after.base = before.base := by
  rw [wrote.rest]

end Wrote

/-- A write elsewhere leaves the way clear. -/
theorem Clear.wrote {lower upper : Nat}
    (clear : Clear before allowed lower upper)
    (wrote : Wrote before after src off roff len count)
    (core : Core cfg after) (apart : roff + len ≤ lower ∨ upper ≤ roff) :
    Clear after allowed lower upper := by
  obtain ⟨entries, log, parts, -⟩ := wrote.added
  have nodup := core.history.nodup
  rw [log] at nodup
  intro first member patch above below conflict
  have bond : after.bond = before.bond := by
    rw [Sys.bond, wrote.receiver]
  rw [log] at member conflict
  rw [bond]
  rcases List.mem_append.mp member with old | new
  · refine clear first old patch above below ?_
    rcases conflict with meets | ⟨isSignal, write, isWrite, same, earlier,
      meets⟩
    · exact Or.inl meets
    · exact Or.inr ⟨isSignal, write, isWrite, same,
        earlier.of_append_left nodup old, meets⟩
  · -- what was just posted lies elsewhere and is no signal
    have part := parts first new
    obtain ⟨lane, ord, tag, -⟩ := part.placed
    rcases conflict with meets | ⟨⟨sig, kind⟩, -⟩
    · have lower := part.lower
      have upper := part.upper
      simp only [Patch.Meets] at meets
      omega
    · rw [tag] at kind
      simp at kind

theorem Clear.mono {lower upper : Nat} {weaker : Entry → Prop}
    {lower' upper' : Nat} (clear : Clear sys allowed lower upper)
    (above : lower ≤ lower') (below : upper' ≤ upper)
    (follows : ∀ entry, allowed entry → weaker entry) :
    Clear sys weaker lower' upper' :=
  fun first member patch lower upper conflict =>
    (clear first member patch (above.trans lower) (upper.trans below)
      conflict).imp_right (follows first)

end

/-! ## One piece -/

/-- What posting one piece on link `lane` gives: its messages, guarded by
`guard` if there is one, and the link's sending half behind them. -/
structure Pieced (cfg : Config) (src : Mem) (lane : Nat) (guard : Option Guard)
    (half : Lane) (piece : Piece) (out : List Post × Lane) : Prop where
  walked : walk (Pos.ofLane half) out.1 = some (Pos.ofLane out.2)
  sound : ∀ post ∈ out.1, post.Sound cfg.links cfg.remoteLength lane
  stores : out.1.flatMap (Post.stores lane) =
    [⟨.placed lane (half.writesPosted + 1), piece.patch src⟩]
  counted : out.2.writesPosted = half.writesPosted + 1
  fences : out.2.fences = half.fences ∧ out.2.fenceAcked = half.fenceAcked
  numbers : ∀ post ∈ out.1, ∀ ord, post.ord? = some ord →
    ord = half.writesPosted + 1
  guarded : ∀ post ∈ out.1, ∀ held, post.guard? lane = some held →
    guard = some held
  guards : ∀ held, guard = some held → ∃ post ∈ out.1,
    post.ord? = some (half.writesPosted + 1) ∧ post.guard? lane = some held
  silent : ∀ post ∈ out.1, post.carried? = none ∧ post.answer? = none

section

variable {cfg : Config} {src : Mem} {lane : Nat} {half : Lane} {piece : Piece}

theorem read_ne_nil {off len : Nat} (some : 0 < len) : src.read off len ≠ [] := by
  intro empty
  have length := congrArg List.length empty
  simp only [Mem.length_read, List.length_nil] at length
  omega

/-- A piece of a plain write. -/
theorem pieced_writePiece (some : 0 < piece.len) (fits : piece.len ≤ tbMsg)
    (within : piece.roff + piece.len ≤ cfg.remoteLength) :
    Pieced cfg src lane none half piece (writePiece src half piece) := by
  have bytes : src.read piece.off piece.len ≠ [] := read_ne_nil some
  unfold writePiece
  split
  · next small =>
      exact {
        walked := by simp [walk, Post.step, Pos.past, Pos.ofLane, Lane.sent]
        sound := by simp [Post.Sound, bytes, small, within]
        stores := by simp [Post.stores, Piece.patch]
        counted := rfl
        fences := ⟨rfl, rfl⟩
        numbers := by simp [Post.ord?]
        guarded := by simp [Post.guard?]
        guards := by simp
        silent := by simp [Post.carried?, Post.answer?] }
  · exact {
      walked := by
        simp [walk, Post.step, Pos.pastHeader, Pos.ofLane, Lane.sent]
      sound := by simp [Post.Sound, bytes, fits, within]
      stores := by simp [Post.stores, Piece.patch]
      counted := rfl
      fences := ⟨rfl, rfl⟩
      numbers := by simp [Post.ord?]
      guarded := by simp [Post.guard?]
      guards := by simp
      silent := by simp [Post.carried?, Post.answer?] }

/-- A piece of a write across the links waits as the write does. -/
theorem pieced_bondPiece {sig flags : Nat} {wait : Nat → Nat}
    (some : 0 < piece.len) (fits : piece.len ≤ tbMsg)
    (within : piece.roff + piece.len ≤ cfg.remoteLength)
    (sigPos : sig ≠ 0) (sigFits : sig < 2 ^ 64)
    (flagged : flags = 0 ∨ flags = bondWaitSignals) :
    Pieced cfg src lane
      (.some ⟨sig, decide (flags &&& bondWaitSignals ≠ 0), wait⟩) half piece
      (bondPiece src sig cfg.links wait flags half piece) := by
  have bytes : src.read piece.off piece.len ≠ [] := read_ne_nil some
  unfold bondPiece
  exact {
    walked := by
      simp [walk, Post.step, Pos.pastHeader, Pos.ofLane, Lane.sent]
    sound := by
      simp [Post.Sound, bytes, fits, within, flagged, sigPos]
      exact sigFits
    stores := by simp [Post.stores, Piece.patch]
    counted := rfl
    fences := ⟨rfl, rfl⟩
    numbers := by simp [Post.ord?]
    guarded := by simp [Post.guard?]
    guards := by simp [Post.guard?, Post.ord?]
    silent := by simp [Post.carried?, Post.answer?] }

end

/-! ## Piece after piece -/

namespace Sys

/-- A bond with another sender. -/
def withPeer (sys : Sys) (peer : Peer) : Sys :=
  { sys with peer := peer }

/-- A bond whose sender has posted several units. -/
def after (sys : Sys) (peer : Peer) (batches : List Batch) : Sys :=
  (batches.foldl emit sys).withPeer peer

theorem foldl_emit_withPeer (sys : Sys) (peer : Peer) (batches : List Batch) :
    batches.foldl emit (sys.withPeer peer) =
      (batches.foldl emit sys).withPeer peer := by
  induction batches generalizing sys with
  | nil => rfl
  | cons batch rest inductionHypothesis =>
      exact inductionHypothesis (sys.emit batch)

theorem after_cons (sys : Sys) (middle peer : Peer) (batch : Batch)
    (rest : List Batch) :
    sys.after peer (batch :: rest) =
      (sys.posted middle batch).after peer rest := by
  change (rest.foldl emit (sys.emit batch)).withPeer peer =
    (rest.foldl emit ((sys.emit batch).withPeer middle)).withPeer peer
  rw [foldl_emit_withPeer]
  rfl

theorem after_append (sys : Sys) (middle peer : Peer)
    (first second : List Batch) :
    sys.after peer (first ++ second) =
      (sys.after middle first).after peer second := by
  rw [after, after, after, List.foldl_append, foldl_emit_withPeer]
  rfl

end Sys

/-- The sender has posted part of a write and all is well. -/
structure Sends (cfg : Config) (before after : Sys) (src : Mem)
    (off roff len count : Nat) : Prop where
  core : Core cfg after
  plain : after.Plain cfg
  wrote : Wrote before after src off roff len count

section

variable {cfg : Config} {sys before middle after : Sys} {src : Mem}
variable {lane off roff len count : Nat} {allowed : Entry → Prop}

theorem Sends.trans {len' count' : Nat}
    (first : Sends cfg before middle src off roff len count)
    (second : Sends cfg middle after src (off + len) (roff + len) len'
      count') :
    Sends cfg before after src off roff (len + len') (count + count') :=
  ⟨second.core, second.plain, first.wrote.trans second.wrote⟩

theorem NewGuard.sends {guard : Guard} (new : NewGuard cfg before guard)
    (sends : Sends cfg before after src off roff len count) :
    NewGuard cfg after guard := by
  refine ⟨?_, ?_, ?_, ?_, sends.plain⟩
  · rw [sends.wrote.txSignal]
    exact new.next
  · rw [sends.wrote.txFenced]
    exact new.credit
  · rw [sends.wrote.sent]
    exact new.left
  · rw [sends.wrote.base]
    exact new.near

/-- The unit of one piece may be posted. -/
theorem Pieced.posting {guard : Option Guard} {piece : Piece}
    {out : List Post × Lane} (below : lane < cfg.links)
    (pieced : Pieced cfg src lane guard (sys.peer.lanes lane) piece out)
    (new : ∀ held, guard = some held → NewGuard cfg sys held)
    (clear : Clear sys allowed piece.roff (piece.roff + piece.len))
    (kept : ∀ entry, allowed entry → (∃ ord, entry.tag = .placed lane ord) ∨
      ∃ held, guard = some held ∧ Awaits held entry) :
    Posting cfg sys lane out.1 (some (piece.patch src)) none
      (sys.peer.setLane lane out.2) where
  below := below
  walked := by
    rw [pieced.walked, Peer.setLane_lane]
  others := by
    intro other different
    rw [Peer.setLane_other _ _ different]
  sound := pieced.sound
  stores := by
    rw [pieced.stores]
    rfl
  counted := by
    rw [Peer.writes, Peer.setLane_lane, pieced.counted]
    rfl
  signals := rfl
  fenced := rfl
  numbers := pieced.numbers
  guarded := fun post member held has =>
    ⟨rfl, new held (pieced.guarded post member held has)⟩
  carries := by
    intro post member carried has
    rw [(pieced.silent post member).1] at has
    simp at has
  signalled := by simp
  ordered := by
    intro patch same first logged conflict
    obtain rfl := Option.some.inj same
    refine (clear first logged _ (Nat.le_refl _)
      (le_of_eq (Piece.stop_patch src piece)) conflict).imp_right ?_
    intro allows
    refine (kept first allows).imp_right ?_
    rintro ⟨held, guarded, awaits⟩
    obtain ⟨post, member, number, has⟩ := pieced.guards held guarded
    exact ⟨post, member, number, held, has, awaits⟩

/-- Posting one piece. -/
theorem Pieced.sends {guard : Option Guard} {piece : Piece}
    {out : List Post × Lane} (core : Core cfg sys) (plain : sys.Plain cfg)
    (below : lane < cfg.links)
    (pieced : Pieced cfg src lane guard (sys.peer.lanes lane) piece out)
    (new : ∀ held, guard = some held → NewGuard cfg sys held)
    (clear : Clear sys allowed piece.roff (piece.roff + piece.len))
    (kept : ∀ entry, allowed entry → (∃ ord, entry.tag = .placed lane ord) ∨
      ∃ held, guard = some held ∧ Awaits held entry) :
    Sends cfg sys (sys.posted (sys.peer.setLane lane out.2) (lane, out.1))
      src piece.off piece.roff piece.len 1 := by
  have posting := pieced.posting below new clear kept
  have writes : ∀ other, ((sys.peer.setLane lane out.2).writes other) =
      sys.peer.writes other + if other = lane then 1 else 0 := by
    intro other
    rw [posting.writes_eq]
    by_cases here : other = lane
    · subst here
      simp
    · simp [here]
  refine ⟨core.posted posting, ?_, ?_⟩
  · intro other inBond store member sig tag
    rw [posting.outStores_posted] at member
    rcases List.mem_append.mp member with old | new
    · exact plain other inBond store old sig tag
    · split at new
      · obtain ⟨entry, found, rfl⟩ := List.mem_map.mp new
        obtain ⟨carried, has, -⟩ := posting.signal_of_tag found tag
        simp at has
      · simp at new
  · refine ⟨⟨_, posting.log_posted, ?_, ?_⟩, ?_, rfl, rfl, rfl, ?_, ?_, rfl⟩
    · intro entry member
      rcases Posting.mem_entries member with ⟨patch, same, rfl⟩ | ⟨_, has, -⟩
      · obtain rfl := Option.some.inj same
        refine ⟨rfl, Nat.le_refl _, le_of_eq (Piece.stop_patch src piece),
          lane, _, rfl, Nat.lt_succ_self _, ?_⟩
        change sys.peer.writes lane + 1 ≤ (sys.peer.setLane lane out.2).writes lane
        rw [writes, if_pos rfl]
      · simp at has
    · intro memory
      rfl
    · intro other
      change _ ≤ (sys.peer.setLane lane out.2).writes other ∧
        (sys.peer.setLane lane out.2).writes other ≤ _
      rw [writes]
      split <;> omega
    · intro other
      change ((sys.peer.setLane lane out.2).lanes other).fences = _ ∧
        ((sys.peer.setLane lane out.2).lanes other).fenceAcked = _
      by_cases here : other = lane
      · subst here
        rw [Peer.setLane_lane]
        exact pieced.fences
      · rw [Peer.setLane_other _ _ here]
        exact ⟨rfl, rfl⟩
    · intro other
      by_cases here : other = lane
      · subst here
        exact ⟨out.1, by simp [Sys.posted, Sys.emit],
          fun post member => (pieced.silent post member).2⟩
      · exact ⟨[], by simp [Sys.posted, Sys.emit, here], by simp⟩

/-- Posting all the pieces of a part on one link. -/
theorem Core.sends_pieces (src : Mem) (max seg : Nat) (guard : Option Guard)
    (allowed : Entry → Prop) (post : Lane → Piece → List Post × Lane)
    (maxPos : 0 < max) (segPos : 0 < seg) (below : lane < cfg.links)
    (pieced : ∀ half piece, 0 < piece.len → piece.len ≤ max →
      piece.roff + piece.len ≤ cfg.remoteLength →
      Pieced cfg src lane guard half piece (post half piece))
    (kept : ∀ entry, allowed entry → (∃ ord, entry.tag = .placed lane ord) ∨
      ∃ held, guard = some held ∧ Awaits held entry)
    (fuel off roff len : Nat) (core : Core cfg sys) (plain : sys.Plain cfg)
    (enough : len ≤ fuel) (within : roff + len ≤ cfg.remoteLength)
    (new : ∀ held, guard = some held → NewGuard cfg sys held)
    (clear : Clear sys allowed roff (roff + len)) :
    Sends cfg sys
      (sys.after
        (sys.peer.setLane lane (postPieces post (sys.peer.lanes lane)
          (pieces max seg fuel off roff len)).2)
        ((postPieces post (sys.peer.lanes lane)
          (pieces max seg fuel off roff len)).1.map fun posts =>
            (lane, posts)))
      src off roff len (pieces max seg fuel off roff len).length := by
  induction fuel generalizing sys off roff len with
  | zero =>
      have empty : len = 0 := by omega
      subst empty
      simp only [pieces, postPieces, Peer.setLane_self]
      exact ⟨core, plain, Wrote.refl sys src off roff⟩
  | succ fuel inductionHypothesis =>
      rw [pieces]
      split
      · next empty =>
          subst empty
          simp only [postPieces, Peer.setLane_self]
          exact ⟨core, plain, Wrote.refl sys src off roff⟩
      · next some =>
          have inSeg := Nat.mod_lt off segPos
          set take := min (min len max) (seg - off % seg) with takeDef
          have takePos : 0 < take := by omega
          have takeLe : take ≤ len := by omega
          set piece : Piece := ⟨off, roff, take⟩
          have first := (pieced (sys.peer.lanes lane) piece takePos
            (by change take ≤ max; omega)
            (by change roff + take ≤ _; omega)).sends core plain below new
            (clear.mono (Nat.le_refl _) (by change roff + take ≤ _; omega)
              fun _ allows => allows) kept
          set out := post (sys.peer.lanes lane) piece
          have here : (sys.posted (sys.peer.setLane lane out.2)
              (lane, out.1)).peer.lanes lane = out.2 := by
            simp [Sys.posted, Peer.setLane]
          have ahead : Clear sys allowed (roff + take)
              (roff + take + (len - take)) :=
            clear.mono (by omega) (by omega) fun _ allows => allows
          have others := inductionHypothesis (off + take) (roff + take)
            (len - take) first.core first.plain (by omega) (by omega)
            (fun held has => (new held has).sends first)
            (ahead.wrote first.wrote first.core (Or.inl (Nat.le_refl _)))
          have both := first.trans others
          have peer : (sys.posted (sys.peer.setLane lane out.2)
            (lane, out.1)).peer = sys.peer.setLane lane out.2 := rfl
          rw [here, peer, Peer.setLane_setLane] at both
          have whole : take + (len - take) = len := by omega
          change Sends cfg sys _ src off roff (take + (len - take)) _ at both
          rw [whole] at both
          simp only [postPieces, List.map_cons, List.length_cons]
          rw [Sys.after_cons sys (sys.peer.setLane lane out.2)]
          rw [Nat.add_comm 1] at both
          exact both

end

end Fabric
end Mcdma
