import Mcdma.Fabric.Cover

/-!
# Signals and joined writes

The units that carry a signal: the signal alone, a short write with its signal
inside one packet, and the joined message of a two-link bond.  Each counts the
writes before it and, where it brings bytes, waits for what the table names.
-/

namespace Mcdma
namespace Fabric

open Link

section

variable {cfg : Config} {sys : Sys} {lane : Nat} {peer : Peer}

/-- With empty outboxes each wire ends where its sender stands. -/
theorem Core.sent_of_quiet (core : Core cfg sys) (quiet : sys.Quiet cfg)
    (below : lane < cfg.links) :
    sys.sent lane = Pos.ofLane (sys.peer.lanes lane) := by
  have walked := (core.lanes lane below).inOut
  rw [quiet lane below, walk_nil] at walked
  exact Option.some.inj walked

theorem Core.writes_of_quiet (core : Core cfg sys) (quiet : sys.Quiet cfg)
    (below : lane < cfg.links) :
    (sys.sent lane).writes = sys.peer.writes lane := by
  rw [core.sent_of_quiet quiet below]
  rfl

/-- What the table names may be waited for. -/
theorem Cover.newGuard (cover : Cover cfg sys) (core : Core cfg sys)
    (quiet : sys.Quiet cfg) (off len : Nat)
    (credit : sys.peer.txSignal + 1 ≤ sys.peer.txFenced + bondSignals)
    {guard : Guard} (sig : guard.sig = sys.peer.txSignal + 1)
    (waits : ∀ other < cfg.links, guard.wait other = 0 ∨
      guard.wait other = (bondOverlap sys.peer.table off len).1 other) :
    NewGuard cfg sys guard := by
  have named : ∀ other < cfg.links,
      guard.wait other = 0 ∨ sys.base other < guard.wait other ∧
        guard.wait other ≤ sys.peer.writes other := by
    intro other below
    rcases waits other below with none | same
    · exact Or.inl none
    · rw [same]
      exact bondOverlap_names (fun _ _ => Or.inl rfl) cover.names off len other
        below
  refine ⟨sig, sig ▸ credit, ?_, ?_, quiet.plain⟩
  · intro other below
    rw [core.writes_of_quiet quiet below]
    rcases named other below with none | ⟨-, posted⟩
    · omega
    · exact posted
  · intro other below
    exact (named other below).imp_right fun both => both.1

/-- A unit with a signal is remembered, and its signal covers what is before
it. -/
theorem Cover.posted {posts : List Post} {copy : Option Patch}
    {carried : Carried} {table : Table} (cover : Cover cfg sys)
    (core : Core cfg sys)
    (posting : Posting cfg sys lane posts copy (some carried) peer)
    (keeps : ∀ range, sys.peer.table.Keeps range → table.Keeps range)
    (names : table.Names (Named cfg sys peer.writes))
    (copied : ∀ patch, copy = some patch →
      table.Keeps (copyRange patch lane (sys.peer.writes lane + 1)))
    (remembered : peer.table =
      bondFlagged (bondRemember table carried.off 8 (fun _ => 0) true)) :
    Cover cfg (sys.posted peer (lane, posts)) := by
  have nodup := (posting.history core.history).nodup
  constructor
  · change peer.table.Names (Named cfg sys peer.writes)
    rw [remembered]
    exact Table.names_bondFlagged (Table.names_bondRemember
      (fun _ _ => Or.inl rfl) names _ _ _ fun _ _ => Or.inl rfl)
  · change Remembers peer.table (sys.posted peer (lane, posts)).log sys.epoch
    rw [posting.log_posted, remembered, Posting.entries, ← List.append_assoc]
    rw [Posting.entries, ← List.append_assoc] at nodup
    have first : Remembers table
        (sys.log ++ (copy.map (Posting.copyEntry sys lane)).toList)
        (Posting.signalEntry sys carried).epoch := by
      refine cover.remembers.append_writes (List.nodup_append.mp nodup).1
        keeps ?_
      intro entry member
      obtain ⟨patch, has, rfl⟩ :=
        Option.map_eq_some_iff.mp (Option.mem_toList.mp member)
      exact ⟨lane, _, rfl, copied patch has⟩
    refine first.concat_signal nodup ⟨carried.sig, rfl⟩ rfl ?_
    simp [Posting.signalEntry, Entry.patch, Carried.store, Patch.stop]

/-- A signal with nothing else. -/
theorem posting_bondSignalN {word : Word} (core : Core cfg sys)
    (quiet : sys.Quiet cfg) (below : lane < cfg.links)
    (inBounds : word.InBounds cfg)
    (credit : sys.peer.txSignal + 1 ≤ sys.peer.txFenced + bondSignals)
    (fits : sys.peer.txSignal + 1 < 2 ^ 64) {turned : Peer}
    (alike : sys.peer.Alike turned) :
    let posted := tbBondSignalN (sys.peer.lanes lane) word.off word.value
      (sys.peer.txSignal + 1) (sys.peer.watermarks cfg) cfg.links
    Posting cfg sys lane posted.1 none
      (some ⟨sys.peer.txSignal + 1, sys.peer.watermarks cfg, word.off,
        word.value⟩)
      ((turned.setLane lane posted.2).signalled word) := by
  intro posted
  obtain ⟨aligned, ⟨inside, room⟩, valueFits⟩ := inBounds
  have lanes : ((turned.setLane lane posted.2).signalled word).lanes =
      Function.update sys.peer.lanes lane posted.2 := by
    simp [Peer.signalled, Peer.setLane, alike.lanes]
  have half : ∀ other,
      ((turned.setLane lane posted.2).signalled word).writes other =
        sys.peer.writes other := by
    intro other
    rw [Peer.writes, lanes]
    by_cases here : other = lane
    · subst here
      rw [Function.update_self]
      rfl
    · rw [Function.update_of_ne here]
      rfl
  exact {
    below := below
    walked := by
      rw [lanes, Function.update_self]
      simp [posted, tbBondSignalN, walk, Post.step, Pos.past, Pos.ofLane,
        Lane.sent]
    others := by
      intro other different
      rw [lanes, Function.update_of_ne different]
    sound := by
      intro post member
      rw [List.mem_singleton.mp member]
      exact ⟨rfl, aligned, by omega, valueFits, by omega, fits⟩
    stores := by
      simp [posted, tbBondSignalN, Post.stores, Carried.store]
    counted := half lane
    signals := by
      change turned.txSignal + 1 = _
      rw [alike.txSignal]
      rfl
    fenced := alike.txFenced
    numbers := by simp [posted, tbBondSignalN, Post.ord?]
    guarded := by simp [posted, tbBondSignalN, Post.guard?]
    carries := by
      intro post member carried has
      rw [List.mem_singleton.mp member] at has
      exact has
    signalled := by
      intro carried same
      obtain rfl := Option.some.inj same
      refine ⟨rfl, credit, fits, ?_, ?_⟩
      · intro other inBond
        rw [half]
        exact if_pos inBond
      · intro other inBond
        left
        rw [core.writes_of_quiet quiet inBond]
        exact le_of_eq (if_pos inBond)
    ordered := by simp }

/-- The counts of a signal that rides on a write of link `lane`. -/
def joinedNeed (cfg : Config) (peer : Peer) (lane : Nat) : Nat → Nat :=
  Function.update (peer.watermarks cfg) lane (peer.watermarks cfg lane + 1)

/-- One message with a write's bytes and its signal. -/
theorem posting_joined {post : Post} {patch : Patch} {guard : Guard}
    {word : Word} (core : Core cfg sys) (quiet : sys.Quiet cfg)
    (below : lane < cfg.links)
    (step : post.step (Pos.ofLane (sys.peer.lanes lane)) =
      some (Pos.ofLane ((sys.peer.lanes lane).sent 1)))
    (sound : post.Sound cfg.links cfg.remoteLength lane)
    (copied : post.copied? lane =
      some ⟨.placed lane (sys.peer.writes lane + 1), patch⟩)
    (carried : post.carried? = some ⟨sys.peer.txSignal + 1,
      joinedNeed cfg sys.peer lane, word.off, word.value⟩)
    (guarded : post.guard? lane = some guard) (new : NewGuard cfg sys guard)
    (fits : sys.peer.txSignal + 1 < 2 ^ 64)
    (clear : Clear sys (fun entry => (∃ ord, entry.tag = .placed lane ord) ∨
      Awaits guard entry) patch.off patch.stop)
    (lanes : peer.lanes =
      Function.update sys.peer.lanes lane ((sys.peer.lanes lane).sent 1))
    (txSignal : peer.txSignal = sys.peer.txSignal + 1)
    (txFenced : peer.txFenced = sys.peer.txFenced) :
    Posting cfg sys lane [post] (some patch)
      (some ⟨sys.peer.txSignal + 1, joinedNeed cfg sys.peer lane, word.off,
        word.value⟩) peer := by
  obtain ⟨ord, number, tag, -⟩ := Post.copied?_tag copied
  obtain rfl : sys.peer.writes lane + 1 = ord := by
    simpa using tag
  have counted : peer.writes lane = sys.peer.writes lane + 1 := by
    rw [Peer.writes, lanes, Function.update_self]
    rfl
  have need : ∀ other < cfg.links,
      joinedNeed cfg sys.peer lane other = peer.writes other := by
    intro other inBond
    by_cases here : other = lane
    · subst here
      rw [counted, joinedNeed, Function.update_self, Peer.watermarks,
        if_pos inBond]
    · rw [joinedNeed, Function.update_of_ne here, Peer.watermarks,
        if_pos inBond, Peer.writes, Peer.writes, lanes,
        Function.update_of_ne here]
  exact {
    below := below
    walked := by
      rw [walk_cons, step, Option.bind_some, walk_nil, lanes,
        Function.update_self]
    others := by
      intro other different
      rw [lanes, Function.update_of_ne different]
    sound := by
      intro held member
      rw [List.mem_singleton.mp member]
      exact sound
    stores := by
      rw [List.flatMap_cons, List.flatMap_nil, List.append_nil,
        Post.stores_eq sound, copied, carried]
      rfl
    counted := counted
    signals := txSignal
    fenced := txFenced
    numbers := by
      intro held member ord has
      rw [List.mem_singleton.mp member] at has
      exact Option.some.inj (has.symm.trans number)
    guarded := by
      intro held member mine has
      rw [List.mem_singleton.mp member] at has
      rw [← Option.some.inj (guarded.symm.trans has)]
      exact ⟨rfl, new⟩
    carries := by
      intro held member mine has
      rw [List.mem_singleton.mp member] at has
      exact carried.symm.trans has
    signalled := by
      intro mine same
      obtain rfl := Option.some.inj same
      refine ⟨rfl, new.next ▸ new.credit, fits, need, ?_⟩
      intro other inBond
      by_cases here : other = lane
      · subst here
        right
        refine ⟨rfl, fun held member _ => ?_⟩
        rw [List.mem_singleton.mp member, number, ← counted]
        exact congrArg some (need other inBond).symm
      · left
        change joinedNeed cfg sys.peer lane other ≤ _
        rw [core.writes_of_quiet quiet inBond, joinedNeed,
          Function.update_of_ne here, Peer.watermarks, if_pos inBond]
    ordered := by
      intro mine same first logged conflict
      obtain rfl := Option.some.inj same
      refine (clear first logged patch (Nat.le_refl _) (Nat.le_refl _)
        conflict).imp_right (Or.imp_right ?_)
      intro awaits
      exact ⟨post, by simp, number, guard, guarded, awaits⟩ }

/-- The table with a joined write in it. -/
theorem Cover.posted_joined {post : Post} {carried : Carried} {src : Mem}
    {off roff len : Nat} (cover : Cover cfg sys) (core : Core cfg sys)
    (some : len ≠ 0)
    (posting : Posting cfg sys lane [post]
      (.some ⟨roff, src.read off len⟩) (.some carried) peer)
    (remembered : peer.table = bondFlagged (bondRemember
      (bondRemember sys.peer.table roff len
        (Function.update (fun _ => 0) lane (sys.peer.writes lane + 1)) false)
      carried.off 8 (fun _ => 0) true)) :
    Cover cfg (sys.posted peer (lane, [post])) := by
  refine cover.posted core posting (fun range kept =>
    Table.keeps_bondRemember kept _ _ _ _) ?_ ?_ remembered
  · refine Table.names_bondRemember (fun _ _ => Or.inl rfl)
      (cover.names.mono (Named.mono rfl posting.writes_le)) _ _ _ ?_
    intro other inBond
    by_cases here : other = lane
    · subst here
      rw [Function.update_self]
      right
      have ok := core.lanes other posting.below
      have placed := ok.placed_le
      have based := ok.based
      have counted := posting.counted
      simp only [Option.toList_some, List.length_singleton] at counted
      omega
    · rw [Function.update_of_ne here]
      exact Or.inl rfl
  · intro patch same
    obtain rfl := Option.some.inj same
    rw [copyRange, Patch.stop, Mem.length_read]
    exact Table.keeps_bondRemember_self _ _ _ false some

end

end Fabric
end Mcdma
