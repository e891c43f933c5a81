import Mcdma.Fabric.TakeStep

/-!
# Posting keeps the invariant

The sender's half of the invariant proof.  Everything a bonded call posts comes
in units of at most one copy and at most one signal on one link; `Posting` says
what such a unit must satisfy, and the invariant then holds with it in flight.
-/

namespace Mcdma
namespace Fabric

open Link

namespace Sys

/-- No signal is left in an outbox. -/
def Plain (cfg : Config) (sys : Sys) : Prop :=
  ∀ lane < cfg.links, ∀ store ∈ sys.outStores lane,
    ∀ sig, store.tag ≠ .published sig

/-- A bond whose sender has put a unit of messages into an outbox. -/
def posted (sys : Sys) (peer : Peer) (batch : Batch) : Sys :=
  { sys.emit batch with peer := peer }

theorem Quiet.plain {cfg : Config} {sys : Sys} (quiet : sys.Quiet cfg) :
    sys.Plain cfg := by
  intro lane below store member
  simp [outStores, quiet lane below] at member

end Sys

/-- A guard that may be posted now. -/
structure NewGuard (cfg : Config) (sys : Sys) (guard : Guard) : Prop where
  next : guard.sig = sys.peer.txSignal + 1
  credit : guard.sig ≤ sys.peer.txFenced + bondSignals
  left : ∀ other < cfg.links, guard.wait other ≤ (sys.sent other).writes
  near : ∀ other < cfg.links,
    guard.wait other = 0 ∨ sys.base other < guard.wait other
  plain : sys.Plain cfg

/-- A signal that may be posted now. -/
structure NewSignal (cfg : Config) (sys : Sys) (lane : Nat) (peer : Peer)
    (posts : List Post) (carried : Carried) : Prop where
  next : carried.sig = sys.peer.txSignal + 1
  credit : carried.sig ≤ sys.peer.txFenced + bondSignals
  fits : carried.sig < 2 ^ 64
  counts : ∀ other < cfg.links, carried.need other = peer.writes other
  left : ∀ other < cfg.links, carried.need other ≤ (sys.sent other).writes ∨
    (other = lane ∧ ∀ post ∈ posts, post.carried? = some carried →
      post.ord? = some (carried.need other))

/-- A unit of messages that may be posted on link `lane`: at most one copy and
at most one signal, `peer` being the sender afterwards. -/
structure Posting (cfg : Config) (sys : Sys) (lane : Nat) (posts : List Post)
    (copy : Option Patch) (word : Option Carried) (peer : Peer) : Prop where
  below : lane < cfg.links
  walked : walk (Pos.ofLane (sys.peer.lanes lane)) posts =
    some (Pos.ofLane (peer.lanes lane))
  others : ∀ other, other ≠ lane →
    Pos.ofLane (peer.lanes other) = Pos.ofLane (sys.peer.lanes other)
  sound : ∀ post ∈ posts, post.Sound cfg.links cfg.remoteLength lane
  stores : posts.flatMap (Post.stores lane) =
    (copy.map (Store.mk (.placed lane (sys.peer.writes lane + 1)))).toList ++
      (word.map Carried.store).toList
  counted : peer.writes lane = sys.peer.writes lane + copy.toList.length
  signals : peer.txSignal = sys.peer.txSignal + word.toList.length
  fenced : peer.txFenced = sys.peer.txFenced
  numbers : ∀ post ∈ posts, ∀ ord, post.ord? = some ord →
    ord = sys.peer.writes lane + 1
  guarded : ∀ post ∈ posts, ∀ guard, post.guard? lane = some guard →
    copy.isSome ∧ NewGuard cfg sys guard
  carries : ∀ post ∈ posts, ∀ carried, post.carried? = some carried →
    word = some carried
  signalled : ∀ carried, word = some carried →
    NewSignal cfg sys lane peer posts carried
  ordered : ∀ patch, copy = some patch → ∀ first ∈ sys.log,
    Conflict sys.log first patch →
      Applied sys.bond first ∨ (∃ other, first.tag = .placed lane other) ∨
        ∃ post ∈ posts, post.ord? = some (sys.peer.writes lane + 1) ∧
          ∃ guard, post.guard? lane = some guard ∧ Awaits guard first

section

variable {cfg : Config} {sys : Sys} {lane : Nat} {posts : List Post}
variable {copy : Option Patch} {word : Option Carried} {peer : Peer}

namespace Posting

/-- The log entry of a unit's copy. -/
def copyEntry (sys : Sys) (lane : Nat) (patch : Patch) : Entry :=
  ⟨sys.epoch, ⟨.placed lane (sys.peer.writes lane + 1), patch⟩⟩

/-- The log entry of a unit's signal. -/
def signalEntry (sys : Sys) (carried : Carried) : Entry :=
  ⟨sys.epoch, carried.store⟩

/-- What a unit adds to the log. -/
def entries (sys : Sys) (lane : Nat) (copy : Option Patch)
    (word : Option Carried) : List Entry :=
  (copy.map (copyEntry sys lane)).toList ++
    (word.map (signalEntry sys)).toList

theorem log_posted (posting : Posting cfg sys lane posts copy word peer) :
    (sys.posted peer (lane, posts)).log =
      sys.log ++ entries sys lane copy word := by
  change sys.log ++ (posts.flatMap (Post.stores lane)).map
    (Entry.mk sys.epoch) = _
  rw [posting.stores]
  cases copy <;> cases word <;> rfl

theorem mem_entries {entry : Entry}
    (member : entry ∈ entries sys lane copy word) :
    (∃ patch, copy = some patch ∧ entry = copyEntry sys lane patch) ∨
      ∃ carried, word = some carried ∧ entry = signalEntry sys carried := by
  rcases List.mem_append.mp member with isCopy | isSignal
  · obtain ⟨patch, has, same⟩ :=
      Option.map_eq_some_iff.mp (Option.mem_toList.mp isCopy)
    exact Or.inl ⟨patch, has, same.symm⟩
  · obtain ⟨carried, has, same⟩ :=
      Option.map_eq_some_iff.mp (Option.mem_toList.mp isSignal)
    exact Or.inr ⟨carried, has, same.symm⟩

theorem writes_eq (posting : Posting cfg sys lane posts copy word peer) :
    peer.writes = Function.update sys.peer.writes lane
      (sys.peer.writes lane + copy.toList.length) := by
  funext other
  by_cases here : other = lane
  · subst here
    simp [posting.counted]
  · rw [Function.update_of_ne here]
    exact congrArg Pos.writes (posting.others other here)

theorem writes_le (posting : Posting cfg sys lane posts copy word peer)
    (other : Nat) : sys.peer.writes other ≤ peer.writes other := by
  rw [posting.writes_eq]
  by_cases here : other = lane
  · subst here
    simp
  · simp [here]

/-- The log with the unit. -/
theorem history (posting : Posting cfg sys lane posts copy word peer)
    (wf : Log cfg.links sys.log sys.peer.writes sys.peer.txSignal) :
    Log cfg.links (sys.log ++ entries sys lane copy word) peer.writes
      peer.txSignal := by
  have copied : Log cfg.links
      (sys.log ++ (copy.map (copyEntry sys lane)).toList) peer.writes
      sys.peer.txSignal := by
    rw [posting.writes_eq]
    cases copy with
    | none => simpa using wf
    | some patch =>
        have tag : (copyEntry sys lane patch).tag =
          .placed lane (sys.peer.writes lane + 1) := rfl
        exact wf.concat_write posting.below tag
  rw [entries, ← List.append_assoc, posting.signals]
  cases has : word with
  | none => simpa using copied
  | some carried =>
      have tag : (signalEntry sys carried).tag =
          .published (sys.peer.txSignal + 1) := by
        rw [← (posting.signalled carried has).next]
        rfl
      exact copied.concat_signal tag

/-- The unit's writes are new. -/
theorem later (posting : Posting cfg sys lane posts copy word peer)
    {entry : Entry} (member : entry ∈ entries sys lane copy word)
    {other ord : Nat} (tag : entry.tag = .placed other ord) :
    other < cfg.links ∧ sys.peer.writes other < ord := by
  rcases mem_entries member with ⟨patch, -, rfl⟩ | ⟨carried, -, rfl⟩
  · obtain ⟨rfl, rfl⟩ := Tag.placed.inj tag
    exact ⟨posting.below, Nat.lt_succ_self _⟩
  · exact absurd tag (by simp [Entry.tag, signalEntry, Carried.store])

theorem unapplied (posting : Posting cfg sys lane posts copy word peer)
    (core : Core cfg sys) {entry : Entry}
    (member : entry ∈ entries sys lane copy word) :
    ¬Applied sys.bond entry := by
  rcases mem_entries member with ⟨patch, -, rfl⟩ | ⟨carried, has, rfl⟩
  · have bounds := (core.lanes lane posting.below).placed_le
    change ¬sys.peer.writes lane + 1 ≤ sys.bond.placed lane
    omega
  · have next := (posting.signalled carried has).next
    have published := core.rxSignal_le
    change ¬carried.sig < sys.bond.rxSignal
    omega

theorem queue_posted (sys : Sys) (peer : Peer) (lane : Nat) (posts : List Post)
    (other : Nat) :
    (sys.posted peer (lane, posts)).queue other =
      sys.queue other ++ if other = lane then posts else [] := by
  by_cases here : other = lane
  · subst here
    simp [Sys.queue, Sys.posted, Sys.emit]
  · simp [Sys.queue, Sys.posted, Sys.emit, here]

theorem mem_queue_posted {other : Nat} {post : Post}
    (member : post ∈ (sys.posted peer (lane, posts)).queue other) :
    post ∈ sys.queue other ∨ other = lane ∧ post ∈ posts := by
  rw [queue_posted] at member
  rcases List.mem_append.mp member with old | new
  · exact Or.inl old
  · split at new
    · next here => exact Or.inr ⟨here, new⟩
    · simp at new

/-- The stores of the unit. -/
theorem stores_eq (posting : Posting cfg sys lane posts copy word peer) :
    posts.flatMap (Post.stores lane) =
      (entries sys lane copy word).map Entry.store := by
  rw [posting.stores]
  cases copy <;> cases word <;> rfl

theorem queued_posted (posting : Posting cfg sys lane posts copy word peer)
    (other : Nat) :
    (sys.posted peer (lane, posts)).queued other =
      sys.queued other ++ if other = lane then
        (entries sys lane copy word).map Entry.store else [] := by
  rw [Sys.queued, queue_posted, List.flatMap_append]
  by_cases here : other = lane
  · subst here
    rw [if_pos rfl, if_pos rfl, posting.stores_eq, Sys.queued]
  · rw [if_neg here, if_neg here, Sys.queued, List.flatMap_nil]

theorem outStores_posted (posting : Posting cfg sys lane posts copy word peer)
    (other : Nat) :
    (sys.posted peer (lane, posts)).outStores other =
      sys.outStores other ++ if other = lane then
        (entries sys lane copy word).map Entry.store else [] := by
  rw [← posting.stores_eq]
  by_cases here : other = lane
  · subst here
    simp [Sys.outStores, Sys.posted, Sys.emit]
  · simp [Sys.outStores, Sys.posted, Sys.emit, here]

/-- A store of the link after posting is an old one or the unit's. -/
theorem mem_queued (posting : Posting cfg sys lane posts copy word peer)
    {other : Nat} {store : Store}
    (member : store ∈ (sys.posted peer (lane, posts)).queued other) :
    store ∈ sys.queued other ∨ other = lane ∧
      ∃ entry ∈ entries sys lane copy word, entry.store = store := by
  rw [posting.queued_posted] at member
  rcases List.mem_append.mp member with old | new
  · exact Or.inl old
  · split at new
    · next here =>
        obtain ⟨entry, found, same⟩ := List.mem_map.mp new
        exact Or.inr ⟨here, entry, found, same⟩
    · simp at new

/-- A published tag among the unit's entries is its signal's. -/
theorem signal_of_tag (posting : Posting cfg sys lane posts copy word peer)
    {entry : Entry} (member : entry ∈ entries sys lane copy word) {sig : Nat}
    (tag : entry.tag = .published sig) :
    ∃ carried, word = some carried ∧ entry = signalEntry sys carried ∧
      sig = sys.peer.txSignal + 1 := by
  rcases mem_entries member with ⟨patch, -, rfl⟩ | ⟨carried, has, rfl⟩
  · exact absurd tag (by simp [Entry.tag, copyEntry])
  · refine ⟨carried, has, rfl, ?_⟩
    have same : Tag.published carried.sig = .published sig := tag
    rw [← Tag.published.inj same, (posting.signalled carried has).next]

theorem laneOk (posting : Posting cfg sys lane posts copy word peer)
    (core : Core cfg sys) {other : Nat} (inBond : other < cfg.links) :
    LaneOk cfg (sys.posted peer (lane, posts)) other := by
  have old := core.lanes other inBond
  refine ⟨old.onWire, ?_, ?_, ?_, old.based⟩
  · change walk (sys.sent other) (Function.update sys.out lane
      (sys.out lane ++ posts) other) = some (Pos.ofLane (peer.lanes other))
    by_cases here : other = lane
    · subst here
      rw [Function.update_self]
      exact walk_append_of old.inOut posting.walked
    · rw [Function.update_of_ne here, posting.others other here]
      exact old.inOut
  · intro post member
    rcases mem_queue_posted member with before | ⟨rfl, new⟩
    · exact old.sound post before
    · exact posting.sound post new
  · rw [posting.log_posted, posting.queued_posted, List.map_append]
    split
    · exact old.inLog.append (List.Sublist.refl _)
    · rw [List.append_nil]
      exact old.inLog.trans (List.sublist_append_left _ _)

/-- Nothing new is awaited by a guard of what has left. -/
theorem not_awaits (posting : Posting cfg sys lane posts copy word peer)
    (core : Core cfg sys) {guard : Guard}
    (next : guard.sig ≤ sys.peer.txSignal + 1)
    (left : ∀ other < cfg.links, guard.wait other ≤ (sys.sent other).writes)
    {entry : Entry} (member : entry ∈ entries sys lane copy word) :
    ¬Awaits guard entry := by
  intro awaits
  rcases mem_entries member with ⟨patch, -, rfl⟩ | ⟨carried, has, rfl⟩
  · have bounds := (core.lanes lane posting.below).placed_le
    have waits := left lane posting.below
    change sys.peer.writes lane + 1 ≤ guard.wait lane at awaits
    omega
  · have number := (posting.signalled carried has).next
    have below : carried.sig < guard.sig := awaits.2
    omega

theorem before_entries {first last : Entry} (logged : first ∈ sys.log)
    (member : last ∈ entries sys lane copy word) :
    Before (sys.log ++ entries sys lane copy word) first last :=
  (before_append_iff _ _ _ _).mpr (Or.inr (Or.inl ⟨logged, member⟩))

theorem mem_copyEntry {patch : Patch} (has : copy = some patch) :
    copyEntry sys lane patch ∈ entries sys lane copy word := by
  simp [entries, has]

theorem mem_signalEntry {carried : Carried} (has : word = some carried) :
    signalEntry sys carried ∈ entries sys lane copy word := by
  simp [entries, has]

/-- The guards in flight stay as they should be. -/
theorem guardOk_old (posting : Posting cfg sys lane posts copy word peer)
    (core : Core cfg sys) {other ord : Nat} {guard : Guard}
    (ok : GuardOk cfg sys other ord guard) :
    GuardOk cfg (sys.posted peer (lane, posts)) other ord guard := by
  have longer := List.sublist_append_left sys.log (entries sys lane copy word)
  have history := posting.history core.history
  obtain ⟨old, oldMember, oldTag⟩ := ok.entry
  have grows : sys.peer.txSignal ≤ peer.txSignal := by
    rw [posting.signals]
    omega
  refine ⟨?_, ok.next.trans (Nat.succ_le_succ grows), ?_, ?_, ok.left, ok.near,
    ?_, ?_⟩
  · change guard.sig ≤ peer.txFenced + bondSignals
    rw [posting.fenced]
    exact ok.credit
  · rw [posting.log_posted]
    exact ⟨old, List.mem_append_left _ oldMember, oldTag⟩
  · rw [posting.log_posted]
    rcases ok.ahead with next | ⟨early, signal, kind, tag, before⟩
    · cases has : word with
      | none =>
          left
          change guard.sig = peer.txSignal + 1
          rw [posting.signals, has]
          exact next
      | some carried =>
          right
          refine ⟨old, signalEntry sys carried, oldTag, ?_, ?_⟩
          · change Tag.published carried.sig = _
            rw [(posting.signalled carried has).next, next]
          · rw [← has]
            exact before_entries oldMember (mem_signalEntry has)
    · exact Or.inr ⟨early, signal, kind, tag, before.of_sublist longer⟩
  · rw [posting.log_posted]
    intro mine member tag entry logged awaits
    have same : mine = old := history.eq_of_tag member
      (List.mem_append_left _ oldMember) (tag.trans oldTag.symm)
    subst same
    rcases List.mem_append.mp logged with before | new
    · exact (ok.earlier mine oldMember tag entry before awaits).of_sublist
        longer
    · exact absurd awaits (posting.not_awaits core ok.next ok.left new)
  · intro elsewhere inBond store member sig tag
    rw [posting.outStores_posted] at member
    rcases List.mem_append.mp member with before | new
    · exact ok.quiet elsewhere inBond store before sig tag
    · split at new
      · obtain ⟨entry, found, rfl⟩ := List.mem_map.mp new
        obtain ⟨-, -, -, rfl⟩ := posting.signal_of_tag found tag
        exact ok.next
      · simp at new

/-- The guard of the unit is as it should be. -/
theorem guardOk_new (posting : Posting cfg sys lane posts copy word peer)
    (core : Core cfg sys) {post : Post} (member : post ∈ posts)
    {guard : Guard} {ord : Nat} (has : post.guard? lane = some guard)
    (number : post.ord? = some ord) :
    GuardOk cfg (sys.posted peer (lane, posts)) lane ord guard := by
  obtain ⟨copied, new⟩ := posting.guarded post member guard has
  obtain ⟨patch, isCopy⟩ := Option.isSome_iff_exists.mp copied
  have isNext := posting.numbers post member ord number
  subst isNext
  have history := posting.history core.history
  have mine : copyEntry sys lane patch ∈ entries sys lane copy word :=
    mem_copyEntry isCopy
  refine ⟨?_, ?_, ?_, ?_, new.left, new.near, ?_, ?_⟩
  · change guard.sig ≤ peer.txFenced + bondSignals
    rw [posting.fenced]
    exact new.credit
  · change guard.sig ≤ peer.txSignal + 1
    rw [posting.signals, new.next]
    omega
  · rw [posting.log_posted]
    exact ⟨_, List.mem_append_right _ mine, rfl⟩
  · rw [posting.log_posted]
    cases signal : word with
    | none =>
        left
        change guard.sig = peer.txSignal + 1
        rw [posting.signals, signal]
        exact new.next
    | some carried =>
        right
        refine ⟨copyEntry sys lane patch, signalEntry sys carried, rfl, ?_, ?_⟩
        · change Tag.published carried.sig = _
          rw [(posting.signalled carried signal).next, new.next]
        · rw [isCopy]
          refine (before_append_iff _ _ _ _).mpr (Or.inr (Or.inr ?_))
          exact List.Sublist.refl _
  · rw [posting.log_posted]
    intro own logged tag entry found awaits
    have same := history.eq_of_tag logged (List.mem_append_right _ mine) tag
    subst same
    rcases List.mem_append.mp found with before | fresh
    · exact before_entries before mine
    · exact absurd awaits (posting.not_awaits core (le_of_eq new.next)
        new.left fresh)
  · intro elsewhere inBond store found sig tag
    rw [posting.outStores_posted] at found
    rcases List.mem_append.mp found with before | fresh
    · exact absurd tag (new.plain elsewhere inBond store before sig)
    · split at fresh
      · obtain ⟨entry, inUnit, rfl⟩ := List.mem_map.mp fresh
        obtain ⟨-, -, -, rfl⟩ := posting.signal_of_tag inUnit tag
        exact le_of_eq new.next
      · simp at fresh

theorem carriedOk_old (posting : Posting cfg sys lane posts copy word peer)
    (core : Core cfg sys) {other : Nat} {post : Post} {carried : Carried}
    (ok : CarriedOk cfg sys other post carried) :
    CarriedOk cfg (sys.posted peer (lane, posts)) other post carried := by
  obtain ⟨signal, member, store, watermark⟩ := ok.logged
  refine ⟨?_, ok.near, ok.left⟩
  rw [posting.log_posted]
  exact ⟨signal, List.mem_append_left _ member, store,
    watermark.append (posting.history core.history).unique member
      (fun entry found other ord tag => posting.later found tag)
      (fun other _ => posting.writes_le other)⟩

/-- The signal of the unit counts the writes before it. -/
theorem carriedOk_new (posting : Posting cfg sys lane posts copy word peer)
    (core : Core cfg sys) {post : Post} (member : post ∈ posts)
    {carried : Carried} (has : post.carried? = some carried) :
    CarriedOk cfg (sys.posted peer (lane, posts)) lane post carried := by
  have isSignal := posting.carries post member carried has
  have new := posting.signalled carried isSignal
  have history := posting.history core.history
  refine ⟨?_, ?_, ?_⟩
  · rw [posting.log_posted]
    refine ⟨signalEntry sys carried,
      List.mem_append_right _ (mem_signalEntry isSignal), rfl, ?_, ?_⟩
    · intro entry logged other ord tag
      obtain ⟨inBond, -, posted⟩ := history.placed entry logged other ord tag
      rw [new.counts other inBond]
      refine ⟨fun _ => ?_, fun _ => posted⟩
      -- the signal is the last entry, so every write is before it
      rw [entries, isSignal, ← List.append_assoc] at logged ⊢
      refine (before_append_iff _ _ _ _).mpr (Or.inr (Or.inl ⟨?_, by simp⟩))
      rcases List.mem_append.mp logged with before | last
      · exact before
      · simp only [Option.map_some, Option.toList_some,
          List.mem_singleton] at last
        rw [last] at tag
        exact absurd tag (by simp [Entry.tag, signalEntry, Carried.store])
    · intro other inBond
      exact le_of_eq (new.counts other inBond)
  · intro other inBond
    rw [new.counts other inBond]
    have ok := core.lanes other inBond
    exact ok.based.trans (ok.placed_le.1.trans (ok.placed_le.2.trans
      (posting.writes_le other)))
  · intro other inBond
    refine (new.left other inBond).imp_right ?_
    rintro ⟨rfl, number⟩
    exact ⟨rfl, number post member has⟩

/-- What must come before the unit's copy. -/
theorem conflict_of_ordered
    (posting : Posting cfg sys lane posts copy word peer)
    (core : Core cfg sys) {patch : Patch} (has : copy = some patch)
    {first : Entry}
    (ordered : Ordered (sys.log ++ entries sys lane copy word) first
      (copyEntry sys lane patch)) :
    first ∈ sys.log ∧ Conflict sys.log first patch := by
  have nodup := (posting.history core.history).nodup
  have mine : copyEntry sys lane patch ∈ entries sys lane copy word :=
    mem_copyEntry has
  have logged : first ∈ sys.log := by
    rcases (before_append_iff _ _ _ _).mp ordered.1 with before | across |
      inside
    · exact absurd rfl ((List.nodup_append.mp nodup).2.2 _ before.mem_right _
        mine)
    · exact across.1
    · -- the copy is the unit's first entry
      have last := (List.nodup_append.mp nodup).2.1
      rw [entries, has] at inside last
      simp only [Option.map_some, Option.toList_some, List.singleton_append,
        before_cons_iff, List.nodup_cons] at inside last
      rcases inside with ⟨-, again⟩ | again
      · exact absurd again last.1
      · exact absurd again.mem_right last.1
  refine ⟨logged, ?_⟩
  rcases ordered.2 with ⟨sig, tag⟩ | meets | ⟨isSignal, write, isWrite, same,
    before, meets⟩
  · exact absurd tag (by simp [Entry.tag, copyEntry])
  · exact Or.inl meets
  · exact Or.inr ⟨isSignal, write, isWrite, same,
      before.of_append_left nodup logged, meets⟩

end Posting

/-- A unit that may be posted keeps the invariant. -/
theorem Core.posted (core : Core cfg sys)
    (posting : Posting cfg sys lane posts copy word peer) :
    Core cfg (sys.posted peer (lane, posts)) := by
  have history := posting.history core.history
  have more : ∀ other, ∀ post ∈ sys.queue other,
      post ∈ (sys.posted peer (lane, posts)).queue other := by
    intro other post member
    rw [Posting.queue_posted]
    exact List.mem_append_left _ member
  exact {
    lanes := fun other inBond => posting.laneOk core inBond
    history := by
      rw [posting.log_posted]
      exact history
    ledger := by
      rw [posting.log_posted]
      exact core.ledger.append history.unique
        (fun entry found other ord tag => posting.later found tag)
        (fun other _ => posting.writes_le other)
        (fun entry found => posting.unapplied core found)
    drained := core.drained
    window := core.window
    tails := core.tails
    fenced := by
      change peer.txFenced < _
      rw [posting.fenced]
      exact core.fenced
    credit := by
      change peer.txSignal ≤ peer.txFenced + bondSignals
      rw [posting.signals, posting.fenced]
      cases has : word with
      | none => exact core.credit
      | some carried =>
          have new := posting.signalled carried has
          have credit := new.credit
          rw [new.next] at credit
          exact credit
    signalsFit := by
      change peer.txSignal < 2 ^ 64
      rw [posting.signals]
      cases has : word with
      | none => exact core.signalsFit
      | some carried =>
          have new := posting.signalled carried has
          have fits := new.fits
          rw [new.next] at fits
          exact fits
    guards := by
      intro other inBond post member guard ord has number
      rcases Posting.mem_queue_posted member with old | ⟨rfl, new⟩
      · exact posting.guardOk_old core
          (core.guards other inBond post old guard ord has number)
      · exact posting.guardOk_new core new has number
    carried := by
      intro other inBond post member carried has
      rcases Posting.mem_queue_posted member with old | ⟨rfl, new⟩
      · exact posting.carriedOk_old core
          (core.carried other inBond post old carried has)
      · exact posting.carriedOk_new core new has
    pendingLeft := core.pendingLeft
    complete := by
      rw [posting.log_posted]
      intro entry logged sig tag ahead
      rcases List.mem_append.mp logged with old | new
      · refine (core.complete entry old sig tag ahead).imp_right ?_
        rintro ⟨other, inBond, found⟩
        refine ⟨other, inBond, ?_⟩
        rw [posting.queued_posted]
        exact List.mem_append_left _ found
      · right
        refine ⟨lane, posting.below, ?_⟩
        rw [posting.queued_posted, if_pos rfl]
        exact List.mem_append_right _ (List.mem_map_of_mem new)
    upcoming := by
      intro other inBond store member sig tag
      rcases posting.mem_queued member with old | ⟨-, entry, new, rfl⟩
      · exact core.upcoming other inBond store old sig tag
      · obtain ⟨-, -, -, rfl⟩ := posting.signal_of_tag new tag
        refine ⟨core.rxSignal_le, ?_⟩
        intro slot inQueue seq
        change (sys.bond.pending slot).seq = _ at seq
        have bound := (core.pending_le inQueue (by omega)).2.2
        omega
    exclusive := by
      intro one inOne two inTwo different store left right sig tag
      have old : ∀ lane < cfg.links, store ∈ sys.queued lane →
          sig ≤ sys.peer.txSignal := by
        intro lane below member
        obtain ⟨entry, logged, same⟩ := (core.lanes lane below).exists_entry
          member
        exact (core.history.published entry logged sig
          (by rw [Entry.tag, same, tag])).2
      rcases posting.mem_queued left with oldLeft | ⟨rfl, entry, new, same⟩
      · rcases posting.mem_queued right with oldRight | ⟨rfl, entry, new, same⟩
        · exact core.exclusive one inOne two inTwo different store oldLeft
            oldRight sig tag
        · have bound := old one inOne oldLeft
          obtain ⟨-, -, -, rfl⟩ := posting.signal_of_tag new
            (by rw [Entry.tag, same, tag])
          omega
      · rcases posting.mem_queued right with oldRight | ⟨rfl, -⟩
        · have bound := old two inTwo oldRight
          obtain ⟨-, -, -, rfl⟩ := posting.signal_of_tag new
            (by rw [Entry.tag, same, tag])
          omega
        · exact different rfl
    depends := by
      rw [posting.log_posted]
      intro other inBond mine logged ord tag unplaced first ordered
      rcases List.mem_append.mp logged with old | new
      · have before := ordered.of_append history.unique old
        refine (core.depends other inBond mine old ord tag unplaced first
          before).imp_right (Or.imp_right ?_)
        rintro ⟨post, member, number, guard, has, awaits⟩
        exact ⟨post, more other post member, number, guard, has, awaits⟩
      · rcases Posting.mem_entries new with ⟨patch, has, rfl⟩ |
          ⟨carried, -, rfl⟩
        · obtain ⟨rfl, rfl⟩ := Tag.placed.inj tag
          obtain ⟨found, conflict⟩ := posting.conflict_of_ordered core has
            ordered
          refine (posting.ordered patch has first found conflict).imp_right
            (Or.imp_right ?_)
          rintro ⟨post, member, number, guard, guarded, awaits⟩
          refine ⟨post, ?_, number, guard, guarded, awaits⟩
          rw [Posting.queue_posted, if_pos rfl]
          exact List.mem_append_right _ member
        · exact absurd tag (by
            simp [Entry.tag, Posting.signalEntry, Carried.store])
    epochs := by
      rw [posting.log_posted]
      intro entry logged
      rcases List.mem_append.mp logged with old | new
      · exact core.epochs entry old
      · rcases Posting.mem_entries new with ⟨patch, -, rfl⟩ | ⟨carried, -, rfl⟩
        · exact Nat.le_refl _
        · exact Nat.le_refl _
    settled := by
      rw [posting.log_posted]
      intro entry logged earlier
      rcases List.mem_append.mp logged with old | new
      · exact core.settled entry old earlier
      · change entry.epoch < sys.epoch at earlier
        rcases Posting.mem_entries new with ⟨patch, -, rfl⟩ | ⟨carried, -, rfl⟩
        · exact absurd earlier (Nat.lt_irrefl _)
        · exact absurd earlier (Nat.lt_irrefl _) }

end

end Fabric
end Mcdma
