import Mcdma.Fabric.Contract

/-!
# No deadlock between the links

The messages at the heads of the links may wait for each other.  Every one of
them waits only for stores the sender logged before its own copy, so the one
whose copy was logged first waits for nothing: when all messages have arrived
one of them can be taken.
-/

namespace Mcdma
namespace Fabric

open Link

section

variable {cfg : Config} {sys : Sys} {lane : Nat} {post : Post} {guard : Guard}

/-- A message whose guard is met is ready. -/
theorem readiness_of_met {bond : Bond} (bonded : bond.bonded = cfg.links)
    (sound : post.Sound cfg.links cfg.remoteLength lane)
    (has : post.guard? lane = some guard)
    (window : ¬bond.OutOfWindow guard.sig)
    (turn : guard.signals = true → guard.sig = bond.rxSignal)
    (met : ∀ other < cfg.links,
      0 ≤ diff32 (bond.placed other) (guard.wait other)) :
    readiness lane bond post = .now := by
  -- both N-link kinds ask the same hook
  have counts : ∀ sig flags (wait : Nat → Nat),
      ¬bond.OutOfWindow sig →
      (flags &&& bondWaitSignals ≠ 0 → sig = bond.rxSignal) →
      (∀ other < cfg.links, 0 ≤ diff32 (bond.placed other) (wait other)) →
      bond.bondReadyN sig flags (lowCounts cfg.links wait) = .now := by
    intro sig flags wait window turn met
    refine (Bond.bondReadyN_eq_now_iff _ _ _ _).mpr ⟨window, turn, ?_⟩
    intro other inBond
    rw [bonded] at inBond
    rw [Bond.ReadyOn, lowCounts, if_pos inBond, diff32_mod]
    exact met other inBond
  cases post with
  | bondWriteN seq number roff bytes sig links wait flags =>
      obtain ⟨rfl, -⟩ := sound
      obtain rfl := Option.some.inj has
      exact counts sig flags wait window (fun flag => turn (by simpa using flag))
        met
  | bondInlineN seq number roff bytes soff value sig links need wait flags =>
      obtain ⟨rfl, -⟩ := sound
      obtain rfl := Option.some.inj has
      exact counts sig flags wait window (fun flag => turn (by simpa using flag))
        met
  | bondWriteSignal seq number roff bytes soff value sig need rest flags wait =>
      obtain ⟨two, -⟩ := sound
      obtain rfl := Option.some.inj has
      refine (Bond.bondReady_eq_now_iff _ _ _ _ _).mpr
        ⟨window, fun flag => turn (by simpa using flag), ?_⟩
      intro flag
      have other := met (if lane = 0 then 1 else 0) (by split <;> omega)
      rw [diff32_mod]
      simpa only [true_and, if_pos flag] using other
  | _ => simp [Post.guard?] at has

theorem readiness_of_unguarded {bond : Bond}
    (free : post.guard? lane = none) : readiness lane bond post = .now := by
  cases post <;>
    first
    | rfl
    | simp [Post.guard?] at free

/-- Only a signal outside the window makes a message impossible. -/
theorem window_of_never {bond : Bond}
    (never : readiness lane bond post = .never) :
    ∃ guard, post.guard? lane = some guard ∧ bond.OutOfWindow guard.sig := by
  cases post with
  | bondWriteN seq number roff bytes sig links wait flags =>
      refine ⟨_, rfl, ?_⟩
      by_contra window
      change bond.bondReadyN sig flags (lowCounts links wait) = .never at never
      rw [Bond.bondReadyN, if_neg window] at never
      split_ifs at never
  | bondInlineN seq number roff bytes soff value sig links need wait flags =>
      refine ⟨_, rfl, ?_⟩
      by_contra window
      change bond.bondReadyN sig flags (lowCounts links wait) = .never at never
      rw [Bond.bondReadyN, if_neg window] at never
      split_ifs at never
  | bondWriteSignal seq number roff bytes soff value sig need rest flags wait =>
      refine ⟨_, rfl, ?_⟩
      by_contra window
      change bond.bondReady lane sig flags (wait % 2 ^ 32) = .never at never
      rw [Bond.bondReady, if_neg window] at never
      split_ifs at never
  | _ => simp [readiness] at never

namespace Core

variable {rest : List Post}

theorem readiness_ne_never (core : Core cfg sys) (below : lane < cfg.links)
    (member : post ∈ sys.queue lane) :
    readiness lane sys.bond post ≠ .never := by
  intro never
  obtain ⟨guard, has, out⟩ := window_of_never never
  exact core.guard_window below member has out

/-- The copy of a guarded message at the head of a link is logged and is the
link's next. -/
theorem head_copy (core : Core cfg sys) (below : lane < cfg.links)
    (wire : sys.wire lane = post :: rest)
    (has : post.guard? lane = some guard) :
    ∃ copy ∈ sys.log, copy.tag = .placed lane (sys.bond.placed lane + 1) ∧
      GuardOk cfg sys lane (sys.bond.placed lane + 1) guard := by
  have member : post ∈ sys.queue lane := by simp [Sys.queue, wire]
  obtain ⟨ord, number, ok⟩ := core.guardOk below member has
  obtain ⟨pos, next, -, counted, step, -, -⟩ := core.head_fits below wire
  have mine := (Post.step_writes step).1 ord number
  rw [← counted] at mine
  subst mine
  obtain ⟨copy, logged, tag⟩ := ok.entry
  exact ⟨copy, logged, tag, ok⟩

/-- A link with a write still to be placed has a message. -/
theorem wire_of_behind (core : Core cfg sys) (below : lane < cfg.links)
    (behind : sys.bond.placed lane < (sys.sent lane).writes) :
    ∃ post rest, sys.wire lane = post :: rest := by
  cases wire : sys.wire lane with
  | cons post rest => exact ⟨post, rest, rfl⟩
  | nil =>
      obtain ⟨pos, -, counted, walked⟩ := (core.lanes lane below).onWire
      rw [wire, walk_nil] at walked
      rw [counted, Option.some.inj walked] at behind
      exact absurd behind (Nat.lt_irrefl _)

/-- A signal on a guarded link was logged behind the link's next copy. -/
theorem copy_before_queued (core : Core cfg sys) (below : lane < cfg.links)
    (wire : sys.wire lane = post :: rest)
    (has : post.guard? lane = some guard) {copy signal : Entry}
    (logged : copy ∈ sys.log)
    (tag : copy.tag = .placed lane (sys.bond.placed lane + 1))
    (found : signal ∈ sys.log) {sig : Nat}
    (kind : signal.tag = .published sig)
    (queued : signal.store ∈ sys.queued lane) :
    Before sys.log copy signal := by
  obtain ⟨pos, -, counted, walked⟩ := (core.lanes lane below).walk_queue
  have queue : sys.queue lane = post :: (rest ++ sys.out lane) := by
    simp [Sys.queue, wire]
  have sound := (core.lanes lane below).sound post (by simp [queue])
  obtain ⟨ord, number⟩ := Post.ord?_of_guard? has
  rw [queue] at walked
  obtain ⟨store, others, first, stores⟩ :=
    exists_first_store sound walked rfl number
  rw [walk_cons] at walked
  obtain ⟨next, step, -⟩ := Option.bind_eq_some_iff.mp walked
  have mine := (Post.step_writes step).1 ord number
  rw [Sys.queued, queue, stores] at queued
  have later : signal.store ∈ others := by
    rcases List.mem_cons.mp queued with same | later
    · rw [Entry.tag, same, first] at kind
      simp at kind
    · exact later
  have inLog := (core.lanes lane below).inLog
  rw [Sys.queued, queue, stores] at inLog
  have order : Before (sys.log.map Entry.store) store signal.store :=
    Before.of_sublist inLog
      ((before_cons_iff _ _ _ _).mpr (Or.inl ⟨rfl, later⟩))
  obtain ⟨early, late, before, rfl, same⟩ :=
    (before_map_iff Entry.store sys.log _ _).mp order
  have isCopy : early = copy := core.history.eq_of_tag before.mem_left logged
    (by rw [Entry.tag, first, tag, mine, counted])
  have isSignal : late = signal :=
    core.history.eq_of_store before.mem_right found same
  rw [← isCopy, ← isSignal]
  exact before

/-- An unpublished signal that was posted was logged behind the next copy of
some link, if every link with a message has a guarded one at its head. -/
theorem exists_copy_before (core : Core cfg sys)
    (guarded : ∀ lane < cfg.links, ∀ post rest, sys.wire lane = post :: rest →
      ∃ guard, post.guard? lane = some guard)
    (quiet : sys.Quiet cfg) {signal : Entry} (found : signal ∈ sys.log)
    (kind : signal.tag = .published sys.bond.rxSignal) :
    ∃ lane < cfg.links, ∃ post rest guard, sys.wire lane = post :: rest ∧
      post.guard? lane = some guard ∧ ∃ copy,
      copy.tag = .placed lane (sys.bond.placed lane + 1) ∧
      Before sys.log copy signal := by
  rcases core.complete signal found _ kind (Nat.le_refl _) with
    ⟨slot, inQueue, seq⟩ | ⟨lane, below, queued⟩
  · -- it waits in the reorder queue for a write of some link
    have positive := core.ledger.counted.1
    have occupied : (sys.bond.pending slot).seq ≠ 0 := by omega
    obtain ⟨home, -, entry, logged, store, watermark⟩ :=
      core.ledger.queue slot inQueue occupied
    have same : entry = signal := core.history.eq_of_tag logged found
      (by rw [Entry.tag, store, kind, seq])
    subst same
    have notDue := core.drained
    rw [seq] at home
    simp only [Bond.Due, home, seq, true_and, not_forall, not_le] at notDue
    obtain ⟨lane, inBond, behind⟩ := notDue
    rw [core.ledger.bonded] at inBond
    have left := core.pendingLeft slot inQueue occupied lane inBond
    obtain ⟨post, rest, wire⟩ := core.wire_of_behind inBond
      (lt_of_lt_of_le behind left)
    obtain ⟨guard, has⟩ := guarded lane inBond post rest wire
    obtain ⟨copy, placed, tag, -⟩ := core.head_copy inBond wire has
    exact ⟨lane, inBond, post, rest, guard, wire, has, copy, tag,
      (watermark.exact copy placed lane _ tag).mp behind⟩
  · -- it is on a link, behind that link's next copy
    cases wire : sys.wire lane with
    | nil => simp [Sys.queued, Sys.queue, wire, quiet lane below] at queued
    | cons post rest =>
        obtain ⟨guard, has⟩ := guarded lane below post rest wire
        obtain ⟨copy, placed, tag, -⟩ := core.head_copy below wire has
        exact ⟨lane, below, post, rest, guard, wire, has, copy, tag,
          core.copy_before_queued below wire has placed tag found kind queued⟩

/-- The guarded head whose copy was logged first waits for nothing. -/
theorem ready_of_first (core : Core cfg sys) (few : sys.Few cfg)
    (quiet : sys.Quiet cfg)
    (guarded : ∀ lane < cfg.links, ∀ post rest, sys.wire lane = post :: rest →
      ∃ guard, post.guard? lane = some guard)
    (below : lane < cfg.links) (wire : sys.wire lane = post :: rest)
    {copy : Entry} (logged : copy ∈ sys.log)
    (tag : copy.tag = .placed lane (sys.bond.placed lane + 1))
    (first : ∀ entry, Before sys.log entry copy → ∀ other < cfg.links,
      sys.wire other ≠ [] →
      entry.tag ≠ .placed other (sys.bond.placed other + 1)) :
    readiness lane sys.bond post = .now := by
  obtain ⟨guard, has⟩ := guarded lane below post rest wire
  have member : post ∈ sys.queue lane := by simp [Sys.queue, wire]
  obtain ⟨-, -, -, ok⟩ := core.head_copy below wire has
  have window := core.guard_window below member has
  refine readiness_of_met core.ledger.bonded
    ((core.lanes lane below).sound post member) has window ?_ ?_
  · intro flag
    by_contra late
    have ahead : sys.bond.rxSignal < guard.sig := by
      simp only [Bond.OutOfWindow, not_or, not_lt] at window
      omega
    have next := ok.next
    obtain ⟨signal, found, kind⟩ := core.history.signalled sys.bond.rxSignal
      core.ledger.counted.1 (by omega)
    obtain ⟨other, inBond, head, behind, -, busy, -, early, its, before⟩ :=
      core.exists_copy_before guarded quiet found kind
    have awaited : Before sys.log signal copy :=
      ok.earlier copy logged tag signal found (by
        rw [Awaits, kind]
        exact ⟨flag, ahead⟩)
    exact first early (before.trans core.history.nodup awaited) other inBond
      (by simp [busy]) its
  · intro other inBond
    have bounds := (core.lanes other inBond).placed_le
    have bound := few other inBond
    have close : Close (sys.bond.placed other) (guard.wait other) := by
      have left := ok.left other inBond
      constructor <;> omega
    rw [close.diff32_nonneg_iff]
    by_contra short
    have left := ok.left other inBond
    obtain ⟨head, behind, busy⟩ := core.wire_of_behind inBond (by omega)
    obtain ⟨held, hasGuard⟩ := guarded other inBond head behind busy
    obtain ⟨early, found, its, -⟩ := core.head_copy inBond busy hasGuard
    have awaited : Before sys.log early copy :=
      ok.earlier copy logged tag early found (by
        rw [Awaits, its]
        dsimp only
        omega)
    exact first early awaited other inBond (by simp [busy]) its

/-- When everything has arrived, the head of some link is ready. -/
theorem exists_ready (core : Core cfg sys) (few : sys.Few cfg)
    (quiet : sys.Quiet cfg)
    (untaken : ∃ lane < cfg.links, sys.wire lane ≠ []) :
    ∃ lane < cfg.links, ∃ post rest, sys.wire lane = post :: rest ∧
      readiness lane sys.bond post = .now := by
  by_cases guarded : ∀ lane < cfg.links, ∀ post rest,
      sys.wire lane = post :: rest → ∃ guard, post.guard? lane = some guard
  · have some : ∃ entry ∈ sys.log, ∃ lane < cfg.links, sys.wire lane ≠ [] ∧
        entry.tag = .placed lane (sys.bond.placed lane + 1) := by
      obtain ⟨lane, below, busy⟩ := untaken
      obtain ⟨post, rest, wire⟩ := List.exists_cons_of_ne_nil busy
      obtain ⟨guard, has⟩ := guarded lane below post rest wire
      obtain ⟨copy, logged, tag, -⟩ := core.head_copy below wire has
      exact ⟨copy, logged, lane, below, busy, tag⟩
    obtain ⟨copy, logged, ⟨lane, below, busy, tag⟩, first⟩ :=
      exists_first core.history.nodup some
    obtain ⟨post, rest, wire⟩ := List.exists_cons_of_ne_nil busy
    refine ⟨lane, below, post, rest, wire, core.ready_of_first few quiet
      guarded below wire logged tag ?_⟩
    intro entry before other inBond waiting its
    exact first entry before ⟨other, inBond, waiting, its⟩
  · push Not at guarded
    obtain ⟨lane, below, post, rest, wire, free⟩ := guarded
    refine ⟨lane, below, post, rest, wire, readiness_of_unguarded ?_⟩
    rw [Option.eq_none_iff_forall_ne_some]
    exact free

end Core

/-- No link of the receiver has failed. -/
def Sys.Healthy (cfg : Config) (sys : Sys) : Prop :=
  ∀ lane < cfg.links, (sys.receiver.lanes lane).why = none

/-- When every message has arrived and some are untaken, a healthy receiver can
take the next message of some link at any time; and a `take` fails only on a
link that failed before, when its message has waited for too long or when the
answer to a fence is refused. -/
theorem some_link_takes (reach : Reach cfg sys) (few : sys.Few cfg) :
    (sys.Quiet cfg → sys.Healthy cfg →
      (∃ lane < cfg.links, sys.wire lane ≠ []) → ∀ now,
      ∃ lane < cfg.links, ∃ final answer,
        sys.take cfg lane now .sent = some (final, .taken answer)) ∧
    ∀ lane < cfg.links, ∀ now reply final,
      sys.take cfg lane now reply = some (final, .failed) →
      (sys.receiver.lanes lane).why ≠ none ∨
      ∃ post rest, sys.wire lane = post :: rest ∧
        ((post.answer?.isSome ∧ reply = .refused) ∨
          (readiness lane sys.bond post = .notYet ∧
            (sys.receiver.lanes lane).stalled ≠ 0 ∧
            tbStallNs < now - (sys.receiver.lanes lane).stalled)) := by
  have core := (reach.inv few).core
  constructor
  · intro quiet healthy untaken now
    obtain ⟨lane, below, post, rest, wire, ready⟩ :=
      core.exists_ready few quiet untaken
    obtain ⟨after, next, -, took⟩ := Sys.step_take core below wire
      (healthy lane below) ready now
    exact ⟨lane, below, _, _, took⟩
  · intro lane below now reply final failed
    obtain ⟨post, rest, pos, next, wire, -, -, -, outcome⟩ :=
      core.take_cases below failed
    have member : post ∈ sys.queue lane := by simp [Sys.queue, wire]
    rcases outcome with ⟨after, -, -, -, taken, -⟩ | ⟨after, -, -, why, -⟩
    · simp at taken
    · refine (why rfl).imp_right fun expired => ⟨post, rest, wire, ?_⟩
      rcases expired with never | cause
      · -- its signal is always in the window
        exact absurd never (core.readiness_ne_never below member)
      · exact cause

/-- A write on one link and a later one with its signal on the other; the later
one has been tried once. -/
def waiting : List Action :=
  [.call (.write (eight 1 0 0)), goOn, goOn, .transmit 0,
    .call (.writeSignal (eight 2 64 4) ⟨16, 7⟩), goOn, goOn, .transmit 1,
    .take 1 1 .sent]

theorem waiting_runs : ((Sys.init pair).run pair waiting).isSome = true := by
  decide +kernel

/-- The bond while the later write waits. -/
def tried : Sys :=
  ((Sys.init pair).run pair waiting).get waiting_runs

theorem tried_waits :
    tried.Few pair ∧ tried.Quiet pair ∧ tried.Healthy pair := by
  unfold Sys.Few Sys.Healthy
  decide +kernel

theorem some_link_takes_tried :
    ∃ lane < pair.links, ∃ final answer,
      tried.take pair lane 2 .sent = some (final, .taken answer) :=
  (some_link_takes (Reach.get waiting_runs) tried_waits.1).1 tried_waits.2.1
    tried_waits.2.2 ⟨1, by decide, by decide +kernel⟩ 2

/-- A message that waits for a write already in the other link's ring fails its
link when that write is not taken within ten seconds. -/
theorem waiting_take_fails :
    ∃ sys, Reach pair sys ∧ sys.Few pair ∧ sys.Quiet pair ∧
      sys.Healthy pair ∧ ∃ lane < pair.links, ∃ now,
        (sys.take pair lane now .sent).map Prod.snd = some .failed :=
  ⟨tried, Reach.get waiting_runs, tried_waits.1, tried_waits.2.1,
    tried_waits.2.2, 1, by decide, tbStallNs + 2, by decide +kernel⟩

end

end Fabric
end Mcdma
