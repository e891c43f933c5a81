import Mcdma.Fabric.Hooks

/-!
# What was posted and what has been stored

The log of a bond lists the stores its sender has asked for, in posting order.
The receiver makes them in another order, its trace.  `Ledger` relates the two:
the trace holds exactly the logged stores that the placement counts and the
signal count say were made, and it keeps the order of every pair that must be
kept.  The lemmas say how each thing a receiver can do extends the trace.
-/

namespace Mcdma
namespace Fabric

open Link

/-- A store the sender asked for, with the number of flushes completed when it
was posted. -/
structure Entry where
  epoch : Nat
  store : Store
  deriving DecidableEq

namespace Entry

/-- What the store is for. -/
def tag (entry : Entry) : Tag :=
  entry.store.tag

/-- The bytes the store brings. -/
def patch (entry : Entry) : Patch :=
  entry.store.patch

/-- The store publishes a bonded signal. -/
def IsSignal (entry : Entry) : Prop :=
  ∃ sig, entry.tag = .published sig

/-- The store places the bytes of a write. -/
def IsWrite (entry : Entry) : Prop :=
  ∃ lane ord, entry.tag = .placed lane ord

end Entry

/-- A copy of `patch` must not come before `entry`: they meet, or `entry`
publishes a signal that covers an earlier write of its epoch which `patch`
meets. -/
def Conflict (log : List Entry) (entry : Entry) (patch : Patch) : Prop :=
  entry.patch.Meets patch ∨
    (entry.IsSignal ∧ ∃ write : Entry, write.IsWrite ∧
      write.epoch = entry.epoch ∧ Before log write entry ∧
      write.patch.Meets patch)

/-- The pairs of the log whose order the receiver must keep: everything stays
before a later signal, and a conflicting copy stays behind. -/
def Ordered (log : List Entry) (first second : Entry) : Prop :=
  Before log first second ∧
    (second.IsSignal ∨ Conflict log first second.patch)

/-- The receiver's counts say that the store was made. -/
def Applied (bond : Bond) (entry : Entry) : Prop :=
  match entry.tag with
  | .placed lane ord => ord ≤ bond.placed lane
  | .published sig => sig < bond.rxSignal
  | .word => False

/-- A log of `signals` signals and `writes` writes a link. -/
structure Log (links : Nat) (log : List Entry) (writes : Nat → Nat)
    (signals : Nat) : Prop where
  unique : (log.map Entry.tag).Nodup
  placed : ∀ entry ∈ log, ∀ lane ord, entry.tag = .placed lane ord →
    lane < links ∧ 0 < ord ∧ ord ≤ writes lane
  published : ∀ entry ∈ log, ∀ sig, entry.tag = .published sig →
    0 < sig ∧ sig ≤ signals
  bonded : ∀ entry ∈ log, entry.tag ≠ .word
  increasing : ∀ first second, Before log first second →
    ∀ early late, first.tag = .published early →
      second.tag = .published late → early < late
  climbing : ∀ first second, Before log first second →
    ∀ lane early late, first.tag = .placed lane early →
      second.tag = .placed lane late → early < late
  signalled : ∀ sig, 0 < sig → sig ≤ signals →
    ∃ entry ∈ log, entry.tag = .published sig

/-- The writes `need` counts on each link are those before `signal`. -/
structure Watermark (links : Nat) (log : List Entry) (writes : Nat → Nat)
    (signal : Entry) (need : Nat → Nat) : Prop where
  exact : ∀ entry ∈ log, ∀ lane ord, entry.tag = .placed lane ord →
    (ord ≤ need lane ↔ Before log entry signal)
  bounded : ∀ lane < links, need lane ≤ writes lane

/-- A slot of the reorder queue holds a logged signal that is still to come. -/
def Queued (links : Nat) (log : List Entry) (writes : Nat → Nat)
    (bond : Bond) (slot : Nat) : Prop :=
  (bond.pending slot).seq % bondSignals = slot ∧
    bond.rxSignal ≤ (bond.pending slot).seq ∧
    ∃ signal ∈ log,
      signal.store = ⟨.published (bond.pending slot).seq,
        ⟨(bond.pending slot).off, word (bond.pending slot).value⟩⟩ ∧
      Watermark links log writes signal (bond.pending slot).need

/-- The signal a store publishes, if it does. -/
def published? (store : Store) : Option Nat :=
  match store.tag with
  | .published sig => some sig
  | _ => none

/-- The trace of a receiver agrees with the log. -/
structure Ledger (links : Nat) (log : List Entry) (writes : Nat → Nat)
    (bond : Bond) (trace : List Store) : Prop where
  applied : ∀ entry ∈ log, Applied bond entry ↔ entry.store ∈ trace
  logged : ∀ store ∈ trace, ∃ entry ∈ log, entry.store = store
  nodup : trace.Nodup
  ordered : ∀ first second, Ordered log first second →
    second.store ∈ trace → Before trace first.store second.store
  signals : trace.filterMap published? = List.range' 1 (bond.rxSignal - 1)
  queue : ∀ slot < bondSignals, (bond.pending slot).seq ≠ 0 →
    Queued links log writes bond slot
  counted : bond.Counted
  up : bond.down = false
  bonded : bond.bonded = links

/-! ## Logs -/

theorem published?_eq {store : Store} {sig : Nat}
    (has : published? store = some sig) : store.tag = .published sig := by
  unfold published? at has
  split at has
  · next kind => rw [kind, Option.some.inj has]
  · simp at has

theorem applied_placed {bond : Bond} {entry : Entry} {lane ord : Nat}
    (tag : entry.tag = .placed lane ord) :
    Applied bond entry ↔ ord ≤ bond.placed lane := by
  rw [Applied, tag]

theorem applied_published {bond : Bond} {entry : Entry} {sig : Nat}
    (tag : entry.tag = .published sig) :
    Applied bond entry ↔ sig < bond.rxSignal := by
  rw [Applied, tag]

section

variable {links signals : Nat} {log : List Entry} {writes : Nat → Nat}

namespace Log

/-- Entries for the same thing are the same entry. -/
theorem eq_of_tag (wf : Log links log writes signals) {first second : Entry}
    (left : first ∈ log) (right : second ∈ log)
    (same : first.tag = second.tag) : first = second :=
  List.inj_on_of_nodup_map wf.unique left right same

theorem eq_of_store (wf : Log links log writes signals) {first second : Entry}
    (left : first ∈ log) (right : second ∈ log)
    (same : first.store = second.store) : first = second :=
  wf.eq_of_tag left right (by rw [Entry.tag, same, Entry.tag])

theorem store_eq_iff (wf : Log links log writes signals)
    {first second : Entry} (left : first ∈ log) (right : second ∈ log) :
    first.store = second.store ↔ first.tag = second.tag :=
  ⟨fun same => by rw [Entry.tag, same, Entry.tag],
    fun same => by rw [wf.eq_of_tag left right same]⟩

theorem nodup (wf : Log links log writes signals) : log.Nodup :=
  List.Nodup.of_map _ wf.unique

theorem nodup_stores (wf : Log links log writes signals) :
    (log.map Entry.store).Nodup :=
  wf.nodup.map_on fun _ left _ right same => wf.eq_of_store left right same

/-- The next write of a link is logged. -/
theorem concat_write (wf : Log links log writes signals) {entry : Entry}
    {lane : Nat} (below : lane < links)
    (tag : entry.tag = .placed lane (writes lane + 1)) :
    Log links (log ++ [entry])
      (Function.update writes lane (writes lane + 1)) signals := by
  have fresh : ∀ other ∈ log, other.tag ≠ entry.tag := by
    intro other member same
    have bound := wf.placed other member lane _ (same.trans tag)
    omega
  have grows : ∀ other, writes other ≤
      Function.update writes lane (writes lane + 1) other := by
    intro other
    by_cases here : other = lane
    · subst here
      simp
    · simp [here]
  refine ⟨?_, ?_, ?_, ?_, ?_, ?_, ?_⟩
  · rw [List.map_append]
    refine List.nodup_append.mpr ⟨wf.unique, List.nodup_singleton _, ?_⟩
    intro old member new last
    obtain ⟨other, found, rfl⟩ := List.mem_map.mp member
    rw [List.mem_singleton.mp last]
    exact fresh other found
  · intro other member lane' ord kind
    rcases List.mem_append.mp member with old | last
    · have bound := wf.placed other old lane' ord kind
      exact ⟨bound.1, bound.2.1, bound.2.2.trans (grows lane')⟩
    · rw [List.mem_singleton.mp last, tag] at kind
      obtain ⟨rfl, rfl⟩ := Tag.placed.inj kind
      exact ⟨below, Nat.succ_pos _, by simp⟩
  · intro other member sig kind
    rcases List.mem_append.mp member with old | last
    · exact wf.published other old sig kind
    · rw [List.mem_singleton.mp last, tag] at kind
      simp at kind
  · intro other member
    rcases List.mem_append.mp member with old | last
    · exact wf.bonded other old
    · rw [List.mem_singleton.mp last, tag]
      simp
  · intro first second before early late left right
    rcases (before_concat_iff log entry first second).mp before with
      old | ⟨-, rfl⟩
    · exact wf.increasing first second old early late left right
    · rw [tag] at right
      simp at right
  · intro first second before lane' early late left right
    rcases (before_concat_iff log entry first second).mp before with
      old | ⟨member, rfl⟩
    · exact wf.climbing first second old lane' early late left right
    · rw [tag] at right
      obtain ⟨rfl, rfl⟩ := Tag.placed.inj right
      exact Nat.lt_succ_of_le (wf.placed first member lane early left).2.2
  · intro sig pos small
    obtain ⟨other, member, kind⟩ := wf.signalled sig pos small
    exact ⟨other, List.mem_append_left _ member, kind⟩

/-- The next signal is logged. -/
theorem concat_signal (wf : Log links log writes signals) {entry : Entry}
    (tag : entry.tag = .published (signals + 1)) :
    Log links (log ++ [entry]) writes (signals + 1) := by
  have fresh : ∀ other ∈ log, other.tag ≠ entry.tag := by
    intro other member same
    have bound := wf.published other member _ (same.trans tag)
    omega
  refine ⟨?_, ?_, ?_, ?_, ?_, ?_, ?_⟩
  · rw [List.map_append]
    refine List.nodup_append.mpr ⟨wf.unique, List.nodup_singleton _, ?_⟩
    intro old member new last
    obtain ⟨other, found, rfl⟩ := List.mem_map.mp member
    rw [List.mem_singleton.mp last]
    exact fresh other found
  · intro other member lane ord kind
    rcases List.mem_append.mp member with old | last
    · exact wf.placed other old lane ord kind
    · rw [List.mem_singleton.mp last, tag] at kind
      simp at kind
  · intro other member sig kind
    rcases List.mem_append.mp member with old | last
    · have bound := wf.published other old sig kind
      exact ⟨bound.1, by omega⟩
    · rw [List.mem_singleton.mp last, tag] at kind
      obtain rfl := Tag.published.inj kind
      exact ⟨Nat.succ_pos _, Nat.le_refl _⟩
  · intro other member
    rcases List.mem_append.mp member with old | last
    · exact wf.bonded other old
    · rw [List.mem_singleton.mp last, tag]
      simp
  · intro first second before early late left right
    rcases (before_concat_iff log entry first second).mp before with
      old | ⟨member, rfl⟩
    · exact wf.increasing first second old early late left right
    · rw [tag] at right
      obtain rfl := Tag.published.inj right
      exact Nat.lt_succ_of_le (wf.published first member early left).2
  · intro first second before lane early late left right
    rcases (before_concat_iff log entry first second).mp before with
      old | ⟨-, rfl⟩
    · exact wf.climbing first second old lane early late left right
    · rw [tag] at right
      simp at right
  · intro sig pos small
    rcases Nat.lt_or_ge signals sig with new | old
    · refine ⟨entry, List.mem_append_right _ (List.mem_singleton.mpr rfl), ?_⟩
      rw [tag]
      congr 1
      omega
    · obtain ⟨other, member, kind⟩ := wf.signalled sig pos old
      exact ⟨other, List.mem_append_left _ member, kind⟩

/-- Every entry is a write or a signal. -/
theorem cases (wf : Log links log writes signals) {entry : Entry}
    (member : entry ∈ log) : entry.IsWrite ∨ entry.IsSignal := by
  cases tag : entry.tag with
  | placed lane ord => exact Or.inl ⟨lane, ord, tag⟩
  | published sig => exact Or.inr ⟨sig, tag⟩
  | word => exact absurd tag (wf.bonded entry member)

end Log

variable {new : List Entry}

/-- What is ordered before an entry does not change when the log grows. -/
theorem Ordered.of_append (unique : ((log ++ new).map Entry.tag).Nodup)
    {first second : Entry} (member : second ∈ log)
    (ordered : Ordered (log ++ new) first second) :
    Ordered log first second := by
  have nodup := List.Nodup.of_map _ unique
  have before := ordered.1.of_append_left nodup member
  refine ⟨before, ordered.2.imp_right ?_⟩
  rintro (meets | ⟨isSignal, write, isWrite, same, earlier, meets⟩)
  · exact Or.inl meets
  · exact Or.inr ⟨isSignal, write, isWrite, same,
      earlier.of_append_left nodup before.mem_left, meets⟩

/-- A watermark stays one when later writes are logged. -/
theorem Watermark.append {writes' : Nat → Nat} {signal : Entry}
    {need : Nat → Nat} (watermark : Watermark links log writes signal need)
    (unique : ((log ++ new).map Entry.tag).Nodup) (member : signal ∈ log)
    (later : ∀ entry ∈ new, ∀ lane ord, entry.tag = .placed lane ord →
      lane < links ∧ writes lane < ord)
    (grows : ∀ lane < links, writes lane ≤ writes' lane) :
    Watermark links (log ++ new) writes' signal need := by
  have nodup := List.Nodup.of_map _ unique
  refine ⟨?_, fun lane below =>
    (watermark.bounded lane below).trans (grows lane below)⟩
  intro entry found lane ord tag
  rcases List.mem_append.mp found with old | fresh
  · rw [watermark.exact entry old lane ord tag]
    constructor
    · exact fun before => before.of_sublist (List.sublist_append_left log new)
    · exact fun before => before.of_append_left nodup member
  · obtain ⟨below, above⟩ := later entry fresh lane ord tag
    have bounded := watermark.bounded lane below
    constructor
    · intro small
      omega
    · intro before
      have both := (before.of_append_left nodup member).mem_left
      exact absurd rfl ((List.nodup_append.mp nodup).2.2 entry both entry fresh)

end

/-! ## Ledgers -/

section

variable {links signals : Nat} {log : List Entry} {writes : Nat → Nat}
variable {bond : Bond} {trace : List Store}

namespace Ledger

/-- A signal's word was stored once its number was passed. -/
theorem mem_iff (ledger : Ledger links log writes bond trace)
    {entry : Entry} (member : entry ∈ log) {sig : Nat} (tag : entry.tag = .published sig) :
    entry.store ∈ trace ↔ sig < bond.rxSignal := by
  rw [← ledger.applied entry member, applied_published tag]

/-- Posting more leaves the ledger as it is. -/
theorem append {new : List Entry} {writes' : Nat → Nat}
    (ledger : Ledger links log writes bond trace)
    (unique : ((log ++ new).map Entry.tag).Nodup)
    (later : ∀ entry ∈ new, ∀ lane ord, entry.tag = .placed lane ord →
      lane < links ∧ writes lane < ord)
    (grows : ∀ lane < links, writes lane ≤ writes' lane)
    (unapplied : ∀ entry ∈ new, ¬Applied bond entry) :
    Ledger links (log ++ new) writes' bond trace where
  applied := by
    intro entry found
    rcases List.mem_append.mp found with old | fresh
    · exact ledger.applied entry old
    · constructor
      · exact fun applied => absurd applied (unapplied entry fresh)
      · intro stored
        obtain ⟨other, member, same⟩ := ledger.logged _ stored
        have equal := List.inj_on_of_nodup_map unique
          (List.mem_append_left new member) found
          (by rw [Entry.tag, same, Entry.tag])
        subst equal
        exact (ledger.applied other member).mpr stored
  logged := by
    intro store stored
    obtain ⟨entry, member, same⟩ := ledger.logged store stored
    exact ⟨entry, List.mem_append_left new member, same⟩
  nodup := ledger.nodup
  ordered := by
    intro first second ordered stored
    obtain ⟨entry, member, same⟩ := ledger.logged _ stored
    have equal := List.inj_on_of_nodup_map unique
      (List.mem_append_left new member) ordered.1.mem_right
      (by rw [Entry.tag, same, Entry.tag])
    subst equal
    exact ledger.ordered first entry (ordered.of_append unique member) stored
  signals := ledger.signals
  queue := by
    intro slot below occupied
    obtain ⟨home, ahead, signal, member, store, watermark⟩ :=
      ledger.queue slot below occupied
    exact ⟨home, ahead, signal, List.mem_append_left new member, store,
      watermark.append unique member later grows⟩
  counted := ledger.counted
  up := ledger.up
  bonded := ledger.bonded

/-- Extending the trace by one store keeps the order, if everything ordered
before it was made. -/
theorem ordered_concat (ledger : Ledger links log writes bond trace)
    (wf : Log links log writes signals) {entry : Entry} (member : entry ∈ log)
    (ready : ∀ first, Ordered log first entry → Applied bond first)
    (first second : Entry) (ordered : Ordered log first second)
    (stored : second.store ∈ trace ++ [entry.store]) :
    Before (trace ++ [entry.store]) first.store second.store := by
  rw [before_concat_iff]
  rcases List.mem_append.mp stored with old | last
  · exact Or.inl (ledger.ordered first second ordered old)
  · have same := wf.eq_of_store ordered.1.mem_right member
      (List.mem_singleton.mp last)
    subst same
    have made := ready first ordered
    exact Or.inr ⟨(ledger.applied first ordered.1.mem_left).mp made, rfl⟩

/-- A write's bytes are placed. -/
theorem place (ledger : Ledger links log writes bond trace)
    (wf : Log links log writes signals) {entry : Entry} (member : entry ∈ log)
    {lane : Nat} (tag : entry.tag = .placed lane (bond.placed lane + 1))
    (ready : ∀ first, Ordered log first entry → Applied bond first) :
    Ledger links log writes (bond.place lane (bond.placed lane + 1))
      (trace ++ [entry.store]) where
  applied := by
    intro other found
    rw [List.mem_append, List.mem_singleton, ← ledger.applied other found]
    rw [wf.store_eq_iff found member, tag]
    cases kind : other.tag with
    | placed elsewhere ord =>
        rw [applied_placed kind, applied_placed kind]
        by_cases here : elsewhere = lane
        · subst here
          simp only [Bond.place, Function.update_self, Tag.placed.injEq,
            true_and]
          omega
        · simp [Bond.place, here]
    | published sig =>
        rw [applied_published kind, applied_published kind]
        simp [Bond.place]
    | word => exact absurd kind (wf.bonded other found)
  logged := by
    intro store stored
    rcases List.mem_append.mp stored with old | last
    · exact ledger.logged store old
    · exact ⟨entry, member, (List.mem_singleton.mp last).symm⟩
  nodup := by
    have fresh : entry.store ∉ trace := by
      rw [← ledger.applied entry member, applied_placed tag]
      omega
    exact List.nodup_append.mpr ⟨ledger.nodup, List.nodup_singleton _, by
      intro store stored last found
      rw [List.mem_singleton.mp found]
      rintro rfl
      exact fresh stored⟩
  ordered := ledger.ordered_concat wf member ready
  signals := by
    have silent : published? entry.store = none := by
      have kind : entry.store.tag = _ := tag
      simp [published?, kind]
    rw [List.filterMap_append, ledger.signals]
    simp [silent, Bond.place]
  queue := ledger.queue
  counted := ledger.counted
  up := ledger.up
  bonded := ledger.bonded

/-- The signal at the head of the queue, when it is due. -/
theorem exists_due (ledger : Ledger links log writes bond trace)
    (due : bond.Due) :
    ∃ signal ∈ log, signal.store = bond.headStore ∧
      signal.tag = .published bond.rxSignal ∧
      Watermark links log writes signal
        (bond.pending (bond.rxSignal % bondSignals)).need := by
  have pos := ledger.counted.1
  obtain ⟨-, -, signal, member, store, watermark⟩ :=
    ledger.queue _ (Bond.slot_lt bond.rxSignal) (by rw [due.1]; omega)
  refine ⟨signal, member, store, ?_, watermark⟩
  rw [Entry.tag, store, due.1]

/-- A due signal is published. -/
theorem publish (ledger : Ledger links log writes bond trace)
    (wf : Log links log writes signals) (due : bond.Due) :
    Ledger links log writes bond.publish (trace ++ [bond.headStore]) := by
  obtain ⟨signal, member, store, tag, watermark⟩ := ledger.exists_due due
  rw [← store]
  have pos := ledger.counted.1
  have unpublished : signal.store ∉ trace := by
    rw [ledger.mem_iff member tag]
    omega
  exact {
    applied := by
      intro other found
      rw [List.mem_append, List.mem_singleton, ← ledger.applied other found]
      rw [wf.store_eq_iff found member, tag]
      cases kind : other.tag with
      | placed elsewhere ord =>
          rw [applied_placed kind, applied_placed kind]
          simp
      | published sig =>
          rw [applied_published kind, applied_published kind]
          simp only [Bond.publish_rxSignal, Tag.published.injEq]
          omega
      | word => exact absurd kind (wf.bonded other found)
    logged := by
      intro other stored
      rcases List.mem_append.mp stored with old | last
      · exact ledger.logged other old
      · exact ⟨signal, member, (List.mem_singleton.mp last).symm⟩
    nodup := by
      exact List.nodup_append.mpr ⟨ledger.nodup, List.nodup_singleton _, by
        intro other stored last found
        rw [List.mem_singleton.mp found]
        rintro rfl
        exact unpublished stored⟩
    ordered := by
      refine ledger.ordered_concat wf member ?_
      intro first ordered
      have found := ordered.1.mem_left
      rcases wf.cases found with ⟨lane, ord, kind⟩ | ⟨sig, kind⟩
      · rw [applied_placed kind]
        have counted := (watermark.exact first found lane ord kind).mpr
          ordered.1
        have below := (wf.placed first found lane ord kind).1
        exact counted.trans (due.2 lane (by rw [ledger.bonded]; exact below))
      · rw [applied_published kind]
        exact wf.increasing first signal ordered.1 sig _ kind tag
    signals := by
      have kind : signal.store.tag = _ := tag
      have range : List.range' 1 (bond.publish.rxSignal - 1) =
          List.range' 1 (bond.rxSignal - 1) ++ [bond.rxSignal] := by
        have next : bond.publish.rxSignal - 1 = bond.rxSignal - 1 + 1 := by
          rw [Bond.publish_rxSignal]
          omega
        rw [next, List.range'_concat]
        congr 2
        omega
      rw [range, List.filterMap_append, ledger.signals]
      simp [published?, kind]
    queue := by
      intro slot below occupied
      have other : slot ≠ bond.rxSignal % bondSignals := by
        rintro rfl
        simp [Bond.publish] at occupied
      have kept : bond.publish.pending slot = bond.pending slot := by
        simp [Bond.publish, other]
      rw [kept] at occupied
      obtain ⟨home, ahead, rest⟩ := ledger.queue slot below occupied
      unfold Queued
      rw [kept]
      refine ⟨home, ?_, rest⟩
      rcases Nat.lt_or_eq_of_le ahead with later | same
      · exact later
      · rw [← same] at home
        exact absurd home.symm other
    counted := ledger.counted.publish due
    up := ledger.up
    bonded := ledger.bonded }

/-- A drained queue. -/
theorem drain (ledger : Ledger links log writes bond trace)
    (wf : Log links log writes signals) :
    Ledger links log writes bond.drain.1 (trace ++ bond.drain.2) :=
  Bond.drainLoop_induction
    (motive := fun bond trace => Ledger links log writes bond trace)
    (fun _ _ _ due held => held.publish wf due) _ bond trace ledger

/-- The placement hook: the bytes are counted and due signals published. -/
theorem bondPlaced (ledger : Ledger links log writes bond trace)
    (wf : Log links log writes signals) {entry : Entry} (member : entry ∈ log)
    {lane : Nat} (tag : entry.tag = .placed lane (bond.placed lane + 1))
    (ready : ∀ first, Ordered log first entry → Applied bond first) :
    Ledger links log writes (bond.bondPlaced lane (bond.placed lane + 1)).1
      (trace ++ [entry.store] ++
        (bond.bondPlaced lane (bond.placed lane + 1)).2) := by
  have placed := ledger.place wf member tag ready
  unfold Bond.bondPlaced
  by_cases idle : (bond.place lane (bond.placed lane + 1)).waiting = 0
  · simpa [idle] using placed
  · simpa [idle] using placed.drain wf

/-- A signal takes its slot of the reorder queue. -/
theorem enqueue (ledger : Ledger links log writes bond trace)
    {sig off value : Nat} {need low : Nat → Nat}
    (pos : sig ≠ 0) (ahead : bond.rxSignal ≤ sig)
    (free : (bond.pending (sig % bondSignals)).seq = 0)
    {signal : Entry} (member : signal ∈ log)
    (store : signal.store = ⟨.published sig, ⟨off, word value⟩⟩)
    (watermark : Watermark links log writes signal need)
    (laneBound : ∀ entry ∈ log, ∀ lane ord, entry.tag = .placed lane ord →
      lane < links)
    (wide : ∀ lane < links, widen (bond.placed lane) (low lane) = need lane) :
    Ledger links log writes (bond.enqueue sig low off value) trace where
  applied := ledger.applied
  logged := ledger.logged
  nodup := ledger.nodup
  ordered := ledger.ordered
  signals := ledger.signals
  queue := by
    intro slot below occupied
    by_cases here : slot = sig % bondSignals
    · subst here
      unfold Queued
      simp only [Bond.enqueue, Function.update_self]
      refine ⟨trivial, ahead, signal, member, store, ?_, ?_⟩
      · intro entry found lane ord tag
        have inBond := laneBound entry found lane ord tag
        rw [ledger.bonded, if_pos inBond, wide lane inBond]
        exact watermark.exact entry found lane ord tag
      · intro lane inBond
        rw [ledger.bonded, if_pos inBond, wide lane inBond]
        exact watermark.bounded lane inBond
    · have kept : (bond.enqueue sig low off value).pending slot =
          bond.pending slot := by
        simp [Bond.enqueue, here]
      rw [kept] at occupied
      unfold Queued
      rw [kept]
      exact ledger.queue slot below occupied
  counted := ledger.counted.enqueue low off value pos free
  up := ledger.up
  bonded := ledger.bonded

end Ledger

end

/-! ## What the hooks keep -/

section

variable {bond : Bond}

namespace Bond

/-- Every signal number is still queued where it was, or published. -/
structure Drains (before after : Bond) : Prop where
  placed : after.placed = before.placed
  bonded : after.bonded = before.bonded
  winLength : after.winLength = before.winLength
  down : after.down = before.down
  tailPut : after.tailPut = before.tailPut
  tailGot : after.tailGot = before.tailGot
  rxSignal : before.rxSignal ≤ after.rxSignal
  kept : ∀ slot, (after.pending slot).seq ≠ 0 →
    after.pending slot = before.pending slot
  passed : ∀ slot, (before.pending slot).seq ≠ 0 →
    (after.pending slot).seq = (before.pending slot).seq ∨
      (before.pending slot).seq < after.rxSignal
  published : ∀ sig, before.rxSignal ≤ sig → sig < after.rxSignal →
    ∃ slot < bondSignals, (before.pending slot).seq = sig

theorem Drains.refl (bond : Bond) : Drains bond bond where
  placed := rfl
  bonded := rfl
  winLength := rfl
  down := rfl
  tailPut := rfl
  tailGot := rfl
  rxSignal := Nat.le_refl _
  kept := fun _ _ => rfl
  passed := fun _ _ => Or.inl rfl
  published := fun _ above below => absurd below (Nat.not_lt.mpr above)

theorem Drains.publish {before after : Bond} (drains : Drains before after)
    (pos : 0 < before.rxSignal) (due : after.Due) :
    Drains before after.publish where
  placed := drains.placed
  bonded := drains.bonded
  winLength := drains.winLength
  down := drains.down
  tailPut := drains.tailPut
  tailGot := drains.tailGot
  rxSignal := drains.rxSignal.trans (Nat.le_succ _)
  kept := by
    intro slot occupied
    have other : slot ≠ after.rxSignal % bondSignals := by
      rintro rfl
      simp [Bond.publish] at occupied
    have same : after.publish.pending slot = after.pending slot := by
      simp [Bond.publish, other]
    rw [same] at occupied ⊢
    exact drains.kept slot occupied
  passed := by
    intro slot occupied
    by_cases here : slot = after.rxSignal % bondSignals
    · subst here
      right
      rcases drains.passed _ occupied with same | earlier
      · rw [← same, due.1]
        exact Nat.lt_succ_self _
      · exact earlier.trans (Nat.lt_succ_self _)
    · have same : after.publish.pending slot = after.pending slot := by
        simp [Bond.publish, here]
      rw [same]
      exact (drains.passed slot occupied).imp_right
        fun earlier => earlier.trans (Nat.lt_succ_self _)
  published := by
    intro sig above below
    rcases Nat.lt_succ_iff_lt_or_eq.mp below with earlier | last
    · exact drains.published sig above earlier
    · refine ⟨after.rxSignal % bondSignals, slot_lt _, ?_⟩
      have occupied : (after.pending (after.rxSignal % bondSignals)).seq ≠ 0 := by
        have grown := drains.rxSignal
        rw [due.1]
        omega
      rw [← drains.kept _ occupied, due.1, last]

theorem drains_drain (pos : 0 < bond.rxSignal) :
    Drains bond bond.drain.1 :=
  drainLoop_induction (motive := fun after _ => Drains bond after)
    (fun _ _ _ due held => held.publish pos due) _ bond [] (Drains.refl bond)

/-- After the placement hook no due signal is left. -/
theorem not_due_bondPlaced (counted : bond.Counted) (up : bond.down = false)
    (lane count : Nat) : ¬(bond.bondPlaced lane count).1.Due := by
  simp only [bondPlaced]
  split
  · exact not_due_drain counted.1 up
  · next idle =>
      intro due
      have member := due.mem_occupied counted.1
      have empty : bond.occupied.card = 0 := by
        rw [← counted.2]
        simpa [place] using idle
      have none := Finset.card_eq_zero.mp empty
      have same : (bond.place lane count).occupied = bond.occupied := rfl
      rw [same, none] at member
      simp at member

theorem drains_bondPlaced (pos : 0 < bond.rxSignal) (lane count : Nat) :
    Drains (bond.place lane count) (bond.bondPlaced lane count).1 := by
  simp only [bondPlaced]
  split
  · exact drains_drain pos
  · exact Drains.refl _

end Bond

end

end Fabric
end Mcdma
