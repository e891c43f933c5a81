import Mcdma.Fabric.Runs

/-!
# What a bond promises

The window of a receiver against the calls of its sender.  Once everything is
taken the window is what the calls make of it one after another; a signal's word
is stored after every write posted before it, and the words of the signals are
stored in the order of the calls; and bytes that a signal covers are not
overwritten before it is published, unless a flush came between.
-/

namespace Mcdma
namespace Fabric

open Link

/-- The window after a call is applied to it. -/
def Call.apply (memory : Mem) (call : Call) : Mem :=
  Patch.replay memory call.effect

/-- The receiver's window. -/
def Sys.window (memory : Mem) (sys : Sys) : Mem :=
  Patch.replay memory (sys.trace.map Store.patch)

/-- Nothing is in flight. -/
def Sys.Drained (cfg : Config) (sys : Sys) : Prop :=
  ∀ lane < cfg.links, sys.out lane = [] ∧ sys.wire lane = []

/-- The signal a store publishes and its word. -/
def signal? (store : Store) : Option (Nat × Patch) :=
  (published? store).map fun sig => (sig, store.patch)

section

variable {cfg : Config} {sys : Sys}

theorem foldl_apply (memory : Mem) (calls : List Call) :
    calls.foldl Call.apply memory =
      Patch.replay memory (calls.flatMap Call.effect) := by
  induction calls generalizing memory with
  | nil => rfl
  | cons call rest inductionHypothesis =>
      rw [List.foldl_cons, List.flatMap_cons, Patch.replay_append,
        inductionHypothesis]
      rfl

theorem Sys.Drained.queue (drained : sys.Drained cfg) :
    ∀ lane < cfg.links, sys.queue lane = [] := by
  intro lane below
  obtain ⟨out, wire⟩ := drained lane below
  rw [Sys.queue, out, wire]
  rfl

theorem Entry.published?_eq_iff {entry : Entry} {sig : Nat} :
    published? entry.store = some sig ↔ entry.tag = .published sig := by
  refine ⟨fun has => published?_eq has, fun tag => ?_⟩
  rw [Entry.tag] at tag
  rw [published?, tag]

theorem Entry.word?_eq (entry : Entry) :
    entry.word? = (signal? entry.store).map Prod.snd := by
  unfold Entry.word? signal? published? Entry.tag Entry.patch
  cases entry.store.tag <;> rfl

theorem map_fst_signal? (stores : List Store) :
    (stores.filterMap signal?).map Prod.fst = stores.filterMap published? := by
  rw [List.map_filterMap]
  congr 1
  funext store
  rw [signal?, Option.map_map]
  exact Option.map_id'

theorem length_filterMap_signal? (stores : List Store) :
    (stores.filterMap signal?).length = (stores.filterMap published?).length := by
  rw [← map_fst_signal? stores, List.length_map]

namespace Core

/-- With everything made, the trace rearranges the log. -/
theorem trace_perm (core : Core cfg sys)
    (made : ∀ entry ∈ sys.log, Applied sys.bond entry) :
    sys.trace.Perm (sys.log.map Entry.store) := by
  rw [List.perm_ext_iff_of_nodup core.ledger.nodup core.history.nodup_stores]
  intro store
  constructor
  · intro stored
    obtain ⟨entry, logged, same⟩ := core.ledger.logged store stored
    exact List.mem_map.mpr ⟨entry, logged, same⟩
  · intro asked
    obtain ⟨entry, logged, rfl⟩ := List.mem_map.mp asked
    exact (core.ledger.applied entry logged).mp (made entry logged)

/-- The signals of the log are numbered from one. -/
theorem log_signals (core : Core cfg sys) :
    (sys.log.map Entry.store).filterMap published? =
      List.range' 1 sys.peer.txSignal := by
  have history := core.history
  rw [List.filterMap_map]
  have sorted : (sys.log.filterMap (published? ∘ Entry.store)).Pairwise
      (· < ·) := by
    rw [List.pairwise_filterMap, List.pairwise_iff_forall_sublist]
    intro first second before early left late right
    exact history.increasing first second before early late
      (published?_eq left) (published?_eq right)
  refine List.Perm.eq_of_pairwise ?_ sorted List.pairwise_lt_range' ?_
  · intro first second _ _ below above
    omega
  · rw [List.perm_ext_iff_of_nodup (sorted.imp Nat.ne_of_lt)
      List.nodup_range']
    intro sig
    rw [List.mem_filterMap, List.mem_range'_1]
    constructor
    · rintro ⟨entry, logged, has⟩
      have bound := history.published entry logged sig (published?_eq has)
      omega
    · rintro ⟨lower, upper⟩
      obtain ⟨entry, logged, tag⟩ := history.signalled sig (by omega) (by omega)
      exact ⟨entry, logged, Entry.published?_eq_iff.mpr tag⟩

/-- The words stored are the first words of the log. -/
theorem stored_words (core : Core cfg sys) :
    sys.trace.filterMap signal? =
      ((sys.log.map Entry.store).filterMap signal?).take
        (sys.bond.rxSignal - 1) := by
  refine eq_take_of_keys ((map_fst_signal? _).trans core.ledger.signals)
    ((map_fst_signal? _).trans core.log_signals) ?_
  intro pair member
  obtain ⟨store, stored, has⟩ := List.mem_filterMap.mp member
  obtain ⟨entry, logged, same⟩ := core.ledger.logged store stored
  exact List.mem_filterMap.mpr
    ⟨store, List.mem_map.mpr ⟨entry, logged, same⟩, has⟩

end Core

/-- With nothing in flight no signal waits in the reorder queue. -/
theorem Core.no_pending (core : Core cfg sys)
    (drained : sys.Drained cfg) :
    ∀ slot < bondSignals, (sys.bond.pending slot).seq = 0 := by
  intro slot below
  by_contra occupied
  obtain ⟨-, ahead, signal, logged, store, -⟩ :=
    core.ledger.queue slot below occupied
  have bound := core.history.published signal logged
    (sys.bond.pending slot).seq (by rw [Entry.tag, store])
  have all := (core.all_applied drained.queue).2.1
  omega

/-! ## Later writes win -/

/-- Once every message of a bond is taken, the receiver's window is what the
calls make of it one after another, and no signal is left waiting. -/
theorem later_write_wins (reach : Reach cfg sys) (few : sys.Few cfg)
    (idle : sys.pc = .run .done) (drained : sys.Drained cfg) (memory : Mem) :
    sys.window memory = sys.calls.foldl Call.apply memory ∧
      ∀ slot < bondSignals, (sys.bond.pending slot).seq = 0 := by
  have inv := reach.inv few
  have core := inv.core
  have made := (core.all_applied drained.queue).1
  refine ⟨?_, core.no_pending drained⟩
  have kept : ∀ x y, Before (sys.log.map Entry.store) x y →
      x.patch.Meets y.patch → Before sys.trace x y := by
    intro x y before meets
    obtain ⟨first, second, logged, rfl, rfl⟩ :=
      (before_map_iff Entry.store sys.log x y).mp before
    have stored := (core.ledger.applied second logged.mem_right).mp
      (made second logged.mem_right)
    exact core.ledger.ordered first second
      ⟨logged, Or.inr (Or.inl meets)⟩ stored
  have asked := inv.effect memory
  rw [idle] at asked
  calc sys.window memory
      = Patch.replay memory ((sys.log.map Entry.store).map Store.patch) :=
        Patch.replay_eq_of_before Store.patch memory core.history.nodup_stores
          (core.trace_perm made) kept
    _ = Patch.replay memory (sys.log.map Entry.patch ++ []) := by
        rw [List.map_map, List.append_nil]
        rfl
    _ = Patch.replay memory (sys.calls.flatMap Call.effect) := asked
    _ = sys.calls.foldl Call.apply memory := (foldl_apply memory _).symm

/-- A small bond of two links. -/
def pair : Config where
  links := 2
  winLength := 4096
  remoteLength := 4096
  depth := fun _ => 4
  peerSlots := fun _ => 4
  two_le := by decide
  le_max := by decide
  depth_le := by simp
  peerSlots_le := by simp
  win_le := by decide
  remote_le := by decide

/-- A small bond of three links. -/
def trio : Config where
  links := 3
  winLength := 4096
  remoteLength := 4096
  depth := fun _ => 4
  peerSlots := fun _ => 4
  two_le := by decide
  le_max := by decide
  depth_le := by simp
  peerSlots_le := by simp
  win_le := by decide
  remote_le := by decide

/-- The sender goes on and finds room everywhere. -/
def goOn : Action :=
  .advance { rounds := [⟨fun _ => 0, fun _ => true, true⟩], passes := [{}] }

/-- A write of eight equal bytes. -/
def eight (byte : UInt8) (off roff : Nat) : Write :=
  ⟨fun _ => byte, off, roff, 8⟩

/-- A write on one link and a later one with its signal on the other; the later
one arrives first. -/
def overtaking : List Action :=
  [.call (.write (eight 1 0 0)), goOn, goOn, .transmit 0,
    .call (.writeSignal (eight 2 64 4) ⟨16, 7⟩), goOn, goOn, .transmit 1,
    .take 1 1 .sent, .take 0 1 .sent, .take 1 1 .sent]

theorem overtaking_runs :
    ((Sys.init pair).run pair overtaking).isSome = true := by
  decide +kernel

/-- The bond once both are taken. -/
def overtaken : Sys :=
  ((Sys.init pair).run pair overtaking).get overtaking_runs

theorem overtaken_settled : overtaken.Few pair ∧ overtaken.Drained pair := by
  unfold Sys.Few Sys.Drained
  decide +kernel

theorem later_write_wins_overtaken :
    overtaken.calls.length = 2 ∧
      overtaken.window (fun _ => 0) =
        overtaken.calls.foldl Call.apply (fun _ => 0) :=
  ⟨by decide +kernel, (later_write_wins (Reach.get overtaking_runs)
    overtaken_settled.1 rfl overtaken_settled.2 fun _ => 0).1⟩

/-! ## Signals are published in order, behind their writes -/

/-- The words stored are those of the first calls that signal, each once and in
the order of the calls; a word is stored behind every store posted before it;
and once everything is taken all of them are stored. -/
theorem signals_publish_in_order (reach : Reach cfg sys) (few : sys.Few cfg) :
    sys.trace.filterMap published? = List.range' 1 (sys.bond.rxSignal - 1) ∧
      (sys.trace.filterMap signal?).map Prod.snd =
        (sys.calls.flatMap Call.words).take (sys.bond.rxSignal - 1) ∧
      (∀ signal ∈ sys.log, signal.IsSignal → ∀ earlier later,
        sys.trace = earlier ++ signal.store :: later →
        ∀ write, Before sys.log write signal → write.store ∈ earlier) ∧
      (sys.pc = .run .done → sys.Drained cfg →
        (sys.trace.filterMap signal?).map Prod.snd =
          sys.calls.flatMap Call.words) := by
  have inv := reach.inv few
  have core := inv.core
  have logged : ((sys.log.map Entry.store).filterMap signal?).map Prod.snd =
      sys.log.filterMap Entry.word? := by
    rw [List.filterMap_map, List.map_filterMap]
    congr 1
    funext entry
    exact (Entry.word?_eq entry).symm
  have words := inv.words
  have posted : (sys.log.filterMap Entry.word?).length = sys.peer.txSignal := by
    have counted := congrArg List.length core.log_signals
    rw [← logged, List.length_map, List.length_range'] at *
    rw [← counted]
    exact length_filterMap_signal? _
  have published := core.rxSignal_le
  have stored : (sys.trace.filterMap signal?).map Prod.snd =
      (sys.log.filterMap Entry.word?).take (sys.bond.rxSignal - 1) := by
    rw [core.stored_words, List.map_take, logged]
  refine ⟨core.ledger.signals, ?_, ?_, ?_⟩
  · rw [stored, ← words, List.take_append_of_le_length (by omega)]
  · intro signal member isSignal earlier later split write before
    have here : signal.store ∈ sys.trace := by
      rw [split]
      simp
    have order := core.ledger.ordered write signal
      ⟨before, Or.inl isSignal⟩ here
    exact order.mem_of_eq_append core.ledger.nodup split
  · intro idle drained
    have all := (core.all_applied drained.queue).2.1
    rw [idle] at words
    rw [stored, all, Nat.add_sub_cancel, ← posted, List.take_length, ← words]
    exact (List.append_nil _).symm

theorem signals_publish_in_order_overtaken :
    overtaken.trace.filterMap published? = [1] ∧
      (overtaken.trace.filterMap signal?).map Prod.snd = [⟨16, word 7⟩] := by
  obtain ⟨numbers, -, -, all⟩ := signals_publish_in_order
    (Reach.get overtaking_runs) overtaken_settled.1
  exact ⟨numbers, all rfl overtaken_settled.2⟩

/-! ## A snapshot at publication -/

/-- A write is covered by a later signal and overwritten behind it. -/
structure Overwritten (log : List Entry) (write signal later : Entry) :
    Prop where
  isWrite : write.IsWrite
  isSignal : signal.IsSignal
  isLater : later.IsWrite
  covered : Before log write signal
  behind : Before log signal later
  meets : write.patch.Meets later.patch

/-- A copy that overwrites a covered write is made after the signal is
published, if no flush was completed between the write and the signal. -/
theorem snapshot_at_publication (reach : ReachNear cfg sys)
    {write signal later : Entry}
    (overwritten : Overwritten sys.log write signal later)
    (unflushed : write.epoch = signal.epoch)
    (copied : later.store ∈ sys.trace) :
    Before sys.trace signal.store later.store := by
  have conflict : Conflict sys.log signal later.patch :=
    Or.inr ⟨overwritten.isSignal, write, overwritten.isWrite, unflushed,
      overwritten.covered, overwritten.meets⟩
  exact reach.inv.core.ledger.ordered signal later
    ⟨overwritten.behind, Or.inr conflict⟩ copied

/-- A flush of a pair: a fence of each link and its answer. -/
def fences : List Action :=
  [goOn, .transmit 0, .take 0 1 .sent, .ack 0, goOn,
    goOn, .transmit 1, .take 1 1 .sent, .ack 1, goOn, goOn]

/-- The entry of a write of eight bytes on the first link. -/
def eightEntry (epoch ord roff : Nat) (byte : UInt8) : Entry :=
  ⟨epoch, ⟨.placed 0 ord, ⟨roff, List.replicate 8 byte⟩⟩⟩

/-- The entry of a first signal. -/
def firstSignal (epoch : Nat) : Entry :=
  ⟨epoch, ⟨.published 1, ⟨16, word 7⟩⟩⟩

/-- A write, a signal and an overlapping write, which fences both links before
it is posted. -/
def covering : List Action :=
  [.call (.write (eight 1 0 0)), goOn, goOn, .transmit 0, .take 0 1 .sent,
    .call (.signal ⟨16, 7⟩), goOn, goOn, .transmit 1, .take 1 1 .sent,
    .call (.write (eight 2 0 4)), goOn] ++ fences ++
  [goOn, .transmit 0, .take 0 1 .sent]

theorem covering_runs : ((Sys.init pair).run pair covering).isSome = true := by
  decide +kernel

theorem snapshot_at_publication_covering :
    Before (((Sys.init pair).run pair covering).get covering_runs).trace
      (firstSignal 0).store (eightEntry 1 2 4 2).store := by
  have few : Sys.Few pair
      (((Sys.init pair).run pair covering).get covering_runs) := by
    unfold Sys.Few
    decide +kernel
  have overwritten : Overwritten
      (((Sys.init pair).run pair covering).get covering_runs).log
      (eightEntry 0 1 0 1) (firstSignal 0) (eightEntry 1 2 4 2) :=
    ⟨⟨0, 1, rfl⟩, ⟨1, rfl⟩, ⟨0, 2, rfl⟩, by decide +kernel,
      by decide +kernel, by decide +kernel⟩
  exact snapshot_at_publication ((Reach.get covering_runs).near few)
    overwritten rfl (by decide +kernel)

/-- A write and a flush; then a signal and a write over the first, which is
taken before the signal. -/
def uncovered : List Action :=
  [.call (.write (eight 1 0 0)), goOn, goOn, .transmit 0, .take 0 1 .sent,
    .call .flush] ++ fences ++
  [.call (.signal ⟨16, 7⟩), goOn, goOn, .transmit 1,
    .call (.write (eight 2 0 4)), goOn, goOn, .transmit 0, .take 0 1 .sent]

theorem uncovered_runs :
    ((Sys.init pair).run pair uncovered).isSome = true := by
  decide +kernel

/-- A flush makes the sender forget what a later signal covers: the copy is made
and the signal is not published. -/
theorem snapshot_lost_by_flush :
    ∃ sys, Reach pair sys ∧ sys.Few pair ∧ ∃ write signal later,
      Overwritten sys.log write signal later ∧ later.store ∈ sys.trace ∧
        ¬Before sys.trace signal.store later.store := by
  refine ⟨_, Reach.get uncovered_runs, ?_, eightEntry 0 1 0 1, firstSignal 1,
    eightEntry 1 2 4 2, ⟨⟨0, 1, rfl⟩, ⟨1, rfl⟩, ⟨0, 2, rfl⟩, ?_, ?_, ?_⟩, ?_,
    ?_⟩
  · unfold Sys.Few
    decide +kernel
  all_goals decide +kernel

end

end Fabric
end Mcdma
