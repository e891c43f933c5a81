import Mcdma.Fabric.Progress

/-!
# Signal credit

A sender that only makes signalling calls, and flushes, is flushed by its own
credit: between two flushes it posts at most `bondSignals` signals, and so not
many writes.  Whatever the length of the run the counts of its messages stay
close, and the receiver finds every signal inside the window of its queue.
-/

namespace Mcdma
namespace Fabric

open Link

/-- A signal, a write with its signal or a flush. -/
def Call.Signalling : Call → Prop
  | .write _ => False
  | _ => True

instance : (call : Call) → Decidable call.Signalling
  | .write _ => inferInstanceAs (Decidable False)
  | .signal _ => inferInstanceAs (Decidable True)
  | .writeSignal _ _ => inferInstanceAs (Decidable True)
  | .flush => inferInstanceAs (Decidable True)

/-- Every write left in a call has a signal behind it. -/
def Rest.Signalling : Rest → Prop
  | .prepare _ follow => follow.isSome = true
  | .write _ follow => follow.isSome = true
  | _ => True

/-- A link's writes since the last flush are paid for by signals. -/
structure Budget (cfg : Config) (sys : Sys) : Prop where
  signalling : sys.pc.rest.Signalling
  paid : ∀ lane < cfg.links,
    sys.peer.writes lane + sys.pc.rest.cost ≤ sys.base lane +
      Rest.perCall * (sys.peer.txSignal - sys.peer.txFenced +
        sys.pc.rest.words.length)

section

variable {cfg : Config} {sys next : Sys}

theorem Rest.Signalling.cost_le {rest : Rest} (signalling : rest.Signalling) :
    rest.cost ≤ Rest.perCall * rest.words.length := by
  cases rest with
  | prepare copy follow =>
      obtain ⟨word, rfl⟩ := Option.isSome_iff_exists.mp signalling
      simp [Rest.cost, Rest.words]
  | write copy follow =>
      obtain ⟨word, rfl⟩ := Option.isSome_iff_exists.mp signalling
      simp [Rest.cost, Rest.words]
  | _ => simp [Rest.cost, Rest.words]

theorem Rest.length_words_le (rest : Rest) : rest.words.length ≤ 1 := by
  cases rest with
  | prepare copy follow => cases follow <;> simp [Rest.words]
  | write copy follow => cases follow <;> simp [Rest.words]
  | _ => simp [Rest.words]

theorem Call.Signalling.start {call : Call} (signalling : call.Signalling) :
    call.start.rest.Signalling := by
  cases call with
  | write copy => exact signalling.elim
  | signal word => trivial
  | writeSignal copy word =>
      unfold Call.start
      dsimp only
      split <;> trivial
  | flush => trivial

/-- A stretch leaves no write without its signal. -/
theorem Rest.Signalling.run {rest : Rest} {oracle : Oracle} {peer : Peer}
    {done : Peer × List Batch × Next} (signalling : rest.Signalling)
    (ran : rest.run cfg oracle peer = some done) :
    done.2.2.rest.Signalling := by
  cases rest with
  | done => simp [Rest.run] at ran
  | prepare copy follow =>
      obtain rfl := Option.some.inj ran
      dsimp only
      split <;> exact signalling
  | write copy follow =>
      obtain ⟨word, rfl⟩ := Option.isSome_iff_exists.mp signalling
      obtain ⟨written, -, rfl⟩ := Option.map_eq_some_iff.mp ran
      trivial
  | signal word =>
      rw [Rest.run] at ran
      split at ran
      · simp at ran
      · obtain rfl := Option.some.inj ran
        dsimp only
        split <;> trivial
  | signalPost word =>
      obtain ⟨posted, -, rfl⟩ := Option.map_eq_some_iff.mp ran
      trivial
  | writeSignal copy word =>
      rw [Rest.run] at ran
      split at ran
      · simp at ran
      · obtain rfl := Option.some.inj ran
        dsimp only
        split <;> trivial
  | writeSignalPost copy word =>
      rw [Rest.run] at ran
      split at ran
      · obtain rfl := Option.some.inj ran
        dsimp only [Next.rest]
        split <;> trivial
      · obtain ⟨joined, -, same⟩ := Option.map_eq_some_iff.mp ran
        split at same
        · subst same
          trivial
        · subst same
          rfl

theorem Next.rest_pc (next : Next) : next.pc.rest = next.rest := by
  cases next <;> rfl

/-- A step that posts nothing keeps the budget. -/
theorem Budget.same (budget : Budget cfg sys)
    (rest : next.pc.rest = sys.pc.rest)
    (writes : next.peer.writes = sys.peer.writes)
    (base : next.base = sys.base)
    (txSignal : next.peer.txSignal = sys.peer.txSignal)
    (txFenced : next.peer.txFenced = sys.peer.txFenced) : Budget cfg next := by
  constructor
  · rw [rest]
    exact budget.signalling
  · rw [rest, writes, base, txSignal, txFenced]
    exact budget.paid

/-- What was flushed was published, and so posted. -/
theorem Core.txFenced_le (core : Core cfg sys) :
    sys.peer.txFenced ≤ sys.peer.txSignal := by
  have fenced := core.fenced
  have published := core.rxSignal_le
  omega

theorem Budget.calm (budget : Budget cfg sys) (calm : sys.Calm next) :
    Budget cfg next :=
  budget.same (by rw [calm.pc]) calm.writes calm.base calm.txSignal
    calm.txFenced

/-- A stretch of a call keeps the budget. -/
theorem Budget.ran {rest : Rest} {peer : Peer} {batches : List Batch}
    {left : Next} (budget : Budget cfg sys) (core : Core cfg sys)
    (stands : sys.pc = .run rest) (signalling : left.rest.Signalling)
    (went : Ran cfg sys (sys.after peer batches) rest left) :
    Budget cfg { sys.after peer batches with pc := left.pc } := by
  have paid := budget.paid
  rw [stands] at paid
  constructor
  · change left.pc.rest.Signalling
    rw [left.rest_pc]
    exact signalling
  · intro lane below
    have few := (went.few lane below).2
    have posted := went.signals
    have fenced := went.fenced
    have before := paid lane below
    have order := core.txFenced_le
    -- the signals left and those posted since the flush stay the same in sum
    have sum : peer.txSignal - peer.txFenced + left.rest.words.length =
        sys.peer.txSignal - sys.peer.txFenced + rest.words.length := by
      obtain ⟨entries, -, realizes⟩ := went.effect
      have words := congrArg List.length realizes.words
      rw [List.length_append] at words
      change peer.txSignal + _ = _ at posted
      change peer.txFenced = _ at fenced
      omega
    change peer.writes lane + left.pc.rest.cost ≤
      (batches.foldl Sys.emit sys).base lane + Rest.perCall *
        (peer.txSignal - peer.txFenced + left.pc.rest.words.length)
    rw [left.rest_pc, (Sys.foldl_emit batches sys).2.2.2, sum]
    exact few.trans before

/-- Every step of a sender that only makes signalling calls keeps the budget. -/
theorem Budget.step {action : Action} (budget : Budget cfg sys)
    (inv : Inv cfg sys) (stepped : sys.step cfg action = some next)
    (signalling : ∀ call ∈ next.calls, call.Signalling) : Budget cfg next := by
  cases Sys.moves stepped with
  | call call idle inBounds =>
      have enters := (signalling call (by simp)).start
      have paid := budget.paid
      rw [idle] at paid
      refine ⟨enters, ?_⟩
      intro lane below
      have cost := enters.cost_le
      have before := paid lane below
      simp only [Pc.rest, Rest.cost, Rest.words, List.length_nil,
        Nat.add_zero] at before
      rw [Nat.mul_add]
      dsimp only at cost ⊢
      omega
  | run quiet stands ran =>
      have static := inv.static
      have signals := budget.signalling
      rw [stands] at static signals
      exact budget.ran inv.core stands (signals.run ran) (ran_run inv.core
        inv.cover quiet inv.affinity static (inv.ready _ stands) ran)
  | ask stands below =>
      exact budget.same (by rw [stands]; rfl) (sys.peer.writes_tbFence _) rfl rfl
        rfl
  | flushed stands last =>
      have signals := budget.signalling
      rw [stands] at signals
      refine ⟨signals, ?_⟩
      intro lane below
      have cost := signals.cost_le
      change sys.peer.writes lane + _ ≤ sys.peer.writes lane +
        Rest.perCall * (sys.peer.txSignal - sys.peer.txSignal + _)
      rw [Nat.sub_self, Nat.zero_add]
      exact Nat.add_le_add_left cost _
  | heard stands met => exact budget.same (by rw [stands]; rfl) rfl rfl rfl rfl
  | transmit below sent => exact budget.calm (Sys.calm_transmit sent)
  | take below took => exact budget.calm (Sys.calm_take took)
  | ack below acked => exact budget.calm (Sys.calm_ack acked)

/-- Within the budget all counts are close. -/
theorem Budget.near (budget : Budget cfg sys) (core : Core cfg sys) :
    sys.Near cfg := by
  have few : ∀ lane < cfg.links,
      sys.peer.writes lane < sys.base lane + 2 ^ 31 := by
    intro lane below
    have paid := budget.paid lane below
    have credit := core.credit
    have words : sys.pc.rest.words.length ≤ 1 := Rest.length_words_le _
    have most : Rest.perCall * (sys.peer.txSignal - sys.peer.txFenced +
        sys.pc.rest.words.length) ≤ Rest.perCall * (bondSignals + 1) :=
      Nat.mul_le_mul_left _ (by omega)
    have small : Rest.perCall * (bondSignals + 1) < 2 ^ 31 := by decide
    omega
  intro lane below post head
  have member : post ∈ sys.queue lane :=
    List.mem_append_left _ (List.mem_of_mem_head? head)
  obtain ⟨waits, needs⟩ := core.counts_le below member
  have bounds : ∀ other < cfg.links, sys.base other ≤ sys.bond.placed other ∧
      sys.bond.placed other ≤ sys.peer.writes other := fun other inBond =>
    ⟨(core.lanes other inBond).based, (core.lanes other inBond).placed_le.1.trans
      (core.lanes other inBond).placed_le.2⟩
  constructor
  · intro guard has other inBond nonzero
    obtain ⟨ord, -, ok⟩ := core.guardOk below member has
    have above := (ok.near other inBond).resolve_left nonzero
    have posted := waits guard has other inBond
    have made := bounds other inBond
    have bound := few other inBond
    constructor <;> omega
  · intro carried has other inBond
    have above := (core.carried lane below post member carried has).near other
      inBond
    have posted := needs carried has other inBond
    have made := bounds other inBond
    have bound := few other inBond
    constructor <;> omega

/-- A run of signalling calls keeps its counts close, however long it is. -/
theorem Reach.near_of_signalling (reach : Reach cfg sys)
    (signalling : ∀ call ∈ sys.calls, call.Signalling) :
    ReachNear cfg sys ∧ Budget cfg sys := by
  induction reach with
  | init =>
      exact ⟨.init, trivial, fun lane below => Nat.le_refl _⟩
  | step action reach stepped inductionHypothesis =>
      obtain ⟨run, budget⟩ := inductionHypothesis fun call member =>
        signalling call (calls_step stepped call member)
      exact ⟨run.step action (budget.near run.inv.core) stepped,
        budget.step run.inv stepped signalling⟩

/-- The slot of a signal number within credit holds that signal or none. -/
theorem Core.slot_of (core : Core cfg sys) {sig : Nat}
    (above : sys.bond.rxSignal ≤ sig)
    (credit : sig ≤ sys.peer.txFenced + bondSignals) :
    (sys.bond.pending (sig % bondSignals)).seq = 0 ∨
      (sys.bond.pending (sig % bondSignals)).seq = sig := by
  by_cases occupied : (sys.bond.pending (sig % bondSignals)).seq = 0
  · exact Or.inl occupied
  · right
    obtain ⟨home, ahead, upTo⟩ := core.pending_le (Bond.slot_lt _) occupied
    have fenced := core.fenced
    have most := core.credit
    generalize (sys.bond.pending (sig % bondSignals)).seq = seq at *
    simp only [bondSignals] at home most credit
    omega

/-- In every run of signalling calls the peer never goes down, no link has
announced a tail, and no message in flight is answered never.  A guard's number
is in the receiver's window, its slot free or its own signal's; a signal, handed
over behind its message's copy, is in the window, finds its slot free and is not
refused. -/
theorem credit_matches_queue (reach : Reach cfg sys)
    (signalling : ∀ call ∈ sys.calls, call.Signalling) :
    sys.bond.down = false ∧
      (∀ lane, sys.bond.tailPut lane = 0 ∧ sys.bond.tailGot lane = 0) ∧
      ∀ lane < cfg.links, ∀ post ∈ sys.queue lane,
        readiness lane sys.bond post ≠ .never ∧
        (∀ guard, post.guard? lane = some guard →
          sys.bond.rxSignal ≤ guard.sig ∧
          guard.sig - sys.bond.rxSignal < bondSignals ∧
          ((sys.bond.pending (guard.sig % bondSignals)).seq = 0 ∨
            (sys.bond.pending (guard.sig % bondSignals)).seq =
              guard.sig)) ∧
        ∀ carried, post.carried? = some carried →
          let bond := (afterCopy lane post sys.bond).1
          bond.rxSignal ≤ carried.sig ∧
          carried.sig - bond.rxSignal < bondSignals ∧
          (bond.pending (carried.sig % bondSignals)).seq = 0 ∧
          ¬bond.Refuses carried.sig carried.off := by
  obtain ⟨run, -⟩ := reach.near_of_signalling signalling
  have core := run.inv.core
  refine ⟨core.ledger.up, ?_, ?_⟩
  · intro lane
    rw [core.tails.1, core.tails.2]
    exact ⟨rfl, rfl⟩
  · intro lane below post member
    refine ⟨core.readiness_ne_never below member, ?_, ?_⟩
    · intro guard has
      obtain ⟨ord, -, ok⟩ := core.guardOk below member has
      have window := core.guard_window below member has
      simp only [Bond.OutOfWindow, not_or, not_lt, not_le] at window
      exact ⟨window.2.1, window.2.2, core.slot_of window.2.1 ok.credit⟩
    · intro carried has bond
      have queued := core.not_refused below member carried has
      have facts := queued
      simp only [Bond.Refuses, not_or, not_lt, not_le, not_not] at facts
      obtain ⟨-, -, -, -, above, near, free⟩ := facts
      exact ⟨above, near, free, queued⟩

/-- A write too long for one packet and its signal; the signal, on another link,
is taken first. -/
def signalFirst : List Action :=
  [.call (.writeSignal ⟨fun _ => 2, 64, 64, 4025⟩ ⟨16, 7⟩), goOn, goOn,
    .transmit 0, .transmit 0, goOn, goOn, .transmit 1, .take 1 1 .sent]

theorem signalFirst_runs :
    ((Sys.init trio).run trio signalFirst).isSome = true := by
  decide +kernel

/-- The bond while the write is on its way. -/
def signalled : Sys :=
  ((Sys.init trio).run trio signalFirst).get signalFirst_runs

theorem signalled_signalling : ∀ call ∈ signalled.calls, call.Signalling := by
  decide +kernel

theorem credit_matches_queue_signalled :
    (signalled.wire 0).length = 2 ∧ signalled.bond.down = false ∧
      ∀ lane < trio.links, ∀ post ∈ signalled.queue lane,
        readiness lane signalled.bond post ≠ .never := by
  obtain ⟨up, -, flight⟩ :=
    credit_matches_queue (Reach.get signalFirst_runs) signalled_signalling
  exact ⟨by decide +kernel, up, fun lane below post member =>
    (flight lane below post member).1⟩

/-- A write is checked against a signal that already waits in its slot. -/
theorem checked_slot_taken :
    ∃ sys, Reach trio sys ∧ (∀ call ∈ sys.calls, call.Signalling) ∧
      ∃ lane < trio.links, ∃ post rest guard, sys.wire lane = post :: rest ∧
        post.guard? lane = some guard ∧
        (sys.bond.pending (guard.sig % bondSignals)).seq ≠ 0 := by
  refine ⟨signalled, Reach.get signalFirst_runs, signalled_signalling, 0,
    by decide, _, _, _, rfl, rfl, ?_⟩
  decide +kernel

end

end Fabric
end Mcdma
