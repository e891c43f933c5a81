import Mcdma.Fabric.Posting
import Mcdma.Fabric.Receive

/-!
# The other steps of a bond

A message leaves an outbox, and a flush is over: both keep the invariant.  What
the invariant does not speak of may change freely.
-/

namespace Mcdma
namespace Fabric

open Link

section

variable {cfg : Config} {sys final : Sys} {lane : Nat}

/-- Two states of a bond that the invariant does not tell apart. -/
structure Sys.Same (sys final : Sys) : Prop where
  lanes : ∀ lane,
    Pos.ofLane (final.peer.lanes lane) = Pos.ofLane (sys.peer.lanes lane)
  txSignal : final.peer.txSignal = sys.peer.txSignal
  txFenced : final.peer.txFenced = sys.peer.txFenced
  out : final.out = sys.out
  wire : final.wire = sys.wire
  receiver : final.receiver = sys.receiver
  log : final.log = sys.log
  epoch : final.epoch = sys.epoch
  base : final.base = sys.base
  sent : final.sent = sys.sent

theorem Sys.Same.writes (same : sys.Same final) :
    final.peer.writes = sys.peer.writes := by
  funext lane
  exact congrArg Pos.writes (same.lanes lane)

theorem Sys.Same.queue (same : sys.Same final) : final.queue = sys.queue := by
  funext lane
  rw [Sys.queue, Sys.queue, same.out, same.wire]

namespace Core

theorem same (core : Core cfg sys) (same : sys.Same final) :
    Core cfg final := by
  have writes := same.writes
  have queue := same.queue
  have queued : final.queued = sys.queued := by
    funext lane
    rw [Sys.queued, Sys.queued, queue]
  have outStores : final.outStores = sys.outStores := by
    funext lane
    rw [Sys.outStores, Sys.outStores, same.out]
  have bond : final.bond = sys.bond := by
    rw [Sys.bond, Sys.bond, same.receiver]
  have trace : final.trace = sys.trace := by
    rw [Sys.trace, Sys.trace, same.receiver]
  exact {
    lanes := by
      intro lane below
      have ok := core.lanes lane below
      refine ⟨?_, ?_, ?_, ?_, ?_⟩
      · rw [same.receiver, bond, same.wire, same.sent]
        exact ok.onWire
      · rw [same.sent, same.out, same.lanes]
        exact ok.inOut
      · rw [queue]
        exact ok.sound
      · rw [queued, same.log]
        exact ok.inLog
      · rw [same.base, bond]
        exact ok.based
    history := by
      rw [same.log, writes, same.txSignal]
      exact core.history
    ledger := by
      rw [same.log, writes, bond, trace]
      exact core.ledger
    drained := bond ▸ core.drained
    window := bond ▸ core.window
    tails := bond ▸ core.tails
    fenced := by
      rw [same.txFenced, bond]
      exact core.fenced
    credit := by
      rw [same.txSignal, same.txFenced]
      exact core.credit
    signalsFit := same.txSignal ▸ core.signalsFit
    guards := by
      rw [queue]
      intro lane below post member guard ord has number
      have ok := core.guards lane below post member guard ord has number
      refine ⟨?_, ?_, ?_, ?_, ?_, ?_, ?_, ?_⟩
      · rw [same.txFenced]
        exact ok.credit
      · rw [same.txSignal]
        exact ok.next
      · rw [same.log]
        exact ok.entry
      · rw [same.log, same.txSignal]
        exact ok.ahead
      · rw [same.sent]
        exact ok.left
      · rw [same.base]
        exact ok.near
      · rw [same.log]
        exact ok.earlier
      · rw [outStores]
        exact ok.quiet
    carried := by
      rw [queue]
      intro lane below post member carried has
      have ok := core.carried lane below post member carried has
      refine ⟨?_, ?_, ?_⟩
      · rw [same.log, writes]
        exact ok.logged
      · rw [same.base]
        exact ok.near
      · rw [same.sent]
        exact ok.left
    pendingLeft := by
      rw [bond, same.sent]
      exact core.pendingLeft
    complete := by
      rw [same.log, bond, queued]
      exact core.complete
    upcoming := by
      rw [bond, queued]
      exact core.upcoming
    exclusive := queued ▸ core.exclusive
    depends := by
      rw [same.log, bond, queue]
      exact core.depends
    epochs := by
      rw [same.log, same.epoch]
      exact core.epochs
    settled := by
      rw [same.log, same.epoch, bond]
      exact core.settled }

/-! ## A message leaves its outbox -/

/-- What leaving an outbox changes. -/
theorem transmit_cases (core : Core cfg sys) (below : lane < cfg.links)
    (stepped : sys.transmit lane = some final) :
    ∃ post rest next, sys.out lane = post :: rest ∧
      post.step (sys.sent lane) = some next ∧
      walk next rest = some (Pos.ofLane (sys.peer.lanes lane)) ∧
      final = { sys with
        out := Function.update sys.out lane rest
        wire := Function.update sys.wire lane (sys.wire lane ++ [post])
        sent := Function.update sys.sent lane next } := by
  unfold Sys.transmit at stepped
  split at stepped
  · simp at stepped
  · next post rest out =>
      have walked := (core.lanes lane below).inOut
      rw [out, walk_cons] at walked
      obtain ⟨next, step, onward⟩ := Option.bind_eq_some_iff.mp walked
      refine ⟨post, rest, next, out, step, onward, ?_⟩
      rw [step] at stepped
      exact (Option.some.inj stepped).symm

theorem transmit (core : Core cfg sys) (below : lane < cfg.links)
    (stepped : sys.transmit lane = some final) : Core cfg final := by
  obtain ⟨post, rest, next, out, step, onward, rfl⟩ :=
    core.transmit_cases below stepped
  set moved : Sys := { sys with
    out := Function.update sys.out lane rest
    wire := Function.update sys.wire lane (sys.wire lane ++ [post])
    sent := Function.update sys.sent lane next }
  have queue : moved.queue = sys.queue := by
    funext other
    by_cases here : other = lane
    · subst here
      simp [Sys.queue, moved, out]
    · simp [Sys.queue, moved, here]
  have queued : moved.queued = sys.queued := by
    funext other
    rw [Sys.queued, Sys.queued, queue]
  have left : ∀ other, (sys.sent other).writes ≤
      (moved.sent other).writes := by
    intro other
    by_cases here : other = lane
    · subst here
      simpa [moved] using Post.step_writes_le step
    · simp [moved, here]
  have outStores : ∀ other, ∀ store ∈ moved.outStores other,
      store ∈ sys.outStores other := by
    intro other store member
    by_cases here : other = lane
    · subst here
      simp only [Sys.outStores, moved, Function.update_self] at member
      rw [Sys.outStores, out, List.flatMap_cons]
      exact List.mem_append_right _ member
    · simpa [Sys.outStores, moved, here] using member
  exact {
    lanes := by
      intro other inBond
      have ok := core.lanes other inBond
      obtain ⟨pos, stands, counted, walked⟩ := ok.onWire
      refine ⟨⟨pos, stands, counted, ?_⟩, ?_, ?_, ?_, ok.based⟩
      · by_cases here : other = lane
        · subst here
          simp only [moved, Function.update_self]
          refine walk_append_of walked ?_
          rw [walk_cons, step, Option.bind_some, walk_nil]
        · simpa [moved, here] using walked
      · by_cases here : other = lane
        · subst here
          simpa [moved] using onward
        · simpa [moved, here] using ok.inOut
      · rw [queue]
        exact ok.sound
      · rw [queued]
        exact ok.inLog
    history := core.history
    ledger := core.ledger
    drained := core.drained
    window := core.window
    tails := core.tails
    fenced := core.fenced
    credit := core.credit
    signalsFit := core.signalsFit
    guards := by
      rw [queue]
      intro other inBond found member guard ord has number
      have ok := core.guards other inBond found member guard ord has number
      exact ⟨ok.credit, ok.next, ok.entry, ok.ahead,
        fun one inOne => (ok.left one inOne).trans (left one), ok.near,
        ok.earlier, fun one inOne store stored =>
          ok.quiet one inOne store (outStores one store stored)⟩
    carried := by
      rw [queue]
      intro other inBond found member carried has
      have ok := core.carried other inBond found member carried has
      exact ⟨ok.logged, ok.near, fun one inOne =>
        (ok.left one inOne).imp_left fun gone => gone.trans (left one)⟩
    pendingLeft := fun slot inQueue occupied other inBond =>
      (core.pendingLeft slot inQueue occupied other inBond).trans (left other)
    complete := by
      rw [queued]
      exact core.complete
    upcoming := by
      rw [queued]
      exact core.upcoming
    exclusive := by
      rw [queued]
      exact core.exclusive
    depends := by
      rw [queue]
      exact core.depends
    epochs := core.epochs
    settled := core.settled }

/-! ## A flush is over -/

/-- With nothing in flight everything posted so far can be forgotten. -/
theorem flushed (core : Core cfg sys)
    (empty : ∀ lane < cfg.links, sys.queue lane = []) (pc : Pc)
    (table : Table) :
    Core cfg { sys with
      peer := { sys.peer with
        table := table
        txFenced := sys.peer.txSignal }
      pc := pc
      epoch := sys.epoch + 1
      base := sys.peer.writes } := by
  obtain ⟨applied, published, placed⟩ := core.all_applied empty
  set after : Sys := { sys with
    peer := { sys.peer with
      table := table
      txFenced := sys.peer.txSignal }
    pc := pc
    epoch := sys.epoch + 1
    base := sys.peer.writes }
  have vacant : ∀ lane < cfg.links, after.queue lane = [] := empty
  have silent : ∀ lane < cfg.links, after.queued lane = [] := by
    intro lane below
    rw [Sys.queued, vacant lane below, List.flatMap_nil]
  have unqueued : ∀ slot < bondSignals, (sys.bond.pending slot).seq = 0 := by
    intro slot inQueue
    by_contra occupied
    have bounds := core.pending_le inQueue occupied
    omega
  exact {
    lanes := by
      intro lane below
      have ok := core.lanes lane below
      exact ⟨ok.onWire, ok.inOut, ok.sound, ok.inLog,
        le_of_eq (placed lane below).symm⟩
    history := core.history
    ledger := core.ledger
    drained := core.drained
    window := core.window
    tails := core.tails
    fenced := by
      change sys.peer.txSignal < sys.bond.rxSignal
      omega
    credit := Nat.le_add_right _ _
    signalsFit := core.signalsFit
    guards := by
      intro lane below post member
      simp [vacant lane below] at member
    carried := by
      intro lane below post member
      simp [vacant lane below] at member
    pendingLeft := fun slot inQueue occupied =>
      absurd (unqueued slot inQueue) occupied
    complete := by
      intro entry logged sig tag ahead
      have bound := (core.history.published entry logged sig tag).2
      change sys.bond.rxSignal ≤ sig at ahead
      omega
    upcoming := by
      intro lane below store member
      simp [silent lane below] at member
    exclusive := by
      intro lane below other inBond different store member
      simp [silent lane below] at member
    depends := by
      intro lane below copy logged ord tag unplaced
      have bound := (core.history.placed copy logged lane ord tag).2.2
      have all := placed lane below
      change sys.bond.placed lane < ord at unplaced
      omega
    epochs := fun entry logged =>
      (core.epochs entry logged).trans (Nat.le_succ _)
    settled := fun entry logged _ => applied entry logged }

end Core

end

end Fabric
end Mcdma
