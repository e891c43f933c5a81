import Mcdma.Fabric.TakeStep

/-!
# The receiver's steps

Whether the message at the head of a link is taken or stays, the invariant of
the bond holds afterwards.
-/

namespace Mcdma
namespace Fabric

open Link

/-- The counts after a message are not behind those before it. -/
theorem Effect.applied {links lane : Nat} {post : Post} {before after : Bond}
    (effect : Effect links lane post before after) {entry : Entry}
    (made : Applied before entry) : Applied after entry := by
  cases tag : entry.tag with
  | placed other ord =>
      rw [applied_placed tag] at made ⊢
      rw [effect.placed]
      split
      · by_cases here : other = lane
        · subst here
          rw [Function.update_self]
          omega
        · simpa [here] using made
      · exact made
  | published sig =>
      rw [applied_published tag] at made ⊢
      exact lt_of_lt_of_le made effect.rxSignal
  | word =>
      rw [Applied, tag] at made
      exact made.elim

/-- A link's count does not fall. -/
theorem Effect.placed_le {links lane : Nat} {post : Post} {before after : Bond}
    (effect : Effect links lane post before after) (other : Nat) :
    before.placed other ≤ after.placed other := by
  rw [effect.placed]
  split
  · by_cases here : other = lane
    · subst here
      rw [Function.update_self]
      omega
    · simp [here]
  · exact Nat.le_refl _

/-- A signal that rides on a write rides behind its bytes. -/
theorem Post.brings_of_carried? {post : Post} {carried : Carried} {ord : Nat}
    (has : post.carried? = some carried) (number : post.ord? = some ord) :
    post.brings = true := by
  cases post <;> simp only [Post.carried?, Post.ord?, reduceCtorEq] at has number
  all_goals rfl

section

variable {cfg : Config} {sys : Sys} {lane : Nat} {post : Post}
variable {rest : List Post}

namespace Sys

/-- A bond whose link `lane` has lost the head of its wire. -/
def popped (sys : Sys) (lane : Nat) (rest : List Post) (after : Receiver)
    (acks : Nat → List Nat) : Sys :=
  { sys with
    wire := Function.update sys.wire lane rest
    receiver := after
    acks := acks }

variable {after : Receiver} {acks : Nat → List Nat}

theorem queue_popped (after : Receiver) (acks : Nat → List Nat)
    (wire : sys.wire lane = post :: rest) (other : Nat) :
    sys.queue other =
      (if other = lane then [post] else []) ++
        (sys.popped lane rest after acks).queue other := by
  by_cases here : other = lane
  · subst here
    simp [Sys.queue, Sys.popped, wire]
  · simp [Sys.queue, Sys.popped, here]

theorem mem_queue_popped (wire : sys.wire lane = post :: rest) {other : Nat}
    {found : Post} (member : found ∈ (sys.popped lane rest after acks).queue other) :
    found ∈ sys.queue other := by
  rw [queue_popped after acks wire]
  exact List.mem_append_right _ member

theorem queued_popped (after : Receiver) (acks : Nat → List Nat)
    (wire : sys.wire lane = post :: rest) (other : Nat) :
    sys.queued other =
      (if other = lane then post.stores lane else []) ++
        (sys.popped lane rest after acks).queued other := by
  rw [Sys.queued, queue_popped after acks wire, List.flatMap_append]
  by_cases here : other = lane
  · subst here
    simp [Sys.queued]
  · simp [here, Sys.queued]

theorem mem_queued_popped (wire : sys.wire lane = post :: rest) {other : Nat}
    {store : Store}
    (member : store ∈ (sys.popped lane rest after acks).queued other) :
    store ∈ sys.queued other := by
  rw [queued_popped after acks wire]
  exact List.mem_append_right _ member

end Sys

namespace Core

variable {after : Receiver} {acks : Nat → List Nat}

/-- The effect of a ready message. -/
theorem effect (core : Core cfg sys) (below : lane < cfg.links)
    (wire : sys.wire lane = post :: rest) :
    Effect cfg.links lane post sys.bond
      (afterPost cfg.links lane post sys.bond).1 := by
  have member : post ∈ sys.queue lane := by simp [Sys.queue, wire]
  refine effect_afterPost core.ledger.counted.1 ?_
    (core.not_refused below member)
  intro carried has
  obtain ⟨signal, logged, store, -⟩ :=
    (core.carried lane below post member carried has).logged
  have bound := (core.history.published signal logged carried.sig
    (by rw [Entry.tag, store]; rfl)).1
  omega

/-- A taken message leaves no due signal behind. -/
theorem not_due_afterPost (core : Core cfg sys) (below : lane < cfg.links)
    (wire : sys.wire lane = post :: rest) :
    ¬(afterPost cfg.links lane post sys.bond).1.Due := by
  have member : post ∈ sys.queue lane := by simp [Sys.queue, wire]
  have queued := core.not_refused below member
  obtain ⟨counted, drains, -, rxSignal, -, -, -, -, down, -⟩ :=
    drains_afterCopy lane post core.ledger.counted.1
  have pos := core.ledger.counted.1
  have grown := drains.rxSignal
  have alive := drains.down.trans (down.trans core.ledger.up)
  unfold afterPost
  cases has : post.carried? with
  | none =>
      unfold afterCopy
      cases post.copied? lane with
      | none => exact core.drained
      | some store =>
          exact Bond.not_due_bondPlaced core.ledger.counted core.ledger.up _ _
  | some carried =>
      simp only [Bond.bondSignal, if_neg (queued carried has)]
      refine Bond.not_due_drain ?_ alive
      change 0 < (afterCopy lane post sys.bond).1.rxSignal
      omega

/-- The signal of the message at the head is nowhere else in flight. -/
theorem carried_once (core : Core cfg sys) (below : lane < cfg.links)
    (wire : sys.wire lane = post :: rest) {carried : Carried}
    (has : post.carried? = some carried) {other : Nat}
    (inBond : other < cfg.links) {store : Store}
    (member : store ∈ (sys.popped lane rest after acks).queued other) :
    store.tag ≠ .published carried.sig := by
  intro tag
  have head : post ∈ sys.queue lane := by simp [Sys.queue, wire]
  have sound := (core.lanes lane below).sound post head
  have mine := core.carried_queued below head has
  obtain ⟨entry, logged, same⟩ := (core.lanes other inBond).exists_entry
    (Sys.mem_queued_popped wire member)
  obtain ⟨signal, found, its⟩ := (core.lanes lane below).exists_entry mine
  have equal : store = carried.store := by
    rw [← same, ← its, core.history.store_eq_iff logged found, Entry.tag, same,
      tag, Entry.tag, its]
    rfl
  subst equal
  by_cases here : other = lane
  · subst here
    have nodup := (core.lanes other inBond).inLog.nodup
      core.history.nodup_stores
    rw [Sys.queued_popped after acks wire, if_pos rfl] at nodup
    refine (List.nodup_append.mp nodup).2.2 _ ?_ _ member rfl
    rw [Post.stores_eq sound, has]
    simp
  · exact core.exclusive other inBond lane below here _
      (Sys.mem_queued_popped wire member) mine _ rfl

/-- A link after a message, and the others. -/
theorem laneOk_taken (core : Core cfg sys) (acks : Nat → List Nat)
    (below : lane < cfg.links)
    (wire : sys.wire lane = post :: rest) {pos next : Pos}
    (counted : sys.bond.placed lane = pos.writes)
    (step : post.step pos = some next)
    (onward : walk next rest = some (sys.sent lane))
    (takes : Takes cfg.remoteLength cfg.links lane sys.receiver post next after)
    {other : Nat} (inBond : other < cfg.links) :
    LaneOk cfg (sys.popped lane rest after acks) other := by
  have effect := core.effect below wire
  rw [← takes.bond] at effect
  have old := core.lanes other inBond
  have inLog : ((sys.popped lane rest after acks).queued other).Sublist
      (sys.log.map Entry.store) := by
    refine List.Sublist.trans ?_ old.inLog
    rw [Sys.queued_popped after acks wire]
    exact List.sublist_append_right _ _
  refine ⟨?_, old.inOut, fun found member =>
    old.sound found (Sys.mem_queue_popped wire member), inLog,
    old.based.trans (effect.placed_le other)⟩
  by_cases here : other = lane
  · subst here
    refine ⟨next, takes.stands, ?_, by simpa [Sys.popped] using onward⟩
    change after.bond.placed other = next.writes
    rw [effect.placed, (Post.step_writes step).2]
    split
    · rw [Function.update_self, counted]
    · exact counted
  · obtain ⟨reachedPos, stands, same, walked⟩ := old.onWire
    refine ⟨reachedPos, ?_, ?_, by simpa [Sys.popped, here] using walked⟩
    · change At _ (after.lanes other) reachedPos
      rw [takes.others other here]
      exact stands
    · change after.bond.placed other = reachedPos.writes
      rw [effect.placed, ← same]
      split
      · simp [here]
      · rfl

/-- Taking the message at the head of a link keeps the invariant. -/
theorem taken (core : Core cfg sys)
    (close : CountsClose cfg.links lane sys.bond post)
    (below : lane < cfg.links) (wire : sys.wire lane = post :: rest)
    {pos next : Pos} (counted : sys.bond.placed lane = pos.writes)
    (step : post.step pos = some next)
    (onward : walk next rest = some (sys.sent lane))
    (ready : readiness lane sys.bond post = .now)
    (takes : Takes cfg.remoteLength cfg.links lane sys.receiver post next
      after) :
    Core cfg (sys.popped lane rest after acks) := by
  have head : post ∈ sys.queue lane := by simp [Sys.queue, wire]
  have sound := (core.lanes lane below).sound post head
  have ledger := core.ledger_afterPost close below wire ready
  rw [← takes.bond, ← takes.stores] at ledger
  have drained := core.not_due_afterPost below wire
  have effect := core.effect below wire
  rw [← takes.bond] at drained effect
  exact {
    lanes := fun other inBond =>
      core.laneOk_taken acks below wire counted step onward takes inBond
    history := core.history
    ledger := ledger
    drained := drained
    window := effect.winLength.trans core.window
    tails := core.tails.imp effect.tailPut.trans effect.tailGot.trans
    fenced := lt_of_lt_of_le core.fenced effect.rxSignal
    credit := core.credit
    signalsFit := core.signalsFit
    guards := fun other inBond found member guard ord has number =>
      have ok := core.guards other inBond found
        (Sys.mem_queue_popped wire member) guard ord has number
      ⟨ok.credit, ok.next, ok.entry, ok.ahead, ok.left, ok.near, ok.earlier,
        ok.quiet⟩
    carried := fun other inBond found member carried has =>
      have ok := core.carried other inBond found
        (Sys.mem_queue_popped wire member) carried has
      ⟨ok.logged, ok.near, ok.left⟩
    pendingLeft := by
      intro slot inQueue occupied other inBond
      rcases effect.kept slot occupied with same | ⟨carried, has, -, need⟩
      · change (after.bond.pending slot).need other ≤ _
        rw [same]
        change (after.bond.pending slot).seq ≠ 0 at occupied
        rw [same] at occupied
        exact core.pendingLeft slot inQueue occupied other inBond
      · change (after.bond.pending slot).need other ≤ _
        rw [need, wideNeed, ledger.bonded, if_pos inBond, effect.placed,
          core.widen_need below wire close has inBond]
        rcases (core.carried lane below post head carried has).left other
            inBond with left | ⟨rfl, number⟩
        · exact left
        · have brings := Post.brings_of_carried? has number
          obtain ⟨mine, count⟩ := Post.step_writes step
          rw [if_pos brings] at count
          rw [mine _ number, ← count]
          exact walk_writes_le onward
    complete := by
      intro entry logged sig tag ahead
      rcases core.complete entry logged sig tag
          (effect.rxSignal.trans ahead) with
        ⟨slot, inQueue, seq⟩ | ⟨other, inBond, found⟩
      · left
        refine ⟨slot, inQueue, ?_⟩
        have positive := (core.history.published entry logged sig tag).1
        rcases effect.passed slot (by omega) with same | passed
        · exact same.trans seq
        · change after.bond.rxSignal ≤ sig at ahead
          omega
      · rw [Sys.queued_popped after acks wire] at found
        rcases List.mem_append.mp found with here | later
        · left
          split at here
          · rw [Post.stores_eq sound, List.mem_append] at here
            rcases here with copy | signal
            · obtain ⟨ord, -, kind, -⟩ :=
                Post.copied?_tag (Option.mem_toList.mp copy)
              rw [Entry.tag, kind] at tag
              simp at tag
            · obtain ⟨carried, has, same⟩ :=
                Option.map_eq_some_iff.mp (Option.mem_toList.mp signal)
              rw [Entry.tag, ← same] at tag
              obtain rfl := Tag.published.inj tag
              refine ⟨carried.sig % bondSignals, Bond.slot_lt _, ?_⟩
              rcases effect.joined carried has with queued | passed
              · exact queued
              · change after.bond.rxSignal ≤ carried.sig at ahead
                omega
          · simp at here
        · exact Or.inr ⟨other, inBond, later⟩
    upcoming := by
      intro other inBond store member sig tag
      obtain ⟨ahead, absent⟩ := core.upcoming other inBond store
        (Sys.mem_queued_popped wire member) sig tag
      have unlike : ∀ carried, post.carried? = some carried →
          carried.sig ≠ sig := by
        rintro carried has rfl
        exact core.carried_once below wire has inBond member tag
      have pos := core.ledger.counted.1
      constructor
      · by_contra passed
        rcases effect.published sig ahead
            (Nat.lt_of_not_le passed) with
          ⟨slot, inQueue, seq⟩ | ⟨carried, has, same⟩
        · exact absent slot inQueue seq
        · exact unlike carried has same
      · intro slot inQueue seq
        change (after.bond.pending slot).seq = sig at seq
        rcases effect.kept slot (by omega) with same | ⟨carried, has, its, -⟩
        · rw [same] at seq
          exact absent slot inQueue seq
        · exact unlike carried has (its.symm.trans seq)
    exclusive := fun one inBond two inBond' different store left right =>
      core.exclusive one inBond two inBond' different store
        (Sys.mem_queued_popped wire left) (Sys.mem_queued_popped wire right)
    depends := by
      intro other inBond copy logged ord tag unplaced first ordered
      have notYet : sys.bond.placed other < ord :=
        lt_of_le_of_lt (effect.placed_le other) unplaced
      rcases core.depends other inBond copy logged ord tag notYet first
          ordered with made | same | ⟨found, member, number, guard, has,
            awaits⟩
      · exact Or.inl (effect.applied made)
      · exact Or.inr (Or.inl same)
      · rw [Sys.queue_popped after acks wire] at member
        rcases List.mem_append.mp member with here | later
        · left
          split at here
          · next same =>
              subst same
              rw [List.mem_singleton.mp here] at has
              obtain ⟨turn, met⟩ := core.guard_met below head close has ready
              exact effect.applied (core.awaited_applied turn met
                ordered.1.mem_left awaits)
          · simp at here
        · exact Or.inr (Or.inr ⟨found, later, number, guard, has, awaits⟩)
    epochs := core.epochs
    settled := fun entry logged earlier =>
      effect.applied (core.settled entry logged earlier) }

/-- A message that stays where it is changes nothing that matters. -/
theorem held (core : Core cfg sys)
    (waits : Waits lane sys.receiver after) :
    Core cfg { sys with receiver := after } := by
  have bond : after.bond = sys.bond := waits.bond
  have stores : after.stores = sys.trace := waits.stores
  exact {
    lanes := by
      intro other inBond
      have old := core.lanes other inBond
      obtain ⟨pos, stands, counted, walked⟩ := old.onWire
      refine ⟨⟨pos, ?_, by rw [← counted, ← bond], walked⟩, old.inOut,
        old.sound, old.inLog, by rw [Sys.bond, bond]; exact old.based⟩
      by_cases here : other = lane
      · subst here
        exact waits.stands _ _ stands
      · change At _ (after.lanes other) pos
        rw [waits.others other here]
        exact stands
    history := core.history
    ledger := by
      change Ledger _ _ _ after.bond after.stores
      rw [bond, stores]
      exact core.ledger
    drained := by rw [Sys.bond, bond]; exact core.drained
    window := by rw [Sys.bond, bond]; exact core.window
    tails := by rw [Sys.bond, bond]; exact core.tails
    fenced := by rw [Sys.bond, bond]; exact core.fenced
    credit := core.credit
    signalsFit := core.signalsFit
    guards := fun other inBond found member guard ord has number =>
      have ok := core.guards other inBond found member guard ord has number
      ⟨ok.credit, ok.next, ok.entry, ok.ahead, ok.left, ok.near, ok.earlier,
        ok.quiet⟩
    carried := fun other inBond found member carried has =>
      have ok := core.carried other inBond found member carried has
      ⟨ok.logged, ok.near, ok.left⟩
    pendingLeft := by rw [Sys.bond, bond]; exact core.pendingLeft
    complete := by rw [Sys.bond, bond]; exact core.complete
    upcoming := by rw [Sys.bond, bond]; exact core.upcoming
    exclusive := core.exclusive
    depends := by rw [Sys.bond, bond]; exact core.depends
    epochs := core.epochs
    settled := by rw [Sys.bond, bond]; exact core.settled }

/-- What a link's `take` can do: it takes the head of its wire, or leaves it. -/
theorem take_cases (core : Core cfg sys) (below : lane < cfg.links)
    {now : Nat} {reply : Reply} {final : Sys} {result : Taken}
    (stepped : sys.take cfg lane now reply = some (final, result)) :
    ∃ post rest pos next, sys.wire lane = post :: rest ∧
      sys.bond.placed lane = pos.writes ∧ post.step pos = some next ∧
      walk next rest = some (sys.sent lane) ∧
      ((∃ after, (sys.receiver.lanes lane).why = none ∧
          readiness lane sys.bond post = .now ∧
          Takes cfg.remoteLength cfg.links lane sys.receiver post next after ∧
          result = .taken post.answer? ∧
          final = sys.popped lane rest after (Function.update sys.acks lane
            (sys.acks lane ++ post.answer?.toList))) ∨
        ∃ after, Waits lane sys.receiver after ∧
          (∀ answer, result ≠ .taken answer) ∧
          (result = .failed → (sys.receiver.lanes lane).why ≠ none ∨
            Expired lane now reply (sys.receiver.recv lane) post) ∧
          final = { sys with receiver := after }) := by
  unfold Sys.take at stepped
  split at stepped
  · simp at stepped
  · next post rest wire =>
      obtain ⟨pos, next, stands, counted, step, onward, sound⟩ :=
        core.head_fits below wire
      refine ⟨post, rest, pos, next, wire, counted, step, onward, ?_⟩
      have head : post ∈ sys.queue lane := by simp [Sys.queue, wire]
      obtain ⟨⟨after, outcome⟩, delivered, same⟩ :=
        Option.map_eq_some_iff.mp stepped
      by_cases takes : (sys.receiver.lanes lane).why = none ∧
          readiness lane sys.bond post = .now ∧
          (post.answer?.isSome → reply = .sent)
      · obtain ⟨alive, ready, room⟩ := takes
        obtain ⟨taken, resulting, effect⟩ := deliver_taken now below
          cfg.two_le cfg.le_max cfg.remoteLength_lt stands counted step sound
          alive ready room (core.not_refused below head)
        obtain ⟨rfl, rfl⟩ := Prod.mk.inj
          (Option.some.inj (delivered.symm.trans resulting))
        obtain ⟨rfl, rfl⟩ := Prod.mk.inj same
        exact Or.inl ⟨after, alive, ready, effect, rfl, rfl⟩
      · have stays : (sys.receiver.lanes lane).why ≠ none ∨
            readiness lane sys.bond post ≠ .now ∨
            (post.answer?.isSome ∧ reply ≠ .sent) := by
          by_contra notYet
          push Not at notYet
          exact takes notYet
        obtain ⟨left, kind, resulting, notYet, waits, expired⟩ :=
          deliver_held now below cfg.two_le cfg.le_max
            cfg.remoteLength_lt stands step sound stays
        obtain ⟨rfl, rfl⟩ := Prod.mk.inj
          (Option.some.inj (delivered.symm.trans resulting))
        obtain ⟨rfl, rfl⟩ := Prod.mk.inj same
        refine Or.inr ⟨after, waits, notYet, expired, ?_⟩
        split
        · next answer taken => exact absurd taken (notYet answer)
        · rfl

/-- Every step of the receiver keeps the invariant. -/
theorem take (core : Core cfg sys) (near : sys.Near cfg)
    (below : lane < cfg.links) {now : Nat} {reply : Reply} {final : Sys}
    {result : Taken}
    (stepped : sys.take cfg lane now reply = some (final, result)) :
    Core cfg final := by
  obtain ⟨post, rest, pos, next, wire, counted, step, onward, outcome⟩ :=
    core.take_cases below stepped
  rcases outcome with ⟨after, -, ready, takes, -, rfl⟩ | ⟨after, waits, -, -,
    rfl⟩
  · have close := near lane below post (by rw [wire]; rfl)
    exact core.taken close below wire counted step onward ready takes
  · exact core.held waits

end Core

end

end Fabric
end Mcdma
