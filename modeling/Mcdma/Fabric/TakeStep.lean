import Mcdma.Fabric.Effect

/-!
# Taking a message keeps the invariant

The receiver's half of the invariant proof.  A message that was found ready had
everything it waits for done; so its copy may be made, its signal fits the queue
and nothing that is still in flight loses what orders it.
-/

namespace Mcdma
namespace Fabric

open Link

section

variable {cfg : Config} {sys : Sys} {lane : Nat} {post : Post} {guard : Guard}

namespace Core

theorem guardOk (core : Core cfg sys) (below : lane < cfg.links)
    (member : post ∈ sys.queue lane) (has : post.guard? lane = some guard) :
    ∃ ord, post.ord? = some ord ∧ GuardOk cfg sys lane ord guard := by
  obtain ⟨ord, number⟩ := Post.ord?_of_guard? has
  exact ⟨ord, number, core.guards lane below post member guard ord has number⟩

/-- A ready message has everything it waits for done. -/
theorem guard_met (core : Core cfg sys) (below : lane < cfg.links)
    (member : post ∈ sys.queue lane)
    (close : CountsClose cfg.links lane sys.bond post)
    (has : post.guard? lane = some guard)
    (ready : readiness lane sys.bond post = .now) :
    (guard.signals = true → sys.bond.rxSignal = guard.sig) ∧
      ∀ other < cfg.links, guard.wait other ≤ sys.bond.placed other := by
  have sound := (core.lanes lane below).sound post member
  have bonded := core.ledger.bonded
  have single : ∀ other < cfg.links,
      0 ≤ diff32 (sys.bond.placed other) (guard.wait other) →
      guard.wait other ≤ sys.bond.placed other := by
    intro other inBond met
    by_cases free : guard.wait other = 0
    · omega
    · exact (close.waits guard has other inBond free).diff32_nonneg_iff.mp met
  -- both N-link kinds ask the same hook
  have counts : ∀ sig flags (wait : Nat → Nat),
      sys.bond.bondReadyN sig flags (lowCounts cfg.links wait) = .now →
      (flags &&& bondWaitSignals ≠ 0 → sys.bond.rxSignal = sig) ∧
        ∀ other < cfg.links,
          0 ≤ diff32 (sys.bond.placed other) (wait other) := by
    intro sig flags wait answer
    obtain ⟨-, turn, counted⟩ :=
      (Bond.bondReadyN_eq_now_iff _ _ _ _).mp answer
    refine ⟨fun flag => (turn flag).symm, ?_⟩
    intro other inBond
    have met := counted other (by rw [bonded]; exact inBond)
    rwa [Bond.ReadyOn, lowCounts, if_pos inBond, diff32_mod] at met
  cases post with
  | bondWriteN seq number roff bytes sig links wait flags =>
      obtain ⟨rfl, -⟩ := sound
      obtain rfl := Option.some.inj has
      obtain ⟨turn, met⟩ := counts sig flags wait ready
      exact ⟨fun flag => turn (by simpa using flag), fun other inBond =>
        single other inBond (met other inBond)⟩
  | bondInlineN seq number roff bytes soff value sig links need wait flags =>
      obtain ⟨rfl, -⟩ := sound
      obtain rfl := Option.some.inj has
      obtain ⟨turn, met⟩ := counts sig flags wait ready
      exact ⟨fun flag => turn (by simpa using flag), fun other inBond =>
        single other inBond (met other inBond)⟩
  | bondWriteSignal seq number roff bytes soff value sig need rest flags wait =>
      obtain rfl := Option.some.inj has
      change sys.bond.bondReady lane sig flags (wait % 2 ^ 32) = .now at ready
      obtain ⟨-, turn, counted⟩ :=
        (Bond.bondReady_eq_now_iff _ _ _ _ _).mp ready
      refine ⟨fun flag => (turn (by simpa using flag)).symm, ?_⟩
      intro other inBond
      by_cases waits : other = (if lane = 0 then 1 else 0) ∧
          flags &&& bondWaitLink ≠ 0
      · apply single other inBond
        have met := counted waits.2
        rw [diff32_mod, ← waits.1] at met
        simpa only [if_pos waits] using met
      · simp only [if_neg waits]
        exact Nat.zero_le _
  | _ => simp [Post.guard?] at has

/-- The write of a message in flight is not placed yet. -/
theorem unplaced (core : Core cfg sys) (below : lane < cfg.links)
    (member : post ∈ sys.queue lane) {ord : Nat} (has : post.ord? = some ord) :
    sys.bond.placed lane < ord := by
  obtain ⟨pos, -, counted, walked⟩ := (core.lanes lane below).walk_queue
  rw [counted]
  exact walk_ord walked member has

/-- A guarded message is inside the signal window. -/
theorem guard_window (core : Core cfg sys) (below : lane < cfg.links)
    (member : post ∈ sys.queue lane) (has : post.guard? lane = some guard) :
    ¬sys.bond.OutOfWindow guard.sig := by
  obtain ⟨ord, number, ok⟩ := core.guardOk below member has
  have fenced := core.fenced
  have credit := ok.credit
  have ahead : sys.bond.rxSignal ≤ guard.sig := by
    rcases ok.ahead with next | ⟨copy, signal, kind, tag, before⟩
    · rw [next]
      exact core.rxSignal_le
    · by_contra passed
      -- its signal is out, so its copy would have been made
      have published : Applied sys.bond signal := by
        rw [applied_published tag]
        omega
      have stored := (core.ledger.applied signal before.mem_right).mp published
      have earlier := core.ledger.ordered copy signal
        ⟨before, Or.inl ⟨_, tag⟩⟩ stored
      have made := (core.ledger.applied copy before.mem_left).mpr
        earlier.mem_left
      rw [applied_placed kind] at made
      have notYet := core.unplaced below member number
      omega
  simp only [Bond.OutOfWindow, core.ledger.up, Bool.false_eq_true, false_or,
    not_or]
  omega

/-- Two signal numbers within credit that share a slot are the same. -/
theorem slot_injective (core : Core cfg sys) {first second : Nat}
    (firstAbove : sys.bond.rxSignal ≤ first)
    (secondAbove : sys.bond.rxSignal ≤ second)
    (firstBelow : first ≤ sys.peer.txSignal)
    (secondBelow : second ≤ sys.peer.txSignal)
    (same : first % bondSignals = second % bondSignals) : first = second := by
  have fenced := core.fenced
  have credit := core.credit
  simp only [bondSignals] at credit same
  omega

/-- A queued signal number was posted. -/
theorem pending_le (core : Core cfg sys) {slot : Nat} (below : slot < bondSignals)
    (occupied : (sys.bond.pending slot).seq ≠ 0) :
    (sys.bond.pending slot).seq % bondSignals = slot ∧
      sys.bond.rxSignal ≤ (sys.bond.pending slot).seq ∧
      (sys.bond.pending slot).seq ≤ sys.peer.txSignal := by
  obtain ⟨home, ahead, signal, logged, store, -⟩ :=
    core.ledger.queue slot below occupied
  refine ⟨home, ahead, (core.history.published signal logged _ ?_).2⟩
  rw [Entry.tag, store]

/-- The store of a carried signal is among those in flight. -/
theorem carried_queued (core : Core cfg sys) (below : lane < cfg.links)
    (member : post ∈ sys.queue lane) {carried : Carried}
    (has : post.carried? = some carried) :
    carried.store ∈ sys.queued lane := by
  have sound := (core.lanes lane below).sound post member
  refine List.mem_flatMap.mpr ⟨post, member, ?_⟩
  rw [Post.stores_eq sound, has]
  simp

/-- The bond queues the signal of a message it takes. -/
theorem not_refused (core : Core cfg sys) (below : lane < cfg.links)
    (member : post ∈ sys.queue lane) (carried : Carried)
    (has : post.carried? = some carried) :
    ¬(afterCopy lane post sys.bond).1.Refuses carried.sig carried.off := by
  obtain ⟨counted, drains, pending, rxSignal, -, winLength, -, -, down, -⟩ :=
    drains_afterCopy lane post core.ledger.counted.1
  have inFlight := core.carried_queued below member has
  obtain ⟨ahead, absent⟩ := core.upcoming lane below _ inFlight carried.sig rfl
  obtain ⟨signal, logged, store⟩ := (core.lanes lane below).exists_entry inFlight
  have posted := (core.history.published signal logged carried.sig
    (by rw [Entry.tag, store]; rfl)).2
  have sound := (core.lanes lane below).sound post member
  have inWindow : carried.off % 8 = 0 ∧
      carried.off + 8 ≤ cfg.remoteLength := by
    cases post <;> simp only [Post.carried?, Option.some.injEq,
      reduceCtorEq] at has <;> subst has <;>
      simp only [Post.Sound] at sound <;> first | exact sound.elim | tauto
  set middle := (afterCopy lane post sys.bond).1
  have fresh : middle.rxSignal ≤ carried.sig := by
    by_contra passed
    obtain ⟨slot, inQueue, seq⟩ := drains.published carried.sig
      (by rw [rxSignal]; exact ahead) (by omega)
    rw [pending] at seq
    exact absent slot inQueue seq
  have free : (middle.pending (carried.sig % bondSignals)).seq = 0 := by
    by_contra occupied
    have kept := drains.kept _ occupied
    rw [kept, pending] at occupied
    obtain ⟨home, above, upTo⟩ := core.pending_le (Bond.slot_lt _) occupied
    exact absent _ (Bond.slot_lt _) (core.slot_injective above ahead upTo posted home)
  have fenced := core.fenced
  have credit := core.credit
  have grown := drains.rxSignal
  rw [rxSignal] at grown
  have window := drains.winLength.trans (winLength.trans core.window)
  have alive := drains.down.trans (down.trans core.ledger.up)
  simp only [Bond.Refuses, alive, free, window, Bool.false_eq_true,
    false_or, ne_eq, not_true_eq_false, or_false, not_or]
  omega

/-- What a guard waits for has been made once it is met. -/
theorem awaited_applied (core : Core cfg sys)
    (turn : guard.signals = true → sys.bond.rxSignal = guard.sig)
    (met : ∀ other < cfg.links, guard.wait other ≤ sys.bond.placed other)
    {entry : Entry} (logged : entry ∈ sys.log) (awaits : Awaits guard entry) :
    Applied sys.bond entry := by
  rcases core.history.cases logged with ⟨other, ord, tag⟩ | ⟨sig, tag⟩
  · have inBond := (core.history.placed entry logged other ord tag).1
    rw [Awaits, tag] at awaits
    rw [applied_placed tag]
    exact le_trans awaits (met other inBond)
  · rw [Awaits, tag] at awaits
    rw [applied_published tag, turn awaits.1]
    exact awaits.2

variable {rest : List Post}

/-- Everything that must come before the copy of a ready message was made. -/
theorem copy_ready (core : Core cfg sys)
    (close : CountsClose cfg.links lane sys.bond post)
    (below : lane < cfg.links) (wire : sys.wire lane = post :: rest)
    (ready : readiness lane sys.bond post = .now)
    {store : Store} (copied : post.copied? lane = some store) :
    ∃ entry ∈ sys.log, entry.store = store ∧
      entry.tag = .placed lane (sys.bond.placed lane + 1) ∧
      ∀ first, Ordered sys.log first entry → Applied sys.bond first := by
  have queue : sys.queue lane = post :: (rest ++ sys.out lane) := by
    simp [Sys.queue, wire]
  have member : post ∈ sys.queue lane := by simp [queue]
  obtain ⟨ord, number, tag, brings⟩ := Post.copied?_tag copied
  obtain ⟨pos, stands, counted, walked⟩ := (core.lanes lane below).walk_queue
  rw [queue, walk_cons] at walked
  obtain ⟨next, step, onward⟩ := Option.bind_eq_some_iff.mp walked
  obtain ⟨mine, count⟩ := Post.step_writes step
  rw [if_pos brings] at count
  have isNext : ord = sys.bond.placed lane + 1 := by
    rw [counted]
    exact mine ord number
  have sound := (core.lanes lane below).sound post member
  have inFlight : store ∈ sys.queued lane := by
    refine List.mem_flatMap.mpr ⟨post, member, ?_⟩
    rw [Post.stores_eq sound, copied]
    simp
  obtain ⟨entry, logged, same⟩ := (core.lanes lane below).exists_entry inFlight
  have kind : entry.tag = .placed lane ord := by
    rw [Entry.tag, same, tag]
  refine ⟨entry, logged, same, by rw [kind, isNext], ?_⟩
  intro first ordered
  rcases core.depends lane below entry logged ord kind (by omega) first
      ordered with made | ⟨earlier, here⟩ | ⟨waiting, found, its, guard, has,
        awaits⟩
  · exact made
  · -- the same link: it came before, and everything before is placed
    have less := core.history.climbing first entry ordered.1 lane earlier ord
      here kind
    rw [applied_placed here]
    omega
  · -- a message behind this one belongs to a later write
    rw [queue] at found
    rcases List.mem_cons.mp found with rfl | later
    · obtain ⟨turn, met⟩ := core.guard_met below member close has ready
      exact core.awaited_applied turn met ordered.1.mem_left awaits
    · have beyond := walk_ord onward later its
      omega

/-- The ledger after the copy of a ready message. -/
theorem ledger_afterCopy (core : Core cfg sys)
    (close : CountsClose cfg.links lane sys.bond post)
    (below : lane < cfg.links) (wire : sys.wire lane = post :: rest)
    (ready : readiness lane sys.bond post = .now) :
    Ledger cfg.links sys.log sys.peer.writes (afterCopy lane post sys.bond).1
      (sys.trace ++ (afterCopy lane post sys.bond).2) := by
  unfold afterCopy
  cases copied : post.copied? lane with
  | none => simpa using core.ledger
  | some store =>
      obtain ⟨entry, logged, rfl, tag, before⟩ :=
        core.copy_ready close below wire ready copied
      simpa using core.ledger.bondPlaced core.history logged tag before

/-- A carried count widens to itself, also when the message has been placed. -/
theorem widen_need (core : Core cfg sys) (below : lane < cfg.links)
    (wire : sys.wire lane = post :: rest)
    (close : CountsClose cfg.links lane sys.bond post)
    {carried : Carried} (has : post.carried? = some carried)
    {other : Nat} (inBond : other < cfg.links) :
    widen ((if post.brings then Function.update sys.bond.placed lane
        (sys.bond.placed lane + 1) else sys.bond.placed) other)
        (lowCounts cfg.links carried.need other) =
      carried.need other := by
  have near := close.needs carried has other inBond
  rw [lowCounts, if_pos inBond]
  apply widen_mod
  split
  · next brings =>
      by_cases here : other = lane
      · -- a write that carries a signal counts itself
        subst here
        obtain ⟨pos, next, -, counted, step, -, sound⟩ :=
          core.head_fits below wire
        obtain ⟨ord, number⟩ := Post.exists_ord? brings
        have mine := (Post.step_writes step).1 ord number
        have own := Post.need_of_carried? sound has number
        rw [Function.update_self]
        constructor <;> omega
      · rw [Function.update_of_ne here]
        exact near
  · exact near

/-- The ledger after a ready message. -/
theorem ledger_afterPost (core : Core cfg sys)
    (close : CountsClose cfg.links lane sys.bond post)
    (below : lane < cfg.links) (wire : sys.wire lane = post :: rest)
    (ready : readiness lane sys.bond post = .now) :
    Ledger cfg.links sys.log sys.peer.writes
      (afterPost cfg.links lane post sys.bond).1
      (sys.trace ++ (afterPost cfg.links lane post sys.bond).2) := by
  have member : post ∈ sys.queue lane := by simp [Sys.queue, wire]
  have copied := core.ledger_afterCopy close below wire ready
  unfold afterPost
  cases has : post.carried? with
  | none => exact copied
  | some carried =>
      have queued := core.not_refused below member carried has
      have ok := core.carried lane below post member carried has
      obtain ⟨signal, logged, store, watermark⟩ := ok.logged
      simp only [Bond.bondSignal, if_neg queued]
      rw [← List.append_assoc]
      have free : ((afterCopy lane post sys.bond).1.pending
          (carried.sig % bondSignals)).seq = 0 := by
        by_contra taken
        exact queued (by simp [Bond.Refuses, taken])
      have ahead : (afterCopy lane post sys.bond).1.rxSignal ≤ carried.sig := by
        by_contra passed
        exact queued (by simp [Bond.Refuses]; omega)
      have sigPos := (core.history.published signal logged carried.sig
        (by rw [Entry.tag, store]; rfl)).1
      refine Ledger.drain (Ledger.enqueue copied (by omega) ahead
        free logged store watermark
        (fun entry found lane ord kind =>
          (core.history.placed entry found lane ord kind).1) ?_) core.history
      intro other inBond
      obtain ⟨middle, drains, -, -, -, -, -, -, -, placed⟩ :=
        drains_afterCopy lane post core.ledger.counted.1
      rw [drains.placed, placed]
      exact core.widen_need below wire close has inBond

end Core

end

end Fabric
end Mcdma
