import Mcdma.Fabric.System

/-!
# Delivering a bonded message

What the receiver does with the next message of a link, for every kind a bond
sends: it waits and changes nothing that matters, or it takes the message, moves
to the next position and stores what the message brings.
-/

namespace Mcdma
namespace Fabric

open Link

/-- The receiving half of a link stands at a position of a window of `limit`
bytes. -/
abbrev At (limit : Nat) : Rx → Pos → Prop :=
  Link.At (0, limit)

theorem At.inside {limit : Nat} {rx : Rx} {pos : Pos} (stands : At limit rx pos)
    {off len : Nat} (within : off + len ≤ limit) :
    rx.inside off len = true :=
  Link.At.within stands (Nat.zero_le _) within

/-- The answer of the bond to a message's guard. -/
def readiness (lane : Nat) (bond : Bond) (post : Post) : Ready :=
  match post with
  | .bondWriteSignal _ _ _ _ _ _ sig _ _ flags wait =>
      bond.bondReady lane sig flags (wait % 2 ^ 32)
  | .bondWriteN _ _ _ _ sig links wait flags =>
      bond.bondReadyN sig flags (lowCounts links wait)
  | .bondInlineN _ _ _ _ _ _ sig links _ wait flags =>
      bond.bondReadyN sig flags (lowCounts links wait)
  | _ => .now

/-- The bond after a message's copy, and the stores made. -/
def afterCopy (lane : Nat) (post : Post) (bond : Bond) : Bond × List Store :=
  match post.copied? lane with
  | none => (bond, [])
  | some store =>
      let told := bond.bondPlaced lane (bond.placed lane + 1)
      (told.1, store :: told.2)

/-- The bond after a message, and the stores made. -/
def afterPost (links lane : Nat) (post : Post) (bond : Bond) :
    Bond × List Store :=
  let copied := afterCopy lane post bond
  match post.carried? with
  | none => copied
  | some carried =>
      let told := copied.1.bondSignal carried.sig
        (lowCounts links carried.need) carried.off carried.value
      (told.1.1, copied.2 ++ told.1.2)

/-- The message was taken with its full effect. -/
structure Takes (limit links lane : Nat) (receiver : Receiver) (post : Post)
    (next : Pos) (after : Receiver) : Prop where
  stands : At limit (after.lanes lane) next
  others : ∀ other, other ≠ lane → after.lanes other = receiver.lanes other
  why : (after.lanes lane).why = (receiver.lanes lane).why
  bond : after.bond = (afterPost links lane post receiver.bond).1
  stores : after.stores =
    receiver.stores ++ (afterPost links lane post receiver.bond).2

/-- Nothing but a link's stall timer or its poison changed. -/
structure Waits (lane : Nat) (receiver after : Receiver) : Prop where
  stands : ∀ limit pos, At limit (receiver.lanes lane) pos →
    At limit (after.lanes lane) pos
  others : ∀ other, other ≠ lane → after.lanes other = receiver.lanes other
  bond : after.bond = receiver.bond
  stores : after.stores = receiver.stores

section

variable {limit links lane now : Nat} {reply : Reply} {recv : Recv Bond}
variable {pos next : Pos} {post : Post}

/-- What handing a signal over leaves, when the bond queues it. -/
theorem hand_eq {sig soff value : Nat} {need : Nat → Nat} {why : String}
    (queued : ¬recv.bond.Refuses sig soff) :
    recv.hand (bondHooks links lane) sig need soff value why =
      some ({ recv with
        bond := (recv.bond.bondSignal sig need soff value).1.1
        stores := recv.stores ++
          (recv.bond.bondSignal sig need soff value).1.2 }, .taken none) := by
  have kept : (recv.bond.bondSignal sig need soff value).2 = true := by
    rw [Bond.bondSignal, if_neg queued]
  simp only [Recv.hand, Recv.signal, bondHooks, kept, if_true]

/-- The bond as the placement hook leaves it. -/
theorem placed_bond (stands : At limit recv.rx pos)
    (counted : recv.bond.placed lane = pos.writes) :
    (recv.placed (some (bondHooks links lane))).bond =
      (recv.bond.bondPlaced lane (recv.bond.placed lane + 1)).1 := by
  simp only [Recv.placed, bondHooks, stands.writes, counted]

theorem placed_stores (stands : At limit recv.rx pos)
    (counted : recv.bond.placed lane = pos.writes) :
    (recv.placed (some (bondHooks links lane))).stores = recv.stores ++
      (recv.bond.bondPlaced lane (recv.bond.placed lane + 1)).2 := by
  simp only [Recv.placed, bondHooks, stands.writes, counted]

/-- The message is taken with its full effect, and its link moves on. -/
def Accepted (links limit lane now : Nat) (reply : Reply) (recv : Recv Bond)
    (post : Post) (next : Pos) : Prop :=
  ∃ after, take (some (bondHooks links lane)) now reply recv post.msg =
      some (after, .taken post.answer?) ∧
    At limit after.rx next ∧ after.rx.why = recv.rx.why ∧
    after.bond = (afterPost links lane post recv.bond).1 ∧
    after.stores = recv.stores ++ (afterPost links lane post recv.bond).2

/-- A small write is placed. -/
theorem inline_accepted {seq ord roff : Nat} {bytes : List UInt8}
    (limitFits : limit < 2 ^ 63) (stands : At limit recv.rx pos)
    (counted : recv.bond.placed lane = pos.writes)
    (step : (Post.inline seq ord roff bytes).step pos = some next)
    (sound : (Post.inline seq ord roff bytes).Sound links limit lane) :
    Accepted links limit lane now reply recv
      (Post.inline seq ord roff bytes) next := by
  obtain ⟨nonempty, short, within⟩ := sound
  simp only [Post.step] at step
  split at step
  · next number =>
      obtain ⟨idle, same, rfl⟩ := Pos.past_eq step
      have moved : At limit (recv.nextSeq.copy lane roff bytes).rx
          ⟨(pos.seq + 1) % 2 ^ 32, pos.writes, none⟩ :=
        stands.past idle 0 rfl rfl rfl rfl
      refine ⟨_, take_inline (stands.idle idle)
        (stands.seq.trans same.symm) (same ▸ stands.seqFits) (by omega)
        short (stands.inside within),
        stands.past idle 1 rfl rfl rfl rfl, rfl,
        placed_bond moved counted, ?_⟩
      refine (placed_stores moved counted).trans ?_
      simp [Recv.copy, Recv.nextSeq, afterPost, afterCopy, Post.copied?,
        Post.carried?, number, stands.writes]
  · simp at step

/-- A large write's header is taken. -/
theorem write_accepted {seq ord roff : Nat} {bytes : List UInt8}
    (limitFits : limit < 2 ^ 63) (stands : At limit recv.rx pos)
    (step : (Post.write seq ord roff bytes).step pos = some next)
    (sound : (Post.write seq ord roff bytes).Sound links limit lane) :
    Accepted links limit lane now reply recv
      (Post.write seq ord roff bytes) next := by
  obtain ⟨nonempty, small, within⟩ := sound
  obtain ⟨idle, same, number, rfl⟩ := Pos.pastHeader_eq step
  exact ⟨_, take_write (stands.idle idle) (stands.seq.trans same.symm)
    (same ▸ stands.seqFits) (by omega) nonempty small
    (stands.inside within), stands.pastHeader nonempty, rfl, rfl,
    (List.append_nil _).symm⟩

/-- A payload is placed where its header said. -/
theorem payload_accepted {ord roff : Nat} {bytes : List UInt8}
    (stands : At limit recv.rx pos)
    (counted : recv.bond.placed lane = pos.writes)
    (step : (Post.payload ord roff bytes).step pos = some next) :
    Accepted links limit lane now reply recv
      (Post.payload ord roff bytes) next := by
  simp only [Post.step] at step
  split at step
  · next fits =>
      obtain ⟨wanted, number⟩ := fits
      have final := Option.some.inj step
      subst final
      obtain ⟨nonempty, offset, length⟩ := stands.wanted roff bytes wanted
      have moved : At limit ((recv.copy lane recv.rx.wantOff bytes).want
          recv.rx.wantOff 0).rx ⟨pos.seq, pos.writes, none⟩ :=
        ⟨stands.accepted, stands.seq, stands.seqFits, stands.writes,
          fun _ => rfl, by simp⟩
      refine ⟨_, take_payload nonempty length, ?_, rfl,
        placed_bond moved counted, ?_⟩
      · exact ⟨stands.accepted, stands.seq, stands.seqFits, by
          rw [number, ← stands.writes]; rfl, fun _ => rfl, by simp⟩
      · refine (placed_stores moved counted).trans ?_
        simp [Recv.copy, Recv.want, afterPost, afterCopy, Post.copied?,
          Post.carried?, number, stands.writes, offset]
  · simp at step

/-- A fence is answered. -/
theorem fence_accepted {seq value : Nat} (stands : At limit recv.rx pos)
    (step : (Post.fence seq value).step pos = some next)
    (sound : (Post.fence seq value).Sound links limit lane)
    (room : reply = .sent) :
    Accepted links limit lane now reply recv
      (Post.fence seq value) next := by
  obtain ⟨idle, same, rfl⟩ := Pos.past_eq step
  subst room
  refine ⟨recv.nextSeq, ?_, stands.past idle 0 rfl rfl rfl rfl, rfl, rfl,
    (List.append_nil _).symm⟩
  rw [take_fence (stands.idle idle) (stands.seq.trans same.symm)
    (same ▸ stands.seqFits) (lt_trans sound (by decide))
    (by rw [stands.accepted]; simp)]
  rfl

/-- A signal is handed to the bond. -/
theorem bondSignalN_accepted {seq soff value sig count : Nat} {need : Nat → Nat}
    (kind : post = .bondSignalN seq soff value sig count need) (two : 2 ≤ links)
    (most : links ≤ tbBondMax) (limitFits : limit < 2 ^ 63)
    (stands : At limit recv.rx pos) (step : post.step pos = some next)
    (sound : post.Sound links limit lane)
    (handed : ∀ carried, post.carried? = some carried →
      ¬(afterCopy lane post recv.bond).1.Refuses carried.sig carried.off) :
    Accepted links limit lane now reply recv post next := by
  subst kind
  obtain ⟨rfl, aligned, within, valueFits, sigPos, sigFits⟩ := sound
  obtain ⟨idle, same, rfl⟩ := Pos.past_eq step
  have queued : ¬recv.nextSeq.bond.Refuses sig soff := handed _ rfl
  refine ⟨_, (take_bondSignalN (stands.idle idle)
    (stands.seq.trans same.symm) (same ▸ stands.seqFits) (by omega)
    valueFits sigFits sigPos two most rfl aligned
    (stands.inside within)).trans (hand_eq queued),
    stands.past idle 0 rfl rfl rfl rfl, rfl, rfl, rfl⟩

/-- A ready large write's header is taken. -/
theorem bondWriteN_accepted {seq ord roff sig count flags : Nat}
    {bytes : List UInt8} {wait : Nat → Nat}
    (kind : post = .bondWriteN seq ord roff bytes sig count wait flags)
    (two : 2 ≤ links) (most : links ≤ tbBondMax) (limitFits : limit < 2 ^ 63)
    (stands : At limit recv.rx pos) (step : post.step pos = some next)
    (sound : post.Sound links limit lane)
    (ready : readiness lane recv.bond post = .now) :
    Accepted links limit lane now reply recv post next := by
  subst kind
  obtain ⟨rfl, flagged, nonempty, small, within, sigPos, sigFits⟩ := sound
  obtain ⟨idle, same, number, rfl⟩ := Pos.pastHeader_eq step
  refine ⟨recv.nextSeq.want roff bytes.length, ?_,
    stands.pastHeader nonempty, rfl, rfl, (List.append_nil _).symm⟩
  rw [take_bondWriteN (stands.idle idle) (stands.seq.trans same.symm)
    (same ▸ stands.seqFits) (by omega) sigFits sigPos two most rfl flagged
    nonempty small (stands.inside within)]
  have current : (bondHooks count lane).readyN recv.bond sig flags
    (lowCounts count wait) = .now := ready
  rw [current]
  rfl

/-- A ready small write is placed and its signal handed to the bond. -/
theorem bondInlineN_accepted {seq ord roff soff value sig count flags : Nat}
    {bytes : List UInt8} {need wait : Nat → Nat}
    (kind : post =
      .bondInlineN seq ord roff bytes soff value sig count need wait flags)
    (inBond : lane < links) (two : 2 ≤ links) (most : links ≤ tbBondMax)
    (limitFits : limit < 2 ^ 63) (stands : At limit recv.rx pos)
    (counted : recv.bond.placed lane = pos.writes)
    (step : post.step pos = some next) (sound : post.Sound links limit lane)
    (ready : readiness lane recv.bond post = .now)
    (handed : ∀ carried, post.carried? = some carried →
      ¬(afterCopy lane post recv.bond).1.Refuses carried.sig carried.off) :
    Accepted links limit lane now reply recv post next := by
  subst kind
  obtain ⟨rfl, flagged, nonempty, small, within, mine, aligned, inWindow,
    valueFits, sigPos, sigFits⟩ := sound
  simp only [Post.step] at step
  split at step
  · next number =>
      obtain ⟨idle, same, rfl⟩ := Pos.past_eq step
      have moved : At limit (recv.copy lane roff bytes).rx pos := stands
      set placed := (recv.copy lane roff bytes).placed
        (some (bondHooks count lane)) with placedDef
      have bond : placed.bond =
          (recv.bond.bondPlaced lane (recv.bond.placed lane + 1)).1 :=
        placed_bond moved counted
      have stores : placed.stores = recv.stores ++
          ⟨.placed lane ord, ⟨roff, bytes⟩⟩ ::
            (recv.bond.bondPlaced lane (recv.bond.placed lane + 1)).2 := by
        rw [placedDef, placed_stores moved counted]
        simp [Recv.copy, number, stands.writes]
      have queued : ¬placed.nextSeq.bond.Refuses sig soff := by
        change ¬placed.bond.Refuses sig soff
        rw [bond]
        exact handed _ rfl
      have own : lowCounts count need (bondHooks count lane).lane =
          (recv.rx.writesPlaced + 1) % 2 ^ 32 := by
        change lowCounts count need lane = _
        rw [lowCounts, if_pos inBond, mine, number, stands.writes]
      have current : (bondHooks count lane).readyN recv.bond sig flags
        (lowCounts count wait) = .now := ready
      have taken : take (some (bondHooks count lane)) now reply recv
          (Post.bondInlineN seq ord roff bytes soff value sig count need
            wait flags).msg = _ := take_bondInlineN (stands.idle idle)
        (stands.seq.trans same.symm) (same ▸ stands.seqFits) (by omega)
        (by omega) valueFits sigFits sigPos two most rfl flagged nonempty
        small (stands.inside within) aligned (stands.inside inWindow) own
      rw [current] at taken
      refine ⟨_, taken.trans (hand_eq queued),
        stands.past idle 1 rfl rfl rfl rfl, rfl, ?_, ?_⟩
      · change (placed.bond.bondSignal sig (lowCounts count need) soff
          value).1.1 = _
        rw [bond]
        rfl
      · change placed.stores ++ (placed.bond.bondSignal sig
          (lowCounts count need) soff value).1.2 = _
        rw [stores, bond, List.append_assoc]
        rfl
  · simp at step

/-- A ready small write of a two-link bond is placed and its signal handed
over. -/
theorem bondWriteSignal_accepted
    {seq ord roff soff value sig rest flags wait : Nat} {bytes : List UInt8}
    {need : Nat → Nat}
    (kind : post =
      .bondWriteSignal seq ord roff bytes soff value sig need rest flags wait)
    (inBond : lane < links) (limitFits : limit < 2 ^ 63)
    (stands : At limit recv.rx pos)
    (counted : recv.bond.placed lane = pos.writes)
    (step : post.step pos = some next) (sound : post.Sound links limit lane)
    (ready : readiness lane recv.bond post = .now)
    (handed : ∀ carried, post.carried? = some carried →
      ¬(afterCopy lane post recv.bond).1.Refuses carried.sig carried.off) :
    Accepted links limit lane now reply recv post next := by
  subst kind
  obtain ⟨rfl, rfl, flagged, nonempty, small, within, mine, aligned,
    inWindow, valueFits, sigPos, sigFits⟩ := sound
  simp only [Post.step] at step
  split at step
  · next number =>
      obtain ⟨idle, same, rfl⟩ := Pos.past_eq step
      have moved : At limit (recv.nextSeq.copy lane roff bytes).rx
          ⟨(pos.seq + 1) % 2 ^ 32, pos.writes, none⟩ :=
        stands.past idle 0 rfl rfl rfl rfl
      set placed := (recv.nextSeq.copy lane roff bytes).placed
        (some (bondHooks 2 lane)) with placedDef
      have bond : placed.bond =
          (recv.bond.bondPlaced lane (recv.bond.placed lane + 1)).1 :=
        placed_bond moved counted
      have stores : placed.stores = recv.stores ++
          ⟨.placed lane ord, ⟨roff, bytes⟩⟩ ::
            (recv.bond.bondPlaced lane (recv.bond.placed lane + 1)).2 := by
        rw [placedDef, placed_stores moved counted]
        simp [Recv.copy, Recv.nextSeq, number, stands.writes]
      have queued : ¬placed.bond.Refuses sig soff := by
        rw [bond]
        exact handed _ rfl
      have own : need (bondHooks 2 lane).lane % 2 ^ 32 =
          (recv.rx.writesPlaced + 1) % 2 ^ 32 := by
        change need lane % 2 ^ 32 = _
        rw [mine, number, stands.writes]
      have current : (bondHooks 2 lane).ready recv.bond sig flags
        (wait % 2 ^ 32) = .now := ready
      have taken : take (some (bondHooks 2 lane)) now reply recv
          (Post.bondWriteSignal seq ord roff bytes soff value sig need 0
            flags wait).msg = _ := take_bondWriteSignal (stands.idle idle)
        (stands.seq.trans same.symm) (same ▸ stands.seqFits) (by omega)
        (by omega) valueFits sigFits sigPos rfl inBond flagged nonempty
        small (stands.inside within) aligned (stands.inside inWindow) own
      rw [current] at taken
      refine ⟨_, taken.trans (hand_eq queued),
        stands.past idle 1 rfl rfl rfl rfl, rfl, ?_, ?_⟩
      · change (placed.bond.bondSignal sig (lowCounts 2 need) soff
          value).1.1 = _
        rw [bond]
        rfl
      · change placed.stores ++ (placed.bond.bondSignal sig
          (lowCounts 2 need) soff value).1.2 = _
        rw [stores, bond, List.append_assoc]
        rfl
  · simp at step

/-- A bonded message that fits the position of its link, is sound and ready, and
whose signal is not refused, is taken with its full effect. -/
theorem take_accepts (recv : Recv Bond) (now : Nat)
    (inBond : lane < links) (two : 2 ≤ links)
    (most : links ≤ tbBondMax) (limitFits : limit < 2 ^ 63)
    (stands : At limit recv.rx pos)
    (counted : recv.bond.placed lane = pos.writes)
    (step : post.step pos = some next) (sound : post.Sound links limit lane)
    (ready : readiness lane recv.bond post = .now)
    (room : post.answer?.isSome → reply = .sent)
    (handed : ∀ carried, post.carried? = some carried →
      ¬(afterCopy lane post recv.bond).1.Refuses carried.sig carried.off) :
    Accepted links limit lane now reply recv post next := by
  cases post with
  | inline seq ord roff bytes =>
      exact inline_accepted limitFits stands counted step sound
  | write seq ord roff bytes =>
      exact write_accepted limitFits stands step sound
  | payload ord roff bytes =>
      exact payload_accepted stands counted step
  | fence seq value =>
      exact fence_accepted stands step sound (room rfl)
  | bondSignalN seq soff value sig count need =>
      exact bondSignalN_accepted rfl two most limitFits stands step sound handed
  | bondWriteN seq ord roff bytes sig count wait flags =>
      exact bondWriteN_accepted rfl two most limitFits stands step sound ready
  | bondInlineN seq ord roff bytes soff value sig count need wait flags =>
      exact bondInlineN_accepted rfl inBond two most limitFits stands counted
        step sound ready handed
  | bondWriteSignal seq ord roff bytes soff value sig need rest flags wait =>
      exact bondWriteSignal_accepted rfl inBond limitFits stands counted step
        sound ready handed
  | _ => simp [Post.Sound] at sound

/-- Why a sound message that fits its link's position may poison the link: it
is out of the signal window, it waited too long, or its answer was refused. -/
def Expired (lane now : Nat) (reply : Reply) (recv : Recv Bond) (post : Post) :
    Prop :=
  readiness lane recv.bond post = .never ∨
    (post.answer?.isSome ∧ reply = .refused) ∨
    (readiness lane recv.bond post = .notYet ∧ recv.rx.stalled ≠ 0 ∧
      tbStallNs < now - recv.rx.stalled)

/-- A receiving end in which only a stall timer or a poison changed. -/
def Timer (recv after : Recv Bond) : Prop :=
  ∃ stalled why, after =
    { recv with rx := { recv.rx with stalled := stalled, why := why } }

theorem fail_holds (recv : Recv Bond) (why : String) :
    ∃ after, recv.fail why = some (after, .failed) ∧ Timer recv after :=
  ⟨_, rfl, recv.rx.stalled, _, rfl⟩

theorem stall_holds (reply : Reply) (why : String)
    (waits : readiness lane recv.bond post = .notYet) :
    ∃ after result, recv.stall now why = some (after, result) ∧
      (∀ answer, result ≠ .taken answer) ∧ Timer recv after ∧
      (result = .failed → Expired lane now reply recv post) := by
  unfold Recv.stall
  split
  · exact ⟨_, _, rfl, by simp, ⟨now, recv.rx.why, rfl⟩, by simp⟩
  · next running =>
      split
      · next late =>
          exact ⟨_, _, rfl, by simp, ⟨recv.rx.stalled, _, rfl⟩,
            fun _ => Or.inr (Or.inr ⟨waits, running, late⟩)⟩
      · exact ⟨_, _, rfl, by simp,
          ⟨recv.rx.stalled, recv.rx.why, rfl⟩, by simp⟩

/-- A guard's answer decides between failing, waiting and going on. -/
theorem guard_holds {now : Nat} {reply : Reply} {ready : Ready}
    {onward : Option (Recv Bond × Taken)} (never stalled : String)
    (same : readiness lane recv.bond post = ready) (closed : ready ≠ .now) :
    ∃ after result,
      (match ready with
        | .never => recv.fail never
        | .notYet => recv.stall now stalled
        | .now => onward) = some (after, result) ∧
      (∀ answer, result ≠ .taken answer) ∧ Timer recv after ∧
      (result = .failed → Expired lane now reply recv post) := by
  cases ready with
  | now => exact absurd rfl closed
  | notYet => exact stall_holds reply stalled same
  | never =>
      obtain ⟨after, failed, timer⟩ := fail_holds recv never
      exact ⟨after, _, failed, by simp, timer, fun _ => Or.inl same⟩

/-- A bonded message that is not ready, or whose answer has no room, stays where
it is. -/
theorem take_holds (recv : Recv Bond) (now : Nat)
    (two : 2 ≤ links) (inBond : lane < links)
    (most : links ≤ tbBondMax) (limitFits : limit < 2 ^ 63)
    (stands : At limit recv.rx pos)
    (step : post.step pos = some next) (sound : post.Sound links limit lane)
    (held : readiness lane recv.bond post ≠ .now ∨
      (post.answer?.isSome ∧ reply ≠ .sent)) :
    ∃ after result,
      take (some (bondHooks links lane)) now reply recv post.msg =
        some (after, result) ∧
      (∀ answer, result ≠ .taken answer) ∧ Timer recv after ∧
      (result = .failed → Expired lane now reply recv post) := by
  cases post with
  | fence seq value =>
      obtain ⟨idle, same, rfl⟩ := Pos.past_eq step
      have full : reply ≠ .sent := by
        rcases held with closed | ⟨-, full⟩
        · exact absurd rfl closed
        · exact full
      rw [take_fence (stands.idle idle) (stands.seq.trans same.symm)
        (same ▸ stands.seqFits) (lt_trans sound (by decide))
        (by rw [stands.accepted]; simp)]
      cases reply with
      | sent => exact absurd rfl full
      | noRoom =>
          exact ⟨_, _, rfl, by simp,
            ⟨recv.rx.stalled, recv.rx.why, rfl⟩, by simp⟩
      | refused =>
          exact ⟨_, _, rfl, by simp, ⟨recv.rx.stalled, _, rfl⟩,
            fun _ => Or.inr (Or.inl ⟨rfl, rfl⟩)⟩
  | bondWriteN seq ord roff bytes sig count wait flags =>
      obtain ⟨rfl, flagged, nonempty, small, within, sigPos, sigFits⟩ := sound
      obtain ⟨idle, same, number, rfl⟩ := Pos.pastHeader_eq step
      have closed := held.resolve_right (by simp [Post.answer?])
      rw [take_bondWriteN (stands.idle idle) (stands.seq.trans same.symm)
        (same ▸ stands.seqFits) (by omega) sigFits sigPos two most rfl flagged
        nonempty small (stands.inside within)]
      exact guard_holds _ _ rfl closed
  | bondInlineN seq ord roff bytes soff value sig count need wait flags =>
      obtain ⟨rfl, flagged, nonempty, small, within, mine, aligned, inWindow,
        valueFits, sigPos, sigFits⟩ := sound
      have closed := held.resolve_right (by simp [Post.answer?])
      simp only [Post.step] at step
      split at step
      · next number =>
          obtain ⟨idle, same, rfl⟩ := Pos.past_eq step
          have own : lowCounts count need (bondHooks count lane).lane =
              (recv.rx.writesPlaced + 1) % 2 ^ 32 := by
            change lowCounts count need lane = _
            rw [lowCounts, if_pos inBond, mine, number, stands.writes]
          rw [take_bondInlineN (stands.idle idle)
            (stands.seq.trans same.symm) (same ▸ stands.seqFits) (by omega)
            (by omega) valueFits sigFits sigPos two most rfl flagged nonempty
            small (stands.inside within) aligned (stands.inside inWindow) own]
          exact guard_holds _ _ rfl closed
      · simp at step
  | bondWriteSignal seq ord roff bytes soff value sig need rest flags wait =>
      obtain ⟨rfl, rfl, flagged, nonempty, small, within, mine, aligned,
        inWindow, valueFits, sigPos, sigFits⟩ := sound
      have closed := held.resolve_right (by simp [Post.answer?])
      simp only [Post.step] at step
      split at step
      · next number =>
          obtain ⟨idle, same, rfl⟩ := Pos.past_eq step
          have own : need (bondHooks 2 lane).lane % 2 ^ 32 =
              (recv.rx.writesPlaced + 1) % 2 ^ 32 := by
            change need lane % 2 ^ 32 = _
            rw [mine, number, stands.writes]
          rw [take_bondWriteSignal (stands.idle idle)
            (stands.seq.trans same.symm) (same ▸ stands.seqFits) (by omega)
            (by omega) valueFits sigFits sigPos rfl inBond flagged nonempty
            small (stands.inside within) aligned (stands.inside inWindow) own]
          exact guard_holds _ _ rfl closed
      · simp at step
  | _ => simp [readiness, Post.answer?] at held

end

/-! ## The receiving end -/

section

variable {limit links lane : Nat} {reply : Reply} {receiver : Receiver}
variable {pos next : Pos} {post : Post}

theorem Timer.waits {after : Recv Bond} (timer : Timer (receiver.recv lane) after) :
    Waits lane receiver (receiver.put lane after) := by
  obtain ⟨stalled, why, rfl⟩ := timer
  refine ⟨?_, ?_, rfl, rfl⟩
  · intro limit pos stands
    simpa [Receiver.put, Receiver.recv] using stands.timer stalled why
  · intro other different
    simp [Receiver.put, different]

/-- The next message of a link that is not poisoned is taken when it is ready
and its answer has room. -/
theorem deliver_taken (now : Nat) (inBond : lane < links) (two : 2 ≤ links)
    (most : links ≤ tbBondMax) (limitFits : limit < 2 ^ 63)
    (stands : At limit (receiver.lanes lane) pos)
    (counted : receiver.bond.placed lane = pos.writes)
    (step : post.step pos = some next) (sound : post.Sound links limit lane)
    (alive : (receiver.lanes lane).why = none)
    (ready : readiness lane receiver.bond post = .now)
    (room : post.answer?.isSome → reply = .sent)
    (handed : ∀ carried, post.carried? = some carried →
      ¬(afterCopy lane post receiver.bond).1.Refuses carried.sig carried.off) :
    ∃ after, receiver.deliver links lane now reply post.msg =
        some (after, .taken post.answer?) ∧
      Takes limit links lane receiver post next after := by
  obtain ⟨after, taken, moved, why, bond, stores⟩ :=
    take_accepts (receiver.recv lane) now inBond two most
      limitFits stands counted step sound ready room handed
  refine ⟨receiver.put lane { after with rx := { after.rx with stalled := 0 } },
    ?_, ?_⟩
  · have fresh : (receiver.recv lane).rx.why = none := alive
    rw [Receiver.deliver, drainOne, if_neg (by simp [fresh]), taken]
    rfl
  · refine ⟨?_, ?_, ?_, bond, stores⟩
    · simpa [Receiver.put] using moved.timer 0 after.rx.why
    · intro other different
      simp [Receiver.put, different]
    · simpa [Receiver.put, Receiver.recv] using why

/-- Otherwise the message stays on the wire. -/
theorem deliver_held (now : Nat) (inBond : lane < links) (two : 2 ≤ links)
    (most : links ≤ tbBondMax) (limitFits : limit < 2 ^ 63)
    (stands : At limit (receiver.lanes lane) pos)
    (step : post.step pos = some next) (sound : post.Sound links limit lane)
    (held : (receiver.lanes lane).why ≠ none ∨
      readiness lane receiver.bond post ≠ .now ∨
      (post.answer?.isSome ∧ reply ≠ .sent)) :
    ∃ after result, receiver.deliver links lane now reply post.msg =
        some (after, result) ∧
      (∀ answer, result ≠ .taken answer) ∧ Waits lane receiver after ∧
      (result = .failed → (receiver.lanes lane).why ≠ none ∨
        Expired lane now reply (receiver.recv lane) post) := by
  by_cases alive : (receiver.lanes lane).why = none
  · obtain ⟨after, result, taken, unanswered, timer, expired⟩ :=
      take_holds (receiver.recv lane) now two inBond most
        limitFits stands step sound (held.resolve_left (by simp [alive]))
    refine ⟨receiver.put lane after, result, ?_, unanswered, timer.waits,
      fun failed => Or.inr (expired failed)⟩
    have fresh : (receiver.recv lane).rx.why = none := alive
    rw [Receiver.deliver, drainOne, if_neg (by simp [fresh]), taken]
    cases result with
    | taken answer => exact absurd rfl (unanswered answer)
    | notYet => rfl
    | failed => rfl
  · refine ⟨receiver.put lane (receiver.recv lane), .failed, ?_, by simp,
      Timer.waits ⟨_, _, rfl⟩, fun _ => Or.inl alive⟩
    have poisoned : (receiver.recv lane).rx.why ≠ none := alive
    rw [Receiver.deliver, drainOne, if_pos poisoned]
    rfl

end

end Fabric
end Mcdma
