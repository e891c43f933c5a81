import Mcdma.Link.PairSafety

/-!
# A link does what its calls say

The window of one end, seen from the calls of the other: the stores so far are
the effects of a prefix of the calls, so a signal's word comes behind every byte
of its call and of the calls before, a link with nothing left in flight shows
the calls applied one after another, and a fence returns only then.
-/

namespace Mcdma
namespace Link

/-- An element of a flattened list belongs to one of the lists. -/
theorem flatMap_split {source target : Type*} {image : source → List target}
    {all : List source} {front back : List target} {item : target}
    (split : all.flatMap image = front ++ item :: back) :
    ∃ before one after left right, all = before ++ one :: after ∧
      image one = left ++ item :: right ∧
      front = before.flatMap image ++ left := by
  induction all generalizing front with
  | nil => simp at split
  | cons first rest inductionHypothesis =>
      rw [List.flatMap_cons] at split
      rcases List.append_eq_append_iff.mp split with
        ⟨later, same, behind⟩ | ⟨later, same, behind⟩
      · obtain ⟨before, one, after, left, right, parts, mine, prior⟩ :=
          inductionHypothesis behind
        refine ⟨first :: before, one, after, left, right, by rw [parts]; rfl,
          mine, ?_⟩
        rw [same, prior, List.flatMap_cons, List.append_assoc]
      · cases later with
        | nil =>
            obtain ⟨before, one, after, left, right, parts, mine, prior⟩ :=
              inductionHypothesis (show rest.flatMap image = [] ++ item :: back
                from behind.symm)
            refine ⟨first :: before, one, after, left, right,
              by rw [parts]; rfl, mine, ?_⟩
            rw [List.flatMap_cons, List.append_assoc, ← prior, same,
              List.append_nil, List.append_nil]
        | cons head tail =>
            obtain ⟨rfl, -⟩ := List.cons.inj behind
            exact ⟨[], first, rest, front, tail, rfl, same, rfl⟩

/-- A word among a call's effects is its last effect, behind its bytes. -/
theorem Call.word_last {max : Nat} (pos : 0 < max) {call : Call}
    {left right : List Effect} {patch : Patch}
    (split : call.effects max = left ++ .word patch :: right) :
    call.word? = some patch ∧
      ∀ window, Patch.replay window (patchesOf left) = call.copy window := by
  obtain ⟨front, same, copies⟩ := call.effects_eq pos
  rw [same] at split
  rcases List.append_eq_append_iff.mp split with
    ⟨later, whole, behind⟩ | ⟨later, whole, behind⟩
  · have alone : later = [] ∧ call.word? = some patch := by
      cases call <;> cases later <;> simp_all [Call.last, Call.word?]
    rw [whole, alone.1, List.append_nil, patchesOf_bytes]
    exact ⟨alone.2, copies⟩
  · cases later with
    | nil =>
        have word : call.word? = some patch := by
          cases call <;> simp_all [Call.last, Call.word?]
        rw [List.append_nil] at whole
        rw [← whole, patchesOf_bytes]
        exact ⟨word, copies⟩
    | cons head tail =>
        obtain ⟨rfl, -⟩ := List.cons.inj behind
        have member : Effect.word patch ∈ front.map Effect.bytes := by
          rw [whole]
          simp
        simp at member

section

variable {sender receiver : End} {taken flying : List Post}
variable {cells : List Packet}

/-- What a receiver stored, as the effects of the messages it took. -/
theorem Carries.stores_effects
    (carries : Carries sender receiver taken flying cells) :
    receiver.recv.stores.map (fun store => (store.tag.isWord, store.patch)) =
      (taken.flatMap Post.effects).filterMap Effect.store? := by
  have plain : ∀ post ∈ taken, post.Plain receiver.range := by
    intro post member
    refine (carries.plain post ?_).1
    rw [carries.log]
    exact List.mem_append_left _ member
  rw [carries.stores]
  clear carries
  induction taken with
  | nil => rfl
  | cons post rest inductionHypothesis =>
      rw [List.flatMap_cons, List.flatMap_cons, List.map_append,
        List.filterMap_append,
        Post.stores_effects (plain post (List.mem_cons_self ..)),
        inductionHypothesis fun other member =>
          plain other (List.mem_cons_of_mem _ member)]

theorem Carries.patches_effects
    (carries : Carries sender receiver taken flying cells) :
    receiver.recv.stores.map Store.patch =
      patchesOf (taken.flatMap Post.effects) := by
  rw [patchesOf, ← carries.stores_effects, List.map_map]
  rfl

/-- The effects stored are the first of the calls'. -/
theorem Carries.effects_split
    (carries : Carries sender receiver taken flying cells) :
    sender.calls.flatMap (Call.effects sender.flow.max) =
      taken.flatMap Post.effects ++ (flying.flatMap Post.effects ++
        sender.todo.flatMap Section.effects) := by
  rw [← carries.effects, carries.log, List.flatMap_append, List.append_assoc]

/-- With no effect left the window shows the calls one after another. -/
theorem Carries.applied (carries : Carries sender receiver taken flying cells)
    (landed : flying.flatMap Post.effects = []) (posted : sender.todo = [])
    (window : Mem) :
    Patch.replay window (receiver.recv.stores.map Store.patch) =
      Call.applyAll window sender.calls := by
  have split := carries.effects_split
  rw [landed, posted, List.flatMap_nil, List.append_nil, List.append_nil] at split
  rw [carries.patches_effects, ← split]
  exact Call.replay_flatMap carries.max_pos window sender.calls

/-- A word was stored behind every byte of its call and of those before. -/
theorem Carries.word_behind
    (carries : Carries sender receiver taken flying cells)
    {prior later : List Store} {store : Store}
    (stores : receiver.recv.stores = prior ++ store :: later)
    (word : store.tag.isWord = true) :
    ∃ before call after, sender.calls = before ++ call :: after ∧
      call.word? = some store.patch ∧
      ∀ window, Patch.replay window (prior.map Store.patch) =
        call.copy (Call.applyAll window before) := by
  have seen := carries.stores_effects
  rw [stores, List.map_append, List.map_cons, word] at seen
  obtain ⟨front, back, split, fronts, backs⟩ :=
    List.filterMap_eq_append_iff.mp seen.symm
  obtain ⟨quiet, effect, rest, parts, none, mine, -⟩ :=
    List.filterMap_eq_cons_iff.mp backs
  have isWord : effect = .word store.patch := by
    cases effect <;> simp_all [Effect.store?]
  have calls := carries.effects_split
  rw [split, parts, isWord] at calls
  have whole : sender.calls.flatMap (Call.effects sender.flow.max) =
      (front ++ quiet) ++ Effect.word store.patch :: (rest ++
        (flying.flatMap Post.effects ++
          sender.todo.flatMap Section.effects)) := by
    rw [calls]
    simp
  obtain ⟨before, call, after, left, right, places, mine, prefixed⟩ :=
    flatMap_split whole
  obtain ⟨last, copies⟩ := Call.word_last carries.max_pos mine
  refine ⟨before, call, after, places, last, fun window => ?_⟩
  have patches : prior.map Store.patch = patchesOf (front ++ quiet) := by
    have silent : quiet.filterMap Effect.store? = [] :=
      List.filterMap_eq_nil_iff.mpr none
    rw [patchesOf, List.filterMap_append, silent, List.append_nil, fronts,
      List.map_map]
    rfl
  rw [patches, prefixed, patchesOf_append, Patch.replay_append,
    Call.replay_flatMap carries.max_pos, copies]

/-- A fence that may return has no effect of its end left in flight. -/
theorem Fences.nothing_left {heard coming : List Post} {mine : Nat}
    (fences : Fences sender receiver taken heard)
    (log : sender.log = taken ++ flying)
    (came : receiver.log = heard ++ coming)
    (waits : sender.waits = some mine)
    (done : fenceDone sender.recv.rx.fenceAcked mine = true) :
    flying.flatMap Post.effects = [] := by
  have all := fences.heard_all log came waits done
  have most := fences.heard_le log came
  have asked : sender.asked.length = (taken.filterMap Post.answer?).length +
      (flying.filterMap Post.answer?).length := by
    rw [End.asked, log, List.filterMap_append, List.length_append]
  have none : flying.filterMap Post.answer? = [] :=
    List.length_eq_zero_iff.mp (by omega)
  have closing := (fences.waiting mine waits).2.2.2
  rw [log, List.flatMap_append] at closing
  by_contra some
  rw [List.getLast?_append_of_ne_nil _ some] at closing
  obtain ⟨post, member, mine⟩ :=
    List.mem_flatMap.mp (List.mem_of_getLast? closing)
  have silent := List.filterMap_eq_nil_iff.mp none post member
  cases post <;> simp [Post.effects, Post.answer?] at mine silent

/-- Nothing in flight means no packet in the ring and none behind it. -/
theorem Carries.landed (carries : Carries sender receiver taken flying cells)
    (out : sender.out = [])
    (empty : receiver.ring.filled = receiver.ring.used) : flying = [] := by
  have filled := carries.holds.filled
  have none : cells = [] := List.length_eq_zero_iff.mp (by omega)
  have flight := carries.flight
  rw [none, out] at flight
  cases flying with
  | nil => rfl
  | cons post others =>
      have nonempty : post.wire ≠ [] := by
        refine (carries.plain post ?_).2.2
        rw [carries.log]
        simp
      have split := (firstMessage_packetize nonempty (Nat.le_refl _)
        (packetsOfAll others)).1
      rw [show packetize post.wire.length post.wire ++ packetsOfAll others = []
        from flight.symm] at split
      simp [firstMessage] at split

/-- A message has as many packets as its bytes need. -/
theorem length_packetsOf {content : List UInt8} (nonempty : content ≠ []) :
    (packetsOf content).length = packets content.length := by
  obtain ⟨first, bytes⟩ :=
    firstMessage_packetize nonempty (Nat.le_refl _) []
  rw [List.append_nil] at first
  have counted := (firstMessage_length (packetsOf_shaped content) first).2
  rwa [bytes] at counted

/-- The oldest message in flight stands whole at the ring's head once as many
packets have landed as it has. -/
theorem Carries.first_of_length {post : Post} {others : List Post}
    (carries : Carries sender receiver taken (post :: others) cells)
    (long : (packetsOf post.wire).length ≤ cells.length) :
    firstMessage cells ≠ none := by
  have nonempty : post.wire ≠ [] := by
    refine (carries.plain post ?_).2.2
    rw [carries.log]
    simp
  have flight : cells ++ sender.out =
      packetsOf post.wire ++ packetsOfAll others := carries.flight
  obtain ⟨more, whole⟩ := List.prefix_of_prefix_length_le
    (List.prefix_append _ _) (flight ▸ List.prefix_append _ _) long
  rw [← whole]
  have first := (firstMessage_packetize nonempty (Nat.le_refl _) more).1
  exact first.symm ▸ Option.some_ne_none _

/-- A full ring has a whole message at its head. -/
theorem Carries.first_of_full
    (carries : Carries sender receiver taken flying cells)
    (full : receiver.ring.slots ≤ cells.length) : firstMessage cells ≠ none := by
  have wide := carries.wide
  cases flying with
  | nil =>
      have flight := congrArg List.length carries.flight
      simp only [packetsOfAll, List.flatMap_nil, List.length_append,
        List.length_nil] at flight
      omega
  | cons post others =>
      have mine : post ∈ sender.log := by
        rw [carries.log]
        simp
      obtain ⟨-, few, nonempty⟩ := carries.plain post mine
      refine carries.first_of_length ?_
      rw [length_packetsOf nonempty]
      omega

end

/-- One direction of a link does what its sender's calls say. -/
structure Refines (sender receiver : End) : Prop where
  /-- A signal's word comes behind every byte of every earlier call. -/
  words : ∀ prior store later,
    receiver.recv.stores = prior ++ store :: later →
    store.tag.isWord = true →
    ∃ before call after, sender.calls = before ++ call :: after ∧
      call.word? = some store.patch ∧
      ∀ window, Patch.replay window (prior.map Store.patch) =
        call.copy (Call.applyAll window before)
  /-- With nothing left to post or to take the calls are applied. -/
  final : sender.todo = [] → sender.out = [] →
    receiver.ring.filled = receiver.ring.used →
    ∀ window, Patch.replay window (receiver.recv.stores.map Store.patch) =
      Call.applyAll window sender.calls
  /-- A fence returns only when the calls before it are applied. -/
  fenced : ∀ mine, sender.waits = some mine →
    fenceDone sender.recv.rx.fenceAcked mine = true →
    ∀ window, Patch.replay window (receiver.recv.stores.map Store.patch) =
      Call.applyAll window sender.calls
  /-- Every whole message is taken, a fence once its answer has room. -/
  takes : ∀ now found, receiver.ring.next? = some found →
    receiver.flow.hasRoom 1 1 true = true →
    (receiver.take now found).isSome = true
  /-- No message in flight is larger than the ring that takes it. -/
  small : receiver.ring.next? = none →
    receiver.ring.filled - receiver.ring.used < receiver.ring.slots
  /-- The link never fails. -/
  sane : receiver.recv.rx.why = none

theorem Carries.refines {sender receiver : End}
    {sent flying came coming : List Post} {cells : List Packet}
    (out : Carries sender receiver sent flying cells)
    (log : receiver.log = came ++ coming)
    (asks : Fences sender receiver sent came) : Refines sender receiver where
  words := fun _ _ _ stores word => out.word_behind stores word
  final := fun posted none empty => out.applied
    (by rw [out.landed none empty]; rfl) posted
  fenced := fun mine waits done => out.applied
    (asks.nothing_left out.log log waits done) (asks.waiting mine waits).2.2.1
  takes := by
    intro now found next room
    obtain ⟨post, others, rest, rfl, head⟩ := out.head next
    obtain ⟨recv, pos, -, -, took⟩ := out.takes now head fun _ => room
    rw [took]
    rfl
  small := by
    intro none
    by_contra full
    have filled := out.holds.filled
    obtain ⟨⟨message, rest⟩, first⟩ :=
      Option.ne_none_iff_exists'.mp (out.first_of_full (by omega))
    rw [out.holds.next?_some first] at none
    simp at none
  sane := out.sane

/-- Two ends running any calls over one link: each window shows the other end's
calls as they were made. -/
theorem single_link_refines (cfg : PairCfg) {pair : Pair}
    (reach : (Pair.machine cfg).Reach pair) :
    Refines pair.here pair.there ∧ Refines pair.there pair.here := by
  obtain ⟨sent, flying, cells, came, coming, others, out, back, asks, asked⟩ :=
    (Pair.Inv.ofReach reach).holds
  exact ⟨out.refines back.log asks, back.refines out.log asked⟩

/-- Two ends of sixteen packets each way, with windows of 64 bytes. -/
def smallPair : PairCfg where
  depth := fun _ => 16
  slots := fun _ => 16
  range := fun _ => (0, 64)
  deep := sixteen_enough
  wide := sixteen_enough
  fits := fun _ => by decide

/-- A write, a signal and a fence, each taken as it lands. -/
def fencedRun : List (Bool × Pair.Act) :=
  [(false, .call (.write ⟨fun place => UInt8.ofNat place, 64, 64, by decide⟩
      4 8 3)), (false, .post), (true, .land), (true, .take 0),
    (false, .call (.signal 16 7)), (false, .post), (true, .land),
    (true, .take 0), (false, .call .fence), (false, .post), (true, .land),
    (true, .take 0), (false, .land), (false, .take 0)]

theorem fencedRun_isSome : ((Pair.machine smallPair).run
    (Pair.machine smallPair).start fencedRun).isSome = true := by
  decide +kernel

/-- Behind the run the fence may return and the window shows the calls. -/
theorem single_link_refines_fenced : ∃ pair,
    (Pair.machine smallPair).Reach pair ∧ pair.here.calls.length = 3 ∧
      pair.here.waits = some 1 ∧
      fenceDone pair.here.recv.rx.fenceAcked 1 = true ∧
      Refines pair.here pair.there := by
  refine ⟨_, Machine.Reach.get fencedRun_isSome, ?_, ?_, ?_,
    (single_link_refines smallPair (Machine.Reach.get fencedRun_isSome)).1⟩
  · decide +kernel
  · decide +kernel
  · decide +kernel

end Link
end Mcdma
