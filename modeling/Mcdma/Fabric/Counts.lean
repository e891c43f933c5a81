import Mcdma.Fabric.Progress

/-!
# Wait counts in 32 bits

A message of an N-link bond carries, for each link, the low half of the count of
writes it must wait for, and 0 where it waits for none.  `bond_ready_n` compares
the halves, which is the comparison of the counts as long as they are less than
2^31 apart; but it compares a 0 as well, and takes it for a count once the link
has placed 2^31 writes.
-/

namespace Mcdma
namespace Fabric

open Link

/-- The counts an N-link message waits for, as its sender means them. -/
def ordinals? : Post → Option (Nat → Nat)
  | .bondWriteN _ _ _ _ _ _ wait _ => some wait
  | .bondInlineN _ _ _ _ _ _ _ _ _ wait _ => some wait
  | _ => none

/-- The counts an N-link message brings to `bond_ready_n`. -/
def waits? : Post → Option (Nat → Nat)
  | .bondWriteN _ _ _ _ _ links wait _ => some (lowCounts links wait)
  | .bondInlineN _ _ _ _ _ _ _ links _ wait _ => some (lowCounts links wait)
  | _ => none

section

variable {cfg : Config} {sys : Sys} {lane : Nat} {post : Post}
variable {rest : List Post} {ord wait : Nat → Nat}

/-- An N-link message waits for its ordinals, cut to 32 bits. -/
theorem waits_eq (sound : post.Sound cfg.links cfg.remoteLength lane)
    (means : ordinals? post = some ord) (brings : waits? post = some wait) :
    wait = lowCounts cfg.links ord ∧
      ∃ guard, post.guard? lane = some guard ∧ guard.wait = ord := by
  cases post <;> simp only [ordinals?, waits?, Option.some.injEq,
    reduceCtorEq] at means brings
  all_goals
    subst means brings
    obtain ⟨rfl, -⟩ := sound
    exact ⟨rfl, _, rfl, rfl⟩

/-- A wait of 0 is taken for a count. -/
theorem diff32_zero_nonneg_iff (count : Nat) :
    0 ≤ diff32 count 0 ↔ count % 2 ^ 32 < 2 ^ 31 := by
  unfold diff32 Int.bmod
  norm_num
  omega

/-- The comparison on a link is that of the 64-bit counts exactly when the link
has a count to compare, or its own reads as less than 2^31. -/
theorem wait_counts_keep_meaning (reach : ReachNear cfg sys)
    (near : sys.Near cfg) (below : lane < cfg.links)
    (wire : sys.wire lane = post :: rest) (means : ordinals? post = some ord)
    (brings : waits? post = some wait) :
    (∀ other < cfg.links, sys.bond.ReadyOn wait other ↔
      ord other = 0 ∨ ord other ≤ sys.bond.placed other) ↔
    ∀ other < cfg.links, ord other = 0 →
      sys.bond.placed other % 2 ^ 32 < 2 ^ 31 := by
  have sound := (reach.inv.core.lanes lane below).sound post
    (by simp [Sys.queue, wire])
  obtain ⟨rfl, guard, has, same⟩ := waits_eq sound means brings
  have close := (near lane below post (by rw [wire]; rfl)).waits guard has
  rw [same] at close
  have test : ∀ other < cfg.links,
      (sys.bond.ReadyOn (lowCounts cfg.links ord) other ↔
        0 ≤ diff32 (sys.bond.placed other) (ord other)) := by
    intro other inBond
    rw [Bond.ReadyOn, lowCounts, if_pos inBond, diff32_mod]
  constructor
  · intro decides other inBond none
    have met := (decides other inBond).mpr (Or.inl none)
    rw [test other inBond, none, diff32_zero_nonneg_iff] at met
    exact met
  · intro small other inBond
    rw [test other inBond]
    by_cases none : ord other = 0
    · rw [none, diff32_zero_nonneg_iff]
      exact ⟨fun _ => Or.inl rfl, fun _ => small other inBond none⟩
    · rw [(close other inBond none).diff32_nonneg_iff]
      exact ⟨Or.inr, fun either => either.resolve_left none⟩

/-- A write on the first link, and one over it with its signal on the second. -/
def signalAhead : List Action :=
  [.call (.write (eight 1 0 0)), goOn, goOn, .transmit 0,
    .call (.writeSignal (eight 2 64 4) ⟨16, 7⟩), goOn, goOn, .transmit 1]

theorem signalAhead_runs :
    ((Sys.init trio).run trio signalAhead).isSome = true := by
  decide +kernel

/-- The later one waits for the write of the first link, which is not placed
yet. -/
theorem wait_counts_keep_meaning_signalAhead :
    ∃ post rest ord wait,
      (((Sys.init trio).run trio signalAhead).get signalAhead_runs).wire 1 =
        post :: rest ∧ ordinals? post = some ord ∧ waits? post = some wait ∧
      (ord 0 = 1 ∧ ¬ (((Sys.init trio).run trio signalAhead).get
        signalAhead_runs).bond.ReadyOn wait 0) ∧
      ∀ other < trio.links,
        (((Sys.init trio).run trio signalAhead).get
          signalAhead_runs).bond.ReadyOn wait other ↔ ord other = 0 ∨ ord other ≤
          (((Sys.init trio).run trio signalAhead).get
            signalAhead_runs).bond.placed other := by
  have few : Sys.Few trio
      (((Sys.init trio).run trio signalAhead).get signalAhead_runs) := by
    unfold Sys.Few
    decide +kernel
  have reach := (Reach.get signalAhead_runs).near few
  refine ⟨_, _, _, _, rfl, rfl, rfl, ⟨by decide +kernel, by decide +kernel⟩, ?_⟩
  refine (wait_counts_keep_meaning reach (reach.inv.core.near few)
    (show 1 < trio.links by decide) rfl rfl rfl).mpr ?_
  decide +kernel

/-! ## A link with 2^31 writes -/

/-- The sender goes on and finds room on the first link only. -/
def onFirst : Oracle where
  rounds := [⟨fun _ => 0, fun lane => decide (lane = 0), true⟩]

/-- A bond at rest after `count` writes of the same eight bytes, all on the
first link. -/
structure Steady (count : Nat) (sys : Sys) : Prop where
  reach : ReachNear trio sys
  idle : sys.pc = .run .done
  drained : sys.Drained trio
  healthy : sys.Healthy trio
  placed : sys.bond.placed 0 = count
  txSignal : sys.peer.txSignal = 0
  table : ∃ ord, sys.peer.table = ⟨[⟨0, 8, ord, false⟩], none⟩ ∧
    ord 0 ≠ 0 ∧ ord 1 = 0 ∧ ord 2 = 0

/-- An overlapping write stays on the first link. -/
theorem bondPrepare_steady {peer : Peer} {ord : Nat → Nat}
    (table : peer.table = ⟨[⟨0, 8, ord, false⟩], none⟩)
    (first : ord 0 ≠ 0) (second : ord 1 = 0) (third : ord 2 = 0) :
    bondPrepare trio peer 0 8 = ({ peer with affinity := some 0 }, false) := by
  have overlap : bondOverlap peer.table 0 8 =
      (fun lane => max (ord lane) 0, false) := by
    rw [table]
    rfl
  have lanes : (List.range trio.links).filter
      (fun lane => decide (max (ord lane) 0 ≠ 0)) = [0] := by
    change [0, 1, 2].filter (fun lane => decide (max (ord lane) 0 ≠ 0)) = [0]
    simp [first, second, third]
  unfold bondPrepare
  simp only [overlap]
  rw [lanes]
  rfl

theorem run_prepare_steady {peer : Peer} {ord : Nat → Nat}
    (table : peer.table = ⟨[⟨0, 8, ord, false⟩], none⟩)
    (first : ord 0 ≠ 0) (second : ord 1 = 0) (third : ord 2 = 0) :
    (Rest.prepare (eight 1 0 0) none).run trio onFirst peer =
      some ({ peer with affinity := some 0 }, [],
        .go (.write (eight 1 0 0) none)) := by
  have same := bondPrepare_steady table first second third
  change some ((bondPrepare trio peer 0 8).1, [],
    if (bondPrepare trio peer 0 8).2 then _ else _) = _
  rw [same]
  rfl

theorem run_write_steady {peer : Peer} (stays : peer.affinity = some 0) :
    (Rest.write (eight 1 0 0) none).run trio onFirst peer =
      some ({ peer.setLane 0 ((peer.lanes 0).sent 1) with
        table := bondRemember peer.table 0 8 (Function.update (fun _ => 0) 0
          ((peer.lanes 0).writesPosted + 1)) false },
        [(0, [.inline (peer.lanes 0).txSeq ((peer.lanes 0).writesPosted + 1) 0
          (List.replicate 8 1)])], .go .done) := by
  obtain ⟨lanes, txSignal, txFenced, turn, affinity, table⟩ := peer
  obtain rfl : affinity = some 0 := stays
  rfl

/-- A steady bond with one more write on the first link's wire. -/
structure Crossing (count : Nat) (message : Post) (sys : Sys) : Prop where
  reach : ReachNear trio sys
  idle : sys.pc = .run .done
  out : sys.Quiet trio
  head : sys.wire 0 = [message]
  others : ∀ lane < trio.links, lane ≠ 0 → sys.wire lane = []
  healthy : sys.Healthy trio
  placed : sys.bond.placed 0 = count
  txSignal : sys.peer.txSignal = 0
  table : ∃ ord, sys.peer.table = ⟨[⟨0, 8, ord, false⟩], none⟩ ∧
    ord 0 ≠ 0 ∧ ord 1 = 0 ∧ ord 2 = 0

theorem Steady.near {count : Nat} {sys other : Sys} (steady : Steady count sys)
    (same : other.wire = sys.wire) : other.Near trio := by
  refine near_of_unguarded ?_
  intro lane below post head
  rw [same, (steady.drained lane below).2] at head
  simp at head

/-- The write is posted once more. -/
theorem Steady.crossing {count : Nat} {sys : Sys} (steady : Steady count sys) :
    ∃ seq ord next, Crossing count (.inline seq ord 0 (List.replicate 8 1))
      next := by
  obtain ⟨ord, table, first, second, third⟩ := steady.table
  have quiet : sys.Quiet trio :=
    fun lane below => (steady.drained lane below).1
  have below : 0 < trio.links := by decide
  have mine := quiet 0 below
  have called := steady.reach.step (.call (.write (eight 1 0 0)))
    (steady.near rfl) (Sys.step_call steady.idle quiet (by decide))
  have prepared := called.step (.advance onFirst) (steady.near rfl)
    (Sys.step_run quiet rfl (run_prepare_steady table first second third))
  have posted := prepared.step (.advance onFirst) (steady.near rfl)
    (Sys.step_run quiet rfl (run_write_steady rfl))
  have sent := posted.step (.transmit 0) (steady.near rfl)
    (Sys.step_transmit below (by
      simp only [Sys.after, Sys.withPeer, List.foldl_cons, List.foldl_nil,
        Sys.emit, Function.update_self, mine, List.nil_append]
      rfl))
  refine ⟨(sys.peer.lanes 0).txSeq, (sys.peer.lanes 0).writesPosted + 1, _,
    sent, rfl, ?_, ?_, ?_, steady.healthy, steady.placed, steady.txSignal, ?_⟩
  · intro lane inBond
    by_cases here : lane = 0
    · simp [here]
    · have other := quiet lane inBond
      simpa [here, Sys.after, Sys.withPeer, Sys.emit] using other
  · have before := (steady.drained 0 below).2
    simpa [Sys.after, Sys.withPeer, Sys.emit] using before
  · intro lane inBond different
    have before := (steady.drained lane inBond).2
    simpa [different, Sys.after, Sys.withPeer, Sys.emit] using before
  · refine ⟨fun lane => max (ord lane) (Function.update (fun _ => 0) 0
      ((sys.peer.lanes 0).writesPosted + 1) lane), ?_, ?_, ?_, ?_⟩
    · change bondRemember sys.peer.table 0 8 _ false = _
      rw [table]
      rfl
    · simp [first]
    · simp [second]
    · simp [third]

/-- And taken. -/
theorem Crossing.steady {count seq ord : Nat} {sys : Sys}
    (crossing : Crossing count (.inline seq ord 0 (List.replicate 8 1)) sys) :
    ∃ next, Steady (count + 1) next := by
  have below : 0 < trio.links := by decide
  have core := crossing.reach.inv.core
  obtain ⟨after, pos, takes, took⟩ := Sys.step_take core below crossing.head
    (crossing.healthy 0 below) rfl 1
  have effect := core.effect below crossing.head
  rw [← takes.bond] at effect
  have stepped : sys.step trio (.take 0 1 .sent) = some (sys.popped 0 [] after
      (Function.update sys.acks 0 (sys.acks 0 ++ []))) := by
    rw [Sys.step, if_pos below, took]
    rfl
  have plain : sys.Near trio := by
    refine near_of_unguarded ?_
    intro lane inBond post found
    by_cases here : lane = 0
    · subst here
      rw [crossing.head] at found
      obtain rfl := Option.some.inj found
      exact ⟨rfl, rfl⟩
    · rw [crossing.others lane inBond here] at found
      simp at found
  refine ⟨_, crossing.reach.step _ plain stepped, crossing.idle, ?_, ?_, ?_,
    crossing.txSignal, crossing.table⟩
  · intro lane inBond
    refine ⟨crossing.out lane inBond, ?_⟩
    by_cases here : lane = 0
    · simp [Sys.popped, here]
    · simpa [Sys.popped, here] using crossing.others lane inBond here
  · intro lane inBond
    change (after.lanes lane).why = none
    by_cases here : lane = 0
    · subst here
      exact takes.why.trans (crossing.healthy 0 below)
    · rw [takes.others lane here]
      exact crossing.healthy lane inBond
  · change after.bond.placed 0 = count + 1
    have brings : (Post.inline seq ord 0 (List.replicate 8 1)).brings = true :=
      rfl
    rw [effect.placed, if_pos brings, Function.update_self]
    exact congrArg (· + 1) crossing.placed

/-- The first write. -/
def firstWrite : List Action :=
  [.call (.write (eight 1 0 0)), .advance onFirst, .advance onFirst,
    .transmit 0, .take 0 1 .sent]

theorem firstWrite_runs :
    ((Sys.init trio).run trio firstWrite).isSome = true := by
  decide +kernel

theorem steady_one : Steady 1
    (((Sys.init trio).run trio firstWrite).get firstWrite_runs) := by
  have few : Sys.Few trio
      (((Sys.init trio).run trio firstWrite).get firstWrite_runs) := by
    unfold Sys.Few
    decide +kernel
  refine ⟨(Reach.get firstWrite_runs).near few, rfl, ?_, ?_, ?_, ?_, ?_⟩
  · unfold Sys.Drained
    decide +kernel
  · unfold Sys.Healthy
    decide +kernel
  · decide +kernel
  · decide +kernel
  · exact ⟨_, rfl, by decide +kernel, by decide +kernel, by decide +kernel⟩

/-- The first link may have placed any number of writes. -/
theorem exists_steady (count : Nat) : ∃ sys, Steady (count + 1) sys := by
  induction count with
  | zero => exact ⟨_, steady_one⟩
  | succ count inductionHypothesis =>
      obtain ⟨sys, steady⟩ := inductionHypothesis
      obtain ⟨seq, ord, next, crossing⟩ := steady.crossing
      exact crossing.steady

theorem run_credit_steady {peer : Peer} (credit : peer.txSignal = 0) :
    (Rest.writeSignal (eight 2 64 64) ⟨16, 7⟩).run trio onFirst peer =
      some (peer, [], .go (.writeSignalPost (eight 2 64 64) ⟨16, 7⟩)) := by
  have room : peer.hasCredit = true := by
    simp [Peer.hasCredit, credit, bondSignals]
  rw [Rest.run, if_neg (by rw [credit]; decide), if_pos room]

/-- The message of a write elsewhere, with its signal. -/
def packet (peer : Peer) : Post :=
  .bondInlineN (peer.lanes (peer.turn % 3)).txSeq
    ((peer.lanes (peer.turn % 3)).writesPosted + 1) 64 (List.replicate 8 2)
    16 7 1 3 (joinedNeed trio peer (peer.turn % 3)) (fun _ => 0) 0

/-- A write elsewhere goes as one packet and waits for nothing. -/
theorem run_writeSignal_steady {peer : Peer} {ord : Nat → Nat}
    (table : peer.table = ⟨[⟨0, 8, ord, false⟩], none⟩)
    (credit : peer.txSignal = 0) :
    ∃ after, (Rest.writeSignalPost (eight 2 64 64) ⟨16, 7⟩).run trio onFirst
        peer = some (after, [(peer.turn % 3, [packet peer])], .go .done) := by
  obtain ⟨lanes, txSignal, txFenced, turn, affinity, held⟩ := peer
  obtain rfl : txSignal = 0 := credit
  obtain rfl : held = ⟨[⟨0, 8, ord, false⟩], none⟩ := table
  exact ⟨_, rfl⟩

/-- The message of a write elsewhere reaches the receiver. -/
theorem Steady.elsewhere {count : Nat} {sys : Sys} (steady : Steady count sys) :
    ∃ next lane post, ReachNear trio next ∧ next.receiver = sys.receiver ∧
      lane < trio.links ∧ next.wire lane = [post] ∧
      (∀ other < trio.links, other ≠ lane → next.wire other = []) ∧
      ordinals? post = some (fun _ => 0) ∧
      waits? post = some (lowCounts 3 fun _ => 0) ∧
      (∃ guard, post.guard? lane = some guard ∧ guard.wait = fun _ => 0) ∧
      post.carried? = some ⟨1, joinedNeed trio sys.peer lane, 16, 7⟩ := by
  obtain ⟨ord, table, -⟩ := steady.table
  have quiet : sys.Quiet trio :=
    fun lane below => (steady.drained lane below).1
  have called := steady.reach.step
    (.call (.writeSignal (eight 2 64 64) ⟨16, 7⟩)) (steady.near rfl)
    (Sys.step_call steady.idle quiet (by decide))
  have checked := called.step (.advance onFirst) (steady.near rfl)
    (Sys.step_run quiet rfl (run_credit_steady steady.txSignal))
  obtain ⟨after, ran⟩ := run_writeSignal_steady table steady.txSignal
  have posted := checked.step (.advance onFirst) (steady.near rfl)
    (Sys.step_run quiet rfl ran)
  have below : sys.peer.turn % 3 < trio.links := Nat.mod_lt _ (by decide)
  have mine := quiet _ below
  have sent := posted.step (.transmit (sys.peer.turn % 3)) (steady.near rfl)
    (Sys.step_transmit below (by
      simp only [Sys.after, Sys.withPeer, List.foldl_cons, List.foldl_nil,
        Sys.emit, Function.update_self, mine, List.nil_append]
      rfl))
  refine ⟨_, sys.peer.turn % 3, packet sys.peer, sent, rfl, below, ?_, ?_, ?_⟩
  · have before := (steady.drained _ below).2
    simp only [Function.update_self]
    change sys.wire (sys.peer.turn % 3) ++ [_] = _
    rw [before]
    rfl
  · intro other inBond different
    have before := (steady.drained other inBond).2
    simpa [different, Sys.after, Sys.withPeer, Sys.emit] using before
  · exact ⟨rfl, rfl, ⟨_, rfl, rfl⟩, rfl⟩

/-- A message that waits for nothing is held back by a link that has placed 2^31
writes. -/
theorem no_wait_held_back :
    ∃ sys, ReachNear trio sys ∧ sys.Near trio ∧ ∃ lane < trio.links,
      ∃ post rest ord wait, sys.wire lane = post :: rest ∧
        ordinals? post = some ord ∧ waits? post = some wait ∧
        ¬∀ other < trio.links, sys.bond.ReadyOn wait other ↔
          ord other = 0 ∨ ord other ≤ sys.bond.placed other := by
  obtain ⟨start, steady⟩ := exists_steady (2 ^ 31 - 1)
  obtain ⟨sys, lane, post, reach, receiver, below, wire, others, means, brings,
    ⟨guard, has, free⟩, carries⟩ := steady.elsewhere
  have all := (steady.reach.inv.core.all_applied steady.drained.queue).2.2
  refine ⟨sys, reach, ?_, lane, below, post, [], _, _, wire, means, brings, ?_⟩
  · intro other inBond found head
    by_cases here : other = lane
    · subst here
      rw [wire] at head
      obtain rfl := Option.some.inj head
      constructor
      · intro held same link inLink waits
        obtain rfl := Option.some.inj (same.symm.trans has)
        rw [free] at waits
        exact absurd rfl waits
      · intro carried same link inLink
        obtain rfl := Option.some.inj (same.symm.trans carries)
        have count := all link inLink
        have mark : start.peer.watermarks trio link =
          start.peer.writes link := if_pos inLink
        rw [Sys.bond, receiver]
        change Close (start.bond.placed link)
          (joinedNeed trio start.peer other link)
        unfold joinedNeed
        by_cases own : link = other
        · subst own
          rw [Function.update_self, mark, count]
          constructor <;> omega
        · rw [Function.update_of_ne own, mark, count]
          constructor <;> omega
    · rw [others other inBond here] at head
      simp at head
  · intro decides
    have first := (decides 0 (by decide)).mpr (Or.inl rfl)
    have placed : sys.bond.placed 0 = 2 ^ 31 := by
      rw [Sys.bond, receiver]
      exact steady.placed
    rw [Bond.ReadyOn, placed] at first
    exact absurd first (by decide)

end

end Fabric
end Mcdma
