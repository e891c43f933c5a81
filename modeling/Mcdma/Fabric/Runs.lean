import Mcdma.Fabric.Safety

/-!
# Runs of a bond

A link's count of writes never falls, so in a run whose links have posted fewer
than 2^31 writes each no count was ever further away than that, and the
invariant holds of every state on its way.  A run may also be longer, as long as
the counts its messages carry stay close to those of the receiver.
-/

namespace Mcdma
namespace Fabric

open Link

/-! ## Counts of writes only grow -/

/-- No link of `other` has fewer writes. -/
def Peer.Grows (peer other : Peer) : Prop :=
  ∀ lane, peer.writes lane ≤ other.writes lane

theorem Peer.Grows.trans {peer middle other : Peer} (first : peer.Grows middle)
    (second : middle.Grows other) : peer.Grows other :=
  fun lane => (first lane).trans (second lane)

theorem Peer.grows_setLane (peer : Peer) {lane : Nat} {half : Lane}
    (more : (peer.lanes lane).writesPosted ≤ half.writesPosted) :
    peer.Grows (peer.setLane lane half) := by
  intro other
  by_cases here : other = lane
  · subst here
    simpa [Peer.writes] using more
  · rw [Peer.writes, Peer.writes, Peer.setLane_other _ _ here]

theorem postPieces_grows {post : Lane → Piece → List Post × Lane}
    (more : ∀ lane piece, lane.writesPosted ≤ (post lane piece).2.writesPosted)
    (lane : Lane) (pieces : List Piece) :
    lane.writesPosted ≤ (postPieces post lane pieces).2.writesPosted := by
  induction pieces generalizing lane with
  | nil => exact Nat.le_refl _
  | cons piece rest inductionHypothesis =>
      exact (more lane piece).trans (inductionHypothesis _)

theorem writePiece_grows (src : Mem) (lane : Lane) (piece : Piece) :
    lane.writesPosted ≤ (writePiece src lane piece).2.writesPosted := by
  unfold writePiece
  dsimp only
  split <;> simp [Lane.sent]

theorem tbBondWriteN_grows {max seg : Nat} {src : Mem} (lane : Lane)
    (off roff len sig : Nat) (wait : Nat → Nat) (links flags : Nat) :
    lane.writesPosted ≤ (tbBondWriteN max seg src lane off roff len sig wait
      links flags).2.writesPosted :=
  postPieces_grows (fun _ _ => Nat.le_succ _) lane _

section

variable {cfg : Config} {sys next final : Sys}

theorem grows_bondPostChunk (cfg : Config) (src : Mem) (length : Nat)
    (peer : Peer) (lane off roff take : Nat) :
    peer.Grows (bondPostChunk cfg src length peer lane off roff take).1 := by
  have posted := peer.grows_setLane (postPieces_grows (writePiece_grows src)
    (peer.lanes lane) (cut (cfg.max lane) tbSeg off roff take))
  unfold bondPostChunk
  dsimp only
  split <;> exact posted

theorem grows_bondWriteLoop {src : Mem} {length off roff len : Nat}
    {rounds : List Round} {peer : Peer} {ord : Nat → Nat}
    {done : Peer × List Batch × (Nat → Nat)}
    (looped : bondWriteLoop cfg src length rounds peer off roff len ord =
      some done) : peer.Grows done.1 := by
  induction rounds generalizing peer off roff len ord done with
  | nil =>
      rw [bondWriteLoop] at looped
      split at looped
      · obtain rfl := Option.some.inj looped
        exact fun _ => Nat.le_refl _
      · simp at looped
  | cons round rest inductionHypothesis =>
      rw [bondWriteLoop] at looped
      split at looped
      · obtain rfl := Option.some.inj looped
        exact fun _ => Nat.le_refl _
      · dsimp only at looped
        split at looped
        · exact inductionHypothesis looped
        · next lane turned target =>
            have turning : peer.Grows turned := by
              unfold bondTarget at target
              split at target
              · obtain ⟨_, -, same⟩ := Option.map_eq_some_iff.mp target
                obtain ⟨-, rfl⟩ := Prod.mk.inj same
                exact fun _ => Nat.le_refl _
              · split at target
                · obtain ⟨-, rfl⟩ := Prod.mk.inj (Option.some.inj target)
                  exact fun _ => Nat.le_refl _
                · simp at target
            split at looped
            · exact turning.trans (inductionHypothesis looped)
            · obtain ⟨others, onward, rfl⟩ := Option.map_eq_some_iff.mp looped
              have onwards := inductionHypothesis onward
              exact turning.trans
                ((grows_bondPostChunk _ _ _ _ _ _ _ _).trans onwards)

theorem grows_bondSignalLoop {need : Nat → Nat} {word : Word}
    {passes : List Pass} {peer : Peer} {done : Peer × List Batch}
    (looped : bondSignalLoop cfg need word passes peer = some done) :
    peer.Grows done.1 := by
  induction passes generalizing peer with
  | nil => simp [bondSignalLoop] at looped
  | cons pass rest inductionHypothesis =>
      rw [bondSignalLoop] at looped
      dsimp only at looped
      split at looped
      · have onward := inductionHypothesis looped
        exact onward
      · next lane found =>
          obtain rfl := Option.some.inj looped
          exact peer.grows_setLane (Nat.le_refl _)

theorem grows_bondPost (cfg : Config) (peer : Peer) (plan : Plan)
    (write : Write) (word : Word) :
    peer.Grows (bondPost cfg peer plan write word).1 := by
  have part : peer.Grows
      (peer.setLane plan.head ((peer.lanes plan.head).sent 1)) :=
    peer.grows_setLane (Nat.le_succ _)
  have tail : ∀ lane, peer.Grows ((peer.setLane plan.head
      ((peer.lanes plan.head).sent 1)).setLane lane
        ((peer.lanes lane).sent 1)) := by
    intro lane
    refine part.trans (Peer.grows_setLane _ ?_)
    by_cases same : lane = plan.head
    · rw [same, Peer.setLane_lane]
    · rw [Peer.setLane_other _ _ same]
      exact Nat.le_succ _
  unfold bondPost
  dsimp only
  split
  · exact tail _
  · exact part

theorem grows_bondJoinLoop {write : Write} {word : Word} {passes : List Pass}
    {peer : Peer} {done : Peer × Option (List Batch)}
    (looped : bondJoinLoop cfg write word passes peer = some done) :
    peer.Grows done.1 := by
  induction passes generalizing peer with
  | nil => simp [bondJoinLoop] at looped
  | cons pass rest inductionHypothesis =>
      rw [bondJoinLoop] at looped
      dsimp only at looped
      split at looped
      · obtain rfl := Option.some.inj looped
        exact fun _ => Nat.le_refl _
      · next plan planned =>
          split_ifs at looped
          · obtain rfl := Option.some.inj looped
            exact fun _ => Nat.le_refl _
          · have onward := inductionHypothesis looped
            exact onward
          · obtain rfl := Option.some.inj looped
            exact fun _ => Nat.le_refl _
          · have onward := inductionHypothesis looped
            exact onward
          · obtain rfl := Option.some.inj looped
            have posted := grows_bondPost cfg { peer with
              turn := (bondPlan cfg (bondLook cfg pass) write peer.turn).2 }
              plan write word
            exact posted

theorem grows_bondSpread {src : Mem} {sig : Nat} {wait : Nat → Nat}
    {flags : Nat} {sizes : Nat → Nat} (lanes : List Nat) (peer : Peer)
    (off roff : Nat) :
    peer.Grows (bondSpread cfg src sig wait flags sizes lanes peer off
      roff).1 := by
  induction lanes generalizing peer off roff with
  | nil => exact fun _ => Nat.le_refl _
  | cons lane rest inductionHypothesis =>
      exact (peer.grows_setLane (tbBondWriteN_grows _ _ _ _ _ _ _ _)).trans
        (inductionHypothesis _ _ _)

theorem grows_bondParallel (cfg : Config) (oracle : Oracle) (peer : Peer)
    (write : Write) (word : Word) :
    peer.Grows (bondParallel cfg oracle peer write word).1 := by
  unfold bondParallel
  dsimp only
  split
  · split
    · exact peer.grows_setLane (Nat.le_succ _)
    · exact peer.grows_setLane (tbBondWriteN_grows _ _ _ _ _ _ _ _)
  · exact fun lane => grows_bondSpread _ peer _ _ lane

/-- No stretch of a call takes a write back. -/
theorem grows_run {rest : Rest} {oracle : Oracle} {peer : Peer}
    {done : Peer × List Batch × Next}
    (ran : rest.run cfg oracle peer = some done) : peer.Grows done.1 := by
  cases rest with
  | done => simp [Rest.run] at ran
  | prepare copy follow =>
      obtain rfl := Option.some.inj ran
      intro lane
      dsimp only
      unfold bondPrepare
      split <;> exact Nat.le_refl _
  | write copy follow =>
      obtain ⟨written, wrote, rfl⟩ := Option.map_eq_some_iff.mp ran
      obtain ⟨looped, went, rfl⟩ := Option.map_eq_some_iff.mp wrote
      have grown := grows_bondWriteLoop went
      intro lane
      refine le_trans ?_ (grown lane)
      split <;> exact Nat.le_refl _
  | signal word =>
      rw [Rest.run] at ran
      split at ran
      · simp at ran
      · obtain rfl := Option.some.inj ran
        exact fun _ => Nat.le_refl _
  | signalPost word =>
      obtain ⟨posted, went, rfl⟩ := Option.map_eq_some_iff.mp ran
      exact grows_bondSignalLoop went
  | writeSignal copy word =>
      rw [Rest.run] at ran
      split at ran
      · simp at ran
      · obtain rfl := Option.some.inj ran
        exact fun _ => Nat.le_refl _
  | writeSignalPost copy word =>
      rw [Rest.run] at ran
      split at ran
      · obtain rfl := Option.some.inj ran
        exact grows_bondParallel cfg oracle peer copy word
      · obtain ⟨joined, went, same⟩ := Option.map_eq_some_iff.mp ran
        have grown := grows_bondJoinLoop went
        split at same
        · subst same
          exact grown
        · subst same
          exact grown

/-- A link's step leaves the sender's counts and its calls alone. -/
structure Sys.Calm (sys next : Sys) : Prop where
  writes : next.peer.writes = sys.peer.writes
  txSignal : next.peer.txSignal = sys.peer.txSignal
  txFenced : next.peer.txFenced = sys.peer.txFenced
  base : next.base = sys.base
  pc : next.pc = sys.pc
  calls : next.calls = sys.calls

theorem Sys.calm_transmit {lane : Nat}
    (sent : sys.transmit lane = some next) : sys.Calm next := by
  unfold Sys.transmit at sent
  split at sent
  · simp at sent
  · obtain rfl := Option.some.inj sent
    exact ⟨rfl, rfl, rfl, rfl, rfl, rfl⟩

theorem Sys.calm_take {lane now : Nat} {reply : Reply} {result : Taken}
    (took : sys.take cfg lane now reply = some (next, result)) :
    sys.Calm next := by
  unfold Sys.take at took
  split at took
  · simp at took
  · obtain ⟨after, -, same⟩ := Option.map_eq_some_iff.mp took
    obtain ⟨rfl, -⟩ := Prod.mk.inj same
    split <;> exact ⟨rfl, rfl, rfl, rfl, rfl, rfl⟩

theorem Sys.calm_ack {lane : Nat} (acked : sys.ack lane = some next) :
    sys.Calm next := by
  unfold Sys.ack at acked
  split at acked
  · simp at acked
  · next value rest back =>
      obtain rfl := Option.some.inj acked
      refine ⟨?_, rfl, rfl, rfl, rfl, rfl⟩
      funext other
      by_cases here : other = lane
      · subst here
        simp [Peer.writes]
      · simp only [Peer.writes]
        rw [Peer.setLane_other _ _ here]

/-- Asking for an answer is no write. -/
theorem Peer.writes_tbFence (peer : Peer) (lane : Nat) :
    (peer.setLane lane (tbFence (peer.lanes lane)).2).writes = peer.writes := by
  funext other
  by_cases here : other = lane
  · subst here
    simp [Peer.writes, tbFence, Lane.sent]
  · simp only [Peer.writes]
    rw [Peer.setLane_other _ _ here]

/-- No step takes a write back. -/
theorem grows_step {action : Action}
    (stepped : sys.step cfg action = some next) :
    sys.peer.Grows next.peer := by
  intro lane
  cases Sys.moves stepped with
  | call call idle inBounds => exact Nat.le_refl _
  | run quiet stood ran => exact grows_run ran lane
  | ask stood below => exact (congrFun (sys.peer.writes_tbFence _) lane).ge
  | flushed stood last => exact Nat.le_refl _
  | heard stood met => exact Nat.le_refl _
  | transmit below sent => exact (congrFun (Sys.calm_transmit sent).writes lane).ge
  | take below took => exact (congrFun (Sys.calm_take took).writes lane).ge
  | ack below acked => exact (congrFun (Sys.calm_ack acked).writes lane).ge

/-- No step takes a call back. -/
theorem calls_step {action : Action}
    (stepped : sys.step cfg action = some next) :
    ∀ call ∈ sys.calls, call ∈ next.calls := by
  intro made member
  cases Sys.moves stepped with
  | call call idle inBounds => exact List.mem_append_left _ member
  | run quiet stood ran =>
      change made ∈ (List.foldl Sys.emit sys _).calls
      rw [(Sys.foldl_emit _ sys).2.2.1]
      exact member
  | ask stood below => exact member
  | flushed stood last => exact member
  | heard stood met => exact member
  | transmit below sent => rwa [(Sys.calm_transmit sent).calls]
  | take below took => rwa [(Sys.calm_take took).calls]
  | ack below acked => rwa [(Sys.calm_ack acked).calls]

/-! ## The invariant along a run -/

/-- Every link has posted fewer than 2^31 writes. -/
def Sys.Few (cfg : Config) (sys : Sys) : Prop :=
  ∀ lane < cfg.links, sys.peer.writes lane < 2 ^ 31

/-- What a message in flight carries is not beyond the writes posted. -/
theorem Core.counts_le (core : Core cfg sys) {lane : Nat}
    (below : lane < cfg.links) {post : Post} (member : post ∈ sys.queue lane) :
    (∀ guard, post.guard? lane = some guard → ∀ other < cfg.links,
      guard.wait other ≤ sys.peer.writes other) ∧
    ∀ carried, post.carried? = some carried → ∀ other < cfg.links,
      carried.need other ≤ sys.peer.writes other := by
  constructor
  · intro guard has other inBond
    obtain ⟨ord, -, ok⟩ := core.guardOk below member has
    exact (ok.left other inBond).trans (core.lanes other inBond).placed_le.2
  · intro carried has other inBond
    obtain ⟨signal, -, -, watermark⟩ :=
      (core.carried lane below post member carried has).logged
    exact watermark.bounded other inBond

/-- With fewer than 2^31 writes a link all counts are close. -/
theorem Core.near (core : Core cfg sys) (few : sys.Few cfg) :
    sys.Near cfg := by
  intro lane below post head
  have member : post ∈ sys.queue lane :=
    List.mem_append_left _ (List.mem_of_mem_head? head)
  obtain ⟨waits, needs⟩ := core.counts_le below member
  have placed : ∀ other < cfg.links,
      sys.bond.placed other ≤ sys.peer.writes other := fun other inBond =>
    (core.lanes other inBond).placed_le.1.trans
      (core.lanes other inBond).placed_le.2
  constructor
  · intro guard has other inBond _
    have posted := waits guard has other inBond
    have made := placed other inBond
    have bound := few other inBond
    constructor <;> omega
  · intro carried has other inBond
    have posted := needs carried has other inBond
    have made := placed other inBond
    have bound := few other inBond
    constructor <;> omega

/-- The states a bond can get into while all counts stay close. -/
inductive ReachNear (cfg : Config) : Sys → Prop
  | init : ReachNear cfg (Sys.init cfg)
  | step {sys next : Sys} (action : Action) (reach : ReachNear cfg sys)
      (near : sys.Near cfg) (stepped : sys.step cfg action = some next) :
      ReachNear cfg next

theorem ReachNear.inv (reach : ReachNear cfg sys) : Inv cfg sys := by
  induction reach with
  | init => exact inv_init cfg
  | step action reach near stepped inductionHypothesis =>
      exact inductionHypothesis.step near stepped

/-- A run with few writes keeps its counts close. -/
theorem Reach.near (reach : Reach cfg sys) (few : sys.Few cfg) :
    ReachNear cfg sys := by
  induction reach with
  | init => exact .init
  | step action reach stepped inductionHypothesis =>
      have before : Sys.Few cfg _ := fun lane below =>
        lt_of_le_of_lt (grows_step stepped lane) (few lane below)
      have run := inductionHypothesis before
      exact .step action run (run.inv.core.near before) stepped

/-- The invariant holds of every state with fewer than 2^31 writes a link. -/
theorem Reach.inv (reach : Reach cfg sys) (few : sys.Few cfg) : Inv cfg sys :=
  (reach.near few).inv

/-- Messages without counts are near. -/
theorem near_of_unguarded
    (plain : ∀ lane < cfg.links, ∀ post ∈ (sys.wire lane).head?,
      post.guard? lane = none ∧ post.carried? = none) : sys.Near cfg := by
  intro lane below post head
  obtain ⟨free, silent⟩ := plain lane below post head
  exact ⟨by simp [free], by simp [silent]⟩

/-! ## How steps go -/

/-- The sender enters a call. -/
theorem Sys.step_call {call : Call}
    (idle : sys.pc = .run .done) (quiet : sys.Quiet cfg)
    (inBounds : call.InBounds cfg) :
    sys.step cfg (.call call) =
      some { sys with pc := call.start, calls := sys.calls ++ [call] } := by
  simp only [Sys.step, idle]
  rw [if_pos ⟨inBounds, quiet⟩]

/-- The sender carries its call on. -/
theorem Sys.step_run {rest : Rest} {oracle : Oracle} {peer : Peer}
    {batches : List Batch} {next : Next} (quiet : sys.Quiet cfg)
    (stood : sys.pc = .run rest)
    (ran : rest.run cfg oracle sys.peer = some (peer, batches, next)) :
    sys.step cfg (.advance oracle) =
      some { sys.after peer batches with pc := next.pc } := by
  rw [Sys.step, if_pos quiet, Sys.advance, stood]
  simp only [ran]
  rfl

/-- A message leaves for the wire. -/
theorem Sys.step_transmit {lane : Nat} {post : Post}
    {rest : List Post} (below : lane < cfg.links)
    (out : sys.out lane = post :: rest) :
    sys.step cfg (.transmit lane) = some { sys with
      out := Function.update sys.out lane rest
      wire := Function.update sys.wire lane (sys.wire lane ++ [post])
      sent := Function.update sys.sent lane
        ((post.step (sys.sent lane)).getD (sys.sent lane)) } := by
  rw [Sys.step, if_pos below, Sys.transmit, out]

/-- A ready message on a healthy link is taken. -/
theorem Sys.step_take {lane : Nat} {post : Post}
    {rest : List Post} (core : Core cfg sys) (below : lane < cfg.links)
    (wire : sys.wire lane = post :: rest)
    (alive : (sys.receiver.lanes lane).why = none)
    (ready : readiness lane sys.bond post = .now) (now : Nat) :
    ∃ after next, Takes cfg.remoteLength cfg.links lane sys.receiver post next
        after ∧
      sys.take cfg lane now .sent =
        some (sys.popped lane rest after (Function.update sys.acks lane
          (sys.acks lane ++ post.answer?.toList)), .taken post.answer?) := by
  obtain ⟨pos, next, stands, counted, step, -, sound⟩ :=
    core.head_fits below wire
  have member : post ∈ sys.queue lane := by simp [Sys.queue, wire]
  obtain ⟨after, taken, takes⟩ := deliver_taken now below cfg.two_le cfg.le_max
    cfg.remoteLength_lt stands counted step sound alive ready
    (fun _ => rfl) (core.not_refused below member)
  refine ⟨after, next, takes, ?_⟩
  rw [Sys.take, wire]
  dsimp only
  rw [taken]
  rfl

end

end Fabric
end Mcdma
