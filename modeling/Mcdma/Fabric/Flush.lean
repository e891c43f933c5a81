import Mcdma.Fabric.Join

/-!
# Fences

A flush asks link after link for an answer.  A link that has answered has taken
everything posted before; while the flush goes on nothing else is posted, so when
the last link has answered nothing is in flight.
-/

namespace Mcdma
namespace Fabric

open Link

/-- No fence of the link is under way. -/
structure Settled (sys : Sys) (lane : Nat) : Prop where
  queue : ∀ post ∈ sys.queue lane, post.answer? = none
  acks : sys.acks lane = []
  acked : (sys.peer.lanes lane).fenceAcked = (sys.peer.lanes lane).fences

/-- Where the fence `mine` of the link is: behind everything else in flight, on
its way back, or heard. -/
inductive Fencing (sys : Sys) (lane mine : Nat) : Prop
  | asked (before : List Post) (seq : Nat)
      (queue : sys.queue lane = before ++ [.fence seq mine])
      (plain : ∀ post ∈ before, post.answer? = none)
      (acks : sys.acks lane = [])
      (acked : ((sys.peer.lanes lane).fenceAcked + 1) % 2 ^ 32 = mine)
  | answered (queue : sys.queue lane = []) (acks : sys.acks lane = [mine])
      (acked : ((sys.peer.lanes lane).fenceAcked + 1) % 2 ^ 32 = mine)
  | heard (queue : sys.queue lane = []) (acks : sys.acks lane = [])
      (acked : (sys.peer.lanes lane).fenceAcked = mine)

/-- The links up to a flush's own. -/
structure Flushing (cfg : Config) (sys : Sys) (lane mine : Nat) : Prop where
  below : lane < cfg.links
  number : (sys.peer.lanes lane).fences = mine
  fits : mine < 2 ^ 32
  others : ∀ other < cfg.links, other ≠ lane → Settled sys other
  done : ∀ other < lane, sys.queue other = []
  fencing : Fencing sys lane mine

/-- The fences are where the sender's position says. -/
def FlowOk (cfg : Config) (sys : Sys) : Prop :=
  match sys.pc with
  | .run _ => ∀ lane < cfg.links, Settled sys lane
  | .flush lane _ => (∀ other < cfg.links, Settled sys other) ∧
      ∀ other < lane, other < cfg.links → sys.queue other = []
  | .fence lane mine _ => Flushing cfg sys lane mine

section

variable {cfg : Config} {sys final : Sys} {lane mine : Nat}

/-- An answer that has not been heard does not compare as heard. -/
theorem diff32_unheard {acked : Nat} (next : (acked + 1) % 2 ^ 32 = mine) :
    diff32 acked mine < 0 := by
  rw [← next, diff32_mod, diff32_eq (by omega) (by omega)]
  omega

/-- A fence that was heard left nothing in flight on its link. -/
theorem Fencing.heard_of (fencing : Fencing sys lane mine)
    (met : 0 ≤ diff32 (sys.peer.lanes lane).fenceAcked mine) :
    sys.queue lane = [] ∧ sys.acks lane = [] ∧
      (sys.peer.lanes lane).fenceAcked = mine := by
  cases fencing with
  | asked before seq queue plain acks acked =>
      have unheard := diff32_unheard acked
      omega
  | answered queue acks acked =>
      have unheard := diff32_unheard acked
      omega
  | heard queue acks acked => exact ⟨queue, acks, acked⟩

theorem Settled.congr (settled : Settled sys lane)
    (queue : ∀ post ∈ final.queue lane,
      post ∈ sys.queue lane ∨ post.answer? = none)
    (acks : final.acks lane = sys.acks lane)
    (fences : (final.peer.lanes lane).fences = (sys.peer.lanes lane).fences)
    (acked : (final.peer.lanes lane).fenceAcked =
      (sys.peer.lanes lane).fenceAcked) : Settled final lane := by
  refine ⟨?_, acks.trans settled.acks,
    acked.trans (settled.acked.trans fences.symm)⟩
  intro post member
  rcases queue post member with old | plain
  · exact settled.queue post old
  · exact plain

/-- Steps that keep every link's messages, answers and fences. -/
theorem FlowOk.congr (flow : FlowOk cfg sys) (pc : final.pc = sys.pc)
    (queue : final.queue = sys.queue) (acks : final.acks = sys.acks)
    (lanes : final.peer.lanes = sys.peer.lanes) : FlowOk cfg final := by
  have settled : ∀ lane, Settled sys lane → Settled final lane :=
    fun lane held => held.congr (fun post member => Or.inl (queue ▸ member))
      (by rw [acks]) (by rw [lanes]) (by rw [lanes])
  unfold FlowOk at flow ⊢
  rw [pc]
  split at flow
  · exact fun lane below => settled lane (flow lane below)
  · refine ⟨fun lane below => settled lane (flow.1 lane below), ?_⟩
    rw [queue]
    exact flow.2
  · refine ⟨flow.below, by rw [lanes]; exact flow.number, flow.fits,
      fun other below different => settled other
        (flow.others other below different), by rw [queue]; exact flow.done,
      ?_⟩
    cases flow.fencing with
    | asked before seq waiting plain silent acked =>
        exact .asked before seq (by rw [queue]; exact waiting) plain
          (by rw [acks]; exact silent) (by rw [lanes]; exact acked)
    | answered empty back acked =>
        exact .answered (by rw [queue]; exact empty) (by rw [acks]; exact back)
          (by rw [lanes]; exact acked)
    | heard empty silent acked =>
        exact .heard (by rw [queue]; exact empty) (by rw [acks]; exact silent)
          (by rw [lanes]; exact acked)

/-- A message is taken and its answer, if it asks for one, sent back. -/
theorem FlowOk.popped {post : Post} {rest : List Post} {after : Receiver}
    (flow : FlowOk cfg sys) (below : lane < cfg.links)
    (wire : sys.wire lane = post :: rest) :
    FlowOk cfg (sys.popped lane rest after (Function.update sys.acks lane
      (sys.acks lane ++ post.answer?.toList))) := by
  set acks := Function.update sys.acks lane
    (sys.acks lane ++ post.answer?.toList) with acksDef
  set next := sys.popped lane rest after acks
  have head : post ∈ sys.queue lane := by simp [Sys.queue, wire]
  have elsewhere : ∀ other, other ≠ lane →
      next.queue other = sys.queue other ∧ next.acks other = sys.acks other := by
    intro other different
    constructor
    · have same := Sys.queue_popped after acks wire other
      rw [if_neg different, List.nil_append] at same
      exact same.symm
    · simp [next, Sys.popped, acksDef, different]
  have settled : ∀ other, Settled sys other → Settled next other := by
    intro other held
    by_cases here : other = lane
    · subst here
      have plain := held.queue post head
      refine held.congr (fun found member =>
        Or.inl (Sys.mem_queue_popped wire member)) ?_ rfl rfl
      simp [next, Sys.popped, acksDef, plain]
    · obtain ⟨queue, silent⟩ := elsewhere other here
      exact held.congr (fun found member => Or.inl (queue ▸ member)) silent
        rfl rfl
  have empties : ∀ other, sys.queue other = [] → next.queue other = [] := by
    intro other empty
    have same := Sys.queue_popped after acks wire other
    rw [empty] at same
    exact (List.append_eq_nil_iff.mp same.symm).2
  unfold FlowOk at flow ⊢
  change match sys.pc with
    | .run _ => _
    | .flush lane _ => _
    | .fence lane mine _ => _
  split at flow
  · exact fun other inBond => settled other (flow other inBond)
  · exact ⟨fun other inBond => settled other (flow.1 other inBond),
      fun other earlier inBond => empties other (flow.2 other earlier inBond)⟩
  · next fenced mine _ _ =>
      refine ⟨flow.below, flow.number, flow.fits, fun other inBond different =>
        settled other (flow.others other inBond different),
        fun other earlier => empties other (flow.done other earlier), ?_⟩
      by_cases here : fenced = lane
      · subst here
        have same := Sys.queue_popped after acks wire fenced
        rw [if_pos rfl, List.singleton_append] at same
        cases flow.fencing with
        | asked before seq waiting plain silent acked =>
            rw [waiting] at same
            cases before with
            | nil =>
                -- the fence itself is taken, and answered
                obtain ⟨rfl, empty⟩ := List.cons.inj same
                refine .answered empty.symm ?_ acked
                simp [next, Sys.popped, acksDef, silent, Post.answer?]
            | cons first others =>
                obtain ⟨rfl, left⟩ := List.cons.inj same
                refine .asked others seq left.symm (fun found member =>
                  plain found (List.mem_cons_of_mem _ member)) ?_ acked
                simp [next, Sys.popped, acksDef, silent, plain first (by simp)]
        | answered empty back acked => simp [empty] at same
        | heard empty silent acked => simp [empty] at same
      · obtain ⟨queue, silence⟩ := elsewhere fenced here
        cases flow.fencing with
        | asked before seq waiting plain silent acked =>
            exact .asked before seq (queue.trans waiting) plain
              (silence.trans silent) acked
        | answered empty back acked =>
            exact .answered (queue.trans empty) (silence.trans back) acked
        | heard empty silent acked =>
            exact .heard (queue.trans empty) (silence.trans silent) acked

/-- The sender hears the answer to its fence. -/
theorem FlowOk.ack (flow : FlowOk cfg sys) (below : lane < cfg.links)
    (stepped : sys.ack lane = some final) : FlowOk cfg final := by
  unfold Sys.ack at stepped
  split at stepped
  · simp at stepped
  · next value rest back =>
      obtain rfl := Option.some.inj stepped
      have unsettled : ¬Settled sys lane := by
        intro settled
        rw [settled.acks] at back
        simp at back
      unfold FlowOk at flow ⊢
      change match sys.pc with
        | .run _ => _
        | .flush lane _ => _
        | .fence lane mine _ => _
      split at flow
      · exact absurd (flow lane below) unsettled
      · exact absurd (flow.1 lane below) unsettled
      · next fenced mine _ _ =>
          by_cases here : lane = fenced
          · subst here
            refine ⟨flow.below, ?_, flow.fits, ?_, flow.done, ?_⟩
            · simpa using flow.number
            · intro other inBond different
              have held := flow.others other inBond different
              refine held.congr (fun post member => Or.inl member) ?_ ?_ ?_
              · simp [different]
              · simp [Peer.setLane_other _ _ different]
              · simp [Peer.setLane_other _ _ different]
            · cases flow.fencing with
              | asked before seq waiting plain silent acked =>
                  simp [silent] at back
              | answered empty one acked =>
                  rw [one] at back
                  obtain ⟨rfl, rfl⟩ := List.cons.inj back
                  refine .heard empty (by simp) ?_
                  simpa using Nat.mod_eq_of_lt flow.fits
              | heard empty silent acked => simp [silent] at back
          · exact absurd (flow.others lane below here) unsettled

end

end Fabric
end Mcdma
