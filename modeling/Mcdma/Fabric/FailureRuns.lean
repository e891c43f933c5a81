import Mcdma.Fabric.FailureCauses

/-!
# Runs of a peer that fails

What is down stays down along every run, the first published reason stays, and a
call that begins on a peer that is down comes to nothing.
-/

namespace Mcdma
namespace Fabric
namespace Failure

/-- The call a thread returns to. -/
def Next.call : Next → Option Call
  | .idle => none
  | .body call | .settle call | .failed call => some call

namespace Peer

section

variable {peer next : Peer} {phase : Phase} {tokens : Target → Token}
variable {thread : Nat} {pc : Pc} {luck : Luck}

/-- What is down stays down, and a published reason stays as it is. -/
structure Grows (peer next : Peer) : Prop where
  down : ∀ target, peer.peerDown target = true → next.peerDown target = true
  reason : peer.whyDone = true → next.whyDone = true ∧ next.why = peer.why

theorem Grows.of_eq (down : next.down = peer.down)
    (lanes : next.laneDown = peer.laneDown)
    (done : next.whyDone = peer.whyDone) (why : next.why = peer.why) :
    peer.Grows next where
  down := by
    intro target
    cases target <;> simp only [peerDown, down, lanes] <;> exact id
  reason := fun published => ⟨done.trans published, why⟩

theorem Grows.lower : peer.Grows { peer with down := true } where
  down := by
    intro target _
    cases target <;> simp [peerDown]
  reason := fun published => ⟨published, rfl⟩

theorem Grows.goto (grows : peer.Grows next) :
    peer.Grows (next.goto thread pc) :=
  ⟨grows.down, grows.reason⟩

/-- A step of a thread takes nothing up and overwrites no published reason. -/
theorem Inv.proceed_grows (inv : peer.Inv phase tokens)
    (moves : Proceeds peer thread luck (peer.pcs thread) next) :
    peer.Grows next := by
  have still : peer.Grows peer := Grows.of_eq rfl rfl rfl rfl
  generalize stands : peer.pcs thread = pc at moves
  cases moves with
  | claims first => exact Grows.of_eq rfl rfl rfl rfl
  | @records job =>
      have mine : (peer.pcs thread).Claims := stands ▸ trivial
      have unpublished :=
        (inv.during thread ((inv.claims thread).mp mine)).2 ⟨job, .inl stands⟩
      refine ⟨still.down, ?_⟩
      intro published
      rw [unpublished] at published
      cases published
  | publishes => exact ⟨still.down, fun _ => ⟨rfl, rfl⟩⟩
  | flagsTop tell more single => exact Grows.of_eq rfl rfl rfl rfl
  | flagsLane tell more bonded part => exact Grows.of_eq rfl rfl rfl rfl
  | marksLane target =>
      refine ⟨?_, fun published => ⟨published, rfl⟩⟩
      intro target down
      cases target with
      | top => exact down
      | lane other =>
          simp only [peerDown, Peer.goto, Function.update_apply,
            Bool.or_eq_true] at down ⊢
          rcases down with lane | top
          · refine .inl ?_
            split
            · rfl
            · exact lane
          · exact .inr top
  | marksPeer | marksBond | marksTop => exact Grows.lower.goto
  | swaps => exact Grows.of_eq rfl rfl rfl rfl
  | sends opened => exact Grows.of_eq rfl rfl rfl rfl
  | _ => exact still.goto

theorem Inv.step_grows (inv : peer.Inv phase tokens) {act : Act}
    (taken : peer.step act = some next) : peer.Grows next := by
  have still : peer.Grows peer := Grows.of_eq rfl rfl rfl rfl
  cases steps taken with
  | proceeds moves => exact inv.proceed_grows moves
  | works | ignores => exact still
  | refuses bonded => exact Grows.lower
  | _ => exact still.goto

end

/-- A call in progress or just ended. -/
def callOf : Pc → Option Call
  | .claim job | .record job | .publish job | .flag job _ | .mark job
  | .markBond job | .markTop job => job.next.call
  | .tellLoad _ next | .tellSwap _ next | .tellSend _ next => next.call
  | .look call | .body call | .settle call | .returned call _ => some call
  | .idle => none

/-- A call on a peer that was down at its start has posted nothing. -/
theorem Honest.posts {down : Bool} {pc : Pc} {call : Call}
    (honest : pc.Honest down) (mine : callOf pc = some call)
    (late : call.late = true) : call.posts = 0 := by
  have next : ∀ {next : Next}, next.Honest down → next.call = some call →
      call.posts = 0 := by
    intro next honest mine
    cases next with
    | idle => cases mine
    | body other =>
        have equal := Option.some.inj mine
        subst equal
        have punctual : other.late = false := honest
        rw [punctual] at late
        cases late
    | settle other =>
        have equal := Option.some.inj mine
        subst equal
        exact (honest late).2
    | failed other =>
        have equal := Option.some.inj mine
        subst equal
        exact (honest late).2
  cases pc with
  | idle => cases mine
  | look other =>
      have equal := Option.some.inj mine
      subst equal
      exact (honest late).2
  | settle other =>
      have equal := Option.some.inj mine
      subst equal
      exact (honest late).2
  | body other =>
      have equal := Option.some.inj mine
      subst equal
      have punctual : other.late = false := honest
      rw [punctual] at late
      cases late
  | returned other status =>
      have equal := Option.some.inj mine
      subst equal
      exact (honest late).2
  | _ => exact next honest mine

/-- What every run keeps of a peer, and what its states say: `whole` of a link
that is marked, `fails` of `peer_fail` on any of them once it returns. -/
structure Settled (peer later : Peer) : Prop where
  down : ∀ target, peer.peerDown target = true →
    later.peerDown target = true
  whole : ∀ lane, peer.laneDown lane = true →
    (∀ thread job, peer.pcs thread = .markBond job →
      job.target ≠ .lane lane) →
    ∀ target, peer.peerDown target = true
  fails : ∀ thread luck job next, peer.pcs thread = .markTop job →
    peer.proceed thread luck = some next →
    ∀ target, next.peerDown target = true
  reason : peer.whyDone = true → ∀ target, peer.peerDown target = true →
    later.status target = some peer.why
  once : ∀ target, (peer.sent target).length ≤ 1
  calls : ∀ thread call, callOf (peer.pcs thread) = some call →
    call.late = true → call.posts = 0
  results : ∀ thread call status, peer.pcs thread = .returned call status →
    call.late = true → status ≠ .ok

/-- In every run a peer that is down stays down with its first reason, a failed
link takes the whole bond down, each link sends at most one error datagram, and
a call that begins on a peer that is down fails and posts nothing; whatever says
that a link is gone brings the whole bond down. -/
theorem failure_permanent {cfg : Config} {peer later : Peer}
    (reached : (machine cfg).Reach peer) (acts : List Act)
    (ran : (machine cfg).run peer acts = some later) :
    peer.Settled later ∧ peer.Heeds cfg := by
  refine ⟨?_, heeds cfg reached⟩
  obtain ⟨phase, tokens, inv⟩ := Inv.ofReach reached
  have grows : peer.Grows later := by
    refine reached.along Grows ?_ ?_ ?_ acts ran
    · exact fun before => Grows.of_eq rfl rfl rfl rfl
    · intro before middle after first second
      refine ⟨fun target down => second.down target (first.down target down),
        ?_⟩
      intro published
      obtain ⟨still, same⟩ := first.reason published
      exact ⟨(second.reason still).1, (second.reason still).2.trans same⟩
    · intro before next act reached taken
      obtain ⟨phase, tokens, inv⟩ := Inv.ofReach reached
      exact inv.step_grows taken
  refine ⟨grows.down, ?_, ?_, ?_, ?_, ?_, ?_⟩
  · intro lane down settled
    rcases inv.whole lane down with top | ⟨thread, job, marks, here⟩
    · exact peerDown_of_down top
    · exact absurd here (settled thread job marks)
  · intro thread luck job next marks taken
    simp only [Peer.proceed, marks, Option.some.injEq] at taken
    subst taken
    exact peerDown_of_down rfl
  · intro published target down
    obtain ⟨still, same⟩ := grows.reason published
    rw [Peer.status, if_pos (grows.down target down), if_pos still, same]
  · intro target
    rcases (inv.holds target).sent with none | ⟨-, one⟩
    · rw [none]
      exact Nat.zero_le _
    · exact one.le
  · intro thread call mine late
    exact Honest.posts (inv.honest thread) mine late
  · intro thread call status stands late
    have honest := inv.honest thread
    rw [stands] at honest
    exact (honest late).1

/-- A single link without a name. -/
def lone : Config where
  bonded := 0
  thunderbolt := true
  winLength := 4096
  remoteLength := 4096
  device := fun _ => ""
  session := fun _ _ => 1
  peerSession := fun _ _ => 2
  part := fun _ => false

/-- Its progress fails and is told; then a flush begins and returns. -/
def failsThenFlushes : List Act :=
  let luck : Luck := ⟨.finish true, none, false, true⟩
  .progress 0 .top true none ::
    (List.replicate 10 (.proceed 0 luck) ++ [.call 1 (.flush 0)] ++
      List.replicate 6 (.proceed 1 luck))

theorem failsThenFlushes_runs :
    ((machine lone).run (machine lone).start failsThenFlushes).isSome =
      true := by
  decide +kernel

theorem failure_permanent_lone :
    (((machine lone).run (machine lone).start failsThenFlushes).get
      failsThenFlushes_runs).pcs 1 = .returned ⟨.flush 0, true, 0⟩ .peer ∧
    (machine lone).start.Settled
      (((machine lone).run (machine lone).start failsThenFlushes).get
        failsThenFlushes_runs) ∧
    (machine lone).start.Heeds lone :=
  ⟨by decide +kernel,
    failure_permanent .start failsThenFlushes
      (Option.some_get failsThenFlushes_runs).symm⟩

end Peer

end Failure
end Fabric
end Mcdma
