import Mcdma.Fabric.FailureSafety

/-!
# What brings a peer down

A link whose progress fails, news from the other end that it is gone, a call that
fails and a signal that is refused each take the whole bond down.  The thread that
meets one of them goes through `peer_fail`, which ends after so many steps of its
own, whatever the other threads do.
-/

namespace Mcdma
namespace Fabric
namespace Failure

open Setup

/-- The steps a thread has left until it has failed the peer. -/
def Pc.left (bonded : Nat) : Pc → Nat
  | .settle _ => max bonded 1 + 8
  | .claim _ => max bonded 1 + 7
  | .record _ => max bonded 1 + 6
  | .publish _ => max bonded 1 + 5
  | .flag _ index => max bonded 1 - index + 4
  | .mark _ => 3
  | .markBond _ => 2
  | .markTop _ => 1
  | _ => 0

/-- A call is about to return a failure. -/
def Next.Told : Next → Prop
  | .failed _ => True
  | _ => False

/-- A call is about to return a failure, or has. -/
def Pc.Told : Pc → Prop
  | .tellLoad _ next | .tellSwap _ next | .tellSend _ next => next.Told
  | .returned _ .peer => True
  | _ => False

namespace Peer

/-- The thread that an action is of. -/
def Act.actor : Act → Option Nat
  | .call thread _ | .leave thread | .proceed thread _
  | .progress thread _ _ _ | .service thread _ _ => some thread
  | .refuse => none

/-- The thread goes on. -/
def Act.own (thread : Nat) : Act → Bool
  | .proceed other _ => decide (other = thread)
  | _ => false

/-- A step leaves all threads but one where they are, and takes nothing up. -/
structure Keeps (peer next : Peer) (actor : Option Nat) : Prop where
  bonded : next.bonded = peer.bonded
  down : peer.down = true → next.down = true
  others : ∀ other, some other ≠ actor → next.pcs other = peer.pcs other

section

variable {peer next : Peer} {thread : Nat} {pc : Pc} {luck : Luck}

theorem Keeps.refl (peer : Peer) (actor : Option Nat) :
    peer.Keeps peer actor :=
  ⟨rfl, id, fun _ _ => rfl⟩

theorem Keeps.goto {middle : Peer} (bonded : middle.bonded = peer.bonded)
    (down : peer.down = true → middle.down = true)
    (pcs : middle.pcs = peer.pcs) :
    peer.Keeps (middle.goto thread pc) (some thread) where
  bonded := bonded
  down := down
  others := fun other different => by
    rw [← pcs]
    exact Function.update_of_ne (fun same => different (congrArg some same)) _ _

theorem proceed_keeps
    (moves : Proceeds peer thread luck (peer.pcs thread) next) :
    peer.Keeps next (some thread) := by
  generalize peer.pcs thread = stands at moves
  cases moves with
  | marksPeer | marksBond | marksTop => exact Keeps.goto rfl (fun _ => rfl) rfl
  | _ => exact Keeps.goto rfl id rfl

/-- What a step keeps. -/
theorem step_keeps {act : Act} (taken : peer.step act = some next) :
    peer.Keeps next act.actor := by
  cases steps taken with
  | proceeds moves => exact proceed_keeps moves
  | works | ignores => exact Keeps.refl _ _
  | refuses bonded => exact ⟨rfl, fun _ => rfl, fun _ _ => rfl⟩
  | _ => exact Keeps.goto rfl id rfl

/-! ## A thread that fails the peer -/

theorem pcs_goto_self (peer : Peer) (thread : Nat) (pc : Pc) :
    (peer.goto thread pc).pcs thread = pc :=
  Function.update_self _ _ _

/-- A thread that fails the peer is never held up. -/
theorem proceed_total (failing : 0 < (peer.pcs thread).left peer.bonded)
    (luck : Luck) : (peer.proceed thread luck).isSome = true := by
  unfold Peer.proceed
  cases stands : peer.pcs thread with
  | claim job =>
      dsimp only
      split <;> rfl
  | flag job index =>
      dsimp only
      split
      · split
        · rfl
        · split <;> rfl
      · rfl
  | mark job =>
      dsimp only
      split <;> rfl
  | record job | publish job | markBond job | markTop job | settle call => rfl
  | _ =>
      rw [stands] at failing
      exact absurd failing (Nat.lt_irrefl 0)

/-- Its step brings the peer down, or leaves it fewer to take. -/
theorem proceed_left
    (moves : Proceeds peer thread luck (peer.pcs thread) next)
    (failing : 0 < (peer.pcs thread).left peer.bonded) :
    next.down = true ∨ 0 < (next.pcs thread).left peer.bonded ∧
      (next.pcs thread).left peer.bonded <
        (peer.pcs thread).left peer.bonded := by
  generalize peer.pcs thread = stands at moves failing
  cases moves with
  | marksPeer | marksBond | marksTop => exact .inl rfl
  | loads | swaps | sends | sendsNothing | failsFlush | turnsBack | enters
  | posts | failsLink | tells | finishes =>
      exact absurd failing (Nat.lt_irrefl 0)
  | _ =>
      right
      rw [pcs_goto_self]
      simp only [Pc.left]
      omega

/-- While a thread fails the peer nothing but its own steps moves it. -/
theorem actor_own {act : Act} (taken : peer.step act = some next)
    (failing : 0 < (peer.pcs thread).left peer.bonded)
    (mine : act.actor = some thread) : act.own thread = true := by
  have held : ∀ {mover : Nat} {pc : Pc}, peer.pcs mover = pc →
      some mover = some thread → pc.left peer.bonded = 0 → False := by
    intro mover pc stands same none
    obtain rfl := Option.some.inj same
    rw [stands, none] at failing
    exact Nat.lt_irrefl 0 failing
  cases steps taken with
  | proceeds moves => exact decide_eq_true (Option.some.inj mine)
  | calls stands | refused stands | leaves stands | tells stands
  | fails stands | works stands => exact (held stands mine rfl).elim
  | hears reads | ignores reads =>
      refine (held rfl mine ?_).elim
      cases stands : peer.pcs _ <;> rw [stands] at reads <;>
        first | rfl | cases reads
  | refuses => cases mine

/-- The peer is down, or the thread is failing it with so many steps to take. -/
def Falling (peer : Peer) (thread steps : Nat) : Prop :=
  peer.down = true ∨ 0 < (peer.pcs thread).left peer.bonded ∧
    (peer.pcs thread).left peer.bonded ≤ steps

/-- A step of its own leaves a thread that fails the peer fewer to take, and no
other step holds it up. -/
theorem Falling.step {steps : Nat} {act : Act}
    (falling : peer.Falling thread steps)
    (taken : peer.step act = some next) :
    next.Falling thread (steps - (act.own thread).toNat) := by
  have keeps := step_keeps taken
  rcases falling with down | ⟨failing, most⟩
  · exact .inl (keeps.down down)
  · rw [Falling, keeps.bonded]
    by_cases mine : act.actor = some thread
    · have own := actor_own taken failing mine
      rw [own]
      cases act with
      | proceed other luck =>
          obtain rfl : other = thread := of_decide_eq_true own
          refine (proceed_left (proceeds taken) failing).imp_right fun ⟨more, fewer⟩ => ?_
          refine ⟨more, ?_⟩
          rw [Bool.toNat_true]
          omega
      | _ => cases own
    · have other : act.own thread = false := by
        cases act with
        | proceed other luck =>
            exact decide_eq_false fun same => mine (congrArg some same)
        | _ => rfl
      rw [other, keeps.others thread fun same => mine same.symm]
      exact .inr ⟨failing, most⟩

variable (cfg : Config)

theorem Falling.run {steps : Nat} {later : Peer} {acts : List Act}
    (falling : peer.Falling thread steps)
    (ran : (machine cfg).run peer acts = some later) :
    later.Falling thread (steps - acts.countP (Act.own thread)) := by
  induction acts generalizing peer steps with
  | nil =>
      obtain rfl := Option.some.inj ran
      exact falling
  | cons act rest inductionHypothesis =>
      obtain ⟨middle, taken, onward⟩ := Option.bind_eq_some_iff.mp ran
      have after := inductionHypothesis (falling.step taken) onward
      have counted : (act :: rest).countP (Act.own thread) =
          rest.countP (Act.own thread) + (act.own thread).toNat := by
        rw [List.countP_cons]
        cases act.own thread <;> rfl
      rwa [counted, Nat.add_comm, ← Nat.sub_sub]

/-- However a run goes on, the whole bond is down after so many steps of the
thread; until then the thread is never held up. -/
def Falls (peer : Peer) (thread : Nat) : Prop :=
  ∀ acts later, (machine cfg).run peer acts = some later →
    (∀ target, later.peerDown target = true) ∨
      acts.countP (Act.own thread) < max peer.bonded 1 + 8 ∧
        ∀ luck, (later.proceed thread luck).isSome = true

theorem peerDown_of_down (down : peer.down = true) (target : Target) :
    peer.peerDown target = true := by
  cases target <;> simp [peerDown, down]

theorem left_le (bonded : Nat) (pc : Pc) : pc.left bonded ≤ max bonded 1 + 8 := by
  cases pc <;> simp only [Pc.left] <;> omega

/-- A thread in `peer_fail` brings the peer down. -/
theorem falls_of_left (failing : 0 < (peer.pcs thread).left peer.bonded) :
    peer.Falls cfg thread := by
  intro acts later ran
  have falling : peer.Falling thread (max peer.bonded 1 + 8) :=
    .inr ⟨failing, left_le _ _⟩
  rcases falling.run cfg ran with down | ⟨more, most⟩
  · exact .inl (peerDown_of_down down)
  · exact .inr ⟨by omega, proceed_total more⟩

/-! ## A call that failed -/

theorem refusal_ne_peer {request : Request} {status : Status}
    (refused : peer.refusal request = some status) : status ≠ .peer := by
  rintro rfl
  cases request with
  | flush timeout => cases refused
  | write off roff length =>
      simp only [refusal] at refused
      split at refused <;> simp at refused
  | signal roff value =>
      simp only [refusal] at refused
      split at refused <;> simp at refused
  | writeSignal off roff length soff value =>
      simp only [refusal] at refused
      split at refused
      · simp at refused
      · split at refused <;> simp at refused

theorem told_next {after : Next} (told : after.pc.Told) : after.Told := by
  cases after with
  | failed call => trivial
  | _ => exact told.elim

theorem proceed_told
    (moves : Proceeds peer thread luck (peer.pcs thread) next)
    (kept : (peer.pcs thread).Told → peer.down = true)
    (told : (next.pcs thread).Told) : next.down = true := by
  generalize peer.pcs thread = stands at moves kept
  cases moves with
  | marksPeer | marksBond | marksTop => rfl
  | loads | swaps =>
      rw [pcs_goto_self] at told
      split at told
      · exact kept told
      · exact kept (told_next told)
  | sends | sendsNothing =>
      rw [pcs_goto_self] at told
      exact kept (told_next told)
  | @finishes call failed op =>
      rw [pcs_goto_self] at told
      cases failed <;> exact told.elim
  | _ =>
      rw [pcs_goto_self] at told
      exact told.elim

theorem step_told {act : Act} (taken : peer.step act = some next)
    (mine : act.actor = some thread)
    (kept : (peer.pcs thread).Told → peer.down = true)
    (told : (next.pcs thread).Told) : next.down = true := by
  cases steps taken with
  | proceeds moves =>
      obtain rfl := Option.some.inj mine
      exact proceed_told moves kept told
  | @refused other request status idle refused =>
      obtain rfl := Option.some.inj mine
      rw [pcs_goto_self] at told
      cases status with
      | peer => exact absurd rfl (refusal_ne_peer refused)
      | _ => exact told.elim
  | works | ignores => exact kept told
  | refuses => rfl
  | _ =>
      obtain rfl := Option.some.inj mine
      rw [pcs_goto_self] at told
      exact told.elim

/-- A call that has failed has brought the peer down. -/
theorem told_down (reached : (machine cfg).Reach peer) :
    ∀ thread, (peer.pcs thread).Told → peer.down = true := by
  refine reached.invariant (fun peer => ∀ thread,
    (peer.pcs thread).Told → peer.down = true) (fun _ told => told.elim) ?_
  intro before next act kept taken thread told
  by_cases mine : act.actor = some thread
  · exact step_told taken mine (kept thread) told
  · have keeps := step_keeps taken
    rw [keeps.others thread fun same => mine same.symm] at told
    exact keeps.down (kept thread told)

/-! ## What brings the peer down -/

/-- What brings the whole bond down: a link whose progress fails, a goodbye, an
error or a new session that its exchange socket tells of, a link that a call
fails or the call itself, and a signal that `bond_signal` refuses.  A call that
has returned a failure has brought it down. -/
structure Heeds (peer : Peer) : Prop where
  progress : ∀ thread target link, peer.pcs thread = .idle →
    peer.HasLink target → peer.peerDown target = false →
      ∃ next, peer.step (.progress thread target true link) = some next ∧
        next.Falls cfg thread
  bye : ∀ thread target m, (peer.pcs thread).reads ≠ none →
    peer.HasLink target → peer.peerDown target = false →
    m.role = .peer → m.kind = .bye ∨ m.kind = .err →
    m.toSession = peer.session target →
      ∃ next, peer.step (.service thread target m) = some next ∧
        next.Falls cfg thread
  restart : ∀ thread target m, (peer.pcs thread).reads ≠ none →
    peer.HasLink target → peer.peerDown target = false →
    m.role = .peer → m.kind = .offer →
    m.fromSession ≠ peer.peerSession target →
      ∃ next, peer.step (.service thread target m) = some next ∧
        next.Falls cfg thread
  link : ∀ thread call luck target why, peer.pcs thread = .body call →
    luck.op = .fail target why →
      ∃ next, peer.step (.proceed thread luck) = some next ∧
        next.Falls cfg thread
  call : ∀ thread call luck, peer.pcs thread = .body call →
    luck.op = .finish true →
      ∃ next, peer.step (.proceed thread luck) = some next ∧
        next.Falls cfg thread
  refused : peer.bonded ≠ 0 →
    ∃ next, peer.step .refuse = some next ∧
      ∀ target, next.peerDown target = true
  returned : ∀ thread call, peer.pcs thread = .returned call .peer →
    ∀ target, peer.peerDown target = true

/-- A thread that has gone on to fail the peer brings it down. -/
theorem goto_falls (failing : 0 < pc.left peer.bonded) :
    (peer.goto thread pc).Falls cfg thread := by
  refine falls_of_left cfg ?_
  rw [pcs_goto_self]
  exact failing

/-- A socket that tells of a failure brings the peer down. -/
theorem service_falls {target : Target} {m : Xmsg}
    (reads : (peer.pcs thread).reads ≠ none) (has : peer.HasLink target)
    (up : peer.peerDown target = false)
    (told : peer.serviced target m ≠ none) :
    ∃ next, peer.step (.service thread target m) = some next ∧
      next.Falls cfg thread := by
  obtain ⟨after, here⟩ := Option.ne_none_iff_exists'.mp reads
  obtain ⟨why, said⟩ := Option.ne_none_iff_exists'.mp told
  simp only [Peer.step, here, has, up, said, and_self, if_true]
  refine ⟨_, rfl, goto_falls cfg ?_⟩
  simp only [Pc.left]
  omega

theorem heeds (reached : (machine cfg).Reach peer) : peer.Heeds cfg where
  progress := by
    intro thread target link idle has up
    simp only [Peer.step, idle, has, up, and_self, if_true,
      Bool.false_eq_true, if_false]
    refine ⟨_, rfl, goto_falls cfg ?_⟩
    simp only [Pc.left]
    omega
  bye := by
    intro thread target m reads has up role kind ours
    refine service_falls cfg reads has up ?_
    rw [serviced, if_neg (not_not.mpr role), if_pos ⟨kind, ours⟩]
    exact Option.some_ne_none _
  restart := by
    intro thread target m reads has up role kind other
    refine service_falls cfg reads has up ?_
    rw [serviced, if_neg (not_not.mpr role), if_neg, if_pos ⟨kind, other⟩]
    · exact Option.some_ne_none _
    · rintro ⟨bye | err, -⟩
      · rw [kind] at bye
        cases bye
      · rw [kind] at err
        cases err
  link := by
    intro thread call luck target why stands op
    simp only [Peer.step, Peer.proceed, stands, op]
    refine ⟨_, rfl, goto_falls cfg ?_⟩
    simp only [Pc.left]
    omega
  call := by
    intro thread call luck stands op
    simp only [Peer.step, Peer.proceed, stands, op, if_true]
    refine ⟨_, rfl, goto_falls cfg ?_⟩
    simp only [Pc.left]
    omega
  refused := by
    intro bonded
    refine ⟨_, if_pos bonded, peerDown_of_down rfl⟩
  returned := by
    intro thread call stands
    refine peerDown_of_down (told_down cfg reached thread ?_)
    rw [stands]
    trivial

end

end Peer

end Failure
end Fabric
end Mcdma
