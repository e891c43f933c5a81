import Mcdma.Fabric.FailureMoves

/-!
# What a failure leaves behind

The first thread to exchange `failing` records the reason and gives each link one
right to send an error datagram.  No step gives a second one, takes the peer up
again or lets a call past its look at a peer that is down.
-/

namespace Mcdma
namespace Fabric
namespace Failure

/-- Whether and by whom the failure has been claimed. -/
inductive Phase where
  | unclaimed
  | claimed (thread : Nat)
  | past
  deriving DecidableEq

/-- The one right to send a link's error datagram: not yet given out, in the
link's flag, with a thread, or used up. -/
inductive Token where
  | unborn
  | flagged
  | held (thread : Nat)
  | spent
  deriving DecidableEq

/-- The thread has claimed the failure and is recording it. -/
def Pc.Claims : Pc → Prop
  | .record _ | .publish _ | .flag _ _ => True
  | _ => False

/-- The thread is about to send a link's error datagram. -/
def Pc.Sends (target : Target) : Pc → Prop
  | .tellSend other _ => other = target
  | _ => False

/-- What a link's token says of its flag and of what it has sent. -/
structure Peer.Holds (peer : Peer) (token : Token) (target : Target) :
    Prop where
  flag : peer.tell target = true ↔ token = .flagged
  sends : ∀ thread, (peer.pcs thread).Sends target ↔ token = .held thread
  sent : peer.sent target = [] ∨
    token = .spent ∧ (peer.sent target).length = 1

/-- A call on a peer that was down at its start has posted nothing. -/
def Call.Idle (call : Call) (down : Bool) : Prop :=
  call.late = true → down = true ∧ call.posts = 0

/-- A call on a peer that was down at its start does not come to its body. -/
def Next.Honest (down : Bool) : Next → Prop
  | .idle => True
  | .body call => call.late = false
  | .settle call | .failed call => call.Idle down

def Pc.Honest (down : Bool) : Pc → Prop
  | .idle => True
  | .claim job | .record job | .publish job | .flag job _ | .mark job
  | .markBond job | .markTop job => job.next.Honest down
  | .tellLoad _ next | .tellSwap _ next | .tellSend _ next => next.Honest down
  | .look call | .settle call => call.Idle down
  | .body call => call.late = false
  | .returned call status =>
      call.late = true → status ≠ .ok ∧ call.posts = 0

/-- The tokens the claiming thread has not given out yet. -/
def Unborn (tokens : Target → Token) : Pc → Prop
  | .flag _ index =>
      ∀ target, (target = .top ∧ index = 0 ∨
        ∃ lane, target = .lane lane ∧ index ≤ lane) →
        tokens target = .unborn
  | _ => ∀ target, tokens target = .unborn

/-- What holds in every state, with what has become of the claim and of each
token. -/
structure Peer.Inv (peer : Peer) (phase : Phase) (tokens : Target → Token) :
    Prop where
  claims : ∀ thread, (peer.pcs thread).Claims ↔ phase = .claimed thread
  failing : peer.failing = false ↔ phase = .unclaimed
  holds : ∀ target, peer.Holds (tokens target) target
  before : phase = .unclaimed → peer.whyDone = false ∧
    ∀ target, tokens target = .unborn
  during : ∀ thread, phase = .claimed thread →
    Unborn tokens (peer.pcs thread) ∧
      ((∃ job, peer.pcs thread = .record job ∨
        peer.pcs thread = .publish job) → peer.whyDone = false)
  honest : ∀ thread, (peer.pcs thread).Honest peer.down
  whole : ∀ lane, peer.laneDown lane = true → peer.down = true ∨
    ∃ thread job, peer.pcs thread = .markBond job ∧ job.target = .lane lane

namespace Peer

/-! ## What every step keeps -/

theorem honest_lower {down : Bool} {pc : Pc} (honest : pc.Honest down) :
    pc.Honest true := by
  have idle : ∀ {call : Call}, call.Idle down → call.Idle true :=
    fun idle late => ⟨rfl, (idle late).2⟩
  have next : ∀ {next : Next}, next.Honest down → next.Honest true := by
    intro next honest
    cases next with
    | idle => trivial
    | body call => exact honest
    | settle call => exact idle honest
    | failed call => exact idle honest
  cases pc with
  | idle => trivial
  | look call => exact idle honest
  | settle call => exact idle honest
  | body call => exact honest
  | returned call status => exact honest
  | _ => exact next honest

theorem honest_next {down : Bool} {next : Next} (honest : next.Honest down) :
    next.pc.Honest down := by
  cases next with
  | idle => trivial
  | body call => exact honest
  | settle call => exact honest
  | failed call => exact fun late => ⟨nofun, (honest late).2⟩

section

variable {peer : Peer} {phase : Phase} {tokens : Target → Token}
variable {thread : Nat} {pc : Pc}

/-- The thread that steps is looked at apart from the others. -/
theorem pcs_goto {motive : Nat → Pc → Prop}
    (self : motive thread pc)
    (others : ∀ other, other ≠ thread → motive other (peer.pcs other))
    (other : Nat) : motive other ((peer.goto thread pc).pcs other) := by
  simp only [goto]
  by_cases same : other = thread
  · subst same
    rw [Function.update_self]
    exact self
  · rw [Function.update_of_ne same]
    exact others other same

/-- A link that is down has taken the bond with it, or is about to. -/
theorem Inv.whole_goto (inv : peer.Inv phase tokens)
    (marked : ∀ job, peer.pcs thread = .markBond job → peer.down = true)
    (lane : Nat) (down : peer.laneDown lane = true) :
    peer.down = true ∨ ∃ other job,
      (peer.goto thread pc).pcs other = .markBond job ∧
        job.target = .lane lane := by
  rcases inv.whole lane down with top | ⟨other, job, marks, here⟩
  · exact .inl top
  · by_cases same : other = thread
    · subst same
      exact .inl (marked job marks)
    · refine .inr ⟨other, job, ?_, here⟩
      simp only [Peer.goto, Function.update_of_ne same]
      exact marks

/-- A thread that neither claims nor sends moves on. -/
theorem Inv.goto (inv : peer.Inv phase tokens)
    (before : ¬(peer.pcs thread).Claims) (after : ¬pc.Claims)
    (unsent : ∀ target, ¬(peer.pcs thread).Sends target)
    (sends : ∀ target, ¬pc.Sends target) (honest : pc.Honest peer.down)
    (marked : ∀ job, peer.pcs thread = .markBond job → peer.down = true) :
    (peer.goto thread pc).Inv phase tokens where
  claims := by
    refine pcs_goto (motive := fun other pc =>
      pc.Claims ↔ phase = .claimed other) ?_ fun other _ => inv.claims other
    exact iff_of_false after fun mine => before ((inv.claims thread).mpr mine)
  failing := inv.failing
  holds := by
    intro target
    have holds := inv.holds target
    refine ⟨holds.flag, ?_, holds.sent⟩
    refine pcs_goto (motive := fun other pc => pc.Sends target ↔
      tokens target = .held other) ?_ fun other _ => holds.sends other
    exact iff_of_false (sends target) fun mine =>
      unsent target ((holds.sends thread).mpr mine)
  before := inv.before
  during := by
    intro claimer mine
    have different : claimer ≠ thread := by
      rintro rfl
      exact before ((inv.claims claimer).mpr mine)
    simp only [Peer.goto, Function.update_of_ne different]
    exact inv.during claimer mine
  honest := pcs_goto (motive := fun _ pc => pc.Honest peer.down) honest
    fun other _ => inv.honest other
  whole := inv.whole_goto marked

/-- The peer goes down. -/
theorem Inv.lower (inv : peer.Inv phase tokens) :
    { peer with down := true }.Inv phase tokens where
  claims := inv.claims
  failing := inv.failing
  holds := fun target => ⟨(inv.holds target).1, (inv.holds target).2,
    (inv.holds target).3⟩
  before := inv.before
  during := inv.during
  honest := fun other => honest_lower (inv.honest other)
  whole := fun _ _ => .inl rfl

/-- A thread claims the failure. -/
theorem Inv.claim (inv : peer.Inv phase tokens) {job : Job}
    (stands : peer.pcs thread = .claim job) (first : peer.failing = false) :
    ({ peer with failing := true }.goto thread (.record job)).Inv
      (.claimed thread) tokens := by
  have unclaimed := inv.failing.mp first
  obtain ⟨unpublished, unborn⟩ := inv.before unclaimed
  refine ⟨?_, iff_of_false nofun nofun, ?_, nofun, ?_, ?_, ?_⟩
  · refine pcs_goto (motive := fun other pc =>
      pc.Claims ↔ Phase.claimed thread = .claimed other)
      (iff_of_true trivial rfl) ?_
    intro other different
    refine iff_of_false ?_ ?_
    · intro claims
      have mine := (inv.claims other).mp claims
      rw [unclaimed] at mine
      cases mine
    · intro same
      exact different (Phase.claimed.inj same).symm
  · intro target
    have holds := inv.holds target
    refine ⟨holds.flag, ?_, holds.sent⟩
    refine pcs_goto (motive := fun other pc => pc.Sends target ↔
      tokens target = .held other) ?_ fun other _ => holds.sends other
    refine iff_of_false (fun sends => sends) ?_
    rw [unborn target]
    exact nofun
  · intro claimer mine
    have same := Phase.claimed.inj mine
    subst same
    simp only [Peer.goto, Function.update_self]
    exact ⟨unborn, fun _ => unpublished⟩
  · have honest := inv.honest thread
    rw [stands] at honest
    exact pcs_goto (motive := fun _ pc => pc.Honest peer.down) honest
      fun other _ => inv.honest other
  · refine inv.whole_goto ?_
    intro marking marks
    rw [stands] at marks
    cases marks

/-- The claiming thread records the reason and gives out tokens. -/
theorem Inv.claimer (inv : peer.Inv phase tokens) {why : String}
    {whyDone : Bool} {tell : Target → Bool} {given : Target → Token}
    (mine : (peer.pcs thread).Claims) (after : pc.Claims)
    (honest : pc.Honest peer.down)
    (flag : ∀ target, tell target = true ↔ given target = .flagged)
    (gives : ∀ target, given target = tokens target ∨
      tokens target = .unborn ∧ given target = .flagged)
    (unborn : Unborn given pc)
    (unpublished : (∃ job, pc = .record job ∨ pc = .publish job) →
      whyDone = false) :
    ({ peer with why := why, whyDone := whyDone, tell := tell }.goto thread
      pc).Inv (.claimed thread) given := by
  have claimed := (inv.claims thread).mp mine
  have silent : ∀ target, ¬pc.Sends target := by
    intro target
    cases pc with
    | record job => exact fun sends => sends
    | publish job => exact fun sends => sends
    | flag job index => exact fun sends => sends
    | _ => exact after.elim
  have quiet : ∀ target, ¬(peer.pcs thread).Sends target := by
    intro target
    cases stands : peer.pcs thread with
    | tellSend other next =>
        rw [stands] at mine
        exact mine.elim
    | _ => exact fun sends => sends
  refine ⟨?_, ?_, ?_, nofun, ?_, ?_, ?_⟩
  · refine pcs_goto (motive := fun other pc =>
      pc.Claims ↔ Phase.claimed thread = .claimed other)
      (iff_of_true after rfl) ?_
    intro other _
    rw [← claimed]
    exact inv.claims other
  · refine iff_of_false ?_ nofun
    intro first
    have unclaimed := inv.failing.mp first
    rw [claimed] at unclaimed
    cases unclaimed
  · intro target
    have holds := inv.holds target
    refine ⟨flag target, ?_, ?_⟩
    · have same : ∀ other, given target = .held other ↔
          tokens target = .held other := by
        intro other
        rcases gives target with same | ⟨old, new⟩
        · rw [same]
        · rw [old, new]
          exact iff_of_false nofun nofun
      refine pcs_goto (motive := fun other pc => pc.Sends target ↔
        given target = .held other) ?_ ?_
      · rw [same]
        exact iff_of_false (silent target) fun held =>
          quiet target ((holds.sends thread).mpr held)
      · intro other _
        rw [same]
        exact holds.sends other
    · rcases holds.sent with none | ⟨spent, one⟩
      · exact .inl none
      · rcases gives target with same | ⟨old, new⟩
        · exact .inr ⟨same.trans spent, one⟩
        · rw [old] at spent
          cases spent
  · intro claimer same
    have equal := Phase.claimed.inj same
    subst equal
    simp only [Peer.goto, Function.update_self]
    exact ⟨unborn, unpublished⟩
  · exact pcs_goto (motive := fun _ pc => pc.Honest peer.down) honest
      fun other _ => inv.honest other
  · refine inv.whole_goto ?_
    intro job marks
    rw [marks] at mine
    exact mine.elim

/-- The claiming thread has recorded everything. -/
theorem Inv.recorded (inv : peer.Inv phase tokens) {job : Job} {index : Nat}
    (stands : peer.pcs thread = .flag job index) :
    (peer.goto thread (.mark job)).Inv .past tokens := by
  have mine : (peer.pcs thread).Claims := by
    rw [stands]
    trivial
  have claimed := (inv.claims thread).mp mine
  refine ⟨?_, ?_, ?_, nofun, nofun, ?_, ?_⟩
  · refine pcs_goto (motive := fun other pc =>
      pc.Claims ↔ Phase.past = .claimed other)
      (iff_of_false (fun claims => claims) nofun) ?_
    intro other different
    refine iff_of_false ?_ nofun
    intro claims
    have same := (inv.claims other).mp claims
    rw [claimed] at same
    exact different (Phase.claimed.inj same).symm
  · refine iff_of_false ?_ nofun
    intro first
    have unclaimed := inv.failing.mp first
    rw [claimed] at unclaimed
    cases unclaimed
  · intro target
    have holds := inv.holds target
    refine ⟨holds.flag, ?_, holds.sent⟩
    refine pcs_goto (motive := fun other pc => pc.Sends target ↔
      tokens target = .held other) ?_ fun other _ => holds.sends other
    have other := holds.sends thread
    rw [stands] at other
    exact other
  · have honest := inv.honest thread
    rw [stands] at honest
    exact pcs_goto (motive := fun _ pc => pc.Honest peer.down) honest
      fun other _ => inv.honest other
  · refine inv.whole_goto ?_
    intro marking marks
    rw [stands] at marks
    cases marks

/-- A link goes down before its bond does. -/
theorem Inv.markLane (inv : peer.Inv phase tokens) {job : Job} {lane : Nat}
    (stands : peer.pcs thread = .mark job) (here : job.target = .lane lane) :
    ({ peer with
      laneDown := Function.update peer.laneDown lane true }.goto thread
        (.markBond job)).Inv phase tokens := by
  have moved : (peer.goto thread (.markBond job)).Inv phase tokens := by
    have honest := inv.honest thread
    rw [stands] at honest
    refine inv.goto ?_ (fun claims => claims) ?_ (fun _ sends => sends) honest ?_
    · rw [stands]
      exact fun claims => claims
    · rw [stands]
      exact fun _ sends => sends
    · intro marking marks
      rw [stands] at marks
      cases marks
  refine ⟨moved.claims, moved.failing, fun target => ⟨(moved.holds target).1,
    (moved.holds target).2, (moved.holds target).3⟩, moved.before,
    moved.during, moved.honest, ?_⟩
  intro other down
  by_cases same : other = lane
  · subst same
    refine .inr ⟨thread, job, ?_, here⟩
    simp only [Peer.goto, Function.update_self]
  · apply moved.whole other
    have kept : Function.update peer.laneDown lane true other = true := down
    rw [Function.update_of_ne same] at kept
    exact kept

/-- One link's token moves with a thread's step. -/
theorem Inv.token (inv : peer.Inv phase tokens) (target : Target)
    (token : Token) (tell : Bool) (sent : List String)
    (before : ¬(peer.pcs thread).Claims) (after : ¬pc.Claims)
    (born : tokens target ≠ .unborn)
    (flag : tell = true ↔ token = .flagged)
    (self : pc.Sends target ↔ token = .held thread)
    (others : ∀ other, other ≠ thread →
      ((peer.pcs other).Sends target ↔ token = .held other))
    (elsewhere : ∀ other, other ≠ target →
      ((peer.pcs thread).Sends other ↔ pc.Sends other))
    (once : sent = [] ∨ token = .spent ∧ sent.length = 1)
    (honest : pc.Honest peer.down)
    (marked : ∀ job, peer.pcs thread ≠ .markBond job) :
    ({ peer with
      tell := Function.update peer.tell target tell
      sent := Function.update peer.sent target sent }.goto thread pc).Inv phase
        (Function.update tokens target token) := by
  refine ⟨?_, inv.failing, ?_, ?_, ?_, ?_, ?_⟩
  · refine pcs_goto (motive := fun other pc =>
      pc.Claims ↔ phase = .claimed other) ?_ fun other _ => inv.claims other
    exact iff_of_false after fun mine => before ((inv.claims thread).mpr mine)
  · intro link
    by_cases same : link = target
    · subst same
      rw [Function.update_self]
      refine ⟨?_, ?_, ?_⟩
      · simp only [Peer.goto, Function.update_self]
        exact flag
      · exact pcs_goto (motive := fun other pc => pc.Sends link ↔
          token = .held other) self others
      · simp only [Peer.goto, Function.update_self]
        exact once
    · rw [Function.update_of_ne same]
      have holds := inv.holds link
      refine ⟨?_, ?_, ?_⟩
      · simp only [Peer.goto, Function.update_of_ne same]
        exact holds.flag
      · refine pcs_goto (motive := fun other pc => pc.Sends link ↔
          tokens link = .held other) ?_ fun other _ => holds.sends other
        exact (elsewhere link same).symm.trans (holds.sends thread)
      · simp only [Peer.goto, Function.update_of_ne same]
        exact holds.sent
  · intro unclaimed
    exact absurd ((inv.before unclaimed).2 target) born
  · intro claimer mine
    have different : claimer ≠ thread := by
      rintro rfl
      exact before ((inv.claims claimer).mpr mine)
    obtain ⟨unborn, unpublished⟩ := inv.during claimer mine
    simp only [Peer.goto, Function.update_of_ne different]
    refine ⟨?_, unpublished⟩
    cases stands : peer.pcs claimer with
    | flag job index =>
        rw [stands] at unborn
        intro link waits
        rw [Function.update_of_ne]
        · exact unborn link waits
        · rintro rfl
          exact born (unborn link waits)
    | _ =>
        rw [stands] at unborn
        exact absurd (unborn target) born
  · exact pcs_goto (motive := fun _ pc => pc.Honest peer.down) honest
      fun other _ => inv.honest other
  · exact inv.whole_goto fun job marks => absurd marks (marked job)

end

/-! ## Every step -/

/-- The threads that neither claim, send nor mark. -/
def Plain : Pc → Prop
  | .record _ | .publish _ | .flag _ _ | .markBond _ | .tellSend _ _ => False
  | _ => True

section

variable {peer next : Peer} {phase : Phase} {tokens : Target → Token}
variable {thread : Nat} {pc : Pc} {luck : Luck}

theorem Plain.claims (plain : Plain pc) : ¬pc.Claims := by
  cases pc with
  | record => exact plain.elim
  | publish => exact plain.elim
  | flag => exact plain.elim
  | _ => exact fun claims => claims

theorem Plain.sends (plain : Plain pc) (target : Target) :
    ¬pc.Sends target := by
  cases pc with
  | tellSend => exact plain.elim
  | _ => exact fun sends => sends

theorem plain_next (next : Next) : Plain next.pc := by
  cases next <;> trivial

theorem plain_done (job : Job) : Plain job.done := by
  unfold Job.done
  cases job.tells with
  | none => exact plain_next job.next
  | some target => trivial

/-- A thread moves between plain places. -/
theorem Inv.plain (inv : peer.Inv phase tokens)
    (before : Plain (peer.pcs thread)) (after : Plain pc)
    (honest : pc.Honest peer.down) :
    (peer.goto thread pc).Inv phase tokens := by
  refine inv.goto before.claims after.claims before.sends after.sends honest ?_
  intro job marks
  rw [marks] at before
  exact before.elim

/-- A thread marks the peer down and goes on. -/
theorem Inv.marks (inv : peer.Inv phase tokens)
    (unclaimed : ¬(peer.pcs thread).Claims)
    (unsent : ∀ target, ¬(peer.pcs thread).Sends target) (after : Plain pc)
    (honest : pc.Honest true) :
    ({ peer with down := true }.goto thread pc).Inv phase tokens :=
  inv.lower.goto unclaimed after.claims unsent after.sends honest
    fun _ _ => rfl

/-- Marking the links to tell the other end. -/
theorem Inv.flag (inv : peer.Inv phase tokens) {job : Job} {index : Nat}
    (stands : peer.pcs thread = .flag job index) {target : Target}
    (waits : target = .top ∧ index = 0 ∨ target = .lane index)
    (tell : Target → Bool) (told : tell = Function.update peer.tell target true) :
    ({ peer with tell := tell }.goto thread (.flag job (index + 1))).Inv
      (.claimed thread) (Function.update tokens target .flagged) := by
  have mine : (peer.pcs thread).Claims := by
    rw [stands]
    trivial
  have unborn := (inv.during thread ((inv.claims thread).mp mine)).1
  rw [stands] at unborn
  have honest := inv.honest thread
  rw [stands] at honest
  subst told
  refine inv.claimer mine trivial honest ?_ ?_ ?_ ?_
  · intro other
    by_cases same : other = target
    · subst same
      simp
    · rw [Function.update_of_ne same, Function.update_of_ne same]
      exact (inv.holds other).flag
  · intro other
    by_cases same : other = target
    · subst same
      refine .inr ⟨unborn other ?_, Function.update_self _ _ _⟩
      rcases waits with top | lane
      · exact .inl top
      · exact .inr ⟨index, lane, le_rfl⟩
    · exact .inl (Function.update_of_ne same _ _)
  · intro other later
    rcases later with ⟨-, zero⟩ | ⟨lane, here, above⟩
    · simp at zero
    · have different : other ≠ target := by
        rintro rfl
        rcases waits with ⟨top, -⟩ | same
        · rw [top] at here
          cases here
        · rw [same] at here
          have equal := Target.lane.inj here
          omega
      rw [Function.update_of_ne different]
      exact unborn other (.inr ⟨lane, here, by omega⟩)
  · rintro ⟨other, records | publishes⟩
    · cases records
    · cases publishes

/-- `tell_peer` takes the right to send out of the link's flag. -/
theorem Inv.swap (inv : peer.Inv phase tokens) {target : Target}
    {after : Next} (stands : peer.pcs thread = .tellSwap target after)
    (told : peer.tell target = true) :
    ({ peer with
      tell := Function.update peer.tell target false
      sent := Function.update peer.sent target (peer.sent target) }.goto thread
        (.tellSend target after)).Inv phase
        (Function.update tokens target (.held thread)) := by
  have holds := inv.holds target
  have flagged := holds.flag.mp told
  have plain : Plain (peer.pcs thread) := stands ▸ trivial
  have honest := inv.honest thread
  rw [stands] at honest
  refine inv.token target (.held thread) false (peer.sent target) plain.claims
    (fun claims => claims) ?_ (iff_of_false nofun nofun)
    (iff_of_true rfl rfl) ?_ ?_ ?_ honest ?_
  · rw [flagged]
    exact nofun
  · intro other different
    rw [holds.sends other, flagged]
    exact iff_of_false nofun fun same => different (Token.held.inj same).symm
  · intro other different
    rw [stands]
    exact iff_of_false (fun sends => sends) fun same => different same.symm
  · rcases holds.sent with none | ⟨spent, -⟩
    · exact .inl none
    · rw [flagged] at spent
      cases spent
  · intro job marks
    rw [stands] at marks
    cases marks

/-- Nothing was sent while a thread holds the right to send. -/
theorem Inv.unsent (inv : peer.Inv phase tokens) {target : Target}
    {after : Next} (stands : peer.pcs thread = .tellSend target after) :
    peer.sent target = [] := by
  have holds := inv.holds target
  have mine : (peer.pcs thread).Sends target := by
    rw [stands]
    rfl
  have held := (holds.sends thread).mp mine
  rcases holds.sent with none | ⟨spent, -⟩
  · exact none
  · rw [held] at spent
    cases spent

/-- `tell_peer` sends, or finds no socket to send on. -/
theorem Inv.send (inv : peer.Inv phase tokens) {target : Target}
    {after : Next} (stands : peer.pcs thread = .tellSend target after)
    (sent : List String) (once : sent = [] ∨ sent.length = 1) :
    ({ peer with
      tell := Function.update peer.tell target (peer.tell target)
      sent := Function.update peer.sent target sent }.goto thread
        after.pc).Inv phase (Function.update tokens target .spent) := by
  have holds := inv.holds target
  have mine : (peer.pcs thread).Sends target := by
    rw [stands]
    rfl
  have held := (holds.sends thread).mp mine
  have plain := plain_next after
  have honest := inv.honest thread
  rw [stands] at honest
  refine inv.token target .spent (peer.tell target) sent ?_ plain.claims ?_ ?_
    (iff_of_false (plain.sends target) nofun) ?_ ?_ ?_ (honest_next honest) ?_
  · rw [stands]
    exact fun claims => claims
  · rw [held]
    exact nofun
  · rw [holds.flag, held]
    exact iff_of_false nofun nofun
  · intro other different
    rw [holds.sends other, held]
    exact iff_of_false (fun same => different (Token.held.inj same).symm) nofun
  · intro other different
    rw [stands]
    exact iff_of_false (fun same => different same.symm) (plain.sends other)
  · exact once.imp_right fun one => ⟨rfl, one⟩
  · intro job marks
    rw [stands] at marks
    cases marks

section

variable (inv : peer.Inv phase tokens)

include inv

/-- A thread exchanges `failing`. -/
theorem Inv.proceedClaim {job : Job} (stands : peer.pcs thread = .claim job)
    (moves : Proceeds peer thread luck (.claim job) next) :
    ∃ phase tokens, next.Inv phase tokens := by
  have honest := inv.honest thread
  rw [stands] at honest
  cases moves with
  | loses failing =>
      exact ⟨_, _, inv.plain (stands ▸ trivial) trivial honest⟩
  | claims first => exact ⟨_, _, inv.claim stands first⟩

/-- The claiming thread writes the reason. -/
theorem Inv.proceedRecord {job : Job} (stands : peer.pcs thread = .record job)
    (moves : Proceeds peer thread luck (.record job) next) :
    ∃ phase tokens, next.Inv phase tokens := by
  have honest := inv.honest thread
  rw [stands] at honest
  cases moves with
  | records =>
      have mine : (peer.pcs thread).Claims := stands ▸ trivial
      obtain ⟨unborn, unpublished⟩ :=
        inv.during thread ((inv.claims thread).mp mine)
      rw [stands] at unborn
      exact ⟨_, _, inv.claimer mine trivial honest
        (fun target => (inv.holds target).flag) (fun _ => .inl rfl) unborn
        fun _ => unpublished ⟨job, .inl stands⟩⟩

/-- The claiming thread publishes the reason. -/
theorem Inv.proceedPublish {job : Job} (stands : peer.pcs thread = .publish job)
    (moves : Proceeds peer thread luck (.publish job) next) :
    ∃ phase tokens, next.Inv phase tokens := by
  have honest := inv.honest thread
  rw [stands] at honest
  cases moves with
  | publishes =>
      have mine : (peer.pcs thread).Claims := stands ▸ trivial
      have unborn := (inv.during thread ((inv.claims thread).mp mine)).1
      rw [stands] at unborn
      refine ⟨_, _, inv.claimer mine trivial honest
        (fun target => (inv.holds target).flag) (fun _ => .inl rfl)
        (fun target _ => unborn target) ?_⟩
      rintro ⟨other, records | publishes⟩
      · cases records
      · cases publishes

/-- The claiming thread comes to a link. -/
theorem Inv.proceedFlag {job : Job} {index : Nat}
    (stands : peer.pcs thread = .flag job index)
    (moves : Proceeds peer thread luck (.flag job index) next) :
    ∃ phase tokens, next.Inv phase tokens := by
  have honest := inv.honest thread
  rw [stands] at honest
  cases moves with
  | flagsTop tell more single =>
      have zero : index = 0 := by
        simp only [single] at more
        omega
      exact ⟨_, _, inv.flag stands (.inl ⟨rfl, zero⟩) _ rfl⟩
  | flagsLane tell more bonded part =>
      exact ⟨_, _, inv.flag stands (.inr rfl) _ rfl⟩
  | skips tell more bonded apart =>
      have mine : (peer.pcs thread).Claims := stands ▸ trivial
      have unborn := (inv.during thread ((inv.claims thread).mp mine)).1
      rw [stands] at unborn
      refine ⟨_, _, inv.claimer mine trivial honest
        (fun target => (inv.holds target).flag) (fun _ => .inl rfl) ?_ ?_⟩
      · intro target later
        apply unborn target
        rcases later with ⟨-, zero⟩ | ⟨lane, here, above⟩
        · simp at zero
        · exact .inr ⟨lane, here, by omega⟩
      · rintro ⟨other, records | publishes⟩
        · cases records
        · cases publishes
  | flagged past => exact ⟨_, _, inv.recorded stands⟩

/-- A thread marks the peer that failed. -/
theorem Inv.proceedMark {job : Job} (stands : peer.pcs thread = .mark job)
    (moves : Proceeds peer thread luck (.mark job) next) :
    ∃ phase tokens, next.Inv phase tokens := by
  have honest := inv.honest thread
  rw [stands] at honest
  have plain : Plain (peer.pcs thread) := stands ▸ trivial
  cases moves with
  | marksPeer target =>
      exact ⟨_, _, inv.marks plain.claims plain.sends trivial
        (honest_lower honest)⟩
  | marksLane target => exact ⟨_, _, inv.markLane stands target⟩

/-- A thread marks a link's bond. -/
theorem Inv.proceedMarkBond {job : Job}
    (stands : peer.pcs thread = .markBond job)
    (moves : Proceeds peer thread luck (.markBond job) next) :
    ∃ phase tokens, next.Inv phase tokens := by
  have honest := inv.honest thread
  rw [stands] at honest
  cases moves with
  | marksBond =>
      refine ⟨_, _, inv.marks ?_ ?_ trivial (honest_lower honest)⟩
      · rw [stands]
        exact fun claims => claims
      · rw [stands]
        exact fun _ sends => sends

/-- A thread has failed the peer. -/
theorem Inv.proceedMarkTop {job : Job} (stands : peer.pcs thread = .markTop job)
    (moves : Proceeds peer thread luck (.markTop job) next) :
    ∃ phase tokens, next.Inv phase tokens := by
  have honest := inv.honest thread
  rw [stands] at honest
  have plain : Plain (peer.pcs thread) := stands ▸ trivial
  cases moves with
  | marksTop =>
      have ended : job.done.Honest peer.down := by
        unfold Job.done
        cases job.tells with
        | none => exact honest_next honest
        | some target => exact honest
      exact ⟨_, _, inv.marks plain.claims plain.sends (plain_done job)
        (honest_lower ended)⟩

/-- `tell_peer` reads `tell`. -/
theorem Inv.proceedTellLoad {target : Target} {after : Next}
    (stands : peer.pcs thread = .tellLoad target after)
    (moves : Proceeds peer thread luck (.tellLoad target after) next) :
    ∃ phase tokens, next.Inv phase tokens := by
  have honest := inv.honest thread
  rw [stands] at honest
  cases moves with
  | loads =>
      split
      · exact ⟨_, _, inv.plain (stands ▸ trivial) trivial honest⟩
      · exact ⟨_, _, inv.plain (stands ▸ trivial) (plain_next after)
          (honest_next honest)⟩

/-- `tell_peer` exchanges `tell`. -/
theorem Inv.proceedTellSwap {target : Target} {after : Next}
    (stands : peer.pcs thread = .tellSwap target after)
    (moves : Proceeds peer thread luck (.tellSwap target after) next) :
    ∃ phase tokens, next.Inv phase tokens := by
  have honest := inv.honest thread
  rw [stands] at honest
  have plain : Plain (peer.pcs thread) := stands ▸ trivial
  cases moves with
  | swaps =>
      cases told : peer.tell target with
      | false =>
          have kept : Function.update peer.tell target false = peer.tell := by
            rw [← told]
            exact Function.update_eq_self _ _
          rw [kept]
          exact ⟨_, _, inv.plain plain (plain_next after) (honest_next honest)⟩
      | true =>
          have kept : Function.update peer.sent target (peer.sent target) =
              peer.sent := Function.update_eq_self _ _
          have swapped := inv.swap stands told
          rw [kept] at swapped
          exact ⟨_, _, swapped⟩

/-- `tell_peer` sends. -/
theorem Inv.proceedTellSend {target : Target} {after : Next}
    (stands : peer.pcs thread = .tellSend target after)
    (moves : Proceeds peer thread luck (.tellSend target after) next) :
    ∃ phase tokens, next.Inv phase tokens := by
  have kept : Function.update peer.tell target (peer.tell target) =
      peer.tell := Function.update_eq_self _ _
  cases moves with
  | sends opened =>
      have sent := inv.send stands (peer.sent target ++
        [if peer.whyDone = true then peer.why else "failed"])
        (by simp [inv.unsent stands])
      rw [kept] at sent
      exact ⟨_, _, sent⟩
  | sendsNothing shut =>
      have same : Function.update peer.sent target (peer.sent target) =
          peer.sent := Function.update_eq_self _ _
      have sent := inv.send stands (peer.sent target)
        (by simp [inv.unsent stands])
      rw [kept, same] at sent
      exact ⟨_, _, sent⟩

/-- A call looks whether the peer is down. -/
theorem Inv.proceedLook {call : Call} (stands : peer.pcs thread = .look call)
    (moves : Proceeds peer thread luck (.look call) next) :
    ∃ phase tokens, next.Inv phase tokens := by
  have honest := inv.honest thread
  rw [stands] at honest
  have plain : Plain (peer.pcs thread) := stands ▸ trivial
  cases moves with
  | failsFlush closed fences target tell tells after =>
      refine ⟨_, _, inv.plain plain trivial ?_⟩
      rw [Pc.Honest, after]
      exact honest
  | turnsBack closed other =>
      exact ⟨_, _, inv.plain plain trivial honest⟩
  | enters up =>
      refine ⟨_, _, inv.plain plain trivial ?_⟩
      cases late : call.late with
      | false => exact late
      | true => exact absurd (.inl (honest late).1) up

/-- A call that found the peer up goes on. -/
theorem Inv.proceedBody {call : Call} (stands : peer.pcs thread = .body call)
    (moves : Proceeds peer thread luck (.body call) next) :
    ∃ phase tokens, next.Inv phase tokens := by
  have punctual := inv.honest thread
  rw [stands] at punctual
  have plain : Plain (peer.pcs thread) := stands ▸ trivial
  cases moves with
  | posts op => exact ⟨_, _, inv.plain plain trivial punctual⟩
  | failsLink op target tell tells after =>
      refine ⟨_, _, inv.plain plain trivial ?_⟩
      rw [Pc.Honest, after]
      exact punctual
  | tells op => exact ⟨_, _, inv.plain plain trivial punctual⟩
  | @finishes call failed op =>
      have never : call.late ≠ true := by
        rw [show call.late = false from punctual]
        exact Bool.false_ne_true
      cases failed with
      | true =>
          exact ⟨_, _, inv.plain plain trivial fun late => absurd late never⟩
      | false =>
          exact ⟨_, _, inv.plain plain trivial fun late => absurd late never⟩

/-- A call that failed fails the peer. -/
theorem Inv.proceedSettle {call : Call} (stands : peer.pcs thread = .settle call)
    (moves : Proceeds peer thread luck (.settle call) next) :
    ∃ phase tokens, next.Inv phase tokens := by
  have honest := inv.honest thread
  rw [stands] at honest
  cases moves with
  | settles target tell tells after =>
      refine ⟨_, _, inv.plain (stands ▸ trivial) trivial ?_⟩
      rw [Pc.Honest, after]
      exact honest

/-- Every step of a thread keeps the invariant. -/
theorem Inv.proceed
    (moves : Proceeds peer thread luck (peer.pcs thread) next) :
    ∃ phase tokens, next.Inv phase tokens := by
  cases stands : peer.pcs thread <;> rw [stands] at moves
  case idle | returned => cases moves
  case claim job => exact inv.proceedClaim stands moves
  case record job => exact inv.proceedRecord stands moves
  case publish job => exact inv.proceedPublish stands moves
  case flag job index => exact inv.proceedFlag stands moves
  case mark job => exact inv.proceedMark stands moves
  case markBond job => exact inv.proceedMarkBond stands moves
  case markTop job => exact inv.proceedMarkTop stands moves
  case tellLoad target after => exact inv.proceedTellLoad stands moves
  case tellSwap target after => exact inv.proceedTellSwap stands moves
  case tellSend target after => exact inv.proceedTellSend stands moves
  case look call => exact inv.proceedLook stands moves
  case body call => exact inv.proceedBody stands moves
  case settle call => exact inv.proceedSettle stands moves

end

/-- Where sockets are read a thread is at no point of `peer_fail`. -/
theorem reads_plain {pc : Pc} {next : Next} (reads : pc.reads = some next) :
    Plain pc ∧ ∀ down, pc.Honest down → next.Honest down := by
  cases pc with
  | idle =>
      obtain rfl := Option.some.inj reads
      exact ⟨trivial, fun _ honest => honest⟩
  | body call =>
      obtain rfl := Option.some.inj reads
      exact ⟨trivial, fun _ honest => honest⟩
  | _ => cases reads

/-- No call is refused with success. -/
theorem refusal_ne_ok {request : Request} {status : Status}
    (refused : peer.refusal request = some status) : status ≠ .ok := by
  rintro rfl
  cases request with
  | flush timeout => cases refused
  | write off roff length =>
      simp only [refusal] at refused
      split at refused <;> simp at refused
  | signal roff value =>
      simp only [refusal] at refused
      split at refused <;> simp at refused
  | writeSignal off roff length soff value =>
      simp only [refusal] at refused
      split at refused
      · simp at refused
      · split at refused <;> simp at refused

/-- Every step keeps the invariant. -/
theorem Inv.step (inv : peer.Inv phase tokens) {act : Act}
    (taken : peer.step act = some next) :
    ∃ phase tokens, next.Inv phase tokens := by
  cases steps taken with
  | calls stands refused =>
      exact ⟨_, _, inv.plain (stands ▸ trivial) trivial fun late => ⟨late, rfl⟩⟩
  | refused stands refused =>
      exact ⟨_, _, inv.plain (stands ▸ trivial) trivial fun _ =>
        ⟨refusal_ne_ok refused, rfl⟩⟩
  | leaves stands =>
      exact ⟨_, _, inv.plain (stands ▸ trivial) trivial trivial⟩
  | proceeds moves => exact inv.proceed moves
  | tells stands has down =>
      exact ⟨_, _, inv.plain (stands ▸ trivial) trivial trivial⟩
  | fails stands has up target tell tells after =>
      refine ⟨_, _, inv.plain (stands ▸ trivial) trivial ?_⟩
      rw [Pc.Honest, after]
      trivial
  | works stands has up => exact ⟨_, _, inv⟩
  | @hears thread target m job next why reads has up said fails tell tells
      after =>
      obtain ⟨plain, honest⟩ := reads_plain reads
      refine ⟨_, _, inv.plain plain trivial ?_⟩
      rw [Pc.Honest, after]
      exact honest _ (inv.honest thread)
  | ignores reads has up nothing => exact ⟨_, _, inv⟩
  | refuses bonded => exact ⟨_, _, inv.lower⟩

/-- A peer comes up with nothing claimed. -/
theorem Inv.start (cfg : Config) :
    (machine cfg).start.Inv .unclaimed fun _ => .unborn where
  claims := fun _ => iff_of_false (fun claims => claims) nofun
  failing := iff_of_true rfl rfl
  holds := fun _ => ⟨iff_of_false nofun nofun,
    fun _ => iff_of_false (fun sends => sends) nofun, .inl rfl⟩
  before := fun _ => ⟨rfl, fun _ => rfl⟩
  during := nofun
  honest := fun _ => trivial
  whole := nofun

/-- The invariant holds along every run. -/
theorem Inv.ofReach {cfg : Config} (reached : (machine cfg).Reach peer) :
    ∃ phase tokens, peer.Inv phase tokens :=
  reached.invariant (fun peer => ∃ phase tokens, peer.Inv phase tokens)
    ⟨_, _, Inv.start cfg⟩ fun _ _ _ holds taken => by
      obtain ⟨phase, tokens, inv⟩ := holds
      exact inv.step taken

end

end Peer

end Failure
end Fabric
end Mcdma
