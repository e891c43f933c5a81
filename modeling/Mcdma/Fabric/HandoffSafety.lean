import Mcdma.Fabric.Handoff

/-!
# A part is posted once

What each link looks like to the caller at every point of a call, and that every
step of the caller and of the links' threads keeps it so.  The compare-and-
exchange on `ask` decides who posts a part; the caller leaves only when the word
says that nobody does any more.
-/

namespace Mcdma
namespace Fabric
namespace Handoff

/-- What the caller knows of a link. -/
inductive View where
  /-- Not asked in this call. -/
  | fresh
  /-- Done with in this call, with success if `ok`. -/
  | spent (ok : Bool)
  /-- Asked; the link's thread may have taken the ask. -/
  | given
  /-- Asked and answered, with success if `ok`. -/
  | settled (ok : Bool)
  /-- Taken by the caller, who may be in `post_ask`. -/
  | kept (post : Option Post)
  deriving DecidableEq

/-- The thread is in `post_ask`. -/
def Worker.Posting : Worker → Prop
  | .posts _ => True
  | _ => False

/-- The batch has been released and not cancelled. -/
def Batch.Live (batch : Batch) : Prop :=
  batch.go = true ∧ batch.cancel = false

/-- Once a batch is released neither of its words changes. -/
def Batch.Grows (batch next : Batch) : Prop :=
  batch.go = true → next.go = true ∧ next.cancel = batch.cancel

theorem Batch.Grows.live {batch next : Batch} (grows : batch.Grows next)
    (live : batch.Live) : next.Live :=
  ⟨(grows live.1).1, (grows live.1).2.trans live.2⟩

namespace Lane

/-- The part that `post_ask` would post. -/
def asked (lane : Lane) : Part :=
  lane.batch.elim (.tail lane.off lane.len)
    fun _ => .write lane.off lane.roff lane.len

/-- Nobody is asked. -/
structure Clean (lane : Lane) : Prop where
  ask : lane.ask = .none
  batch : lane.batch = none
  worker : ¬lane.worker.Posting

variable (part : Option Part) (lane : Lane)

/-- The part was posted. -/
def Won : Prop :=
  ∃ posted, part = some posted ∧ lane.posts = [(posted, true)]

/-- The part was not posted, or its one post failed. -/
def Lost : Prop :=
  lane.posts = [] ∨ ∃ posted, part = some posted ∧
    lane.posts = [(posted, false)]

/-- How far a thread in `post_ask` has come. -/
def InPost (want : Option Nat) (state : Batch) : Post → Prop
  | .enters => lane.posts = []
  | .arrives batch | .awaits batch => want = some batch ∧ lane.posts = []
  | .asks batch => want = some batch ∧ state.go = true ∧ lane.posts = []
  | .looks batch | .writes batch =>
      want = some batch ∧ state.Live ∧ lane.posts = []
  | .looksTail | .writesTail => want = none ∧ lane.posts = []
  | .fails => lane.Lost part
  | .answers .done => lane.Won part
  | .answers .failed => lane.Lost part
  | .answers _ => False

/-- The ask holds the call's part. -/
structure Asked (want : Option Nat) : Prop where
  batch : lane.batch = want
  part : part = some lane.asked

/-- An asked link is open, taken by its thread, or answered. -/
inductive Given (want : Option Nat) (state : Batch) : Prop
  | opened (ask : lane.ask = .open) (idle : ¬lane.worker.Posting)
      (none : lane.posts = [])
  | taken (ask : lane.ask = .taken) (post : Post)
      (worker : lane.worker = .posts post)
      (within : lane.InPost part want state post)
  | done (ask : lane.ask = .done) (idle : ¬lane.worker.Posting)
      (won : lane.Won part)
  | failed (ask : lane.ask = .failed) (idle : ¬lane.worker.Posting)
      (lost : lane.Lost part)

/-- A link is as the caller knows it. -/
def Stands (want : Option Nat) (state : Batch) : View → Prop
  | .fresh => lane.Clean ∧ lane.posts = []
  | .spent ok =>
      lane.Clean ∧ (lane.Won part ∨ lane.Lost part) ∧
        (ok = true → lane.Won part)
  | .given => lane.Asked part want ∧ lane.Given part want state
  | .settled ok =>
      lane.Asked part want ∧ ¬lane.worker.Posting ∧
        (lane.ask = .done ∧ lane.Won part ∨
          lane.ask = .failed ∧ lane.Lost part ∧ ok = false)
  | .kept none =>
      lane.Asked part want ∧ lane.ask = .taken ∧ ¬lane.worker.Posting ∧
        lane.posts = []
  | .kept (some post) =>
      lane.Asked part want ∧ lane.ask = .taken ∧ ¬lane.worker.Posting ∧
        lane.InPost part want state post

end Lane

/-- What the caller of a cut write knows. -/
@[grind =] def parallelView (links : Nat) (taken : Nat → Bool) (caller : Caller)
    (lane : Nat) : View :=
  match caller with
  | .openLock next _ _ | .openAsk next _ _ =>
      if lane < next then .given else .fresh
  | .openUnlock next _ _ => if lane < next + 1 then .given else .fresh
  | .awaitReady | .fallback _ | .fallbackCount _ | .overdue | .cancel
  | .cancelAsk _ | .release | .readCancel =>
      if lane < links then
        if taken lane = true then .kept none else .given
      else .fresh
  | .locals next _ | .localLock next _ =>
      if lane < links then
        if taken lane = true ∧ next ≤ lane then .kept none else .given
      else .fresh
  | .localPost next _ post =>
      if lane < links then
        if lane = next then .kept (some post)
        else if taken lane = true ∧ next < lane then .kept none else .given
      else .fresh
  | .localUnlock next _ =>
      if lane < links then
        if taken lane = true ∧ next < lane then .kept none else .given
      else .fresh
  | .collect next bad =>
      if lane < next then .spent !bad
      else if lane < links then .given else .fresh
  | .collectLock next bad | .collectClear next bad =>
      if lane < next then .spent !bad
      else if lane = next then .settled !bad
      else if lane < links then .given else .fresh
  | .collectUnlock next bad =>
      if lane < next + 1 then .spent !bad
      else if lane < links then .given else .fresh
  | .signals => if lane < links then .spent true else .fresh
  | .returned ok => if lane < links then .spent ok else .fresh
  | _ => .fresh

/-- What the caller of a short write knows. -/
def shortView (on : Nat) (caller : Caller) (lane : Nat) : View :=
  match caller with
  | .singleUnlock _ ok | .returned ok =>
      if lane = on then .spent ok else .fresh
  | .signals => if lane = on then .spent true else .fresh
  | _ => .fresh

/-- What the caller of a joined write knows. -/
@[grind =] def joinedView (head rest : Nat) (caller : Caller) (lane : Nat) : View :=
  match caller with
  | .tailUnlock _ asked | .headPost asked =>
      if asked = true ∧ lane = 1 - head then .given else .fresh
  | .headUnlock result asked =>
      if lane = head then .spent (decide (result = .posted))
      else if asked = true ∧ lane = 1 - head then .given else .fresh
  | .askWait result | .takeBack result | .backUnlock result =>
      if lane = head then .spent (decide (result = .posted))
      else if lane = 1 - head then .given else .fresh
  | .backLock result =>
      if lane = head then .spent (decide (result = .posted))
      else if lane = 1 - head then .kept none else .fresh
  | .backPost result post =>
      if lane = head then .spent (decide (result = .posted))
      else if lane = 1 - head then .kept (some post) else .fresh
  | .askClear result =>
      if lane = head then .spent (decide (result = .posted))
      else if lane = 1 - head then .settled (decide (result = .posted))
      else .fresh
  | .returned ok =>
      if lane = head then .spent ok
      else if lane = 1 - head ∧ rest ≠ 0 then .spent ok else .fresh
  | _ => .fresh

namespace Hand

variable (hand : Hand)

/-- What the caller knows of a link. -/
def view (lane : Nat) : View :=
  match hand.call with
  | .parallel _ _ _ => parallelView hand.links hand.taken hand.caller lane
  | .single on _ _ _ => shortView on hand.caller lane
  | .joined head _ _ len first =>
      joinedView head (len - first) hand.caller lane

/-- The batch that the call's asks point to. -/
def want : Option Nat :=
  match hand.call with
  | .parallel _ _ _ => some hand.frame
  | _ => none

/-- The call's batch. -/
def batch : Batch :=
  hand.frames hand.frame

/-- Where the caller of a cut write stands. -/
@[grind =] def parallelFacts (links : Nat) (taken : Nat → Bool) (go : Bool)
    (off roff : Nat) (sizes : Nat → Nat) : Caller → Prop
  | .look => go = false ∧ ∀ lane, taken lane = false
  | .openLock next src dst | .openAsk next src dst | .openUnlock next src dst =>
      go = false ∧ (∀ lane, taken lane = false) ∧ next < links ∧
        src = off + start sizes next ∧ dst = roff + start sizes next
  | .awaitReady | .fallback _ | .fallbackCount _ | .overdue | .cancel
  | .cancelAsk _ | .release => go = false
  | .readCancel | .locals _ _ | .localUnlock _ _ => go = true
  | .localLock next _ | .localPost next _ _ =>
      go = true ∧ next < links ∧ taken next = true
  | .collect next _ => go = true ∧ next ≤ links
  | .collectLock next _ | .collectClear next _ | .collectUnlock next _ =>
      go = true ∧ next < links
  | .signals | .returned _ => True
  | _ => False

/-- Where the caller of a short write stands. -/
def shortFacts (on : Nat) : Caller → Prop
  | .singleLock lane | .singlePost lane | .singleUnlock lane _ => lane = on
  | .idle | .look | .signals | .returned _ => True
  | _ => False

/-- Where the caller of a joined write stands. -/
@[grind =] def joinedFacts (rest : Nat) : Caller → Prop
  | .headLock | .headLook | .returned _ => True
  | .tailUnlock result asked =>
      rest ≠ 0 ∧ (result = .posted → asked = true)
  | .headPost asked => asked = true ↔ rest ≠ 0
  | .headUnlock result asked =>
      (asked = true → rest ≠ 0) ∧
        (result = .posted → asked = false → rest = 0)
  | .tailLock | .tailLook | .tailOpen | .askWait _ | .takeBack _ | .backLock _
  | .backPost _ _ | .backUnlock _ | .askClear _ => rest ≠ 0
  | _ => False

/-- Where the caller stands. -/
def Facts : Prop :=
  match hand.call with
  | .parallel off roff sizes =>
      parallelFacts hand.links hand.taken hand.batch.go off roff sizes
        hand.caller
  | .single on _ _ _ => shortFacts on hand.caller
  | .joined head _ _ len first =>
      head < 2 ∧ joinedFacts (len - first) hand.caller

/-- What holds in every state. -/
structure Inv : Prop where
  lanes : ∀ lane, (hand.lanes lane).Stands (hand.call.part hand.links lane)
    hand.want hand.batch (hand.view lane)
  facts : hand.Facts
  quiet : ∀ frame, hand.want = some frame → ¬hand.batch.Live →
    ∀ lane, (hand.lanes lane).posts = []

end Hand

/-! ## One link -/

namespace Lane

variable {part : Option Part} {lane : Lane} {want : Option Nat}
variable {state later : Batch} {view : View} {post : Post}

theorem InPost.mono (grows : state.Grows later)
    (within : lane.InPost part want state post) :
    lane.InPost part want later post := by
  cases post with
  | asks batch => exact ⟨within.1, (grows within.2.1).1, within.2.2⟩
  | looks batch => exact ⟨within.1, grows.live within.2.1, within.2.2⟩
  | writes batch => exact ⟨within.1, grows.live within.2.1, within.2.2⟩
  | answers ask => cases ask <;> exact within
  | _ => exact within

/-- A batch that moves on leaves every link as it is. -/
theorem Stands.mono (grows : state.Grows later)
    (stands : lane.Stands part want state view) :
    lane.Stands part want later view := by
  cases view with
  | given =>
      obtain ⟨asked, given⟩ := stands
      refine ⟨asked, ?_⟩
      cases given with
      | opened ask idle none => exact .opened ask idle none
      | taken ask post worker within =>
          exact .taken ask post worker (within.mono grows)
      | done ask idle won => exact .done ask idle won
      | failed ask idle lost => exact .failed ask idle lost
  | kept post =>
      cases post with
      | none => exact stands
      | some post =>
          obtain ⟨asked, ask, idle, within⟩ := stands
          exact ⟨asked, ask, idle, within.mono grows⟩
  | _ => exact stands

/-- What a link looks like does not depend on its lock. -/
theorem Stands.setHolder (holder : Option Holder)
    (stands : lane.Stands part want state view) :
    { lane with holder := holder }.Stands part want state view := by
  cases view with
  | fresh => exact ⟨⟨stands.1.1, stands.1.2, stands.1.3⟩, stands.2⟩
  | spent ok => exact ⟨⟨stands.1.1, stands.1.2, stands.1.3⟩, stands.2⟩
  | given =>
      obtain ⟨⟨batch, part⟩, given⟩ := stands
      refine ⟨⟨batch, part⟩, ?_⟩
      cases given with
      | opened ask idle none => exact .opened ask idle none
      | taken ask post worker within =>
          refine .taken ask post worker ?_
          cases post with
          | answers ask => cases ask <;> exact within
          | _ => exact within
      | done ask idle won => exact .done ask idle won
      | failed ask idle lost => exact .failed ask idle lost
  | settled ok => exact ⟨⟨stands.1.1, stands.1.2⟩, stands.2⟩
  | kept post =>
      cases post with
      | none => exact ⟨⟨stands.1.1, stands.1.2⟩, stands.2⟩
      | some post =>
          obtain ⟨⟨batch, part⟩, ask, idle, within⟩ := stands
          refine ⟨⟨batch, part⟩, ask, idle, ?_⟩
          cases post with
          | answers ask => cases ask <;> exact within
          | _ => exact within

/-- A thread outside `post_ask` moves about freely. -/
theorem Stands.setWorker {worker : Worker} (before : ¬lane.worker.Posting)
    (after : ¬worker.Posting) (stands : lane.Stands part want state view) :
    { lane with worker := worker }.Stands part want state view := by
  cases view with
  | fresh => exact ⟨⟨stands.1.1, stands.1.2, after⟩, stands.2⟩
  | spent ok => exact ⟨⟨stands.1.1, stands.1.2, after⟩, stands.2⟩
  | given =>
      obtain ⟨⟨batch, part⟩, given⟩ := stands
      refine ⟨⟨batch, part⟩, ?_⟩
      cases given with
      | opened ask idle none => exact .opened ask after none
      | taken ask post worker within =>
          rw [worker] at before
          exact absurd trivial before
      | done ask idle won => exact .done ask after won
      | failed ask idle lost => exact .failed ask after lost
  | settled ok => exact ⟨⟨stands.1.1, stands.1.2⟩, after, stands.2.2⟩
  | kept post =>
      cases post with
      | none =>
          exact ⟨⟨stands.1.1, stands.1.2⟩, stands.2.1, after, stands.2.2.2⟩
      | some post =>
          obtain ⟨⟨batch, part⟩, ask, idle, within⟩ := stands
          refine ⟨⟨batch, part⟩, ask, after, ?_⟩
          cases post with
          | answers ask => cases ask <;> exact within
          | _ => exact within

/-- A link's thread is in `post_ask` only after it has taken a given ask. -/
theorem Stands.ofPosting (stands : lane.Stands part want state view)
    (worker : lane.worker = .posts post) :
    view = .given ∧ lane.Asked part want ∧ lane.ask = .taken ∧
      lane.InPost part want state post := by
  have posting : lane.worker.Posting := by
    rw [worker]
    trivial
  cases view with
  | fresh => exact absurd posting stands.1.3
  | spent ok => exact absurd posting stands.1.3
  | given =>
      obtain ⟨asked, given⟩ := stands
      cases given with
      | opened ask idle none => exact absurd posting idle
      | taken ask other same within =>
          have equal : other = post :=
            Worker.posts.inj (same.symm.trans worker)
          subst equal
          exact ⟨rfl, asked, ask, within⟩
      | done ask idle won => exact absurd posting idle
      | failed ask idle lost => exact absurd posting idle
  | settled ok => exact absurd posting stands.2.1
  | kept kept =>
      cases kept with
      | none => exact absurd posting stands.2.2.1
      | some other => exact absurd posting stands.2.2.1

/-- An open ask is one the caller has given. -/
theorem Stands.ofOpen (stands : lane.Stands part want state view)
    (ask : lane.ask = .open) :
    view = .given ∧ lane.Asked part want ∧ ¬lane.worker.Posting ∧
      lane.posts = [] := by
  cases view with
  | fresh => rw [stands.1.1] at ask; cases ask
  | spent ok => rw [stands.1.1] at ask; cases ask
  | given =>
      obtain ⟨asked, given⟩ := stands
      cases given with
      | opened _ idle none => exact ⟨rfl, asked, idle, none⟩
      | taken taken _ _ _ => rw [taken] at ask; cases ask
      | done done _ _ => rw [done] at ask; cases ask
      | failed failed _ _ => rw [failed] at ask; cases ask
  | settled ok =>
      rcases stands.2.2 with done | failed
      · rw [done.1] at ask; cases ask
      · rw [failed.1] at ask; cases ask
  | kept post =>
      cases post with
      | none => rw [stands.2.1] at ask; cases ask
      | some post => rw [stands.2.1] at ask; cases ask

/-- The caller posts a link's part itself. -/
theorem Stands.spend {posted : Part}
    (stands : lane.Stands part want state .fresh) (own : part = some posted)
    (ok : Bool) :
    { lane with posts := lane.posts ++ [(posted, ok)] }.Stands part want state
      (.spent ok) := by
  obtain ⟨clean, none⟩ := stands
  refine ⟨⟨clean.1, clean.2, clean.3⟩, ?_, ?_⟩
  · cases ok with
    | true => exact .inl ⟨posted, own, by simp [none]⟩
    | false => exact .inr (.inr ⟨posted, own, by simp [none]⟩)
  · intro good
    exact ⟨posted, own, by simp [none, good]⟩

/-- A link is asked for at most one post, of its part. -/
theorem Stands.bounded (stands : lane.Stands part want state view) :
    lane.Won part ∨ lane.Lost part := by
  have within : ∀ post, lane.InPost part want state post →
      lane.Won part ∨ lane.Lost part := by
    intro post within
    cases post with
    | enters => exact .inr (.inl within)
    | arrives => exact .inr (.inl within.2)
    | awaits => exact .inr (.inl within.2)
    | asks => exact .inr (.inl within.2.2)
    | looks => exact .inr (.inl within.2.2)
    | writes => exact .inr (.inl within.2.2)
    | looksTail => exact .inr (.inl within.2)
    | writesTail => exact .inr (.inl within.2)
    | fails => exact .inr within
    | answers ask =>
        cases ask with
        | done => exact .inl within
        | failed => exact .inr within
        | _ => exact within.elim
  cases view with
  | fresh => exact .inr (.inl stands.2)
  | spent ok => exact stands.2.1
  | given =>
      cases stands.2 with
      | opened _ _ none => exact .inr (.inl none)
      | taken _ post _ inside => exact within post inside
      | done _ _ won => exact .inl won
      | failed _ _ lost => exact .inr lost
  | settled ok =>
      rcases stands.2.2 with done | failed
      · exact .inl done.2
      · exact .inr failed.2.1
  | kept post =>
      cases post with
      | none => exact .inr (.inl stands.2.2.2)
      | some post => exact within post stands.2.2.2

end Lane

/-! ## Inside `post_ask` -/

namespace Hand

/-- A step of `post_ask` touches what was posted on its link, the count of its
batch and whether the peer is down. -/
structure Posts (hand next : Hand) (lane : Nat)
    (posts : List (Part × Bool)) : Prop where
  links : next.links = hand.links
  call : next.call = hand.call
  frame : next.frame = hand.frame
  taken : next.taken = hand.taken
  caller : next.caller = hand.caller
  lanes : next.lanes = Function.update hand.lanes lane
    { hand.lanes lane with posts := posts }
  go : ∀ batch, (next.frames batch).go = (hand.frames batch).go
  cancel : ∀ batch, (next.frames batch).cancel = (hand.frames batch).cancel

theorem Posts.refl (hand : Hand) (lane : Nat) :
    hand.Posts hand lane (hand.lanes lane).posts :=
  ⟨rfl, rfl, rfl, rfl, rfl, (Function.update_eq_self _ _).symm, fun _ => rfl,
    fun _ => rfl⟩

theorem Posts.fail (hand : Hand) (lane : Nat) :
    hand.Posts hand.fail lane (hand.lanes lane).posts :=
  ⟨rfl, rfl, rfl, rfl, rfl, (Function.update_eq_self _ _).symm, fun _ => rfl,
    fun _ => rfl⟩

theorem Posts.post (hand : Hand) (lane : Nat) (part : Part) (ok : Bool) :
    hand.Posts (hand.post lane part ok) lane
      ((hand.lanes lane).posts ++ [(part, ok)]) :=
  ⟨rfl, rfl, rfl, rfl, rfl, rfl, fun _ => rfl, fun _ => rfl⟩

theorem Posts.count (hand : Hand) (lane frame : Nat) (ready : Nat) :
    hand.Posts (hand.setBatch frame { hand.frames frame with ready := ready })
      lane (hand.lanes lane).posts where
  links := rfl
  call := rfl
  frame := rfl
  taken := rfl
  caller := rfl
  lanes := (Function.update_eq_self _ _).symm
  go := by
    intro batch
    simp only [setBatch, Function.update_apply]
    split
    · next same => rw [same]
    · rfl
  cancel := by
    intro batch
    simp only [setBatch, Function.update_apply]
    split
    · next same => rw [same]
    · rfl

/-- Every step of `post_ask` posts at most the part that was asked for, at most
once, and for a batch only once it is live. -/
theorem postAsk_keeps {hand next : Hand} {lane : Nat} {luck : Luck}
    {post after : Post} {part : Option Part} {want : Option Nat} {state : Batch}
    (stepped : hand.postAsk lane luck post = some (next, after))
    (asked : (hand.lanes lane).Asked part want)
    (mine : ∀ batch, want = some batch → hand.frames batch = state)
    (within : (hand.lanes lane).InPost part want state post) :
    ∃ posts, hand.Posts next lane posts ∧
      { hand.lanes lane with posts := posts }.InPost part want state after ∧
      (posts = (hand.lanes lane).posts ∨ want = none ∨ state.Live) := by
  cases post with
  | enters =>
      obtain ⟨rfl, rfl⟩ := Prod.mk.inj (Option.some.inj stepped)
      refine ⟨_, Posts.refl hand lane, ?_, .inl rfl⟩
      rw [asked.batch]
      cases want with
      | none => exact ⟨rfl, within⟩
      | some batch => exact ⟨rfl, within⟩
  | arrives batch =>
      obtain ⟨rfl, rfl⟩ := Prod.mk.inj (Option.some.inj stepped)
      exact ⟨_, Posts.count hand lane batch _, within, .inl rfl⟩
  | awaits batch =>
      simp only [postAsk] at stepped
      split at stepped
      · next went =>
          obtain ⟨rfl, rfl⟩ := Prod.mk.inj (Option.some.inj stepped)
          rw [mine batch within.1] at went
          exact ⟨_, Posts.refl hand lane, ⟨within.1, went, within.2⟩, .inl rfl⟩
      · simp at stepped
  | asks batch =>
      obtain ⟨rfl, rfl⟩ := Prod.mk.inj (Option.some.inj stepped)
      refine ⟨_, Posts.refl hand lane, ?_, .inl rfl⟩
      rw [mine batch within.1]
      split
      · exact .inl within.2.2
      · next unset =>
          exact ⟨within.1, ⟨within.2.1, by simpa using unset⟩, within.2.2⟩
  | looks batch =>
      obtain ⟨rfl, rfl⟩ := Prod.mk.inj (Option.some.inj stepped)
      refine ⟨_, Posts.refl hand lane, ?_, .inl rfl⟩
      split
      · exact .inl within.2.2
      · exact within
  | writes batch =>
      obtain ⟨rfl, rfl⟩ := Prod.mk.inj (Option.some.inj stepped)
      obtain ⟨wanted, live, none⟩ := within
      refine ⟨_, Posts.post hand lane _ luck.ok, ?_, .inr (.inr live)⟩
      have own : part = some (.write (hand.lanes lane).off
          (hand.lanes lane).roff (hand.lanes lane).len) := by
        rw [asked.part, Lane.asked, asked.batch, wanted]
        rfl
      rw [none]
      split
      · next ok => exact ⟨_, own, by rw [ok]; rfl⟩
      · next bad => exact .inr ⟨_, own, by simp [bad]⟩
  | looksTail =>
      obtain ⟨rfl, rfl⟩ := Prod.mk.inj (Option.some.inj stepped)
      refine ⟨_, Posts.refl hand lane, ?_, .inl rfl⟩
      split
      · exact .inl within.2
      · exact within
  | writesTail =>
      obtain ⟨rfl, rfl⟩ := Prod.mk.inj (Option.some.inj stepped)
      obtain ⟨wanted, none⟩ := within
      refine ⟨_, Posts.post hand lane _ luck.ok, ?_, .inr (.inl wanted)⟩
      have own : part = some (.tail (hand.lanes lane).off
          (hand.lanes lane).len) := by
        rw [asked.part, Lane.asked, asked.batch, wanted]
        rfl
      rw [none]
      split
      · next ok => exact ⟨_, own, by rw [ok]; rfl⟩
      · next bad => exact .inr ⟨_, own, by simp [bad]⟩
  | fails =>
      obtain ⟨rfl, rfl⟩ := Prod.mk.inj (Option.some.inj stepped)
      exact ⟨_, Posts.fail hand lane, within, .inl rfl⟩
  | answers ask => simp [postAsk] at stepped

/-! ## Steps that touch one link -/

@[simp] theorem setLane_lanes_self (hand : Hand) (lane : Nat) (next : Lane) :
    (hand.setLane lane next).lanes lane = next :=
  Function.update_self _ _ _

@[simp] theorem setLane_setLane (hand : Hand) (lane : Nat)
    (next after : Lane) :
    (hand.setLane lane next).setLane lane after = hand.setLane lane after := by
  simp [setLane]

/-- What the caller may make of a link without touching it: it forgets a
success, or enters `post_ask` for it. -/
def Weakens (view next : View) : Prop :=
  next = view ∨ next = .spent false ∧ (view = .fresh ∨ ∃ ok, view = .spent ok) ∨
    next = .kept (some .enters) ∧ view = .kept none

theorem Weakens.stands {view next : View} {lane : Lane} {part : Option Part}
    {want : Option Nat} {state : Batch} (weakens : Weakens view next)
    (stands : lane.Stands part want state view) :
    lane.Stands part want state next := by
  rcases weakens with same | ⟨after, before | ⟨ok, before⟩⟩ | ⟨after, before⟩
  · rw [same]
    exact stands
  · subst before after
    exact ⟨stands.1, .inr (.inl stands.2), nofun⟩
  · subst before after
    exact ⟨stands.1, stands.2.1, nofun⟩
  · subst before after
    exact stands

section

variable {hand next : Hand} {lane : Nat}

/-- A step that touches one link, and the words of the batch only before its
release, keeps the invariant if it leaves that link as the caller knows it. -/
theorem Inv.change (inv : hand.Inv) (lane : Nat)
    (links : next.links = hand.links) (call : next.call = hand.call)
    (frame : next.frame = hand.frame) (grows : hand.batch.Grows next.batch)
    (others : ∀ other, other ≠ lane → next.lanes other = hand.lanes other ∧
      Weakens (hand.view other) (next.view other))
    (stands : (next.lanes lane).Stands (hand.call.part hand.links lane)
      hand.want next.batch (next.view lane))
    (facts : next.Facts)
    (posts : (next.lanes lane).posts = (hand.lanes lane).posts ∨
      hand.want = none ∨ next.batch.Live) : next.Inv where
  lanes := by
    intro other
    have want : next.want = hand.want := by
      unfold Hand.want
      rw [call, frame]
    rw [links, call, want]
    by_cases same : other = lane
    · rw [same]
      exact stands
    · obtain ⟨kept, weakens⟩ := others other same
      rw [kept]
      exact weakens.stands ((inv.lanes other).mono grows)
  facts := facts
  quiet := by
    intro number wanted still other
    have want : next.want = hand.want := by
      unfold Hand.want
      rw [call, frame]
    rw [want] at wanted
    have before := inv.quiet number wanted fun live => still (grows.live live)
    by_cases same : other = lane
    · subst same
      rcases posts with posts | none | live
      · rw [posts]
        exact before other
      · rw [none] at wanted
        cases wanted
      · exact absurd live still
    · rw [(others other same).1]
      exact before other

/-- The caller's place depends on nothing that the links' threads change. -/
theorem Facts.congr (facts : hand.Facts) (links : next.links = hand.links)
    (call : next.call = hand.call) (caller : next.caller = hand.caller)
    (taken : next.taken = hand.taken)
    (go : next.batch.go = hand.batch.go) : next.Facts := by
  unfold Facts at facts ⊢
  rw [call, caller, links, taken, go]
  exact facts

/-- Nothing of a hand-off depends on whether the peer is down. -/
theorem Inv.fail (inv : hand.Inv) : hand.fail.Inv :=
  ⟨inv.lanes, inv.facts, inv.quiet⟩

/-- A step on one link that leaves the caller where it is. -/
theorem Inv.touch (inv : hand.Inv) (after : Lane)
    (stands : after.Stands (hand.call.part hand.links lane) hand.want
      hand.batch (hand.view lane))
    (posts : after.posts = (hand.lanes lane).posts) :
    (hand.setLane lane after).Inv := by
  refine inv.change lane rfl rfl rfl (fun go => ⟨go, rfl⟩) ?_ ?_
    (inv.facts.congr rfl rfl rfl rfl rfl) (.inl ?_)
  · intro other different
    exact ⟨Function.update_of_ne different _ _, .inl rfl⟩
  · rw [setLane_lanes_self]
    exact stands
  · rw [setLane_lanes_self]
    exact posts

/-- A thread outside `post_ask` takes its lock, gives it back, moves about. -/
theorem Inv.roam (inv : hand.Inv) (holder : Option Holder) (worker : Worker)
    (before : ¬(hand.lanes lane).worker.Posting) (after : ¬worker.Posting) :
    (hand.setLane lane { hand.lanes lane with
      holder := holder, worker := worker }).Inv :=
  inv.touch _ (((inv.lanes lane).setWorker before after).setHolder holder) rfl

/-- What a step of `post_ask` leaves of the batch. -/
theorem Posts.batch {posts : List (Part × Bool)}
    (moves : hand.Posts next lane posts) : next.batch.go = hand.batch.go ∧
      next.batch.cancel = hand.batch.cancel := by
  unfold Hand.batch
  rw [moves.frame]
  exact ⟨moves.go _, moves.cancel _⟩

theorem Posts.grows {posts : List (Part × Bool)}
    (moves : hand.Posts next lane posts) : hand.batch.Grows next.batch :=
  fun went => ⟨moves.batch.1.trans went, moves.batch.2⟩

/-- The batch that a call's asks point to is the call's own. -/
theorem frames_want {frame : Nat} (wanted : hand.want = some frame) :
    hand.frames frame = hand.batch := by
  unfold Hand.want at wanted
  split at wanted
  · have same := Option.some.inj wanted
    rw [← same]
    rfl
  · simp at wanted

/-- A link's thread takes an open ask. -/
theorem Inv.workClaim (inv : hand.Inv) (ask : (hand.lanes lane).ask = .open) :
    ((hand.setAsk lane .taken).setWorker lane (.posts .enters)).Inv := by
  simp only [setWorker, setAsk, setLane_setLane, setLane_lanes_self]
  obtain ⟨given, asked, -, none⟩ := (inv.lanes lane).ofOpen ask
  refine inv.touch _ ?_ rfl
  rw [given]
  exact ⟨⟨asked.1, asked.2⟩, .taken rfl .enters rfl none⟩

/-- A link's thread stores what `post_ask` returned. -/
theorem Inv.workAnswer (inv : hand.Inv) {answer : Ask}
    (worker : (hand.lanes lane).worker = .posts (.answers answer)) :
    ((hand.setAsk lane answer).setWorker lane .leaves).Inv := by
  obtain ⟨given, asked, ask, within⟩ := (inv.lanes lane).ofPosting worker
  simp only [setWorker, setAsk, setLane_setLane, setLane_lanes_self]
  refine inv.touch _ ?_ rfl
  rw [given]
  refine ⟨⟨asked.1, asked.2⟩, ?_⟩
  cases answer with
  | done => exact .done rfl (fun posting => posting) within
  | failed => exact .failed rfl (fun posting => posting) within
  | _ => exact within.elim

/-- A link's thread takes a step of `post_ask`. -/
theorem Inv.workPost (inv : hand.Inv) {luck : Luck} {post : Post}
    (worker : (hand.lanes lane).worker = .posts post)
    (taken : (hand.postAsk lane luck post).map (fun after =>
      after.1.setWorker lane (.posts after.2)) = some next) : next.Inv := by
  obtain ⟨given, asked, ask, within⟩ := (inv.lanes lane).ofPosting worker
  obtain ⟨⟨middle, after⟩, steps, same⟩ := Option.map_eq_some_iff.mp taken
  subst same
  obtain ⟨posts, moves, inside, once⟩ :=
    postAsk_keeps steps asked (fun _ => frames_want) within
  have lanes : (middle.setWorker lane (.posts after)).lanes =
      Function.update hand.lanes lane { hand.lanes lane with
        posts := posts, worker := .posts after } := by
    simp [setWorker, setLane, moves.lanes]
  have self : (middle.setWorker lane (.posts after)).lanes lane =
      { hand.lanes lane with posts := posts, worker := .posts after } := by
    rw [lanes]
    exact Function.update_self _ _ _
  have view : ∀ other, (middle.setWorker lane (.posts after)).view other =
      hand.view other := by
    intro other
    simp only [Hand.view, setWorker, setLane, moves.call, moves.links,
      moves.taken, moves.caller]
  refine inv.change lane moves.links moves.call moves.frame moves.grows ?_ ?_
    ?_ ?_
  · intro other different
    refine ⟨?_, .inl (view other)⟩
    rw [lanes]
    exact Function.update_of_ne different _ _
  · rw [self, view, given]
    have grown := inside.mono moves.grows
    refine ⟨⟨asked.1, asked.2⟩, .taken ask after rfl ?_⟩
    cases after with
    | answers answer => cases answer <;> exact grown
    | _ => exact grown
  · exact inv.facts.congr moves.links moves.call moves.caller moves.taken
      moves.batch.1
  · rw [self]
    rcases once with same | none | live
    · exact .inl same
    · exact .inr (.inl none)
    · exact .inr (.inr (moves.grows.live live))

/-- Every step of a link's thread keeps the invariant. -/
theorem Inv.work (inv : hand.Inv) {luck : Luck}
    (taken : hand.work lane luck = some next) : next.Inv := by
  unfold Hand.work at taken
  cases worker : (hand.lanes lane).worker with
  | idle =>
      have idle : ¬(hand.lanes lane).worker.Posting := by
        rw [worker]
        exact fun posting => posting
      simp only [worker] at taken
      split at taken
      · obtain ⟨locked, locks, same⟩ := Option.map_eq_some_iff.mp taken
        unfold Hand.lock at locks
        split at locks
        · have held := Option.some.inj locks
          subst held same
          simp only [setWorker, setLane_setLane, setLane_lanes_self]
          exact inv.roam (some .worker) .claims idle fun posting => posting
        · simp at locks
      · have same := Option.some.inj taken
        subst same
        refine inv.roam (hand.lanes lane).holder _ idle ?_
        split <;> exact fun posting => posting
  | tries =>
      have idle : ¬(hand.lanes lane).worker.Posting := by
        rw [worker]
        exact fun posting => posting
      simp only [worker] at taken
      split at taken
      · next free =>
          rw [Hand.lock, if_pos free] at taken
          have same := Option.some.inj taken
          subst same
          simp only [setWorker, setLane_setLane, setLane_lanes_self]
          exact inv.roam (some .worker) .claims idle fun posting => posting
      · have same := Option.some.inj taken
        subst same
        exact inv.roam (hand.lanes lane).holder .passes idle
          fun posting => posting
  | claims =>
      have idle : ¬(hand.lanes lane).worker.Posting := by
        rw [worker]
        exact fun posting => posting
      simp only [worker] at taken
      split at taken
      · next ask =>
          have same := Option.some.inj taken
          subst same
          exact inv.workClaim ask
      · have same := Option.some.inj taken
        subst same
        exact inv.roam (hand.lanes lane).holder .leaves idle
          fun posting => posting
  | posts post =>
      by_cases answered : ∃ answer, post = .answers answer
      · obtain ⟨answer, rfl⟩ := answered
        simp only [worker] at taken
        have same := Option.some.inj taken
        subst same
        exact inv.workAnswer worker
      · have posting : (hand.postAsk lane luck post).map (fun after =>
            after.1.setWorker lane (.posts after.2)) = some next := by
          cases post with
          | answers answer => exact absurd ⟨answer, rfl⟩ answered
          | _ => simpa only [worker] using taken
        exact inv.workPost worker posting
  | leaves =>
      have idle : ¬(hand.lanes lane).worker.Posting := by
        rw [worker]
        exact fun posting => posting
      simp only [worker] at taken
      have same := Option.some.inj taken
      subst same
      simp only [setWorker, unlock, setLane_setLane, setLane_lanes_self]
      refine inv.roam none _ idle ?_
      split <;> exact fun posting => posting
  | passes =>
      have idle : ¬(hand.lanes lane).worker.Posting := by
        rw [worker]
        exact fun posting => posting
      simp only [worker] at taken
      split at taken
      · next free =>
          rw [Hand.lock, if_pos free.1] at taken
          have same := Option.some.inj taken
          subst same
          simp only [setWorker, setLane_setLane, setLane_lanes_self]
          exact inv.roam (some .worker) .works idle fun posting => posting
      · have same := Option.some.inj taken
        subst same
        exact inv.roam (hand.lanes lane).holder .idle idle
          fun posting => posting
  | works =>
      have idle : ¬(hand.lanes lane).worker.Posting := by
        rw [worker]
        exact fun posting => posting
      simp only [worker] at taken
      have same := Option.some.inj taken
      subst same
      simp only [setWorker, unlock, setLane_setLane, setLane_lanes_self]
      exact inv.roam none .idle idle fun posting => posting

end

end Hand

end Handoff
end Fabric
end Mcdma
