import Mcdma.Fabric.HandoffParallel

/-!
# Whole runs of a hand-off

Every step of a short write and of `bond_post` keeps what the caller knows of
each link as well.  So in every run a part is posted at most once, exactly once
when the call succeeds, and nobody is left in the batch when the call returns.
-/

namespace Mcdma
namespace Fabric
namespace Handoff

namespace Hand

/-! ## A short write -/

section

variable {hand next : Hand} {on off roff len : Nat} {luck : Luck}

theorem weakens_short (call : hand.call = .single on off roff len)
    {before caller : Caller} (stands : hand.caller = before)
    (views : ∀ other, Weakens (shortView on before other)
      (shortView on caller other)) (other : Nat) :
    Weakens (hand.view other) ((hand.goto caller).view other) := by
  simp only [Hand.view, Hand.goto, call, stands]
  exact views other

theorem facts_short (call : hand.call = .single on off roff len)
    {caller : Caller} (facts : shortFacts on caller) :
    (hand.goto caller).Facts := by
  simp only [Hand.Facts, Hand.goto, call]
  exact facts

/-- Every step of a short write keeps the invariant. -/
theorem Inv.bondShort (inv : hand.Inv)
    (call : hand.call = .single on off roff len)
    (taken : hand.bondShort on off roff len luck hand.caller = some next) :
    next.Inv := by
  have facts : shortFacts on hand.caller := by
    have facts := inv.facts
    simp only [Hand.Facts, call] at facts
    exact facts
  cases stands : hand.caller with
  | look =>
      rw [stands] at taken
      have same := Option.some.inj taken
      subst same
      split
      · refine inv.goto (weakens_short call stands ?_)
          (facts_short call trivial)
        intro other
        simp only [shortView]
        split
        · exact .inr (.inl ⟨rfl, .inl rfl⟩)
        · exact .inl rfl
      · exact inv.goto (weakens_short call stands fun _ => .inl rfl)
          (facts_short call rfl)
  | singleLock lane =>
      rw [stands] at taken facts
      exact inv.gotoLock taken (weakens_short call stands fun _ => .inl rfl)
        (facts_short call facts)
  | singlePost lane =>
      rw [stands] at taken facts
      have same := Option.some.inj taken
      have here : lane = on := facts
      subst same here
      have old := inv.lanes lane
      simp only [Hand.view, call, stands, shortView] at old
      have own : Call.part hand.links (.single lane off roff len) lane =
          some (.write off roff len) := by
        simp [Call.part]
      refine inv.gotoLane _ ?_ ?_ (facts_short call rfl) (.inr ?_)
      · intro other different
        refine .inl ?_
        simp [Hand.view, Hand.goto, call, stands, shortView, different]
      · simp only [Hand.view, Hand.goto, call, shortView, if_true]
        exact old.spend own luck.ok
      · simp [Hand.want, call]
  | singleUnlock lane ok =>
      rw [stands] at taken
      have same := Option.some.inj taken
      subst same
      cases ok with
      | true =>
          exact inv.gotoHolder none
            (weakens_short call stands fun _ => .inl rfl)
            (facts_short call trivial)
      | false =>
          exact inv.gotoHolder none
            (weakens_short call stands fun _ => .inl rfl)
            (facts_short call trivial)
  | signals =>
      rw [stands] at taken
      have same := Option.some.inj taken
      subst same
      refine inv.goto (weakens_short call stands ?_) (facts_short call trivial)
      intro other
      simp only [shortView]
      split
      · cases luck.ok with
        | true => exact .inl rfl
        | false => exact .inr (.inl ⟨rfl, .inr ⟨_, rfl⟩⟩)
      · exact .inl rfl
  | _ =>
      rw [stands] at taken
      simp [Hand.bondShort] at taken

end

/-! ## A head and a tail -/

section

variable {hand next : Hand} {head off roff len first : Nat} {luck : Luck}

theorem view_joined (call : hand.call = .joined head off roff len first)
    (caller : Caller) (lane : Nat) :
    (hand.goto caller).view lane =
      joinedView head (len - first) caller lane := by
  simp only [Hand.view, Hand.goto, call]

theorem weakens_joined (call : hand.call = .joined head off roff len first)
    {before caller : Caller} (stands : hand.caller = before)
    (views : ∀ other, Weakens (joinedView head (len - first) before other)
      (joinedView head (len - first) caller other)) (other : Nat) :
    Weakens (hand.view other) ((hand.goto caller).view other) := by
  simp only [Hand.view, Hand.goto, call, stands]
  exact views other

theorem facts_joined (call : hand.call = .joined head off roff len first)
    (two : head < 2) {caller : Caller}
    (facts : joinedFacts (len - first) caller) : (hand.goto caller).Facts := by
  simp only [Hand.Facts, Hand.goto, call]
  exact ⟨two, facts⟩

/-- A failure takes the peer down and leaves the hand-off as it is. -/
theorem Inv.settle (inv : hand.Inv) (result : Outcome) :
    (hand.settle result).Inv := by
  unfold Hand.settle
  split
  · exact inv.fail
  · exact inv

theorem settle_call (hand : Hand) (result : Outcome) :
    (hand.settle result).call = hand.call := by
  unfold Hand.settle
  split <;> rfl

theorem settle_caller (hand : Hand) (result : Outcome) :
    (hand.settle result).caller = hand.caller := by
  unfold Hand.settle
  split <;> rfl

/-- What both checks for room do to a caller who has opened nothing. -/
theorem Inv.joinedCheck (inv : hand.Inv)
    (call : hand.call = .joined head off roff len first) (two : head < 2)
    {before caller : Caller} (stands : hand.caller = before)
    (views : ∀ other, Weakens (joinedView head (len - first) before other)
      (joinedView head (len - first) caller other))
    (facts : joinedFacts (len - first) caller) (result : Outcome) :
    ((hand.settle result).goto caller).Inv := by
  have settled : (hand.settle result).call = .joined head off roff len first :=
    (settle_call hand result).trans call
  exact (inv.settle result).goto
    (weakens_joined settled ((settle_caller hand result).trans stands) views)
    (facts_joined settled two facts)

/-- The tail's ask is opened. -/
theorem Inv.joinedOpen (inv : hand.Inv)
    (call : hand.call = .joined head off roff len first) (two : head < 2)
    (stands : hand.caller = .tailOpen) (rest : len - first ≠ 0) :
    ((hand.setLane (1 - head) { hand.lanes (1 - head) with
      off := off + first, len := len - first, ask := .open }).goto
        (.tailUnlock .posted true)).Inv := by
  have old := inv.lanes (1 - head)
  simp only [Hand.view, call, stands, joinedView] at old
  obtain ⟨clean, none⟩ := old
  have different : 1 - head ≠ head := by omega
  refine inv.gotoLane _ ?_ ?_ (facts_joined call two ⟨rest, fun _ => rfl⟩)
    (.inl rfl)
  · intro other different
    refine .inl ?_
    simp [Hand.view, Hand.goto, call, stands, joinedView, different]
  · rw [view_joined call]
    simp only [joinedView, and_self, if_true]
    refine ⟨⟨?_, ?_⟩, .opened rfl clean.3 none⟩
    · simpa [Hand.want, call] using clean.2
    · simp [call, Call.part, different, rest, Lane.asked, clean.2]

/-- The head is posted. -/
theorem Inv.joinedHead (inv : hand.Inv)
    (call : hand.call = .joined head off roff len first) (two : head < 2)
    {asked : Bool} (stands : hand.caller = .headPost asked)
    (facts : asked = true ↔ len - first ≠ 0) (ok : Bool) :
    ((hand.post head (.head off roff first) ok).goto
      (.headUnlock (if ok then .posted else .failed) asked)).Inv := by
  have old := inv.lanes head
  have different : head ≠ 1 - head := by omega
  simp only [Hand.view, call, stands, joinedView, different, and_false,
    if_false] at old
  have own : Call.part hand.links (.joined head off roff len first) head =
      some (.head off roff first) := by
    simp [Call.part]
  refine inv.gotoLane _ ?_ ?_ (facts_joined call two ⟨facts.mp, ?_⟩) (.inr ?_)
  · intro other different
    refine .inl ?_
    simp [Hand.view, Hand.goto, call, stands, joinedView, different]
  · rw [view_joined call]
    simp only [joinedView, if_true, call]
    have good : decide ((if ok = true then Outcome.posted
        else Outcome.failed) = .posted) = ok := by
      cases ok <;> rfl
    rw [good]
    exact old.spend own ok
  · intro _ unasked
    by_contra rest
    rw [facts.mpr rest] at unasked
    cases unasked
  · simp [Hand.want, call]

/-- The caller changes the tail's link, with the head's left as it was. -/
theorem Inv.joinedTail (inv : hand.Inv)
    (call : hand.call = .joined head off roff len first) (two : head < 2)
    {before caller : Caller} (stands : hand.caller = before) (after : Lane)
    (others : ∀ other, other ≠ 1 - head →
      Weakens (joinedView head (len - first) before other)
        (joinedView head (len - first) caller other))
    (tail : after.Stands (hand.call.part hand.links (1 - head)) hand.want
      hand.batch (joinedView head (len - first) caller (1 - head)))
    (facts : joinedFacts (len - first) caller)
    (posts : after.posts = (hand.lanes (1 - head)).posts) :
    ((hand.setLane (1 - head) after).goto caller).Inv := by
  refine inv.gotoLane after ?_ ?_ (facts_joined call two facts) (.inl posts)
  · intro other different
    simp only [Hand.view, Hand.goto, call, stands]
    exact others other different
  · rw [view_joined call]
    exact tail

/-- The caller reads that the tail's link has answered. -/
theorem Inv.joinedAnswered (inv : hand.Inv)
    (call : hand.call = .joined head off roff len first) (two : head < 2)
    {result : Outcome} (stands : hand.caller = .askWait result)
    (rest : len - first ≠ 0)
    (closed : ¬(hand.lanes (1 - head)).ask = .open)
    (answered : ¬(hand.lanes (1 - head)).ask = .taken) :
    (hand.goto (.askClear (if (hand.lanes (1 - head)).ask = .done then result
      else .failed))).Inv := by
  have different : 1 - head ≠ head := by omega
  have old := inv.lanes (1 - head)
  simp only [Hand.view, call, stands, joinedView, different, if_false,
    if_true] at old
  obtain ⟨asked, given⟩ := old
  refine inv.change (1 - head) rfl rfl rfl (fun went => ⟨went, rfl⟩) ?_ ?_
    (facts_joined call two rest) (.inl rfl)
  · intro other elsewhere
    refine ⟨rfl, ?_⟩
    simp only [Hand.view, Hand.goto, call, stands, joinedView, if_neg elsewhere]
    split
    · by_cases done : (hand.lanes (1 - head)).ask = .done
      · rw [if_pos done]
        exact .inl rfl
      · rw [if_neg done]
        exact .inr (.inl ⟨rfl, .inr ⟨_, rfl⟩⟩)
    · exact .inl rfl
  · rw [view_joined call, call]
    simp only [joinedView, different, if_false, if_true]
    cases given with
    | opened ask => exact absurd ask closed
    | taken ask => exact absurd ask answered
    | done ask idle won => exact ⟨asked, idle, .inl ⟨ask, won⟩⟩
    | failed ask idle lost =>
        refine ⟨asked, idle, .inr ⟨ask, lost, ?_⟩⟩
        have refused : (hand.lanes (1 - head)).ask ≠ .done := by
          rw [ask]
          simp
        simp [refused]

theorem Inv.joinedFacts (inv : hand.Inv)
    (call : hand.call = .joined head off roff len first) :
    head < 2 ∧ Hand.joinedFacts (len - first) hand.caller := by
  have facts := inv.facts
  simp only [Hand.Facts, call] at facts
  exact facts

/-- The head's link has room or not. -/
theorem Inv.joinedHeadLook (inv : hand.Inv)
    (call : hand.call = .joined head off roff len first)
    (stands : hand.caller = .headLook) (result : Outcome) :
    ((hand.settle result).goto (if result = .posted then
        if len - first ≠ 0 then .tailLock else .headPost false
      else .headUnlock result false)).Inv := by
  have two := (inv.joinedFacts call).1
  split
  · split
    · next rest =>
        refine inv.joinedCheck call two stands ?_ ?_ _
        · exact fun _ => .inl rfl
        · exact rest
    · next none =>
        refine inv.joinedCheck call two stands ?_ ?_ _
        · intro other
          simp [joinedView, Weakens]
        · exact iff_of_false (by simp) none
  · next refused =>
      refine inv.joinedCheck call two stands ?_ ?_ _
      · intro other
        simp only [joinedView, refused, decide_false]
        split
        · exact .inr (.inl ⟨rfl, .inl rfl⟩)
        · exact .inl (by simp)
      · exact ⟨by simp, fun posted => absurd posted refused⟩

/-- The tail's link has room or not. -/
theorem Inv.joinedTailLook (inv : hand.Inv)
    (call : hand.call = .joined head off roff len first)
    (stands : hand.caller = .tailLook) (result : Outcome) :
    ((hand.settle result).goto (if result = .posted then .tailOpen
      else .tailUnlock result false)).Inv := by
  obtain ⟨two, facts⟩ := inv.joinedFacts call
  rw [stands] at facts
  split
  · refine inv.joinedCheck call two stands ?_ ?_ _
    · exact fun _ => .inl rfl
    · exact facts
  · next refused =>
      refine inv.joinedCheck call two stands ?_ ?_ _
      · intro other
        simp [joinedView, Weakens]
      · exact ⟨facts, fun posted => absurd posted refused⟩

/-- The caller gives the tail's link back. -/
theorem Inv.joinedTailUnlock (inv : hand.Inv)
    (call : hand.call = .joined head off roff len first) {result : Outcome}
    {asked : Bool} (stands : hand.caller = .tailUnlock result asked) :
    ((hand.unlock (1 - head)).goto (if result = .posted then .headPost asked
      else .headUnlock result asked)).Inv := by
  obtain ⟨two, facts⟩ := inv.joinedFacts call
  rw [stands] at facts
  obtain ⟨rest, opened⟩ := facts
  have different : 1 - head ≠ head := by omega
  split
  · next posted =>
      exact inv.gotoHolder none (weakens_joined call stands fun _ => .inl rfl)
        (facts_joined call two (iff_of_true (opened posted) rest))
  · next refused =>
      refine inv.gotoHolder none (weakens_joined call stands ?_)
        (facts_joined call two
          ⟨fun _ => rest, fun posted => absurd posted refused⟩)
      intro other
      simp only [joinedView, refused, decide_false]
      by_cases here : other = head
      · rw [if_pos here, here]
        exact .inr (.inl ⟨rfl, .inl (by simp [different.symm])⟩)
      · rw [if_neg here]
        exact .inl rfl

/-- The caller gives the head's link back. -/
theorem Inv.joinedHeadUnlock (inv : hand.Inv)
    (call : hand.call = .joined head off roff len first) {result : Outcome}
    {asked : Bool} (stands : hand.caller = .headUnlock result asked) :
    ((hand.unlock head).goto (if asked then .askWait result
      else .returned (decide (result = .posted)))).Inv := by
  obtain ⟨two, facts⟩ := inv.joinedFacts call
  rw [stands] at facts
  cases asked with
  | true =>
      refine inv.gotoHolder none (weakens_joined call stands ?_)
        (facts_joined call two (facts.1 rfl))
      intro other
      simp [joinedView, Weakens]
  | false =>
      simp only [Bool.false_eq_true, if_false]
      refine inv.gotoHolder none (weakens_joined call stands ?_)
        (facts_joined call two trivial)
      intro other
      simp only [joinedView]
      split
      · exact .inl rfl
      · by_cases tail : other = 1 - head ∧ len - first ≠ 0
        · have refused : result ≠ .posted := fun posted =>
            tail.2 (facts.2 posted rfl)
          rw [if_pos tail]
          exact .inr (.inl ⟨by simp [refused], .inl (by simp)⟩)
        · rw [if_neg tail]
          exact .inl (by simp)

/-- The caller waits for the tail's link. -/
theorem Inv.joinedWait (inv : hand.Inv)
    (call : hand.call = .joined head off roff len first) {result : Outcome}
    (stands : hand.caller = .askWait result)
    (taken : hand.bondPost head off roff len first luck (.askWait result) =
      some next) : next.Inv := by
  obtain ⟨two, facts⟩ := inv.joinedFacts call
  rw [stands] at facts
  simp only [Hand.bondPost] at taken
  split at taken
  · split at taken
    · have same := Option.some.inj taken
      subst same
      exact inv.goto (weakens_joined call stands fun _ => .inl rfl)
        (facts_joined call two facts)
    · simp at taken
  · next closed =>
      split at taken
      · simp at taken
      · next answered =>
          have same := Option.some.inj taken
          subst same
          exact inv.joinedAnswered call two stands facts closed answered

/-- The caller takes an ask back that no thread has taken. -/
theorem Inv.joinedTake (inv : hand.Inv)
    (call : hand.call = .joined head off roff len first) {result : Outcome}
    (stands : hand.caller = .takeBack result)
    (taken : hand.bondPost head off roff len first luck (.takeBack result) =
      some next) : next.Inv := by
  obtain ⟨two, facts⟩ := inv.joinedFacts call
  rw [stands] at facts
  have different : 1 - head ≠ head := by omega
  simp only [Hand.bondPost] at taken
  split at taken
  · next ask =>
      have same := Option.some.inj taken
      subst same
      obtain ⟨-, asked, idle, none⟩ := (inv.lanes (1 - head)).ofOpen ask
      refine inv.joinedTail call two stands _ ?_ ?_ facts rfl
      · intro other elsewhere
        exact .inl (by simp [joinedView, elsewhere])
      · simp only [joinedView, different, if_false, if_true]
        exact ⟨⟨asked.1, asked.2⟩, rfl, idle, none⟩
  · have same := Option.some.inj taken
    subst same
    exact inv.goto (weakens_joined call stands fun _ => .inl rfl)
      (facts_joined call two facts)

/-- The caller takes the tail's lock for an ask it has taken back. -/
theorem Inv.joinedBack (inv : hand.Inv)
    (call : hand.call = .joined head off roff len first) {result : Outcome}
    (stands : hand.caller = .backLock result)
    (taken : (hand.lock (1 - head) .caller).map
      (·.goto (.backPost result .enters)) = some next) : next.Inv := by
  obtain ⟨two, facts⟩ := inv.joinedFacts call
  rw [stands] at facts
  refine inv.gotoLock taken (weakens_joined call stands ?_)
    (facts_joined call two facts)
  intro other
  simp only [joinedView]
  split
  · exact .inl rfl
  · split
    · exact .inr (.inr ⟨rfl, rfl⟩)
    · exact .inl rfl

/-- The caller stores what its own `post_ask` returned. -/
theorem Inv.joinedAnswer (inv : hand.Inv)
    (call : hand.call = .joined head off roff len first) {result : Outcome}
    {ask : Ask} (stands : hand.caller = .backPost result (.answers ask)) :
    ((hand.setAsk (1 - head) ask).goto (.backUnlock result)).Inv := by
  obtain ⟨two, facts⟩ := inv.joinedFacts call
  rw [stands] at facts
  have different : 1 - head ≠ head := by omega
  have old := inv.lanes (1 - head)
  simp only [Hand.view, call, stands, joinedView, different, if_false,
    if_true] at old
  obtain ⟨asked, -, idle, within⟩ := old
  refine inv.joinedTail call two stands _ ?_ ?_ facts rfl
  · intro other elsewhere
    exact .inl (by simp [joinedView, elsewhere])
  · simp only [joinedView, different, if_false, if_true, call]
    refine ⟨⟨asked.1, asked.2⟩, ?_⟩
    cases ask with
    | done => exact .done rfl idle within
    | failed => exact .failed rfl idle within
    | _ => exact within.elim

/-- The caller posts the tail itself. -/
theorem Inv.joinedPost (inv : hand.Inv)
    (call : hand.call = .joined head off roff len first) {result : Outcome}
    {post : Post} (stands : hand.caller = .backPost result post)
    (taken : hand.bondPost head off roff len first luck
      (.backPost result post) = some next) : next.Inv := by
  obtain ⟨two, facts⟩ := inv.joinedFacts call
  rw [stands] at facts
  have different : 1 - head ≠ head := by omega
  by_cases answered : ∃ ask, post = .answers ask
  · obtain ⟨ask, rfl⟩ := answered
    have same := Option.some.inj taken
    subst same
    exact inv.joinedAnswer call stands
  · have posting : (hand.postAsk (1 - head) luck post).map (fun after =>
        after.1.goto (.backPost result after.2)) = some next := by
      cases post with
      | answers ask => exact absurd ⟨ask, rfl⟩ answered
      | _ => exact taken
    refine inv.gotoPost posting ?_ ?_ ?_ fun _ => facts_joined call two facts
    · simp [Hand.view, call, stands, joinedView, different]
    · intro after other elsewhere
      simp [Hand.view, Hand.goto, call, stands, joinedView, elsewhere]
    · intro after
      simp [view_joined call, joinedView, different]

/-- The caller clears the tail's link and returns. -/
theorem Inv.joinedClear (inv : hand.Inv)
    (call : hand.call = .joined head off roff len first) {result : Outcome}
    (stands : hand.caller = .askClear result) :
    ((hand.setAsk (1 - head) .none).goto
      (.returned (decide (result = .posted)))).Inv := by
  obtain ⟨two, facts⟩ := inv.joinedFacts call
  rw [stands] at facts
  have rest : len - first ≠ 0 := facts
  have different : 1 - head ≠ head := by omega
  have old := inv.lanes (1 - head)
  simp only [Hand.view, call, stands, joinedView, different, if_false,
    if_true] at old
  obtain ⟨asked, idle, settled⟩ := old
  refine inv.joinedTail call two stands _ ?_ ?_ trivial rfl
  · intro other elsewhere
    exact .inl (by simp [joinedView, elsewhere])
  · simp only [joinedView, different, if_false, ne_eq, not_false_eq_true,
      and_self, if_true, rest, call]
    have empty : hand.want = none := by
      simp [Hand.want, call]
    refine ⟨⟨rfl, asked.1.trans empty, idle⟩, ?_, ?_⟩
    · rcases settled with done | failed
      · exact .inl done.2
      · exact .inr failed.2.1
    · intro good
      rcases settled with done | failed
      · exact done.2
      · rw [failed.2.2] at good
        cases good

/-- Every step of a joined write keeps the invariant. -/
theorem Inv.bondPost (inv : hand.Inv)
    (call : hand.call = .joined head off roff len first)
    (taken : hand.bondPost head off roff len first luck hand.caller =
      some next) : next.Inv := by
  obtain ⟨two, facts⟩ := inv.joinedFacts call
  cases stands : hand.caller with
  | headLock =>
      rw [stands] at taken
      exact inv.gotoLock taken (weakens_joined call stands fun _ => .inl rfl)
        (facts_joined call two trivial)
  | headLook =>
      rw [stands] at taken
      have same := Option.some.inj taken
      subst same
      exact inv.joinedHeadLook call stands _
  | tailLock =>
      rw [stands] at taken facts
      exact inv.gotoLock taken (weakens_joined call stands fun _ => .inl rfl)
        (facts_joined call two facts)
  | tailLook =>
      rw [stands] at taken
      have same := Option.some.inj taken
      subst same
      exact inv.joinedTailLook call stands _
  | tailOpen =>
      rw [stands] at taken facts
      have same := Option.some.inj taken
      subst same
      exact inv.joinedOpen call two stands facts
  | tailUnlock result asked =>
      rw [stands] at taken
      have same := Option.some.inj taken
      subst same
      exact inv.joinedTailUnlock call stands
  | headPost asked =>
      rw [stands] at taken facts
      have same := Option.some.inj taken
      subst same
      have commutes : ∀ (hand : Hand) (result : Outcome) (caller : Caller),
          (hand.settle result).goto caller =
            (hand.goto caller).settle result := by
        intro hand result caller
        unfold Hand.settle
        split <;> rfl
      rw [commutes]
      exact (inv.joinedHead call two stands facts luck.ok).settle _
  | headUnlock result asked =>
      rw [stands] at taken
      have same := Option.some.inj taken
      subst same
      exact inv.joinedHeadUnlock call stands
  | askWait result =>
      rw [stands] at taken
      exact inv.joinedWait call stands taken
  | takeBack result =>
      rw [stands] at taken
      exact inv.joinedTake call stands taken
  | backLock result =>
      rw [stands] at taken
      exact inv.joinedBack call stands taken
  | backPost result post =>
      rw [stands] at taken
      exact inv.joinedPost call stands taken
  | backUnlock result =>
      rw [stands] at taken facts
      have same := Option.some.inj taken
      subst same
      exact inv.gotoHolder none (weakens_joined call stands fun _ => .inl rfl)
        (facts_joined call two facts)
  | askClear result =>
      rw [stands] at taken
      have same := Option.some.inj taken
      subst same
      exact inv.joinedClear call stands
  | _ =>
      rw [stands] at taken
      simp [Hand.bondPost] at taken

end

/-! ## Whole runs -/

section

variable {hand next : Hand}

/-- Between calls no link is asked. -/
theorem Inv.clean (inv : hand.Inv) (between : away hand.caller = true)
    (lane : Nat) : (hand.lanes lane).Clean := by
  have stands := inv.lanes lane
  have viewed : hand.view lane = .fresh ∨
      ∃ ok, hand.view lane = .spent ok := by
    unfold Hand.view
    cases caller : hand.caller with
    | idle => cases hand.call <;> exact .inl rfl
    | returned ok =>
        cases hand.call with
        | parallel off roff sizes =>
            simp only [parallelView]
            split
            · exact .inr ⟨ok, rfl⟩
            · exact .inl rfl
        | single on off roff len =>
            simp only [shortView]
            split
            · exact .inr ⟨ok, rfl⟩
            · exact .inl rfl
        | joined head off roff len first =>
            simp only [joinedView]
            split
            · exact .inr ⟨ok, rfl⟩
            · split
              · exact .inr ⟨ok, rfl⟩
              · exact .inl rfl
    | _ => simp [caller, away] at between
  rcases viewed with fresh | ⟨ok, spent⟩
  · rw [fresh] at stands
    exact stands.1
  · rw [spent] at stands
    exact stands.1

/-- A call begins with nothing asked and nothing posted. -/
theorem Inv.begin (inv : hand.Inv) {call : Call}
    (between : away hand.caller = true) (fits : Fits hand.links call) :
    (hand.begin call).Inv where
  lanes := by
    intro lane
    have clean := inv.clean between lane
    have viewed : (hand.begin call).view lane = .fresh := by
      unfold Hand.view Hand.begin
      cases call <;> rfl
    rw [viewed]
    exact ⟨⟨clean.1, clean.2, clean.3⟩, rfl⟩
  facts := by
    unfold Hand.Facts Hand.begin
    cases call with
    | parallel off roff sizes =>
        refine ⟨?_, fun _ => rfl⟩
        simp [Hand.batch]
    | single on off roff len => exact trivial
    | joined head off roff len first => exact ⟨fits.2, trivial⟩
  quiet := fun _ _ _ _ => rfl

/-- Every step keeps the invariant. -/
theorem Inv.step (inv : hand.Inv) {act : Act}
    (taken : hand.step act = some next) : next.Inv := by
  cases act with
  | call call =>
      simp only [Hand.step] at taken
      split at taken
      · next both =>
          have same := Option.some.inj taken
          subst same
          exact inv.begin both.1 both.2
      · simp at taken
  | caller luck =>
      simp only [Hand.step, Hand.advance] at taken
      split at taken
      · next call => exact inv.bondParallel call taken
      · next call => exact inv.bondShort call taken
      · next call => exact inv.bondPost call taken
  | worker lane luck =>
      simp only [Hand.step] at taken
      split at taken
      · exact inv.work taken
      · simp at taken
  | fail =>
      have same := Option.some.inj taken
      subst same
      exact inv.fail

theorem Inv.start (links : Nat) (postOnly : Nat → Bool) :
    (machine links postOnly).start.Inv where
  lanes := fun _ => ⟨⟨rfl, rfl, fun posting => posting⟩, rfl⟩
  facts := trivial
  quiet := fun _ _ _ _ => rfl

/-- The invariant holds along every run. -/
theorem Inv.ofReach {links : Nat} {postOnly : Nat → Bool}
    (reached : (machine links postOnly).Reach hand) : hand.Inv :=
  reached.invariant Inv (Inv.start links postOnly) fun _ _ _ inv taken =>
    inv.step taken

/-- The batch a thread in `post_ask` has read a pointer to. -/
def frameOf : Post → Option Nat
  | .arrives batch | .awaits batch | .asks batch | .looks batch
  | .writes batch => some batch
  | _ => none

/-- The caller waits for parts, its own or the links'. -/
def Waits : Caller → Prop
  | .localPost _ _ _ | .collect _ _ => True
  | _ => False

/-- What a hand-off promises: a part is posted at most once, on its own link;
every part is posted once when the call succeeds; nothing is posted once the
batch is cancelled; the batch is released before the caller waits; a thread in
`post_ask` reads the batch of the call that is still in progress; and between
calls every `ask` word and batch pointer is clear. -/
structure Safe (hand : Hand) : Prop where
  once : ∀ lane, (hand.lanes lane).posts = [] ∨ ∃ part ok,
    hand.call.part hand.links lane = some part ∧
      (hand.lanes lane).posts = [(part, ok)]
  success : hand.caller = .returned true → ∀ lane,
    (hand.lanes lane).posts =
      (hand.call.part hand.links lane).toList.map fun part => (part, true)
  cancelled : ∀ off roff sizes, hand.call = .parallel off roff sizes →
    hand.batch.cancel = true → ∀ lane, (hand.lanes lane).posts = []
  released : Waits hand.caller → hand.batch.go = true
  within : ∀ lane post, (hand.lanes lane).worker = .posts post →
    away hand.caller = false ∧
      ∀ frame, frameOf post = some frame → frame = hand.frame
  clear : away hand.caller = true → ∀ lane,
    (hand.lanes lane).ask = .none ∧ (hand.lanes lane).batch = none

/-- A call that returned with success has posted every part. -/
theorem Inv.success (inv : hand.Inv) (ok : hand.caller = .returned true)
    (lane : Nat) : (hand.lanes lane).posts =
      (hand.call.part hand.links lane).toList.map fun part => (part, true) := by
  have stands := inv.lanes lane
  have won : ∀ {part : Option Part}, (hand.lanes lane).Won part →
      (hand.lanes lane).posts = part.toList.map fun part => (part, true) := by
    rintro part ⟨posted, rfl, posts⟩
    exact posts
  unfold Hand.view at stands
  cases call : hand.call with
  | parallel off roff sizes =>
      rw [call, ok] at stands
      simp only [parallelView] at stands
      split at stands
      · exact won (stands.2.2 rfl)
      · next outside => simpa [Call.part, outside] using stands.2
  | single on off roff len =>
      rw [call, ok] at stands
      simp only [shortView] at stands
      split at stands
      · exact won (stands.2.2 rfl)
      · next elsewhere => simpa [Call.part, elsewhere] using stands.2
  | joined head off roff len first =>
      rw [call, ok] at stands
      simp only [joinedView] at stands
      split at stands
      · exact won (stands.2.2 rfl)
      · next elsewhere =>
          split at stands
          · exact won (stands.2.2 rfl)
          · next none =>
              have empty : Call.part hand.links
                  (.joined head off roff len first) lane = Option.none := by
                simp only [Call.part, if_neg elsewhere, if_neg none]
              rw [empty]
              exact stands.2

/-- The caller waits only for a batch it has released. -/
theorem Inv.released (inv : hand.Inv) (waits : Waits hand.caller) :
    hand.batch.go = true := by
  have facts := inv.facts
  unfold Hand.Facts at facts
  cases caller : hand.caller with
  | localPost lane bad post =>
      rw [caller] at facts
      cases call : hand.call with
      | parallel off roff sizes =>
          rw [call] at facts
          exact facts.1
      | single on off roff len =>
          rw [call] at facts
          exact facts.elim
      | joined head off roff len first =>
          rw [call] at facts
          exact facts.2.elim
  | collect lane bad =>
      rw [caller] at facts
      cases call : hand.call with
      | parallel off roff sizes =>
          rw [call] at facts
          exact facts.1
      | single on off roff len =>
          rw [call] at facts
          exact facts.elim
      | joined head off roff len first =>
          rw [call] at facts
          exact facts.2.elim
  | _ =>
      rw [caller] at waits
      exact waits.elim

/-- A thread in `post_ask` is in the batch of the call in progress. -/
theorem Inv.within (inv : hand.Inv) {lane : Nat} {post : Post}
    (posting : (hand.lanes lane).worker = .posts post) :
    away hand.caller = false ∧
      ∀ frame, frameOf post = some frame → frame = hand.frame := by
  constructor
  · by_contra between
    have clean := inv.clean (by simpa using between) lane
    apply clean.3
    rw [posting]
    trivial
  · intro frame points
    obtain ⟨-, -, -, within⟩ := (inv.lanes lane).ofPosting posting
    have wanted : hand.want = some frame := by
      cases post with
      | arrives batch =>
          have same := Option.some.inj points
          exact same ▸ within.1
      | awaits batch =>
          have same := Option.some.inj points
          exact same ▸ within.1
      | asks batch =>
          have same := Option.some.inj points
          exact same ▸ within.1
      | looks batch =>
          have same := Option.some.inj points
          exact same ▸ within.1
      | writes batch =>
          have same := Option.some.inj points
          exact same ▸ within.1
      | _ => simp [frameOf] at points
    unfold Hand.want at wanted
    split at wanted
    · exact (Option.some.inj wanted).symm
    · simp at wanted

/-- Every run of a caller and the links' threads is safe. -/
theorem handoff_safe {links : Nat} {postOnly : Nat → Bool}
    (reached : (machine links postOnly).Reach hand) : hand.Safe := by
  have inv := Inv.ofReach reached
  refine ⟨?_, inv.success, ?_, inv.released, ?_, ?_⟩
  · intro lane
    rcases (inv.lanes lane).bounded with won | lost | failed
    · obtain ⟨part, own, posts⟩ := won
      exact .inr ⟨part, true, own, posts⟩
    · exact .inl lost
    · obtain ⟨part, own, posts⟩ := failed
      exact .inr ⟨part, false, own, posts⟩
  · intro off roff sizes call cancelled lane
    refine inv.quiet hand.frame ?_ ?_ lane
    · simp [Hand.want, call]
    · intro live
      rw [live.2] at cancelled
      cases cancelled
  · intro lane post posting
    exact inv.within posting
  · intro between lane
    exact ⟨(inv.clean between lane).1, (inv.clean between lane).2⟩

/-- Nothing is late and everything succeeds. -/
def soon : Luck := ⟨false, true, .posted⟩

/-- The deadline has passed. -/
def late : Luck := ⟨true, true, .posted⟩

/-- A write cut over two links. -/
def cutCall : Act := .call (.parallel 0 64 fun _ => 4)

/-- The first link's thread takes its part in time, the second's does not, and
the caller falls back to posting that part itself. -/
def fallbackCall : List Act :=
  cutCall ::
    (List.replicate 7 (.caller soon) ++ List.replicate 5 (.worker 0 soon) ++
      List.replicate 4 (.caller late) ++ List.replicate 16 (.caller soon) ++
      List.replicate 6 (.worker 0 soon) ++ List.replicate 11 (.caller soon))

/-- In the next call the first link's thread has its ask but is not there when
the time is up, and the caller cancels. -/
def cancelledCall : List Act :=
  fallbackCall ++ List.replicate 2 (.worker 0 soon) ++
    cutCall :: (List.replicate 7 (.caller soon) ++
      List.replicate 3 (.worker 0 soon) ++ List.replicate 6 (.caller late) ++
      List.replicate 17 (.caller soon) ++ List.replicate 7 (.worker 0 soon) ++
      List.replicate 9 (.caller soon))

/-- What the two links have after some steps. -/
def pairAfter (acts : List Act) : Option Hand :=
  (machine 2 fun _ => false).run (machine 2 fun _ => false).start acts

theorem fallbackCall_runs : (pairAfter fallbackCall).isSome = true := by
  decide +kernel

theorem cancelledCall_runs : (pairAfter cancelledCall).isSome = true := by
  decide +kernel

theorem handoff_safe_fallback_cancel :
    (((pairAfter fallbackCall).get fallbackCall_runs).caller = .returned true ∧
      ((pairAfter fallbackCall).get fallbackCall_runs).taken 1 = true ∧
      ((pairAfter fallbackCall).get fallbackCall_runs).Safe) ∧
    ((pairAfter cancelledCall).get cancelledCall_runs).caller =
        .returned false ∧
      (((pairAfter cancelledCall).get cancelledCall_runs).frames 2).cancel =
        true ∧
      ((pairAfter cancelledCall).get cancelledCall_runs).Safe :=
  ⟨⟨by decide +kernel, by decide +kernel,
    handoff_safe (Machine.Reach.get fallbackCall_runs)⟩,
    by decide +kernel, by decide +kernel,
    handoff_safe (Machine.Reach.get cancelledCall_runs)⟩

end

end Hand

end Handoff
end Fabric
end Mcdma
