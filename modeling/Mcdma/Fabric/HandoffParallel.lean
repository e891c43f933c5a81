import Mcdma.Fabric.HandoffSafety

/-!
# A write cut over all links

What the caller's steps do to what it knows of each link, and that every step of
`bond_parallel` on a long write keeps it true.
-/

namespace Mcdma
namespace Fabric
namespace Handoff

namespace Hand

section

variable {hand next : Hand} {lane : Nat} {caller : Caller}

/-- The caller moves on and touches nothing. -/
theorem Inv.goto (inv : hand.Inv)
    (views : ∀ other, Weakens (hand.view other) ((hand.goto caller).view other))
    (facts : (hand.goto caller).Facts) : (hand.goto caller).Inv :=
  inv.change 0 rfl rfl rfl (fun went => ⟨went, rfl⟩)
    (fun other _ => ⟨rfl, views other⟩) ((views 0).stands (inv.lanes 0)) facts
    (.inl rfl)

/-- The caller takes a lock or gives one back. -/
theorem Inv.gotoHolder (inv : hand.Inv) (holder : Option Holder)
    (views : ∀ other, Weakens (hand.view other) ((hand.goto caller).view other))
    (facts : (hand.goto caller).Facts) :
    ((hand.setLane lane { hand.lanes lane with holder := holder }).goto
      caller).Inv := by
  have self : ((hand.setLane lane { hand.lanes lane with
      holder := holder }).goto caller).lanes lane =
      { hand.lanes lane with holder := holder } :=
    setLane_lanes_self hand lane _
  refine inv.change lane rfl rfl rfl (fun went => ⟨went, rfl⟩) ?_ ?_ facts
    (.inl ?_)
  · intro other different
    exact ⟨Function.update_of_ne different _ _, views other⟩
  · rw [self]
    exact ((views lane).stands (inv.lanes lane)).setHolder holder
  · rw [self]

/-- The caller takes a lock. -/
theorem Inv.gotoLock (inv : hand.Inv)
    (taken : (hand.lock lane .caller).map (·.goto caller) = some next)
    (views : ∀ other, Weakens (hand.view other) ((hand.goto caller).view other))
    (facts : (hand.goto caller).Facts) : next.Inv := by
  obtain ⟨locked, locks, same⟩ := Option.map_eq_some_iff.mp taken
  unfold Hand.lock at locks
  split at locks
  · have held := Option.some.inj locks
    subst held same
    exact inv.gotoHolder (some .caller) views facts
  · simp at locks

/-- The caller changes one link without posting. -/
theorem Inv.gotoLane (inv : hand.Inv) (after : Lane)
    (others : ∀ other, other ≠ lane →
      Weakens (hand.view other) ((hand.goto caller).view other))
    (stands : after.Stands (hand.call.part hand.links lane) hand.want
      hand.batch ((hand.goto caller).view lane))
    (facts : (hand.goto caller).Facts)
    (posts : after.posts = (hand.lanes lane).posts ∨ hand.want = none) :
    ((hand.setLane lane after).goto caller).Inv := by
  have self : ((hand.setLane lane after).goto caller).lanes lane = after :=
    setLane_lanes_self hand lane _
  refine inv.change lane rfl rfl rfl (fun went => ⟨went, rfl⟩) ?_ ?_ facts ?_
  · intro other different
    exact ⟨Function.update_of_ne different _ _, others other different⟩
  · rw [self]
    exact stands
  · rw [self]
    exact posts.imp_right .inl

/-- The caller changes its batch before or after the release. -/
theorem Inv.gotoBatch (inv : hand.Inv) (batch : Batch)
    (grows : hand.batch.Grows batch)
    (views : ∀ other, (hand.goto caller).view other = hand.view other)
    (facts : ((hand.setBatch hand.frame batch).goto caller).Facts) :
    ((hand.setBatch hand.frame batch).goto caller).Inv := by
  have own : ((hand.setBatch hand.frame batch).goto caller).batch = batch :=
    Function.update_self _ _ _
  refine inv.change 0 rfl rfl rfl ?_ ?_ ?_ facts (.inl rfl)
  · rw [own]
    exact grows
  · intro other _
    exact ⟨rfl, .inl (views other)⟩
  · rw [own]
    have same : ((hand.setBatch hand.frame batch).goto caller).view 0 =
        hand.view 0 := views 0
    rw [same]
    exact (inv.lanes 0).mono grows

/-- The caller takes a step of `post_ask` on a link it has taken. -/
theorem Inv.gotoPost (inv : hand.Inv) {luck : Luck} {post : Post}
    {caller : Post → Caller}
    (taken : (hand.postAsk lane luck post).map
      (fun after => after.1.goto (caller after.2)) = some next)
    (mine : hand.view lane = .kept (some post))
    (others : ∀ after other, other ≠ lane →
      (hand.goto (caller after)).view other = hand.view other)
    (self : ∀ after, (hand.goto (caller after)).view lane =
      .kept (some after))
    (facts : ∀ after, (hand.goto (caller after)).Facts) : next.Inv := by
  have stands := inv.lanes lane
  rw [mine] at stands
  obtain ⟨asked, ask, idle, within⟩ := stands
  obtain ⟨⟨middle, after⟩, steps, same⟩ := Option.map_eq_some_iff.mp taken
  subst same
  obtain ⟨posts, moves, inside, once⟩ :=
    postAsk_keeps steps asked (fun _ => frames_want) within
  have view : ∀ other, (middle.goto (caller after)).view other =
      (hand.goto (caller after)).view other := by
    intro other
    simp only [Hand.view, Hand.goto, moves.call, moves.links, moves.taken]
  have lanes : (middle.goto (caller after)).lanes lane =
      { hand.lanes lane with posts := posts } := by
    simp [Hand.goto, moves.lanes]
  refine inv.change lane moves.links moves.call moves.frame moves.grows ?_ ?_
    ((facts after).congr moves.links moves.call rfl moves.taken
      moves.batch.1) ?_
  · intro other different
    refine ⟨?_, .inl ?_⟩
    · simp [Hand.goto, moves.lanes, Function.update_of_ne different]
    · rw [view]
      exact others after other different
  · rw [view, self, lanes]
    have grown := inside.mono moves.grows
    refine ⟨⟨asked.1, asked.2⟩, ask, idle, ?_⟩
    cases after with
    | answers answer => cases answer <;> exact grown
    | _ => exact grown
  · rw [lanes]
    rcases once with same | none | live
    · exact .inl same
    · exact .inr (.inl none)
    · exact .inr (.inr (moves.grows.live live))

end

/-! ## A write cut over all links -/

theorem start_succ (sizes : Nat → Nat) (lane : Nat) :
    start sizes (lane + 1) = start sizes lane + sizes lane := by
  simp [start, List.range_succ]

section

variable {hand next : Hand} {off roff : Nat} {sizes : Nat → Nat}
variable {luck : Luck}

/-! The views and the facts of a cut write are read off its caller. -/

theorem view_parallel (call : hand.call = .parallel off roff sizes)
    (lane : Nat) :
    hand.view lane = parallelView hand.links hand.taken hand.caller lane := by
  simp only [Hand.view, call]

theorem viewed_parallel (call : hand.call = .parallel off roff sizes)
    (caller : Caller) (lane : Nat) :
    (hand.goto caller).view lane =
      parallelView hand.links hand.taken caller lane := by
  simp only [Hand.view, Hand.goto, call]

theorem Inv.parallelFacts (inv : hand.Inv)
    (call : hand.call = .parallel off roff sizes) :
    Hand.parallelFacts hand.links hand.taken hand.batch.go off roff
      sizes hand.caller := by
  have facts := inv.facts
  simp only [Hand.Facts, call] at facts
  exact facts

theorem facts_parallel (call : hand.call = .parallel off roff sizes)
    {caller : Caller} (facts : Hand.parallelFacts hand.links hand.taken
      hand.batch.go off roff sizes caller) : (hand.goto caller).Facts := by
  simp only [Hand.Facts, Hand.goto, call]
  exact facts

/-- Opening the asks. -/
theorem Inv.parallelOpen (inv : hand.Inv)
    (call : hand.call = .parallel off roff sizes) {lane src dst : Nat}
    (stands : hand.caller = .openAsk lane src dst) :
    ((hand.setLane lane { hand.lanes lane with
      off := src, roff := dst, len := sizes lane
      batch := some hand.frame, ask := .open }).goto
        (.openUnlock lane src dst)).Inv := by
  have facts := inv.parallelFacts call
  rw [stands] at facts
  obtain ⟨went, taken, inBond, rfl, rfl⟩ := facts
  have old := inv.lanes lane
  have viewed := view_parallel call lane
  rw [stands] at viewed
  simp only [parallelView, lt_self_iff_false, if_false] at viewed
  rw [viewed] at old
  refine inv.gotoLane _ ?_ ?_ ?_ (.inl rfl)
  · intro other different
    refine .inl ?_
    rw [viewed_parallel call, view_parallel call, stands]
    have same : other < lane + 1 ↔ other < lane := by omega
    simp only [parallelView, same]
  · rw [viewed_parallel call]
    simp only [parallelView, Nat.lt_succ_self, if_true]
    refine ⟨⟨?_, ?_⟩, .opened rfl old.1.3 old.2⟩
    · simp [Hand.want, call]
    · simp [Call.part, call, inBond, Lane.asked]
  · exact facts_parallel call ⟨went, taken, inBond, rfl, rfl⟩

/-- What the caller knows after moving from one place to another. -/
theorem weakens_parallel (call : hand.call = .parallel off roff sizes)
    {before caller : Caller} (stands : hand.caller = before)
    (views : ∀ other, Weakens
      (parallelView hand.links hand.taken before other)
      (parallelView hand.links hand.taken caller other)) (other : Nat) :
    Weakens (hand.view other) ((hand.goto caller).view other) := by
  rw [viewed_parallel call, view_parallel call, stands]
  exact views other

theorem same_parallel (call : hand.call = .parallel off roff sizes)
    {before caller : Caller} (stands : hand.caller = before)
    (views : ∀ other, parallelView hand.links hand.taken caller other =
      parallelView hand.links hand.taken before other) (other : Nat) :
    Weakens (hand.view other) ((hand.goto caller).view other) :=
  weakens_parallel call stands (fun other => .inl (views other)) other

/-- The next link is opened once the one before it is. -/
theorem Inv.parallelOpenFrom (inv : hand.Inv)
    (call : hand.call = .parallel off roff sizes) {lane src dst : Nat}
    (stands : hand.caller = .openUnlock lane src dst) :
    ((hand.unlock lane).goto (hand.openFrom (lane + 1) (src + sizes lane)
      (dst + sizes lane))).Inv := by
  have facts := inv.parallelFacts call
  rw [stands] at facts
  obtain ⟨went, taken, inBond, rfl, rfl⟩ := facts
  unfold openFrom
  split
  · next more =>
      refine inv.gotoHolder none (same_parallel call stands fun _ => rfl) ?_
      refine facts_parallel call ⟨went, taken, more, ?_, ?_⟩ <;>
        rw [start_succ, Nat.add_assoc]
  · next last =>
      refine inv.gotoHolder none (same_parallel call stands ?_)
        (facts_parallel call went)
      intro other
      have same : other < hand.links ↔ other < lane + 1 := by omega
      simp [parallelView, taken, same]

/-- The caller claims an ask that no thread has taken. -/
theorem Inv.parallelFallback (inv : hand.Inv)
    (call : hand.call = .parallel off roff sizes) {lane : Nat}
    (stands : hand.caller = .fallback lane) (inBond : lane < hand.links)
    (ask : (hand.lanes lane).ask = .open) :
    ({ hand.setAsk lane .taken with
      taken := Function.update hand.taken lane true }.goto
        (.fallbackCount lane)).Inv := by
  have went := inv.parallelFacts call
  rw [stands] at went
  obtain ⟨-, asked, idle, none⟩ := (inv.lanes lane).ofOpen ask
  have view : ∀ other,
      ({ hand.setAsk lane .taken with
        taken := Function.update hand.taken lane true }.goto
          (.fallbackCount lane)).view other =
      parallelView hand.links (Function.update hand.taken lane true)
        (.fallbackCount lane) other := by
    intro other
    simp only [Hand.view, Hand.goto, setAsk, setLane, call]
  have self : ({ hand.setAsk lane .taken with
      taken := Function.update hand.taken lane true }.goto
        (.fallbackCount lane)).lanes lane =
      { hand.lanes lane with ask := .taken } :=
    setLane_lanes_self hand lane _
  refine inv.change lane rfl rfl rfl (fun went => ⟨went, rfl⟩) ?_ ?_ ?_
    (.inl ?_)
  · intro other different
    refine ⟨Function.update_of_ne different _ _, .inl ?_⟩
    rw [view, view_parallel call, stands]
    simp only [parallelView, Function.update_of_ne different]
  · rw [view, self]
    simp only [parallelView, if_pos inBond, Function.update_self, if_true]
    exact ⟨⟨asked.1, asked.2⟩, rfl, idle, none⟩
  · simp only [Hand.Facts, Hand.goto, setAsk, setLane, call]
    exact went
  · rw [self]

/-- The caller cancels an ask that no thread has taken. -/
theorem Inv.parallelCancel (inv : hand.Inv)
    (call : hand.call = .parallel off roff sizes) {lane : Nat}
    (stands : hand.caller = .cancelAsk lane)
    (ask : (hand.lanes lane).ask = .open) :
    ((hand.setAsk lane .failed).goto (.cancelAsk (lane + 1))).Inv := by
  have went := inv.parallelFacts call
  rw [stands] at went
  obtain ⟨given, asked, idle, none⟩ := (inv.lanes lane).ofOpen ask
  have views : ∀ other,
      (hand.goto (.cancelAsk (lane + 1))).view other = hand.view other := by
    intro other
    rw [viewed_parallel call, view_parallel call, stands]
    rfl
  refine inv.gotoLane _ (fun other _ => .inl (views other)) ?_
    (facts_parallel call went) (.inl rfl)
  rw [views, given]
  exact ⟨⟨asked.1, asked.2⟩, .failed rfl idle (.inl none)⟩

/-- The caller stores what its own `post_ask` returned. -/
theorem Inv.parallelAnswer (inv : hand.Inv)
    (call : hand.call = .parallel off roff sizes) {lane : Nat} {bad : Bool}
    {ask : Ask} (stands : hand.caller = .localPost lane bad (.answers ask)) :
    ((hand.setAsk lane ask).goto (.localUnlock lane bad)).Inv := by
  have facts := inv.parallelFacts call
  rw [stands] at facts
  obtain ⟨went, inBond, taken⟩ := facts
  have old := inv.lanes lane
  rw [view_parallel call, stands] at old
  simp only [parallelView, if_pos inBond, if_true] at old
  obtain ⟨asked, -, idle, within⟩ := old
  refine inv.gotoLane _ ?_ ?_ (facts_parallel call went) (.inl rfl)
  · intro other different
    refine .inl ?_
    rw [viewed_parallel call, view_parallel call, stands]
    simp only [parallelView, if_neg different]
  · rw [viewed_parallel call]
    simp only [parallelView, if_pos inBond, lt_self_iff_false, and_false,
      if_false]
    refine ⟨⟨asked.1, asked.2⟩, ?_⟩
    cases ask with
    | done => exact .done rfl idle within
    | failed => exact .failed rfl idle within
    | _ => exact within.elim

/-- The caller reads that a link has answered. -/
theorem Inv.parallelCollect (inv : hand.Inv)
    (call : hand.call = .parallel off roff sizes) {lane : Nat} {bad : Bool}
    (stands : hand.caller = .collect lane bad) (inBond : lane < hand.links)
    (answered : ¬((hand.lanes lane).ask = .open ∨
      (hand.lanes lane).ask = .taken)) :
    (hand.goto (.collectLock lane
      (bad || decide ((hand.lanes lane).ask ≠ .done)))).Inv := by
  have facts := inv.parallelFacts call
  rw [stands] at facts
  have old := inv.lanes lane
  rw [view_parallel call, stands] at old
  simp only [parallelView, lt_self_iff_false, if_false, if_pos inBond] at old
  refine inv.change lane rfl rfl rfl (fun went => ⟨went, rfl⟩) ?_ ?_
    (facts_parallel call ⟨facts.1, inBond⟩) (.inl rfl)
  · intro other different
    refine ⟨rfl, ?_⟩
    rw [viewed_parallel call, view_parallel call, stands]
    simp only [parallelView, if_neg different]
    by_cases earlier : other < lane
    · simp only [if_pos earlier]
      cases bad with
      | true => exact .inl rfl
      | false =>
          by_cases done : (hand.lanes lane).ask = .done
          · exact .inl (by simp [done])
          · exact .inr (.inl ⟨by simp [done], .inr ⟨_, rfl⟩⟩)
    · simp only [if_neg earlier]
      exact .inl rfl
  · rw [viewed_parallel call]
    simp only [parallelView, lt_self_iff_false, if_false, if_true]
    obtain ⟨asked, given⟩ := old
    cases given with
    | opened ask => exact absurd (.inl ask) answered
    | taken ask => exact absurd (.inr ask) answered
    | done ask idle won => exact ⟨asked, idle, .inl ⟨ask, won⟩⟩
    | failed ask idle lost =>
        refine ⟨asked, idle, .inr ⟨ask, lost, ?_⟩⟩
        have refused : (hand.lanes lane).ask ≠ .done := by
          rw [ask]
          exact nofun
        simp [refused]

/-- The caller clears a link that has answered. -/
theorem Inv.parallelClear (inv : hand.Inv)
    (call : hand.call = .parallel off roff sizes) {lane : Nat} {bad : Bool}
    (stands : hand.caller = .collectClear lane bad) :
    ((hand.setLane lane { hand.lanes lane with
      batch := none, ask := .none }).goto (.collectUnlock lane bad)).Inv := by
  have facts := inv.parallelFacts call
  rw [stands] at facts
  have old := inv.lanes lane
  rw [view_parallel call, stands] at old
  simp only [parallelView, lt_self_iff_false, if_false, if_true] at old
  obtain ⟨-, idle, settled⟩ := old
  refine inv.gotoLane _ ?_ ?_ (facts_parallel call facts) (.inl rfl)
  · intro other different
    refine .inl ?_
    rw [viewed_parallel call, view_parallel call, stands]
    have same : other < lane + 1 ↔ other < lane := by omega
    simp only [parallelView, same, if_neg different]
  · rw [viewed_parallel call]
    simp only [parallelView, Nat.lt_succ_self, if_true]
    refine ⟨⟨rfl, rfl, idle⟩, ?_, ?_⟩
    · rcases settled with done | failed
      · exact .inl done.2
      · exact .inr failed.2.1
    · intro good
      rcases settled with done | failed
      · exact done.2
      · rw [failed.2.2] at good
        cases good

/-- The caller moves on and knows no more than before. -/
theorem Inv.parallelMove (inv : hand.Inv)
    (call : hand.call = .parallel off roff sizes) {before caller : Caller}
    (stands : hand.caller = before)
    (views : ∀ other, Weakens
      (parallelView hand.links hand.taken before other)
      (parallelView hand.links hand.taken caller other))
    (facts : Hand.parallelFacts hand.links hand.taken hand.batch.go off roff
      sizes caller) : (hand.goto caller).Inv :=
  inv.goto (weakens_parallel call stands views) (facts_parallel call facts)

/-- The caller moves on and knows what it knew. -/
theorem Inv.parallelStay (inv : hand.Inv)
    (call : hand.call = .parallel off roff sizes) {before caller : Caller}
    (stands : hand.caller = before)
    (views : ∀ other, parallelView hand.links hand.taken caller other =
      parallelView hand.links hand.taken before other)
    (facts : Hand.parallelFacts hand.links hand.taken hand.batch.go off roff
      sizes caller) : (hand.goto caller).Inv :=
  inv.parallelMove call stands (fun other => .inl (views other)) facts

/-- The caller changes its batch and knows what it knew. -/
theorem Inv.parallelBatch (inv : hand.Inv)
    (call : hand.call = .parallel off roff sizes) {before caller : Caller}
    (stands : hand.caller = before) (batch : Batch)
    (grows : hand.batch.Grows batch)
    (views : ∀ other, parallelView hand.links hand.taken caller other =
      parallelView hand.links hand.taken before other)
    (facts : Hand.parallelFacts hand.links hand.taken batch.go off roff sizes
      caller) : ((hand.setBatch hand.frame batch).goto caller).Inv := by
  refine inv.gotoBatch batch grows ?_ ?_
  · intro other
    rw [viewed_parallel call, view_parallel call, stands]
    exact views other
  · simp only [Hand.Facts, Hand.goto, setBatch, call, Hand.batch,
      Function.update_self]
    exact facts

/-- The caller starts to open the asks, unless the peer is down. -/
theorem Inv.parallelLook (inv : hand.Inv)
    (call : hand.call = .parallel off roff sizes)
    (stands : hand.caller = .look) :
    (hand.goto (if hand.down then .returned false
      else hand.openFrom 0 off roff)).Inv := by
  have facts := inv.parallelFacts call
  rw [stands] at facts
  split
  · refine inv.parallelMove call stands ?_ trivial
    intro other
    simp only [parallelView]
    split
    · exact .inr (.inl ⟨rfl, .inl rfl⟩)
    · exact .inl rfl
  · unfold openFrom
    split
    · next some =>
        refine inv.parallelStay call stands ?_
          ⟨facts.1, facts.2, some, by simp [start], by simp [start]⟩
        intro other
        simp [parallelView]
    · next none =>
        refine inv.parallelStay call stands ?_ facts.1
        intro other
        have outside : ¬other < hand.links := by omega
        simp [parallelView, outside]

/-- The caller goes through the links for asks that no thread has taken. -/
theorem Inv.parallelFallbacks (inv : hand.Inv)
    (call : hand.call = .parallel off roff sizes) {lane : Nat}
    (stands : hand.caller = .fallback lane)
    (taken : hand.bondParallel off roff sizes luck (.fallback lane) =
      some next) : next.Inv := by
  have facts := inv.parallelFacts call
  rw [stands] at facts
  simp only [Hand.bondParallel] at taken
  split at taken
  · next inBond =>
      split at taken
      · next ask =>
          have same := Option.some.inj taken
          subst same
          exact inv.parallelFallback call stands inBond ask
      · have same := Option.some.inj taken
        subst same
        exact inv.parallelStay call stands (fun _ => rfl) facts
  · have same := Option.some.inj taken
    subst same
    exact inv.parallelStay call stands (fun _ => rfl) facts

/-- The caller goes through the links for asks to cancel. -/
theorem Inv.parallelCancels (inv : hand.Inv)
    (call : hand.call = .parallel off roff sizes) {lane : Nat}
    (stands : hand.caller = .cancelAsk lane)
    (taken : hand.bondParallel off roff sizes luck (.cancelAsk lane) =
      some next) : next.Inv := by
  have facts := inv.parallelFacts call
  rw [stands] at facts
  simp only [Hand.bondParallel] at taken
  split at taken
  · split at taken
    · next ask =>
        have same := Option.some.inj taken
        subst same
        exact inv.parallelCancel call stands ask
    · have same := Option.some.inj taken
      subst same
      exact inv.parallelStay call stands (fun _ => rfl) facts
  · have same := Option.some.inj taken
    subst same
    exact inv.parallelStay call stands (fun _ => rfl) facts

/-- The caller goes through the links for parts it has claimed. -/
theorem Inv.parallelLocals (inv : hand.Inv)
    (call : hand.call = .parallel off roff sizes) {lane : Nat} {bad : Bool}
    (stands : hand.caller = .locals lane bad) :
    (hand.goto (if lane < hand.links then
        if hand.taken lane then .localLock lane bad else .locals (lane + 1) bad
      else .collect 0 bad)).Inv := by
  have facts := inv.parallelFacts call
  rw [stands] at facts
  split
  · next inBond =>
      split
      · next mine =>
          exact inv.parallelStay call stands (fun _ => rfl)
            ⟨facts, inBond, mine⟩
      · next unclaimed =>
          refine inv.parallelStay call stands ?_ facts
          intro other
          have same : hand.taken other = true ∧ lane + 1 ≤ other ↔
              hand.taken other = true ∧ lane ≤ other := by
            constructor
            · exact fun both => ⟨both.1, by omega⟩
            · rintro ⟨mine, least⟩
              refine ⟨mine, ?_⟩
              rcases Nat.eq_or_lt_of_le least with equal | more
              · rw [equal] at unclaimed
                exact absurd mine unclaimed
              · exact more
          simp only [parallelView, same]
  · next past =>
      refine inv.parallelStay call stands ?_ ⟨facts, Nat.zero_le _⟩
      intro other
      simp only [parallelView, Nat.not_lt_zero, if_false]
      by_cases inBond : other < hand.links
      · have before : ¬(hand.taken other = true ∧ lane ≤ other) := by
          rintro ⟨-, least⟩
          omega
        simp only [if_pos inBond, if_neg before]
      · simp only [if_neg inBond]

/-- The caller takes the lock of a link whose part it has claimed. -/
theorem Inv.parallelLocal (inv : hand.Inv)
    (call : hand.call = .parallel off roff sizes) {lane : Nat} {bad : Bool}
    (stands : hand.caller = .localLock lane bad)
    (taken : (hand.lock lane .caller).map
      (·.goto (.localPost lane bad .enters)) = some next) : next.Inv := by
  have facts := inv.parallelFacts call
  rw [stands] at facts
  refine inv.gotoLock taken (weakens_parallel call stands ?_)
    (facts_parallel call facts)
  intro other
  obtain ⟨-, inBond, mine⟩ := facts
  by_cases same : other = lane
  · subst same
    refine .inr (.inr ⟨?_, ?_⟩)
    · simp [parallelView, inBond]
    · simp [parallelView, inBond, mine]
  · refine .inl ?_
    have later : lane < other ↔ lane ≤ other := by omega
    simp only [parallelView, if_neg same, later]

/-- The caller posts a part it has claimed. -/
theorem Inv.parallelPost (inv : hand.Inv)
    (call : hand.call = .parallel off roff sizes) {lane : Nat} {bad : Bool}
    {post : Post} (stands : hand.caller = .localPost lane bad post)
    (taken : hand.bondParallel off roff sizes luck (.localPost lane bad post) =
      some next) : next.Inv := by
  have facts := inv.parallelFacts call
  rw [stands] at facts
  by_cases answered : ∃ ask, post = .answers ask
  · obtain ⟨ask, rfl⟩ := answered
    have same := Option.some.inj taken
    subst same
    exact inv.parallelAnswer call stands
  · have posting : (hand.postAsk lane luck post).map (fun after =>
        after.1.goto (.localPost lane bad after.2)) = some next := by
      cases post with
      | answers ask => exact absurd ⟨ask, rfl⟩ answered
      | _ => exact taken
    refine inv.gotoPost posting ?_ ?_ ?_ fun _ => facts_parallel call facts
    · rw [view_parallel call, stands]
      simp [parallelView, facts.2.1]
    · intro after other different
      rw [viewed_parallel call, view_parallel call, stands]
      simp only [parallelView, if_neg different]
    · intro after
      rw [viewed_parallel call]
      simp [parallelView, facts.2.1]

/-- The caller waits for each link and then for none. -/
theorem Inv.parallelCollects (inv : hand.Inv)
    (call : hand.call = .parallel off roff sizes) {lane : Nat} {bad : Bool}
    (stands : hand.caller = .collect lane bad)
    (taken : hand.bondParallel off roff sizes luck (.collect lane bad) =
      some next) : next.Inv := by
  have facts := inv.parallelFacts call
  rw [stands] at facts
  simp only [Hand.bondParallel] at taken
  split at taken
  · next inBond =>
      split at taken
      · simp at taken
      · next answered =>
          have same := Option.some.inj taken
          subst same
          exact inv.parallelCollect call stands inBond answered
  · next past =>
      have last : lane = hand.links := by
        have upTo := facts.2
        omega
      subst last
      split at taken
      · next failed =>
          have same := Option.some.inj taken
          subst same
          refine inv.fail.goto (weakens_parallel call stands ?_)
            (facts_parallel call trivial)
          intro other
          refine .inl ?_
          by_cases inBond : other < hand.links
          · simp [parallelView, failed, inBond]
          · simp [parallelView, inBond]
      · next good =>
          have same := Option.some.inj taken
          subst same
          refine inv.parallelStay call stands ?_ trivial
          intro other
          by_cases inBond : other < hand.links
          · simp [parallelView, good, inBond]
          · simp [parallelView, inBond]

/-- The call returns what became of the signals behind its parts. -/
theorem Inv.parallelSignals (inv : hand.Inv)
    (call : hand.call = .parallel off roff sizes)
    (stands : hand.caller = .signals) (ok : Bool) :
    (hand.goto (.returned ok)).Inv := by
  refine inv.parallelMove call stands ?_ trivial
  intro other
  simp only [parallelView]
  split
  · cases ok with
    | true => exact .inl rfl
    | false => exact .inr (.inl ⟨rfl, .inr ⟨_, rfl⟩⟩)
  · exact .inl rfl

/-- Every step of a cut write keeps the invariant. -/
theorem Inv.bondParallel (inv : hand.Inv)
    (call : hand.call = .parallel off roff sizes)
    (taken : hand.bondParallel off roff sizes luck hand.caller = some next) :
    next.Inv := by
  have facts := inv.parallelFacts call
  cases stands : hand.caller with
  | look =>
      rw [stands] at taken
      have same := Option.some.inj taken
      subst same
      exact inv.parallelLook call stands
  | openLock lane src dst =>
      rw [stands] at taken facts
      exact inv.gotoLock taken (same_parallel call stands fun _ => rfl)
        (facts_parallel call facts)
  | openAsk lane src dst =>
      rw [stands] at taken
      have same := Option.some.inj taken
      subst same
      exact inv.parallelOpen call stands
  | openUnlock lane src dst =>
      rw [stands] at taken
      have same := Option.some.inj taken
      subst same
      exact inv.parallelOpenFrom call stands
  | awaitReady =>
      rw [stands] at taken facts
      have same := Option.some.inj taken
      subst same
      split
      · exact inv.parallelStay call stands (fun _ => rfl) facts
      · split
        · exact inv.parallelStay call stands (fun _ => rfl) facts
        · exact inv.parallelStay call stands (fun _ => rfl) facts
  | fallback lane =>
      rw [stands] at taken
      exact inv.parallelFallbacks call stands taken
  | fallbackCount lane =>
      rw [stands] at taken facts
      have same := Option.some.inj taken
      subst same
      exact inv.parallelBatch call stands _ (fun went => ⟨went, rfl⟩)
        (fun _ => rfl) facts
  | overdue =>
      rw [stands] at taken facts
      have same := Option.some.inj taken
      subst same
      split
      · exact inv.parallelStay call stands (fun _ => rfl) facts
      · exact inv.parallelStay call stands (fun _ => rfl) facts
  | cancel =>
      rw [stands] at taken facts
      have same := Option.some.inj taken
      subst same
      have early : hand.batch.go = false := facts
      refine inv.parallelBatch call stands _ (fun went => ?_) (fun _ => rfl)
        facts
      rw [early] at went
      cases went
  | cancelAsk lane =>
      rw [stands] at taken
      exact inv.parallelCancels call stands taken
  | release =>
      rw [stands] at taken
      have same := Option.some.inj taken
      subst same
      exact inv.parallelBatch call stands _ (fun _ => ⟨rfl, rfl⟩)
        (fun _ => rfl) rfl
  | readCancel =>
      rw [stands] at taken facts
      have same := Option.some.inj taken
      subst same
      refine inv.parallelStay call stands ?_ facts
      intro other
      simp [parallelView]
  | locals lane bad =>
      rw [stands] at taken
      have same := Option.some.inj taken
      subst same
      exact inv.parallelLocals call stands
  | localLock lane bad =>
      rw [stands] at taken
      exact inv.parallelLocal call stands taken
  | localPost lane bad post =>
      rw [stands] at taken
      exact inv.parallelPost call stands taken
  | localUnlock lane bad =>
      rw [stands] at taken facts
      have same := Option.some.inj taken
      subst same
      exact inv.gotoHolder none (same_parallel call stands fun _ => rfl)
        (facts_parallel call facts)
  | collect lane bad =>
      rw [stands] at taken
      exact inv.parallelCollects call stands taken
  | collectLock lane bad =>
      rw [stands] at taken facts
      exact inv.gotoLock taken (same_parallel call stands fun _ => rfl)
        (facts_parallel call facts)
  | collectClear lane bad =>
      rw [stands] at taken
      have same := Option.some.inj taken
      subst same
      exact inv.parallelClear call stands
  | collectUnlock lane bad =>
      rw [stands] at taken facts
      have same := Option.some.inj taken
      subst same
      exact inv.gotoHolder none (same_parallel call stands fun _ => rfl)
        (facts_parallel call ⟨facts.1, facts.2⟩)
  | signals =>
      rw [stands] at taken
      have same := Option.some.inj taken
      subst same
      exact inv.parallelSignals call stands luck.ok
  | _ =>
      rw [stands] at taken
      simp [Hand.bondParallel] at taken

end

end Hand

end Handoff
end Fabric
end Mcdma
