import Mcdma.Setup.ExchangeSafety

/-!
# Runs of two fabric ends

Whatever the network does and however often either end starts over, a lane that
returns from its exchange has connected to a lane of the other end that has
connected to it.
-/

namespace Mcdma
namespace Setup
namespace Meeting

/-- The histories of a meeting. -/
def minutes (m : Meeting) : Minutes :=
  ⟨m.attempts, m.connected⟩

/-- Every offer is backed and every connection good, attempts are told apart by
their numbers and by their sessions, and both ends keep to the record. -/
structure Inv (m : Meeting) : Prop where
  net : ∀ sent ∈ m.net, sent.Backed m.minutes
  connected : ∀ c ∈ m.connected, c.Good m.minutes
  counted : ∀ a ∈ m.attempts, a.number < m.attempts.length
  numbers : ∀ a ∈ m.attempts, ∀ b ∈ m.attempts, a.number = b.number → a = b
  sessions : ∀ a ∈ m.attempts, ∀ b ∈ m.attempts, a.session = b.session → a = b
  calls : ∀ side c, m.calls side = some c → c.Good m.minutes side

section

variable {m next : Meeting} {side : Bool} {c : Call}

/-- A move of one end that adds connections to the record. -/
theorem Inv.set (inv : m.Inv) (joined : List Connection) {call : Option Call}
    {sent : List Xmsg}
    (good : ∀ c ∈ joined, c.Good ⟨m.attempts, joined ++ m.connected⟩)
    (keeps : ∀ c, call = some c →
      c.Good ⟨m.attempts, joined ++ m.connected⟩ side)
    (backed : ∀ x ∈ sent, x.Backed ⟨m.attempts, joined ++ m.connected⟩) :
    Inv (Meeting.set { m with connected := joined ++ m.connected } side call
      sent) := by
  have on : m.minutes.Extends ⟨m.attempts, joined ++ m.connected⟩ :=
    ⟨fun _ => id, List.subset_append_right _ _⟩
  refine ⟨?_, ?_, inv.counted, inv.numbers, inv.sessions, ?_⟩
  · intro x member
    rcases List.mem_append.mp member with old | new
    · exact (inv.net x old).extends on
    · exact backed x new
  · intro c member
    rcases List.mem_append.mp member with new | old
    · exact good c new
    · exact (inv.connected c old).extends on
  · intro other c there
    simp only [Meeting.set, Function.update_apply] at there
    split at there
    · next same =>
        rw [same]
        exact keeps c there
    · exact (inv.calls other c there).extends on fun b member _ => member

/-- A move that connects nothing. -/
theorem Inv.quiet (inv : m.Inv) {call : Option Call} {sent : List Xmsg}
    (keeps : ∀ c, call = some c → c.Good m.minutes side)
    (backed : ∀ x ∈ sent, x.Backed m.minutes) :
    Inv (m.set side call sent) :=
  inv.set [] (by simp) keeps backed

/-- The end gives its call up. -/
theorem Inv.release (inv : m.Inv) (c : Call) :
    Inv (m.set side none c.release) :=
  inv.quiet (fun _ none => by cases none) fun x member kind =>
    absurd kind (c.release_plain x member)

/-- What a call sends and leaves after a datagram, given the lane's good
state. -/
theorem reads_good {minutes : Minutes} (good : c.Good minutes side)
    (busy : c.up = false) {got : Xmsg} {connects : Bool}
    (lane : ((c.lanes c.lane).exchange c.attempt c.lane got connects).1.Good
      minutes c.attempt c.lane)
    (sent : ∀ x ∈ ((c.lanes c.lane).exchange c.attempt c.lane got
      connects).2.1, x.Backed minutes) :
    (∀ next, (c.reads got connects).1 = some next → next.Good minutes side) ∧
      ∀ x ∈ (c.reads got connects).2, x.Backed minutes := by
  have ends (first : List Xmsg) (backed : ∀ x ∈ first, x.Backed minutes)
      (call : Call) : ∀ x ∈ first ++ call.release, x.Backed minutes := by
    intro x member
    rcases List.mem_append.mp member with early | late
    · exact backed x early
    · exact fun kind => absurd kind (call.release_plain x late)
  have set := good.set busy lane
  simp only [Call.reads]
  split
  · split
    · exact ⟨fun _ none => absurd none (by simp), ends _ sent _⟩
    · split
      · exact ⟨fun _ none => absurd none (by simp), ends _ sent _⟩
      · next advances =>
          refine ⟨fun next same => ?_, sent⟩
          rw [← Option.some.inj same]
          exact set.advance busy advances
  · refine ⟨fun next same => ?_, by simp⟩
    rw [← Option.some.inj same]
    exact good

/-- A lane that joins a backed offer connects as the record wants it. -/
theorem Inv.joins_good (inv : m.Inv) (there : m.calls side = some c)
    (busy : c.up = false) {got : Xmsg} (backed : got.Backed m.minutes)
    (admits : (c.lanes c.lane).x.admits got = true) (kind : got.kind = .offer)
    (usable : Lane.refuse c.attempt c.lane got.info = none)
    {after : Minutes} (grown : m.minutes.Extends after) :
    Connection.Good after
      ⟨c.attempt.session, c.lane, got.fromSession, got.info⟩ := by
  have good := inv.calls side c there
  have lane := good.lanes c.lane
  simp only [Xchg.admits, decide_eq_true_eq] at admits
  obtain ⟨b, j, offers, same, -⟩ := backed kind
  have name : got.name = c.attempt.laneName c.lane := admits.1.trans lane.name
  have other : b ≠ c.attempt := by
    intro own
    rw [lane.session, ← own] at admits
    exact admits.2 offers.2.2.1.symm
  rw [name] at offers
  refine ⟨c.attempt, grown.attempts good.member, rfl, good.within busy, b, j,
    offers.extends grown, same, same ▸ usable, ?_⟩
  intro sides
  have earlier := good.latest b offers.1 (sides.trans good.mine)
  refine lt_of_le_of_ne earlier fun equal => ?_
  exact other (inv.numbers b offers.1 _ good.member equal)

/-- The present lane reads a datagram. -/
theorem Inv.reads (inv : m.Inv) (there : m.calls side = some c)
    (busy : c.up = false) {got : Xmsg} (sent : got ∈ m.net)
    (connects : Bool) :
    Inv (Meeting.set
      { m with
        connected := (if (c.lanes c.lane).x.admits got then
          joins c (c.lanes c.lane) ((c.lanes c.lane).exchange c.attempt c.lane
            got connects).1 else []) ++ m.connected }
      side (c.reads got connects).1 (c.reads got connects).2) := by
  have good := inv.calls side c there
  have lane := good.lanes c.lane
  have below := good.within busy
  have backed := inv.net got sent
  by_cases admits : (c.lanes c.lane).x.admits got = true
  · rw [if_pos admits]
    rcases Lane.exchange_cases (c.lanes c.lane) c.attempt c.lane got connects
      with ⟨same, plain⟩ | ⟨same, kind, holds, peer⟩ | ⟨same, kind, free, usable⟩
    · have none : joins c (c.lanes c.lane) ((c.lanes c.lane).exchange c.attempt
          c.lane got connects).1 = [] := by
        rw [same]
        exact if_neg fun both => both.1 both.2
      obtain ⟨keeps, sends⟩ := reads_good good busy (same.symm ▸ lane)
        fun x member kind => absurd kind (plain x member)
      rw [none]
      exact inv.quiet keeps sends
    · have none : joins c (c.lanes c.lane) ((c.lanes c.lane).exchange c.attempt
          c.lane got connects).1 = [] := by
        rw [same]
        exact if_neg fun both => both.1 holds
      have hears := lane.hear backed admits kind holds peer
      obtain ⟨keeps, sends⟩ := reads_good good busy
        (by rw [same]; exact hears) (by rw [same]; simp)
      rw [none]
      exact inv.quiet keeps sends
    · have entry : joins c (c.lanes c.lane) ((c.lanes c.lane).exchange c.attempt
          c.lane got connects).1 =
          [⟨c.attempt.session, c.lane, got.fromSession, got.info⟩] := by
        rw [same]
        simp [joins, free, Lane.hear, Lane.join, Ep.connect, lane.session]
      have unheard : (c.lanes c.lane).heard = false := by
        refine Bool.eq_false_iff.mpr fun hears => ?_
        have holds := (lane.heard hears).1
        rw [free] at holds
        cases holds
      rw [entry]
      let after : Minutes := ⟨m.attempts,
        [⟨c.attempt.session, c.lane, got.fromSession, got.info⟩] ++ m.connected⟩
      have on : m.minutes.Extends after :=
        ⟨fun _ => id, List.subset_append_right _ _⟩
      have joined := lane.join after unheard List.mem_cons_self
      have hears := joined.hear (backed.extends on) admits kind rfl rfl
      obtain ⟨keeps, sends⟩ := reads_good
        (good.extends on fun b member _ => member) busy
        (by rw [same]; exact hears)
        (by
          rw [same]
          intro x member
          rw [List.mem_singleton.mp member]
          exact joined.mine good.member below)
      refine inv.set _ (fun c member => ?_) keeps sends
      rw [List.mem_singleton.mp member]
      exact inv.joins_good there busy backed admits kind usable on
  · rw [if_neg admits]
    refine inv.quiet ?_ ?_
    · intro next same
      simp only [Call.reads, if_neg admits] at same
      rw [← Option.some.inj same]
      exact good
    · simp [Call.reads, admits]

/-- An end starts an attempt in a fresh session. -/
theorem Inv.begins (inv : m.Inv) {a : Attempt}
    (number : a.number = m.attempts.length)
    (fresh : a.session ∉ m.attempts.map Attempt.session) :
    Inv (Meeting.set { m with attempts := a :: m.attempts } a.side
      (some (Call.begin a)) []) := by
  have on : m.minutes.Extends ⟨a :: m.attempts, m.connected⟩ :=
    ⟨List.subset_cons_self _ _, fun _ => id⟩
  have unlike : ∀ b ∈ m.attempts, a.session ≠ b.session := fun b member same =>
    fresh (List.mem_map.mpr ⟨b, member, same.symm⟩)
  have later : ∀ b ∈ m.attempts, b.number < a.number := fun b member =>
    number ▸ inv.counted b member
  refine ⟨?_, fun c member => (inv.connected c member).extends on, ?_, ?_, ?_,
    ?_⟩
  · intro x member
    rw [Meeting.set, List.append_nil] at member
    exact (inv.net x member).extends on
  · intro b member
    rcases List.mem_cons.mp member with new | old
    · rw [new, number]
      exact Nat.lt_succ_self _
    · exact Nat.lt_succ_of_lt (inv.counted b old)
  · intro b first d second same
    rcases List.mem_cons.mp first with new | old
    · rcases List.mem_cons.mp second with new' | old'
      · rw [new, new']
      · have less := later d old'
        rw [new] at same
        omega
    · rcases List.mem_cons.mp second with new' | old'
      · have less := later b old
        rw [new'] at same
        omega
      · exact inv.numbers b old d old' same
  · intro b first d second same
    rcases List.mem_cons.mp first with new | old
    · rcases List.mem_cons.mp second with new' | old'
      · rw [new, new']
      · exact absurd (new ▸ same) (unlike d old')
    · rcases List.mem_cons.mp second with new' | old'
      · exact absurd (new' ▸ same.symm) (unlike b old)
      · exact inv.sessions b old d old' same
  · intro other c there
    simp only [Meeting.set, Function.update_apply] at there
    split at there
    · next same =>
        rw [same, ← Option.some.inj there]
        refine ⟨List.mem_cons_self, rfl, ?_, fun k => Lane.begin_good, ?_,
          Nat.zero_le _, ?_, ?_⟩
        · intro b member _
          rcases List.mem_cons.mp member with new | old
          · exact new ▸ le_rfl
          · exact (later b old).le
        · intro _
          show 0 < a.lanes
          rw [Attempt.lanes]
          split
          · exact Nat.one_pos
          · next bond _ => exact Nat.mul_pos bond.someDevices bond.someQps
        · intro k below
          exact absurd below (Nat.not_lt_zero k)
        · intro up
          cases up
    · next apart =>
        refine (inv.calls other c there).extends on fun b member sides => ?_
        rcases List.mem_cons.mp member with new | old
        · exact absurd (new ▸ sides).symm apart
        · exact old

/-- Every event keeps the record. -/
theorem Inv.step (inv : m.Inv) (event : Meet)
    (taken : m.step event = some next) : next.Inv := by
  cases event with
  | begins a =>
      simp only [Meeting.step, Option.ite_none_right_eq_some,
        Option.isNone_iff_eq_none] at taken
      obtain ⟨⟨-, number, fresh⟩, taken⟩ := taken
      rw [← Option.some.inj taken]
      exact inv.begins number fresh
  | offers side =>
      simp only [Meeting.step, Option.bind_eq_some_iff,
        Option.ite_none_left_eq_some] at taken
      obtain ⟨c, there, busy, taken⟩ := taken
      have good := inv.calls side c there
      rw [← Option.some.inj taken]
      refine inv.quiet (fun _ same => Option.some.inj same ▸ good) ?_
      intro x member
      rw [List.mem_singleton.mp member]
      exact (good.lanes c.lane).mine good.member
        (good.within (Bool.eq_false_iff.mpr busy))
  | reads side index connects =>
      simp only [Meeting.step, Option.bind_eq_some_iff,
        Option.ite_none_left_eq_some, Option.map_eq_some_iff] at taken
      obtain ⟨c, there, busy, got, found, taken⟩ := taken
      rw [← taken]
      exact inv.reads there (Bool.eq_false_iff.mpr busy)
        (List.mem_of_getElem? found) connects
  | fails side =>
      simp only [Meeting.step, Option.bind_eq_some_iff,
        Option.ite_none_left_eq_some] at taken
      obtain ⟨c, -, -, taken⟩ := taken
      rw [← Option.some.inj taken]
      exact inv.release c
  | serves side lane index =>
      simp only [Meeting.step, Option.bind_eq_some_iff,
        Option.ite_none_right_eq_some, Option.map_eq_some_iff] at taken
      obtain ⟨c, there, ⟨below, -⟩, got, -, taken⟩ := taken
      have good := inv.calls side c there
      have mine := (good.lanes lane).mine good.member
        (below.trans_le good.bounded)
      rw [← taken]
      refine inv.quiet ?_ ?_
      · intro served same
        rw [← Option.some.inj same, Call.serves]
        split
        · exact ⟨good.member, good.mine, good.latest, good.lanes, good.within,
            good.bounded, good.past, good.one⟩
        · exact good
      · intro x member
        simp only [Call.serves] at member
        split at member
        · unfold Lane.service at member
          split at member
          · simp at member
          · split at member
            · simp at member
            · split at member
              · rw [List.mem_singleton.mp member]
                exact mine
              · split at member
                · simp at member
                · simp at member
        · simp at member
  | tells side lane text =>
      simp only [Meeting.step, Option.bind_eq_some_iff,
        Option.ite_none_right_eq_some] at taken
      obtain ⟨c, there, -, taken⟩ := taken
      have good := inv.calls side c there
      rw [← Option.some.inj taken]
      refine inv.quiet ?_ ?_
      · intro told same
        rw [← Option.some.inj same]
        exact ⟨good.member, good.mine, good.latest, good.lanes, good.within,
          good.bounded, good.past, good.one⟩
      · intro x member kind
        rw [List.mem_singleton.mp member] at kind
        cases kind
  | leaves side =>
      simp only [Meeting.step, Option.bind_eq_some_iff,
        Option.ite_none_right_eq_some] at taken
      obtain ⟨c, -, -, taken⟩ := taken
      rw [← Option.some.inj taken]
      exact inv.release c

/-- Every state of two ends keeps the record. -/
theorem Inv.reach (reached : machine.Reach m) : m.Inv := by
  refine reached.invariant _ ?_ fun before next event inv taken =>
    inv.step event taken
  constructor
  · intro sent member
    cases member
  · intro c member
    cases member
  · intro a member
    cases member
  · intro a member
    cases member
  · intro a member
    cases member
  · intro side c there
    cases there

/-! ## Agreement -/

/-- A lane of an end and a lane of the other are connected to each other: the
session the lane holds is that of an attempt of the other end, whose lane has
connected to what this lane offers in its own session, while this lane's queue
pair is connected to what that lane offers, and kind, width, lane and mode are
one. -/
structure Joined (m : Meeting) (c : Call) (k : Nat) (b : Attempt) : Prop where
  made : b ∈ m.attempts
  other : b.side = !c.attempt.side
  session : b.session = (c.lanes k).x.peerSession
  theirs : ⟨b.session, k, c.attempt.session, c.attempt.info k⟩ ∈ m.connected
  offered : (c.lanes k).mine.info = c.attempt.info k
  ours : (c.lanes k).e.remote = some (b.info k)
  kind : b.kind k = c.attempt.kind k
  width : b.width = c.attempt.width
  lane : k < b.lanes
  mode : b.mode = c.attempt.mode

/-- What a lane accepts has its kind, configuration and mode. -/
theorem accepts {a b : Attempt} {k j : Nat} (below : k < a.lanes)
    (below' : j < b.lanes) (usable : Lane.refuse a k (b.info j) = none) :
    b.kind j = a.kind k ∧ b.width = a.width ∧ j = k ∧ b.mode = a.mode := by
  unfold Lane.refuse at usable
  split at usable
  · cases usable
  · next kinds =>
      split at usable
      · cases usable
      · next configured =>
          simp only [not_or, not_and, not_not] at kinds configured
          exact ⟨kinds, Attempt.rep_agree below below' configured.1
            configured.2⟩

/-- A lane whose exchange has returned is joined to a lane of the other end, and
the lanes of a link that is up hold one session. -/
theorem exchange_agrees (reached : machine.Reach m)
    (there : m.calls side = some c) :
    (∀ k < c.lane, ∃ b, m.Joined c k b) ∧
      (c.up = true → ∀ i < c.attempt.lanes, ∀ k < c.attempt.lanes,
        (c.lanes i).x.peerSession = (c.lanes k).x.peerSession) := by
  have inv := Inv.reach reached
  have good := inv.calls side c there
  constructor
  · intro k past
    have below : k < c.attempt.lanes := past.trans_le good.bounded
    obtain ⟨holds, hears⟩ := good.past k past
    obtain ⟨-, info, remote, own⟩ := (good.lanes k).held holds
    obtain ⟨-, b, j, info', offers, theirs⟩ := (good.lanes k).heard hears
    -- what this lane has connected to is what that lane offered
    obtain ⟨a, member, session, -, b', j', offers', same, usable, order⟩ :=
      inv.connected _ own
    have mine := inv.sessions a member _ good.member session
    subst mine
    have peer := inv.sessions b' offers'.1 b offers.1
      (offers'.2.2.1.trans offers.2.2.1.symm)
    subst peer
    have lanes := b'.laneName_inj offers'.2.1 offers.2.1
      (offers'.2.2.2.trans offers.2.2.2.symm)
    subst lanes
    obtain ⟨kind, width, lane, mode⟩ := accepts below offers'.2.1 usable
    subst lane
    -- and what that lane has connected to is what this one offers
    obtain ⟨b, member', session', -, a, i, offersBack, same', -, order'⟩ :=
      inv.connected _ theirs
    have peer := inv.sessions b member' b' offers'.1
      (session'.trans offers'.2.2.1.symm)
    subst peer
    have mine := inv.sessions a offersBack.1 _ good.member offersBack.2.2.1
    subst mine
    have lanes := c.attempt.laneName_inj offersBack.2.1 below
      (offersBack.2.2.2.trans offers'.2.2.2)
    subst lanes
    have other : b.side ≠ c.attempt.side := by
      intro sides
      have before := order sides
      have behind := order' sides.symm
      omega
    refine ⟨b, offers'.1, Bool.eq_not.mpr other, offers'.2.2.1, ?_,
      (good.lanes i).info, ?_, kind, width, offers'.2.1, mode⟩
    · have info_eq : info' = c.attempt.info i := same'
      rw [offers'.2.2.1, ← info_eq]
      exact theirs
    · have info_eq : info = b.info i := same
      rw [remote, info_eq]
  · intro up i first k second
    rw [← good.one up i first, ← good.one up k second]

/-- An attempt over two Thunderbolt devices. -/
def twoLanes (side : Bool) (number : Nat) : Attempt where
  side := side
  number := number
  session := fun _ => UInt8.ofNat (number + 1)
  name := [97]
  valid := by decide
  bond := some ⟨2, 1, by decide, by decide, by decide, by decide⟩
  kind := fun _ => linkTb
  made := fun k =>
    { qpn := UInt32.ofNat (2 * number + k)
      table := { length := 4096, seg := 4096 } }
  length := 4096

/-- Both ends begin, and the datagrams of each lane arrive in turn. -/
def bothConnect : List Meet :=
  [.begins (twoLanes true 0), .begins (twoLanes false 1),
    .offers true, .offers false, .reads true 1 true, .reads false 2 true,
    .reads true 3 true, .offers true, .reads false 4 true, .reads true 5 true]

theorem bothConnect_runs :
    (machine.run machine.start bothConnect).any (fun m =>
      (m.calls true).any fun c => c.up && decide (c.lane = 2)) = true := by
  decide +kernel

/-- Both lanes of the first end are joined to lanes of the second. -/
theorem exchange_agrees_bond :
    ∃ m c, machine.Reach m ∧ m.calls true = some c ∧ c.up = true ∧
      ∀ k < 2, ∃ b, m.Joined c k b := by
  obtain ⟨m, reached, found⟩ := Machine.Reach.ofTest bothConnect_runs
  obtain ⟨c, there, done⟩ := (Option.any_eq_true _ _).mp found
  simp only [Bool.and_eq_true, decide_eq_true_eq] at done
  refine ⟨m, c, reached, there, done.1, fun k below => ?_⟩
  exact (exchange_agrees reached there).1 k (done.2 ▸ below)

end

end Meeting
end Setup
end Mcdma
