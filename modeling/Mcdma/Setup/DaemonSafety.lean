import Mcdma.Setup.Daemon

/-!
# What the datagrams of a link vouch for

Every offer of the listen end is the offer of the session it names, and every
confirmation names a session of the connect end and the session that one has
connected to.  The listen end arms on a confirmation of the session it holds;
where that confirmation is addressed to the session the listen end has now, both
ends hold each other's queue pairs.
-/

namespace Mcdma
namespace Setup

/-- The histories that datagrams refer to: the name of the link, the offers of
the listen end's sessions, and the connections of the connect end's. -/
structure Record where
  name : Fin xName → UInt8
  offers : List (Session × Xinfo)
  joined : List (Session × Session × Xinfo)

namespace Record

/-- A history goes on. -/
structure Extends (before after : Record) : Prop where
  name : after.name = before.name
  offers : before.offers ⊆ after.offers
  joined : before.joined ⊆ after.joined

end Record

/-- The datagram is of this link, and the history bears out what it says. -/
structure Xmsg.Vouched (record : Record) (m : Xmsg) : Prop where
  name : m.name = record.name
  offered : m.role = .listen → m.kind = .offer →
    (m.fromSession, m.info) ∈ record.offers
  confirmed : m.role = .connect → m.kind = .offer → m.have_ = true →
    ∃ info, (m.fromSession, m.toSession, info) ∈ record.joined

theorem Xmsg.Vouched.extends {before after : Record} {m : Xmsg}
    (vouched : m.Vouched before) (grown : before.Extends after) :
    m.Vouched after where
  name := vouched.name.trans grown.name.symm
  offered := fun role kind => grown.offers (vouched.offered role kind)
  confirmed := by
    intro role kind flag
    obtain ⟨info, member⟩ := vouched.confirmed role kind flag
    exact ⟨info, grown.joined member⟩

/-- A datagram that is no offer vouches for nothing. -/
theorem Xmsg.Vouched.of_answer {record : Record} {x : Xchg}
    (name : x.name = record.name) {session : Session} {kind : Kind} {role : Role}
    {text : String} (plain : kind ≠ .offer) :
    (x.answer session kind role text).Vouched record where
  name := name
  offered := fun _ offer => absurd offer plain
  confirmed := fun _ offer => absurd offer plain

/-! ## The connect end -/

namespace Connect

/-- What the connect end will send is borne out. -/
structure Good (record : Record) (p : Connect) : Prop where
  name : p.x.name = record.name
  waiting : p.phase = .waiting → p.offer.Vouched record
  up : p.phase = .up → p.confirm.Vouched record

theorem Good.extends {before after : Record} {p : Connect}
    (good : p.Good before) (grown : before.Extends after) :
    p.Good after where
  name := good.name.trans grown.name.symm
  waiting := fun phase => (good.waiting phase).extends grown
  up := fun phase => (good.up phase).extends grown

/-- The record after a move of the connect end. -/
def recorded (record : Record) (p : Connect) (moved : Connect) : Record :=
  { record with joined := Link.joins p moved ++ record.joined }

/-- A move of the connect end keeps to the record. -/
structure Sound (record : Record) (p : Connect) (moved : Connect × List Xmsg) :
    Prop where
  good : moved.1.Good (recorded record p moved.1)
  sent : ∀ m ∈ moved.2, m.Vouched (recorded record p moved.1)
  joins : ∀ entry ∈ Link.joins p moved.1, entry.2 ∈ record.offers

section

variable {record : Record} {p : Connect}

theorem recorded_extends (moved : Connect) :
    record.Extends (recorded record p moved) :=
  ⟨rfl, fun _ => id, List.subset_append_right _ _⟩

/-- A move that joins nothing is sound when what it sends is. -/
theorem Sound.of_joins_nil {moved : Connect × List Xmsg}
    (none : Link.joins p moved.1 = []) (good : moved.1.Good record)
    (sent : ∀ m ∈ moved.2, m.Vouched record) : Sound record p moved where
  good := good.extends (recorded_extends _)
  sent := fun m member => (sent m member).extends (recorded_extends _)
  joins := by simp [none]

/-- The connect end stays as it is. -/
theorem Good.stays (good : p.Good record) {sent : List Xmsg}
    (vouched : ∀ m ∈ sent, m.Vouched record) : Sound record p (p, sent) := by
  refine Sound.of_joins_nil ?_ good vouched
  have still : ¬(p.phase = .waiting ∧ p.phase = .up) := by
    rintro ⟨waiting, up⟩
    rw [waiting] at up
    cases up
  exact if_neg still

theorem peerDown_joins (q : Connect) : Link.joins q p.peerDown.1 = [] := by
  simp [Link.joins, peerDown]

theorem peerDown_good (name : p.x.name = record.name) :
    p.peerDown.1.Good record where
  name := name
  waiting := fun phase => by simp [peerDown] at phase
  up := fun phase => by simp [peerDown] at phase

theorem peerDown_sent (name : p.x.name = record.name) :
    ∀ m ∈ p.peerDown.2, m.Vouched record := by
  intro m member
  simp only [peerDown] at member
  split at member
  · rw [List.mem_singleton.mp member]
    exact .of_answer name (by simp)
  · simp at member

theorem peerDown_sound (name : p.x.name = record.name) (q : Connect) :
    Sound record q p.peerDown :=
  .of_joins_nil (peerDown_joins q) (peerDown_good name) (peerDown_sent name)

theorem peerConnect_sound (good : p.Good record) (session : Session)
    (made : Option Xinfo) : Sound record p (p.peerConnect session made) := by
  cases made with
  | none => exact peerDown_sound good.name p
  | some made =>
      refine .of_joins_nil (by simp [Link.joins, peerConnect]) ?_
        (by simp [peerConnect])
      refine ⟨good.name, ?_, fun phase => by simp [peerConnect] at phase⟩
      intro _
      refine ⟨good.name, fun role => ?_, fun _ _ flag => ?_⟩
      · simp [peerConnect, boxOffer, Xchg.prepare] at role
      · simp [peerConnect, boxOffer, Xchg.prepare, Xmsg.have_] at flag

/-- An answer of the listen end is joined, or the attempt is over. -/
theorem peerAnswered_sound (good : p.Good record)
    (waiting : p.phase = .waiting) {got : Xmsg} (vouched : got.Vouched record)
    (role : got.role = .listen) (kind : got.kind = .offer) (connects : Bool) :
    Sound record p (p.peerAnswered got connects) := by
  cases connects with
  | false =>
      let heard : Connect := { p with x := p.x.hold got.fromSession }
      have named : heard.x.name = record.name := good.name
      exact peerDown_sound named p
  | true =>
      have joins : Link.joins p (p.peerAnswered got true).1 =
          [(p.x.session, got.fromSession, got.info)] := by
        simp [Link.joins, peerAnswered, waiting, Ep.connect]
      have confirms : (p.peerAnswered got true).1.confirm.Vouched
          (recorded record p (p.peerAnswered got true).1) := by
        refine ⟨good.name, fun listens => ?_, fun _ _ _ => ⟨got.info, ?_⟩⟩
        · simp [peerAnswered, boxOffer, Xchg.prepare] at listens
        · rw [recorded, joins]
          exact List.mem_cons_self
      refine ⟨⟨good.name, fun phase => ?_, fun _ => confirms⟩, ?_, ?_⟩
      · simp [peerAnswered] at phase
      · intro m member
        rw [List.mem_singleton.mp member]
        exact confirms
      · intro entry member
        rw [joins] at member
        rw [List.mem_singleton.mp member]
        exact vouched.offered role kind

theorem peerWaits_sound (good : p.Good record) (waiting : p.phase = .waiting)
    {got : Xmsg} (vouched : got.Vouched record) (connects : Bool) :
    Sound record p (p.peerWaits got connects) := by
  unfold peerWaits
  split
  · exact good.stays (by simp)
  · next listens =>
      split
      · exact peerDown_sound good.name p
      · split
        · exact good.stays (by simp)
        · next offers =>
            simp only [not_or, not_not] at listens offers
            split
            · refine .of_joins_nil (peerDown_joins p)
                (peerDown_good good.name) ?_
              intro m member
              rcases List.mem_cons.mp member with refusal | goodbye
              · rw [refusal]
                exact .of_answer good.name (by simp)
              · exact peerDown_sent good.name m goodbye
            · exact peerAnswered_sound good waiting vouched listens.1 offers.1
                connects

theorem connectService_sound (good : p.Good record) (up : p.phase = .up)
    (m : Xmsg) : Sound record p (p.connectService m) := by
  unfold connectService
  split
  · exact good.stays (by simp)
  · split
    · exact peerDown_sound good.name p
    · split
      · exact good.stays (by simp)
      · split
        · refine good.stays fun sent member => ?_
          rw [List.mem_singleton.mp member]
          exact good.up up
        · exact good.stays (by simp)

theorem receive_sound (good : p.Good record) {m : Xmsg}
    (vouched : m.Vouched record) (connects : Bool) :
    Sound record p (p.receive m connects) := by
  unfold receive
  split
  · split
    · exact good.stays (by simp)
    · next waiting => exact peerWaits_sound good waiting vouched connects
    · next up => exact connectService_sound good up m
  · exact good.stays (by simp)

end

end Connect

/-! ## The listen end -/

namespace Listen

/-- A session of the listen end has its offer on record, and the offer is that
of the queue pair the end holds. -/
structure Good (record : Record) (s : Listen) : Prop where
  name : s.x.name = record.name
  vouched : s.hello = true → s.answer.Vouched record
  offer : s.hello = true → (s.x.session, s.answer.info) ∈ record.offers
  holds : s.hello = true → ∃ made, s.e.qp = some made ∧ s.answer.info =
    { made with
      mode := s.answer.info.mode
      req := s.b.req
      rep := s.b.rep }
  hello : s.armed = true → s.hello = true

theorem Good.extends {before after : Record} {s : Listen}
    (good : s.Good before) (grown : before.Extends after) :
    s.Good after where
  name := good.name.trans grown.name.symm
  vouched := fun hello => (good.vouched hello).extends grown
  offer := fun hello => grown.offers (good.offer hello)
  holds := good.holds
  hello := good.hello

/-- The record after a move of the listen end. -/
def recorded (record : Record) (s : Listen) (moved : Listen) : Record :=
  { record with offers := Link.begins s moved ++ record.offers }

/-- A move of the listen end keeps to the record. -/
structure Sound (record : Record) (s : Listen) (moved : Listen × List Xmsg) :
    Prop where
  good : moved.1.Good (recorded record s moved.1)
  sent : ∀ m ∈ moved.2, m.Vouched (recorded record s moved.1)

section

variable {record : Record} {s : Listen}

theorem recorded_extends (moved : Listen) :
    record.Extends (recorded record s moved) :=
  ⟨rfl, List.subset_append_right _ _, fun _ => id⟩

theorem Sound.of_good {moved : Listen × List Xmsg} (good : moved.1.Good record)
    (sent : ∀ m ∈ moved.2, m.Vouched record) : Sound record s moved where
  good := good.extends (recorded_extends _)
  sent := fun m member => (sent m member).extends (recorded_extends _)

theorem drop_good (name : s.x.name = record.name) : s.drop.1.Good record where
  name := name
  vouched := fun hello => by simp [drop] at hello
  offer := fun hello => by simp [drop] at hello
  holds := fun hello => by simp [drop] at hello
  hello := fun armed => by simp [drop] at armed

theorem drop_sent (name : s.x.name = record.name) :
    ∀ m ∈ s.drop.2, m.Vouched record := by
  intro m member
  simp only [drop] at member
  split at member
  · rw [List.mem_singleton.mp member]
    exact .of_answer name (by simp)
  · simp at member

/-- A session that begins puts its offer on record. -/
theorem begin_sound (good : s.Good record) (unarmed : ¬ s.armed = true)
    {m : Xmsg} {session : Session} {made : Xinfo}
    (fresh : session ≠ s.x.session) :
    Sound record s (s.begin m session made) := by
  have begun : Link.begins s (s.begin m session made).1 =
      [(session, (s.begin m session made).1.answer.info)] := by
    simp [Link.begins, begin, fresh]
  have entered : (session, (s.begin m session made).1.answer.info) ∈
      (recorded record s (s.begin m session made).1).offers := by
    rw [recorded, begun]
    exact List.mem_cons_self
  have vouched : (s.begin m session made).1.answer.Vouched
      (recorded record s (s.begin m session made).1) :=
    ⟨good.name, fun _ _ => entered,
      fun role => by simp [begin, boxOffer, Xchg.prepare] at role⟩
  refine ⟨⟨good.name, fun _ => vouched, fun _ => entered,
    fun _ => ⟨_, rfl, rfl⟩, fun armed => absurd armed unarmed⟩, ?_⟩
  intro sent member
  rw [List.mem_singleton.mp member]
  exact vouched

/-- An end without a session answers an offer with a refusal or begins one. -/
theorem offer_sound (good : s.Good record) (free : s.hello = false)
    {m : Xmsg} {draw : Draw} (fresh : draw.session ≠ s.x.session) :
    Sound record s (s.offer m draw) := by
  have unarmed : ¬ s.armed = true := fun armed => by
    have hello := good.hello armed
    rw [free] at hello
    cases hello
  have idle (e : Ep) : Good record { s with e := e } := by
    refine ⟨good.name, fun hello => ?_, fun hello => ?_, fun hello => ?_,
      good.hello⟩
    all_goals
      rw [free] at hello
      cases hello
  have refusal (why : String) :
      ∀ sent ∈ [s.x.answer m.fromSession .err .listen why],
        sent.Vouched record := by
    intro sent member
    rw [List.mem_singleton.mp member]
    exact .of_answer good.name (by simp)
  unfold offer
  split
  · exact .of_good (idle s.e) (refusal _)
  · split
    · exact .of_good (idle s.e) (refusal _)
    · split
      · exact begin_sound good unarmed fresh
      · exact .of_good (idle _) (refusal _)

/-- The session that a move begins is on record whatever was dropped first. -/
theorem Sound.of_dropped {moved : Listen × List Xmsg} {before : List Xmsg}
    (sound : Sound record s.drop.1 moved)
    (sent : ∀ m ∈ before, m.Vouched record) :
    Sound record s (moved.1, before ++ moved.2) where
  good := sound.good
  sent := by
    intro m member
    rcases List.mem_append.mp member with early | late
    · exact (sent m early).extends (recorded_extends _)
    · exact sound.sent m late

theorem listenOffer_sound (good : s.Good record) {m : Xmsg} {draw : Draw}
    (fresh : draw.session ≠ s.x.session) :
    Sound record s (s.listenOffer m draw) := by
  unfold listenOffer
  split
  · have dropped : Sound record s.drop.1 (s.drop.1.offer m draw) :=
      offer_sound (drop_good good.name) rfl fresh
    exact dropped.of_dropped (drop_sent good.name)
  · next free => exact offer_sound good (Bool.eq_false_iff.mpr free) fresh

theorem listenDatagram_sound (good : s.Good record) {m : Xmsg} {draw : Draw}
    (fresh : draw.session ≠ s.x.session) :
    Sound record s (s.listenDatagram m draw) := by
  have silent : Sound record s (s, []) := .of_good good (by simp)
  have answers (session : Session) (kind : Kind) (plain : kind ≠ .offer) :
      Sound record s (s, [s.x.answer session kind .listen ""]) := by
    refine .of_good good fun sent member => ?_
    rw [List.mem_singleton.mp member]
    exact .of_answer good.name plain
  unfold listenDatagram
  split
  · exact silent
  · split
    · exact listenOffer_sound good fresh
    · split
      · split
        · exact answers _ _ (by simp)
        · exact silent
      · next current =>
          have hello : s.hello = true := by
            simp only [Listen.current, Bool.and_eq_true, not_not] at current
            exact current.1
          split
          · split
            · exact .of_good ⟨good.name, good.vouched, good.offer, good.holds,
                fun _ => hello⟩ (by simp)
            · split
              · exact silent
              · refine .of_good good fun sent member => ?_
                rw [List.mem_singleton.mp member]
                exact good.vouched hello
          · exact answers _ _ (by simp)
          · exact .of_good (drop_good good.name) (drop_sent good.name)
          · exact .of_good (drop_good good.name) (drop_sent good.name)
          · exact silent

theorem receive_sound (good : s.Good record) {m : Xmsg} {draw : Draw}
    (fresh : draw.session ≠ s.x.session) :
    Sound record s (s.receive m draw) := by
  have sound := listenDatagram_sound (m := m) good fresh
  unfold receive
  split
  · extract_lets moved
    split
    · refine ⟨?_, sound.sent⟩
      exact ⟨sound.good.name, sound.good.vouched, sound.good.offer,
        sound.good.holds, sound.good.hello⟩
    · exact sound
  · exact .of_good good (by simp)

theorem reply_sound (good : s.Good record) (fails : Bool) :
    Sound record s (s.reply fails) := by
  unfold reply
  extract_lets taken
  have named : taken.x.name = record.name := good.name
  split
  · exact .of_good (drop_good named) (drop_sent named)
  · exact .of_good ⟨good.name, good.vouched, good.offer, good.holds,
      good.hello⟩ (by simp)

/-- Attaching a service touches nothing of the session. -/
theorem attach_good (good : s.Good record) : s.attach.Good record := by
  unfold attach
  split
  · exact good
  · exact ⟨good.name, good.vouched, good.offer, good.holds, good.hello⟩

end

end Listen

end Setup
end Mcdma
