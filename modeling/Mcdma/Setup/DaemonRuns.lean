import Mcdma.Setup.DaemonSafety

/-!
# Runs of the two daemons

Whatever the network does, the listen end arms only for a session of the connect
end that has connected to the queue pair it holds, as long as the confirmation
it arms on is addressed to its present session, which it does not check.  And a
datagram of an earlier session leaves a live link alone unless it is a plain
offer at the listen end, or a goodbye or refusal at the connect end.
-/

namespace Mcdma
namespace Setup

namespace Listen

variable {s : Listen} {m : Xmsg} {draw : Draw}

/-- The listen end arms on this datagram. -/
def Confirms (s : Listen) (m : Xmsg) : Prop :=
  s.x.admits m = true ∧ m.role = .connect ∧ m.kind = .offer ∧
    m.have_ = true ∧ s.current m = true ∧ s.armed = false

instance (s : Listen) (m : Xmsg) : Decidable (s.Confirms m) :=
  inferInstanceAs (Decidable (_ ∧ _ ∧ _ ∧ _ ∧ _ ∧ _))

/-- The session, the queue pair, the attached service and the words of the
mailbox are as they were. -/
structure Kept (before after : Listen) : Prop where
  x : after.x = before.x
  armed : after.armed = before.armed
  e : after.e = before.e
  svc : after.svc = before.svc
  reqWord : after.reqWord = before.reqWord
  stagedWord : after.stagedWord = before.stagedWord

/-- A datagram that asks for a new session. -/
theorem listenDatagram_asks (asks : s.asks m = true) :
    s.listenDatagram m draw = s.listenOffer m draw := by
  simp only [Listen.asks, decide_eq_true_eq] at asks
  rw [listenDatagram, if_neg (by simp [asks.1]), if_pos asks.2]

/-- Any other datagram changes nothing, arms the end, or ends the session it is
of. -/
theorem listenDatagram_cases (draw : Draw) (quiet : s.asks m = false) :
    (s.listenDatagram m draw).1 = s ∨
    (m.role = .connect ∧ m.kind = .offer ∧ m.have_ = true ∧
      s.current m = true ∧ s.armed = false ∧
      (s.listenDatagram m draw).1 = { s with armed := true }) ∨
    (s.current m = true ∧ (s.listenDatagram m draw).1 = s.drop.1) := by
  simp only [Listen.asks, decide_eq_false_iff_not] at quiet
  by_cases role : m.role = .connect
  · have settled : ¬ (m.kind = .offer ∧ ¬s.current m ∧ ¬m.have_) :=
      fun offers => quiet ⟨role, offers⟩
    rw [listenDatagram, if_neg (by simp [role]), if_neg settled]
    by_cases current : s.current m = true
    · rw [if_neg (not_not.mpr current)]
      cases kind : m.kind with
      | offer =>
          dsimp only
          split
          · next confirms =>
              exact .inr (.inl ⟨role, rfl, confirms.1, current,
                Bool.eq_false_iff.mpr confirms.2, rfl⟩)
          · exact .inl rfl
      | ping => exact .inl rfl
      | pong => exact .inl rfl
      | bye => exact .inr (.inr ⟨current, rfl⟩)
      | err => exact .inr (.inr ⟨current, rfl⟩)
    · rw [if_pos current]
      exact .inl rfl
  · rw [listenDatagram, if_pos role]
    exact .inl rfl

theorem offer_session : (s.offer m draw).1.x.session = s.x.session ∨
    (s.offer m draw).1.x.session = draw.session := by
  unfold offer
  split
  · exact .inl rfl
  · split
    · exact .inl rfl
    · split
      · exact .inr rfl
      · exact .inl rfl

theorem offer_armed : (s.offer m draw).1.armed = s.armed := by
  unfold offer
  split
  · rfl
  · split
    · rfl
    · split
      · rfl
      · rfl

/-- An offer that asks for a new session leaves the end unarmed. -/
theorem listenOffer_armed (good : s.armed = true → s.hello = true) :
    (s.listenOffer m draw).1.armed = false := by
  unfold listenOffer
  split
  · exact offer_armed
  · next free =>
      rw [offer_armed]
      exact Bool.eq_false_iff.mpr fun armed => free (good armed)

theorem listenOffer_session :
    (s.listenOffer m draw).1.x.session = s.x.session ∨
      (s.listenOffer m draw).1.x.session = draw.session := by
  unfold listenOffer
  split
  · exact offer_session
  · exact offer_session

/-- An admitted datagram that asks for a new session. -/
theorem receive_asks (admits : s.x.admits m = true) (asks : s.asks m = true) :
    (s.receive m draw).1 = (s.listenOffer m draw).1.forget := by
  rw [receive, if_pos admits]
  dsimp only
  rw [if_pos asks, listenDatagram_asks asks]

/-- What a datagram does to the listen end. -/
theorem receive_cases (s : Listen) (m : Xmsg) (draw : Draw) :
    (s.receive m draw).1 = s ∨
    (s.asks m = true ∧
      (s.receive m draw).1 = (s.listenOffer m draw).1.forget) ∨
    (s.Confirms m ∧ (s.receive m draw).1 = { s with armed := true }) ∨
    (s.current m = true ∧ (s.receive m draw).1 = s.drop.1) := by
  unfold receive
  split
  · next admits =>
      split
      · next asks =>
          rw [listenDatagram_asks asks]
          exact .inr (.inl ⟨asks, rfl⟩)
      · next quiet =>
          have same :=
            listenDatagram_cases draw (Bool.eq_false_iff.mpr quiet)
          rcases same with kept | ⟨role, kind, flag, current, free, armed⟩ | drops
          · exact .inl kept
          · exact .inr (.inr (.inl
              ⟨⟨admits, role, kind, flag, current, free⟩, armed⟩))
          · exact .inr (.inr (.inr drops))
  · exact .inl rfl

theorem receive_session : (s.receive m draw).1.x.session = s.x.session ∨
    (s.receive m draw).1.x.session = draw.session := by
  rcases receive_cases s m draw with
    same | ⟨-, same⟩ | ⟨-, same⟩ | ⟨-, same⟩
  · exact .inl (by rw [same])
  · rw [same]
    exact listenOffer_session
  · exact .inl (by rw [same])
  · exact .inl (by rw [same]; rfl)

/-- An end that is armed after a datagram was armed before it, or has armed on
it, and nothing else of its session is new. -/
theorem receive_armed (draw : Draw) (hello : s.armed = true → s.hello = true)
    (armed : (s.receive m draw).1.armed = true) :
    (s.armed = true ∨ s.Confirms m) ∧ (s.receive m draw).1.x = s.x ∧
      (s.receive m draw).1.answer = s.answer := by
  rcases receive_cases s m draw with
    same | ⟨-, same⟩ | ⟨confirms, same⟩ | ⟨-, same⟩
  · rw [same] at armed ⊢
    exact ⟨.inl armed, rfl, rfl⟩
  · rw [same] at armed
    have fresh : (s.listenOffer m draw).1.forget.armed = false :=
      listenOffer_armed hello
    rw [fresh] at armed
    cases armed
  · rw [same]
    exact ⟨.inr confirms, rfl, rfl⟩
  · rw [same] at armed
    cases armed

end Listen

namespace Link

/-- The histories of a link of this name. -/
def record (link : Link) (name : Fin xName → UInt8) : Record :=
  ⟨name, link.offers, link.joined⟩

/-- Both ends and every datagram keep to the record, every connection is to an
offer, and no session offers twice. -/
structure Inv (name : Fin xName → UInt8) (link : Link) : Prop where
  connect : link.connect.Good (link.record name)
  listen : link.listen.Good (link.record name)
  net : ∀ m ∈ link.net, m.Vouched (link.record name)
  joins : ∀ entry ∈ link.joined, entry.2 ∈ link.offers
  drawn : ∀ offer ∈ link.offers, offer.1 ∈ link.drawn
  once : ∀ first ∈ link.offers, ∀ second ∈ link.offers,
    first.1 = second.1 → first = second
  session : link.listen.x.session ∈ link.drawn

variable {name : Fin xName → UInt8} {link next : Link}

/-- A sound move of the connect end. -/
theorem Inv.withConnect (inv : link.Inv name) {moved : Connect × List Xmsg}
    {drawn : List Session} (grown : link.drawn ⊆ drawn)
    (sound : Connect.Sound (link.record name) link.connect moved) :
    Inv name (Link.withConnect { link with drawn := drawn } moved) := by
  have on : (link.record name).Extends
      (Connect.recorded (link.record name) link.connect moved.1) :=
    Connect.recorded_extends _
  refine ⟨sound.good, inv.listen.extends on, ?_, ?_,
    fun offer member => grown (inv.drawn offer member), inv.once,
    grown inv.session⟩
  · intro m member
    rcases List.mem_append.mp member with old | sent
    · exact (inv.net m old).extends on
    · exact sound.sent m sent
  · intro entry member
    rcases List.mem_append.mp member with joined | old
    · exact sound.joins entry joined
    · exact inv.joins entry old

/-- What a session that has just begun puts on record. -/
theorem mem_begins {before after : Listen} {offer : Session × Xinfo}
    (member : offer ∈ begins before after) :
    after.x.session ≠ before.x.session ∧
      offer = (after.x.session, after.answer.info) := by
  unfold begins at member
  split at member
  · next begun => exact ⟨begun.2, List.mem_singleton.mp member⟩
  · simp at member

/-- A sound move of the listen end, in its session or in a fresh one. -/
theorem Inv.withListen (inv : link.Inv name) {moved : Listen × List Xmsg}
    {drawn : List Session} (grown : link.drawn ⊆ drawn)
    (sound : Listen.Sound (link.record name) link.listen moved)
    (session : moved.1.x.session = link.listen.x.session ∨
      moved.1.x.session ∉ link.drawn ∧ moved.1.x.session ∈ drawn) :
    Inv name (Link.withListen { link with drawn := drawn } moved) := by
  have on : (link.record name).Extends
      (Listen.recorded (link.record name) link.listen moved.1) :=
    Listen.recorded_extends _
  have begun : ∀ offer ∈ begins link.listen moved.1,
      offer.1 ∉ link.drawn ∧ offer.1 ∈ drawn := by
    intro offer member
    obtain ⟨other, same⟩ := mem_begins member
    rw [same]
    exact session.resolve_left other
  refine ⟨inv.connect.extends on, sound.good, ?_, ?_, ?_, ?_, ?_⟩
  · intro m member
    rcases List.mem_append.mp member with old | sent
    · exact (inv.net m old).extends on
    · exact sound.sent m sent
  · intro entry member
    exact List.mem_append_right _ (inv.joins entry member)
  · intro offer member
    rcases List.mem_append.mp member with new | old
    · exact (begun offer new).2
    · exact grown (inv.drawn offer old)
  · intro first firstIn second secondIn same
    rcases List.mem_append.mp firstIn with new | old
    · rcases List.mem_append.mp secondIn with new' | old'
      · rw [(mem_begins new).2, (mem_begins new').2]
      · have stale := inv.drawn second old'
        exact absurd (same ▸ stale) (begun first new).1
    · rcases List.mem_append.mp secondIn with new' | old'
      · have stale := inv.drawn first old
        exact absurd (same ▸ stale) (begun second new').1
      · exact inv.once first old second old' same
  · rcases session with same | ⟨-, fresh⟩
    · exact grown (same ▸ inv.session)
    · exact fresh

/-- The listen end as a move of its own leaves it, without a new session. -/
theorem Inv.listenStays (inv : link.Inv name) {moved : Listen × List Xmsg}
    (sound : Listen.Sound (link.record name) link.listen moved)
    (session : moved.1.x.session = link.listen.x.session) :
    Inv name (link.withListen moved) :=
  inv.withListen (fun _ => id) sound (.inl session)

theorem Inv.drop (inv : link.Inv name) :
    Inv name (link.withListen link.listen.drop) :=
  inv.listenStays (.of_good (Listen.drop_good inv.listen.name)
    (Listen.drop_sent inv.listen.name)) rfl

/-- Every event keeps to the record. -/
theorem Inv.step (inv : link.Inv name) (event : Event)
    (taken : link.step event = some next) : next.Inv name := by
  have still : link.drawn ⊆ link.drawn := fun _ => id
  cases event with
  | attempt session made =>
      simp only [Link.step, Option.ite_none_right_eq_some] at taken
      obtain ⟨-, taken⟩ := taken
      rw [← Option.some.inj taken]
      exact inv.withConnect (List.subset_cons_self _ _)
        (Connect.peerConnect_sound inv.connect session made)
  | offers =>
      simp only [Link.step, Option.ite_none_right_eq_some] at taken
      obtain ⟨waiting, taken⟩ := taken
      rw [← Option.some.inj taken]
      refine inv.withConnect still (inv.connect.stays fun m member => ?_)
      rw [List.mem_singleton.mp member]
      exact inv.connect.waiting waiting
  | toConnect index connects =>
      simp only [Link.step, Option.map_eq_some_iff] at taken
      obtain ⟨m, found, taken⟩ := taken
      rw [← taken]
      exact inv.withConnect still (Connect.receive_sound inv.connect
        (inv.net m (List.mem_of_getElem? found)) connects)
  | connectFails =>
      simp only [Link.step, Option.ite_none_left_eq_some] at taken
      obtain ⟨-, taken⟩ := taken
      rw [← Option.some.inj taken]
      exact inv.withConnect still
        (Connect.peerDown_sound inv.connect.name link.connect)
  | pings =>
      simp only [Link.step, Option.ite_none_right_eq_some] at taken
      obtain ⟨-, taken⟩ := taken
      rw [← Option.some.inj taken]
      refine inv.withConnect still (inv.connect.stays fun m member => ?_)
      rw [List.mem_singleton.mp member]
      exact .of_answer inv.connect.name (by simp)
  | toListen index draw =>
      simp only [Link.step, Option.ite_none_left_eq_some,
        Option.map_eq_some_iff] at taken
      obtain ⟨fresh, m, -, taken⟩ := taken
      rw [← taken]
      have other : draw.session ≠ link.listen.x.session := by
        intro same
        exact fresh (same ▸ inv.session)
      refine inv.withListen (List.subset_cons_self _ _)
        (Listen.receive_sound inv.listen other) ?_
      rcases Listen.receive_session (s := link.listen) (m := m) with
        same | drawn
      · exact .inl same
      · rw [drawn]
        exact .inr ⟨fresh, List.mem_cons_self⟩
  | handshakeTimeout =>
      simp only [Link.step, Option.ite_none_right_eq_some] at taken
      obtain ⟨-, taken⟩ := taken
      rw [← Option.some.inj taken]
      exact inv.drop
  | answers =>
      simp only [Link.step, Option.ite_none_right_eq_some] at taken
      obtain ⟨⟨hello, -⟩, taken⟩ := taken
      rw [← Option.some.inj taken]
      refine inv.listenStays (.of_good inv.listen fun m member => ?_) rfl
      rw [List.mem_singleton.mp member]
      exact inv.listen.vouched hello
  | silent =>
      simp only [Link.step, Option.ite_none_right_eq_some] at taken
      obtain ⟨-, taken⟩ := taken
      rw [← Option.some.inj taken]
      exact inv.drop
  | replies fails =>
      simp only [Link.step, Option.ite_none_right_eq_some] at taken
      obtain ⟨-, taken⟩ := taken
      rw [← Option.some.inj taken]
      refine inv.listenStays (Listen.reply_sound inv.listen fails) ?_
      unfold Listen.reply
      extract_lets taken
      split
      · rfl
      · rfl
  | thunderboltFails =>
      simp only [Link.step, Option.ite_none_right_eq_some] at taken
      obtain ⟨-, taken⟩ := taken
      rw [← Option.some.inj taken]
      exact inv.drop
  | attaches =>
      rw [← Option.some.inj taken]
      have same : link.listen.attach.x = link.listen.x := by
        unfold Listen.attach
        split
        · rfl
        · rfl
      exact ⟨inv.connect, Listen.attach_good inv.listen, inv.net, inv.joins,
        inv.drawn, inv.once, same ▸ inv.session⟩
  | detaches =>
      rw [← Option.some.inj taken]
      have listen := inv.listen
      exact ⟨inv.connect, ⟨listen.name, listen.vouched, listen.offer,
        listen.holds, listen.hello⟩, inv.net, inv.joins, inv.drawn, inv.once,
        inv.session⟩
  | requestLands word =>
      rw [← Option.some.inj taken]
      have listen := inv.listen
      exact ⟨inv.connect, ⟨listen.name, listen.vouched, listen.offer,
        listen.holds, listen.hello⟩, inv.net, inv.joins, inv.drawn, inv.once,
        inv.session⟩
  | stages word =>
      rw [← Option.some.inj taken]
      have listen := inv.listen
      exact ⟨inv.connect, ⟨listen.name, listen.vouched, listen.offer,
        listen.holds, listen.hello⟩, inv.net, inv.joins, inv.drawn, inv.once,
        inv.session⟩
  | requests word =>
      rw [← Option.some.inj taken]
      have connect := inv.connect
      exact ⟨⟨connect.name, connect.waiting, connect.up⟩, inv.listen, inv.net,
        inv.joins, inv.drawn, inv.once, inv.session⟩
  | replyLands ready done =>
      rw [← Option.some.inj taken]
      have connect := inv.connect
      exact ⟨⟨connect.name, connect.waiting, connect.up⟩, inv.listen, inv.net,
        inv.joins, inv.drawn, inv.once, inv.session⟩

/-- Every state of a link keeps to the record. -/
theorem Inv.reach {config : Config} (reached : config.machine.Reach link) :
    link.Inv config.name := by
  refine reached.invariant _ ?_ fun before next event inv taken =>
    inv.step event taken
  constructor
  · refine ⟨rfl, ?_, ?_⟩
    all_goals
      intro phase
      cases phase
  · refine ⟨rfl, ?_, ?_, ?_, ?_⟩
    all_goals
      intro on
      cases on
  · intro m member
    cases member
  · intro entry member
    cases member
  · intro offer member
    cases member
  · intro first member
    cases member
  · exact List.mem_cons_self

/-! ## Agreement -/

/-- The session of the connect end that the listen end holds has connected to
the queue pair the listen end holds now, as its present session offers it. -/
def Agrees (link : Link) : Prop :=
  (link.listen.x.peerSession, link.listen.x.session, link.listen.answer.info) ∈
      link.joined ∧
    ∃ made, link.listen.e.qp = some made ∧ link.listen.answer.info =
      { made with
        mode := link.listen.answer.info.mode
        req := link.listen.b.req
        rep := link.listen.b.rep }

/-- A confirmation the listen end would arm on is addressed to its present
session. -/
def Addressed (link : Link) : Event → Prop
  | .toListen index _ => ∀ m ∈ link.net[index]?,
      link.listen.Confirms m → m.toSession = link.listen.x.session
  | _ => True

instance (link : Link) (event : Event) : Decidable (link.Addressed event) :=
  match event with
  | .toListen index _ =>
      inferInstanceAs (Decidable (∀ m ∈ link.net[index]?,
        link.listen.Confirms m → m.toSession = link.listen.x.session))
  | .attempt _ _ | .offers | .toConnect _ _ | .connectFails | .pings
  | .handshakeTimeout | .answers | .silent | .replies _ | .thunderboltFails
  | .attaches | .detaches | .requestLands _ | .stages _ | .requests _
  | .replyLands _ _ => isTrue trivial

/-- The session the listen end is armed with is joined to its present one. -/
def Pledged (link : Link) : Prop :=
  link.listen.armed = true →
    (link.listen.x.peerSession, link.listen.x.session,
      link.listen.answer.info) ∈ link.joined

/-- A confirmation addressed to the present session is of a connection to its
offer. -/
theorem Inv.confirmed (inv : link.Inv name) {m : Xmsg} (sent : m ∈ link.net)
    (confirms : link.listen.Confirms m)
    (addressed : m.toSession = link.listen.x.session) :
    (link.listen.x.peerSession, link.listen.x.session,
      link.listen.answer.info) ∈ link.joined := by
  obtain ⟨-, role, kind, flag, current, -⟩ := confirms
  simp only [Listen.current, Bool.and_eq_true, decide_eq_true_eq] at current
  obtain ⟨hello, held⟩ := current
  obtain ⟨info, joined⟩ := (inv.net m sent).confirmed role kind flag
  have offer := inv.joins _ joined
  have same := inv.once _ offer _ (inv.listen.offer hello) addressed
  have info_eq : info = link.listen.answer.info := congrArg Prod.snd same
  rw [← held, ← addressed, ← info_eq]
  exact joined

/-- What keeps the listen end's session keeps what it is joined to. -/
theorem Pledged.keeps (pledged : link.Pledged)
    (armed : next.listen.armed = true → link.listen.armed = true)
    (x : next.listen.armed = true → next.listen.x = link.listen.x)
    (answer : next.listen.armed = true →
      next.listen.answer = link.listen.answer)
    (joined : link.joined ⊆ next.joined) : next.Pledged := by
  intro on
  rw [x on, answer on]
  exact joined (pledged (armed on))

theorem Pledged.withConnect (pledged : link.Pledged)
    (moved : Connect × List Xmsg) (drawn : List Session) :
    (Link.withConnect { link with drawn := drawn } moved).Pledged :=
  pledged.keeps id (fun _ => rfl) (fun _ => rfl)
    (List.subset_append_right _ _)

theorem Pledged.drop (pledged : link.Pledged) :
    (link.withListen link.listen.drop).Pledged := by
  refine pledged.keeps ?_ ?_ ?_ (fun _ => id)
  all_goals
    intro armed
    cases armed

/-- A step whose confirmations are addressed to the present session keeps the
session joined. -/
theorem Pledged.step (pledged : link.Pledged) (inv : link.Inv name)
    (event : Event) (addressed : link.Addressed event)
    (taken : link.step event = some next) : next.Pledged := by
  cases event with
  | attempt session made =>
      simp only [Link.step, Option.ite_none_right_eq_some] at taken
      obtain ⟨-, taken⟩ := taken
      rw [← Option.some.inj taken]
      exact pledged.withConnect _ _
  | offers =>
      simp only [Link.step, Option.ite_none_right_eq_some] at taken
      obtain ⟨-, taken⟩ := taken
      rw [← Option.some.inj taken]
      exact pledged.withConnect _ _
  | toConnect index connects =>
      simp only [Link.step, Option.map_eq_some_iff] at taken
      obtain ⟨m, -, taken⟩ := taken
      rw [← taken]
      exact pledged.withConnect _ _
  | connectFails =>
      simp only [Link.step, Option.ite_none_left_eq_some] at taken
      obtain ⟨-, taken⟩ := taken
      rw [← Option.some.inj taken]
      exact pledged.withConnect _ _
  | pings =>
      simp only [Link.step, Option.ite_none_right_eq_some] at taken
      obtain ⟨-, taken⟩ := taken
      rw [← Option.some.inj taken]
      exact pledged.withConnect _ _
  | toListen index draw =>
      simp only [Link.step, Option.ite_none_left_eq_some,
        Option.map_eq_some_iff] at taken
      obtain ⟨-, m, found, taken⟩ := taken
      rw [← taken]
      intro armed
      obtain ⟨cause, x, answer⟩ :=
        Listen.receive_armed draw inv.listen.hello armed
      show ((link.listen.receive m draw).1.x.peerSession,
        (link.listen.receive m draw).1.x.session,
        (link.listen.receive m draw).1.answer.info) ∈ link.joined
      rw [x, answer]
      rcases cause with before | confirms
      · exact pledged before
      · exact inv.confirmed (List.mem_of_getElem? found) confirms
          (addressed m found confirms)
  | handshakeTimeout =>
      simp only [Link.step, Option.ite_none_right_eq_some] at taken
      obtain ⟨-, taken⟩ := taken
      rw [← Option.some.inj taken]
      exact pledged.drop
  | answers =>
      simp only [Link.step, Option.ite_none_right_eq_some] at taken
      obtain ⟨-, taken⟩ := taken
      rw [← Option.some.inj taken]
      exact pledged.keeps id (fun _ => rfl) (fun _ => rfl) fun _ => id
  | silent =>
      simp only [Link.step, Option.ite_none_right_eq_some] at taken
      obtain ⟨-, taken⟩ := taken
      rw [← Option.some.inj taken]
      exact pledged.drop
  | replies fails =>
      simp only [Link.step, Option.ite_none_right_eq_some] at taken
      obtain ⟨-, taken⟩ := taken
      rw [← Option.some.inj taken]
      by_cases drops : link.listen.b.rep - ctrl <
          (wordLen link.listen.stagedWord).toUInt64 ∨ fails = true
      · refine pledged.keeps ?_ ?_ ?_ fun _ => id
        all_goals
          simp [Link.withListen, Listen.reply, drops, Listen.drop]
      · refine pledged.keeps ?_ ?_ ?_ fun _ => id
        all_goals
          simp [Link.withListen, Listen.reply, drops]
  | thunderboltFails =>
      simp only [Link.step, Option.ite_none_right_eq_some] at taken
      obtain ⟨-, taken⟩ := taken
      rw [← Option.some.inj taken]
      exact pledged.drop
  | attaches =>
      rw [← Option.some.inj taken]
      refine pledged.keeps ?_ ?_ ?_ fun _ => id
      all_goals
        simp only [Listen.attach]
        split
        · simp
        · simp
  | detaches =>
      rw [← Option.some.inj taken]
      exact pledged.keeps id (fun _ => rfl) (fun _ => rfl) fun _ => id
  | requestLands word =>
      rw [← Option.some.inj taken]
      exact pledged.keeps id (fun _ => rfl) (fun _ => rfl) fun _ => id
  | stages word =>
      rw [← Option.some.inj taken]
      exact pledged.keeps id (fun _ => rfl) (fun _ => rfl) fun _ => id
  | requests word =>
      rw [← Option.some.inj taken]
      exact pledged.keeps id (fun _ => rfl) (fun _ => rfl) fun _ => id
  | replyLands ready done =>
      rw [← Option.some.inj taken]
      exact pledged.keeps id (fun _ => rfl) (fun _ => rfl) fun _ => id

/-- Where every confirmation the listen end arms on is addressed to its present
session, an armed listen end holds a session that has connected to the queue
pair the listen end holds. -/
theorem armed_agrees {config : Config}
    (reached : config.machine.Reaches Addressed link)
    (armed : link.listen.armed = true) : link.Agrees := by
  have pledged : link.Inv config.name ∧ link.Pledged := by
    refine reached.invariant (fun link => link.Inv config.name ∧ link.Pledged)
      ⟨Inv.reach Machine.Reaches.start, fun on => by cases on⟩ ?_
    intro before next event _ both addressed taken
    exact ⟨both.1.step event taken,
      both.2.step both.1 event addressed taken⟩
  exact ⟨pledged.2 armed,
    pledged.1.listen.holds (pledged.1.listen.hello armed)⟩

/-- A session of one repeated byte. -/
def plainSession (byte : UInt8) : Session := fun _ => byte

/-- Two registrations of four MiB behind a queue pair. -/
def plainPair (qpn : UInt32) : Xinfo where
  qpn := qpn
  table := { length := 8388608, seg := 4194304, n := 2 }

/-- A RoCE link of two four-MiB halves with direct replies. -/
def plainConfig : Config where
  name := fun index => if index.val = 0 then 97 else 0
  kind := fun _ => linkRoce
  box := fun _ => ⟨4194304, 4194304⟩
  mode := modeDirect
  session := plainSession 10

/-- What the listen end draws for its session number `byte`. -/
def plainDraw (byte : UInt8) : Draw where
  session := plainSession byte
  made := some (plainPair byte.toUInt32)
  connects := true

/-- The connect end offers, the listen end answers, and the connect end joins
and confirms. -/
def handshake : List Event :=
  [.attempt (plainSession 1) (some (plainPair 1)), .offers,
    .toListen 0 (plainDraw 11), .toConnect 1 true]

/-- The confirmation arrives. -/
def confirmed : List Event :=
  handshake ++ [.toListen 2 (plainDraw 12)]

theorem confirmed_arms :
    ((plainConfig.machine.guarded Addressed).run
      (plainConfig.machine.guarded Addressed).start confirmed).any
      (fun link => link.listen.armed) = true := by
  decide +kernel

/-- The plain run arms the listen end, and both ends agree. -/
theorem armed_agrees_plain :
    ∃ link, plainConfig.machine.Reaches Addressed link ∧
      link.listen.armed = true ∧ link.Agrees := by
  obtain ⟨link, reached, armed⟩ := Machine.Reach.ofTest confirmed_arms
  have addressed := reached.ofGuarded
  exact ⟨link, addressed, armed, armed_agrees addressed armed⟩

/-- The handshake times out at the listen end, a copy of the first offer begins
another session there, and the confirmation of the first arms it. -/
def crossed : List Event :=
  handshake ++ [.handshakeTimeout, .toListen 0 (plainDraw 12),
    .toListen 2 (plainDraw 13)]

/-- Armed with a session that never connected to the present one. -/
def armedApart (link : Link) : Bool :=
  link.listen.armed && link.joined.all fun entry =>
    decide (entry.2.1 ≠ link.listen.x.session)

theorem crossed_arms :
    (plainConfig.machine.run plainConfig.machine.start crossed).any armedApart =
      true := by
  decide +kernel

/-- A listen end is armed with a session that connected to its earlier queue
pair. -/
theorem crossed_disagrees :
    ∃ link, plainConfig.machine.Reach link ∧ link.listen.armed = true ∧
      ¬ link.Agrees := by
  obtain ⟨link, reached, apart⟩ := Machine.Reach.ofTest crossed_arms
  simp only [armedApart, Bool.and_eq_true, List.all_eq_true,
    decide_eq_true_eq] at apart
  exact ⟨link, reached, apart.1, fun agrees => apart.2 _ agrees.1 rfl⟩

/-! ## Replays -/

/-- The listen end is armed with the present session of the connect end. -/
def Live (link : Link) : Prop :=
  link.listen.armed = true ∧
    link.listen.x.peerSession = link.connect.x.session

/-- A datagram of an earlier session of either end. -/
def Older (link : Link) (m : Xmsg) : Prop :=
  m ∈ link.net ∧ m.fromSession ≠ link.connect.x.session ∧
    m.fromSession ≠ link.listen.x.session

/-- A plain offer of the connect end. -/
def PlainOffer (m : Xmsg) : Prop :=
  m.role = .connect ∧ m.kind = .offer ∧ m.have_ = false

/-- A goodbye or refusal of the listen end for a session of the connect end. -/
def Farewell (session : Session) (m : Xmsg) : Prop :=
  m.role = .listen ∧ m.toSession = session ∧ (m.kind = .bye ∨ m.kind = .err)

/-- An earlier session is not the one the listen end holds. -/
theorem Live.not_current (live : link.Live) {m : Xmsg} (older : link.Older m) :
    link.listen.current m = false := by
  rw [Listen.current, live.2, Bool.and_eq_false_iff]
  exact .inr (decide_eq_false older.2.1)

/-- An older datagram asks for a new session exactly when it is a plain
offer. -/
theorem Live.asks_iff (live : link.Live) {m : Xmsg} (older : link.Older m) :
    link.listen.asks m = true ↔ PlainOffer m := by
  simp [Listen.asks, live.not_current older, PlainOffer]

theorem Live.listen_iff (live : link.Live) (inv : link.Inv name) {m : Xmsg}
    (older : link.Older m) (draw : Draw) :
    link.listen.Kept (link.listen.receive m draw).1 ↔ ¬ PlainOffer m := by
  have past := live.not_current older
  constructor
  · intro kept plain
    have admits : link.listen.x.admits m = true :=
      decide_eq_true ⟨(inv.net m older.1).name.trans inv.listen.name.symm,
        older.2.2⟩
    have asks := (live.asks_iff older).mpr plain
    have unarmed : (link.listen.listenOffer m draw).1.forget.armed = false :=
      Listen.listenOffer_armed inv.listen.hello
    have armed := kept.armed
    rw [Listen.receive_asks admits asks, unarmed, live.1] at armed
    cases armed
  · intro other
    rcases Listen.receive_cases link.listen m draw with
      same | ⟨asks, -⟩ | ⟨confirms, -⟩ | ⟨current, -⟩
    · rw [same]
      exact ⟨rfl, rfl, rfl, rfl, rfl, rfl⟩
    · exact absurd ((live.asks_iff older).mp asks) other
    · have current := confirms.2.2.2.2.1
      rw [past] at current
      cases current
    · rw [past] at current
      cases current

theorem Inv.connect_iff (inv : link.Inv name) (up : link.connect.phase = .up)
    {m : Xmsg} (older : link.Older m) (connects : Bool) :
    (link.connect.receive m connects).1 = link.connect ↔
      ¬ Farewell link.connect.x.session m := by
  have admits : link.connect.x.admits m = true :=
    decide_eq_true ⟨(inv.net m older.1).name.trans inv.connect.name.symm,
      older.2.1⟩
  rw [Connect.receive, if_pos admits]
  simp only [up, Connect.connectService]
  by_cases outside : m.role ≠ .listen ∨ ¬(link.connect.x.ours m = true)
  · rw [if_pos outside]
    refine ⟨fun _ farewell => ?_, fun _ => rfl⟩
    rcases outside with role | session
    · exact role farewell.1
    · exact session (decide_eq_true farewell.2.1)
  · rw [if_neg outside]
    simp only [Xchg.ours, not_or, not_not, decide_eq_true_eq] at outside
    by_cases goodbye : m.kind = .bye ∨ m.kind = .err
    · rw [if_pos goodbye]
      constructor
      · intro same
        have down : Phase.down = link.connect.phase :=
          congrArg Connect.phase same
        rw [up] at down
        cases down
      · intro other
        exact absurd ⟨outside.1, outside.2, goodbye⟩ other
    · rw [if_neg goodbye]
      refine ⟨fun _ farewell => goodbye farewell.2.2, fun _ => ?_⟩
      split
      · rfl
      · split
        · rfl
        · rfl

/-- On a live link, a datagram of an earlier session leaves the listen end alone
exactly when it is no plain offer, and a connect end that is up exactly when it
is no goodbye or refusal for the present session. -/
theorem replay_harmless_iff {config : Config}
    (reached : config.machine.Reach link) (live : link.Live) {m : Xmsg}
    (older : link.Older m) (draw : Draw) (connects : Bool) :
    (link.listen.Kept (link.listen.receive m draw).1 ↔ ¬ PlainOffer m) ∧
      (link.connect.phase = .up →
        ((link.connect.receive m connects).1 = link.connect ↔
          ¬ Farewell link.connect.x.session m)) := by
  have inv := Inv.reach reached
  exact ⟨live.listen_iff inv older draw,
    fun up => inv.connect_iff up older connects⟩

/-- After the plain run the connect end fails, connects again in a new session
and is confirmed. -/
def reconnected : List Event :=
  confirmed ++ [.connectFails, .attempt (plainSession 2) (some (plainPair 2)),
    .offers, .toListen 4 (plainDraw 13), .toConnect 6 true,
    .toListen 7 (plainDraw 14)]

instance (m : Xmsg) : Decidable (PlainOffer m) :=
  inferInstanceAs (Decidable (_ ∧ _ ∧ _))

/-- A live link with a datagram of an earlier session that passes a test. -/
def replayable (test : Xmsg → Bool) (link : Link) : Bool :=
  decide (link.listen.armed = true ∧
    link.listen.x.peerSession = link.connect.x.session) &&
  link.net.any fun m => decide (m.fromSession ≠ link.connect.x.session ∧
    m.fromSession ≠ link.listen.x.session) && test m

theorem exists_older {test : Xmsg → Bool}
    (found : replayable test link = true) :
    link.Live ∧ ∃ m, link.Older m ∧ test m = true := by
  simp only [replayable, Bool.and_eq_true, decide_eq_true_eq,
    List.any_eq_true] at found
  obtain ⟨live, m, member, older, passes⟩ := found
  exact ⟨live, m, ⟨member, older⟩, passes⟩

theorem reconnected_runs (wanted : Bool) :
    (plainConfig.machine.run plainConfig.machine.start reconnected).any
      (replayable fun m => decide (PlainOffer m) == wanted) = true := by
  cases wanted with
  | false => decide +kernel
  | true => decide +kernel

/-- The confirmation of the earlier session leaves the reconnected link alone. -/
theorem replay_harmless_confirmation :
    ∃ link m, plainConfig.machine.Reach link ∧ link.Live ∧ link.Older m ∧
      link.listen.Kept (link.listen.receive m (plainDraw 15)).1 := by
  obtain ⟨link, reached, found⟩ := Machine.Reach.ofTest (reconnected_runs false)
  obtain ⟨live, m, older, other⟩ := exists_older found
  have harmless := replay_harmless_iff reached live older (plainDraw 15) true
  exact ⟨link, m, reached, live, older, harmless.1.mpr (by simpa using other)⟩

/-- The plain offer of the earlier session ends the reconnected link. -/
theorem replayed_offer_drops :
    ∃ link m, plainConfig.machine.Reach link ∧ link.Live ∧ link.Older m ∧
      ¬ link.listen.Kept (link.listen.receive m (plainDraw 15)).1 := by
  obtain ⟨link, reached, found⟩ := Machine.Reach.ofTest (reconnected_runs true)
  obtain ⟨live, m, older, plain⟩ := exists_older found
  have harmful := live.listen_iff (Inv.reach reached) older (plainDraw 15)
  exact ⟨link, m, reached, live, older,
    fun kept => harmful.mp kept (by simpa using plain)⟩

end Link

end Setup
end Mcdma
