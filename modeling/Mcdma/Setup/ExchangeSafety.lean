import Mcdma.Setup.Exchange

/-!
# What two fabric ends agree on

A session's offers on a lane all carry that lane's one queue pair, and an offer
that says it holds another's is sent by a lane that has connected to it.  Sessions
tell the attempts apart, names the lanes of an attempt, and the order of
attempts tells an end's own earlier offers from the other end's.
-/

namespace Mcdma
namespace Setup

/-! ## Names and configurations -/

theorem validName_length {name : List UInt8} (valid : validName name = true) :
    name.length ≤ 20 := by
  simp only [validName, Bool.and_eq_true, decide_eq_true_eq] at valid
  exact valid.2.2

/-- The digits of two lanes, padded with zeros, differ. -/
theorem decimal_inj : ∀ i < 24, ∀ j < 24,
    (∀ digit < 2, (decimal i).getD digit 0 = (decimal j).getD digit 0) → i = j := by
  decide +kernel

/-- The name of a lane of a bond, at the bytes behind the dash. -/
theorem nameBytes_digit {name : List UInt8} (short : name.length ≤ 20) (k : Nat)
    (index : Fin 2) (below : name.length + 1 + index.val < xName) :
    nameBytes (name ++ 45 :: decimal k) ⟨name.length + 1 + index.val, below⟩ =
      (decimal k).getD index.val 0 := by
  have bound : name.length + 1 + index.val + 1 < xName := by
    have small := index.isLt
    simp only [xName]
    omega
  have shift : name.length + 1 + index.val - name.length = index.val + 1 := by
    omega
  simp only [nameBytes, if_pos bound, List.getD_eq_getElem?_getD]
  rw [List.getElem?_append_right (by omega), shift, List.getElem?_cons_succ]

theorem Bond.bonded_le (bond : Bond) : bond.bonded ≤ 24 :=
  Nat.mul_le_mul bond.fewDevices bond.fewQps

/-- The lanes of an attempt have names of their own. -/
theorem Attempt.laneName_inj (a : Attempt) {i j : Nat} (first : i < a.lanes)
    (second : j < a.lanes) (same : a.laneName i = a.laneName j) : i = j := by
  cases bonds : a.bond with
  | none =>
      simp only [lanes, bonds] at first second
      omega
  | some bond =>
      simp only [lanes, bonds] at first second
      simp only [laneName, bonds] at same
      have wide := bond.bonded_le
      have short := validName_length a.valid
      have digits : ∀ index < 2, (decimal i).getD index 0 =
          (decimal j).getD index 0 := by
        intro index small
        have below : a.name.length + 1 + index < xName := by
          simp only [xName]
          omega
        rw [← nameBytes_digit short i ⟨index, small⟩ below,
          ← nameBytes_digit short j ⟨index, small⟩ below, same]
      exact decimal_inj i (by omega) j (by omega) digits

/-- The word of a configuration tells the width and the lane. -/
theorem rep_decodes : ∀ devices < 9, ∀ qps < 4, ∀ k < 24,
    let lane := (UInt64.ofNat (devices * qps) <<< 32) ||| UInt64.ofNat (k + 1)
    let spread := (UInt64.ofNat devices <<< 56) ||| (UInt64.ofNat qps <<< 48)
    [lane, lane ||| spread].all fun word =>
      ((word >>> 32) &&& 0xffff).toNat = devices * qps ∧
        (word &&& 0xffffffff).toNat = k + 1 := by
  decide +kernel

/-- The lanes of a bond, or none. -/
def Attempt.width (a : Attempt) : Nat :=
  match a.bond with
  | none => 0
  | some bond => bond.bonded

theorem Attempt.rep_width (a : Attempt) {k : Nat} (below : k < a.lanes) :
    ((a.rep k >>> 32) &&& 0xffff).toNat = a.width ∧
      (a.rep k &&& 0xffffffff).toNat = if a.bond.isSome then k + 1 else 0 := by
  cases bonds : a.bond with
  | none =>
      simp [rep, width, bonds]
  | some bond =>
      simp only [lanes, bonds] at below
      have wide := bond.bonded_le
      have devices : bond.devices < 9 := by
        have few := bond.fewDevices
        omega
      have qps : bond.qps < 4 := by
        have few := bond.fewQps
        omega
      have decodes := rep_decodes bond.devices devices bond.qps qps
        k (by omega)
      simp only [List.all_cons, List.all_nil, Bool.and_true, Bool.and_eq_true,
        decide_eq_true_eq] at decodes
      simp only [rep, width, bonds, Option.isSome_some, if_true]
      split
      · exact decodes.2
      · exact decodes.1

/-- Two attempts of the same configuration word have one width, lane and
mode. -/
theorem Attempt.rep_agree {a b : Attempt} {k j : Nat} (below : k < a.lanes)
    (below' : j < b.lanes) (same : b.rep j = a.rep k)
    (modes : a.bond.isSome = true → b.mode = a.mode) :
    b.width = a.width ∧ j = k ∧ b.mode = a.mode := by
  have first := a.rep_width below
  have second := b.rep_width below'
  rw [same, first.1, first.2] at second
  obtain ⟨width, lane⟩ := second
  cases bonds : a.bond with
  | none =>
      cases bonds' : b.bond with
      | none =>
          simp only [lanes, bonds, bonds'] at below below'
          refine ⟨width.symm, by omega, ?_⟩
          simp [mode, bonds, bonds']
      | some bond => simp [bonds, bonds'] at lane
  | some bond =>
      cases bonds' : b.bond with
      | none => simp [bonds, bonds'] at lane
      | some bond' =>
          simp only [bonds, bonds', Option.isSome_some, if_true] at lane
          exact ⟨width.symm, by omega, modes (by simp [bonds])⟩

/-! ## The record -/

/-- The attempts made and the connections of their lanes. -/
structure Minutes where
  attempts : List Attempt
  connected : List Connection

namespace Minutes

/-- The record goes on. -/
structure Extends (before after : Minutes) : Prop where
  attempts : before.attempts ⊆ after.attempts
  connected : before.connected ⊆ after.connected

/-- Some lane of an attempt that bears a session and a name. -/
def Offers (minutes : Minutes) (session : Session) (name : Fin xName → UInt8)
    (b : Attempt) (j : Nat) : Prop :=
  b ∈ minutes.attempts ∧ j < b.lanes ∧ b.session = session ∧
    b.laneName j = name

theorem Offers.extends {before after : Minutes} {session : Session}
    {name : Fin xName → UInt8} {b : Attempt} {j : Nat}
    (offers : before.Offers session name b j)
    (grown : before.Extends after) : after.Offers session name b j :=
  ⟨grown.attempts offers.1, offers.2⟩

end Minutes

/-- An offer is that of a lane, and where it says it holds another's, the lane
has connected. -/
def Xmsg.Backed (minutes : Minutes) (m : Xmsg) : Prop :=
  m.kind = .offer → ∃ a k, minutes.Offers m.fromSession m.name a k ∧
    m.info = a.info k ∧ (m.have_ = true →
      ∃ info, ⟨m.fromSession, k, m.toSession, info⟩ ∈ minutes.connected)

theorem Xmsg.Backed.extends {before after : Minutes} {m : Xmsg}
    (backed : m.Backed before) (grown : before.Extends after) :
    m.Backed after := by
  intro kind
  obtain ⟨a, k, offers, same, holds⟩ := backed kind
  refine ⟨a, k, offers.extends grown, same, fun flag => ?_⟩
  obtain ⟨info, member⟩ := holds flag
  exact ⟨info, grown.connected member⟩

/-- A connection is to what a lane of another attempt offered under the same
name and configuration, and that attempt is the other end's or an earlier
one. -/
def Connection.Good (minutes : Minutes) (c : Connection) : Prop :=
  ∃ a ∈ minutes.attempts, a.session = c.session ∧ c.lane < a.lanes ∧
    ∃ b j, minutes.Offers c.peer (a.laneName c.lane) b j ∧
      c.info = b.info j ∧ Lane.refuse a c.lane (b.info j) = none ∧
      (b.side = a.side → b.number < a.number)

theorem Connection.Good.extends {before after : Minutes} {c : Connection}
    (good : c.Good before) (grown : before.Extends after) :
    c.Good after := by
  obtain ⟨a, member, session, below, b, j, offers, same⟩ := good
  exact ⟨a, grown.attempts member, session, below, b, j,
    offers.extends grown, same⟩

namespace Lane

/-- A lane of an attempt offers that attempt's queue pair, says it holds an
offer once its own queue pair is connected, and has heard from its peer only
what a lane of the peer's session has done. -/
structure Good (minutes : Minutes) (a : Attempt) (k : Nat) (l : Lane) :
    Prop where
  session : l.x.session = a.session
  name : l.x.name = a.laneName k
  kind : l.mine.kind = .offer
  sender : l.mine.fromSession = a.session
  label : l.mine.name = a.laneName k
  info : l.mine.info = a.info k
  plain : l.have_ = false → l.mine.have_ = false
  held : l.have_ = true → l.mine.toSession = l.x.peerSession ∧
    ∃ info, l.e.remote = some info ∧
      ⟨a.session, k, l.x.peerSession, info⟩ ∈ minutes.connected
  heard : l.heard = true → l.have_ = true ∧
    ∃ b j info, minutes.Offers l.x.peerSession (a.laneName k) b j ∧
      ⟨l.x.peerSession, j, a.session, info⟩ ∈ minutes.connected

section

variable {minutes after : Minutes} {a : Attempt} {k : Nat} {l : Lane}

theorem Good.extends (good : l.Good minutes a k)
    (grown : minutes.Extends after) : l.Good after a k where
  session := good.session
  name := good.name
  kind := good.kind
  sender := good.sender
  label := good.label
  info := good.info
  plain := good.plain
  held := by
    intro holds
    obtain ⟨addressee, info, remote, member⟩ := good.held holds
    exact ⟨addressee, info, remote, grown.connected member⟩
  heard := by
    intro hears
    obtain ⟨holds, b, j, info, offers, member⟩ := good.heard hears
    exact ⟨holds, b, j, info, offers.extends grown,
      grown.connected member⟩

theorem begin_good : (begin a k).Good minutes a k where
  session := rfl
  name := rfl
  kind := rfl
  sender := rfl
  label := rfl
  info := rfl
  plain := fun _ => by simp [begin, Xchg.prepare, Xmsg.have_]
  held := fun holds => by cases holds
  heard := fun hears => by cases hears

/-- What a lane offers is backed. -/
theorem Good.mine (good : l.Good minutes a k) (member : a ∈ minutes.attempts)
    (below : k < a.lanes) : l.mine.Backed minutes := by
  intro _
  refine ⟨a, k, ⟨member, below, good.sender.symm, good.label.symm⟩, good.info,
    fun flag => ?_⟩
  cases holds : l.have_ with
  | false =>
      have plain := good.plain holds
      rw [flag] at plain
      cases plain
  | true =>
      obtain ⟨addressee, info, -, joined⟩ := good.held holds
      rw [good.sender, addressee]
      exact ⟨info, joined⟩

/-- A lane hears that it is held from a backed offer of its peer. -/
theorem Good.hear (good : l.Good minutes a k) {got : Xmsg}
    (backed : got.Backed minutes) (admits : l.x.admits got = true)
    (kind : got.kind = .offer) (holds : l.have_ = true)
    (peer : got.fromSession = l.x.peerSession) :
    (l.hear got).Good minutes a k := by
  refine ⟨good.session, good.name, good.kind, good.sender, good.label,
    good.info, good.plain, good.held, fun hears => ⟨holds, ?_⟩⟩
  simp only [Lane.hear, Bool.or_eq_true, Bool.and_eq_true] at hears
  rcases hears with before | ⟨flag, ours⟩
  · exact (good.heard before).2
  · obtain ⟨b, j, offers, -, held⟩ := backed kind
    obtain ⟨info, member⟩ := held flag
    have name : got.name = a.laneName k := by
      simp only [Xchg.admits, decide_eq_true_eq] at admits
      exact admits.1.trans good.name
    have addressee : got.toSession = a.session := by
      simp only [Xchg.ours, decide_eq_true_eq] at ours
      exact ours.trans good.session
    rw [peer, name] at offers
    rw [peer, addressee] at member
    exact ⟨b, j, info, offers, member⟩

/-- What a datagram does to a lane in its exchange. -/
theorem exchange_cases (l : Lane) (a : Attempt) (k : Nat) (got : Xmsg)
    (connects : Bool) :
    ((l.exchange a k got connects).1 = l ∧
      ∀ m ∈ (l.exchange a k got connects).2.1, m.kind ≠ .offer) ∨
    (l.exchange a k got connects = (l.hear got, [], none) ∧
      got.kind = .offer ∧ l.have_ = true ∧
      got.fromSession = l.x.peerSession) ∨
    (l.exchange a k got connects =
        ((l.join got).hear got, [(l.join got).mine], none) ∧
      got.kind = .offer ∧ l.have_ = false ∧
      refuse a k got.info = none) := by
  have errs (why : String) : ∀ m ∈ [l.err got why], m.kind ≠ .offer := by
    intro m member
    rw [List.mem_singleton.mp member]
    simp [err]
  unfold exchange
  split
  · exact .inl ⟨rfl, by simp⟩
  · split
    · exact .inl ⟨rfl, by simp⟩
    · split
      · exact .inl ⟨rfl, by simp⟩
      · next offers =>
          simp only [not_or, not_not, not_and] at offers
          split
          · next holds =>
              exact .inr (.inl ⟨rfl, offers.1, holds, offers.2 holds⟩)
          · next free =>
              split
              · exact .inl ⟨rfl, errs _⟩
              · next usable =>
                  split
                  · exact .inr (.inr ⟨rfl, offers.1,
                      Bool.eq_false_iff.mpr free, usable⟩)
                  · exact .inl ⟨rfl, errs _⟩

/-- A lane that has joined, once the connection is on record. -/
theorem Good.join (good : l.Good minutes a k) (after : Minutes) {got : Xmsg}
    (unheard : l.heard = false)
    (recorded : ⟨a.session, k, got.fromSession, got.info⟩ ∈ after.connected) :
    (l.join got).Good after a k where
  session := good.session
  name := good.name
  kind := good.kind
  sender := good.sender
  label := good.label
  info := good.info
  plain := fun free => by cases free
  held := fun _ => ⟨rfl, got.info, rfl, recorded⟩
  heard := fun hears => by
    have same : (l.join got).heard = l.heard := rfl
    rw [same, unheard] at hears
    cases hears

end

end Lane

/-! ## One end -/

namespace Call

/-- The call is the last attempt of its end, its lanes are good, those below the
present one have both, and a link that is up has one peer. -/
structure Good (minutes : Minutes) (side : Bool) (c : Call) : Prop where
  member : c.attempt ∈ minutes.attempts
  mine : c.attempt.side = side
  latest : ∀ b ∈ minutes.attempts, b.side = side →
    b.number ≤ c.attempt.number
  lanes : ∀ k, (c.lanes k).Good minutes c.attempt k
  within : c.up = false → c.lane < c.attempt.lanes
  bounded : c.lane ≤ c.attempt.lanes
  past : ∀ k < c.lane, (c.lanes k).have_ = true ∧ (c.lanes k).heard = true
  one : c.up = true → ∀ k < c.attempt.lanes,
    (c.lanes 0).x.peerSession = (c.lanes k).x.peerSession

section

variable {minutes after : Minutes} {side : Bool} {c : Call}

/-- The record goes on without an attempt of this end. -/
theorem Good.extends (good : c.Good minutes side)
    (grown : minutes.Extends after)
    (others : ∀ b ∈ after.attempts, b.side = side → b ∈ minutes.attempts) :
    c.Good after side where
  member := grown.attempts good.member
  mine := good.mine
  latest := fun b member same => good.latest b (others b member same) same
  lanes := fun k => (good.lanes k).extends grown
  within := good.within
  bounded := good.bounded
  past := good.past
  one := good.one

/-- The present lane changes. -/
theorem Good.set (good : c.Good minutes side) (busy : c.up = false) {l : Lane}
    (lane : l.Good minutes c.attempt c.lane) :
    (c.set l).Good minutes side where
  member := good.member
  mine := good.mine
  latest := good.latest
  lanes := by
    intro k
    simp only [Call.set, Function.update_apply]
    split
    · next same => exact same ▸ lane
    · exact good.lanes k
  within := good.within
  bounded := good.bounded
  past := by
    intro k below
    have other : k ≠ c.lane := Nat.ne_of_lt below
    simp only [Call.set, Function.update_of_ne other]
    exact good.past k below
  one := fun up => by
    rw [Call.set, busy] at up
    cases up

/-- The call goes on with its next lane, or returns with its link. -/
theorem Good.advance (good : c.Good minutes side) (busy : c.up = false)
    {next : Call} (advances : c.advance = some next) :
    next.Good minutes side := by
  have within := good.within busy
  unfold Call.advance at advances
  split at advances
  · exact Option.some.inj advances ▸ good
  · next both =>
      rw [not_not] at both
      have past : ∀ k < c.lane + 1,
          (c.lanes k).have_ = true ∧ (c.lanes k).heard = true := by
        intro k below
        rcases Nat.lt_succ_iff_lt_or_eq.mp below with earlier | same
        · exact good.past k earlier
        · exact same ▸ both
      split at advances
      · next more =>
          rw [← Option.some.inj advances]
          exact ⟨good.member, good.mine, good.latest, good.lanes,
            fun _ => more, more.le, past, good.one⟩
      · next last =>
          split at advances
          · next agreed =>
              rw [← Option.some.inj advances]
              refine ⟨good.member, good.mine, good.latest, good.lanes,
                fun idle => absurd idle (by simp), within, past, fun _ => ?_⟩
              intro k below
              rcases agreed with lone | ⟨agrees, -⟩
              · have single : c.attempt.lanes = 1 := by
                  rw [Attempt.lanes, Option.isNone_iff_eq_none.mp lone]
                have zero : k = 0 := by
                  have small : k < c.attempt.lanes := below
                  omega
                rw [zero]
              · simp only [Call.agrees, decide_eq_true_eq] at agrees
                exact (agrees k below).1
          · cases advances

theorem release_plain (c : Call) : ∀ m ∈ c.release, m.kind ≠ .offer := by
  intro m member
  simp only [release, List.mem_flatMap] at member
  obtain ⟨k, -, sent⟩ := member
  unfold Lane.goodbye at sent
  split at sent
  · rw [List.mem_singleton.mp sent]
    simp [Xchg.prepare]
  · simp at sent

end

end Call

end Setup
end Mcdma
