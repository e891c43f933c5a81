import Mcdma.Link.Contain
import Mathlib.Tactic.IntervalCases

/-!
# The format of each kind of message

What a message must look like to be taken, kind by kind: its length, the fields
its kind is read by, and where they may point.  Fields a kind does not use, and
bytes behind a header that carries none, are not part of it.  A message outside
its format poisons the link before it has any effect.
-/

namespace Mcdma
namespace Link

open Bytes

variable {σ : Type}

/-- The head of a message's first bytes, as `take` reads it. -/
def headOf (content : List UInt8) : Head :=
  Head.decode (slice content 0 (min content.length headLen))

/-- The lanes a bonded signal must name. -/
def expectedLinks (hooks : Option (Hooks σ)) : Nat :=
  if linksOf hooks ≠ 0 then linksOf hooks else 2

/-- The format of a bonded signal that names `links` lanes. -/
structure SignalFormed (hooks : Option (Hooks σ)) (rx : Rx)
    (content : List UInt8) (links : Nat) : Prop where
  bonded : hooks.isSome
  least : 2 ≤ links
  most : links ≤ tbBondMax
  agreed : links = expectedLinks hooks
  length : content.length = headLen + 8 + links * 4
  wordLen : (headOf content).len = 8
  aligned : (headOf content).off % 8 = 0
  inside : rx.inside (headOf content).off 8 = true
  numbered : field content headLen 8 ≠ 0

/-- The format of a message that carries bytes from position `front` on and its
signal's offset behind its head. -/
structure FusedFormed (rx : Rx) (content : List UInt8) (front : Nat) :
    Prop where
  length : content.length = front + (headOf content).len
  nonempty : (headOf content).len ≠ 0
  inside : rx.inside (headOf content).off (headOf content).len = true
  aligned : field content headLen 8 % 8 = 0
  insideWord : rx.inside (field content headLen 8) 8 = true

/-- The links an N-link message names in its pad. -/
def padLinks (content : List UInt8) : Nat :=
  (headOf content).pad / 256

/-- The flags an N-link message names in its pad. -/
def padFlags (content : List UInt8) : Nat :=
  (headOf content).pad % 256

/-- What the N-link kinds ask of their pad and of the range they write. -/
structure LinksFormed (hooks : Option (Hooks σ)) (rx : Rx)
    (content : List UInt8) : Prop where
  least : 2 ≤ padLinks content
  most : padLinks content ≤ tbBondMax
  agreed : ∃ own, hooks = some own ∧ padLinks content = own.links
  flags : padFlags content = 0 ∨ padFlags content = bondWaitSignals
  nonempty : (headOf content).len ≠ 0
  inside : rx.inside (headOf content).off (headOf content).len = true

/-- The format of each kind of message that starts with a head. -/
def Kind.Formed (hooks : Option (Hooks σ)) (rx : Rx) (content : List UInt8) :
    Kind → Prop
  | .write => content.length ≤ tbPacket ∧ (headOf content).len ≠ 0 ∧
      (headOf content).len ≤ tbMsg ∧
      rx.inside (headOf content).off (headOf content).len = true
  | .inline => content.length ≤ tbPacket ∧
      content.length = headLen + (headOf content).len ∧
      rx.inside (headOf content).off (headOf content).len = true
  | .signal => content.length ≤ tbPacket ∧ (headOf content).off % 8 = 0 ∧
      rx.inside (headOf content).off 8 = true
  | .fence => content.length ≤ tbPacket
  | .fenceAck => content.length ≤ tbPacket
  | .writeSignal => FusedFormed rx content wsHead
  | .bondSignal => SignalFormed hooks rx content 2
  | .bondSignalN => SignalFormed hooks rx content (headOf content).pad
  | .bondWriteSignal => FusedFormed rx content bondWsHead ∧
      field content (headLen + 8) 8 ≠ 0 ∧
      (headOf content).pad ≤ bondWaitLink + bondWaitSignals ∧
      (field content (headLen + 24) 4 ≠ 0 →
        rx.inside ((headOf content).off + (headOf content).len)
          (field content (headLen + 24) 4) = true) ∧
      ∃ own, hooks = some own ∧ own.links ≤ 2 ∧
        field content (headLen + 16 + 4 * (own.lane % 2)) 4 =
          (rx.writesPlaced + 1) % 2 ^ 32
  | .bondInlineN => LinksFormed hooks rx content ∧
      content.length ≤ tbPacket ∧
      content.length = headLen + 16 + padLinks content * 8 +
        (headOf content).len ∧
      field content (headLen + 8) 8 ≠ 0 ∧
      field content headLen 8 % 8 = 0 ∧
      rx.inside (field content headLen 8) 8 = true ∧
      ∃ own, hooks = some own ∧ (own.lane < padLinks content →
        field content (headLen + 16 + 4 * own.lane) 4 =
          (rx.writesPlaced + 1) % 2 ^ 32)
  | .bondWriteN => LinksFormed hooks rx content ∧
      content.length = headLen + padLinks content * 4 ∧
      (headOf content).value ≠ 0 ∧ (headOf content).len ≤ tbMsg

/-- A message with a head in the format of its kind, next in sequence, on a link
that accepts it. -/
structure Formed (hooks : Option (Hooks σ)) (rx : Rx)
    (content : List UInt8) : Prop where
  long : headLen ≤ content.length
  marked : (headOf content).magic = magic
  next : (headOf content).seq = rx.rxSeq
  kind : ∃ kind : Kind, (headOf content).kind = kind.code ∧
    (rx.accepted = none → kind = .fenceAck) ∧ kind.Formed hooks rx content

/-- A link of a bond takes a message that does not start with the magic for a
tail. -/
def TailShaped (hooks : Option (Hooks σ)) (rx : Rx)
    (content : List UInt8) : Prop :=
  hooks.isSome ∧ rx.accepted ≠ none ∧
    (content.length < 4 ∨ (headOf content).magic ≠ magic)

instance (hooks : Option (Hooks σ)) (rx : Rx) (content : List UInt8) :
    Decidable (TailShaped hooks rx content) :=
  inferInstanceAs (Decidable (_ ∧ _))

/-- A message outside its format: bytes of another length than their header
said, a tail that differs from its announcement, or a header message outside the
format of its kind. -/
def Violates (hooks : Option (Hooks σ)) (recv : Recv σ)
    (content : List UInt8) : Prop :=
  if recv.rx.wantLen ≠ 0 then content.length ≠ recv.rx.wantLen
  else if TailShaped hooks recv.rx content then
    ∃ own told bond, hooks = some own ∧ own.tail recv.bond = some (told, bond) ∧
      (content.length ≠ told.len ∨
        told.ordinal ≠ (recv.rx.writesPlaced + 1) % 2 ^ 32 ∨
        recv.rx.inside told.off told.len = false)
  else ¬Formed hooks recv.rx content

/-! ## Refusals -/

/-- The message is given up and has stored nothing. -/
def Refused (recv : Recv σ) (taken : Option (Recv σ × Taken)) : Prop :=
  ∃ (kept : Recv σ) (why : String), taken = kept.fail why ∧
    kept.stores = recv.stores

theorem Refused.mk (recv : Recv σ) (why : String) :
    Refused recv (recv.fail why) :=
  ⟨recv, why, rfl, rfl⟩

section

variable {recv : Recv σ} {hooks : Option (Hooks σ)} {msg : Msg}
variable {content : List UInt8}

theorem takeWriteSignal_refuses (reads : msg.Reads content)
    (bad : ¬FusedFormed recv.rx content wsHead) :
    Refused recv (takeWriteSignal hooks recv msg (headOf content)) := by
  unfold takeWriteSignal
  by_cases long : wsHead ≤ msg.bytes
  · have within : wsHead ≤ content.length := reads.bytes ▸ long
    simp only [wsHead] at within
    rw [if_pos long, reads.peek headLen 8 (by simp only [headLen]; omega)
      (by decide), Option.bind_some]
    dsimp only
    rw [field_slice _ _ _ _ _ (by decide), Nat.add_zero, reads.bytes]
    split
    · exact Refused.mk _ _
    · next sound =>
        push Not at sound
        obtain ⟨length, nonempty, aligned, inside, insideWord⟩ := sound
        exact absurd ⟨length, nonempty, by simpa using inside, aligned,
          by simpa using insideWord⟩ bad
  · rw [if_neg long, Option.bind_some]
    dsimp only
    rw [if_pos (Or.inl (by omega))]
    exact Refused.mk _ _

theorem takeBondSignal_refuses (reads : msg.Reads content) {links : Nat}
    (named : (if (headOf content).kind = Kind.bondSignal.code then 2
      else (headOf content).pad) = links)
    (bad : ¬SignalFormed hooks recv.rx content links) :
    Refused recv (takeBondSignal hooks recv msg (headOf content)) := by
  unfold takeBondSignal
  rw [named]
  dsimp only
  generalize known : (if linksOf hooks ≠ 0 then linksOf hooks else 2) = expected
  by_cases sized : 2 ≤ links ∧ links ≤ tbBondMax ∧ links = expected ∧
      msg.bytes = headLen + 8 + links * 4
  · obtain ⟨least, most, agreed, length⟩ := sized
    have text : content.length = headLen + 8 + links * 4 :=
      reads.bytes ▸ length
    have few : links ≤ 24 := most
    rw [if_pos ⟨least, most, agreed, length⟩,
      reads.peek headLen (8 + links * 4) (by omega)
        (by simp only [headLen, tbPacket]; omega), Option.bind_some]
    cases hooks with
    | none => exact Refused.mk _ _
    | some own =>
        dsimp only
        rw [field_slice _ _ _ _ _ (by omega), Nat.add_zero]
        split
        · exact Refused.mk _ _
        · next sound =>
            push Not at sound
            obtain ⟨-, -, -, -, -, wordLen, aligned, inside, numbered⟩ := sound
            exact absurd ⟨rfl, least, most, agreed.trans known.symm, text,
              wordLen, aligned, by simpa using inside, numbered⟩ bad
  · rw [if_neg sized, Option.bind_some]
    cases hooks with
    | none => exact Refused.mk _ _
    | some own =>
        dsimp only
        rw [if_pos]
        · exact Refused.mk _ _
        · by_contra sound
          push Not at sound
          exact sized ⟨sound.1, sound.2.1, sound.2.2.1, sound.2.2.2.2.1⟩

theorem takeJoined_refuses (own : Hooks σ) (now : Nat)
    (reads : msg.Reads content)
    (bad : ¬Kind.bondWriteSignal.Formed (some own) recv.rx content) :
    Refused recv (takeJoined own now recv msg (headOf content)) := by
  unfold takeJoined
  split
  · exact Refused.mk _ _
  · next few =>
      by_cases long : bondWsHead ≤ msg.bytes
      · have within : bondWsHead ≤ content.length := reads.bytes ▸ long
        simp only [bondWsHead] at within
        rw [if_pos long, reads.peek headLen (bondWsHead - headLen)
          (by simp only [headLen, bondWsHead]; omega) (by decide),
          Option.bind_some]
        extract_lets soff sig need tail wait me announced
        split
        · exact Refused.mk _ _
        · next sound =>
            rw [reads.bytes] at sound
            push Not at sound
            obtain ⟨length, nonempty, aligned, inside, insideWord, tailInside,
              numbered, flagged, mine⟩ := sound
            have meSmall : own.lane % 2 < 2 := Nat.mod_lt _ (by decide)
            have soffRead : soff = field content headLen 8 :=
              field_slice _ _ _ _ _ (by decide)
            have sigRead : sig = field content (headLen + 8) 8 :=
              field_slice _ _ _ _ _ (by decide)
            have tailRead : tail = field content (headLen + 24) 4 :=
              field_slice _ _ _ _ _ (by decide)
            have mineRead : need me =
                field content (headLen + 16 + 4 * (own.lane % 2)) 4 := by
              refine (if_pos meSmall).trans ?_
              rw [field_slice _ _ _ _ _
                (by simp only [bondWsHead, headLen]; omega), Nat.add_assoc]
            rw [soffRead] at aligned insideWord
            rw [sigRead] at numbered
            rw [tailRead] at tailInside
            rw [mineRead] at mine
            exact absurd ⟨⟨length, nonempty, by simpa using inside, aligned,
              by simpa using insideWord⟩, numbered, by omega,
              fun some => by simpa using tailInside some, own, rfl, by omega,
              mine⟩ bad
      · rw [if_neg long, Option.bind_some]
        dsimp only
        rw [if_pos (Or.inl (by omega))]
        exact Refused.mk _ _

theorem takeInlineN_refuses (now : Nat) (reads : msg.Reads content)
    (bad : ¬Kind.bondInlineN.Formed hooks recv.rx content) :
    Refused recv (takeInlineN hooks now recv msg (headOf content)) := by
  unfold takeInlineN
  cases hooks with
  | none => exact Refused.mk _ _
  | some own =>
      dsimp only
      split
      · exact Refused.mk _ _
      · next sound =>
          rw [reads.bytes, reads.count] at sound
          push Not at sound
          obtain ⟨least, most, agreed, one, size, room, length, flags, nonempty,
            inside⟩ := sound
          change 2 ≤ padLinks content at least
          change padLinks content ≤ tbBondMax at most
          change padLinks content = own.links at agreed
          change headLen + 16 + padLinks content * 8 ≤ tbPacket at size
          change (headOf content).len ≤
            tbPacket - (headLen + 16 + padLinks content * 8) at room
          change content.length = headLen + 16 + padLinks content * 8 +
            (headOf content).len at length
          change Refused recv ((msg.peek headLen 16).bind fun front =>
            (msg.peek (headLen + 16) (padLinks content * 4)).bind fun needs =>
            (msg.peek (headLen + 16 + padLinks content * 4)
              (padLinks content * 4)).bind _)
          rw [reads.peek headLen 16 (by omega) (by decide), Option.bind_some,
            reads.peek (headLen + 16) (padLinks content * 4) (by omega)
              (by omega), Option.bind_some,
            reads.peek (headLen + 16 + padLinks content * 4)
              (padLinks content * 4) (by omega) (by omega), Option.bind_some]
          split
          · exact Refused.mk _ _
          · next marked =>
              push Not at marked
              obtain ⟨numbered, aligned, insideWord, mine⟩ := marked
              rw [field_slice _ _ _ _ _ (by decide)] at numbered aligned
              rw [field_slice _ _ _ _ _ (by decide)] at insideWord
              refine absurd ⟨⟨least, most, ⟨own, rfl, agreed⟩,
                by by_cases zero : padFlags content = 0
                   · exact Or.inl zero
                   · exact Or.inr (flags zero), nonempty,
                by simpa using inside⟩, by omega, length, numbered, aligned,
                by simpa using insideWord, own, rfl, ?_⟩ bad
              intro ours
              rw [field_slice _ _ _ _ _ (by omega)] at mine
              exact mine

theorem takeWriteN_refuses (now : Nat) (reads : msg.Reads content)
    (bad : ¬Kind.bondWriteN.Formed hooks recv.rx content) :
    Refused recv (takeWriteN hooks now recv msg (headOf content)) := by
  unfold takeWriteN
  cases hooks with
  | none => exact Refused.mk _ _
  | some own =>
      dsimp only
      split
      · exact Refused.mk _ _
      · next sound =>
          rw [reads.bytes] at sound
          push Not at sound
          obtain ⟨least, most, agreed, -, length, flags, numbered, nonempty,
            small, inside⟩ := sound
          exact absurd ⟨⟨least, most, ⟨own, rfl, agreed⟩,
            by by_cases zero : padFlags content = 0
               · exact Or.inl zero
               · exact Or.inr (flags zero), nonempty,
            by simpa using inside⟩, length, numbered, small⟩ bad

/-- A plain kind's code names the kind. -/
theorem plain_kind {code : Nat}
    (range : Kind.write.code ≤ code ∧ code ≤ Kind.fenceAck.code) :
    ∃ kind : Kind, code = kind.code ∧ (kind = .write ∨ kind = .inline ∨
      kind = .signal ∨ kind = .fence ∨ kind = .fenceAck) := by
  obtain ⟨low, high⟩ := range
  simp only [Kind.code] at low high
  interval_cases code
  · exact ⟨.write, rfl, by simp⟩
  · exact ⟨.inline, rfl, by simp⟩
  · exact ⟨.signal, rfl, by simp⟩
  · exact ⟨.fence, rfl, by simp⟩
  · exact ⟨.fenceAck, rfl, by simp⟩

theorem short_of_count (reads : msg.Reads content) (one : msg.count = 1) :
    content.length ≤ tbPacket := by
  rw [reads.count] at one
  simp only [packets, tbPacket] at *
  omega

/-- A plain header message that is not refused is in the format of its kind. -/
theorem formed_of_plainFault (reads : msg.Reads content)
    (one : msg.count = 1) (long : headLen ≤ content.length)
    (sound : plainFault recv.rx msg (headOf content) = none) :
    Formed hooks recv.rx content := by
  obtain ⟨marked, next, accepted, inline, write, aligned, plain, inside,
    insideWord⟩ := plainFault_eq_none.mp sound
  have short := short_of_count reads one
  rw [reads.bytes] at inline
  obtain ⟨kind, same, which⟩ := plain_kind plain
  have opens : recv.rx.accepted = none → kind = .fenceAck := fun absent =>
    Kind.code_injective (same.symm.trans (accepted absent))
  refine ⟨long, marked, next, kind, same, opens, ?_⟩
  rcases which with rfl | rfl | rfl | rfl | rfl
  · exact ⟨short, (write same).1, (write same).2,
      inside (same.le.trans (by decide))⟩
  · have length := inline same
    exact ⟨short, by omega, inside same.le⟩
  · exact ⟨short, aligned same, insideWord same⟩
  · exact short
  · exact short

/-- A header message outside the format of its kind is refused. -/
theorem takeHead_refuses (now : Nat) (reply : Reply)
    (reads : msg.Reads content) (bad : ¬Formed hooks recv.rx content) :
    Refused recv (takeHead hooks now reply recv msg (headOf content)) := by
  unfold takeHead
  split
  · exact Refused.mk _ _
  · next long =>
      rw [reads.bytes, Nat.not_lt] at long
      -- a head next in sequence as some kind fails by that kind's format
      have outside : ∀ kind : Kind, isNext recv.rx (headOf content) kind →
          ¬kind.Formed hooks recv.rx content := by
        intro kind ready formed
        exact bad ⟨long, ready.1, ready.2.2.1, kind, ready.2.1,
          fun absent => absurd absent ready.2.2.2, formed⟩
      split
      · next joined =>
          cases hooks with
          | none => exact Refused.mk _ _
          | some own =>
              exact takeJoined_refuses own now reads (outside _ joined.1)
      · split
        · next fused => exact takeWriteSignal_refuses reads (outside _ fused)
        · split
          · next signalled =>
              rcases signalled with two | many
              · exact takeBondSignal_refuses reads (if_pos two.2.1)
                  (outside _ two)
              · refine takeBondSignal_refuses reads (if_neg ?_)
                  (outside _ many)
                rw [many.2.1]
                decide
          · split
            · next inlined =>
                exact takeInlineN_refuses now reads (outside _ inlined)
            · split
              · next written =>
                  exact takeWriteN_refuses now reads (outside _ written)
              · unfold takePlain
                split
                · exact Refused.mk _ _
                · next one =>
                    split
                    · exact Refused.mk _ _
                    · next sound =>
                        exact absurd (formed_of_plainFault reads
                          (not_not.mp one) long sound) bad

/-- A message outside its format is given up before it stores anything. -/
theorem take_refuses (now : Nat) (reply : Reply) (reads : msg.Reads content)
    (bad : Violates hooks recv content) :
    Refused recv (take hooks now reply recv msg) := by
  unfold take
  unfold Violates at bad
  split
  · next wanted =>
      rw [if_pos wanted] at bad
      unfold takePayload
      rw [reads.bytes, if_pos bad]
      exact Refused.mk _ _
  · next idle =>
      rw [if_neg idle] at bad
      have raw := reads.peek 0 (min content.length headLen) (by omega)
        (by simp only [headLen, tbPacket]; omega)
      rw [reads.bytes, raw, Option.bind_some]
      cases hooks with
      | none =>
          rw [if_neg (by simp [TailShaped])] at bad
          exact takeHead_refuses now reply reads bad
      | some own =>
          change Refused recv (if recv.rx.accepted ≠ none ∧
              (content.length < 4 ∨ (headOf content).magic ≠ magic) then _
            else takeHead (some own) now reply recv msg (headOf content))
          split
          · next headless =>
              rw [if_pos ⟨rfl, headless⟩] at bad
              obtain ⟨_, told, bond, ⟨⟩, answer, differs⟩ := bad
              unfold takeTail
              rw [answer]
              dsimp only
              rw [reads.bytes, if_pos differs]
              exact ⟨_, _, rfl, rfl⟩
          · next headed =>
              rw [if_neg (fun tail => headed tail.2)] at bad
              exact takeHead_refuses now reply reads bad

/-- Such a message poisons the link and changes nothing in the window. -/
theorem drainOne_refuses (now : Nat) (reply : Reply)
    (reads : msg.Reads content) (sane : recv.rx.why = none)
    (bad : Violates hooks recv content) :
    ∃ after, drainOne hooks now reply recv msg = some (after, .failed) ∧
      after.rx.why ≠ none ∧ after.stores = recv.stores := by
  obtain ⟨kept, why, same, stores⟩ := take_refuses now reply reads bad
  unfold drainOne
  rw [if_neg (by simpa using sane), same]
  exact ⟨kept.poison why, rfl, by simp [Recv.poison], stores⟩

/-- A poisoned link takes nothing more. -/
theorem drainOne_poisoned (now : Nat) (reply : Reply)
    (failed : recv.rx.why ≠ none) :
    drainOne hooks now reply recv msg = some (recv, .failed) := by
  unfold drainOne
  rw [if_pos failed]

end

end Link
end Mcdma
