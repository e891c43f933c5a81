import Mcdma.Link.Chain
import Mcdma.Link.Contain

/-!
# Messages of a single link

The messages two ends exchange over one link that is in no bond: writes, signals,
fences and their answers.  A receiver that stands where such a message fits takes
it with exactly the stores its sender meant, from a ring as from the message's
bytes.
-/

namespace Mcdma
namespace Link

/-- A message of a single link whose receiver may be written in `range`. -/
def Post.Plain (range : Nat × Nat) : Post → Prop
  | .inline _ _ roff bytes => bytes ≠ [] ∧ bytes.length ≤ inlineMax ∧
      range.1 ≤ roff ∧ roff + bytes.length ≤ range.2
  | .write _ _ roff bytes => bytes ≠ [] ∧ bytes.length ≤ tbMsg ∧
      range.1 ≤ roff ∧ roff + bytes.length ≤ range.2
  | .payload _ _ bytes => bytes ≠ [] ∧ bytes.length ≤ tbMsg
  | .signal _ soff value => WordAt range soff ∧ value < 2 ^ 64
  | .fence _ value => value < 2 ^ 32
  | .fenceAck _ value => value < 2 ^ 32
  | .writeSignal _ _ roff bytes soff value => bytes ≠ [] ∧
      bytes.length + wsHead ≤ tbMsg ∧ range.1 ≤ roff ∧
      roff + bytes.length ≤ range.2 ∧ WordAt range soff ∧ value < 2 ^ 64
  | _ => False

/-- The number a fence's answer carries. -/
def Post.ack? : Post → Option Nat
  | .fenceAck _ value => some value
  | _ => none

section

variable {range : Nat × Nat} {recv : Recv Unit} {pos next : Pos} {post : Post}
variable {reply : Reply}

/-- What taking a message of a single link leaves. -/
structure TookPlain (range : Nat × Nat) (recv : Recv Unit) (post : Post)
    (next : Pos) (after : Recv Unit) : Prop where
  stands : At range after.rx next
  why : after.rx.why = recv.rx.why
  stores : after.stores = recv.stores ++ post.stores 0
  acked : after.rx.fenceAcked = post.ack?.getD recv.rx.fenceAcked

/-- A message that fits the receiver's position is taken with the stores its
sender meant. -/
theorem take_plain_post (now : Nat) (fits : range.2 < 2 ^ 64)
    (stands : At range recv.rx pos) (step : post.step pos = some next)
    (plain : post.Plain range) (room : post.answer?.isSome → reply = .sent) :
    ∃ after, take none now reply recv post.msg =
        some (after, .taken post.answer?) ∧
      TookPlain range recv post next after := by
  cases post with
  | inline seq ord roff bytes =>
      obtain ⟨nonempty, short, low, high⟩ := plain
      simp only [Post.step] at step
      split at step
      · next number =>
          obtain ⟨idle, same, rfl⟩ := Pos.past_eq step
          refine ⟨_, take_inline (stands.idle idle)
            (stands.seq.trans same.symm) (same ▸ stands.seqFits) (by omega)
            short (stands.within low high),
            stands.past idle 1 rfl rfl rfl rfl, rfl, ?_, rfl⟩
          simp [Recv.placed, Recv.copy, Recv.nextSeq, Post.stores, laneOf,
            number, stands.writes]
      · simp at step
  | write seq ord roff bytes =>
      obtain ⟨nonempty, small, low, high⟩ := plain
      obtain ⟨idle, same, -, rfl⟩ := Pos.pastHeader_eq step
      exact ⟨_, take_write (stands.idle idle) (stands.seq.trans same.symm)
        (same ▸ stands.seqFits) (by omega) nonempty small
        (stands.within low high), stands.pastHeader nonempty, rfl,
        (List.append_nil _).symm, rfl⟩
  | payload ord roff bytes =>
      simp only [Post.step] at step
      split at step
      · next fitting =>
          obtain ⟨wanted, number⟩ := fitting
          have final := Option.some.inj step
          subst final
          obtain ⟨nonempty, offset, length⟩ := stands.wanted roff bytes wanted
          refine ⟨_, take_payload nonempty length, ?_, rfl, ?_, rfl⟩
          · exact ⟨stands.accepted, stands.seq, stands.seqFits, by
              rw [number, ← stands.writes]; rfl, fun _ => rfl, by simp⟩
          · simp [Recv.placed, Recv.copy, Recv.want, Post.stores, laneOf,
              number, stands.writes, offset]
      · simp at step
  | signal seq soff value =>
      obtain ⟨⟨aligned, low, high⟩, valueFits⟩ := plain
      obtain ⟨idle, same, rfl⟩ := Pos.past_eq step
      exact ⟨_, take_signal (stands.idle idle) (stands.seq.trans same.symm)
        (same ▸ stands.seqFits) (by omega) valueFits aligned
        (stands.within low high), stands.past idle 0 rfl rfl rfl rfl, rfl, rfl,
        rfl⟩
  | fence seq value =>
      obtain ⟨idle, same, rfl⟩ := Pos.past_eq step
      have sent := room rfl
      subst sent
      refine ⟨recv.nextSeq, ?_, stands.past idle 0 rfl rfl rfl rfl, rfl,
        (List.append_nil _).symm, rfl⟩
      rw [take_fence (stands.idle idle) (stands.seq.trans same.symm)
        (same ▸ stands.seqFits) (lt_trans plain (by decide))
        (by rw [stands.accepted]; simp)]
      rfl
  | fenceAck seq value =>
      obtain ⟨idle, same, rfl⟩ := Pos.past_eq step
      exact ⟨_, take_fenceAck (stands.idle idle) (stands.seq.trans same.symm)
        (same ▸ stands.seqFits) (lt_trans plain (by decide)),
        stands.past idle 0 rfl rfl rfl rfl, rfl, (List.append_nil _).symm,
        Nat.mod_eq_of_lt plain⟩
  | writeSignal seq ord roff bytes soff value =>
      obtain ⟨nonempty, small, low, high, ⟨aligned, lowWord, highWord⟩,
        valueFits⟩ := plain
      simp only [Post.step] at step
      split at step
      · next number =>
          obtain ⟨idle, same, rfl⟩ := Pos.past_eq step
          refine ⟨_, take_writeSignal (stands.idle idle)
            (stands.seq.trans same.symm) (same ▸ stands.seqFits) (by omega)
            (by omega) valueFits nonempty small (stands.within low high)
            aligned (stands.within lowWord highWord),
            stands.past idle 1 rfl rfl rfl rfl, rfl, ?_, rfl⟩
          simp [Recv.placed, Recv.copy, Recv.nextSeq, Recv.storeWord,
            Post.stores, laneOf, number, stands.writes]
      · simp at step
  | _ => simp [Post.Plain] at plain

/-- A fence that cannot be answered stays where it is. -/
theorem take_plain_waits (now : Nat) (stands : At range recv.rx pos)
    (step : post.step pos = some next) (plain : post.Plain range)
    (asks : post.answer?.isSome) :
    take none now .noRoom recv post.msg = some (recv, .notYet) := by
  cases post with
  | fence seq value =>
      obtain ⟨idle, same, rfl⟩ := Pos.past_eq step
      rw [take_fence (stands.idle idle) (stands.seq.trans same.symm)
        (same ▸ stands.seqFits) (lt_trans plain (by decide))
        (by rw [stands.accepted]; simp)]
  | _ => simp [Post.answer?] at asks

/-- One round of `drain` over such a message, read from the ring. -/
theorem drainOne_plain {msg : Msg} (now : Nat) (fits : range.2 < 2 ^ 64)
    (reads : msg.Reads post.wire) (sane : recv.rx.why = none)
    (stands : At range recv.rx pos) (step : post.step pos = some next)
    (plain : post.Plain range) (room : post.answer?.isSome → reply = .sent) :
    ∃ after, drainOne none now reply recv msg =
        some (after, .taken post.answer?) ∧
      TookPlain range recv post next after := by
  obtain ⟨after, taken, took⟩ :=
    take_plain_post now fits stands step plain room
  unfold drainOne
  rw [if_neg (by simpa using sane),
    take_congr now reply reads (Msg.reads_ofBytes post.wire)]
  change ∃ final, ((take none now reply recv post.msg).map _ = _) ∧ _
  rw [taken, Option.map_some]
  exact ⟨_, rfl, took.stands.timer 0 _, took.why, took.stores, took.acked⟩

theorem drainOne_plain_waits {msg : Msg} (now : Nat)
    (reads : msg.Reads post.wire) (sane : recv.rx.why = none)
    (stands : At range recv.rx pos) (step : post.step pos = some next)
    (plain : post.Plain range) (asks : post.answer?.isSome) :
    drainOne none now .noRoom recv msg = some (recv, .notYet) := by
  have waits := take_plain_waits now stands step plain asks
  unfold drainOne
  rw [if_neg (by simpa using sane),
    take_congr now .noRoom reads (Msg.reads_ofBytes post.wire)]
  change (take none now .noRoom recv post.msg).map _ = _
  rw [waits]
  rfl

end

end Link
end Mcdma
