import Mcdma.Link.Ring

/-!
# Containment of arbitrary messages

Whatever bytes a message holds, taking it reads only its own bytes, stores only
inside the accepted range, and hands the bond only signal words that lie in that
range and are aligned.  The hooks of a bond are a parameter; what is asked of
them is that they store and keep only what they were handed.
-/

namespace Mcdma
namespace Link

open Bytes

/-- Whether a store is a signal's word. -/
def Tag.isWord : Tag → Bool
  | .placed _ _ => false
  | .published _ => true
  | .word => true

/-- An offset at which a signal's word lies inside a range, aligned. -/
def WordAt (range : Nat × Nat) (off : Nat) : Prop :=
  off % 8 = 0 ∧ range.1 ≤ off ∧ off + 8 ≤ range.2

instance (range : Nat × Nat) (off : Nat) : Decidable (WordAt range off) :=
  inferInstanceAs (Decidable (_ ∧ _))

/-- A store inside a range, whose word is aligned if it is a signal's. -/
structure Within (range : Nat × Nat) (store : Store) : Prop where
  low : range.1 ≤ store.patch.off
  high : store.patch.stop ≤ range.2
  word : store.tag.isWord = true →
    store.patch.off % 8 = 0 ∧ store.patch.bytes.length = 8

/-- Hooks that store and keep only signals they were handed inside a range. -/
structure Hooks.Keeps {σ : Type} (hooks : Hooks σ) (safe : σ → Prop)
    (range : Nat × Nat) : Prop where
  placed : ∀ bond count, safe bond → safe (hooks.placed bond count).1 ∧
    ∀ store ∈ (hooks.placed bond count).2, Within range store
  signal : ∀ bond sig need off value, safe bond → WordAt range off →
    safe (hooks.signal bond sig need off value).1.1 ∧
    ∀ store ∈ (hooks.signal bond sig need off value).1.2, Within range store
  announce : ∀ bond tail, safe bond → safe (hooks.announce bond tail).1
  tail : ∀ bond told after, safe bond → hooks.tail bond = some (told, after) →
    safe after

/-- A receiving end that has stayed inside its range. -/
structure Guarded {σ : Type} (safe : σ → Prop) (range : Nat × Nat)
    (recv : Recv σ) : Prop where
  accepted : recv.rx.accepted = none ∨ recv.rx.accepted = some range
  want : recv.rx.wantLen ≠ 0 →
    recv.rx.inside recv.rx.wantOff recv.rx.wantLen = true
  bond : safe recv.bond
  stores : ∀ store ∈ recv.stores, Within range store

section

variable {σ : Type} {safe : σ → Prop} {range : Nat × Nat} {recv : Recv σ}
variable {hooks : Option (Hooks σ)} {msg : Msg} {content : List UInt8}

/-- A range inside what the peer may write lies in the accepted range. -/
theorem Guarded.bounds (guarded : Guarded safe range recv) {off len : Nat}
    (inside : recv.rx.inside off len = true) :
    range.1 ≤ off ∧ off + len ≤ range.2 := by
  rcases guarded.accepted with absent | present
  · simp [Rx.inside, absent] at inside
  · simp only [Rx.inside, present, decide_eq_true_eq] at inside
    omega

theorem Guarded.wordAt (guarded : Guarded safe range recv) {off : Nat}
    (aligned : off % 8 = 0) (inside : recv.rx.inside off 8 = true) :
    WordAt range off :=
  ⟨aligned, guarded.bounds inside⟩

/-- A result that is there and leaves the end inside its range. -/
def Stays (safe : σ → Prop) (range : Nat × Nat)
    (taken : Option (Recv σ × Taken)) : Prop :=
  ∃ after result, taken = some (after, result) ∧ Guarded safe range after

theorem Guarded.poison (guarded : Guarded safe range recv) (why : String) :
    Guarded safe range (recv.poison why) :=
  ⟨guarded.accepted, guarded.want, guarded.bond, guarded.stores⟩

theorem Guarded.fail (guarded : Guarded safe range recv) (why : String) :
    Stays safe range (recv.fail why) :=
  ⟨_, _, rfl, guarded.poison why⟩

theorem Guarded.nextSeq (guarded : Guarded safe range recv) :
    Guarded safe range recv.nextSeq :=
  ⟨guarded.accepted, guarded.want, guarded.bond, guarded.stores⟩

theorem Guarded.wants (guarded : Guarded safe range recv) {off len : Nat}
    (inside : len ≠ 0 → recv.rx.inside off len = true) :
    Guarded safe range (recv.want off len) :=
  ⟨guarded.accepted, inside, guarded.bond, guarded.stores⟩

theorem Guarded.stall (guarded : Guarded safe range recv) (now : Nat)
    (why : String) : Stays safe range (recv.stall now why) := by
  unfold Recv.stall
  split
  · exact ⟨_, _, rfl, guarded.accepted, guarded.want, guarded.bond,
      guarded.stores⟩
  · split
    · exact guarded.fail why
    · exact ⟨_, _, rfl, guarded⟩

/-- Stores inside the range keep an end inside it. -/
theorem Guarded.store (guarded : Guarded safe range recv)
    {added : List Store} (inside : ∀ store ∈ added, Within range store) :
    Guarded safe range { recv with stores := recv.stores ++ added } := by
  refine ⟨guarded.accepted, guarded.want, guarded.bond, ?_⟩
  intro store member
  rcases List.mem_append.mp member with earlier | mine
  · exact guarded.stores store earlier
  · exact inside store mine

theorem Guarded.copy (guarded : Guarded safe range recv) (lane off : Nat)
    (bytes : List UInt8)
    (inside : recv.rx.inside off bytes.length = true) :
    Guarded safe range (recv.copy lane off bytes) := by
  have bounds := guarded.bounds inside
  refine guarded.store ?_
  intro store mine
  rw [List.mem_singleton.mp mine]
  exact ⟨bounds.1, bounds.2, by simp [Tag.isWord]⟩

theorem Guarded.storeWord (guarded : Guarded safe range recv) {off : Nat}
    (value : Nat) (word : WordAt range off) :
    Guarded safe range (recv.storeWord off value) := by
  refine guarded.store ?_
  intro store mine
  rw [List.mem_singleton.mp mine]
  refine ⟨word.2.1, ?_, fun _ => ⟨word.1, by simp⟩⟩
  simpa [Patch.stop] using word.2.2

/-- Keeping the bond safe and its stores inside keeps the end inside. -/
theorem Guarded.hook (guarded : Guarded safe range recv) {bond : σ}
    {added : List Store} (kept : safe bond)
    (inside : ∀ store ∈ added, Within range store) :
    Guarded safe range
      { recv with bond := bond, stores := recv.stores ++ added } := by
  have stored := guarded.store inside
  exact ⟨stored.accepted, stored.want, kept, stored.stores⟩

theorem Guarded.placed (guarded : Guarded safe range recv)
    (keeps : ∀ own, hooks = some own → own.Keeps safe range) :
    Guarded safe range (recv.placed hooks) := by
  cases hooks with
  | none =>
      exact ⟨guarded.accepted, guarded.want, guarded.bond, guarded.stores⟩
  | some own =>
      obtain ⟨kept, inside⟩ := (keeps own rfl).placed recv.bond
        (recv.rx.writesPlaced + 1) guarded.bond
      have hooked := guarded.hook kept inside
      exact ⟨hooked.accepted, hooked.want, hooked.bond, hooked.stores⟩

/-- Handing over a signal that lies inside the range. -/
theorem Guarded.signal {own : Hooks σ} (guarded : Guarded safe range recv)
    (keeps : own.Keeps safe range) (sig : Nat) (need : Nat → Nat) {off : Nat}
    (value : Nat) (word : WordAt range off) :
    Guarded safe range (recv.signal own sig need off value).1 := by
  obtain ⟨kept, inside⟩ :=
    keeps.signal recv.bond sig need off value guarded.bond word
  exact guarded.hook kept inside

/-- Taking or refusing what was handed over. -/
theorem Guarded.handed {handed : Recv σ × Bool} (why : String)
    (guarded : Guarded safe range handed.1) :
    Stays safe range (if handed.2 then some (handed.1, .taken none)
      else handed.1.fail why) := by
  split
  · exact ⟨_, _, rfl, guarded⟩
  · exact guarded.fail why

/-! ## The parts of `take` -/

theorem takePayload_stays (guarded : Guarded safe range recv)
    (keeps : ∀ own, hooks = some own → own.Keeps safe range)
    (reads : msg.Reads content) (wanted : recv.rx.wantLen ≠ 0) :
    Stays safe range (takePayload hooks recv msg) := by
  unfold takePayload
  split
  · exact guarded.fail _
  · next same =>
      have length : content.length = recv.rx.wantLen := by
        rw [← reads.bytes]
        exact not_not.mp same
      rw [reads.bytes, reads.copySkip 0 content.length (by omega), slice_self,
        Option.bind_some]
      have copied := guarded.copy (laneOf hooks) recv.rx.wantOff content
        (by rw [length]; exact guarded.want wanted)
      exact ⟨_, _, rfl, (copied.wants (by simp)).placed keeps⟩

theorem takeTail_stays {own : Hooks σ} (now : Nat)
    (guarded : Guarded safe range recv) (keeps : own.Keeps safe range)
    (reads : msg.Reads content) :
    Stays safe range (takeTail own now recv msg) := by
  unfold takeTail
  split
  · exact guarded.stall now _
  · next told bond answer =>
      have kept := keeps.tail _ _ _ guarded.bond answer
      have moved : Guarded safe range { recv with bond := bond } :=
        ⟨guarded.accepted, guarded.want, kept, guarded.stores⟩
      dsimp only
      split
      · exact moved.fail _
      · next sound =>
          push Not at sound
          obtain ⟨length, -, inside⟩ := sound
          rw [ne_eq, Bool.not_eq_false] at inside
          rw [reads.bytes] at length
          rw [reads.bytes, reads.copySkip 0 content.length (by omega),
            slice_self, Option.bind_some]
          have copied := moved.nextSeq.copy own.lane told.off content
            (by rw [length]; exact inside)
          exact ⟨_, _, rfl, copied.placed (by
            rintro _ ⟨⟩
            exact keeps)⟩

theorem takeWriteSignal_stays (guarded : Guarded safe range recv)
    (keeps : ∀ own, hooks = some own → own.Keeps safe range)
    (reads : msg.Reads content) (head : Head) :
    Stays safe range (takeWriteSignal hooks recv msg head) := by
  unfold takeWriteSignal
  have front : ∃ rest, (if wsHead ≤ msg.bytes then msg.peek headLen 8
      else some []) = some rest := by
    split
    · next long =>
        rw [reads.bytes] at long
        simp only [wsHead, headLen] at *
        exact ⟨_, reads.peek 32 8 (by omega) (by decide)⟩
    · exact ⟨_, rfl⟩
  obtain ⟨rest, same⟩ := front
  rw [same, Option.bind_some]
  dsimp only
  split
  · exact guarded.fail _
  · next sound =>
      push Not at sound
      obtain ⟨length, -, aligned, inside, insideWord⟩ := sound
      rw [ne_eq, Bool.not_eq_false] at inside insideWord
      rw [reads.bytes] at length
      rw [reads.copySkip wsHead head.len length.ge, Option.bind_some]
      have cut := length_slice content wsHead head.len length.ge
      have copied := guarded.nextSeq.copy (laneOf hooks) head.off
        (slice content wsHead head.len) (by rw [cut]; exact inside)
      exact ⟨_, _, rfl, (copied.placed keeps).storeWord _
        (guarded.wordAt aligned insideWord)⟩

theorem takeBondSignal_stays (guarded : Guarded safe range recv)
    (keeps : ∀ own, hooks = some own → own.Keeps safe range)
    (reads : msg.Reads content) (head : Head) :
    Stays safe range (takeBondSignal hooks recv msg head) := by
  unfold takeBondSignal
  dsimp only
  generalize (if head.kind = Kind.bondSignal.code then 2 else head.pad) = links
  generalize (if linksOf hooks ≠ 0 then linksOf hooks else 2) = expected
  have front : ∃ rest, (if 2 ≤ links ∧ links ≤ tbBondMax ∧ links = expected ∧
      msg.bytes = headLen + 8 + links * 4 then
        msg.peek headLen (8 + links * 4) else some []) = some rest := by
    split
    · next sound =>
        obtain ⟨-, few, -, length⟩ := sound
        rw [reads.bytes] at length
        simp only [headLen, tbBondMax] at *
        exact ⟨_, reads.peek 32 (8 + links * 4) (by omega)
          (by simp only [tbPacket]; omega)⟩
    · exact ⟨_, rfl⟩
  obtain ⟨rest, same⟩ := front
  rw [same, Option.bind_some]
  cases hooks with
  | none => exact guarded.fail _
  | some own =>
      dsimp only
      split
      · exact guarded.fail _
      · next sound =>
          push Not at sound
          obtain ⟨-, -, -, -, -, -, aligned, inside, -⟩ := sound
          rw [ne_eq, Bool.not_eq_false] at inside
          exact Guarded.handed _ (guarded.nextSeq.signal (keeps own rfl) _ _ _
            (guarded.wordAt aligned inside))

theorem takeJoined_stays {own : Hooks σ} (now : Nat)
    (guarded : Guarded safe range recv) (keeps : own.Keeps safe range)
    (reads : msg.Reads content) (head : Head) :
    Stays safe range (takeJoined own now recv msg head) := by
  unfold takeJoined
  split
  · exact guarded.fail _
  · have front : ∃ rest, (if bondWsHead ≤ msg.bytes then
        msg.peek headLen (bondWsHead - headLen) else some []) = some rest := by
      split
      · next long =>
          rw [reads.bytes] at long
          simp only [bondWsHead, headLen] at *
          exact ⟨_, reads.peek 32 (64 - 32) (by omega) (by decide)⟩
      · exact ⟨_, rfl⟩
    obtain ⟨rest, same⟩ := front
    rw [same, Option.bind_some]
    extract_lets soff sig need tail wait me announced
    split
    · exact guarded.fail _
    · next sound =>
        push Not at sound
        obtain ⟨length, -, aligned, inside, insideWord, -⟩ := sound
        rw [ne_eq, Bool.not_eq_false] at inside insideWord
        rw [reads.bytes] at length
        split
        · exact guarded.fail _
        · exact guarded.stall now _
        · split
          · exact guarded.stall now _
          · rw [reads.copySkip bondWsHead head.len length.ge, Option.bind_some]
            have cut := length_slice content bondWsHead head.len length.ge
            refine Guarded.handed _ (Guarded.signal (Guarded.placed
              (Guarded.copy (Guarded.nextSeq ?_) own.lane _ _ ?_) (by
                rintro _ ⟨⟩
                exact keeps)) keeps _ _ _
              (guarded.wordAt aligned insideWord))
            · refine ⟨guarded.accepted, guarded.want, ?_, guarded.stores⟩
              change safe announced.1
              unfold announced
              split
              · exact keeps.announce _ _ guarded.bond
              · exact guarded.bond
            · rw [cut]
              exact inside

theorem takeInlineN_stays (now : Nat) (guarded : Guarded safe range recv)
    (keeps : ∀ own, hooks = some own → own.Keeps safe range)
    (reads : msg.Reads content) (head : Head) :
    Stays safe range (takeInlineN hooks now recv msg head) := by
  unfold takeInlineN
  cases hooks with
  | none => exact guarded.fail _
  | some own =>
      have mine := keeps own rfl
      dsimp only
      split
      · exact guarded.fail _
      · next sound =>
          push Not at sound
          obtain ⟨-, few, -, -, size, room, length, -, -, inside⟩ := sound
          rw [ne_eq, Bool.not_eq_false] at inside
          rw [reads.bytes] at length
          generalize head.pad / 256 = links at *
          simp only [headLen] at *
          rw [reads.peek 32 16 (by omega) (by decide), Option.bind_some,
            reads.peek (32 + 16) (links * 4) (by omega) (by omega),
            Option.bind_some,
            reads.peek (32 + 16 + links * 4) (links * 4) (by omega) (by omega),
            Option.bind_some]
          split
          · exact guarded.fail _
          · next marked =>
              push Not at marked
              obtain ⟨-, aligned, insideWord, -⟩ := marked
              rw [ne_eq, Bool.not_eq_false] at insideWord
              split
              · exact guarded.fail _
              · exact guarded.stall now _
              · rw [reads.peek (32 + 16 + links * 8) head.len (by omega)
                  (by omega), Option.bind_some]
                have cut := length_slice content (32 + 16 + links * 8) head.len
                  (by omega)
                have copied := guarded.copy own.lane head.off
                  (slice content (32 + 16 + links * 8) head.len)
                  (by rw [cut]; exact inside)
                exact Guarded.handed _ ((copied.placed (by
                  rintro _ ⟨⟩
                  exact mine)).nextSeq.signal mine _ _ _
                    (guarded.wordAt aligned insideWord))

theorem takeWriteN_stays (now : Nat) (guarded : Guarded safe range recv)
    (reads : msg.Reads content) (head : Head) :
    Stays safe range (takeWriteN hooks now recv msg head) := by
  unfold takeWriteN
  cases hooks with
  | none => exact guarded.fail _
  | some own =>
      dsimp only
      split
      · exact guarded.fail _
      · next sound =>
          push Not at sound
          obtain ⟨-, few, -, -, length, -, -, -, -, inside⟩ := sound
          rw [ne_eq, Bool.not_eq_false] at inside
          rw [reads.bytes] at length
          simp only [headLen, tbBondMax] at *
          rw [reads.peek 32 _ length.ge (by simp only [tbPacket]; omega),
            Option.bind_some]
          split
          · exact guarded.fail _
          · exact guarded.stall now _
          · exact ⟨_, _, rfl, guarded.nextSeq.wants fun _ => inside⟩

theorem fault_eq_none {fault : Prop} [Decidable fault] {why : String}
    {rest : Option String} :
    (if fault then some why else rest) = none ↔ ¬fault ∧ rest = none := by
  split <;> simp_all

/-- What a plain header message that is not refused satisfies. -/
theorem plainFault_eq_none {rx : Rx} {head : Head} :
    plainFault rx msg head = none ↔
      head.magic = magic ∧ head.seq = rx.rxSeq ∧
      (rx.accepted = none → head.kind = Kind.fenceAck.code) ∧
      (head.kind = Kind.inline.code → head.len = msg.bytes - headLen) ∧
      (head.kind = Kind.write.code → head.len ≠ 0 ∧ head.len ≤ tbMsg) ∧
      (head.kind = Kind.signal.code → head.off % 8 = 0) ∧
      (Kind.write.code ≤ head.kind ∧ head.kind ≤ Kind.fenceAck.code) ∧
      (head.kind ≤ Kind.inline.code → rx.inside head.off head.len = true) ∧
      (head.kind = Kind.signal.code → rx.inside head.off 8 = true) := by
  simp only [plainFault, fault_eq_none, and_true]
  simp only [not_and, not_or, Nat.not_lt, ne_eq, not_not, Bool.not_eq_false]

theorem takePlain_stays (reply : Reply) (guarded : Guarded safe range recv)
    (keeps : ∀ own, hooks = some own → own.Keeps safe range)
    (reads : msg.Reads content) (head : Head) (long : headLen ≤ msg.bytes) :
    Stays safe range (takePlain hooks reply recv msg head) := by
  unfold takePlain
  split
  · exact guarded.fail _
  · next one =>
      have short : content.length ≤ tbPacket := by
        rw [reads.count] at one
        simp only [packets, tbPacket] at *
        omega
      split
      · exact guarded.fail _
      · next sound =>
          obtain ⟨-, -, -, inline, -, aligned, -, inside, insideWord⟩ :=
            plainFault_eq_none.mp sound
          split
          · cases reply with
            | noRoom => exact ⟨_, _, rfl, guarded⟩
            | refused => exact guarded.fail _
            | sent => exact ⟨_, _, rfl, guarded.nextSeq⟩
          · split
            · next isInline =>
                have length := inline isInline
                rw [reads.bytes] at length long
                simp only [headLen] at *
                rw [reads.peek 32 head.len (by omega) (by omega),
                  Option.bind_some]
                have cut := length_slice content 32 head.len (by omega)
                have copied := guarded.nextSeq.copy (laneOf hooks) head.off
                  (slice content 32 head.len)
                  (by rw [cut]; exact inside isInline.le)
                exact ⟨_, _, rfl, copied.placed keeps⟩
            · split
              · next isWrite =>
                  exact ⟨_, _, rfl, guarded.nextSeq.wants fun _ =>
                    inside (isWrite.le.trans (by decide))⟩
              · split
                · next isSignal =>
                    exact ⟨_, _, rfl, guarded.nextSeq.storeWord _
                      (guarded.wordAt (aligned isSignal)
                        (insideWord isSignal))⟩
                · exact ⟨_, _, rfl, guarded.accepted, guarded.want,
                    guarded.bond, guarded.stores⟩

/-- Taking any message reads only its own bytes and stays inside the accepted
range. -/
theorem take_stays (now : Nat) (reply : Reply)
    (guarded : Guarded safe range recv)
    (keeps : ∀ own, hooks = some own → own.Keeps safe range)
    (reads : msg.Reads content) :
    Stays safe range (take hooks now reply recv msg) := by
  have dispatch : ∀ head, Stays safe range
      (takeHead hooks now reply recv msg head) := by
    intro head
    unfold takeHead
    split
    · exact guarded.fail _
    · next long =>
        rw [Nat.not_lt] at long
        split
        · cases hooks with
          | none => exact guarded.fail _
          | some own =>
              exact takeJoined_stays now guarded (keeps own rfl) reads head
        · split
          · exact takeWriteSignal_stays guarded keeps reads head
          · split
            · exact takeBondSignal_stays guarded keeps reads head
            · split
              · exact takeInlineN_stays now guarded keeps reads head
              · split
                · exact takeWriteN_stays now guarded reads head
                · exact takePlain_stays reply guarded keeps reads head long
  unfold take
  split
  · next wanted => exact takePayload_stays guarded keeps reads wanted
  · have raw := reads.peek 0 (min content.length headLen) (by omega)
      (by simp only [headLen, tbPacket]; omega)
    rw [reads.bytes, raw, Option.bind_some]
    cases hooks with
    | none => exact dispatch _
    | some own =>
        dsimp only
        split
        · exact takeTail_stays now guarded (keeps own rfl) reads
        · exact dispatch _

theorem drainOne_stays (now : Nat) (reply : Reply)
    (guarded : Guarded safe range recv)
    (keeps : ∀ own, hooks = some own → own.Keeps safe range)
    (reads : msg.Reads content) :
    Stays safe range (drainOne hooks now reply recv msg) := by
  unfold drainOne
  split
  · exact ⟨_, _, rfl, guarded⟩
  · obtain ⟨after, result, same, kept⟩ :=
      take_stays now reply guarded keeps reads
    rw [same, Option.map_some]
    cases result with
    | taken answer =>
        exact ⟨_, _, rfl, kept.accepted, kept.want, kept.bond, kept.stores⟩
    | notYet => exact ⟨_, _, rfl, kept⟩
    | failed => exact ⟨_, _, rfl, kept⟩

end

/-! ## The bytes decide -/

section

variable {σ : Type} {recv : Recv σ} {hooks : Option (Hooks σ)}
variable {msg other : Msg} {content : List UInt8}

theorem takePayload_congr (reads : msg.Reads content)
    (also : other.Reads content) :
    takePayload hooks recv msg = takePayload hooks recv other := by
  unfold takePayload
  rw [reads.bytes, also.bytes, reads.copySkip 0 content.length (by omega),
    also.copySkip 0 content.length (by omega)]

theorem takeTail_congr (own : Hooks σ) (now : Nat) (reads : msg.Reads content)
    (also : other.Reads content) :
    takeTail own now recv msg = takeTail own now recv other := by
  unfold takeTail
  rw [reads.bytes, also.bytes, reads.copySkip 0 content.length (by omega),
    also.copySkip 0 content.length (by omega)]

theorem takeWriteSignal_congr (head : Head) (reads : msg.Reads content)
    (also : other.Reads content) :
    takeWriteSignal hooks recv msg head =
      takeWriteSignal hooks recv other head := by
  unfold takeWriteSignal
  rw [reads.bytes, also.bytes]
  by_cases same : content.length = wsHead + head.len
  · have long : wsHead ≤ content.length := by omega
    rw [if_pos long, if_pos long,
      reads.peek headLen 8 (by simp only [wsHead, headLen] at *; omega)
        (by decide),
      also.peek headLen 8 (by simp only [wsHead, headLen] at *; omega)
        (by decide),
      reads.copySkip wsHead head.len same.ge,
      also.copySkip wsHead head.len same.ge]
  · by_cases long : wsHead ≤ content.length
    · rw [if_pos long, if_pos long,
        reads.peek headLen 8 (by simp only [wsHead, headLen] at *; omega)
          (by decide),
        also.peek headLen 8 (by simp only [wsHead, headLen] at *; omega)
          (by decide)]
      simp only [Option.bind_some, ne_eq, same, not_false_eq_true, true_or,
        if_true]
    · rw [if_neg long, if_neg long]
      simp only [Option.bind_some, ne_eq, same, not_false_eq_true, true_or,
        if_true]

theorem takeBondSignal_congr (head : Head) (reads : msg.Reads content)
    (also : other.Reads content) :
    takeBondSignal hooks recv msg head =
      takeBondSignal hooks recv other head := by
  unfold takeBondSignal
  rw [reads.bytes, also.bytes, reads.count, also.count]
  dsimp only
  generalize (if head.kind = Kind.bondSignal.code then 2 else head.pad) = links
  generalize (if linksOf hooks ≠ 0 then linksOf hooks else 2) = expected
  congr 1
  split
  · next sound =>
      obtain ⟨-, few, -, length⟩ := sound
      simp only [headLen, tbBondMax] at *
      rw [reads.peek 32 (8 + links * 4) (by omega)
          (by simp only [tbPacket]; omega),
        also.peek 32 (8 + links * 4) (by omega)
          (by simp only [tbPacket]; omega)]
  · rfl

theorem takeJoined_congr (own : Hooks σ) (now : Nat) (head : Head)
    (reads : msg.Reads content) (also : other.Reads content) :
    takeJoined own now recv msg head = takeJoined own now recv other head := by
  unfold takeJoined
  rw [reads.bytes, also.bytes]
  by_cases same : content.length = bondWsHead + head.len
  · have long : bondWsHead ≤ content.length := by omega
    rw [if_pos long, if_pos long,
      reads.peek headLen (bondWsHead - headLen)
        (by simp only [bondWsHead, headLen] at *; omega) (by decide),
      also.peek headLen (bondWsHead - headLen)
        (by simp only [bondWsHead, headLen] at *; omega) (by decide),
      reads.copySkip bondWsHead head.len same.ge,
      also.copySkip bondWsHead head.len same.ge]
  · by_cases long : bondWsHead ≤ content.length
    · rw [if_pos long, if_pos long,
        reads.peek headLen (bondWsHead - headLen)
          (by simp only [bondWsHead, headLen] at *; omega) (by decide),
        also.peek headLen (bondWsHead - headLen)
          (by simp only [bondWsHead, headLen] at *; omega) (by decide)]
      simp only [Option.bind_some, ne_eq, same, not_false_eq_true, true_or,
        if_true]
    · rw [if_neg long, if_neg long]
      simp only [Option.bind_some, ne_eq, same, not_false_eq_true, true_or,
        if_true]

theorem takeInlineN_congr (now : Nat) (head : Head)
    (reads : msg.Reads content) (also : other.Reads content) :
    takeInlineN hooks now recv msg head =
      takeInlineN hooks now recv other head := by
  unfold takeInlineN
  rw [reads.bytes, also.bytes, reads.count, also.count]
  cases hooks with
  | none => rfl
  | some own =>
      dsimp only
      split
      · rfl
      · next sound =>
          push Not at sound
          obtain ⟨-, -, -, -, size, room, length, -⟩ := sound
          generalize head.pad / 256 = links at *
          simp only [headLen] at *
          rw [reads.peek 32 16 (by omega) (by decide),
            also.peek 32 16 (by omega) (by decide),
            reads.peek (32 + 16) (links * 4) (by omega) (by omega),
            also.peek (32 + 16) (links * 4) (by omega) (by omega),
            reads.peek (32 + 16 + links * 4) (links * 4) (by omega) (by omega),
            also.peek (32 + 16 + links * 4) (links * 4) (by omega) (by omega),
            reads.peek (32 + 16 + links * 8) head.len (by omega) (by omega),
            also.peek (32 + 16 + links * 8) head.len (by omega) (by omega)]

theorem takeWriteN_congr (now : Nat) (head : Head)
    (reads : msg.Reads content) (also : other.Reads content) :
    takeWriteN hooks now recv msg head =
      takeWriteN hooks now recv other head := by
  unfold takeWriteN
  rw [reads.bytes, also.bytes, reads.count, also.count]
  cases hooks with
  | none => rfl
  | some own =>
      dsimp only
      split
      · rfl
      · next sound =>
          push Not at sound
          obtain ⟨-, few, -, -, length, -⟩ := sound
          simp only [headLen, tbBondMax] at *
          rw [reads.peek 32 _ length.ge (by simp only [tbPacket]; omega),
            also.peek 32 _ length.ge (by simp only [tbPacket]; omega)]

theorem takePlain_congr (reply : Reply) (head : Head)
    (reads : msg.Reads content) (also : other.Reads content)
    (long : headLen ≤ content.length) :
    takePlain hooks reply recv msg head =
      takePlain hooks reply recv other head := by
  have faults : plainFault recv.rx msg head = plainFault recv.rx other head := by
    unfold plainFault
    rw [reads.bytes, also.bytes]
  unfold takePlain
  rw [reads.count, also.count, ← faults]
  split
  · rfl
  · next one =>
      have short : content.length ≤ tbPacket := by
        simp only [packets, tbPacket] at *
        omega
      split
      · rfl
      · next sound =>
          by_cases isInline : head.kind = Kind.inline.code
          · have length := (plainFault_eq_none.mp sound).2.2.2.1 isInline
            rw [reads.bytes] at length
            simp only [headLen] at *
            rw [reads.peek 32 head.len (by omega) (by omega),
              also.peek 32 head.len (by omega) (by omega)]
          · simp only [isInline, if_false]

/-- Two messages of the same bytes are taken alike. -/
theorem take_congr (now : Nat) (reply : Reply) (reads : msg.Reads content)
    (also : other.Reads content) :
    take hooks now reply recv msg = take hooks now reply recv other := by
  have dispatch : ∀ head, takeHead hooks now reply recv msg head =
      takeHead hooks now reply recv other head := by
    intro head
    unfold takeHead
    rw [reads.bytes, also.bytes, takeWriteSignal_congr head reads also,
      takeBondSignal_congr head reads also,
      takeInlineN_congr now head reads also,
      takeWriteN_congr now head reads also]
    split
    · rfl
    · next long =>
        rw [takePlain_congr reply head reads also (Nat.not_lt.mp long)]
        cases hooks with
        | none => rfl
        | some own => simp only [takeJoined_congr own now head reads also]
  unfold take
  have peek := fun (any : Msg) (same : any.Reads content) =>
    same.peek 0 (min content.length headLen) (by omega)
      (by simp only [headLen, tbPacket]; omega)
  rw [takePayload_congr reads also, reads.bytes, also.bytes, peek msg reads,
    peek other also, Option.bind_some, Option.bind_some]
  cases hooks with
  | none => simp only [dispatch]
  | some own => simp only [dispatch, takeTail_congr own now reads also]

end

end Link
end Mcdma
