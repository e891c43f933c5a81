import Mcdma.Link.Take

/-!
# What taking a correct sender's message does

One specification lemma for each kind of message: a message laid out by
`Post.wire` that is next in sequence and inside the accepted range is taken with
exactly the effect its sender meant.  Callers cite these lemmas and never unfold
`take`.
-/

namespace Mcdma
namespace Link

open Bytes

variable {σ : Type}

/-- A post as it lies in the ring. -/
def Post.msg (post : Post) : Msg :=
  Msg.ofBytes post.wire

@[simp] theorem Msg.ofBytes_bytes (content : List UInt8) :
    (Msg.ofBytes content).bytes = content.length := rfl

@[simp] theorem Msg.ofBytes_count (content : List UInt8) :
    (Msg.ofBytes content).count = packets content.length := rfl

theorem Msg.ofBytes_peek {content : List UInt8} {skip len : Nat}
    (within : skip + len ≤ content.length) (packet : skip + len ≤ tbPacket) :
    (Msg.ofBytes content).peek skip len = some (slice content skip len) :=
  if_pos (le_min within packet)

theorem Msg.ofBytes_copySkip {content : List UInt8} {skip len : Nat}
    (within : skip + len ≤ content.length) :
    (Msg.ofBytes content).copySkip skip len = some (slice content skip len) :=
  if_pos within

theorem packets_eq_one {len : Nat} (pos : 0 < len) (small : len ≤ tbPacket) :
    packets len = 1 := by
  simp only [packets, tbPacket] at *
  omega

section

variable {post : Post} {head : Head}

theorem Post.wire_of_head (has : post.head = some head) :
    post.wire = head.encode ++ post.body := by
  rw [Post.wire, has]

theorem Post.length_wire_of_head (has : post.head = some head) :
    post.wire.length = 32 + post.body.length := by
  rw [Post.wire_of_head has, List.length_append, Head.length_encode]

/-- Fields behind the head, read in the first packet. -/
theorem Post.peek_body (has : post.head = some head) (skip len : Nat)
    (within : skip + len ≤ post.body.length)
    (packet : 32 + skip + len ≤ tbPacket) :
    post.msg.peek (32 + skip) len = some (slice post.body skip len) := by
  rw [Post.msg, Msg.ofBytes_peek
    (by rw [Post.length_wire_of_head has]; omega) packet,
    Post.wire_of_head has, slice_append_right _ _ _ _ (by simp),
    Head.length_encode, Nat.add_sub_cancel_left]

/-- Bytes behind the head, copied out of the ring. -/
theorem Post.copySkip_body (has : post.head = some head) (skip len : Nat)
    (within : skip + len ≤ post.body.length) :
    post.msg.copySkip (32 + skip) len = some (slice post.body skip len) := by
  rw [Post.msg, Msg.ofBytes_copySkip
    (by rw [Post.length_wire_of_head has]; omega),
    Post.wire_of_head has, slice_append_right _ _ _ _ (by simp),
    Head.length_encode, Nat.add_sub_cancel_left]

/-- A message with a head reaches the dispatch over its kind. -/
theorem take_eq_takeHead (hooks : Option (Hooks σ)) (now : Nat)
    (reply : Reply) (recv : Recv σ)
    (has : post.head = some head) (fits : head.Fits)
    (marked : head.magic = magic) (idle : recv.rx.wantLen = 0) :
    take hooks now reply recv post.msg =
      takeHead hooks now reply recv post.msg head := by
  have long : 32 ≤ post.wire.length := by
    rw [Post.length_wire_of_head has]
    omega
  have raw : post.msg.peek 0 (min post.msg.bytes headLen) =
      some head.encode := by
    have cut : min post.msg.bytes headLen = 32 := by
      rw [Post.msg, Msg.ofBytes_bytes, headLen]
      omega
    have front := slice_zero_append head.encode post.body
    rw [Head.length_encode] at front
    rw [cut, Post.msg, Msg.ofBytes_peek (by omega) (by simp [tbPacket]),
      Post.wire_of_head has, front]
  have notShort : ¬post.msg.bytes < 4 := by
    rw [Post.msg, Msg.ofBytes_bytes]
    omega
  unfold take
  rw [if_neg (by simpa using idle), raw, Option.bind_some,
    Head.decode_encode fits]
  cases hooks with
  | none => rfl
  | some hooks =>
      simp only [marked, notShort, ne_eq, not_true_eq_false, or_self,
        and_false, if_false]

end

/-- A range inside the accepted one implies that there is an accepted one. -/
theorem Rx.accepted_ne_none_of_inside {rx : Rx} {off len : Nat}
    (inside : rx.inside off len = true) : rx.accepted ≠ none := by
  intro absent
  simp [Rx.inside, absent] at inside

/-! ## The dispatch -/

section

variable (hooks : Option (Hooks σ)) (now : Nat) (reply : Reply)
variable (recv : Recv σ) (msg : Msg) (head : Head)

theorem Kind.code_injective {first second : Kind}
    (same : first.code = second.code) : first = second := by
  cases first <;> cases second <;> first | rfl | simp [Kind.code] at same

/-- A head is next in sequence as at most one kind. -/
theorem isNext_unique {rx : Rx} {head : Head} {kind other : Kind}
    (next : isNext rx head kind) (also : isNext rx head other) :
    other = kind :=
  Kind.code_injective (also.2.1.symm.trans next.2.1)

/-- The part of `take` that handles a kind. -/
def takeKind : Kind → Option (Recv σ × Taken)
  | .bondWriteSignal =>
      match hooks with
      | some hooks => takeJoined hooks now recv msg head
      | none => takePlain none reply recv msg head
  | .writeSignal => takeWriteSignal hooks recv msg head
  | .bondSignal => takeBondSignal hooks recv msg head
  | .bondSignalN => takeBondSignal hooks recv msg head
  | .bondInlineN => takeInlineN hooks now recv msg head
  | .bondWriteN => takeWriteN hooks now recv msg head
  | .write => takePlain hooks reply recv msg head
  | .inline => takePlain hooks reply recv msg head
  | .signal => takePlain hooks reply recv msg head
  | .fence => takePlain hooks reply recv msg head
  | .fenceAck => takePlain hooks reply recv msg head

/-- A head next in sequence goes to the part of its kind. -/
theorem takeHead_of_isNext {kind : Kind} (long : headLen ≤ msg.bytes)
    (next : isNext recv.rx head kind) :
    takeHead hooks now reply recv msg head =
      takeKind hooks now reply recv msg head kind := by
  have iff : ∀ other, isNext recv.rx head other ↔ other = kind := by
    intro other
    constructor
    · exact isNext_unique next
    · rintro rfl
      exact next
  unfold takeHead
  rw [if_neg (by omega)]
  simp only [iff]
  cases kind <;> cases hooks <;> simp [takeKind]

/-- A plain kind goes to `takePlain`, whatever else is wrong with it. -/
theorem takeHead_plain (long : headLen ≤ msg.bytes)
    (plain : head.kind ≤ Kind.fenceAck.code) :
    takeHead hooks now reply recv msg head =
      takePlain hooks reply recv msg head := by
  have other : ∀ kind : Kind, Kind.fenceAck.code < kind.code →
      ¬isNext recv.rx head kind := by
    intro kind above next
    have := next.2.1
    omega
  unfold takeHead
  rw [if_neg (by omega), if_neg (fun both => other _ (by decide) both.1),
    if_neg (other _ (by decide)),
    if_neg (not_or.mpr ⟨other _ (by decide), other _ (by decide)⟩),
    if_neg (other _ (by decide)), if_neg (other _ (by decide))]

end

/-! ## The plain kinds -/

section

variable {hooks : Option (Hooks σ)} {now : Nat} {reply : Reply}
variable {recv : Recv σ} {seq ord roff soff value : Nat} {bytes : List UInt8}

/-- The bytes a taken header announced. -/
theorem take_payload
    (nonempty : bytes ≠ [])
    (wanted : recv.rx.wantLen = bytes.length) :
    take hooks now reply recv (Post.payload ord roff bytes).msg =
      some (((recv.copy (laneOf hooks) recv.rx.wantOff bytes).want
        recv.rx.wantOff 0).placed hooks, .taken none) := by
  have length : (Post.payload ord roff bytes).msg.bytes = bytes.length := rfl
  have whole : (Post.payload ord roff bytes).msg.copySkip 0 bytes.length =
      some bytes := by
    change (Msg.ofBytes bytes).copySkip 0 bytes.length = _
    rw [Msg.ofBytes_copySkip (by omega), slice_self]
  unfold take takePayload
  rw [if_pos (by rw [wanted]; simpa using nonempty), length,
    if_neg (by simp [wanted]), whole]
  rfl

/-- A head message of one packet counts as one packet. -/
theorem Post.count_eq_one {post : Post} {head : Head}
    (has : post.head = some head) (short : post.body.length ≤ inlineMax) :
    post.msg.count = 1 := by
  change packets post.wire.length = 1
  rw [Post.length_wire_of_head has]
  simp only [inlineMax, tbPacket, headLen] at short
  exact packets_eq_one (by omega) (by simp only [tbPacket]; omega)

theorem Post.headLen_le {post : Post} {head : Head}
    (has : post.head = some head) : headLen ≤ post.msg.bytes := by
  change headLen ≤ post.wire.length
  rw [Post.length_wire_of_head has, headLen]
  omega

/-- A message of a plain kind reaches `takePlain` as one packet. -/
theorem take_plain {post : Post} {head : Head}
    (has : post.head = some head) (fits : head.Fits)
    (marked : head.magic = magic) (plain : head.kind ≤ Kind.fenceAck.code)
    (idle : recv.rx.wantLen = 0) :
    take hooks now reply recv post.msg =
      takePlain hooks reply recv post.msg head := by
  rw [take_eq_takeHead hooks now reply recv has fits marked idle,
    takeHead_plain hooks now reply recv _ _ (Post.headLen_le has) plain]

/-- A short write inside its header. -/
theorem take_inline
    (idle : recv.rx.wantLen = 0) (next : recv.rx.rxSeq = seq)
    (seqFits : seq < 2 ^ 32) (roffFits : roff < 2 ^ 64)
    (short : bytes.length ≤ inlineMax)
    (inside : recv.rx.inside roff bytes.length = true) :
    take hooks now reply recv (Post.inline seq ord roff bytes).msg =
      some ((recv.nextSeq.copy (laneOf hooks) roff bytes).placed hooks,
        .taken none) := by
  have accepted := Rx.accepted_ne_none_of_inside inside
  have small : bytes.length ≤ 4064 := short
  have fits : (⟨magic, seq, Kind.inline.code, 0, bytes.length, roff, 0⟩ :
      Head).Fits := by
    constructor <;> simp only [magic, Kind.code] <;> omega
  have length : (Post.inline seq ord roff bytes).msg.bytes =
      32 + bytes.length := Post.length_wire_of_head rfl
  have body : (Post.inline seq ord roff bytes).msg.peek 32 bytes.length =
      some bytes := by
    have read := Post.peek_body (rfl : (Post.inline seq ord roff bytes).head =
      some _) 0 bytes.length (by simp [Post.body])
      (by simp only [tbPacket]; omega)
    simpa only [Post.body, slice_self] using read
  have one : (Post.inline seq ord roff bytes).msg.count = 1 :=
    Post.count_eq_one rfl short
  have noFault : plainFault recv.rx (Post.inline seq ord roff bytes).msg
      ⟨magic, seq, Kind.inline.code, 0, bytes.length, roff, 0⟩ = none := by
    simp [plainFault, next, length, inside, accepted, Kind.code, headLen]
  rw [take_plain rfl fits rfl (Nat.le_of_ble_eq_true rfl) idle]
  unfold takePlain
  rw [if_neg (by simp [one]), noFault]
  simp [Kind.code, headLen, body]

/-- The header of a longer write. -/
theorem take_write
    (idle : recv.rx.wantLen = 0) (next : recv.rx.rxSeq = seq)
    (seqFits : seq < 2 ^ 32) (roffFits : roff < 2 ^ 64)
    (nonempty : bytes ≠ []) (small : bytes.length ≤ tbMsg)
    (inside : recv.rx.inside roff bytes.length = true) :
    take hooks now reply recv (Post.write seq ord roff bytes).msg =
      some (recv.nextSeq.want roff bytes.length, .taken none) := by
  have accepted := Rx.accepted_ne_none_of_inside inside
  have fits : (⟨magic, seq, Kind.write.code, 0, bytes.length, roff, 0⟩ :
      Head).Fits := by
    simp only [tbMsg] at small
    constructor <;> simp only [magic, Kind.code] <;> omega
  have noFault : plainFault recv.rx (Post.write seq ord roff bytes).msg
      ⟨magic, seq, Kind.write.code, 0, bytes.length, roff, 0⟩ = none := by
    simp [plainFault, next, inside, accepted, Kind.code, nonempty, small]
  have one : (Post.write seq ord roff bytes).msg.count = 1 :=
    Post.count_eq_one rfl (by simp [Post.body])
  rw [take_plain rfl fits rfl (Nat.le_of_ble_eq_true rfl) idle]
  unfold takePlain
  rw [if_neg (by simp [one]), noFault]
  simp [Kind.code]

/-- A single link's signal. -/
theorem take_signal
    (idle : recv.rx.wantLen = 0) (next : recv.rx.rxSeq = seq)
    (seqFits : seq < 2 ^ 32) (soffFits : soff < 2 ^ 64)
    (valueFits : value < 2 ^ 64) (aligned : soff % 8 = 0)
    (inside : recv.rx.inside soff 8 = true) :
    take hooks now reply recv (Post.signal seq soff value).msg =
      some (recv.nextSeq.storeWord soff value, .taken none) := by
  have accepted := Rx.accepted_ne_none_of_inside inside
  have fits : (⟨magic, seq, Kind.signal.code, 0, 8, soff, value⟩ :
      Head).Fits := by
    constructor <;> simp only [magic, Kind.code] <;> omega
  have noFault : plainFault recv.rx (Post.signal seq soff value).msg
      ⟨magic, seq, Kind.signal.code, 0, 8, soff, value⟩ = none := by
    simp [plainFault, next, inside, accepted, Kind.code, aligned]
  have one : (Post.signal seq soff value).msg.count = 1 :=
    Post.count_eq_one rfl (by simp [Post.body])
  rw [take_plain rfl fits rfl (Nat.le_of_ble_eq_true rfl) idle]
  unfold takePlain
  rw [if_neg (by simp [one]), noFault]
  simp [Kind.code]

/-- A fence is answered once there is room to answer it. -/
theorem take_fence
    (idle : recv.rx.wantLen = 0) (next : recv.rx.rxSeq = seq)
    (seqFits : seq < 2 ^ 32) (valueFits : value < 2 ^ 64)
    (accepted : recv.rx.accepted ≠ none) :
    take hooks now reply recv (Post.fence seq value).msg =
      match reply with
      | .noRoom => some (recv, .notYet)
      | .refused => recv.fail "posting a send failed"
      | .sent => some (recv.nextSeq, .taken (some value)) := by
  have fits : (⟨magic, seq, Kind.fence.code, 0, 0, 0, value⟩ : Head).Fits := by
    constructor <;> simp only [magic, Kind.code] <;> omega
  have noFault : plainFault recv.rx (Post.fence seq value).msg
      ⟨magic, seq, Kind.fence.code, 0, 0, 0, value⟩ = none := by
    simp [plainFault, next, accepted, Kind.code]
  have one : (Post.fence seq value).msg.count = 1 :=
    Post.count_eq_one rfl (by simp [Post.body])
  rw [take_plain rfl fits rfl (Nat.le_of_ble_eq_true rfl) idle]
  unfold takePlain
  rw [if_neg (by simp [one]), noFault]
  cases reply <;> simp

/-- A fence's answer. -/
theorem take_fenceAck
    (idle : recv.rx.wantLen = 0) (next : recv.rx.rxSeq = seq)
    (seqFits : seq < 2 ^ 32) (valueFits : value < 2 ^ 64) :
    take hooks now reply recv (Post.fenceAck seq value).msg =
      some ({ recv.nextSeq with rx :=
        { recv.nextSeq.rx with fenceAcked := value % 2 ^ 32 } },
        .taken none) := by
  have fits : (⟨magic, seq, Kind.fenceAck.code, 0, 0, 0, value⟩ :
      Head).Fits := by
    constructor <;> simp only [magic, Kind.code] <;> omega
  have noFault : plainFault recv.rx (Post.fenceAck seq value).msg
      ⟨magic, seq, Kind.fenceAck.code, 0, 0, 0, value⟩ = none := by
    simp [plainFault, next, Kind.code]
  have one : (Post.fenceAck seq value).msg.count = 1 :=
    Post.count_eq_one rfl (by simp [Post.body])
  rw [take_plain rfl fits rfl (Nat.le_of_ble_eq_true rfl) idle]
  unfold takePlain
  rw [if_neg (by simp [one]), noFault]
  simp [Kind.code]

/-- A write with its signal on a single link. -/
theorem take_writeSignal
    (idle : recv.rx.wantLen = 0) (next : recv.rx.rxSeq = seq)
    (seqFits : seq < 2 ^ 32) (roffFits : roff < 2 ^ 64)
    (soffFits : soff < 2 ^ 64) (valueFits : value < 2 ^ 64)
    (nonempty : bytes ≠ []) (small : bytes.length + wsHead ≤ tbMsg)
    (inside : recv.rx.inside roff bytes.length = true)
    (aligned : soff % 8 = 0) (insideWord : recv.rx.inside soff 8 = true) :
    take hooks now reply recv
        (Post.writeSignal seq ord roff bytes soff value).msg =
      some (((recv.nextSeq.copy (laneOf hooks) roff bytes).placed
        hooks).storeWord soff value, .taken none) := by
  set post := Post.writeSignal seq ord roff bytes soff value with postDef
  have accepted := Rx.accepted_ne_none_of_inside inside
  simp only [wsHead, tbMsg] at small
  have fits : (⟨magic, seq, Kind.writeSignal.code, 0, bytes.length, roff,
      value⟩ : Head).Fits := by
    constructor <;> simp only [magic, Kind.code] <;> omega
  have has : post.head = some ⟨magic, seq, Kind.writeSignal.code, 0,
      bytes.length, roff, value⟩ := rfl
  have body : post.body = (lowBytes 8 soff ++ List.replicate 8 0) ++ bytes := by
    simp [postDef, Post.body]
  have bodyLength : post.body.length = 16 + bytes.length := by
    simp only [body, List.length_append, length_lowBytes,
      List.length_replicate]
  have length : post.msg.bytes = 32 + (16 + bytes.length) := by
    rw [← bodyLength]
    exact Post.length_wire_of_head has
  have soffRead : post.msg.peek headLen 8 = some (lowBytes 8 soff) := by
    have read := Post.peek_body has 0 8 (by rw [bodyLength]; omega)
      (by simp only [tbPacket]; omega)
    have cut := slice_zero_append (lowBytes 8 soff)
      (List.replicate 8 0 ++ bytes)
    rw [length_lowBytes] at cut
    rw [body, List.append_assoc, cut] at read
    exact read
  have data : post.msg.copySkip wsHead bytes.length = some bytes := by
    have read := Post.copySkip_body has 16 bytes.length (by rw [bodyLength])
    have cut := slice_length_append (lowBytes 8 soff ++ List.replicate 8 0)
      bytes
    simp only [List.length_append, length_lowBytes, List.length_replicate,
      Nat.reduceAdd] at cut
    rw [body, cut] at read
    exact read
  have soffValue : field (lowBytes 8 soff) 0 8 = soff := by
    have read := field_lowBytes 8 soff []
    rw [List.append_nil] at read
    rw [read]
    exact Nat.mod_eq_of_lt soffFits
  rw [take_eq_takeHead hooks now reply recv has fits rfl idle,
    takeHead_of_isNext hooks now reply recv _ _ (Post.headLen_le has)
      (⟨rfl, rfl, next.symm, accepted⟩ : isNext recv.rx _ Kind.writeSignal)]
  have long : wsHead ≤ post.msg.bytes := by
    rw [length, wsHead]
    omega
  simp only [takeKind, takeWriteSignal]
  rw [if_pos long, soffRead, Option.bind_some]
  simp only [soffValue]
  rw [if_neg (by
    simp [length, inside, insideWord, aligned, nonempty, wsHead]
    omega), data]
  rfl

end

/-! ## The bonded kinds -/

/-- Write counts as they arrive: the low 32 bits of the first `links`. -/
def lowCounts (links : Nat) (counts : Nat → Nat) : Nat → Nat := fun lane =>
  if lane < links then counts lane % 2 ^ 32 else 0

theorem field_past (bytes : List UInt8) (skip width : Nat)
    (past : bytes.length ≤ skip) : field bytes skip width = 0 := by
  simp [field, slice, List.drop_eq_nil_of_le past, number]

/-- The counts of a message read back cut to 32 bits. -/
theorem field_counts (links : Nat) (counts : Nat → Nat) :
    (fun lane => field (lowTable 4 counts links) (4 * lane) 4) =
      lowCounts links counts := by
  funext lane
  unfold lowCounts
  split
  · next below =>
      have read := field_lowTable 4 counts links lane [] below
      rw [List.append_nil] at read
      rw [read]
      norm_num
  · next above =>
      exact field_past _ _ _ (by rw [length_lowTable]; omega)

section

variable {hooks : Hooks σ} {now : Nat} {reply : Reply} {recv : Recv σ}
variable {seq ord roff soff value sig links flags wait : Nat}
variable {need waits : Nat → Nat} {bytes : List UInt8}

/-- A message of a bonded kind reaches the part of its kind. -/
theorem take_kind {post : Post} {head : Head} {kind : Kind}
    (hooks : Option (Hooks σ)) (now : Nat) (reply : Reply)
    (has : post.head = some head) (fits : head.Fits)
    (idle : recv.rx.wantLen = 0) (next : isNext recv.rx head kind) :
    take hooks now reply recv post.msg =
      takeKind hooks now reply recv post.msg head kind := by
  rw [take_eq_takeHead hooks now reply recv has fits next.1 idle,
    takeHead_of_isNext hooks now reply recv _ _ (Post.headLen_le has) next]

/-- Hand a bonded signal over, or poison the link when it is refused. -/
def Recv.hand (hooks : Hooks σ) (recv : Recv σ) (sig : Nat)
    (need : Nat → Nat) (soff value : Nat) (why : String) :
    Option (Recv σ × Taken) :=
  let handed := recv.signal hooks sig need soff value
  if handed.2 then some (handed.1, .taken none) else handed.1.fail why

/-- A signal of an N-link bond. -/
theorem take_bondSignalN
    (idle : recv.rx.wantLen = 0) (next : recv.rx.rxSeq = seq)
    (seqFits : seq < 2 ^ 32) (soffFits : soff < 2 ^ 64)
    (valueFits : value < 2 ^ 64) (sigFits : sig < 2 ^ 64) (sigPos : sig ≠ 0)
    (two : 2 ≤ links) (most : links ≤ tbBondMax) (agreed : hooks.links = links)
    (aligned : soff % 8 = 0) (inside : recv.rx.inside soff 8 = true) :
    take (some hooks) now reply recv
        (Post.bondSignalN seq soff value sig links need).msg =
      recv.nextSeq.hand hooks sig (lowCounts links need) soff value
        "the bonded signal was refused" := by
  have accepted := Rx.accepted_ne_none_of_inside inside
  have few : links ≤ 24 := most
  have fits : (⟨magic, seq, Kind.bondSignalN.code, links, 8, soff, value⟩ :
      Head).Fits := by
    constructor <;> simp only [magic, Kind.code] <;> omega
  have bodyLength :
      (Post.bondSignalN seq soff value sig links need).body.length =
        8 + links * 4 := by
    simp only [Post.body, List.length_append, length_lowBytes, length_lowTable]
    omega
  have length : (Post.bondSignalN seq soff value sig links need).msg.bytes =
      32 + (8 + links * 4) := by
    rw [← bodyLength]
    exact Post.length_wire_of_head rfl
  have one : (Post.bondSignalN seq soff value sig links need).msg.count = 1 :=
    Post.count_eq_one rfl (by
      rw [bodyLength]; simp only [inlineMax, tbPacket, headLen]; omega)
  have read := Post.peek_body
    (rfl : (Post.bondSignalN seq soff value sig links need).head = some _)
    0 (8 + links * 4) (by rw [bodyLength]; omega)
    (by simp only [tbPacket]; omega)
  rw [← bodyLength, slice_self, bodyLength] at read
  have sigRead : field (Post.bondSignalN seq soff value sig links need).body
      0 8 = sig := by
    simp only [Post.body]
    rw [field_lowBytes]
    exact Nat.mod_eq_of_lt sigFits
  have needRead : (fun lane => field
      (Post.bondSignalN seq soff value sig links need).body (8 + 4 * lane) 4) =
      lowCounts links need := by
    rw [← field_counts]
    funext lane
    simp only [Post.body]
    rw [field_append_right _ _ _ _ (by simp), length_lowBytes,
      Nat.add_sub_cancel_left]
  rw [take_kind (some hooks) now reply rfl fits idle
    (⟨rfl, rfl, next.symm, accepted⟩ : isNext recv.rx _ Kind.bondSignalN)]
  have notTwo : Kind.bondSignalN.code ≠ Kind.bondSignal.code := by decide
  have some : links ≠ 0 := by omega
  simp only [takeKind, takeBondSignal, linksOf, agreed, if_neg notTwo,
    if_pos some, headLen]
  rw [if_pos ⟨two, most, trivial, by omega⟩, read, Option.bind_some]
  simp only [sigRead, needRead]
  rw [if_neg (by simp [one, length, aligned, inside, sigPos]; omega)]
  rfl

/-- The header of a write's part: it waits, or its bytes come next. -/
theorem take_bondWriteN
    (idle : recv.rx.wantLen = 0) (next : recv.rx.rxSeq = seq)
    (seqFits : seq < 2 ^ 32) (roffFits : roff < 2 ^ 64)
    (sigFits : sig < 2 ^ 64) (sigPos : sig ≠ 0)
    (two : 2 ≤ links) (most : links ≤ tbBondMax) (agreed : hooks.links = links)
    (flagged : flags = 0 ∨ flags = bondWaitSignals)
    (nonempty : bytes ≠ []) (small : bytes.length ≤ tbMsg)
    (inside : recv.rx.inside roff bytes.length = true) :
    take (some hooks) now reply recv
        (Post.bondWriteN seq ord roff bytes sig links waits flags).msg =
      match hooks.readyN recv.bond sig flags (lowCounts links waits) with
      | .never => recv.fail "an N-link write is out of sequence"
      | .notYet =>
          recv.stall now "an N-link write waited for earlier placements"
      | .now =>
          some (recv.nextSeq.want roff bytes.length, .taken none) := by
  have accepted := Rx.accepted_ne_none_of_inside inside
  have few : links ≤ 24 := most
  have low : flags < 256 := by
    rcases flagged with rfl | rfl <;> decide
  have fits : (⟨magic, seq, Kind.bondWriteN.code, links * 256 + flags,
      bytes.length, roff, sig⟩ : Head).Fits := by
    simp only [tbMsg] at small
    constructor <;> simp only [magic, Kind.code] <;> omega
  have bodyLength :
      (Post.bondWriteN seq ord roff bytes sig links waits flags).body.length =
        links * 4 := by
    simp only [Post.body, length_lowTable]
    omega
  have length :
      (Post.bondWriteN seq ord roff bytes sig links waits flags).msg.bytes =
        32 + links * 4 := by
    rw [← bodyLength]
    exact Post.length_wire_of_head rfl
  have one :
      (Post.bondWriteN seq ord roff bytes sig links waits flags).msg.count =
        1 :=
    Post.count_eq_one rfl (by
      rw [bodyLength]; simp only [inlineMax, tbPacket, headLen]; omega)
  have read := Post.peek_body
    (rfl : (Post.bondWriteN seq ord roff bytes sig links waits flags).head =
      some _) 0 (links * 4) (by rw [bodyLength]; omega)
    (by simp only [tbPacket]; omega)
  rw [← bodyLength, slice_self, bodyLength] at read
  rw [take_kind (some hooks) now reply rfl fits idle
    (⟨rfl, rfl, next.symm, accepted⟩ : isNext recv.rx _ Kind.bondWriteN)]
  have linksRead : (links * 256 + flags) / 256 = links := by omega
  have flagsRead : (links * 256 + flags) % 256 = flags := by omega
  simp only [takeKind, takeWriteN, linksRead, flagsRead, headLen]
  rw [if_neg (by
    simp [one, length, agreed, inside, sigPos, nonempty, small]
    omega), read, Option.bind_some]
  cases ready : hooks.readyN recv.bond sig flags (lowCounts links waits) <;>
    simp only [Post.body, field_counts, ready]

/-- A short write with its signal: it waits, or both take effect. -/
theorem take_bondInlineN
    (idle : recv.rx.wantLen = 0) (next : recv.rx.rxSeq = seq)
    (seqFits : seq < 2 ^ 32) (roffFits : roff < 2 ^ 64)
    (soffFits : soff < 2 ^ 64) (valueFits : value < 2 ^ 64)
    (sigFits : sig < 2 ^ 64) (sigPos : sig ≠ 0)
    (two : 2 ≤ links) (most : links ≤ tbBondMax) (agreed : hooks.links = links)
    (flagged : flags = 0 ∨ flags = bondWaitSignals)
    (nonempty : bytes ≠ [])
    (small : bytes.length + (48 + links * 8) ≤ tbPacket)
    (inside : recv.rx.inside roff bytes.length = true)
    (aligned : soff % 8 = 0) (insideWord : recv.rx.inside soff 8 = true)
    (mine : lowCounts links need hooks.lane =
      (recv.rx.writesPlaced + 1) % 2 ^ 32) :
    take (some hooks) now reply recv
        (Post.bondInlineN seq ord roff bytes soff value sig links need waits
          flags).msg =
      match hooks.readyN recv.bond sig flags (lowCounts links waits) with
      | .never => recv.fail "an N-link inline message is out of sequence"
      | .notYet =>
          recv.stall now "an N-link inline message waited for prior placements"
      | .now =>
          ((recv.copy hooks.lane roff bytes).placed (some hooks)).nextSeq.hand
            hooks sig (lowCounts links need) soff value
            "an N-link inline signal was refused" := by
  set post := Post.bondInlineN seq ord roff bytes soff value sig links need
    waits flags with postDef
  have accepted := Rx.accepted_ne_none_of_inside inside
  have few : links ≤ 24 := most
  have low : flags < 256 := by
    rcases flagged with rfl | rfl <;> decide
  simp only [tbPacket] at small
  have fits : (⟨magic, seq, Kind.bondInlineN.code, links * 256 + flags,
      bytes.length, roff, value⟩ : Head).Fits := by
    constructor <;> simp only [magic, Kind.code] <;> omega
  have has : post.head = some ⟨magic, seq, Kind.bondInlineN.code,
      links * 256 + flags, bytes.length, roff, value⟩ := rfl
  have body : post.body = (lowBytes 8 soff ++ lowBytes 8 sig) ++
      (lowTable 4 need links ++ (lowTable 4 waits links ++ bytes)) := by
    simp [postDef, Post.body]
  have bodyLength : post.body.length = 16 + links * 8 + bytes.length := by
    simp only [body, List.length_append, length_lowBytes, length_lowTable]
    omega
  have length : post.msg.bytes = 32 + (16 + links * 8 + bytes.length) := by
    rw [← bodyLength]
    exact Post.length_wire_of_head has
  have one : post.msg.count = 1 :=
    Post.count_eq_one has (by
      rw [bodyLength]; simp only [inlineMax, tbPacket, headLen]; omega)
  have front : post.msg.peek 32 16 = some (lowBytes 8 soff ++ lowBytes 8 sig) := by
    have read := Post.peek_body has 0 16 (by rw [bodyLength]; omega)
      (by simp only [tbPacket]; omega)
    have cut := slice_zero_append (lowBytes 8 soff ++ lowBytes 8 sig)
      (lowTable 4 need links ++ (lowTable 4 waits links ++ bytes))
    rw [body] at read
    simp only [List.length_append, length_lowBytes, Nat.reduceAdd] at cut
    rw [cut] at read
    exact read
  have needs : post.msg.peek 48 (links * 4) = some (lowTable 4 need links) := by
    have read := Post.peek_body has 16 (links * 4) (by rw [bodyLength]; omega)
      (by simp only [tbPacket]; omega)
    have cut := slice_zero_append (lowTable 4 need links)
      (lowTable 4 waits links ++ bytes)
    rw [length_lowTable, Nat.mul_comm] at cut
    rw [body, slice_append_right _ _ _ _ (by simp), List.length_append,
      length_lowBytes, length_lowBytes, Nat.sub_self, cut] at read
    exact read
  have waitsRead : post.msg.peek (48 + links * 4) (links * 4) =
      some (lowTable 4 waits links) := by
    have read := Post.peek_body has (16 + links * 4) (links * 4)
      (by rw [bodyLength]; omega) (by simp only [tbPacket]; omega)
    have cut := slice_zero_append (lowTable 4 waits links) bytes
    rw [length_lowTable, Nat.mul_comm] at cut
    have skip : 16 + links * 4 - (8 + 8) - 4 * links = 0 := by omega
    rw [body, slice_append_right _ _ _ _ (by simp), List.length_append,
      length_lowBytes, length_lowBytes,
      slice_append_right _ _ _ _ (by simp; omega), length_lowTable, skip,
      cut] at read
    rw [← read]
    congr 1
    omega
  have data : post.msg.peek (48 + links * 8) bytes.length = some bytes := by
    have read := Post.peek_body has (16 + links * 8) bytes.length
      (by rw [bodyLength]) (by simp only [tbPacket]; omega)
    have skip : 16 + links * 8 - (8 + 8) - 4 * links - 4 * links = 0 := by
      omega
    rw [body, slice_append_right _ _ _ _ (by simp), List.length_append,
      length_lowBytes, length_lowBytes,
      slice_append_right _ _ _ _ (by simp; omega), length_lowTable,
      slice_append_right _ _ _ _ (by simp; omega), length_lowTable, skip,
      slice_self] at read
    rw [← read]
    congr 1
    omega
  have soffRead : field (lowBytes 8 soff ++ lowBytes 8 sig) 0 8 = soff := by
    rw [field_lowBytes]
    exact Nat.mod_eq_of_lt soffFits
  have sigRead : field (lowBytes 8 soff ++ lowBytes 8 sig) 8 8 = sig := by
    have read := field_lowBytes 8 sig []
    rw [List.append_nil] at read
    rw [field_append_right _ _ _ _ (by simp), length_lowBytes, Nat.sub_self,
      read]
    exact Nat.mod_eq_of_lt sigFits
  rw [take_kind (some hooks) now reply has fits idle
    (⟨rfl, rfl, next.symm, accepted⟩ : isNext recv.rx _ Kind.bondInlineN)]
  have linksRead : (links * 256 + flags) / 256 = links := by omega
  have flagsRead : (links * 256 + flags) % 256 = flags := by omega
  have wellFormed : ¬(links < 2 ∨ tbBondMax < links ∨ links ≠ hooks.links ∨
      post.msg.count ≠ 1 ∨ tbPacket < 32 + 16 + links * 8 ∨
      tbPacket - (32 + 16 + links * 8) < bytes.length ∨
      post.msg.bytes ≠ 32 + 16 + links * 8 + bytes.length ∨
      (flags ≠ 0 ∧ flags ≠ bondWaitSignals) ∨ bytes.length = 0 ∨
      recv.rx.inside roff bytes.length = false) := by
    simp [one, length, agreed, inside, nonempty, tbPacket]
    omega
  simp only [takeKind, takeInlineN, linksRead, flagsRead, headLen]
  rw [if_neg wellFormed, front, Option.bind_some, needs, Option.bind_some,
    waitsRead, Option.bind_some]
  simp only [soffRead, sigRead, field_counts]
  have mineRead := (congrFun (field_counts links need) hooks.lane).trans mine
  rw [if_neg (by simp [sigPos, aligned, insideWord, mineRead])]
  simp only [Nat.reduceAdd, data, Option.bind_some]
  cases hooks.readyN recv.bond sig flags (lowCounts links waits) <;> rfl

/-- A joined write that has no tail: it waits, or its bytes and its signal take
effect. -/
theorem take_bondWriteSignal
    (idle : recv.rx.wantLen = 0) (next : recv.rx.rxSeq = seq)
    (seqFits : seq < 2 ^ 32) (roffFits : roff < 2 ^ 64)
    (soffFits : soff < 2 ^ 64) (valueFits : value < 2 ^ 64)
    (sigFits : sig < 2 ^ 64) (sigPos : sig ≠ 0)
    (two : hooks.links = 2) (ours : hooks.lane < 2)
    (flagged : flags ≤ bondWaitLink + bondWaitSignals)
    (nonempty : bytes ≠ []) (small : bytes.length + bondWsHead ≤ tbMsg)
    (inside : recv.rx.inside roff bytes.length = true)
    (aligned : soff % 8 = 0) (insideWord : recv.rx.inside soff 8 = true)
    (mine : need hooks.lane % 2 ^ 32 = (recv.rx.writesPlaced + 1) % 2 ^ 32) :
    take (some hooks) now reply recv
        (Post.bondWriteSignal seq ord roff bytes soff value sig need 0 flags
          wait).msg =
      match hooks.ready recv.bond sig flags (wait % 2 ^ 32) with
      | .never => recv.fail "a bonded write-and-signal out of sequence"
      | .notYet =>
          recv.stall now
            "a joined write waited 10 s for the other link's earlier writes"
      | .now =>
          ((recv.nextSeq.copy hooks.lane roff bytes).placed (some hooks)).hand
            hooks sig (lowCounts 2 need) soff value
            "the bonded signal was refused" := by
  set post := Post.bondWriteSignal seq ord roff bytes soff value sig need 0
    flags wait with postDef
  have accepted := Rx.accepted_ne_none_of_inside inside
  simp only [bondWaitLink, bondWaitSignals] at flagged
  simp only [bondWsHead, tbMsg] at small
  have fits : (⟨magic, seq, Kind.bondWriteSignal.code, flags, bytes.length,
      roff, value⟩ : Head).Fits := by
    constructor <;> simp only [magic, Kind.code] <;> omega
  have has : post.head = some ⟨magic, seq, Kind.bondWriteSignal.code, flags,
      bytes.length, roff, value⟩ := rfl
  set front := lowBytes 8 soff ++ (lowBytes 8 sig ++ (lowTable 4 need 2 ++
    (lowBytes 4 0 ++ lowBytes 4 wait))) with frontDef
  have body : post.body = front ++ bytes := by
    simp [postDef, frontDef, Post.body]
  have frontLength : front.length = 32 := by
    simp [frontDef]
  have bodyLength : post.body.length = 32 + bytes.length := by
    rw [body, List.length_append, frontLength]
  have length : post.msg.bytes = 32 + (32 + bytes.length) := by
    rw [← bodyLength]
    exact Post.length_wire_of_head has
  have frontRead : post.msg.peek headLen (bondWsHead - headLen) =
      some front := by
    have read := Post.peek_body has 0 32 (by rw [bodyLength]; omega)
      (by simp only [tbPacket]; omega)
    have cut := slice_zero_append front bytes
    rw [frontLength] at cut
    rw [body, cut] at read
    exact read
  have data : post.msg.copySkip bondWsHead bytes.length = some bytes := by
    have read := Post.copySkip_body has 32 bytes.length
      (by rw [bodyLength])
    have cut := slice_length_append front bytes
    rw [frontLength] at cut
    rw [body, cut] at read
    exact read
  have last : lowBytes 4 wait = lowBytes 4 wait ++ [] := by simp
  have soffRead : field front 0 8 = soff := by
    rw [frontDef, field_lowBytes]
    exact Nat.mod_eq_of_lt soffFits
  have sigRead : field front 8 8 = sig := by
    rw [frontDef, field_append_right _ _ _ _ (by simp), length_lowBytes,
      field_lowBytes]
    exact Nat.mod_eq_of_lt sigFits
  have tailRead : field front 24 4 = 0 := by
    rw [frontDef, field_append_right _ _ _ _ (by simp), length_lowBytes,
      field_append_right _ _ _ _ (by simp), length_lowBytes,
      field_append_right _ _ _ _ (by simp), length_lowTable, field_lowBytes]
    rfl
  have waitRead : field front 28 4 = wait % 2 ^ 32 := by
    rw [frontDef, field_append_right _ _ _ _ (by simp), length_lowBytes,
      field_append_right _ _ _ _ (by simp), length_lowBytes,
      field_append_right _ _ _ _ (by simp), length_lowTable,
      field_append_right _ _ _ _ (by simp), length_lowBytes, last,
      field_lowBytes]
    norm_num
  have needRead : (fun lane => if lane < 2 then field front (16 + 4 * lane) 4
      else 0) = lowCounts 2 need := by
    funext lane
    unfold lowCounts
    split
    · next below =>
        have skip : 16 + 4 * lane - 8 - 8 = 4 * lane := by omega
        rw [frontDef, field_append_right _ _ _ _ (by simp; omega),
          length_lowBytes, field_append_right _ _ _ _ (by simp; omega),
          length_lowBytes, skip, field_lowTable 4 need 2 lane _ below]
        norm_num
    · rfl
  have me : hooks.lane % 2 = hooks.lane := Nat.mod_eq_of_lt ours
  have mineCount : lowCounts 2 need hooks.lane =
      (recv.rx.writesPlaced + 1) % 2 ^ 32 := by
    rw [lowCounts, if_pos ours, mine]
  have mineRead : (if hooks.lane < 2 then field front (16 + 4 * hooks.lane) 4
      else 0) = (recv.rx.writesPlaced + 1) % 2 ^ 32 :=
    (congrFun needRead hooks.lane).trans mineCount
  rw [take_kind (some hooks) now reply has fits idle
    (⟨rfl, rfl, next.symm, accepted⟩ : isNext recv.rx _ Kind.bondWriteSignal)]
  have long : bondWsHead ≤ post.msg.bytes := by
    rw [length, bondWsHead]
    omega
  simp only [takeKind, takeJoined]
  rw [if_neg (by omega), if_pos long, frontRead, Option.bind_some]
  simp only [soffRead, sigRead, tailRead, waitRead, needRead, me, mineRead]
  rw [if_neg (by
    simp [length, inside, insideWord, aligned, sigPos, nonempty, bondWaitLink,
      bondWaitSignals, bondWsHead]
    omega)]
  simp only [ne_eq, not_true_eq_false, if_false, data, Option.bind_some]
  cases hooks.ready recv.bond sig flags (wait % 2 ^ 32) <;> rfl

end

end Link
end Mcdma
