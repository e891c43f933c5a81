import Mcdma.Lib.Bytes
import Mcdma.Lib.Patch

/-!
# Wire format of a Thunderbolt link

The messages of `rpc/link_tb.c`: a 32-byte head, the eleven kinds of message
that start with one, and the two that do not, a write's payload and a joined
write's tail.  `Post` is a message as the sender means it; `Post.wire` lays it
out byte by byte as the sending functions do.  A post also carries what its
bytes leave out but the sender knows: which write of its link it is, and for a
payload where it goes.
-/

namespace Mcdma
namespace Link

open Bytes

/-- `TB_PACKET`: a send crosses as packets of this size. -/
def tbPacket : Nat := 4096

/-- `TB_STAGE`: header messages in flight. -/
def tbStage : Nat := 64

/-- `TB_SEND_WR`: sends in flight. -/
def tbSendWr : Nat := 1024

/-- `TB_BOND_MAX`: links of a bond. -/
def tbBondMax : Nat := 24

/-- `TB_MSG`: largest message. -/
def tbMsg : Nat := 4194304

/-- `TB_TRY_MAX`: largest nonblocking bonded write chunk. -/
def tbTryMax : Nat := 262144

/-- `TB_STALL_NS`: a bonded message waiting this long fails its link. -/
def tbStallNs : Nat := 10000000000

/-- `MAGIC`: "MCTB". -/
def magic : Nat := 0x4254434d

/-- `HEAD`: bytes of a head. -/
def headLen : Nat := 32

/-- `INLINE_MAX`: bytes a head message carries behind its head. -/
def inlineMax : Nat := tbPacket - headLen

/-- `WS_HEAD`: bytes before a write-and-signal message's own bytes. -/
def wsHead : Nat := 48

/-- `BOND_WS_HEAD`: bytes before a joined part's own bytes. -/
def bondWsHead : Nat := 64

/-- `BOND_WAIT_LINK`: the other link has placed the awaited writes. -/
def bondWaitLink : Nat := 1

/-- `BOND_WAIT_SIGNALS`: every earlier bonded signal is published. -/
def bondWaitSignals : Nat := 2

/-- Packets a message of `len` bytes crosses as. -/
def packets (len : Nat) : Nat :=
  (len + tbPacket - 1) / tbPacket

/-- The kinds of message that start with a head, `C_WRITE` and so on. -/
inductive Kind
  | write
  | inline
  | signal
  | fence
  | fenceAck
  | writeSignal
  | bondSignal
  | bondWriteSignal
  | bondSignalN
  | bondWriteN
  | bondInlineN
  deriving DecidableEq, Repr

/-- A kind's number on the wire. -/
def Kind.code : Kind → Nat
  | .write => 1
  | .inline => 2
  | .signal => 3
  | .fence => 4
  | .fenceAck => 5
  | .writeSignal => 6
  | .bondSignal => 7
  | .bondWriteSignal => 8
  | .bondSignalN => 9
  | .bondWriteN => 10
  | .bondInlineN => 11

/-- `struct head`. -/
structure Head where
  magic : Nat
  seq : Nat
  kind : Nat
  pad : Nat
  len : Nat
  off : Nat
  value : Nat
  deriving DecidableEq, Repr

namespace Head

/-- The bytes of a head, each field cut to its width. -/
def encode (head : Head) : List UInt8 :=
  lowBytes 4 head.magic ++ (lowBytes 4 head.seq ++ (lowBytes 2 head.kind ++
    (lowBytes 2 head.pad ++ (lowBytes 4 head.len ++ (lowBytes 8 head.off ++
      lowBytes 8 head.value)))))

/-- Read a head out of a message's first bytes; missing bytes read as zero. -/
def decode (bytes : List UInt8) : Head where
  magic := field bytes 0 4
  seq := field bytes 4 4
  kind := field bytes 8 2
  pad := field bytes 10 2
  len := field bytes 12 4
  off := field bytes 16 8
  value := field bytes 24 8

/-- Every field fits its width on the wire. -/
structure Fits (head : Head) : Prop where
  magic : head.magic < 2 ^ 32
  seq : head.seq < 2 ^ 32
  kind : head.kind < 2 ^ 16
  pad : head.pad < 2 ^ 16
  len : head.len < 2 ^ 32
  off : head.off < 2 ^ 64
  value : head.value < 2 ^ 64

@[simp] theorem length_encode (head : Head) : head.encode.length = 32 := by
  simp [encode]

/-- A head whose fields fit reads back as itself. -/
theorem decode_encode {head : Head} (fits : head.Fits) :
    decode head.encode = head := by
  obtain ⟨fitsMagic, fitsSeq, fitsKind, fitsPad, fitsLen, fitsOff,
    fitsValue⟩ := fits
  have lastField : lowBytes 8 head.value = lowBytes 8 head.value ++ [] := by
    simp
  unfold decode encode
  rw [lastField]
  simp only [field_append_right, length_lowBytes, field_lowBytes,
    Nat.le_refl, Nat.reduceLeDiff, Nat.reduceSub, Nat.reducePow]
  norm_num at fitsMagic fitsSeq fitsKind fitsPad fitsLen fitsOff fitsValue
  rw [Nat.mod_eq_of_lt fitsMagic, Nat.mod_eq_of_lt fitsSeq,
    Nat.mod_eq_of_lt fitsKind, Nat.mod_eq_of_lt fitsPad,
    Nat.mod_eq_of_lt fitsLen, Nat.mod_eq_of_lt fitsOff,
    Nat.mod_eq_of_lt fitsValue]

/-- The kind behind a head's first two fields. -/
theorem field_kind (head : Head) (rest : List UInt8) :
    field (head.encode ++ rest) 8 2 = head.kind % 2 ^ 16 := by
  simp only [encode, List.append_assoc]
  rw [field_append_right _ _ _ _ (by simp), length_lowBytes,
    field_append_right _ _ _ _ (by simp), length_lowBytes, field_lowBytes]
  norm_num

end Head

/-- A message as its sender means it.  `seq` is the link's message number on
the wire, `ord` the number of the write on its link, `sig` a bonded signal's
sequence number, `need` and `wait` write counts lane by lane before they are cut
to 32 bits.  A write's head carries in `bytes` what its payload will bring. -/
inductive Post
  | inline (seq ord roff : Nat) (bytes : List UInt8)
  | write (seq ord roff : Nat) (bytes : List UInt8)
  | payload (ord roff : Nat) (bytes : List UInt8)
  | signal (seq soff value : Nat)
  | fence (seq value : Nat)
  | fenceAck (seq value : Nat)
  | writeSignal (seq ord roff : Nat) (bytes : List UInt8) (soff value : Nat)
  | bondSignal (seq soff value sig : Nat) (need : Nat → Nat)
  | bondSignalN (seq soff value sig links : Nat) (need : Nat → Nat)
  | bondWriteSignal (seq ord roff : Nat) (bytes : List UInt8)
      (soff value sig : Nat) (need : Nat → Nat) (tail flags wait : Nat)
  | tail (ord roff : Nat) (bytes : List UInt8)
  | bondWriteN (seq ord roff : Nat) (bytes : List UInt8)
      (sig links : Nat) (wait : Nat → Nat) (flags : Nat)
  | bondInlineN (seq ord roff : Nat) (bytes : List UInt8)
      (soff value sig links : Nat) (need wait : Nat → Nat) (flags : Nat)

namespace Post

/-- The head of a message that has one. -/
def head : Post → Option Head
  | .inline seq _ roff bytes =>
      some ⟨magic, seq, Kind.inline.code, 0, bytes.length, roff, 0⟩
  | .write seq _ roff bytes =>
      some ⟨magic, seq, Kind.write.code, 0, bytes.length, roff, 0⟩
  | .payload _ _ _ => none
  | .signal seq soff value =>
      some ⟨magic, seq, Kind.signal.code, 0, 8, soff, value⟩
  | .fence seq value =>
      some ⟨magic, seq, Kind.fence.code, 0, 0, 0, value⟩
  | .fenceAck seq value =>
      some ⟨magic, seq, Kind.fenceAck.code, 0, 0, 0, value⟩
  | .writeSignal seq _ roff bytes _ value =>
      some ⟨magic, seq, Kind.writeSignal.code, 0, bytes.length, roff, value⟩
  | .bondSignal seq soff value _ _ =>
      some ⟨magic, seq, Kind.bondSignal.code, 0, 8, soff, value⟩
  | .bondSignalN seq soff value _ links _ =>
      some ⟨magic, seq, Kind.bondSignalN.code, links, 8, soff, value⟩
  | .bondWriteSignal seq _ roff bytes _ value _ _ _ flags _ =>
      some ⟨magic, seq, Kind.bondWriteSignal.code, flags, bytes.length, roff,
        value⟩
  | .tail _ _ _ => none
  | .bondWriteN seq _ roff bytes sig links _ flags =>
      some ⟨magic, seq, Kind.bondWriteN.code, links * 256 + flags,
        bytes.length, roff, sig⟩
  | .bondInlineN seq _ roff bytes _ value _ links _ _ flags =>
      some ⟨magic, seq, Kind.bondInlineN.code, links * 256 + flags,
        bytes.length, roff, value⟩

/-- What stands behind the head, or the whole message where there is none. -/
def body : Post → List UInt8
  | .inline _ _ _ bytes => bytes
  | .write _ _ _ _ => []
  | .payload _ _ bytes => bytes
  | .signal _ _ _ => []
  | .fence _ _ => []
  | .fenceAck _ _ => []
  | .writeSignal _ _ _ bytes soff _ =>
      lowBytes 8 soff ++ (List.replicate 8 0 ++ bytes)
  | .bondSignal _ _ _ sig need => lowBytes 8 sig ++ lowTable 4 need 2
  | .bondSignalN _ _ _ sig links need => lowBytes 8 sig ++ lowTable 4 need links
  | .bondWriteSignal _ _ _ bytes soff _ sig need rest _ wait =>
      lowBytes 8 soff ++ (lowBytes 8 sig ++ (lowTable 4 need 2 ++
        (lowBytes 4 rest ++ (lowBytes 4 wait ++ bytes))))
  | .tail _ _ bytes => bytes
  | .bondWriteN _ _ _ _ _ links wait _ => lowTable 4 wait links
  | .bondInlineN _ _ _ bytes soff _ sig links need wait _ =>
      lowBytes 8 soff ++ (lowBytes 8 sig ++ (lowTable 4 need links ++
        (lowTable 4 wait links ++ bytes)))

/-- The bytes of a message. -/
def wire (post : Post) : List UInt8 :=
  match post.head with
  | some head => head.encode ++ post.body
  | none => post.body

end Post

/-- What a store to the window was for: a write's bytes, a bonded signal's word
or a single link's signal word. -/
inductive Tag
  | placed (lane ord : Nat)
  | published (sig : Nat)
  | word
  deriving DecidableEq, Repr

/-- One store to the receiver's window. -/
structure Store where
  tag : Tag
  patch : Patch
  deriving DecidableEq, Repr

/-- A 64-bit word as it is stored. -/
def word (value : Nat) : List UInt8 :=
  lowBytes 8 value

@[simp] theorem length_word (value : Nat) : (word value).length = 8 := by
  simp [word]

/-- The stores a message of lane `lane` asks its receiver for, in order. -/
def Post.stores (lane : Nat) : Post → List Store
  | .inline _ ord roff bytes => [⟨.placed lane ord, ⟨roff, bytes⟩⟩]
  | .write _ _ _ _ => []
  | .payload ord roff bytes => [⟨.placed lane ord, ⟨roff, bytes⟩⟩]
  | .signal _ soff value => [⟨.word, ⟨soff, word value⟩⟩]
  | .fence _ _ => []
  | .fenceAck _ _ => []
  | .writeSignal _ ord roff bytes soff value =>
      [⟨.placed lane ord, ⟨roff, bytes⟩⟩, ⟨.word, ⟨soff, word value⟩⟩]
  | .bondSignal _ soff value sig _ =>
      [⟨.published sig, ⟨soff, word value⟩⟩]
  | .bondSignalN _ soff value sig _ _ =>
      [⟨.published sig, ⟨soff, word value⟩⟩]
  | .bondWriteSignal _ ord roff bytes soff value sig _ _ _ _ =>
      [⟨.placed lane ord, ⟨roff, bytes⟩⟩,
        ⟨.published sig, ⟨soff, word value⟩⟩]
  | .tail ord roff bytes => [⟨.placed lane ord, ⟨roff, bytes⟩⟩]
  | .bondWriteN _ _ _ _ _ _ _ _ => []
  | .bondInlineN _ ord roff bytes soff value sig _ _ _ _ =>
      [⟨.placed lane ord, ⟨roff, bytes⟩⟩,
        ⟨.published sig, ⟨soff, word value⟩⟩]

end Link
end Mcdma
