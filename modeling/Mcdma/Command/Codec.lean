import Mcdma.Verbs.Encoders
import Mathlib.Tactic.Ring

/-!
# Command entries

A command is posted to the device in an entry of 64 bytes, which holds the first
16 bytes of its input and of its output; longer ones continue in mailboxes.
There are two encoders: one for every command, and an older one for commands
that need no mailbox.
-/

namespace Mcdma
namespace Command

open Verbs (store)
open Verbs.Kernel (writeBe32 writeBe64)

/-- `cx5::Error`. -/
inductive Error
  | none
  | wrongDevice
  | removed
  | initializing
  | commandRevision
  | queueGeometry
  | invalidLength
  | invalidToken
  | busy
  | poisoned
  | delivery
  | firmware
  | tokenMismatch
  | invalidAddress
  | badMailbox
  | timeout
  deriving DecidableEq, Repr

def commandBytes : Nat := 64
def mailboxDataBytes : Nat := 512
def mailboxStride : Nat := 1024
def maxCommandBytes : Nat := 8192
def maxMailboxes : Nat := 16

/-- `read_be32`. -/
def readBe32 (m : Mem) (p : Nat) : UInt32 :=
  ((m p).toUInt32 <<< 24) ||| ((m (p + 1)).toUInt32 <<< 16) |||
    ((m (p + 2)).toUInt32 <<< 8) ||| (m (p + 3)).toUInt32

/-- `read_be64`. -/
def readBe64 (m : Mem) (p : Nat) : UInt64 :=
  ((readBe32 m p).toUInt64 <<< 32) ||| (readBe32 m (p + 4)).toUInt64

/-- The checksum of `count` bytes: all ones if their exclusive or is zero. -/
def signature (m : Mem) (start count : Nat) : UInt8 :=
  (List.range count).foldl (fun sum j => sum ^^^ m (start + j)) 0xff

/-- The first 16 bytes of the input, filled up with zeros. -/
def savedInput (input : Mem) (n : Nat) : List UInt8 :=
  input.read 0 (min n 16) ++ List.replicate (16 - min n 16) 0

/-- An address of mailboxes that a command needs. -/
def dmaMissing (dma : UInt64) : Bool :=
  dma == 0 || (dma &&& UInt64.ofNat (mailboxStride - 1)) != 0

/-- `encode_command`: the answer and the entry. -/
def encodeCommand (e input : Mem) (n out : Nat) (token : UInt8)
    (inputDma outputDma : UInt64) : Error × Mem :=
  if n < 8 ∨ out < 8 ∨ maxCommandBytes < n ∨ maxCommandBytes < out then
    (.invalidLength, e)
  else if token = 0 then (.invalidToken, e)
  else if (16 < n ∧ dmaMissing inputDma) ∨ (16 < out ∧ dmaMissing outputDma)
    then (.invalidAddress, e)
  else
    let e := store e 0 (List.replicate commandBytes 0)
    let e := store e 0 [7]
    let e := writeBe32 e 4 (UInt32.ofNat n)
    let e := writeBe64 e 8 (if 16 < n then inputDma else 0)
    let e := store e 16 (savedInput input n)
    let e := writeBe64 e 48 (if 16 < out then outputDma else 0)
    let e := writeBe32 e 56 (UInt32.ofNat out)
    let e := store e 60 [token]
    let e := store e 63 [1]
    (.none, store e 61 [signature e 0 commandBytes])

/-- `encode_inline`. -/
def encodeInline (e input : Mem) (n out : Nat) (token : UInt8) : Error × Mem :=
  if n < 8 ∨ 16 < n ∨ out < 8 ∨ 16 < out then (.invalidLength, e)
  else if token = 0 then (.invalidToken, e)
  else
    let e := store e 0 (List.replicate commandBytes 0)
    let e := store e 0 [7]
    let e := writeBe32 e 4 (UInt32.ofNat n)
    let e := store e 16 ((savedInput input n).take n)
    let e := writeBe32 e 56 (UInt32.ofNat out)
    let e := store e 60 [token]
    let e := store e 63 [1]
    (.none, store e 61 [signature e 0 commandBytes])

/-! ## Numbers in memory -/

section

/-- A byte that was stored. -/
theorem store_at (m : Mem) (p : Nat) (bytes : List UInt8) {index : Nat}
    (inside : index < bytes.length) :
    store m p bytes (p + index) = bytes.getD index 0 := by
  have covered : (⟨p, bytes⟩ : Patch).Covers (p + index) := by
    simp only [Patch.Covers, Patch.stop]
    omega
  rw [store, Patch.apply_of_covers covered, Nat.add_sub_cancel_left]

/-- A byte elsewhere. -/
theorem store_other (m : Mem) {p address : Nat} {bytes : List UInt8}
    (apart : address < p ∨ p + bytes.length ≤ address) :
    store m p bytes address = m address := by
  apply Patch.apply_of_not_covers
  simp only [Patch.Covers, Patch.stop]
  omega

theorem writeBe32_other (m : Mem) {p address : Nat} (v : UInt32)
    (apart : address < p ∨ p + 4 ≤ address) :
    writeBe32 m p v address = m address := by
  rw [Verbs.Kernel.writeBe32_eq]
  exact store_other m apart

theorem writeBe64_other (m : Mem) {p address : Nat} (v : UInt64)
    (apart : address < p ∨ p + 8 ≤ address) :
    writeBe64 m p v address = m address := by
  rw [writeBe64, writeBe32_other _ _ (by omega), writeBe32_other _ _ (by omega)]

theorem readBe32_congr {m other : Mem} {p q : Nat}
    (same : ∀ index < 4, m (p + index) = other (q + index)) :
    readBe32 m p = readBe32 other q := by
  have first := same 0 (by decide)
  rw [Nat.add_zero, Nat.add_zero] at first
  rw [readBe32, readBe32, first, same 1 (by decide), same 2 (by decide),
    same 3 (by decide)]

theorem readBe64_congr {m other : Mem} {p q : Nat}
    (same : ∀ index < 8, m (p + index) = other (q + index)) :
    readBe64 m p = readBe64 other q := by
  have high : readBe32 m p = readBe32 other q :=
    readBe32_congr fun index inside => same index (by omega)
  have low : readBe32 m (p + 4) = readBe32 other (q + 4) := by
    refine readBe32_congr fun index inside => ?_
    rw [Nat.add_assoc, Nat.add_assoc]
    exact same (4 + index) (by omega)
  rw [readBe64, readBe64, high, low]

/-- Shifted bytes do not overlap. -/
theorem shifted {value shift : Nat} (small : value < 256) (low : shift ≤ 24) :
    (value <<< shift) % 2 ^ 32 = value * 2 ^ shift := by
  rw [Nat.shiftLeft_eq, Nat.mod_eq_of_lt]
  calc value * 2 ^ shift ≤ 255 * 2 ^ 24 :=
        Nat.mul_le_mul (by omega) (Nat.pow_le_pow_right (by decide) low)
    _ < 2 ^ 32 := by decide

theorem or_low (high shift : Nat) {low : Nat} (small : low < 2 ^ shift) :
    (high * 2 ^ shift) ||| low = high * 2 ^ shift + low := by
  rw [← Nat.shiftLeft_eq, Nat.shiftLeft_add_eq_or_of_lt small]

/-- Four bytes put together. -/
theorem or_bytes {a b c d : Nat} (b1 : b < 256) (b2 : c < 256) (b3 : d < 256) :
    ((a * 2 ^ 24 ||| b * 2 ^ 16) ||| c * 2 ^ 8) ||| d =
      ((a * 2 ^ 8 + b) * 2 ^ 8 + c) * 2 ^ 8 + d := by
  have first : a * 2 ^ 24 ||| b * 2 ^ 16 = (a * 2 ^ 8 + b) * 2 ^ 16 := by
    rw [or_low a 24 (by omega)]
    ring
  have second : (a * 2 ^ 8 + b) * 2 ^ 16 ||| c * 2 ^ 8 =
      ((a * 2 ^ 8 + b) * 2 ^ 8 + c) * 2 ^ 8 := by
    rw [or_low (a * 2 ^ 8 + b) 16 (by omega)]
    ring
  rw [first, second, or_low _ 8 (by omega)]

theorem toNat_readBe32 (m : Mem) (p : Nat) :
    (readBe32 m p).toNat = (((m p).toNat * 2 ^ 8 + (m (p + 1)).toNat) * 2 ^ 8 +
      (m (p + 2)).toNat) * 2 ^ 8 + (m (p + 3)).toNat := by
  have b0 := (m p).toNat_lt
  have b1 := (m (p + 1)).toNat_lt
  have b2 := (m (p + 2)).toNat_lt
  have b3 := (m (p + 3)).toNat_lt
  have eight : (8 : UInt32).toNat % 32 = 8 := rfl
  have sixteen : (16 : UInt32).toNat % 32 = 16 := rfl
  have most : (24 : UInt32).toNat % 32 = 24 := rfl
  simp only [readBe32, UInt32.toNat_or, UInt32.toNat_shiftLeft,
    UInt8.toNat_toUInt32, eight, sixteen, most]
  rw [shifted b0 (by decide), shifted b1 (by decide), shifted b2 (by decide),
    or_bytes b1 b2 b3]

/-- The bytes of a 32-bit number, the highest first. -/
theorem bytes_putBe32 (m : Mem) (p : Nat) (v : UInt32) :
    (writeBe32 m p v p).toNat = v.toNat / 2 ^ 24 ∧
      (writeBe32 m p v (p + 1)).toNat = v.toNat / 2 ^ 16 % 256 ∧
      (writeBe32 m p v (p + 2)).toNat = v.toNat / 2 ^ 8 % 256 ∧
      (writeBe32 m p v (p + 3)).toNat = v.toNat % 256 := by
  have bound := v.toNat_lt
  have eight : (8 : UInt32).toNat % 32 = 8 := rfl
  have sixteen : (16 : UInt32).toNat % 32 = 16 := rfl
  have most : (24 : UInt32).toNat % 32 = 24 := rfl
  have byte : ∀ index < 4, store m p [(v >>> 24).toUInt8,
      (v >>> 16).toUInt8, (v >>> 8).toUInt8, v.toUInt8] (p + index) =
        [(v >>> 24).toUInt8, (v >>> 16).toUInt8, (v >>> 8).toUInt8,
          v.toUInt8].getD index 0 :=
    fun index inside => store_at m p _ inside
  have byte0 := byte 0 (by decide)
  rw [Nat.add_zero] at byte0
  rw [Verbs.Kernel.writeBe32_eq, Verbs.User.putBe32, byte0,
    byte 1 (by decide), byte 2 (by decide), byte 3 (by decide)]
  simp only [List.getD_cons_zero, List.getD_cons_succ, UInt32.toNat_toUInt8,
    UInt32.toNat_shiftRight, eight, sixteen, most, Nat.shiftRight_eq_div_pow]
  exact ⟨Nat.mod_eq_of_lt (by omega), trivial, trivial, trivial⟩

/-- A number written is read back. -/
theorem readBe32_writeBe32 (m : Mem) (p : Nat) (v : UInt32) :
    readBe32 (writeBe32 m p v) p = v := by
  obtain ⟨b0, b1, b2, b3⟩ := bytes_putBe32 m p v
  apply UInt32.toNat_inj.mp
  rw [toNat_readBe32, b0, b1, b2, b3]
  omega

theorem readBe64_writeBe64 (m : Mem) (p : Nat) (v : UInt64) :
    readBe64 (writeBe64 m p v) p = v := by
  have high : readBe32 (writeBe64 m p v) p = (v >>> 32).toUInt32 := by
    refine Eq.trans ?_ (readBe32_writeBe32 m p (v >>> 32).toUInt32)
    refine readBe32_congr fun index inside => ?_
    rw [writeBe64, writeBe32_other _ _ (by omega)]
  have low : readBe32 (writeBe64 m p v) (p + 4) = v.toUInt32 :=
    readBe32_writeBe32 _ _ _
  have bound := v.toNat_lt
  have half : (32 : UInt64).toNat % 64 = 32 := rfl
  rw [readBe64, high, low]
  apply UInt64.toNat_inj.mp
  simp only [UInt64.toNat_or, UInt64.toNat_shiftLeft, UInt32.toNat_toUInt64,
    UInt64.toNat_toUInt32, UInt64.toNat_shiftRight, half,
    Nat.shiftRight_eq_div_pow, Nat.shiftLeft_eq]
  rw [Nat.mod_eq_of_lt (by omega), or_low _ 32 (by omega)]
  omega

/-! ## Checksums -/

/-- The exclusive or of a run of bytes. -/
def xorBytes (m : Mem) (start count : Nat) : UInt8 :=
  (List.range count).foldl (fun sum j => sum ^^^ m (start + j)) 0

theorem xorBytes_succ (m : Mem) (start count : Nat) :
    xorBytes m start (count + 1) = xorBytes m start count ^^^
      m (start + count) := by
  rw [xorBytes, List.range_succ, List.foldl_append]
  rfl

theorem signature_eq (m : Mem) (start count : Nat) :
    signature m start count = 0xff ^^^ xorBytes m start count := by
  induction count with
  | zero => exact UInt8.xor_zero.symm
  | succ count inductionHypothesis =>
      rw [xorBytes_succ, ← UInt8.xor_assoc, ← inductionHypothesis, signature,
        List.range_succ, List.foldl_append]
      rfl

theorem xorBytes_congr {m other : Mem} {start start' count : Nat}
    (same : ∀ j < count, m (start + j) = other (start' + j)) :
    xorBytes m start count = xorBytes other start' count := by
  induction count with
  | zero => rfl
  | succ count inductionHypothesis =>
      rw [xorBytes_succ, xorBytes_succ, same count (by omega),
        inductionHypothesis fun j below => same j (by omega)]

theorem signature_congr {m other : Mem} {start start' count : Nat}
    (same : ∀ j < count, m (start + j) = other (start' + j)) :
    signature m start count = signature other start' count := by
  rw [signature_eq, signature_eq, xorBytes_congr same]

/-- A zero does not change a checksum. -/
theorem signature_of_zero {m : Mem} {start count : Nat}
    (zero : m (start + count) = 0) :
    signature m start (count + 1) = signature m start count := by
  rw [signature_eq, signature_eq, xorBytes_succ, zero, UInt8.xor_zero]

/-- A byte stored where a zero was goes into the exclusive or. -/
theorem xorBytes_store (m : Mem) {start count place : Nat} (value : UInt8)
    (inside : place < count) (zero : m (start + place) = 0) :
    xorBytes (store m (start + place) [value]) start count =
      xorBytes m start count ^^^ value := by
  induction count with
  | zero => omega
  | succ count inductionHypothesis =>
      rw [xorBytes_succ, xorBytes_succ]
      rcases Nat.lt_succ_iff_lt_or_eq.mp inside with before | last
      · rw [inductionHypothesis before,
          store_other m (by simp only [List.length_singleton]; omega),
          UInt8.xor_assoc, UInt8.xor_assoc, UInt8.xor_comm value]
      · subst last
        have here := store_at m (start + place) [value] (by simp : 0 < 1)
        rw [Nat.add_zero] at here
        have rest : xorBytes (store m (start + place) [value]) start place =
            xorBytes m start place :=
          xorBytes_congr fun j below => store_other m (by omega)
        rw [here, zero, rest, UInt8.xor_zero]
        rfl

/-- With its signature in place of a zero, a run sums up to ones. -/
theorem xorBytes_signed (m : Mem) (start count place : Nat)
    (inside : place < count) (zero : m (start + place) = 0) :
    xorBytes (store m (start + place) [signature m start count]) start count =
      0xff := by
  rw [xorBytes_store m _ inside zero, signature_eq, UInt8.xor_comm 0xff,
    ← UInt8.xor_assoc, UInt8.xor_self, UInt8.zero_xor]

/-! ## The two encoders -/

/-- A run of zeros. -/
def Blank (m : Mem) (p count : Nat) : Prop :=
  ∀ index < count, m (p + index) = 0

theorem Blank.store {m : Mem} {p count q : Nat} {bytes : List UInt8}
    (blank : Blank m p count)
    (apart : q + bytes.length ≤ p ∨ p + count ≤ q) :
    Blank (store m q bytes) p count := by
  intro index inside
  rw [store_other m (by omega), blank index inside]

theorem Blank.writeBe32 {m : Mem} {p count q : Nat} (v : UInt32)
    (blank : Blank m p count) (apart : q + 4 ≤ p ∨ p + count ≤ q) :
    Blank (writeBe32 m q v) p count := by
  intro index inside
  rw [writeBe32_other m _ (by omega), blank index inside]

theorem Blank.writeBe64 {m : Mem} {p count q : Nat} (v : UInt64)
    (blank : Blank m p count) (apart : q + 8 ≤ p ∨ p + count ≤ q) :
    Blank (writeBe64 m q v) p count := by
  intro index inside
  rw [writeBe64_other m _ (by omega), blank index inside]

/-- Zeros stored over zeros change nothing. -/
theorem Blank.store_zeros {m : Mem} {p count : Nat} (blank : Blank m p count) :
    Verbs.store m p (List.replicate count 0) = m := by
  funext address
  by_cases inside : p ≤ address ∧ address < p + count
  · obtain ⟨index, rfl⟩ := Nat.exists_eq_add_of_le inside.1
    rw [store_at m p _ (by simp; omega), blank index (by omega)]
    exact List.getD_replicate 0 (by omega)
  · rw [store_other m (by simp; omega)]

theorem Blank.writeBe32_zero {m : Mem} {p : Nat} (blank : Blank m p 4) :
    Verbs.Kernel.writeBe32 m p 0 = m := by
  rw [Verbs.Kernel.writeBe32_eq]
  exact blank.store_zeros

theorem Blank.writeBe64_zero {m : Mem} {p : Nat} (blank : Blank m p 8) :
    Verbs.Kernel.writeBe64 m p 0 = m := by
  have high : Blank m p 4 := fun index inside => blank index (by omega)
  have low : Blank m (p + 4) 4 := by
    intro index inside
    rw [Nat.add_assoc]
    exact blank (4 + index) (by omega)
  have halves : ((0 : UInt64) >>> 32).toUInt32 = 0 ∧
      (0 : UInt64).toUInt32 = 0 := ⟨rfl, rfl⟩
  rw [Verbs.Kernel.writeBe64, halves.1, halves.2, high.writeBe32_zero,
    low.writeBe32_zero]

/-- The entry after it is cleared. -/
theorem blank_cleared (m : Mem) {p count : Nat}
    (inside : p + count ≤ commandBytes) :
    Blank (store m 0 (List.replicate commandBytes 0)) p count := by
  intro index below
  have byte := store_at m 0 (List.replicate commandBytes 0)
    (by simp only [List.length_replicate]; omega : p + index < _)
  rw [Nat.zero_add] at byte
  rw [byte]
  exact List.getD_replicate 0 (by omega)

/-- The rest of a short input is zeros. -/
theorem store_savedInput {m input : Mem} {n : Nat} (short : n ≤ 16)
    (blank : Blank m 16 16) :
    store m 16 (savedInput input n) =
      store m 16 ((savedInput input n).take n) := by
  have few : min n 16 = n := Nat.min_eq_left short
  have front : (savedInput input n).take n = input.read 0 n := by
    rw [savedInput, few, List.take_left']
    exact Mem.length_read _ _ _
  have behind : Blank (store m 16 (input.read 0 n)) (16 + n) (16 - n) := by
    refine Blank.store ?_ (Or.inl (by simp))
    intro index inside
    rw [Nat.add_assoc]
    exact blank (n + index) (by omega)
  have zeros := behind.store_zeros
  rw [front, savedInput, few]
  conv_rhs => rw [← zeros]
  rw [store, store, store, ← Patch.apply_split, Mem.length_read]

/-- The start of an entry, up to its input. -/
def opened (e : Mem) (n : Nat) : Mem :=
  writeBe32 (store (store e 0 (List.replicate commandBytes 0)) 0 [7]) 4
    (UInt32.ofNat n)

theorem blank_opened (e : Mem) (n : Nat) {p count : Nat} (behind : 8 ≤ p)
    (inside : p + count ≤ commandBytes) : Blank (opened e n) p count :=
  ((blank_cleared e inside).store
    (Or.inl (by simp only [List.length_singleton]; omega))).writeBe32 _
      (Or.inl behind)

/-- Both encoders answer the same and write the same entry for a command that
needs no mailbox. -/
theorem encodeCommand_inline (e input : Mem) {n out : Nat} (token : UInt8)
    (inputDma outputDma : UInt64) (shortIn : n ≤ 16) (shortOut : out ≤ 16) :
    encodeCommand e input n out token inputDma outputDma =
      encodeInline e input n out token := by
  have noInput : ¬ 16 < n := by omega
  have noOutput : ¬ 16 < out := by omega
  have lengths : (n < 8 ∨ out < 8 ∨ maxCommandBytes < n ∨
      maxCommandBytes < out) ↔ n < 8 ∨ 16 < n ∨ out < 8 ∨ 16 < out := by
    unfold maxCommandBytes
    omega
  have inputAddress : writeBe64 (opened e n) 8 0 = opened e n :=
    (blank_opened e n (by decide) (by decide)).writeBe64_zero
  have inputBytes : store (opened e n) 16 (savedInput input n) =
      store (opened e n) 16 ((savedInput input n).take n) :=
    store_savedInput shortIn (blank_opened e n (by decide) (by decide))
  have outputAddress :
      writeBe64 (store (opened e n) 16 ((savedInput input n).take n)) 48 0 =
        store (opened e n) 16 ((savedInput input n).take n) := by
    refine Blank.writeBe64_zero
      ((blank_opened e n (by decide) (by decide)).store (Or.inl ?_))
    rw [List.length_take]
    omega
  unfold opened at inputAddress inputBytes outputAddress
  simp only [encodeCommand, encodeInline, lengths, noInput, noOutput,
    false_and, or_self, if_false, inputAddress, inputBytes, outputAddress]

/-- The 64 bytes of an entry sum up to ones. -/
theorem xorBytes_encodeInline (e input : Mem) {n out : Nat} {token : UInt8}
    (accepted : (encodeInline e input n out token).1 = .none) :
    xorBytes (encodeInline e input n out token).2 0 commandBytes = 0xff := by
  unfold encodeInline at accepted ⊢
  split at accepted
  · simp at accepted
  · next lengths =>
      split at accepted
      · simp at accepted
      · next nonempty =>
          rw [if_neg lengths, if_neg nonempty]
          dsimp only
          have inputShort : ((savedInput input n).take n).length ≤ 16 := by
            rw [List.length_take]
            omega
          have start : Blank (opened e n) 61 1 :=
            blank_opened e n (by decide) (by decide)
          have written : Blank (store (opened e n) 16
              ((savedInput input n).take n)) 61 1 :=
            start.store (Or.inl (by omega))
          have sized := written.writeBe32 (UInt32.ofNat out)
            (Or.inl (by decide : 56 + 4 ≤ 61))
          have tagged := sized.store
            (Or.inl (by simp : 60 + [token].length ≤ 61))
          have owned : Blank (store _ 63 [1]) 61 1 :=
            tagged.store (Or.inr (by decide))
          exact xorBytes_signed _ 0 commandBytes 61 (by decide)
            (owned 0 (by decide))

end

end Command
end Mcdma
