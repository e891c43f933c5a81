import Mcdma.Cli.Canonical
import Mathlib.Data.List.GetD
import Mathlib.Data.Nat.Bitwise

/-!
# The address of an adapter

A hardware address has six bytes, and the link-local address made from it four
words behind a prefix with three words of zeros.
-/

namespace Mcdma
namespace Cli

open Text

/-! ## Hardware addresses -/

/-- A byte in two digits. -/
structure ByteText (part : List Char) : Prop where
  two : part.length = 2
  digits : ∀ c ∈ part, isHex c = true

section

variable {part : List Char} {parts : List (List Char)}

theorem ByteText.word (text : ByteText part) : Word ':' part := by
  refine ⟨fun empty => ?_, fun colon => ?_⟩
  · have length := text.two
    rw [empty] at length
    simp at length
  · have digits := text.digits ':' colon
    revert digits
    decide

theorem ByteText.padStart2 (accepted : isByte part = true) :
    ByteText (Cli.padStart2 part) := by
  simp only [isByte, Bool.and_eq_true, List.all_eq_true, Bool.or_eq_true,
    beq_iff_eq] at accepted
  obtain ⟨digits, length⟩ := accepted
  refine ⟨?_, fun c member => ?_⟩
  · rw [Cli.padStart2, List.length_append, List.length_replicate]
    omega
  · rcases List.mem_append.mp member with zero | here
    · rw [(List.mem_replicate.mp zero).2]
      decide
    · exact digits c here

/-- The parts of an accepted address. -/
theorem normMac_parts {s mac : List Char} (accepted : normMac s = some mac) :
    ∃ parts, mac = join ':' parts ∧ parts.length = 6 ∧
      ∀ part ∈ parts, ByteText part := by
  unfold normMac at accepted
  split at accepted
  · simp at accepted
  · dsimp only at accepted
    split at accepted
    · simp at accepted
    · next sound =>
        simp only [ne_eq, not_or, not_not, Bool.not_eq_false,
          List.all_eq_true] at sound
        refine ⟨_, (Option.some.inj accepted).symm, ?_, ?_⟩
        · rw [List.length_map]
          exact sound.1
        · intro part member
          obtain ⟨source, among, rfl⟩ := List.mem_map.mp member
          exact ByteText.padStart2 (sound.2 source among)

/-- Two digits stand for a byte and are printed again. -/
theorem ByteText.spec (text : ByteText part) :
    parseInt part < 256 ∧ Cli.padStart2 (hex (parseInt part)) = part := by
  obtain ⟨c, d, rfl⟩ := List.length_eq_two.mp text.two
  obtain ⟨highLt, high⟩ := digitChar_digit (text.digits c (by simp))
  obtain ⟨lowLt, low⟩ := digitChar_digit (text.digits d (by simp))
  have value : parseInt [c, d] = 16 * digit c + digit d := by
    rw [parseInt, parseHex_digits (by simp) text.digits]
    simp [numeral]
  rw [value]
  refine ⟨by omega, ?_⟩
  rcases Nat.eq_zero_or_pos (digit c) with zero | positive
  · rw [zero, Nat.mul_zero, Nat.zero_add, hex,
      Nat.toDigits_of_lt_base lowLt, low]
    rw [zero] at high
    rw [← high]
    rfl
  · have quotient : (16 * digit c + digit d) / 16 = digit c := by omega
    have remainder : (16 * digit c + digit d) % 16 = digit d := by omega
    rw [hex, Nat.toDigits_of_base_le (by decide) (by omega), quotient,
      remainder, Nat.toDigits_of_lt_base highLt, high, low]
    rfl

/-- The bytes of an address. -/
theorem bytes_of_parts (six : parts.length = 6)
    (all : ∀ part ∈ parts, ByteText part) :
    ((join ':' parts).splitOn ':').map parseInt = parts.map parseInt ∧
      parts.map (fun part => Cli.padStart2 (hex (parseInt part))) = parts := by
  have nonempty : parts ≠ [] := by
    rintro rfl
    simp at six
  refine ⟨?_, ?_⟩
  · rw [splitOn_join nonempty fun part member => (all part member).word]
  · calc parts.map (fun part => Cli.padStart2 (hex (parseInt part))) =
          parts.map id := List.map_congr_left fun part member =>
            (all part member).spec.2
      _ = parts := List.map_id parts

end

/-! ## The words of the address -/

section

variable {b0 b1 b2 b3 b4 b5 : Nat}

/-- A byte above a byte. -/
theorem shiftLeft_or (high : Nat) {low : Nat} (small : low < 256) :
    (high <<< 8) ||| low = high * 256 + low := by
  rw [← Nat.shiftLeft_add_eq_or_of_lt small, Nat.shiftLeft_eq]

theorem xor_two_lt (small : b0 < 256) : b0 ^^^ 2 < 256 :=
  Nat.xor_lt_two_pow (n := 8) small (by decide)

theorem euiWords_eq (l1 : b1 < 256) (l3 : b3 < 256) (l5 : b5 < 256) :
    euiWords [b0, b1, b2, b3, b4, b5] =
      [(b0 ^^^ 2) * 256 + b1, b2 * 256 + 255, 0xfe00 + b3,
        b4 * 256 + b5] := by
  have third : 0xfe00 ||| b3 = 0xfe00 + b3 := shiftLeft_or 0xfe l3
  simp only [euiWords, List.getD_cons_zero, List.getD_cons_succ,
    shiftLeft_or _ l1, shiftLeft_or _ l5, third,
    shiftLeft_or _ (by decide : 255 < 256)]

/-- The first word is zero for one pair of bytes only. -/
theorem firstWord_eq_zero :
    (b0 ^^^ 2) * 256 + b1 = 0 ↔ b0 = 2 ∧ b1 = 0 := by
  have same : b0 ^^^ 2 = 0 ↔ b0 = 2 := Nat.xor_eq_zero_iff
  omega

/-- The words give the bytes back. -/
theorem macBytes_euiWords (l1 : b1 < 256) (l3 : b3 < 256)
    (l5 : b5 < 256) :
    macBytes (euiWords [b0, b1, b2, b3, b4, b5]) =
      some [b0, b1, b2, b3, b4, b5] := by
  have first : ((b0 ^^^ 2) * 256 + b1) / 256 ^^^ 2 = b0 := by
    have quotient : ((b0 ^^^ 2) * 256 + b1) / 256 = b0 ^^^ 2 := by omega
    rw [quotient, Nat.xor_assoc, Nat.xor_self, Nat.xor_zero]
  have low : ∀ n : Nat, n &&& 0xff = n % 256 := fun n =>
    Nat.and_two_pow_sub_one_eq_mod n 8
  have high : ∀ n : Nat, n >>> 8 = n / 256 := fun n =>
    Nat.shiftRight_eq_div_pow n 8
  rw [euiWords_eq l1 l3 l5, macBytes]
  simp only [List.getD_cons_zero, List.getD_cons_succ, low, high]
  rw [if_neg (by omega), first]
  congr 2
  simp only [List.cons.injEq, and_true]
  omega

end

/-! ## The address -/

section

variable {w0 w1 w2 w3 : Nat}

/-- Zeros end where a word is not zero. -/
theorem longestRun_head (n0 : w0 ≠ 0) (n1 : w1 ≠ 0) (n2 : w2 ≠ 0) :
    longestRun [0xfe80, 0, 0, 0, w0, w1, w2, w3] 8 0 (none, 0) =
      (some 1, 3) := by
  by_cases n3 : w3 = 0 <;> simp [longestRun, zeroRun, n0, n1, n2, n3]

/-- A first word of zero is left out with the prefix. -/
theorem longestRun_head_zero (n1 : w1 ≠ 0) (n2 : w2 ≠ 0) :
    longestRun [0xfe80, 0, 0, 0, 0, w1, w2, w3] 8 0 (none, 0) =
      (some 1, 4) := by
  by_cases n3 : w3 = 0 <;> simp [longestRun, zeroRun, n1, n2, n3]

theorem render_head (n0 : w0 ≠ 0) (n1 : w1 ≠ 0) (n2 : w2 ≠ 0) :
    render [0xfe80, 0, 0, 0, w0, w1, w2, w3] =
      "fe80::".toList ++ join ':' ([w0, w1, w2, w3].map hex) := by
  rw [render, longestRun_head n0 n1 n2]
  rfl

theorem render_head_zero (n1 : w1 ≠ 0) (n2 : w2 ≠ 0) :
    render [0xfe80, 0, 0, 0, 0, w1, w2, w3] =
      "fe80::".toList ++ join ':' ([w1, w2, w3].map hex) := by
  rw [render, longestRun_head_zero n1 n2]
  rfl

/-- The prefix with three words left out is read as eight words. -/
theorem normIp6_head (l0 : w0 ≤ 0xffff) (l1 : w1 ≤ 0xffff)
    (l2 : w2 ≤ 0xffff) (l3 : w3 ≤ 0xffff) :
    normIp6 ("fe80::".toList ++ join ':' ([w0, w1, w2, w3].map hex)) =
      some (render [0xfe80, 0, 0, 0, w0, w1, w2, w3]) := by
  have small : ∀ w ∈ [0xfe80, 0, 0, 0, w0, w1, w2, w3], w ≤ 0xffff := by
    simp [l0, l1, l2, l3]
  have zeros : ZeroRun [0xfe80, 0, 0, 0, w0, w1, w2, w3] 1 3 :=
    ⟨by simp, rfl⟩
  exact normIp6_zeroRun rfl small zeros

theorem splitOn_words {words : List Nat} (nonempty : words ≠ []) :
    (join ':' (words.map hex)).splitOn ':' = words.map hex :=
  splitOn_join (by simpa using nonempty) (words_hex words)

theorem parseInt_words (words : List Nat) :
    (words.map hex).map parseInt = words := by
  rw [List.map_map]
  calc words.map (parseInt ∘ hex) = words.map id :=
        List.map_congr_left fun number _ => by simp [parseInt]
    _ = words := List.map_id words

/-- The address is its own canonical form unless its first word is zero. -/
theorem normIp6_head_iff (l0 : w0 ≤ 0xffff) (l1 : w1 ≤ 0xffff)
    (l2 : w2 ≤ 0xffff) (l3 : w3 ≤ 0xffff) (n1 : w1 ≠ 0) (n2 : w2 ≠ 0) :
    normIp6 ("fe80::".toList ++ join ':' ([w0, w1, w2, w3].map hex)) =
      some ("fe80::".toList ++ join ':' ([w0, w1, w2, w3].map hex)) ↔
        w0 ≠ 0 := by
  rw [normIp6_head l0 l1 l2 l3]
  constructor
  · rintro same rfl
    rw [render_head_zero n1 n2] at same
    have text := List.append_cancel_left (Option.some.inj same)
    have split := congrArg (fun part => (part.splitOn ':').length) text
    simp only [splitOn_words (List.cons_ne_nil _ _), List.length_map,
      List.length_cons, List.length_nil] at split
    omega
  · intro n0
    rw [render_head n0 n1 n2]

/-- The address gives the hardware address back. -/
theorem macFromEui64_head (l0 : w0 ≤ 0xffff) (l1 : w1 ≤ 0xffff)
    (l2 : w2 ≤ 0xffff) (l3 : w3 ≤ 0xffff) (n0 : w0 ≠ 0) (n1 : w1 ≠ 0)
    (n2 : w2 ≠ 0) {bytes : List Nat}
    (given : macBytes [w0, w1, w2, w3] = some bytes) :
    macFromEui64 ("fe80::".toList ++ join ':' ([w0, w1, w2, w3].map hex)) =
      some (join ':' (bytes.map fun x => padStart2 (hex x))) := by
  have back : (("fe80::".toList ++ join ':' ([w0, w1, w2, w3].map hex)).drop
      6).splitOn ':' = [w0, w1, w2, w3].map hex :=
    splitOn_words (List.cons_ne_nil _ _)
  have front : ("fe80::".toList ++ join ':' ([w0, w1, w2, w3].map hex)).take
      6 = "fe80::".toList := rfl
  rw [macFromEui64,
    (normIp6_head_iff l0 l1 l2 l3 n1 n2).mpr n0]
  simp only [front, back, ne_eq, not_true_eq_false, if_false,
    parseInt_words, given]
  rfl

end

/-! ## Every spelling -/

/-- The address made from a hardware address is in canonical form and gives
the hardware address back. -/
def Canonical (s : List Char) : Prop :=
  ∃ address, eui64 s = some address ∧ normIp6 address = some address ∧
    macFromEui64 address = normMac s

/-- The bytes of an accepted address. -/
theorem normMac_bytes {s mac : List Char} (accepted : normMac s = some mac) :
    ∃ b0 b1 b2 b3 b4 b5, (∀ b ∈ [b0, b1, b2, b3, b4, b5], b < 256) ∧
      (mac.splitOn ':').map parseInt = [b0, b1, b2, b3, b4, b5] ∧
      join ':' ([b0, b1, b2, b3, b4, b5].map fun x => padStart2 (hex x)) =
        mac := by
  obtain ⟨parts, rfl, six, all⟩ := normMac_parts accepted
  obtain ⟨values, texts⟩ := bytes_of_parts six all
  have length : (parts.map parseInt).length = 6 := by
    rw [List.length_map, six]
  obtain ⟨b0, b1, b2, b3, b4, b5, bytes⟩ :
      ∃ b0 b1 b2 b3 b4 b5, parts.map parseInt = [b0, b1, b2, b3, b4, b5] := by
    match parts.map parseInt, length with
    | [b0, b1, b2, b3, b4, b5], _ => exact ⟨b0, b1, b2, b3, b4, b5, rfl⟩
  refine ⟨b0, b1, b2, b3, b4, b5, fun b member => ?_, ?_, ?_⟩
  · rw [← bytes] at member
    obtain ⟨part, among, rfl⟩ := List.mem_map.mp member
    exact (all part among).spec.1
  · rw [values, bytes]
  · rw [← bytes, List.map_map]
    exact congrArg (join ':') texts

/-- The text of a byte. -/
theorem padStart2_hex {b : Nat} (small : b < 256) :
    padStart2 (hex b) = [Nat.digitChar (b / 16), Nat.digitChar (b % 16)] := by
  by_cases one : b < 16
  · have quotient : b / 16 = 0 := by omega
    rw [hex, Nat.toDigits_of_lt_base one, quotient, Nat.mod_eq_of_lt one]
    rfl
  · rw [hex, Nat.toDigits_of_base_le (by decide) (by omega),
      Nat.toDigits_of_lt_base (by omega)]
    rfl

theorem digitChar_inj {m n : Nat} (small : m < 16) (other : n < 16) :
    Nat.digitChar m = Nat.digitChar n ↔ m = n := by
  refine ⟨fun same => ?_, congrArg Nat.digitChar⟩
  rw [← (digit_digitChar small).1, same, (digit_digitChar other).1]

/-- The text of two bytes shows which they are. -/
theorem take_eq_iff {b0 b1 b2 b3 b4 b5 : Nat} (l0 : b0 < 256)
    (l1 : b1 < 256) :
    (join ':' ([b0, b1, b2, b3, b4, b5].map
      fun x => padStart2 (hex x))).take 5 = "02:00".toList ↔
        b0 = 2 ∧ b1 = 0 := by
  have text : (join ':' ([b0, b1, b2, b3, b4, b5].map
      fun x => padStart2 (hex x))).take 5 =
        [Nat.digitChar (b0 / 16), Nat.digitChar (b0 % 16), ':',
          Nat.digitChar (b1 / 16), Nat.digitChar (b1 % 16)] := by
    simp only [List.map_cons, padStart2_hex l0, padStart2_hex l1]
    rfl
  have wanted : "02:00".toList = [Nat.digitChar 0, Nat.digitChar 2, ':',
      Nat.digitChar 0, Nat.digitChar 0] := by decide
  rw [text, wanted]
  simp only [List.cons.injEq, and_true, true_and,
    digitChar_inj (by omega : b0 / 16 < 16) (by decide : 0 < 16),
    digitChar_inj (by omega : b0 % 16 < 16) (by decide : 2 < 16),
    digitChar_inj (by omega : b1 / 16 < 16) (by decide : 0 < 16),
    digitChar_inj (by omega : b1 % 16 < 16) (by decide : 0 < 16)]
  omega

/-- Every spelling of a hardware address gives a canonical link-local address
that gives the hardware address back, unless its first two bytes vanish from
the address. -/
theorem eui64_canonical_iff {s mac : List Char}
    (accepted : normMac s = some mac) :
    (Canonical s ↔ mac.take 5 ≠ "02:00".toList) ∧
      ∀ t u, normIp6 t = some u → normIp6 u = some u := by
  refine ⟨?_, fun t u read => normIp6_idem read⟩
  obtain ⟨b0, b1, b2, b3, b4, b5, small, bytes, text⟩ :=
    normMac_bytes accepted
  simp only [List.forall_mem_cons] at small
  obtain ⟨l0, l1, l2, l3, l4, l5, -⟩ := small
  have l0' := xor_two_lt l0
  have address : eui64 s = some ("fe80::".toList ++
      join ':' ((euiWords [b0, b1, b2, b3, b4, b5]).map hex)) := by
    rw [eui64, accepted]
    simp only [bytes]
  have given : macBytes (euiWords [b0, b1, b2, b3, b4, b5]) =
      some [b0, b1, b2, b3, b4, b5] := macBytes_euiWords l1 l3 l5
  have same : mac.take 5 ≠ "02:00".toList ↔ (b0 ^^^ 2) * 256 + b1 ≠ 0 := by
    rw [← text, ne_eq, take_eq_iff l0 l1, ne_eq, firstWord_eq_zero]
  rw [euiWords_eq l1 l3 l5] at address given
  have canonical := normIp6_head_iff (by omega : (b0 ^^^ 2) * 256 + b1 ≤ _)
    (by omega : b2 * 256 + 255 ≤ _) (by omega : 0xfe00 + b3 ≤ _)
    (by omega : b4 * 256 + b5 ≤ _) (by omega) (by omega)
  rw [same, ← canonical, Canonical]
  constructor
  · rintro ⟨found, printed, read, -⟩
    rw [address] at printed
    rw [Option.some.inj printed]
    exact read
  · intro read
    refine ⟨_, address, read, ?_⟩
    rw [accepted, ← text]
    exact macFromEui64_head (by omega) (by omega) (by omega) (by omega)
      (canonical.mp read) (by omega) (by omega) given

/-- An address with a vendor's first bytes is canonical. -/
theorem eui64_canonical_vendor :
    Canonical "0:1b:21:AA:b:C".toList := by
  have accepted : normMac "0:1b:21:AA:b:C".toList =
      some "00:1b:21:aa:0b:0c".toList := by decide
  exact (eui64_canonical_iff accepted).1.mpr (by decide)

/-- The address is not canonical, and its canonical form does not give the
hardware address back. -/
theorem eui64_not_canonical :
    normMac "02:00:5e:10:00:01".toList = some "02:00:5e:10:00:01".toList ∧
      eui64 "02:00:5e:10:00:01".toList =
        some "fe80::0:5eff:fe10:1".toList ∧
      normIp6 "fe80::0:5eff:fe10:1".toList =
        some "fe80::5eff:fe10:1".toList ∧
      macFromEui64 "fe80::0:5eff:fe10:1".toList = none ∧
      ¬ ∀ s mac, normMac s = some mac → Canonical s := by
  have accepted : normMac "02:00:5e:10:00:01".toList =
      some "02:00:5e:10:00:01".toList := by decide
  have address : eui64 "02:00:5e:10:00:01".toList =
      some "fe80::0:5eff:fe10:1".toList := by decide
  have printed : normIp6 "fe80::0:5eff:fe10:1".toList =
      some "fe80::5eff:fe10:1".toList := by decide
  refine ⟨accepted, address, printed, by decide, fun all => ?_⟩
  obtain ⟨found, same, read, -⟩ := all _ _ accepted
  rw [address] at same
  rw [← Option.some.inj same, printed] at read
  revert read
  decide

end Cli
end Mcdma
