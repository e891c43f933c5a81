import Mathlib.Data.List.Basic
import Mathlib.Data.List.Chain
import Mathlib.Data.List.TakeWhile

/-!
# Text of hexadecimal words

Addresses are written as hexadecimal words between separators, with a double
separator for words left out.  A number is read back from its digits, and words
from their text.
-/

namespace Text

/-- A hexadecimal digit in lower case. -/
def isHex (c : Char) : Bool :=
  decide ('0' ≤ c ∧ c ≤ '9' ∨ 'a' ≤ c ∧ c ≤ 'f')

/-- The value of a digit. -/
def digit (c : Char) : Nat :=
  if c ≤ '9' then c.toNat - 48 else c.toNat - 87

/-- The value of some digits. -/
def numeral (digits : List Char) : Nat :=
  digits.foldl (fun value c => 16 * value + digit c) 0

/-- The number that the digits at the start of a text stand for. -/
def parseHex (text : List Char) : Option Nat :=
  match text.takeWhile isHex with
  | [] => none
  | digits => some (numeral digits)

/-- A number in hexadecimal digits. -/
def hex (number : Nat) : List Char := Nat.toDigits 16 number

/-- A text of words between separators. -/
def join (sep : Char) (words : List (List Char)) : List Char :=
  [sep].intercalate words

/-- The parts of a text between double separators. -/
def splitDouble (sep : Char) : List Char → List (List Char)
  | [] => [[]]
  | [c] => [[c]]
  | c :: d :: rest =>
      if c = sep ∧ d = sep then [] :: splitDouble sep rest
      else
        match splitDouble sep (d :: rest) with
        | [] => [[c]]
        | part :: parts => (c :: part) :: parts

/-! ## Digits -/

theorem digit_digitChar {n : Nat} (small : n < 16) :
    digit n.digitChar = n ∧ isHex n.digitChar = true := by
  revert n
  decide

/-- Every digit is that of its value. -/
theorem digitChar_digit {c : Char} (digits : isHex c = true) :
    digit c < 16 ∧ (digit c).digitChar = c := by
  have bounds : 48 ≤ c.toNat ∧ c.toNat ≤ 57 ∨
      97 ≤ c.toNat ∧ c.toNat ≤ 102 := by
    simpa [isHex, Char.le_def, UInt32.le_iff_toNat_le] using digits
  have low : c ≤ '9' ↔ c.toNat ≤ 57 := by
    simp [Char.le_def, UInt32.le_iff_toNat_le]
  have number : ∀ n < 16,
      n.digitChar.toNat = if n < 10 then 48 + n else 87 + n := by decide
  have value : digit c =
      if c.toNat ≤ 57 then c.toNat - 48 else c.toNat - 87 := by
    simp only [digit, low]
  have small : digit c < 16 := by
    rw [value]
    split <;> omega
  refine ⟨small, Char.toNat_inj.mp ?_⟩
  rw [number _ small, value]
  split <;> split <;> omega

theorem numeral_append (digits : List Char) (c : Char) :
    numeral (digits ++ [c]) = 16 * numeral digits + digit c := by
  rw [numeral, List.foldl_append]
  rfl

/-- A number is written in digits, and they stand for it. -/
theorem hex_spec (number : Nat) :
    hex number ≠ [] ∧ (∀ c ∈ hex number, isHex c = true) ∧
      numeral (hex number) = number := by
  induction number using Nat.strong_induction_on with
  | _ number inductionHypothesis =>
      rcases Nat.lt_or_ge number 16 with small | large
      · rw [hex, Nat.toDigits_of_lt_base small]
        obtain ⟨value, digits⟩ := digit_digitChar small
        refine ⟨by simp, fun c member => ?_, ?_⟩
        · rwa [List.mem_singleton.mp member]
        · simpa [numeral] using value
      · have last := digit_digitChar (Nat.mod_lt number (by decide : 0 < 16))
        obtain ⟨_, digits, value⟩ :=
          inductionHypothesis (number / 16) (by omega)
        rw [hex, Nat.toDigits_of_base_le (by decide) large]
        refine ⟨by simp, fun c member => ?_, ?_⟩
        · rcases List.mem_append.mp member with front | back
          · exact digits c front
          · rw [List.mem_singleton.mp back]
            exact last.2
        · rw [numeral_append, last.1]
          change 16 * numeral (hex (number / 16)) + _ = _
          rw [value]
          omega

theorem hex_ne_nil (number : Nat) : hex number ≠ [] := (hex_spec number).1

theorem isHex_of_mem_hex {number : Nat} {c : Char} (member : c ∈ hex number) :
    isHex c = true := (hex_spec number).2.1 c member

/-- A text of digits is read whole. -/
theorem parseHex_digits {digits : List Char} (nonempty : digits ≠ [])
    (all : ∀ c ∈ digits, isHex c = true) :
    parseHex digits = some (numeral digits) := by
  have whole : digits.takeWhile isHex = digits :=
    List.takeWhile_eq_self_iff.mpr all
  rw [parseHex, whole]
  cases digits with
  | nil => exact absurd rfl nonempty
  | cons c rest => rfl

@[simp] theorem parseHex_hex (number : Nat) :
    parseHex (hex number) = some number := by
  rw [parseHex_digits (hex_ne_nil number) fun c => isHex_of_mem_hex,
    (hex_spec number).2.2]

/-! ## Words between separators -/

section

variable {sep : Char}

/-- Two characters that are not both separators. -/
def Apart (sep : Char) (c d : Char) : Prop := ¬ (c = sep ∧ d = sep)

/-- A text without a double separator is one part. -/
theorem splitDouble_single {text : List Char}
    (apart : text.IsChain (Apart sep)) : splitDouble sep text = [text] := by
  induction text with
  | nil => rfl
  | cons c rest inductionHypothesis =>
      cases rest with
      | nil => rfl
      | cons d rest =>
          rw [List.isChain_cons_cons] at apart
          rw [splitDouble, if_neg apart.1, inductionHypothesis apart.2]

/-- A double separator behind a text that has none ends its part. -/
theorem splitDouble_append {front : List Char} (back : List Char)
    (apart : (front ++ [sep]).IsChain (Apart sep)) :
    splitDouble sep (front ++ sep :: sep :: back) =
      front :: splitDouble sep back := by
  induction front with
  | nil => rw [List.nil_append, splitDouble, if_pos ⟨rfl, rfl⟩]
  | cons c rest inductionHypothesis =>
      cases rest with
      | nil =>
          have first := (List.isChain_cons_cons.mp apart).1
          have tail := inductionHypothesis (List.isChain_singleton _)
          rw [List.nil_append] at tail
          rw [List.singleton_append, splitDouble, if_neg first, tail]
      | cons d rest =>
          rw [List.cons_append, List.cons_append, List.isChain_cons_cons]
            at apart
          have tail := inductionHypothesis apart.2
          rw [List.cons_append] at tail
          rw [List.cons_append, List.cons_append, splitDouble,
            if_neg apart.1, tail]

/-- Words as they stand in a text: with a character and without a separator. -/
def Word (sep : Char) (word : List Char) : Prop :=
  word ≠ [] ∧ sep ∉ word

theorem isChain_of_not_mem {text : List Char} (free : sep ∉ text) :
    text.IsChain (Apart sep) := by
  induction text with
  | nil => exact List.isChain_nil
  | cons c rest inductionHypothesis =>
      have first : c ≠ sep := fun same => free (same ▸ List.mem_cons_self)
      have later := inductionHypothesis fun member =>
        free (List.mem_cons_of_mem _ member)
      cases rest with
      | nil => exact List.isChain_singleton _
      | cons d rest =>
          exact List.isChain_cons_cons.mpr ⟨fun both => first both.1, later⟩

theorem join_cons_cons (sep : Char) (word next : List Char)
    (words : List (List Char)) :
    join sep (word :: next :: words) =
      word ++ sep :: join sep (next :: words) := by
  simp [join, List.intercalate]

@[simp] theorem join_singleton (sep : Char) (word : List Char) :
    join sep [word] = word := by
  simp [join, List.intercalate]

/-- A word between two separators keeps them apart. -/
theorem isChain_word {word tail : List Char} (here : Word sep word)
    (behind : (sep :: tail).IsChain (Apart sep)) :
    (sep :: (word ++ sep :: tail)).IsChain (Apart sep) := by
  obtain ⟨nonempty, free⟩ := here
  have joined : (word ++ sep :: tail).IsChain (Apart sep) := by
    rw [List.isChain_append]
    refine ⟨isChain_of_not_mem free, behind, fun c last d _ both => ?_⟩
    exact free (both.1 ▸ List.mem_of_getLast? last)
  cases word with
  | nil => exact absurd rfl nonempty
  | cons c rest =>
      have first : c ≠ sep := fun same => free (same ▸ List.mem_cons_self)
      exact List.isChain_cons_cons.mpr ⟨fun both => first both.2, joined⟩

/-- Words joined have no double separator and neither start nor end with one. -/
theorem isChain_join {words : List (List Char)} (nonempty : words ≠ [])
    (all : ∀ word ∈ words, Word sep word) :
    (sep :: (join sep words ++ [sep])).IsChain (Apart sep) := by
  induction words with
  | nil => exact absurd rfl nonempty
  | cons word rest inductionHypothesis =>
      have first := all word List.mem_cons_self
      cases rest with
      | nil =>
          rw [join_singleton]
          exact isChain_word first (List.isChain_singleton _)
      | cons next words =>
          have later := inductionHypothesis (by simp) fun other member =>
            all other (List.mem_cons_of_mem _ member)
          rw [join_cons_cons, List.append_assoc, List.cons_append]
          exact isChain_word first later

theorem isChain_joined {words : List (List Char)}
    (all : ∀ word ∈ words, Word sep word) :
    (join sep words).IsChain (Apart sep) := by
  by_cases nonempty : words = []
  · subst nonempty
    exact List.isChain_nil
  · have whole := isChain_join nonempty all
    exact (List.isChain_append.mp whole.tail).1

theorem isChain_joined_sep {words : List (List Char)}
    (all : ∀ word ∈ words, Word sep word) :
    (join sep words ++ [sep]).IsChain (Apart sep) := by
  by_cases nonempty : words = []
  · subst nonempty
    exact List.isChain_singleton _
  · exact (isChain_join nonempty all).tail

theorem join_eq_nil {words : List (List Char)}
    (all : ∀ word ∈ words, Word sep word) :
    join sep words = [] ↔ words = [] := by
  constructor
  · intro empty
    by_contra nonempty
    have whole := isChain_join nonempty all
    rw [empty] at whole
    exact (List.isChain_cons_cons.mp whole).1 ⟨rfl, rfl⟩
  · rintro rfl
    rfl

/-- Joined words are split again. -/
theorem splitOn_join {words : List (List Char)} (nonempty : words ≠ [])
    (all : ∀ word ∈ words, Word sep word) :
    (join sep words).splitOn sep = words :=
  List.splitOn_intercalate sep (fun word member => (all word member).2) nonempty

/-- Words on both sides of a double separator. -/
theorem splitDouble_join {front back : List (List Char)}
    (first : ∀ word ∈ front, Word sep word)
    (second : ∀ word ∈ back, Word sep word) :
    splitDouble sep (join sep front ++ sep :: sep :: join sep back) =
      [join sep front, join sep back] := by
  rw [splitDouble_append _ (isChain_joined_sep first),
    splitDouble_single (isChain_joined second)]

theorem mem_join {words : List (List Char)} {c : Char}
    (member : c ∈ join sep words) : c = sep ∨ ∃ word ∈ words, c ∈ word := by
  induction words with
  | nil => simp [join, List.intercalate] at member
  | cons word rest inductionHypothesis =>
      cases rest with
      | nil =>
          rw [join_singleton] at member
          exact Or.inr ⟨word, List.mem_cons_self, member⟩
      | cons next words =>
          rw [join_cons_cons, List.mem_append, List.mem_cons] at member
          rcases member with here | here | later
          · exact Or.inr ⟨word, List.mem_cons_self, here⟩
          · exact Or.inl here
          · rcases inductionHypothesis later with here | ⟨other, among, inside⟩
            · exact Or.inl here
            · exact Or.inr ⟨other, List.mem_cons_of_mem _ among, inside⟩

/-- A number in digits is a word. -/
theorem word_hex (number : Nat) : Word ':' (hex number) := by
  refine ⟨hex_ne_nil number, fun member => ?_⟩
  have digits := isHex_of_mem_hex member
  revert digits
  decide

end

end Text
