import Mcdma.Cli.Parse

/-!
# Canonical link-local addresses

What `normIp6` prints it reads back unchanged.  The address that `eui64` makes
is printed by hand, with the zeros of the prefix left out; it is the canonical
one, and gives the hardware address back, except when the first word behind the
prefix is zero as well.
-/

namespace Mcdma
namespace Cli

open Text

/-! ## Reading canonical text -/

/-- The characters of a canonical address. -/
def Plain (c : Char) : Prop := isHex c = true ∨ c = ':'

section

variable {text : List Char}

theorem Plain.bounds {c : Char} (plain : Plain c) :
    48 ≤ c.toNat ∧ c.toNat ≤ 58 ∨ 97 ≤ c.toNat ∧ c.toNat ≤ 102 := by
  rcases plain with digits | colon
  · have bounds : 48 ≤ c.toNat ∧ c.toNat ≤ 57 ∨
        97 ≤ c.toNat ∧ c.toNat ≤ 102 := by
      simpa [isHex, Char.le_def, UInt32.le_iff_toNat_le] using digits
    omega
  · rw [colon]
    decide

theorem Plain.not_space {c : Char} (plain : Plain c) : isSpace c = false := by
  have bounds := plain.bounds
  simp only [isSpace, List.contains_eq_mem, List.mem_cons, List.not_mem_nil,
    or_false, decide_eq_false_iff_not]
  omega

theorem Plain.toLower {c : Char} (plain : Plain c) : c.toLower = c := by
  have bounds := plain.bounds
  refine dif_neg ?_
  rintro ⟨low, high⟩
  have above : 65 ≤ c.toNat := low
  have below : c.toNat ≤ 90 := high
  omega

theorem Plain.ne_of_toNat {c d : Char} (plain : Plain c)
    (other : d.toNat < 48 ∨ 58 < d.toNat ∧ d.toNat < 97 ∨ 102 < d.toNat) :
    c ≠ d := by
  rintro rfl
  have bounds := plain.bounds
  omega

variable (plain : ∀ c ∈ text, Plain c)

include plain

theorem lower_plain : lower text = text := by
  have front : ∀ part : List Char, (∀ c ∈ part, Plain c) →
      part.dropWhile isSpace = part := by
    intro part all
    cases part with
    | nil => rfl
    | cons c rest =>
        rw [List.dropWhile_cons_of_neg]
        rw [(all c List.mem_cons_self).not_space]
        simp
  have same : trim text = text := by
    rw [trim, front text plain, front text.reverse fun c member =>
      plain c (List.mem_reverse.mp member), List.reverse_reverse]
  rw [lower, same]
  calc text.map Char.toLower = text.map id :=
        List.map_congr_left fun c member => (plain c member).toLower
    _ = text := List.map_id text

theorem stripZone_plain : stripZone text = text := by
  induction text with
  | nil => rfl
  | cons c rest inductionHypothesis =>
      have here : c ≠ '%' :=
        (plain c List.mem_cons_self).ne_of_toNat (by decide)
      rw [stripZone, if_neg fun both => here both.1,
        inductionHypothesis fun d member =>
          plain d (List.mem_cons_of_mem _ member)]

theorem stripBrackets_plain : stripBrackets text = text := by
  have first : text.head? ≠ some '[' := by
    intro bracket
    exact (plain _ (List.mem_of_head? bracket)).ne_of_toNat (by decide) rfl
  have last : text.getLast? ≠ some ']' := by
    intro bracket
    exact (plain _ (List.mem_of_getLast? bracket)).ne_of_toNat (by decide) rfl
  simp only [stripBrackets, if_neg first, if_neg last]

/-- On canonical characters only the words matter. -/
theorem normIp6_plain (nonempty : text ≠ []) :
    normIp6 text = (parseWords (splitDouble ':' text)).map render := by
  have accepted :
      text.all (fun c => isHex c || c == ':' || c == '.') = true := by
    rw [List.all_eq_true]
    intro c member
    rcases plain c member with digits | colon
    · simp [digits]
    · simp [colon]
  rw [normIp6, if_neg nonempty]
  simp only [lower_plain plain, stripZone_plain plain,
    stripBrackets_plain plain]
  rw [if_neg (by simp [nonempty, accepted])]
  cases parseWords (splitDouble ':' text) <;> rfl

end

/-! ## Words and their text -/

section

variable {words front back : List Nat}

theorem words_hex (words : List Nat) :
    ∀ word ∈ words.map hex, Word ':' word := by
  intro word member
  obtain ⟨number, _, rfl⟩ := List.mem_map.mp member
  exact word_hex number

theorem halfWords_join (words : List Nat) :
    halfWords (join ':' (words.map hex)) = words.map hex := by
  have all := words_hex words
  unfold halfWords
  split
  · next empty => exact ((join_eq_nil all).mp empty).symm
  · next nonempty =>
      exact splitOn_join (fun blank => nonempty ((join_eq_nil all).mpr blank)) all

/-- Words in digits are read as they are. -/
theorem read_hex (words : List Nat) :
    (words.map hex).map (fun w => parseHex (if w = [] then ['0'] else w)) =
      words.map some := by
  rw [List.map_map]
  refine List.map_congr_left fun number _ => ?_
  simp [hex_ne_nil]

theorem read_zeros (count : Nat) :
    (List.replicate count ['0']).map
      (fun w => parseHex (if w = [] then ['0'] else w)) =
        (List.replicate count 0).map some := by
  rw [List.map_replicate, List.map_replicate]
  rfl

/-- Small words are accepted. -/
theorem accept_small (small : ∀ w ∈ words, w ≤ 0xffff) :
    (words.map some).all (fun w => w.any fun w => decide (w ≤ 0xffff)) =
      true := by
  rw [List.all_eq_true]
  intro w member
  obtain ⟨number, among, rfl⟩ := List.mem_map.mp member
  simpa using small number among

theorem getD_some (words : List Nat) :
    (words.map some).map (fun w => w.getD 0) = words := by
  rw [List.map_map]
  exact List.map_id words

/-- Eight words without words left out. -/
theorem parseWords_single (eight : words.length = 8)
    (small : ∀ w ∈ words, w ≤ 0xffff) :
    parseWords [join ':' (words.map hex)] = some words := by
  have halves : halfWords ([join ':' (words.map hex)].getD 0 []) =
      words.map hex := halfWords_join words
  simp only [parseWords, halves, List.length_singleton, List.length_map,
    eight]
  rw [if_neg (by decide), if_neg (by simp)]
  simp only [if_neg (by decide : ¬ 1 = 2), Int.toNat_zero,
    List.replicate_zero, List.append_nil]
  rw [read_hex, if_neg (by rw [accept_small small]; simp), getD_some]

/-- Words on both sides of those left out, which are zeros. -/
theorem parseWords_double (few : front.length + back.length ≤ 8)
    (small : ∀ w ∈ front ++ back, w ≤ 0xffff) :
    parseWords [join ':' (front.map hex), join ':' (back.map hex)] =
      some (front ++ List.replicate (8 - front.length - back.length) 0 ++
        back) := by
  have first : halfWords ([join ':' (front.map hex),
      join ':' (back.map hex)].getD 0 []) = front.map hex :=
    halfWords_join front
  have second : halfWords ([join ':' (front.map hex),
      join ':' (back.map hex)].getD 1 []) = back.map hex :=
    halfWords_join back
  have fill : ((8 : Int) - front.length - back.length).toNat =
      8 - front.length - back.length := by omega
  have all : ∀ w ∈ front ++
      List.replicate (8 - front.length - back.length) 0 ++ back,
      w ≤ 0xffff := by
    intro w member
    rcases List.mem_append.mp member with before | after
    · rcases List.mem_append.mp before with here | zero
      · exact small w (List.mem_append_left _ here)
      · rw [(List.mem_replicate.mp zero).2]
        exact Nat.zero_le _
    · exact small w (List.mem_append_right _ after)
  simp only [parseWords, first, second, List.length_cons, List.length_nil,
    List.length_map, if_pos]
  rw [if_neg (by decide), if_neg (by simp; omega)]
  simp only [fill, List.map_append, read_hex, read_zeros]
  rw [← List.map_append, ← List.map_append,
    if_neg (by rw [accept_small all]; simp)]
  simp only [getD_some]

/-- A run of zeros inside the words. -/
def ZeroRun (words : List Nat) (start length : Nat) : Prop :=
  start + length ≤ words.length ∧
    (words.drop start).take length = List.replicate length 0

theorem zeroRun_spec (words : List Nat) (i : Nat) (inside : i ≤ words.length) :
    ZeroRun words i (zeroRun words i) := by
  have front := List.takeWhile_prefix (fun w => decide (w = 0))
    (l := words.drop i)
  have most := front.length_le
  rw [List.length_drop] at most
  refine ⟨by rw [zeroRun]; omega, ?_⟩
  rw [zeroRun, ← List.prefix_iff_eq_take.mp front, List.eq_replicate_iff]
  refine ⟨rfl, fun w member => ?_⟩
  simpa using List.mem_takeWhile_imp member

/-- The run found is one of zeros. -/
theorem longestRun_spec (eight : words.length = 8) (fuel i : Nat)
    {best : Option Nat × Nat}
    (sound : ∀ start, best.1 = some start → ZeroRun words start best.2) :
    ∀ start, (longestRun words fuel i best).1 = some start →
      ZeroRun words start (longestRun words fuel i best).2 := by
  induction fuel generalizing i best with
  | zero => exact sound
  | succ fuel inductionHypothesis =>
      rw [longestRun]
      split
      · exact sound
      · next inside =>
          split
          · exact inductionHypothesis _ sound
          · dsimp only
            split
            · refine inductionHypothesis _ ?_
              intro start same
              rw [← Option.some.inj same]
              exact zeroRun_spec words i (by omega)
            · exact inductionHypothesis _ sound

theorem plain_join {c : Char} (member : c ∈ join ':' (words.map hex)) :
    Plain c := by
  rcases mem_join member with colon | ⟨word, among, inWord⟩
  · exact Or.inr colon
  · obtain ⟨number, _, rfl⟩ := List.mem_map.mp among
    exact Or.inl (isHex_of_mem_hex inWord)

/-- A text with a run of zeros left out is read as the words. -/
theorem normIp6_zeroRun (eight : words.length = 8)
    (small : ∀ w ∈ words, w ≤ 0xffff) {start length : Nat}
    (zeros : ZeroRun words start length) :
    normIp6 (join ':' ((words.map hex).take start) ++ ':' :: ':' ::
      join ':' ((words.map hex).drop (start + length))) =
        some (render words) := by
  obtain ⟨inside, zero⟩ := zeros
  rw [← List.map_take, ← List.map_drop]
  have front := words_hex (words.take start)
  have back := words_hex (words.drop (start + length))
  have plain : ∀ c ∈ join ':' ((words.take start).map hex) ++ ':' :: ':' ::
      join ':' ((words.drop (start + length)).map hex), Plain c := by
    intro c member
    simp only [List.mem_append, List.mem_cons] at member
    rcases member with here | rfl | rfl | there
    · exact plain_join here
    · exact Or.inr rfl
    · exact Or.inr rfl
    · exact plain_join there
  have lengths : (words.take start).length = start ∧
      (words.drop (start + length)).length = 8 - (start + length) := by
    rw [List.length_take, List.length_drop]
    omega
  have whole : words.take start ++ List.replicate (8 - (words.take start).length -
      (words.drop (start + length)).length) 0 ++ words.drop (start + length) =
        words := by
    have count : 8 - (words.take start).length -
        (words.drop (start + length)).length = length := by omega
    rw [count, ← zero, List.append_assoc, ← List.drop_drop,
      List.take_append_drop, List.take_append_drop]
  rw [normIp6_plain plain (by simp), splitDouble_join front back,
    parseWords_double (by omega), whole]
  · rfl
  · intro w member
    rcases List.mem_append.mp member with here | there
    · exact small w (List.mem_of_mem_take here)
    · exact small w (List.mem_of_mem_drop there)

/-- What is printed is read as the words it was printed from. -/
theorem normIp6_render (eight : words.length = 8)
    (small : ∀ w ∈ words, w ≤ 0xffff) :
    normIp6 (render words) = some (render words) := by
  have empty : ∀ start, ((none, 0) : Option Nat × Nat).1 = some start →
      ZeroRun words start 0 := by simp
  have run := longestRun_spec eight 8 0 empty
  conv_lhs => rw [render]
  split
  · next length found =>
      have all := words_hex words
      have nonempty : join ':' (words.map hex) ≠ [] := by
        intro empty
        have blank := (join_eq_nil all).mp empty
        have length := congrArg List.length blank
        rw [List.length_map, eight] at length
        simp at length
      rw [normIp6_plain (fun c => plain_join) nonempty,
        splitDouble_single (isChain_joined all),
        parseWords_single eight small]
      rfl
  · next start length found =>
      rw [found] at run
      exact normIp6_zeroRun eight small (run start rfl)

theorem splitDouble_ne_nil (text : List Char) : splitDouble ':' text ≠ [] := by
  cases text with
  | nil => simp [splitDouble]
  | cons c rest =>
      cases rest with
      | nil => simp [splitDouble]
      | cons d rest =>
          rw [splitDouble]
          split
          · simp
          · split <;> simp

/-- The words that are read are eight and small. -/
theorem parseWords_sound {halves : List (List Char)} (nonempty : halves ≠ [])
    (read : parseWords halves = some words) :
    words.length = 8 ∧ ∀ w ∈ words, w ≤ 0xffff := by
  have least := List.length_pos_iff.mpr nonempty
  unfold parseWords at read
  split at read
  · simp at read
  · next most =>
      dsimp only at read
      generalize halfWords (halves.getD 0 []) = head at read
      generalize tailDef : (if halves.length = 2 then
        halfWords (halves.getD 1 []) else []) = tail at read
      generalize fillDef : (if halves.length = 2 then
        (8 : Int) - head.length - tail.length else 0) = fill at read
      have eight : ¬ (fill < 0 ∨ halves.length = 1 ∧ head.length ≠ 8) →
          head.length + fill.toNat + tail.length = 8 := by
        intro few
        by_cases double : halves.length = 2
        · rw [if_pos double] at fillDef
          omega
        · rw [if_neg double] at fillDef tailDef
          have empty : tail.length = 0 := by rw [← tailDef, List.length_nil]
          omega
      split at read
      · simp at read
      · next few =>
          split at read
          · simp at read
          · next accepted =>
              rw [← Option.some.inj read]
              refine ⟨?_, fun w member => ?_⟩
              · simp only [List.length_map, List.length_append,
                  List.length_replicate]
                exact eight few
              · obtain ⟨value, among, rfl⟩ := List.mem_map.mp member
                rw [Bool.not_eq_false, List.all_eq_true] at accepted
                have small := accepted value among
                cases value with
                | none => simp at small
                | some number => simpa using small

/-- `normIp6` changes nothing that it has printed. -/
theorem normIp6_idem {s t : List Char} (accepted : normIp6 s = some t) :
    normIp6 t = some t := by
  unfold normIp6 at accepted
  split at accepted
  · simp at accepted
  · dsimp only at accepted
    split at accepted
    · simp at accepted
    · split at accepted
      · simp at accepted
      · next words read =>
          obtain ⟨eight, small⟩ :=
            parseWords_sound (splitDouble_ne_nil _) read
          rw [← Option.some.inj accepted]
          exact normIp6_render eight small

end

end Cli
end Mcdma
