import Mcdma.Setup.Message

/-!
# Keys for what will be addressed

`table_valid` of `link_verbs.c` and the places that later read a key out of an
accepted table: `cut`, `roce_range`, `roce_signal` and `box_transfer`.  Every
request inside the peer's window reads a key that the peer supplied, unless the
check's rounding has overflowed.
-/

namespace Mcdma
namespace Setup

/-- `table_valid`, in 64-bit arithmetic. -/
def tableValid (t : Table) (need : UInt64) (keys : Bool) : Bool :=
  if t.seg = 0 ∨ t.length < need ∨ linkRegionMax < t.n.toNat then false
  else !keys || decide (t.n ≠ 0 ∧
    (t.length + t.seg - 1) / t.seg ≤ t.n.toUInt64)

/-- `struct piece` as far as the peer's side goes: the offset, the length and
the index of the key that was read. -/
structure Piece where
  roff : Nat
  len : Nat
  key : Nat
  deriving DecidableEq, Repr

/-- `cut` into at most `cap` pieces, each inside one local and one remote
registration and of at most `max` bytes. -/
def cut (localSeg : Nat) (remote : Table) (max : Nat) :
    Nat → Nat → Nat → Nat → Option (List Piece)
  | cap, off, len, roff =>
      if len = 0 then some []
      else
        match cap with
        | 0 => none
        | cap + 1 =>
            let take := min (min (min len max) (localSeg - off % localSeg))
              (remote.seg.toNat - roff % remote.seg.toNat)
            (cut localSeg remote max cap (off + take) (len - take)
              (roff + take)).map
                (⟨roff, take, roff / remote.seg.toNat⟩ :: ·)

/-- `roce_range`: one piece at a time. -/
def roceRange (localSeg : Nat) (remote : Table) (max : Nat) :
    Nat → Nat → Nat → Nat → Option (List Piece)
  | 0, _, len, _ => if len = 0 then some [] else none
  | fuel + 1, off, len, roff =>
      if len = 0 then some []
      else
        let take := min (min (min len max) (localSeg - off % localSeg))
          (remote.seg.toNat - roff % remote.seg.toNat)
        match cut localSeg remote max 1 off take roff with
        | some [piece] =>
            (roceRange localSeg remote max fuel (off + take) (len - take)
              (roff + take)).map (piece :: ·)
        | _ => none

/-- `roce_signal`: one word. -/
def roceSignal (remote : Table) (roff : Nat) : Piece :=
  ⟨roff, 8, roff / remote.seg.toNat⟩

/-- `box_transfer` on RoCE: the payload to the same offsets, then a word. -/
def boxTransfer (localSeg : Nat) (remote : Table)
    (max cap off len wordDst : Nat) : Option (List Piece) :=
  (if len = 0 then some []
    else cut localSeg remote max (cap - 1) off len off).map
    (· ++ [⟨wordDst, 8, wordDst / remote.seg.toNat⟩])

/-- A piece inside a range, with the key of the registration it starts in. -/
def Piece.Within (remote : Table) (roff len : Nat) (piece : Piece) : Prop :=
  piece.key = piece.roff / remote.seg.toNat ∧ roff ≤ piece.roff ∧
    piece.roff < roff + len

section

variable {localSeg max : Nat} {remote : Table}

/-- `cut` stays inside what it cuts. -/
theorem cut_within {cap off len roff : Nat} {pieces : List Piece}
    (cuts : cut localSeg remote max cap off len roff = some pieces) :
    ∀ piece ∈ pieces, piece.Within remote roff len := by
  induction cap generalizing off len roff pieces with
  | zero =>
      rw [cut] at cuts
      split at cuts
      · have same := Option.some.inj cuts
        subst same
        simp
      · simp at cuts
  | succ cap inductionHypothesis =>
      rw [cut] at cuts
      split at cuts
      · have same := Option.some.inj cuts
        subst same
        simp
      · next some =>
          obtain ⟨others, rest, same⟩ := Option.map_eq_some_iff.mp cuts
          subst same
          intro piece member
          rcases List.mem_cons.mp member with first | later
          · subst first
            exact ⟨rfl, le_rfl, by dsimp only; omega⟩
          · obtain ⟨key, low, high⟩ := inductionHypothesis rest piece later
            exact ⟨key, by omega, by omega⟩

/-- `roce_range` stays inside its range. -/
theorem roceRange_within {fuel off len roff : Nat} {pieces : List Piece}
    (posts : roceRange localSeg remote max fuel off len roff = some pieces) :
    ∀ piece ∈ pieces, piece.Within remote roff len := by
  induction fuel generalizing off len roff pieces with
  | zero =>
      rw [roceRange] at posts
      split at posts
      · have same := Option.some.inj posts
        subst same
        simp
      · simp at posts
  | succ fuel inductionHypothesis =>
      rw [roceRange] at posts
      split at posts
      · have same := Option.some.inj posts
        subst same
        simp
      · next some =>
          extract_lets take at posts
          have short : take ≤ len := by
            simp only [take]
            omega
          split at posts
          · next piece one =>
              obtain ⟨others, rest, same⟩ := Option.map_eq_some_iff.mp posts
              subst same
              intro other member
              rcases List.mem_cons.mp member with first | later
              · subst first
                obtain ⟨key, low, high⟩ := cut_within one other (by simp)
                exact ⟨key, low, by omega⟩
              · obtain ⟨key, low, high⟩ := inductionHypothesis rest other later
                exact ⟨key, by omega, by omega⟩
          · simp at posts

end

/-- Every key that a request inside the first `need` bytes reads is one of the
table's `n`. -/
structure Covers (t : Table) (need : Nat) : Prop where
  index : ∀ roff < need, roff / t.seg.toNat < t.n.toNat
  range : ∀ localSeg max fuel off len roff pieces,
    roceRange localSeg t max fuel off len roff = some pieces →
    roff + len ≤ need → ∀ piece ∈ pieces, piece.key < t.n.toNat
  signal : ∀ roff, roff + 8 ≤ need → (roceSignal t roff).key < t.n.toNat
  transfer : ∀ localSeg max cap off len wordDst pieces,
    boxTransfer localSeg t max cap off len wordDst = some pieces →
    off + len ≤ need → wordDst + 8 ≤ need →
    ∀ piece ∈ pieces, piece.key < t.n.toNat

/-- Keys for every offset are keys for every request. -/
theorem Covers.of_index {t : Table} {need : Nat}
    (index : ∀ roff < need, roff / t.seg.toNat < t.n.toNat) :
    Covers t need where
  index := index
  range := by
    intro localSeg max fuel off len roff pieces posts inside piece member
    obtain ⟨key, -, below⟩ := roceRange_within posts piece member
    rw [key]
    exact index _ (by omega)
  signal := fun roff inside => index roff (by omega)
  transfer := by
    intro localSeg max cap off len wordDst pieces posts inside word piece member
    obtain ⟨payload, cuts, same⟩ := Option.map_eq_some_iff.mp posts
    subst same
    rcases List.mem_append.mp member with early | last
    · split at cuts
      · have none := Option.some.inj cuts
        subst none
        simp at early
      · obtain ⟨key, -, below⟩ := cut_within cuts piece early
        rw [key]
        exact index _ (by omega)
    · rw [List.mem_singleton.mp last]
      exact index _ (by omega)

/-- The rounding of `table_valid` overflows on a table that is not refused
otherwise, and its registrations are too few. -/
structure Overflows (t : Table) (need : UInt64) : Prop where
  wraps : 2 ^ 64 ≤ t.length.toNat + t.seg.toNat - 1
  long : need ≤ t.length
  some : t.n ≠ 0
  few : t.n.toNat ≤ linkRegionMax
  short : t.n.toNat * t.seg.toNat < need.toNat

/-- What the check divides. -/
theorem rounded (t : Table) (some : t.seg ≠ 0) :
    ((t.length + t.seg - 1) / t.seg).toNat =
      if 2 ^ 64 ≤ t.length.toNat + t.seg.toNat - 1 then 0
      else (t.length.toNat + t.seg.toNat - 1) / t.seg.toNat := by
  have length := t.length.toNat_lt
  have seg := t.seg.toNat_lt
  have pos : t.seg.toNat ≠ 0 := by
    intro zero
    exact some (UInt64.toNat_inj.mp zero)
  rw [UInt64.toNat_div, UInt64.toNat_sub, UInt64.toNat_add]
  split
  · next wraps =>
      have small : (2 ^ 64 - (1 : UInt64).toNat +
          (t.length.toNat + t.seg.toNat) % 2 ^ 64) % 2 ^ 64 =
          t.length.toNat + t.seg.toNat - 1 - 2 ^ 64 := by
        simp only [UInt64.toNat_one]
        omega
      rw [small]
      exact Nat.div_eq_of_lt (by omega)
  · next fits =>
      have small : (2 ^ 64 - (1 : UInt64).toNat +
          (t.length.toNat + t.seg.toNat) % 2 ^ 64) % 2 ^ 64 =
          t.length.toNat + t.seg.toNat - 1 := by
        simp only [UInt64.toNat_one]
        omega
      rw [small]

/-- What an accepted table satisfies. -/
theorem tableValid_iff (t : Table) (need : UInt64) :
    tableValid t need true = true ↔
      t.seg ≠ 0 ∧ need ≤ t.length ∧ t.n.toNat ≤ linkRegionMax ∧ t.n ≠ 0 ∧
        ((t.length + t.seg - 1) / t.seg).toNat ≤ t.n.toNat := by
  rw [tableValid]
  by_cases refused :
      t.seg = 0 ∨ t.length < need ∨ linkRegionMax < t.n.toNat
  · rw [if_pos refused]
    constructor
    · intro accepted
      simp at accepted
    · rintro ⟨some, long, few, -, -⟩
      rcases refused with none | short | many
      · exact absurd none some
      · exact absurd short (UInt64.not_lt.mpr long)
      · omega
  · rw [if_neg refused]
    simp only [not_or, UInt64.not_lt, Nat.not_lt] at refused
    simp only [Bool.not_true, Bool.false_or, decide_eq_true_eq,
      UInt64.le_iff_toNat_le, UInt32.toNat_toUInt64] at refused ⊢
    exact ⟨fun ⟨keys, enough⟩ =>
      ⟨refused.1, refused.2.1, refused.2.2, keys, enough⟩,
      fun ⟨_, _, _, keys, enough⟩ => ⟨keys, enough⟩⟩

/-- Without the overflow, whole registrations cover the length. -/
theorem length_le_registrations {length seg n : Nat} (some : 0 < seg)
    (enough : (length + seg - 1) / seg ≤ n) : length ≤ n * seg := by
  have below : length + seg - 1 < (n + 1) * seg := by
    rw [← Nat.div_lt_iff_lt_mul some]
    omega
  have opened : (n + 1) * seg = n * seg + seg := Nat.succ_mul n seg
  omega

/-- An accepted table has a key for everything that will be addressed, unless
the 64-bit sum of the check overflows and the registrations are too few. -/
theorem accepted_table_covers_iff (t : Table) (need : UInt64) :
    (tableValid t need true = true → Covers t need.toNat) ↔
      ¬ Overflows t need := by
  constructor
  · intro covers overflows
    have some : t.seg ≠ 0 := by
      intro none
      have wraps := overflows.wraps
      have length := t.length.toNat_lt
      simp only [none, UInt64.toNat_zero] at wraps
      omega
    have accepted : tableValid t need true = true := by
      rw [tableValid_iff, rounded t some, if_pos overflows.wraps]
      exact ⟨some, overflows.long, overflows.few, overflows.some,
        Nat.zero_le _⟩
    have beyond := (covers accepted).index _ overflows.short
    have pos : 0 < t.seg.toNat :=
      Nat.pos_of_ne_zero fun zero => some (UInt64.toNat_inj.mp zero)
    rw [Nat.mul_div_cancel _ pos] at beyond
    exact absurd beyond (Nat.lt_irrefl _)
  · intro fits accepted
    obtain ⟨some, long, few, keys, enough⟩ :=
      (tableValid_iff t need).mp accepted
    have pos : 0 < t.seg.toNat :=
      Nat.pos_of_ne_zero fun zero => some (UInt64.toNat_inj.mp zero)
    have reaches : need.toNat ≤ t.n.toNat * t.seg.toNat := by
      by_contra short
      have unwrapped : ¬ 2 ^ 64 ≤ t.length.toNat + t.seg.toNat - 1 :=
        fun wraps => fits ⟨wraps, long, keys, few, by omega⟩
      rw [rounded t some, if_neg unwrapped] at enough
      have whole := length_le_registrations pos enough
      have least := UInt64.le_iff_toNat_le.mp long
      omega
    apply Covers.of_index
    intro roff inside
    rw [Nat.div_lt_iff_lt_mul pos]
    omega

/-- A table of one two-byte registration that claims the longest region. -/
def boastful : Table where
  length := UInt64.ofNat (2 ^ 64 - 1)
  seg := 2
  n := 1

/-- The check accepts it for eight bytes, and the word at offset two reads the
second of one key. -/
theorem boastful_accepted :
    tableValid boastful 8 true = true ∧
      ¬ Covers boastful (8 : UInt64).toNat := by
  refine ⟨by decide +kernel, fun covers => ?_⟩
  have beyond := covers.index 2 (by decide)
  exact absurd beyond (by decide +kernel)

end Setup
end Mcdma
