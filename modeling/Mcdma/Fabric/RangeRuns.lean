import Mcdma.Fabric.Ranges
import Mathlib.Data.List.Perm.Basic

/-!
# The range table over calls

From an empty table, as a flush leaves it, any calls of `bond_remember` and
`bond_flagged` keep the ranges apart from each other and at most 128, and every
write ever remembered is still reported by `bond_overlap` with its ordinals and
its signals.  The offsets are those of bytes in the peer's memory: the callers
have checked them against its length, so `off + len` stays below `2 ^ 64`.
-/

namespace Mcdma
namespace Fabric

/-! ## Ranges apart -/

namespace Range

/-- Two ranges share no byte. -/
def Apart (range other : Range) : Prop :=
  range.stop ≤ other.off ∨ other.stop ≤ range.off

theorem Apart.symm {range other : Range} (apart : range.Apart other) :
    other.Apart range :=
  Or.symm apart

/-- What the loop of `bond_remember` does not merge is apart. -/
theorem apart_of_not_overlaps {range other : Range}
    (passed : ¬(other.off < range.stop ∧ range.off < other.stop)) :
    range.Apart other := by
  rw [Apart]
  omega

end Range

/-- Taking an entry out keeps the others, in some order. -/
theorem swapRemove_perm {ranges : List Range} {index : Nat} {other : Range}
    (found : ranges[index]? = some other) :
    (other :: swapRemove ranges index).Perm ranges := by
  obtain ⟨below, here⟩ := List.getElem?_eq_some_iff.mp found
  have nonempty : ranges ≠ [] := List.ne_nil_of_length_pos (by omega)
  obtain ⟨init, last, rfl⟩ : ∃ init last, ranges = init ++ [last] :=
    ⟨_, _, (List.dropLast_append_getLast nonempty).symm⟩
  rw [swapRemove, List.getLast?_concat]
  rcases Nat.lt_or_ge index init.length with inside | final
  · rw [List.getElem_append_left inside] at here
    have opened : init = init.take index ++ other :: init.drop (index + 1) := by
      rw [← here, ← List.drop_eq_getElem_cons inside,
        List.take_append_drop]
    have moved : ((init ++ [last]).set index last).dropLast =
        init.take index ++ last :: init.drop (index + 1) := by
      rw [List.set_append_left _ _ inside, List.dropLast_concat,
        List.set_eq_take_append_cons_drop, if_pos inside]
    simp only [moved]
    conv_rhs => rw [opened]
    have front : (other :: (init.take index ++
        last :: init.drop (index + 1))).Perm
        (other :: last :: (init.take index ++ init.drop (index + 1))) :=
      (List.perm_middle).cons other
    have back : ((init.take index ++ other :: init.drop (index + 1)) ++
        [last]).Perm
        (last :: other :: (init.take index ++ init.drop (index + 1))) :=
      (List.perm_append_singleton _ _).trans ((List.perm_middle).cons last)
    exact front.trans ((List.Perm.swap _ _ _).trans back.symm)
  · obtain rfl : index = init.length := by
      simp only [List.length_append, List.length_singleton] at below
      omega
    rw [List.getElem_concat_length rfl] at here
    subst here
    have moved : ((init ++ [last]).set init.length last).dropLast = init := by
      simp
    simp only [moved]
    exact (List.perm_append_singleton _ _).symm

/-- The loop merges until nothing is left to merge. -/
theorem absorb_apart (fuel : Nat) (range : Range) (ranges : List Range)
    (enough : ranges.length ≤ fuel) (apart : ranges.Pairwise Range.Apart) :
    (∀ other ∈ (absorb fuel range ranges).2,
        (absorb fuel range ranges).1.Apart other) ∧
      (absorb fuel range ranges).2.Pairwise Range.Apart ∧
      (absorb fuel range ranges).2.length ≤ ranges.length := by
  induction fuel generalizing range ranges with
  | zero =>
      obtain rfl : ranges = [] := List.length_eq_zero_iff.mp (by omega)
      simp [absorb]
  | succ fuel inductionHypothesis =>
      rw [absorb]
      split
      · next passed =>
          refine ⟨fun other member => ?_, apart, Nat.le_refl _⟩
          have unmet := List.findIdx?_eq_none_iff.mp passed other member
          exact Range.apart_of_not_overlaps (by simpa using unmet)
      · next index met =>
          split
          · next missing =>
              have below := (List.findIdx?_eq_some_iff_getElem.mp met).1
              have absent := List.getElem?_eq_none_iff.mp missing
              omega
          · next held found =>
              have same := swapRemove_perm found
              have shorter := same.length_eq
              rw [List.length_cons] at shorter
              have kept : (swapRemove ranges index).Pairwise Range.Apart :=
                ((same.pairwise_iff Range.Apart.symm).mpr apart).of_cons
              obtain ⟨clear, pairwise, fewer⟩ := inductionHypothesis
                (range.merge held) (swapRemove ranges index) (by omega) kept
              exact ⟨clear, pairwise, by omega⟩

namespace Table

/-- The ranges are apart from each other and fit the table. -/
def Tidy (table : Table) : Prop :=
  table.ranges.Pairwise Range.Apart ∧ table.ranges.length ≤ bondRanges

variable {table : Table}

theorem tidy_empty : ({} : Table).Tidy :=
  ⟨List.Pairwise.nil, Nat.zero_le _⟩

/-- A range apart from all others joins a table with a place left. -/
theorem tidy_append {range : Range} (tidy : table.Tidy)
    (clear : ∀ other ∈ table.ranges, range.Apart other)
    (place : table.ranges.length < bondRanges) :
    ({ table with ranges := table.ranges ++ [range] } : Table).Tidy := by
  constructor
  · refine List.pairwise_append.mpr ⟨tidy.1, List.pairwise_singleton _ _, ?_⟩
    intro other member last same
    rw [List.mem_singleton.mp same]
    exact (clear other member).symm
  · simp only [List.length_append, List.length_singleton]
    omega

theorem tidy_bondRemember (tidy : table.Tidy) (off len : Nat)
    (ord : Nat → Nat) (signal : Bool) :
    (bondRemember table off len ord signal).Tidy := by
  unfold bondRemember
  split
  · exact tidy
  · obtain ⟨clear, pairwise, fewer⟩ := absorb_apart table.ranges.length
      ⟨off, off + len, ord, signal⟩ table.ranges (Nat.le_refl _) tidy.1
    set absorbed := absorb table.ranges.length ⟨off, off + len, ord, signal⟩
      table.ranges
    have most := tidy.2
    by_cases full : absorbed.2.length = bondRanges
    · simp only [full, if_true]
      exact tidy_append ⟨List.Pairwise.nil, Nat.zero_le _⟩ (by simp [foldFloor])
        (by simp [foldFloor, bondRanges])
    · simp only [full, if_false]
      have place : absorbed.2.length < bondRanges := by omega
      have kept : ({ table with ranges := absorbed.2 } : Table).Tidy :=
        ⟨pairwise, place.le⟩
      exact tidy_append kept clear place

theorem tidy_bondFlagged (tidy : table.Tidy) : (bondFlagged table).Tidy := by
  refine ⟨?_, by simpa [bondFlagged] using tidy.2⟩
  exact List.pairwise_map.mpr (tidy.1.imp fun apart => apart)

end Table

/-! ## Calls -/

/-- A call on the table between two flushes. -/
inductive RangeCall where
  | remember (off len : Nat) (ord : Nat → Nat) (signal : Bool)
  | flagged

/-- The table after a call. -/
def RangeCall.apply (table : Table) : RangeCall → Table
  | .remember off len ord signal => bondRemember table off len ord signal
  | .flagged => bondFlagged table

/-- The table after calls from an empty one. -/
def tableAfter (calls : List RangeCall) : Table :=
  calls.foldl RangeCall.apply {}

theorem tidy_foldl {table : Table} (tidy : table.Tidy)
    (calls : List RangeCall) : (calls.foldl RangeCall.apply table).Tidy := by
  induction calls generalizing table with
  | nil => exact tidy
  | cons call rest inductionHypothesis =>
      apply inductionHypothesis
      cases call with
      | remember off len ord signal =>
          exact Table.tidy_bondRemember tidy off len ord signal
      | flagged => exact Table.tidy_bondFlagged tidy

/-- What a table keeps it keeps through calls, signalled once one of them is
`bond_flagged`. -/
theorem keeps_foldl {table : Table} {range : Range} (keeps : table.Keeps range)
    (calls : List RangeCall) :
    ∃ signal, (calls.foldl RangeCall.apply table).Keeps
        { range with signal := signal } ∧
      (range.signal = true ∨ RangeCall.flagged ∈ calls → signal = true) := by
  induction calls generalizing table range with
  | nil => exact ⟨range.signal, keeps, by simp⟩
  | cons call rest inductionHypothesis =>
      cases call with
      | remember off len ord signal =>
          obtain ⟨now, held, covered⟩ := inductionHypothesis
            (Table.keeps_bondRemember keeps off len ord signal)
          refine ⟨now, held, fun set => covered ?_⟩
          simpa using set
      | flagged =>
          obtain ⟨now, held, covered⟩ := inductionHypothesis
            (Table.keeps_bondFlagged keeps)
          exact ⟨now, held, fun _ => covered (Or.inl rfl)⟩

/-- The ranges of a table stay apart and at most 128 over any calls, and
whatever was remembered of bytes that a query meets is in what `bond_overlap`
answers: each link's ordinal, and a signal once the range was signalled or
`bond_flagged` came later. -/
theorem table_remembers (calls : List RangeCall) :
    (tableAfter calls).ranges.Pairwise Range.Apart ∧
      (tableAfter calls).ranges.length ≤ 128 ∧
      ∀ (before after : List RangeCall) (start size : Nat) (ord : Nat → Nat)
        (signal : Bool),
        calls = before ++ .remember start size ord signal :: after →
        ∀ off len byte : Nat, off ≤ byte → byte < off + len →
          start ≤ byte → byte < start + size →
          (∀ lane, ord lane ≤ (bondOverlap (tableAfter calls) off len).1 lane) ∧
          (signal = true ∨ RangeCall.flagged ∈ after →
            (bondOverlap (tableAfter calls) off len).2 = true) := by
  have tidy : (tableAfter calls).Tidy := tidy_foldl Table.tidy_empty calls
  refine ⟨tidy.1, tidy.2, ?_⟩
  intro before after start size ord signal split off len byte low high starts
    ends
  have nonempty : size ≠ 0 := by omega
  obtain ⟨now, kept, covered⟩ := keeps_foldl
    (Table.keeps_bondRemember_self (tableAfter before) start ord signal
      nonempty) after
  have same : tableAfter calls = after.foldl RangeCall.apply
      (bondRemember (tableAfter before) start size ord signal) := by
    rw [split, tableAfter, List.foldl_append]
    rfl
  rw [same]
  have meets : Range.Overlaps ⟨start, start + size, ord, now⟩ off
      (off + len) := by
    constructor
    · exact low.trans_lt ends
    · exact starts.trans_lt high
  obtain ⟨ords, flags⟩ := bondOverlap_of_keeps kept (by omega) meets
  exact ⟨ords, fun set => flags (covered set)⟩

/-- A write of eight bytes and a later signal elsewhere: a query of one of the
bytes names the write and the signal. -/
theorem table_remembers_signal :
    1 ≤ (bondOverlap (tableAfter
        [.remember 8 8 (fun _ => 1) false, .remember 64 8 (fun _ => 0) true,
          .flagged]) 12 1).1 0 ∧
      (bondOverlap (tableAfter
        [.remember 8 8 (fun _ => 1) false, .remember 64 8 (fun _ => 0) true,
          .flagged]) 12 1).2 = true := by
  obtain ⟨_, _, remembers⟩ := table_remembers
    [.remember 8 8 (fun _ => 1) false, .remember 64 8 (fun _ => 0) true,
      .flagged]
  obtain ⟨ords, flag⟩ := remembers [] _ 8 8 (fun _ => 1) false rfl 12 1 12
    (by decide) (by decide) (by decide) (by decide)
  exact ⟨ords 0, flag (Or.inr (by simp))⟩

end Fabric
end Mcdma
