import Mathlib.Data.List.Basic
import Mathlib.Algebra.Order.Group.Nat
import Mathlib.Order.Lattice

/-!
# The sender's range table

`bond_cover`, `bond_overlap`, `bond_remember` and `bond_flagged` of
`rpc/libmcdma_fabric.c`.  The table remembers, for the remote bytes earlier
calls wrote or signalled, the latest write on each link and whether a signal
covers them.  Ranges are merged and a full table is folded into a floor, so what
the lemmas keep track of is that nothing remembered is lost: every range ever
recorded stays below one of the table.
-/

namespace Mcdma
namespace Fabric

/-- `BOND_RANGES`: entries of the table. -/
def bondRanges : Nat := 128

/-- `struct bond_range`: remote bytes `[off, stop)`, the latest write on each
link into them, 0 for none, and whether a signal covers them. -/
structure Range where
  off : Nat
  stop : Nat
  ord : Nat → Nat
  signal : Bool

/-- The ranges of a peer, and the floor a full table was folded into. -/
structure Table where
  ranges : List Range := []
  floor : Option Range := none

/-- `bond_cover`: fold a range into the writes and signals gathered so far. -/
def bondCover (gathered : (Nat → Nat) × Bool) (range : Range) :
    (Nat → Nat) × Bool :=
  (fun lane => max (range.ord lane) (gathered.1 lane),
    gathered.2 || range.signal)

namespace Range

/-- Two ranges share a byte. -/
def Overlaps (range : Range) (off stop : Nat) : Prop :=
  off < range.stop ∧ range.off < stop

instance (range : Range) (off stop : Nat) :
    Decidable (range.Overlaps off stop) :=
  inferInstanceAs (Decidable (_ ∧ _))

/-- Grow a range over another one and what it remembers. -/
def merge (range other : Range) : Range :=
  let gathered := bondCover (range.ord, range.signal) other
  { off := min other.off range.off
    stop := max other.stop range.stop
    ord := gathered.1
    signal := gathered.2 }

end Range

/-- `bond_overlap`: the latest write on each link, and any signal, that earlier
calls put in `[off, off + len)`. -/
def bondOverlap (table : Table) (off len : Nat) : (Nat → Nat) × Bool :=
  if len = 0 then (fun _ => 0, false)
  else
    let start := match table.floor with
      | some floor => bondCover (fun _ => 0, false) floor
      | none => (fun _ => 0, false)
    table.ranges.foldl
      (fun gathered range =>
        if range.Overlaps off (off + len) then bondCover gathered range
        else gathered)
      start

/-- Take entry `index` out and move the last one into its place. -/
def swapRemove (ranges : List Range) (index : Nat) : List Range :=
  match ranges.getLast? with
  | some last => (ranges.set index last).dropLast
  | none => []

/-- The loop of `bond_remember`: merge the first overlapping range and start
again, at most once for each range. -/
def absorb : Nat → Range → List Range → Range × List Range
  | 0, range, ranges => (range, ranges)
  | fuel + 1, range, ranges =>
      match ranges.findIdx? fun other =>
          decide (other.off < range.stop ∧ range.off < other.stop) with
      | none => (range, ranges)
      | some index =>
          match ranges[index]? with
          | none => (range, ranges)
          | some other =>
              absorb fuel (range.merge other) (swapRemove ranges index)

/-- Fold every range into the floor. -/
def foldFloor (table : Table) : Table :=
  let start := table.floor.getD ⟨0, 2 ^ 64 - 1, fun _ => 0, false⟩
  { ranges := []
    floor := some (table.ranges.foldl
      (fun floor range =>
        let gathered := bondCover (floor.ord, floor.signal) range
        { floor with ord := gathered.1, signal := gathered.2 })
      start) }

/-- `bond_remember`. -/
def bondRemember (table : Table) (off len : Nat) (ord : Nat → Nat)
    (signal : Bool) : Table :=
  if len = 0 then table
  else
    let absorbed := absorb table.ranges.length ⟨off, off + len, ord, signal⟩
      table.ranges
    let table := { table with ranges := absorbed.2 }
    let table :=
      if table.ranges.length = bondRanges then foldFloor table else table
    { table with ranges := table.ranges ++ [absorbed.1] }

/-- `bond_flagged`: a signal covers every earlier payload range. -/
def bondFlagged (table : Table) : Table :=
  { ranges := table.ranges.map fun range => { range with signal := true }
    floor := table.floor.map fun floor => { floor with signal := true } }

/-! ## Nothing remembered is lost -/

namespace Range

/-- `other` remembers at least the writes and signals of `range`. -/
def Recalled (range other : Range) : Prop :=
  (∀ lane, range.ord lane ≤ other.ord lane) ∧
    (range.signal = true → other.signal = true)

/-- `other` also reaches as far. -/
def Within (range other : Range) : Prop :=
  other.off ≤ range.off ∧ range.stop ≤ other.stop ∧ range.Recalled other

theorem Recalled.trans {first second third : Range}
    (left : first.Recalled second) (right : second.Recalled third) :
    first.Recalled third :=
  ⟨fun lane => (left.1 lane).trans (right.1 lane),
    fun flag => right.2 (left.2 flag)⟩

theorem Within.refl (range : Range) : range.Within range :=
  ⟨Nat.le_refl _, Nat.le_refl _, fun _ => Nat.le_refl _, id⟩

theorem Within.trans {first second third : Range}
    (left : first.Within second) (right : second.Within third) :
    first.Within third :=
  ⟨right.1.trans left.1, left.2.1.trans right.2.1, left.2.2.trans right.2.2⟩

theorem within_merge_left (range other : Range) :
    range.Within (range.merge other) := by
  refine ⟨Nat.min_le_right _ _, Nat.le_max_right _ _, fun lane =>
    Nat.le_max_right _ _, ?_⟩
  intro flag
  simp [merge, bondCover, flag]

theorem within_merge_right (range other : Range) :
    other.Within (range.merge other) := by
  refine ⟨Nat.min_le_left _ _, Nat.le_max_left _ _, fun lane =>
    Nat.le_max_left _ _, ?_⟩
  intro flag
  simp [merge, bondCover, flag]

end Range

namespace Table

/-- What `range` remembers, the table still does. -/
def Keeps (table : Table) (range : Range) : Prop :=
  (∃ other ∈ table.ranges, range.Within other) ∨
    ∃ floor, table.floor = some floor ∧ range.Recalled floor

/-- Every write the table names has a property. -/
def Names (table : Table) (property : Nat → Nat → Prop) : Prop :=
  (∀ range ∈ table.ranges, ∀ lane, property lane (range.ord lane)) ∧
    ∀ floor, table.floor = some floor → ∀ lane, property lane (floor.ord lane)

theorem Keeps.of_within {table : Table} {range other : Range}
    (within : range.Within other) (keeps : table.Keeps other) :
    table.Keeps range := by
  rcases keeps with ⟨held, member, above⟩ | ⟨floor, has, above⟩
  · exact Or.inl ⟨held, member, within.trans above⟩
  · exact Or.inr ⟨floor, has, within.2.2.trans above⟩

end Table

theorem mem_swapRemove {ranges : List Range} {index : Nat} {range : Range}
    (found : range ∈ swapRemove ranges index) : range ∈ ranges := by
  unfold swapRemove at found
  split at found
  · next last has =>
      have set := List.dropLast_subset _ found
      rcases List.mem_or_eq_of_mem_set set with member | rfl
      · exact member
      · exact List.mem_of_getLast? has
  · simp at found

/-- Taking an entry out leaves all the others in. -/
theorem mem_swapRemove_or {ranges : List Range} {index : Nat}
    {range other : Range} (member : range ∈ ranges)
    (at_index : ranges[index]? = some other) :
    range = other ∨ range ∈ swapRemove ranges index := by
  obtain ⟨below, here⟩ := List.getElem?_eq_some_iff.mp at_index
  obtain ⟨position, inRange, there⟩ := List.mem_iff_getElem.mp member
  have nonempty : ranges ≠ [] := List.ne_nil_of_length_pos (by omega)
  by_cases same : position = index
  · subst same
    exact Or.inl (there.symm.trans here)
  · right
    unfold swapRemove
    rw [List.getLast?_eq_some_getLast nonempty]
    by_cases last : position = ranges.length - 1
    · -- the last entry moves to the place of the removed one
      have moved : ranges.getLast nonempty = range := by
        rw [List.getLast_eq_getElem, ← there]
        congr 1
        omega
      refine List.mem_iff_getElem.mpr ⟨index, by
        simp only [List.length_dropLast, List.length_set]; omega, ?_⟩
      rw [List.getElem_dropLast, List.getElem_set_self, moved]
    · refine List.mem_iff_getElem.mpr ⟨position, by
        simp only [List.length_dropLast, List.length_set]; omega, ?_⟩
      rw [List.getElem_dropLast, List.getElem_set_ne (Ne.symm same), there]

/-- The loop loses neither the new range nor an old one. -/
theorem absorb_keeps (fuel : Nat) (range : Range) (ranges : List Range) :
    range.Within (absorb fuel range ranges).1 ∧
      ∀ other ∈ ranges, other.Within (absorb fuel range ranges).1 ∨
        other ∈ (absorb fuel range ranges).2 := by
  induction fuel generalizing range ranges with
  | zero => exact ⟨Range.Within.refl range, fun other member => Or.inr member⟩
  | succ fuel inductionHypothesis =>
      rw [absorb]
      split
      · exact ⟨Range.Within.refl range, fun other member => Or.inr member⟩
      · next index _ =>
          split
          · exact ⟨Range.Within.refl range,
              fun other member => Or.inr member⟩
          · next held at_index =>
              obtain ⟨grown, others⟩ := inductionHypothesis
                (range.merge held) (swapRemove ranges index)
              refine ⟨(range.within_merge_left held).trans grown, ?_⟩
              intro other member
              rcases mem_swapRemove_or member at_index with rfl | left
              · exact Or.inl ((range.within_merge_right other).trans grown)
              · exact others other left

/-- The later of two writes is one of them. -/
theorem max_names {property : Nat → Prop} {first second : Nat}
    (left : property first) (right : property second) :
    property (max first second) := by
  rcases Nat.le_total first second with le | le
  · rwa [max_eq_right le]
  · rwa [max_eq_left le]

/-- The loop names no write that was not named before. -/
theorem absorb_names {property : Nat → Nat → Prop} (fuel : Nat) (range : Range)
    (ranges : List Range)
    (bounded : ∀ other ∈ ranges, ∀ lane, property lane (other.ord lane))
    (mine : ∀ lane, property lane (range.ord lane)) :
    (∀ lane, property lane ((absorb fuel range ranges).1.ord lane)) ∧
      ∀ other ∈ (absorb fuel range ranges).2,
        ∀ lane, property lane (other.ord lane) := by
  induction fuel generalizing range ranges with
  | zero => exact ⟨mine, bounded⟩
  | succ fuel inductionHypothesis =>
      rw [absorb]
      split
      · exact ⟨mine, bounded⟩
      · next index _ =>
          split
          · exact ⟨mine, bounded⟩
          · next held at_index =>
              refine inductionHypothesis _ _ ?_ ?_
              · exact fun other found => bounded other (mem_swapRemove found)
              · intro lane
                exact max_names
                  (bounded held (List.mem_of_getElem? at_index) lane)
                  (mine lane)

/-! ## Folding -/

/-- A fold of ranges into gathered writes and signals never forgets. -/
theorem foldl_recalls {gather : Range → Range → Range}
    (grows : ∀ floor range : Range, floor.Recalled (gather floor range))
    (floor : Range) (ranges : List Range) :
    floor.Recalled (ranges.foldl gather floor) := by
  induction ranges generalizing floor with
  | nil => exact ⟨fun _ => Nat.le_refl _, id⟩
  | cons range rest inductionHypothesis =>
      exact (grows floor range).trans (inductionHypothesis _)

theorem foldl_recalls_mem {gather : Range → Range → Range}
    (grows : ∀ floor range : Range, floor.Recalled (gather floor range))
    (takes : ∀ floor range : Range, range.Recalled (gather floor range))
    (floor : Range) {ranges : List Range} {range : Range}
    (member : range ∈ ranges) :
    range.Recalled (ranges.foldl gather floor) := by
  induction ranges generalizing floor with
  | nil => simp at member
  | cons head rest inductionHypothesis =>
      rw [List.foldl_cons]
      rcases List.mem_cons.mp member with rfl | later
      · exact (takes floor range).trans (foldl_recalls grows _ rest)
      · exact inductionHypothesis _ later

theorem foldl_names {property : Nat → Nat → Prop}
    {gather : Range → Range → Range}
    (takes : ∀ floor range lane,
      (gather floor range).ord lane = max (range.ord lane) (floor.ord lane))
    (floor : Range) (ranges : List Range)
    (start : ∀ lane, property lane (floor.ord lane))
    (named : ∀ range ∈ ranges, ∀ lane, property lane (range.ord lane))
    (lane : Nat) : property lane ((ranges.foldl gather floor).ord lane) := by
  induction ranges generalizing floor with
  | nil => exact start lane
  | cons head rest inductionHypothesis =>
      refine inductionHypothesis _ ?_ ?_
      · intro lane
        rw [takes floor head lane]
        exact max_names (named head (by simp) lane) (start lane)
      · exact fun range member => named range (List.mem_cons_of_mem _ member)

namespace Table

variable {table : Table} {property : Nat → Nat → Prop} {range : Range}

/-- A full table folded into its floor still remembers. -/
theorem keeps_foldFloor (keeps : table.Keeps range) :
    (foldFloor table).Keeps range := by
  right
  refine ⟨_, rfl, ?_⟩
  rcases keeps with ⟨other, member, within⟩ | ⟨floor, has, recalled⟩
  · refine within.2.2.trans (foldl_recalls_mem ?_ ?_ _ member)
    · exact fun floor range => ⟨fun lane => Nat.le_max_right _ _, by
        intro flag; simp [bondCover, flag]⟩
    · exact fun floor range => ⟨fun lane => Nat.le_max_left _ _, by
        intro flag; simp [bondCover, flag]⟩
  · rw [has]
    refine recalled.trans (foldl_recalls ?_ _ _)
    exact fun floor range => ⟨fun lane => Nat.le_max_right _ _, by
      intro flag; simp [bondCover, flag]⟩

theorem names_foldFloor (zero : ∀ lane, property lane 0)
    (names : table.Names property) : (foldFloor table).Names property := by
  refine ⟨by simp [foldFloor], ?_⟩
  intro floor has lane
  have same := Option.some.inj has
  rw [← same]
  refine foldl_names ?_ _ _ ?_ names.1 lane
  · exact fun floor range lane => rfl
  · intro lane
    cases held : table.floor with
    | none => exact zero lane
    | some floor => exact names.2 floor held lane

/-- Remembering a range keeps it and all earlier ones. -/
theorem keeps_bondRemember (keeps : table.Keeps range) (off len : Nat)
    (ord : Nat → Nat) (signal : Bool) :
    (bondRemember table off len ord signal).Keeps range := by
  unfold bondRemember
  split
  · exact keeps
  · obtain ⟨-, others⟩ := absorb_keeps table.ranges.length
      ⟨off, off + len, ord, signal⟩ table.ranges
    set absorbed := absorb table.ranges.length ⟨off, off + len, ord, signal⟩
      table.ranges
    have split : range.Within absorbed.1 ∨
        ({ table with ranges := absorbed.2 } : Table).Keeps range := by
      rcases keeps with ⟨other, member, within⟩ | floored
      · rcases others other member with grown | left
        · exact Or.inl (within.trans grown)
        · exact Or.inr (Or.inl ⟨other, left, within⟩)
      · exact Or.inr (Or.inr floored)
    rcases split with grown | kept
    · exact Or.inl ⟨absorbed.1, by simp, grown⟩
    · have folded : ∀ held : Table, held.Keeps range →
          ({ held with ranges := held.ranges ++ [absorbed.1] } :
            Table).Keeps range := by
        rintro held (⟨other, member, within⟩ | floored)
        · exact Or.inl ⟨other, List.mem_append_left _ member, within⟩
        · exact Or.inr floored
      apply folded
      split
      · exact keeps_foldFloor kept
      · exact kept

theorem keeps_bondRemember_self (table : Table) (off : Nat) {len : Nat}
    (ord : Nat → Nat) (signal : Bool) (nonempty : len ≠ 0) :
    (bondRemember table off len ord signal).Keeps
      ⟨off, off + len, ord, signal⟩ := by
  unfold bondRemember
  rw [if_neg nonempty]
  exact Or.inl ⟨_, List.mem_append_right _ (List.mem_singleton.mpr rfl),
    (absorb_keeps table.ranges.length ⟨off, off + len, ord, signal⟩
      table.ranges).1⟩

theorem names_bondRemember (zero : ∀ lane, property lane 0)
    (names : table.Names property) (off len : Nat) {ord : Nat → Nat}
    (signal : Bool) (mine : ∀ lane, property lane (ord lane)) :
    (bondRemember table off len ord signal).Names property := by
  unfold bondRemember
  split
  · exact names
  · obtain ⟨grown, others⟩ := absorb_names table.ranges.length
      ⟨off, off + len, ord, signal⟩ table.ranges names.1 mine
    set absorbed := absorb table.ranges.length ⟨off, off + len, ord, signal⟩
      table.ranges
    have appended : ∀ held : Table, held.Names property →
        ({ held with ranges := held.ranges ++ [absorbed.1] } :
          Table).Names property := by
      intro held within
      refine ⟨?_, within.2⟩
      intro range found lane
      rcases List.mem_append.mp found with old | new
      · exact within.1 range old lane
      · rw [List.mem_singleton.mp new]
        exact grown lane
    apply appended
    split
    · exact names_foldFloor zero ⟨others, names.2⟩
    · exact ⟨others, names.2⟩

/-- After `bond_flagged` everything remembered is covered by a signal. -/
theorem keeps_bondFlagged (keeps : table.Keeps range) :
    (bondFlagged table).Keeps { range with signal := true } := by
  rcases keeps with ⟨other, member, within⟩ | ⟨floor, has, recalled⟩
  · exact Or.inl ⟨{ other with signal := true },
      List.mem_map.mpr ⟨other, member, rfl⟩, within.1, within.2.1,
      within.2.2.1, fun _ => rfl⟩
  · exact Or.inr ⟨{ floor with signal := true }, by simp [bondFlagged, has],
      recalled.1, fun _ => rfl⟩

theorem names_bondFlagged (names : table.Names property) :
    (bondFlagged table).Names property := by
  constructor
  · intro range found lane
    obtain ⟨other, member, rfl⟩ := List.mem_map.mp found
    exact names.1 other member lane
  · intro floor has lane
    obtain ⟨other, held, rfl⟩ := Option.map_eq_some_iff.mp has
    exact names.2 other held lane

theorem Names.mono {weaker : Nat → Nat → Prop} (names : table.Names property)
    (follows : ∀ lane ord, property lane ord → weaker lane ord) :
    table.Names weaker :=
  ⟨fun range member lane => follows lane _ (names.1 range member lane),
    fun floor has lane => follows lane _ (names.2 floor has lane)⟩

end Table

/-! ## Overlap -/

section

variable {table : Table} {property : Nat → Nat → Prop} {range : Range}
variable {off len : Nat}

/-- Gathered writes and signals only grow along the scan. -/
theorem scan_grows (gathered : (Nat → Nat) × Bool) (ranges : List Range)
    (off stop : Nat) :
    (∀ lane, gathered.1 lane ≤ (ranges.foldl (fun gathered range =>
      if range.Overlaps off stop then bondCover gathered range
      else gathered) gathered).1 lane) ∧
    (gathered.2 = true → (ranges.foldl (fun gathered range =>
      if range.Overlaps off stop then bondCover gathered range
      else gathered) gathered).2 = true) := by
  induction ranges generalizing gathered with
  | nil => exact ⟨fun _ => Nat.le_refl _, id⟩
  | cons head rest inductionHypothesis =>
      rw [List.foldl_cons]
      obtain ⟨ords, flags⟩ := inductionHypothesis
        (if head.Overlaps off stop then bondCover gathered head else gathered)
      constructor
      · intro lane
        refine le_trans ?_ (ords lane)
        split
        · exact Nat.le_max_right _ _
        · exact Nat.le_refl _
      · intro flag
        refine flags ?_
        split
        · simp [bondCover, flag]
        · exact flag

/-- The scan gathers every overlapping range. -/
theorem scan_gathers (gathered : (Nat → Nat) × Bool) {ranges : List Range}
    {off stop : Nat} (member : range ∈ ranges)
    (overlaps : range.Overlaps off stop) :
    (∀ lane, range.ord lane ≤ (ranges.foldl (fun gathered range =>
      if range.Overlaps off stop then bondCover gathered range
      else gathered) gathered).1 lane) ∧
    (range.signal = true → (ranges.foldl (fun gathered range =>
      if range.Overlaps off stop then bondCover gathered range
      else gathered) gathered).2 = true) := by
  induction ranges generalizing gathered with
  | nil => simp at member
  | cons head rest inductionHypothesis =>
      rw [List.foldl_cons]
      rcases List.mem_cons.mp member with rfl | later
      · rw [if_pos overlaps]
        obtain ⟨ords, flags⟩ := scan_grows (bondCover gathered range) rest
          off stop
        constructor
        · exact fun lane => (Nat.le_max_left _ _).trans (ords lane)
        · exact fun flag => flags (by simp [bondCover, flag])
      · exact inductionHypothesis _ later

/-- Whatever the table keeps of overlapping bytes, `bond_overlap` reports. -/
theorem bondOverlap_of_keeps (keeps : table.Keeps range)
    (nonempty : len ≠ 0) (overlaps : range.Overlaps off (off + len)) :
    (∀ lane, range.ord lane ≤ (bondOverlap table off len).1 lane) ∧
      (range.signal = true → (bondOverlap table off len).2 = true) := by
  unfold bondOverlap
  rw [if_neg nonempty]
  rcases keeps with ⟨other, member, within⟩ | ⟨floor, has, recalled⟩
  · have reaches : other.Overlaps off (off + len) :=
      ⟨lt_of_lt_of_le overlaps.1 within.2.1,
        lt_of_le_of_lt within.1 overlaps.2⟩
    obtain ⟨ords, flags⟩ := scan_gathers
      (match table.floor with
        | some floor => bondCover (fun _ => 0, false) floor
        | none => (fun _ => 0, false)) member reaches
    exact ⟨fun lane => (within.2.2.1 lane).trans (ords lane),
      fun flag => flags (within.2.2.2 flag)⟩
  · rw [has]
    obtain ⟨ords, flags⟩ := scan_grows (bondCover (fun _ => 0, false) floor)
      table.ranges off (off + len)
    constructor
    · exact fun lane => ((recalled.1 lane).trans (Nat.le_max_left _ _)).trans
        (ords lane)
    · exact fun flag => flags (by simp [bondCover, recalled.2 flag])

/-- `bond_overlap` names only writes the table names, or none. -/
theorem bondOverlap_names (zero : ∀ lane, property lane 0)
    (names : table.Names property) (off len lane : Nat) :
    property lane ((bondOverlap table off len).1 lane) := by
  have scan : ∀ (ranges : List Range) (gathered : (Nat → Nat) × Bool),
      (∀ range ∈ ranges, property lane (range.ord lane)) →
      property lane (gathered.1 lane) →
      property lane ((ranges.foldl (fun gathered range =>
        if range.Overlaps off (off + len) then bondCover gathered range
        else gathered) gathered).1 lane) := by
    intro ranges
    induction ranges with
    | nil => exact fun _ _ start => start
    | cons head rest inductionHypothesis =>
        intro gathered within start
        have others := fun range member =>
          within range (List.mem_cons_of_mem head member)
        rw [List.foldl_cons]
        by_cases overlaps : head.Overlaps off (off + len)
        · rw [if_pos overlaps]
          exact inductionHypothesis _ others
            (max_names (within head (by simp)) start)
        · rw [if_neg overlaps]
          exact inductionHypothesis _ others start
  unfold bondOverlap
  split
  · exact zero lane
  · refine scan _ _ (fun range member => names.1 range member lane) ?_
    split
    · next floor has =>
        exact max_names (names.2 floor has lane) (zero lane)
    · exact zero lane

end

end Fabric
end Mcdma
