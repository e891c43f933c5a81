import Mathlib.Data.Fintype.Card

/-!
# Slots that hold at most one record

A fixed number of slots, each empty or with one record, and how many records
they hold.  Filling an empty slot and clearing a full one move the count by one,
so a counter kept beside the slots never drifts from them.
-/

namespace Slots

variable {Index Record : Type*} [Fintype Index] [DecidableEq Index]

/-- The slots that hold a record. -/
def occupied (records : Index → Option Record) : Finset Index :=
  Finset.univ.filter fun index => (records index).isSome = true

omit [DecidableEq Index] in
@[simp] theorem mem_occupied {records : Index → Option Record} {index : Index} :
    index ∈ occupied records ↔ (records index).isSome = true := by
  simp [occupied]

theorem occupied_fill (records : Index → Option Record) (index : Index)
    (record : Record) :
    occupied (Function.update records index (some record)) =
      insert index (occupied records) := by
  ext other
  by_cases same : other = index
  · subst same
    simp
  · simp [same]

theorem occupied_clear (records : Index → Option Record) (index : Index) :
    occupied (Function.update records index none) =
      (occupied records).erase index := by
  ext other
  by_cases same : other = index
  · subst same
    simp
  · simp [same]

theorem card_fill {records : Index → Option Record} {index : Index}
    (free : records index = none) (record : Record) :
    (occupied (Function.update records index (some record))).card =
      (occupied records).card + 1 := by
  rw [occupied_fill, Finset.card_insert_of_notMem (by simp [free])]

theorem card_clear {records : Index → Option Record} {index : Index}
    (held : (records index).isSome = true) :
    (occupied (Function.update records index none)).card + 1 =
      (occupied records).card := by
  rw [occupied_clear, Finset.card_erase_add_one (by simp [held])]

omit [DecidableEq Index] in
/-- Fewer records than slots leave a slot empty. -/
theorem exists_free {records : Index → Option Record}
    (few : (occupied records).card < Fintype.card Index) :
    ∃ index, records index = none := by
  obtain ⟨index, -, free⟩ := Finset.exists_mem_notMem_of_card_lt_card
    (show (occupied records).card < (Finset.univ : Finset Index).card from few)
  refine ⟨index, ?_⟩
  simpa using free

end Slots

/-- Slots with the number of records in them. -/
structure Slots (size : Nat) (Record : Type*) where
  records : Fin size → Option Record
  pending : Nat
  counted : (Slots.occupied records).card = pending

namespace Slots

variable {size : Nat} {Record : Type*}

/-- No slot holds a record. -/
def empty : Slots size Record where
  records := fun _ => none
  pending := 0
  counted := by simp [occupied]

/-- Fill an empty slot. -/
def put (slots : Slots size Record) (index : Fin size) (record : Record)
    (free : slots.records index = none) : Slots size Record where
  records := Function.update slots.records index (some record)
  pending := slots.pending + 1
  counted := by rw [card_fill free, slots.counted]

/-- Clear a slot. -/
def clear (slots : Slots size Record) (index : Fin size)
    (held : (slots.records index).isSome = true) : Slots size Record where
  records := Function.update slots.records index none
  pending := slots.pending - 1
  counted := by
    rw [← slots.counted, ← card_clear held]
    rfl

/-- Take the record of a slot if it passes a test. -/
def take (slots : Slots size Record) (index : Fin size) (test : Record → Bool) :
    Option (Record × Slots size Record) :=
  match held : slots.records index with
  | none => none
  | some record =>
      if test record then
        some (record, slots.clear index (by rw [held]; rfl))
      else none

@[ext] theorem ext {first second : Slots size Record}
    (same : first.records = second.records) : first = second := by
  obtain ⟨records, pending, counted⟩ := first
  obtain ⟨records', pending', counted'⟩ := second
  cases same
  rw [counted] at counted'
  cases counted'
  rfl

@[simp] theorem records_put (slots : Slots size Record) (index : Fin size)
    (record : Record) (free : slots.records index = none) :
    (slots.put index record free).records =
      Function.update slots.records index (some record) := rfl

@[simp] theorem pending_put (slots : Slots size Record) (index : Fin size)
    (record : Record) (free : slots.records index = none) :
    (slots.put index record free).pending = slots.pending + 1 := rfl

theorem pending_pos {slots : Slots size Record} {index : Fin size}
    {record : Record} (held : slots.records index = some record) :
    0 < slots.pending := by
  rw [← slots.counted, Finset.card_pos]
  exact ⟨index, by simp [held]⟩

theorem take_eq_some_iff {slots : Slots size Record} {index : Fin size}
    {test : Record → Bool} {record : Record} {rest : Slots size Record} :
    slots.take index test = some (record, rest) ↔
      slots.records index = some record ∧ test record = true ∧
        rest.records = Function.update slots.records index none := by
  unfold take
  split
  · next free => simp [free]
  · next found held =>
      simp only [Option.ite_none_right_eq_some, Option.some.injEq,
        Prod.mk.injEq]
      constructor
      · rintro ⟨passes, rfl, rfl⟩
        exact ⟨held, passes, rfl⟩
      · rintro ⟨here, passes, same⟩
        have one := Option.some.inj (held.symm.trans here)
        exact ⟨one ▸ passes, one, ext same.symm⟩

theorem take_eq_none_iff {slots : Slots size Record} {index : Fin size}
    {test : Record → Bool} :
    slots.take index test = none ↔
      ∀ record, slots.records index = some record → test record = false := by
  unfold take
  split
  · next free => simp [free]
  · next found held =>
      simp only [ite_eq_right_iff, reduceCtorEq, imp_false, Bool.not_eq_true]
      constructor
      · intro fails record here
        have one := Option.some.inj (held.symm.trans here)
        exact one ▸ fails
      · intro fails
        exact fails found held

/-- Taking a record lowers the count by one. -/
theorem pending_take {slots rest : Slots size Record} {index : Fin size}
    {test : Record → Bool} {record : Record}
    (took : slots.take index test = some (record, rest)) :
    rest.pending + 1 = slots.pending := by
  obtain ⟨held, -, same⟩ := take_eq_some_iff.mp took
  rw [← slots.counted, ← rest.counted, same]
  exact card_clear (by simp [held])

@[simp] theorem records_empty :
    (empty : Slots size Record).records = fun _ => none := rfl

@[simp] theorem pending_empty : (empty : Slots size Record).pending = 0 := rfl

end Slots
