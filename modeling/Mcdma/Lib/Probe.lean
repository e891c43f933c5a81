import Mathlib.Algebra.Group.Fin.Basic
import Mathlib.Data.Nat.ModEq
import Mcdma.Lib.Slots

/-!
# Tables with linear probing

A key is looked for from its home slot on, one slot after another and around
the end, until it or an empty slot is met.  A table is sound when every entry
can be met that way.  Removing an entry leaves a hole that cuts such paths; the
entries behind it are moved back into the hole until the next empty slot, which
repairs every path and needs no mark in the hole.
-/

namespace Probe

variable {size : Nat} [NeZero size]

/-- The slot of a position counted past the end. -/
def slot (size : Nat) [NeZero size] (spot : Nat) : Fin size :=
  Fin.ofNat size spot

/-- The steps from one position forward to the next one in the slot of
another. -/
def gap (size : Nat) [NeZero size] (origin stop : Nat) : Nat :=
  (slot size stop - slot size origin).val

theorem slot_eq_iff {first second : Nat} :
    slot size first = slot size second ↔ first ≡ second [MOD size] := by
  simp [slot, Fin.ext_iff, Nat.ModEq]

theorem slot_inj (start : Nat) {first second : Nat} (below : first < size)
    (below' : second < size)
    (same : slot size (start + first) = slot size (start + second)) :
    first = second := by
  rw [slot_eq_iff] at same
  have equal := Nat.ModEq.add_left_cancel' start same
  rwa [Nat.ModEq, Nat.mod_eq_of_lt below, Nat.mod_eq_of_lt below'] at equal

theorem slot_val (spot : Fin size) : slot size spot.val = spot := by
  simp [slot]

theorem gap_lt (origin stop : Nat) : gap size origin stop < size :=
  (slot size stop - slot size origin).isLt

theorem slot_add_gap (origin stop : Nat) :
    slot size (origin + gap size origin stop) = slot size stop := by
  have reads (a b : Nat) : slot size (a + b) = slot size a + slot size b := by
    simp [slot, Fin.ext_iff, Fin.val_add]
  rw [reads, gap, slot_val, add_comm, sub_add_cancel]

theorem gap_add {origin steps : Nat} (few : steps < size) :
    gap size origin (origin + steps) = steps :=
  slot_inj origin (gap_lt _ _) few (slot_add_gap origin (origin + steps))

variable {Key Value : Type*} [DecidableEq Key]

/-- What a search along the slots meets first: an empty slot, the key, or
neither in as many steps as it may take. -/
inductive Met (size : Nat) (Value : Type*) where
  | free (spot : Fin size)
  | held (spot : Fin size) (value : Value)
  | full

/-- Search for a key from a position on. -/
def probe (cells : Fin size → Option (Key × Value)) (key : Key) :
    Nat → Nat → Met size Value
  | 0, _ => .full
  | fuel + 1, spot =>
      match cells (slot size spot) with
      | none => .free (slot size spot)
      | some entry =>
          if entry.1 = key then .held (slot size spot) entry.2
          else probe cells key fuel (spot + 1)

variable {cells : Fin size → Option (Key × Value)} {key : Key}

/-- The slots a search passes: each holds another key. -/
def Passed (cells : Fin size → Option (Key × Value)) (key : Key)
    (start steps : Nat) : Prop :=
  ∀ step < steps, ∃ entry, cells (slot size (start + step)) = some entry ∧
    entry.1 ≠ key

omit [DecidableEq Key] in
theorem Passed.tail {start steps : Nat}
    (passed : Passed cells key start (steps + 1)) :
    Passed cells key (start + 1) steps := by
  intro step below
  have here := passed (step + 1) (by omega)
  rwa [show start + (step + 1) = start + 1 + step by omega] at here

/-- A search that has passed some slots goes on behind them. -/
theorem probe_passed {start steps fuel : Nat}
    (passed : Passed cells key start steps) :
    probe cells key (steps + fuel) start =
      probe cells key fuel (start + steps) := by
  induction steps generalizing start with
  | zero => rw [Nat.zero_add, Nat.add_zero]
  | succ steps inductionHypothesis =>
      obtain ⟨entry, here, other⟩ := passed 0 (by omega)
      rw [Nat.add_zero] at here
      rw [show steps + 1 + fuel = (steps + fuel) + 1 by omega, probe, here]
      simp only [other, if_false]
      rw [inductionHypothesis passed.tail]
      congr 1
      omega

theorem probe_held {start steps fuel : Nat} {value : Value}
    (passed : Passed cells key start steps)
    (here : cells (slot size (start + steps)) = some (key, value))
    (enough : steps < fuel) :
    probe cells key fuel start = .held (slot size (start + steps)) value := by
  obtain ⟨left, rfl⟩ := Nat.exists_eq_add_of_lt enough
  rw [Nat.add_assoc, probe_passed passed, probe, here]
  simp

theorem probe_free {start steps fuel : Nat}
    (passed : Passed cells key start steps)
    (here : cells (slot size (start + steps)) = none)
    (enough : steps < fuel) :
    probe cells key fuel start = .free (slot size (start + steps)) := by
  obtain ⟨left, rfl⟩ := Nat.exists_eq_add_of_lt enough
  rw [Nat.add_assoc, probe_passed passed, probe, here]

/-- What the result of a search says. -/
theorem probe_spec (cells : Fin size → Option (Key × Value)) (key : Key)
    (fuel start : Nat) :
    (probe cells key fuel start = .full ∧ Passed cells key start fuel) ∨
      ∃ steps < fuel, Passed cells key start steps ∧
        ((cells (slot size (start + steps)) = none ∧
            probe cells key fuel start =
              .free (slot size (start + steps))) ∨
          ∃ value, cells (slot size (start + steps)) = some (key, value) ∧
            probe cells key fuel start =
              .held (slot size (start + steps)) value) := by
  induction fuel generalizing start with
  | zero => exact Or.inl ⟨rfl, fun step below => absurd below (by omega)⟩
  | succ fuel inductionHypothesis =>
      have unmet : Passed cells key start 0 := fun step below =>
        absurd below (by omega)
      cases here : cells (slot size start) with
      | none =>
          exact Or.inr ⟨0, by omega, unmet, Or.inl ⟨here,
            probe_free unmet here (by omega)⟩⟩
      | some entry =>
          by_cases same : entry.1 = key
          · have held : cells (slot size (start + 0)) =
                some (key, entry.2) := by
              rw [Nat.add_zero, here, ← same]
            exact Or.inr ⟨0, by omega, unmet, Or.inr ⟨entry.2, held,
              probe_held unmet held (by omega)⟩⟩
          · have more {steps : Nat}
                (passed : Passed cells key (start + 1) steps) :
                Passed cells key start (steps + 1) := by
              intro step below
              cases step with
              | zero => exact ⟨entry, here, same⟩
              | succ step =>
                  have there := passed step (by omega)
                  rwa [show start + 1 + step = start + (step + 1) by omega]
                    at there
            have next : probe cells key (fuel + 1) start =
                probe cells key fuel (start + 1) := by
              rw [probe, here]
              simp only [same, if_false]
            rw [next]
            rcases inductionHypothesis (start + 1) with
              ⟨full, passed⟩ | ⟨steps, below, passed, outcome⟩
            · exact Or.inl ⟨full, more passed⟩
            · refine Or.inr ⟨steps + 1, by omega, more passed, ?_⟩
              rwa [show start + (steps + 1) = start + 1 + steps by omega]

/-! ## Sound tables -/

/-- An entry of a table. -/
def Holds (cells : Fin size → Option (Key × Value)) (key : Key)
    (value : Value) : Prop :=
  ∃ spot, cells spot = some (key, value)

/-- No key twice, and every entry behind occupied slots from its home on. -/
structure Sound (home : Key → Nat) (cells : Fin size → Option (Key × Value)) :
    Prop where
  unique : ∀ first second key value other,
    cells first = some (key, value) → cells second = some (key, other) →
      first = second
  reach : ∀ spot key value, cells spot = some (key, value) →
    ∃ steps < size, slot size (home key + steps) = spot ∧
      ∀ step < steps, (cells (slot size (home key + step))).isSome = true

variable {home : Key → Nat} {value : Value}

omit [DecidableEq Key] in
theorem Sound.passed (sound : Sound home cells) {steps : Nat}
    (few : steps < size)
    (here : cells (slot size (home key + steps)) = some (key, value))
    (occupied : ∀ step < steps,
      (cells (slot size (home key + step))).isSome = true) :
    Passed cells key (home key) steps := by
  intro step below
  obtain ⟨entry, there⟩ := Option.isSome_iff_exists.mp (occupied step below)
  refine ⟨entry, there, ?_⟩
  intro same
  have held : cells (slot size (home key + step)) = some (key, entry.2) := by
    rw [there, ← same]
  have one := sound.unique _ _ key entry.2 value held here
  have equal := slot_inj _ (by omega) few one
  omega

/-- A search finds what is there. -/
theorem Sound.probe_eq (sound : Sound home cells) {spot : Fin size}
    (here : cells spot = some (key, value)) :
    probe cells key size (home key) = .held spot value := by
  obtain ⟨steps, few, rfl, occupied⟩ := sound.reach spot key value here
  exact probe_held (sound.passed few here occupied) here few

/-- A search finds only what is there. -/
theorem holds_of_probe {start fuel : Nat} {spot : Fin size}
    (found : probe cells key fuel start = .held spot value) :
    cells spot = some (key, value) := by
  rcases probe_spec cells key fuel start with
    ⟨full, -⟩ | ⟨steps, -, -, ⟨-, free⟩ | ⟨other, here, held⟩⟩
  · rw [full] at found
    cases found
  · rw [free] at found
    cases found
  · rw [held] at found
    cases found
    exact here

/-- What a search that ends at an empty slot says. -/
theorem free_of_probe {start fuel : Nat} {spot : Fin size}
    (found : probe cells key fuel start = .free spot) :
    ∃ steps < fuel, slot size (start + steps) = spot ∧ cells spot = none ∧
      Passed cells key start steps := by
  rcases probe_spec cells key fuel start with
    ⟨full, -⟩ | ⟨steps, below, passed, ⟨empty, free⟩ | ⟨other, -, held⟩⟩
  · rw [full] at found
    cases found
  · rw [free] at found
    cases found
    exact ⟨steps, below, rfl, empty, passed⟩
  · rw [held] at found
    cases found

theorem Sound.absent_of_free (sound : Sound home cells) {spot : Fin size}
    (found : probe cells key size (home key) = .free spot) (value : Value) :
    ¬Holds cells key value := by
  rintro ⟨there, here⟩
  rw [sound.probe_eq here] at found
  cases found

omit [DecidableEq Key] in
theorem slot_gap (start : Nat) (spot : Fin size) :
    slot size (start + gap size start spot.val) = spot := by
  rw [slot_add_gap, slot_val]

/-- A search around a table with an empty slot meets something. -/
theorem probe_ne_full (free : ∃ spot, cells spot = none) (key : Key)
    (start : Nat) : probe cells key size start ≠ .full := by
  intro full
  obtain ⟨spot, empty⟩ := free
  rcases probe_spec cells key size start with
    ⟨-, passed⟩ | ⟨steps, -, -, ⟨-, found⟩ | ⟨value, -, found⟩⟩
  · obtain ⟨entry, here, -⟩ := passed (gap size start spot.val) (gap_lt _ _)
    rw [slot_gap, empty] at here
    cases here
  · rw [full] at found
    cases found
  · rw [full] at found
    cases found

/-- The slot where a search ends takes the entry. -/
theorem Sound.fill (sound : Sound home cells) {spot : Fin size}
    (found : probe cells key size (home key) = .free spot) (value : Value) :
    Sound home (Function.update cells spot (some (key, value))) := by
  obtain ⟨steps, few, place, empty, passed⟩ := free_of_probe found
  have more (other : Fin size) (held : (cells other).isSome = true) :
      (Function.update cells spot (some (key, value)) other).isSome = true := by
    by_cases same : other = spot
    · rw [same, Function.update_self]
      rfl
    · rwa [Function.update_of_ne same]
  have apart (other : Fin size) (held : Value)
      (here : cells other = some (key, held)) : False :=
    sound.absent_of_free found held ⟨other, here⟩
  constructor
  · intro first second other held held' here there
    by_cases isFirst : first = spot
    · by_cases isSecond : second = spot
      · rw [isFirst, isSecond]
      · rw [isFirst, Function.update_self, Option.some.injEq,
          Prod.mk.injEq] at here
        rw [Function.update_of_ne isSecond, ← here.1] at there
        exact (apart _ _ there).elim
    · rw [Function.update_of_ne isFirst] at here
      by_cases isSecond : second = spot
      · rw [isSecond, Function.update_self, Option.some.injEq,
          Prod.mk.injEq] at there
        rw [← there.1] at here
        exact (apart _ _ here).elim
      · rw [Function.update_of_ne isSecond] at there
        exact sound.unique _ _ _ _ _ here there
  · intro other asked held here
    by_cases isNew : other = spot
    · rw [isNew, Function.update_self, Option.some.injEq,
        Prod.mk.injEq] at here
      obtain ⟨rfl, rfl⟩ := here
      refine ⟨steps, few, place.trans isNew.symm, ?_⟩
      intro step below
      obtain ⟨entry, there, -⟩ := passed step below
      exact more _ (by rw [there]; rfl)
    · rw [Function.update_of_ne isNew] at here
      obtain ⟨far, below, ends, occupied⟩ := sound.reach _ _ _ here
      exact ⟨far, below, ends, fun step before =>
        more _ (occupied step before)⟩

omit [NeZero size] [DecidableEq Key] in
theorem holds_fill {spot : Fin size} (free : cells spot = none) {asked : Key}
    {held : Value} :
    Holds (Function.update cells spot (some (key, value))) asked held ↔
      Holds cells asked held ∨ asked = key ∧ held = value := by
  constructor
  · rintro ⟨other, here⟩
    by_cases isNew : other = spot
    · rw [isNew, Function.update_self, Option.some.injEq,
        Prod.mk.injEq] at here
      exact Or.inr ⟨here.1.symm, here.2.symm⟩
    · rw [Function.update_of_ne isNew] at here
      exact Or.inl ⟨other, here⟩
  · rintro (⟨other, here⟩ | ⟨rfl, rfl⟩)
    · have differs : other ≠ spot := by
        rintro rfl
        rw [free] at here
        cases here
      exact ⟨other, by rwa [Function.update_of_ne differs]⟩
    · exact ⟨spot, Function.update_self _ _ _⟩

/-! ## Closing a hole -/

/-- Move the entries behind a hole back into it until an empty slot. -/
def close (home : Key → Nat) :
    Nat → Nat → Nat → (Fin size → Option (Key × Value)) →
      Fin size → Option (Key × Value)
  | 0, _, _, cells => cells
  | fuel + 1, hole, scan, cells =>
      match cells (slot size scan) with
      | none => cells
      | some entry =>
          if gap size (home entry.1) scan ≥ gap size hole scan then
            close home fuel scan (scan + 1)
              (Function.update
                (Function.update cells (slot size hole) (some entry))
                (slot size scan) none)
          else close home fuel hole (scan + 1) cells

/-- The loop without a bound on its rounds: how it ends, if it does. -/
inductive Closes (home : Key → Nat) :
    Nat → Nat → (Fin size → Option (Key × Value)) →
      (Fin size → Option (Key × Value)) → Prop
  | stops {hole scan : Nat} {cells : Fin size → Option (Key × Value)}
      (empty : cells (slot size scan) = none) : Closes home hole scan cells cells
  | moves {hole scan : Nat} {cells rest : Fin size → Option (Key × Value)}
      {entry : Key × Value} (here : cells (slot size scan) = some entry)
      (far : gap size (home entry.1) scan ≥ gap size hole scan)
      (onward : Closes home scan (scan + 1)
        (Function.update
          (Function.update cells (slot size hole) (some entry))
          (slot size scan) none) rest) : Closes home hole scan cells rest
  | stays {hole scan : Nat} {cells rest : Fin size → Option (Key × Value)}
      {entry : Key × Value} (here : cells (slot size scan) = some entry)
      (near : ¬gap size (home entry.1) scan ≥ gap size hole scan)
      (onward : Closes home hole (scan + 1) cells rest) :
      Closes home hole scan cells rest

/-- A table with a hole whose next `width - 1` slots were looked at: the path
of an entry is whole, or passes the hole and goes on past those slots. -/
structure Hollow (home : Key → Nat) (cells : Fin size → Option (Key × Value))
    (hole width : Nat) : Prop where
  unique : ∀ first second key value other,
    cells first = some (key, value) → cells second = some (key, other) →
      first = second
  empty : cells (slot size hole) = none
  reach : ∀ spot key value, cells spot = some (key, value) →
    ∃ steps < size, slot size (home key + steps) = spot ∧
      ∀ step < steps, (cells (slot size (home key + step))).isSome = true ∨
        slot size (home key + step) = slot size hole ∧ step + width ≤ steps


namespace Hollow

variable {hole width : Nat} {entry : Key × Value}

omit [DecidableEq Key] in
/-- The steps to the scanned entry are the gap from its home. -/
theorem steps_eq {steps scan : Nat} (few : steps < size)
    (ends : slot size (home key + steps) = slot size scan) :
    steps = gap size (home key) scan :=
  slot_inj _ few (gap_lt _ _) (ends.trans (slot_add_gap _ _).symm)

omit [DecidableEq Key] in
/-- At an empty slot no path passes the hole any more. -/
theorem sound (hollow : Hollow home cells hole width) (pos : 0 < width)
    (stops : cells (slot size (hole + width)) = none) :
    Sound home cells := by
  refine ⟨hollow.unique, ?_⟩
  intro spot key value here
  obtain ⟨steps, below, ends, path⟩ := hollow.reach spot key value here
  refine ⟨steps, below, ends, ?_⟩
  intro step before
  rcases path step before with occupied | ⟨passes, far⟩
  · exact occupied
  · exfalso
    have behind : slot size (home key + (step + width)) =
        slot size (hole + width) := by
      rw [slot_eq_iff] at passes ⊢
      rw [← Nat.add_assoc]
      exact passes.add_right width
    rcases Nat.lt_or_ge (step + width) steps with within | last
    · rcases path (step + width) within with occupied | ⟨again, -⟩
      · rw [behind, stops] at occupied
        cases occupied
      · have equal := slot_inj (home key) (by omega) (by omega)
          (again.trans passes.symm)
        omega
    · have isLast : step + width = steps := by omega
      rw [isLast, ends] at behind
      rw [behind, stops] at here
      cases here

omit [DecidableEq Key] in
/-- An entry that is not behind the hole stays. -/
theorem stay (hollow : Hollow home cells hole width)
    (here : cells (slot size (hole + width)) = some entry)
    (near : gap size (home entry.1) (hole + width) < width) :
    Hollow home cells hole (width + 1) := by
  refine ⟨hollow.unique, hollow.empty, ?_⟩
  intro spot key value held
  obtain ⟨steps, below, ends, path⟩ := hollow.reach spot key value held
  refine ⟨steps, below, ends, ?_⟩
  intro step before
  rcases path step before with occupied | ⟨passes, far⟩
  · exact Or.inl occupied
  · refine Or.inr ⟨passes, ?_⟩
    rcases Nat.lt_or_ge (step + width) steps with within | last
    · omega
    · exfalso
      have isLast : step + width = steps := by omega
      have behind : slot size (home key + steps) = slot size (hole + width) := by
        rw [slot_eq_iff] at passes ⊢
        rw [← isLast, ← Nat.add_assoc]
        exact passes.add_right width
      rw [← ends, behind, here, Option.some.injEq] at held
      have equal := steps_eq below behind
      have sameKey : entry.1 = key := by rw [held]
      rw [sameKey] at near
      omega

/-- The table with the scanned entry in the hole. -/
def moved (cells : Fin size → Option (Key × Value)) (hole scan : Nat)
    (entry : Key × Value) : Fin size → Option (Key × Value) :=
  Function.update (Function.update cells (slot size hole) (some entry))
    (slot size scan) none

omit [DecidableEq Key] in
theorem moved_scan (hole scan : Nat) (entry : Key × Value) :
    moved cells hole scan entry (slot size scan) = none :=
  Function.update_self _ _ _

omit [DecidableEq Key] in
theorem moved_hole {scan : Nat} (apart : slot size hole ≠ slot size scan)
    (entry : Key × Value) :
    moved cells hole scan entry (slot size hole) = some entry := by
  rw [moved, Function.update_of_ne apart, Function.update_self]

omit [DecidableEq Key] in
theorem moved_other {scan : Nat} {spot : Fin size} (entry : Key × Value)
    (notHole : spot ≠ slot size hole) (notScan : spot ≠ slot size scan) :
    moved cells hole scan entry spot = cells spot := by
  rw [moved, Function.update_of_ne notScan, Function.update_of_ne notHole]

omit [DecidableEq Key] in
/-- Where an entry of the moved table was before. -/
theorem of_moved {scan : Nat} {spot : Fin size} {asked : Key} {held : Value}
    (apart : slot size hole ≠ slot size scan)
    (here : cells (slot size scan) = some entry)
    (found : moved cells hole scan entry spot = some (asked, held)) :
    spot = slot size hole ∧ cells (slot size scan) = some (asked, held) ∨
      spot ≠ slot size hole ∧ spot ≠ slot size scan ∧
        cells spot = some (asked, held) := by
  by_cases isScan : spot = slot size scan
  · rw [isScan, moved_scan] at found
    cases found
  · by_cases isHole : spot = slot size hole
    · rw [isHole, moved_hole apart] at found
      exact Or.inl ⟨isHole, here.trans found⟩
    · rw [moved_other entry isHole isScan] at found
      exact Or.inr ⟨isHole, isScan, found⟩

omit [DecidableEq Key] in
theorem holds_moved {scan : Nat} (hollow : Hollow home cells hole width)
    (apart : slot size hole ≠ slot size scan)
    (here : cells (slot size scan) = some entry) {asked : Key} {held : Value} :
    Holds (moved cells hole scan entry) asked held ↔
      Holds cells asked held := by
  constructor
  · rintro ⟨spot, found⟩
    rcases of_moved apart here found with ⟨-, before⟩ | ⟨-, -, before⟩
    · exact ⟨_, before⟩
    · exact ⟨_, before⟩
  · rintro ⟨spot, found⟩
    by_cases isScan : spot = slot size scan
    · refine ⟨slot size hole, ?_⟩
      rw [moved_hole apart, ← here, ← isScan, found]
    · have notHole : spot ≠ slot size hole := by
        rintro rfl
        rw [hollow.empty] at found
        cases found
      exact ⟨spot, by rwa [moved_other entry notHole isScan]⟩

omit [DecidableEq Key] in
/-- An entry behind the hole moves into it, and leaves a hole of its own. -/
theorem move (hollow : Hollow home cells hole width) (pos : 0 < width)
    (few : width < size)
    (here : cells (slot size (hole + width)) = some entry)
    (far : width ≤ gap size (home entry.1) (hole + width)) :
    Hollow home (moved cells hole (hole + width) entry) (hole + width) 1 := by
  have apart : slot size hole ≠ slot size (hole + width) := by
    intro same
    rw [← Nat.add_zero hole, Nat.add_assoc, Nat.zero_add] at same
    have equal := slot_inj hole (by omega) few same
    omega
  refine ⟨?_, moved_scan _ _ _, ?_⟩
  · intro first second key value other found found'
    rcases of_moved apart here found with ⟨rfl, was⟩ | ⟨notHole, notScan, was⟩
    · rcases of_moved apart here found' with ⟨rfl, -⟩ | ⟨-, notScan', was'⟩
      · rfl
      · exact absurd (hollow.unique _ _ _ _ _ was was').symm notScan'
    · rcases of_moved apart here found' with ⟨rfl, was'⟩ | ⟨-, -, was'⟩
      · exact absurd (hollow.unique _ _ _ _ _ was was') notScan
      · exact hollow.unique _ _ _ _ _ was was'
  · intro spot key value found
    -- A path that used the old hole is whole there now, and one over the
    -- scanned slot passes the new hole.
    have kept (target : Fin size)
        (old : (cells target).isSome = true ∨ target = slot size hole) :
        (moved cells hole (hole + width) entry target).isSome = true ∨
          target = slot size (hole + width) := by
      by_cases isScan : target = slot size (hole + width)
      · exact Or.inr isScan
      · left
        by_cases isHole : target = slot size hole
        · rw [isHole, moved_hole apart]
          rfl
        · rw [moved_other entry isHole isScan]
          exact old.resolve_right isHole
    have was : ∃ old, cells old = some (key, value) ∧
        (spot = slot size hole ∧ old = slot size (hole + width) ∨
          spot = old) := by
      rcases of_moved apart here found with ⟨isHole, was⟩ | ⟨-, -, was⟩
      · exact ⟨_, was, Or.inl ⟨isHole, rfl⟩⟩
      · exact ⟨_, was, Or.inr rfl⟩
    obtain ⟨old, held, place⟩ := was
    obtain ⟨steps, below, ends, path⟩ := hollow.reach old key value held
    rcases place with ⟨rfl, isScan⟩ | rfl
    · rw [isScan] at held ends
      rw [here, Option.some.injEq] at held
      have count := steps_eq below ends
      have sameKey : entry.1 = key := by rw [held]
      rw [sameKey] at far
      refine ⟨steps - width, by omega, ?_, ?_⟩
      · rw [slot_eq_iff] at ends ⊢
        refine Nat.ModEq.add_right_cancel' width ?_
        rwa [Nat.add_assoc, Nat.sub_add_cancel (by omega)]
      · intro step before
        rcases kept _ ((path step (by omega)).imp_right And.left) with
          occupied | passes
        · exact Or.inl occupied
        · exact Or.inr ⟨passes, by omega⟩
    · refine ⟨steps, below, ends, ?_⟩
      intro step before
      rcases kept _ ((path step before).imp_right And.left) with
        occupied | passes
      · exact Or.inl occupied
      · exact Or.inr ⟨passes, by omega⟩

omit [DecidableEq Key] in
/-- Closing the hole keeps the entries and makes every path whole.  The loop
stops at an empty slot `left` steps behind the one it looks at. -/
theorem close_spec (hollow : Hollow home cells hole width) (pos : 0 < width)
    {left fuel : Nat} (few : width + left < size) (enough : left < fuel)
    (stops : cells (slot size (hole + width + left)) = none) :
    Sound home (close home fuel hole (hole + width) cells) ∧
      (∀ asked held,
        Holds (close home fuel hole (hole + width) cells) asked held ↔
          Holds cells asked held) ∧
      (Slots.occupied (close home fuel hole (hole + width) cells)).card =
        (Slots.occupied cells).card ∧
      Closes home hole (hole + width) cells
        (close home fuel hole (hole + width) cells) := by
  induction left generalizing cells hole width fuel with
  | zero =>
      obtain ⟨fuel, rfl⟩ := Nat.exists_eq_succ_of_ne_zero (by omega : fuel ≠ 0)
      rw [Nat.add_zero] at stops
      simp only [close, stops]
      exact ⟨hollow.sound pos stops, fun _ _ => trivial, trivial,
        .stops stops⟩
  | succ left inductionHypothesis =>
      obtain ⟨fuel, rfl⟩ := Nat.exists_eq_succ_of_ne_zero (by omega : fuel ≠ 0)
      have onward : hole + width + (left + 1) = hole + width + 1 + left := by
        omega
      rw [onward] at stops
      cases here : cells (slot size (hole + width)) with
      | none =>
          simp only [close, here]
          exact ⟨hollow.sound pos here, fun _ _ => trivial, trivial,
            .stops here⟩
      | some entry =>
          have measured : gap size hole (hole + width) = width :=
            gap_add (by omega)
          simp only [close, here, measured]
          split
          · next far =>
              have apart : slot size hole ≠ slot size (hole + width) := by
                intro same
                rw [← Nat.add_zero hole, Nat.add_assoc, Nat.zero_add] at same
                have equal := slot_inj hole (by omega) (by omega) same
                omega
              have next := hollow.move pos (by omega) here far
              have stays : moved cells hole (hole + width) entry
                  (slot size (hole + width + 1 + left)) = none := by
                rw [moved_other entry, stops]
                · intro same
                  rw [show hole + width + 1 + left =
                    hole + (width + 1 + left) by omega,
                    ← Nat.add_zero hole, Nat.add_assoc, Nat.zero_add] at same
                  have equal := slot_inj hole (by omega) (by omega) same
                  omega
                · intro same
                  rw [show hole + width + 1 + left =
                    hole + width + (1 + left) by omega] at same
                  have equal := slot_inj (hole + width) (by omega)
                    (Nat.pos_of_neZero size) same
                  omega
              obtain ⟨sound, same, count, onward⟩ := inductionHypothesis next
                one_pos (by omega) (Nat.lt_of_succ_lt_succ enough) stays
              have sizes : (Slots.occupied
                  (moved cells hole (hole + width) entry)).card =
                  (Slots.occupied cells).card := by
                have filled := Slots.card_fill hollow.empty entry
                have cleared : (Slots.occupied
                    (moved cells hole (hole + width) entry)).card + 1 =
                    (Slots.occupied (Function.update cells (slot size hole)
                      (some entry))).card :=
                  Slots.card_clear
                    (by rw [Function.update_of_ne apart.symm, here]; rfl)
                rw [filled] at cleared
                exact Nat.succ.inj cleared
              exact ⟨sound, fun asked held => (same asked held).trans
                (holds_moved hollow apart here), count.trans sizes,
                .moves here (by rw [measured]; exact far) onward⟩
          · next near =>
              have next := hollow.stay here (by omega)
              obtain ⟨sound, same, count, onward⟩ := inductionHypothesis next
                (by omega) (by omega) (Nat.lt_of_succ_lt_succ enough) stops
              exact ⟨sound, same, count,
                .stays here (by rw [measured]; exact near) onward⟩

end Hollow

omit [DecidableEq Key] in
/-- Clearing a slot of a sound table leaves a hole there. -/
theorem Sound.clear (sound : Sound home cells) (hole : Nat) :
    Hollow home (Function.update cells (slot size hole) none) hole 1 := by
  have before (spot : Fin size) (entry : Key × Value)
      (here : Function.update cells (slot size hole) none spot = some entry) :
      cells spot = some entry := by
    by_cases same : spot = slot size hole
    · rw [same, Function.update_self] at here
      cases here
    · rwa [Function.update_of_ne same] at here
  refine ⟨?_, Function.update_self _ _ _, ?_⟩
  · intro first second key value other here there
    exact sound.unique _ _ _ _ _ (before _ _ here) (before _ _ there)
  · intro spot key value here
    obtain ⟨steps, few, ends, occupied⟩ :=
      sound.reach _ _ _ (before _ _ here)
    refine ⟨steps, few, ends, ?_⟩
    intro step below
    by_cases same : slot size (home key + step) = slot size hole
    · exact Or.inr ⟨same, by omega⟩
    · left
      rw [Function.update_of_ne same]
      exact occupied step below

omit [DecidableEq Key] in
/-- Removing an entry from a sound table with another empty slot. -/
theorem Sound.remove (sound : Sound home cells) {hole : Nat}
    (here : cells (slot size hole) = some (key, value))
    (free : ∃ spot, cells spot = none) :
    let rest := close home size hole (hole + 1)
      (Function.update cells (slot size hole) none)
    Sound home rest ∧
      (∀ asked held, Holds rest asked held ↔
        Holds cells asked held ∧ asked ≠ key) ∧
      (Slots.occupied rest).card + 1 = (Slots.occupied cells).card ∧
      Closes home hole (hole + 1)
        (Function.update cells (slot size hole) none) rest := by
  intro rest
  obtain ⟨spot, empty⟩ := free
  have apart : spot ≠ slot size hole := by
    rintro rfl
    rw [here] at empty
    cases empty
  have place : slot size (hole + 1 + gap size (hole + 1) spot.val) = spot := by
    rw [slot_add_gap, slot_val]
  have short : 1 + gap size (hole + 1) spot.val < size := by
    have below : gap size (hole + 1) spot.val < size := gap_lt _ _
    rcases Nat.lt_or_ge (1 + gap size (hole + 1) spot.val) size with
      within | around
    · exact within
    · exfalso
      have whole : hole + 1 + gap size (hole + 1) spot.val = hole + size := by
        omega
      rw [whole] at place
      apply apart
      rw [← place, slot_eq_iff]
      exact Nat.add_modEq_right
  have stops : Function.update cells (slot size hole) none
      (slot size (hole + 1 + gap size (hole + 1) spot.val)) = none := by
    rw [place, Function.update_of_ne apart, empty]
  obtain ⟨whole, same, count, ends⟩ := (sound.clear hole).close_spec one_pos
    short (gap_lt _ _) stops
  refine ⟨whole, ?_, ?_, ends⟩
  · intro asked held
    rw [same]
    constructor
    · rintro ⟨other, found⟩
      by_cases isHole : other = slot size hole
      · rw [isHole, Function.update_self] at found
        cases found
      · rw [Function.update_of_ne isHole] at found
        refine ⟨⟨other, found⟩, ?_⟩
        rintro rfl
        exact isHole (sound.unique _ _ _ _ _ found here)
    · rintro ⟨⟨other, found⟩, differs⟩
      refine ⟨other, ?_⟩
      have notHole : other ≠ slot size hole := by
        rintro rfl
        rw [here, Option.some.injEq, Prod.mk.injEq] at found
        exact differs found.1.symm
      rwa [Function.update_of_ne notHole]
  · rw [count]
    exact Slots.card_clear (by rw [here]; rfl)

end Probe
