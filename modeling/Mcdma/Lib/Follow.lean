import Mathlib.Data.List.Nodup
import Mathlib.Logic.Function.Basic

/-!
# Followers of one log

Records are held under keys, and the entries of a log take them: each entry
names the key of the record it takes, and the entries are in lanes.  Several
followers work through the lanes, each at its own pace, and what a follower holds
are the records without those its entries have taken.

An entry that every follower has worked through is settled, and its record is
then gone for good.  A key may be used again once its record is gone.
-/

/-- The records that some follower still holds, and the entries that some
follower has not worked through. -/
structure Log {Key Record Entry Lane : Type*} (lane : Key → Lane)
    (key : Entry → Key) (record : Entry → Record) where
  held : Key → Option Record
  live : Lane → List Entry
  nodup : ∀ c, ((live c).map key).Nodup
  logged : ∀ c, ∀ entry ∈ live c,
    lane (key entry) = c ∧ held (key entry) = some (record entry)

namespace Log

variable {Key Record Entry Lane : Type*} [DecidableEq Key] [DecidableEq Lane]
variable {lane : Key → Lane} {key : Entry → Key} {record : Entry → Record}

/-- The keys of the entries of a lane that a follower has worked through. -/
def taken (log : Log lane key record) (cursor : Lane → Nat) (c : Lane) :
    List Key :=
  ((log.live c).take (cursor c)).map key

/-- What a follower holds that has worked through a number of entries of each
lane. -/
def view (log : Log lane key record) (cursor : Lane → Nat) :
    Key → Option Record := fun spot =>
  if spot ∈ log.taken cursor (lane spot) then none else log.held spot

omit [DecidableEq Lane] in
theorem view_congr {log log' : Log lane key record} {cursor cursor' : Lane → Nat}
    {spot : Key}
    (taken : log.taken cursor (lane spot) = log'.taken cursor' (lane spot))
    (held : log.held spot = log'.held spot) :
    log.view cursor spot = log'.view cursor' spot := by
  rw [view, view, taken, held]

section

variable (log : Log lane key record) {cursor : Lane → Nat}

omit [DecidableEq Lane] in
/-- A follower that has just settled everything holds everything. -/
theorem view_zero (allZero : ∀ c, cursor c = 0) : log.view cursor = log.held := by
  funext spot
  simp [view, taken, allZero]

omit [DecidableEq Lane] in
theorem view_eq_some {spot : Key} {found : Record}
    (holds : log.view cursor spot = some found) : log.held spot = some found := by
  unfold view at holds
  split at holds
  · cases holds
  · exact holds

omit [DecidableEq Lane] in
theorem view_isSome {spot : Key} (holds : (log.view cursor spot).isSome = true) :
    (log.held spot).isSome = true := by
  obtain ⟨found, here⟩ := Option.isSome_iff_exists.mp holds
  rw [log.view_eq_some here]
  rfl

/-! ## Working through an entry -/

omit [DecidableEq Lane] in
/-- The record of an entry that a follower has not worked through. -/
theorem view_next {c : Lane} {entry : Entry}
    (next : (log.live c)[cursor c]? = some entry) :
    log.view cursor (key entry) = some (record entry) := by
  obtain ⟨below, here⟩ := List.getElem?_eq_some_iff.mp next
  obtain ⟨ownLane, holds⟩ := log.logged c entry (here ▸ List.getElem_mem below)
  rw [view, if_neg, holds]
  rw [ownLane, taken, List.mem_map]
  rintro ⟨early, taken, same⟩
  obtain ⟨spot, small, rfl⟩ := List.getElem_of_mem taken
  rw [List.getElem_take] at same
  rw [List.length_take] at small
  have unique := List.nodup_iff_injective_getElem.mp (log.nodup c)
  have one := @unique ⟨spot, by simp; omega⟩ ⟨cursor c, by simpa using below⟩
    (by simp [same, here])
  have equal : spot = cursor c := congrArg Fin.val one
  omega

/-- It is then gone for that follower, and nothing else is. -/
theorem view_advance {c : Lane} {entry : Entry}
    (next : (log.live c)[cursor c]? = some entry) :
    log.view (Function.update cursor c (cursor c + 1)) =
      Function.update (log.view cursor) (key entry) none := by
  obtain ⟨below, here⟩ := List.getElem?_eq_some_iff.mp next
  have ownLane := (log.logged c entry (here ▸ List.getElem_mem below)).1
  have more : log.taken (Function.update cursor c (cursor c + 1)) c =
      log.taken cursor c ++ [key entry] := by
    rw [taken, Function.update_self, List.take_add_one, next,
      Option.toList_some, List.map_append, List.map_singleton, taken]
  funext spot
  by_cases mine : lane spot = c
  · rw [view, mine, more]
    by_cases same : spot = key entry
    · rw [same, Function.update_self, if_pos (by simp)]
    · rw [Function.update_of_ne same, view, mine]
      simp [same]
  · have other : spot ≠ key entry := fun same => mine (same ▸ ownLane)
    rw [Function.update_of_ne other]
    refine view_congr ?_ rfl
    rw [taken, taken, Function.update_of_ne mine]

end

/-! ## New entries and new records -/

/-- An entry is added to a lane by one who has worked through all of it. -/
def append (log : Log lane key record) (c : Lane) (entry : Entry)
    (ownLane : lane (key entry) = c)
    (holds : log.view (fun c => (log.live c).length) (key entry) =
      some (record entry)) : Log lane key record where
  held := log.held
  live := Function.update log.live c (log.live c ++ [entry])
  nodup := by
    intro other
    by_cases mine : other = c
    · subst mine
      rw [Function.update_self, List.map_append, List.map_singleton,
        List.nodup_append]
      refine ⟨log.nodup other, List.nodup_singleton _, ?_⟩
      rintro first early last final rfl
      rw [List.mem_singleton] at final
      subst final
      rw [view, ownLane, taken, List.take_length, if_pos early] at holds
      cases holds
    · rw [Function.update_of_ne mine]
      exact log.nodup other
  logged := by
    intro other one member
    by_cases mine : other = c
    · subst mine
      rw [Function.update_self, List.mem_append, List.mem_singleton] at member
      rcases member with early | rfl
      · exact log.logged other one early
      · exact ⟨ownLane, log.view_eq_some holds⟩
    · rw [Function.update_of_ne mine] at member
      exact log.logged other one member

@[simp] theorem live_append (log : Log lane key record) {c : Lane}
    {entry : Entry} (ownLane : lane (key entry) = c)
    (holds : log.view (fun c => (log.live c).length) (key entry) =
      some (record entry)) :
    (log.append c entry ownLane holds).live =
      Function.update log.live c (log.live c ++ [entry]) := rfl

/-- The other followers do not see it yet. -/
theorem view_append (log : Log lane key record) {c : Lane} {entry : Entry}
    (ownLane : lane (key entry) = c)
    (holds : log.view (fun c => (log.live c).length) (key entry) =
      some (record entry)) {cursor : Lane → Nat}
    (within : cursor c ≤ (log.live c).length) :
    (log.append c entry ownLane holds).view cursor = log.view cursor := by
  funext spot
  refine view_congr ?_ rfl
  rw [taken, taken, live_append]
  by_cases mine : lane spot = c
  · rw [mine, Function.update_self, List.take_append_of_le_length within]
  · rw [Function.update_of_ne mine]

/-- A record is put under a key that no follower holds. -/
def put (log : Log lane key record) (spot : Key) (found : Record)
    (free : log.held spot = none) : Log lane key record where
  held := Function.update log.held spot (some found)
  live := log.live
  nodup := log.nodup
  logged := by
    intro c entry member
    obtain ⟨ownLane, holds⟩ := log.logged c entry member
    refine ⟨ownLane, ?_⟩
    rw [Function.update_of_ne, holds]
    rintro rfl
    rw [free] at holds
    cases holds

omit [DecidableEq Lane] in
@[simp] theorem held_put (log : Log lane key record) {spot : Key}
    {found : Record} (free : log.held spot = none) :
    (log.put spot found free).held =
      Function.update log.held spot (some found) := rfl

omit [DecidableEq Lane] in
/-- Every follower holds it then. -/
theorem view_put (log : Log lane key record) {spot : Key} {found : Record}
    (free : log.held spot = none) (cursor : Lane → Nat) :
    (log.put spot found free).view cursor =
      Function.update (log.view cursor) spot (some found) := by
  funext other
  by_cases same : other = spot
  · subst same
    rw [view, Function.update_self, if_neg, held_put, Function.update_self]
    rw [taken, List.mem_map]
    rintro ⟨entry, early, rfl⟩
    have holds := (log.logged _ entry (List.mem_of_mem_take early)).2
    rw [free] at holds
    cases holds
  · rw [Function.update_of_ne same]
    refine view_congr rfl ?_
    rw [held_put, Function.update_of_ne same]

/-- Records put under their keys, one after another. -/
def fill (held : Key → Option Record) : List (Key × Record) → Key → Option Record
  | [] => held
  | (spot, found) :: rest =>
      fill (Function.update held spot (some found)) rest

/-! ## Settling -/

/-- The first entry of a lane is settled. -/
def settle (log : Log lane key record) (c : Lane) (entry : Entry)
    (rest : List Entry) (first : log.live c = entry :: rest) :
    Log lane key record where
  held := Function.update log.held (key entry) none
  live := Function.update log.live c rest
  nodup := by
    intro other
    by_cases mine : other = c
    · subst mine
      have nodup := log.nodup other
      rw [first, List.map_cons, List.nodup_cons] at nodup
      rw [Function.update_self]
      exact nodup.2
    · rw [Function.update_of_ne mine]
      exact log.nodup other
  logged := by
    intro other one member
    have here : lane (key entry) = c :=
      (log.logged c entry (first ▸ List.mem_cons_self)).1
    by_cases mine : other = c
    · subst mine
      rw [Function.update_self] at member
      have nodup := log.nodup other
      rw [first, List.map_cons, List.nodup_cons] at nodup
      obtain ⟨ownLane, holds⟩ := log.logged other one
        (first ▸ List.mem_cons_of_mem _ member)
      refine ⟨ownLane, ?_⟩
      rw [Function.update_of_ne, holds]
      exact fun same => nodup.1 (same ▸ List.mem_map_of_mem member)
    · rw [Function.update_of_ne mine] at member
      obtain ⟨ownLane, holds⟩ := log.logged other one member
      refine ⟨ownLane, ?_⟩
      rw [Function.update_of_ne, holds]
      exact fun same => mine (ownLane.symm.trans ((congrArg lane same).trans here))

@[simp] theorem held_settle (log : Log lane key record) {c : Lane}
    {entry : Entry} {rest : List Entry} (first : log.live c = entry :: rest) :
    (log.settle c entry rest first).held =
      Function.update log.held (key entry) none := rfl

@[simp] theorem live_settle (log : Log lane key record) {c : Lane}
    {entry : Entry} {rest : List Entry} (first : log.live c = entry :: rest) :
    (log.settle c entry rest first).live = Function.update log.live c rest :=
  rfl

/-- Nothing changes for a follower that has worked through it. -/
theorem view_settle (log : Log lane key record) {c : Lane} {entry : Entry}
    {rest : List Entry} (first : log.live c = entry :: rest)
    {cursor : Lane → Nat} {worked : Nat} (through : cursor c = worked + 1) :
    (log.settle c entry rest first).view (Function.update cursor c worked) =
      log.view cursor := by
  have here : lane (key entry) = c :=
    (log.logged c entry (first ▸ List.mem_cons_self)).1
  have more : log.taken cursor c = key entry ::
      (log.settle c entry rest first).taken (Function.update cursor c worked)
        c := by
    rw [taken, taken, live_settle, Function.update_self, Function.update_self,
      through, first, List.take_succ_cons, List.map_cons]
  funext spot
  by_cases mine : lane spot = c
  · rw [view, view, mine, more]
    by_cases same : spot = key entry
    · simp [same]
    · simp [same]
  · have other : spot ≠ key entry := fun same => mine (same ▸ here)
    refine view_congr ?_ ?_
    · rw [taken, taken, live_settle, Function.update_of_ne mine,
        Function.update_of_ne mine]
    · rw [held_settle, Function.update_of_ne other]

/-- The first entries of a lane are settled. -/
theorem exists_settle (log : Log lane key record) (c : Lane) {count : Nat}
    (within : count ≤ (log.live c).length) :
    ∃ after : Log lane key record,
      after.live = Function.update log.live c ((log.live c).drop count) ∧
      (∀ spot, (after.held spot).isSome = true →
        (log.held spot).isSome = true) ∧
      ∀ cursor, count ≤ cursor c →
        after.view (Function.update cursor c (cursor c - count)) =
          log.view cursor := by
  induction count generalizing log with
  | zero =>
      refine ⟨log, ?_, fun _ holds => holds, fun cursor _ => ?_⟩
      · rw [List.drop_zero, Function.update_eq_self]
      · rw [Nat.sub_zero, Function.update_eq_self]
  | succ count inductionHypothesis =>
      cases first : log.live c with
      | nil =>
          rw [first] at within
          exact absurd within (Nat.not_succ_le_zero _)
      | cons entry rest =>
          have here : (log.settle c entry rest first).live c = rest := by
            rw [live_settle, Function.update_self]
          obtain ⟨after, live, held, views⟩ :=
            inductionHypothesis (log.settle c entry rest first) (by
              rw [here]
              rw [first] at within
              exact Nat.le_of_succ_le_succ within)
          refine ⟨after, ?_, fun spot holds => ?_, fun cursor through => ?_⟩
          · rw [live, here, live_settle, Function.update_idem,
              List.drop_succ_cons]
          · have before := held spot holds
            rw [held_settle] at before
            by_cases same : spot = key entry
            · rw [same, Function.update_self] at before
              cases before
            · rwa [Function.update_of_ne same] at before
          · have one : cursor c = (cursor c - 1) + 1 := by omega
            have onward := views (Function.update cursor c (cursor c - 1))
              (by rw [Function.update_self]; omega)
            rw [Function.update_self, Function.update_idem,
              log.view_settle first one] at onward
            rw [← onward, Nat.sub_sub, Nat.add_comm 1]

/-! ## How many entries a lane can have -/

/-- At most so many records are held in a lane. -/
def AtMost (held : Key → Option Record) (lane : Key → Lane) (c : Lane)
    (bound : Nat) : Prop :=
  ∀ keys : List Key, keys.Nodup →
    (∀ spot ∈ keys, lane spot = c ∧ (held spot).isSome = true) →
    keys.length ≤ bound

omit [DecidableEq Key] [DecidableEq Lane] in
theorem AtMost.mono {held fewer : Key → Option Record} {c : Lane} {bound : Nat}
    (most : AtMost held lane c bound)
    (less : ∀ spot, (fewer spot).isSome = true → (held spot).isSome = true) :
    AtMost fewer lane c bound := fun keys nodup all =>
  most keys nodup fun spot member =>
    ⟨(all spot member).1, less spot (all spot member).2⟩

omit [DecidableEq Key] [DecidableEq Lane] in
/-- The entries of a lane are no more than its records. -/
theorem length_le (log : Log lane key record) {c : Lane} {bound : Nat}
    (most : AtMost log.held lane c bound) : (log.live c).length ≤ bound := by
  have counted := most ((log.live c).map key) (log.nodup c) fun spot member => by
    obtain ⟨entry, mine, rfl⟩ := List.mem_map.mp member
    obtain ⟨ownLane, holds⟩ := log.logged c entry mine
    exact ⟨ownLane, by rw [holds]; rfl⟩
  rwa [List.length_map] at counted

end Log
