import Mcdma.Hca.Index
import Mcdma.Lib.Dict

/-!
# The index is a finite map

What a caller sees of the index is a dictionary with a bound on its entries:
after any calls the answers are the dictionary's, whatever the keys hash to.  A
pointer a caller passes may be null.
-/

namespace Mcdma
namespace Hca
namespace PointerIndex

/-- A call; `none` stands for a null pointer. -/
inductive Request (Value : Type) where
  | find (key : UInt32)
  | insert (key : UInt32) (value : Option Value)
  | erase (key : UInt32) (expected : Option Value)

/-- What a call returns. -/
inductive Answer (Value : Type) where
  | found (value : Option Value)
  | done (accepted : Bool)
  deriving DecidableEq

variable {log : Nat} {Value : Type} [DecidableEq Value]

/-- A new index if there is one. -/
def settled (x : PointerIndex log Value)
    (changed : Option (PointerIndex log Value)) :
    Answer Value × PointerIndex log Value :=
  (.done changed.isSome, changed.getD x)

/-- A call of the index. -/
def serve (x : PointerIndex log Value) :
    Request Value → Answer Value × PointerIndex log Value
  | .find key => (.found (x.find key), x)
  | .insert key value => x.settled (value.bind fun value => x.insert key value)
  | .erase key expected =>
      x.settled (expected.bind fun expected => x.erase key expected)

/-- The same call of a dictionary with at most `limit` entries. -/
def serveMap (limit : Nat) (map : Dict UInt32 Value) :
    Request Value → Answer Value × Dict UInt32 Value
  | .find key => (.found (map.get key), map)
  | .insert key (some value) =>
      if map.entries.length = limit ∨ (map.get key).isSome then
        (.done false, map)
      else (.done true, map.put key value)
  | .insert _ none => (.done false, map)
  | .erase key (some expected) =>
      if map.get key = some expected then (.done true, map.pop key)
      else (.done false, map)
  | .erase _ none => (.done false, map)

/-- The answers to a sequence of calls, and the state behind them. -/
def replies {State : Type} (step : State → Request Value → Answer Value × State) :
    State → List (Request Value) → List (Answer Value) × State
  | state, [] => ([], state)
  | state, request :: rest =>
      let first := step state request
      let others := replies step first.2 rest
      (first.1 :: others.1, others.2)

/-- An index and a dictionary with the same entries. -/
structure Agrees (x : PointerIndex log Value) (map : Dict UInt32 Value) :
    Prop where
  holds : ∀ key value, x.Holds key value ↔ map.get key = some value
  size : x.size = map.entries.length

omit [DecidableEq Value] in
theorem agrees_empty :
    Agrees (empty : PointerIndex log Value) Dict.empty := by
  refine ⟨fun key value => iff_of_false ?_ (by simp), rfl⟩
  rintro ⟨spot, here⟩
  cases here

variable {x : PointerIndex log Value} {map : Dict UInt32 Value}

omit [DecidableEq Value] in
theorem Agrees.find (agrees : x.Agrees map) (key : UInt32) :
    x.find key = map.get key := by
  apply Option.ext
  intro value
  rw [x.find_eq_some_iff, agrees.holds]

omit [DecidableEq Value] in
theorem length_eq_tally (map : Dict UInt32 Value) :
    map.entries.length = map.tally fun _ => true := by
  simp [Dict.tally]

omit [DecidableEq Value] in
/-- An entry is added to both or to neither. -/
theorem Agrees.insert (agrees : x.Agrees map) (key : UInt32) (value : Value) :
    (x.insert key value = none ∧
        (map.entries.length = 2 ^ log ∨ (map.get key).isSome = true)) ∨
      ∃ y, x.insert key value = some y ∧ y.Agrees (map.put key value) ∧
        ¬(map.entries.length = 2 ^ log ∨ (map.get key).isSome = true) := by
  have refusal : x.insert key value = none ↔
      map.entries.length = 2 ^ log ∨ (map.get key).isSome = true := by
    rw [x.insert_eq_none_iff, agrees.size, Option.isSome_iff_exists]
    simp only [agrees.holds]
  cases added : x.insert key value with
  | none => exact Or.inl ⟨rfl, refusal.mp added⟩
  | some y =>
      have accepted : ¬(map.entries.length = 2 ^ log ∨
          (map.get key).isSome = true) := by
        rw [← refusal, added]
        simp
      have missing : map.get key = none := by
        cases held : map.get key with
        | none => rfl
        | some other => exact absurd (Or.inr (by simp [held])) accepted
      refine Or.inr ⟨y, rfl, ⟨?_, ?_⟩, accepted⟩
      · intro asked held
        rw [x.holds_insert added, agrees.holds]
        by_cases same : asked = key
        · rw [same, map.get_put_same, missing]
          simp [eq_comm]
        · rw [map.get_put_other value same]
          simp [same]
      · rw [x.size_insert added, agrees.size, length_eq_tally,
          length_eq_tally, Dict.tally_put_new missing]
        simp

/-- An entry is removed from both or from neither. -/
theorem Agrees.erase (agrees : x.Agrees map) (key : UInt32) (value : Value) :
    (x.erase key value = none ∧ map.get key ≠ some value) ∨
      ∃ y, x.erase key value = some y ∧ y.Agrees (map.pop key) ∧
        map.get key = some value := by
  by_cases found : map.get key = some value
  · obtain ⟨y, erased, kept⟩ := x.erase_eq ((agrees.holds key value).mpr found)
    refine Or.inr ⟨y, erased, ⟨?_, ?_⟩, found⟩
    · intro asked held
      rw [kept, agrees.holds]
      by_cases same : asked = key
      · rw [same, map.get_pop_same]
        simp
      · rw [map.get_pop_other same]
        simp [same]
    · have less := (x.closes_erase erased).1
      have fewer := Dict.tally_pop found fun _ => true
      rw [← length_eq_tally, ← length_eq_tally] at fewer
      have before := agrees.size
      simp only [if_true] at fewer
      omega
  · refine Or.inl ⟨?_, found⟩
    cases erased : x.erase key value with
    | none => rfl
    | some y =>
        exact absurd ((agrees.holds key value).mp (x.holds_of_erase erased))
          found

/-- A call gives the dictionary's answer and keeps the entries the same. -/
theorem Agrees.served (agrees : x.Agrees map) (request : Request Value) :
    (x.serve request).1 = (serveMap (2 ^ log) map request).1 ∧
      (x.serve request).2.Agrees (serveMap (2 ^ log) map request).2 := by
  cases request with
  | find key => exact ⟨congrArg Answer.found (agrees.find key), agrees⟩
  | insert key value =>
      cases value with
      | none => exact ⟨rfl, agrees⟩
      | some value =>
          simp only [PointerIndex.serve, serveMap, settled, Option.bind_some]
          obtain ⟨refused, there⟩ | ⟨y, added, after, absent⟩ :=
            agrees.insert key value
          · rw [refused, if_pos there]
            exact ⟨rfl, agrees⟩
          · rw [added, if_neg absent]
            exact ⟨rfl, after⟩
  | erase key expected =>
      cases expected with
      | none => exact ⟨rfl, agrees⟩
      | some expected =>
          simp only [PointerIndex.serve, serveMap, settled, Option.bind_some]
          obtain ⟨refused, absent⟩ | ⟨y, erased, after, there⟩ :=
            agrees.erase key expected
          · rw [refused, if_neg absent]
            exact ⟨rfl, agrees⟩
          · rw [erased, if_pos there]
            exact ⟨rfl, after⟩

theorem Agrees.replied (agrees : x.Agrees map)
    (requests : List (Request Value)) :
    (replies serve x requests).1 =
        (replies (serveMap (2 ^ log)) map requests).1 ∧
      (replies serve x requests).2.Agrees
        (replies (serveMap (2 ^ log)) map requests).2 := by
  induction requests generalizing x map with
  | nil => exact ⟨rfl, agrees⟩
  | cons request rest inductionHypothesis =>
      obtain ⟨answer, after⟩ := agrees.served request
      obtain ⟨answers, final⟩ := inductionHypothesis after
      exact ⟨congrArg₂ List.cons answer answers, final⟩

/-- The index refines a finite map.  After any sequence of calls every answer
was the map's, a key is found with the value the map has for it, and the size
is the number of entries; a search always meets the key or an empty slot, and
the loop that closes the hole of a removed entry ends. -/
theorem index_refines (log : Nat) (requests : List (Request Value)) :
    let index := replies serve (empty : PointerIndex log Value) requests
    let map := replies (serveMap (2 ^ log)) Dict.empty requests
    index.1 = map.1 ∧ (∀ key, index.2.find key = map.2.get key) ∧
      index.2.size = map.2.entries.length ∧
      (∀ key, Probe.probe index.2.cells key (slots log) (bucket log key) ≠
        .full) ∧
      (∀ key value rest, index.2.erase key value = some rest →
        ∃ spot, index.2.cells spot = some (key, value) ∧
          Probe.Closes (bucket log) spot.val (spot.val + 1)
            (Function.update index.2.cells spot none) rest.cells) := by
  intro index map
  have start : Agrees (empty : PointerIndex log Value) Dict.empty :=
    agrees_empty
  obtain ⟨answers, agrees⟩ := start.replied requests
  refine ⟨answers, agrees.find, agrees.size, ?_, ?_⟩
  · intro key
    exact Probe.probe_ne_full index.2.exists_free key _
  · intro key value rest erased
    exact (index.2.closes_erase erased).2

end PointerIndex
end Hca
end Mcdma
