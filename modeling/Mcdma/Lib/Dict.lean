import Mathlib.Data.List.Nodup
import Mathlib.Data.List.Lookmap

/-!
# Dictionaries in insertion order

A dictionary is the list of its entries in the order their keys were first
put.  Putting a key that is there replaces its value in place.  No key has two
entries, so the number of values that pass a test moves by one entry at a
time.
-/

/-- Entries in insertion order, with no key twice. -/
structure Dict (Key Value : Type*) where
  entries : List (Key × Value)
  nodup : (entries.map Prod.fst).Nodup

namespace Dict

variable {Key Value : Type*} [DecidableEq Key]

/-- The dictionary without entries. -/
def empty : Dict Key Value where
  entries := []
  nodup := List.nodup_nil

/-- The value of a key. -/
def get (dict : Dict Key Value) (key : Key) : Option Value :=
  (dict.entries.find? fun entry => entry.1 = key).map Prod.snd

omit [DecidableEq Key] in
private theorem map_fst_replace (entries : List (Key × Value))
    (replace : Key × Value → Key × Value)
    (keeps : ∀ entry, (replace entry).1 = entry.1) :
    (entries.map replace).map Prod.fst = entries.map Prod.fst := by
  rw [List.map_map]
  exact List.map_congr_left fun entry _ => keeps entry

/-- One entry with its value replaced if it has the key. -/
def replaceEntry (key : Key) (value : Value) (entry : Key × Value) :
    Key × Value :=
  (entry.1, if entry.1 = key then value else entry.2)

/-- Put a value under a key: in place if the key is there, at the end
otherwise. -/
def put (dict : Dict Key Value) (key : Key) (value : Value) :
    Dict Key Value where
  entries :=
    if key ∈ dict.entries.map Prod.fst then
      dict.entries.map (replaceEntry key value)
    else dict.entries ++ [(key, value)]
  nodup := by
    split
    · rw [map_fst_replace _ (replaceEntry key value) fun _ => rfl]
      exact dict.nodup
    · next absent =>
        rw [List.map_append, List.nodup_append]
        refine ⟨dict.nodup, List.nodup_singleton _, ?_⟩
        intro other held last isLast same
        rw [List.map_singleton, List.mem_singleton] at isLast
        rw [same, isLast] at held
        exact absent held

/-- Remove a key's entry. -/
def pop (dict : Dict Key Value) (key : Key) : Dict Key Value where
  entries := dict.entries.filter fun entry => entry.1 ≠ key
  nodup := dict.nodup.sublist (List.filter_sublist.map _)

/-- The number of values that pass a test. -/
def tally (dict : Dict Key Value) (test : Value → Bool) : Nat :=
  dict.entries.countP fun entry => test entry.2

theorem mem_of_get {dict : Dict Key Value} {key : Key} {value : Value}
    (found : dict.get key = some value) : (key, value) ∈ dict.entries := by
  obtain ⟨⟨k, held⟩, isFound, same⟩ := Option.map_eq_some_iff.mp found
  have named := List.find?_some isFound
  simp only [decide_eq_true_eq] at named
  have there := List.mem_of_find?_eq_some isFound
  rw [← named, ← same]
  exact there

omit [DecidableEq Key] in
theorem eq_of_mem {dict : Dict Key Value} {key : Key} {value other : Value}
    (held : (key, value) ∈ dict.entries)
    (again : (key, other) ∈ dict.entries) : value = other := by
  have same := List.inj_on_of_nodup_map dict.nodup held again rfl
  exact (Prod.ext_iff.mp same).2

theorem get_of_mem {dict : Dict Key Value} {key : Key} {value : Value}
    (held : (key, value) ∈ dict.entries) : dict.get key = some value := by
  cases found : dict.get key with
  | some other => rw [eq_of_mem held (mem_of_get found)]
  | none =>
      rw [get, Option.map_eq_none_iff, List.find?_eq_none] at found
      exact absurd (decide_eq_true rfl) (found _ held)

theorem get_eq_some_iff {dict : Dict Key Value} {key : Key} {value : Value} :
    dict.get key = some value ↔ (key, value) ∈ dict.entries :=
  ⟨mem_of_get, get_of_mem⟩

theorem get_eq_none_iff {dict : Dict Key Value} {key : Key} :
    dict.get key = none ↔ key ∉ dict.entries.map Prod.fst := by
  constructor
  · intro missing there
    obtain ⟨⟨k, value⟩, held, same⟩ := List.mem_map.mp there
    cases same
    rw [get_of_mem held] at missing
    cases missing
  · intro absent
    cases found : dict.get key with
    | none => rfl
    | some value =>
        exact absurd (List.mem_map_of_mem (mem_of_get found)) absent

@[simp] theorem get_empty (key : Key) :
    (empty : Dict Key Value).get key = none := rfl

theorem get_put_same (dict : Dict Key Value) (key : Key) (value : Value) :
    (dict.put key value).get key = some value := by
  apply get_of_mem
  by_cases there : key ∈ dict.entries.map Prod.fst
  · obtain ⟨⟨k, old⟩, held, same⟩ := List.mem_map.mp there
    cases same
    simp only [put, there, if_true]
    exact List.mem_map.mpr ⟨_, held, by simp [replaceEntry]⟩
  · simp [put, there]

theorem get_put_other (dict : Dict Key Value) {key other : Key}
    (value : Value) (differs : other ≠ key) :
    (dict.put key value).get other = dict.get other := by
  apply Option.ext
  intro found
  rw [get_eq_some_iff, get_eq_some_iff]
  by_cases there : key ∈ dict.entries.map Prod.fst
  · simp only [put, there, if_true, List.mem_map, replaceEntry, Prod.mk.injEq]
    constructor
    · rintro ⟨⟨k, old⟩, held, rfl, same⟩
      rw [if_neg differs] at same
      exact same ▸ held
    · intro held
      exact ⟨_, held, rfl, if_neg differs⟩
  · simp [put, there, differs]

theorem get_pop_same (dict : Dict Key Value) (key : Key) :
    (dict.pop key).get key = none := by
  rw [get_eq_none_iff]
  simp [pop]

theorem get_pop_other (dict : Dict Key Value) {key other : Key}
    (differs : other ≠ key) : (dict.pop key).get other = dict.get other := by
  apply Option.ext
  intro found
  rw [get_eq_some_iff, get_eq_some_iff]
  simp [pop, differs]

theorem pop_of_absent {dict : Dict Key Value} {key : Key}
    (missing : dict.get key = none) : (dict.pop key).entries = dict.entries := by
  rw [get_eq_none_iff] at missing
  refine List.filter_eq_self.mpr fun entry held => ?_
  rw [decide_eq_true_eq]
  intro same
  exact missing (same ▸ List.mem_map_of_mem held)

theorem tally_put_new {dict : Dict Key Value} {key : Key}
    (missing : dict.get key = none) (value : Value) (test : Value → Bool) :
    (dict.put key value).tally test =
      dict.tally test + if test value then 1 else 0 := by
  rw [get_eq_none_iff] at missing
  simp [tally, put, missing, List.countP_append, List.countP_singleton]

theorem tally_pop {dict : Dict Key Value} {key : Key} {value : Value}
    (found : dict.get key = some value) (test : Value → Bool) :
    dict.tally test =
      (dict.pop key).tally test + if test value then 1 else 0 := by
  obtain ⟨before, after, parts⟩ := List.append_of_mem (mem_of_get found)
  have separate := dict.nodup
  rw [parts, List.map_append, List.map_cons, List.nodup_middle,
    List.nodup_cons, List.mem_append, not_or] at separate
  obtain ⟨⟨notBefore, notAfter⟩, -⟩ := separate
  have keeps (part : List (Key × Value)) (absent : key ∉ part.map Prod.fst) :
      part.filter (fun entry => decide (entry.1 ≠ key)) = part := by
    refine List.filter_eq_self.mpr fun entry held => ?_
    rw [decide_eq_true_eq]
    intro same
    exact absent (same ▸ List.mem_map_of_mem held)
  simp only [tally, pop, parts, List.filter_append, List.countP_append,
    keeps before notBefore]
  rw [List.filter_cons_of_neg (by simp), keeps after notAfter,
    List.countP_cons, Nat.add_assoc]

theorem length_pop_lt {dict : Dict Key Value} {key : Key} {value : Value}
    (found : dict.get key = some value) :
    (dict.pop key).entries.length < dict.entries.length := by
  refine List.length_filter_lt_length_iff_exists.mpr ?_
  exact ⟨_, mem_of_get found, by simp⟩

end Dict
