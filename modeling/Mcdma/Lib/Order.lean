import Mathlib.Data.List.Nodup
import Mathlib.Data.List.Perm.Basic
import Mathlib.Data.List.Sublists

/-!
# Order of occurrence in a list

A history is a list, and "`x` happened before `y`" is the statement that the
two-element list `[x, y]` is a sublist of it.  The lemmas say how the relation
grows when a history is extended, and that in a history without repetitions it
is a strict total order.
-/

variable {α : Type*}

/-- `x` occurs in `history` somewhere before an occurrence of `y`. -/
def Before (history : List α) (x y : α) : Prop :=
  [x, y].Sublist history

instance [DecidableEq α] (history : List α) (x y : α) :
    Decidable (Before history x y) :=
  inferInstanceAs (Decidable ([x, y].Sublist history))

namespace Before

variable {history first second : List α} {x y z : α}

theorem mem_left (before : Before history x y) : x ∈ history :=
  before.subset (by simp)

theorem mem_right (before : Before history x y) : y ∈ history :=
  before.subset (by simp)

/-- A longer history keeps the order of a shorter one. -/
theorem of_sublist
    (sublist : first.Sublist second)
    (before : Before first x y) :
    Before second x y :=
  before.trans sublist

end Before

theorem not_before_nil (x y : α) : ¬Before [] x y := by
  simp [Before]

theorem before_cons_iff (head : α) (history : List α) (x y : α) :
    Before (head :: history) x y ↔
      (x = head ∧ y ∈ history) ∨ Before history x y := by
  unfold Before
  constructor
  · intro before
    cases before with
    | cons _ rest => exact Or.inr rest
    | cons_cons _ rest =>
        exact Or.inl ⟨rfl, List.singleton_sublist.mp rest⟩
  · rintro (⟨rfl, member⟩ | before)
    · exact (List.singleton_sublist.mpr member).cons_cons x
    · exact before.cons head

/-- The pairs of a concatenation: inside either part, or across the seam. -/
theorem before_append_iff (first second : List α) (x y : α) :
    Before (first ++ second) x y ↔
      Before first x y ∨ (x ∈ first ∧ y ∈ second) ∨ Before second x y := by
  induction first with
  | nil => simp [not_before_nil]
  | cons head rest inductionHypothesis =>
      rw [List.cons_append, before_cons_iff, before_cons_iff,
        inductionHypothesis]
      simp only [List.mem_append, List.mem_cons]
      tauto

/-- Appending one event puts it after everything that happened so far. -/
theorem before_concat_iff (history : List α) (last x y : α) :
    Before (history ++ [last]) x y ↔
      Before history x y ∨ (x ∈ history ∧ y = last) := by
  rw [before_append_iff]
  constructor
  · rintro (before | across | inside)
    · exact Or.inl before
    · exact Or.inr ⟨across.1, by simpa using across.2⟩
    · exact absurd inside.length_le (by simp)
  · rintro (before | ⟨member, rfl⟩)
    · exact Or.inl before
    · exact Or.inr (Or.inl ⟨member, by simp⟩)

/-- Without repetitions the order cannot go both ways. -/
theorem Before.asymm {history : List α} {x y : α}
    (nodup : history.Nodup) (before : Before history x y) :
    ¬Before history y x := by
  induction history with
  | nil => exact absurd before (not_before_nil x y)
  | cons head rest inductionHypothesis =>
      obtain ⟨absent, restNodup⟩ := List.nodup_cons.mp nodup
      rw [before_cons_iff] at before ⊢
      rintro (⟨rfl, memberX⟩ | after)
      · rcases before with ⟨rfl, memberY⟩ | before
        · exact absent memberY
        · exact absent before.mem_right
      · rcases before with ⟨rfl, memberY⟩ | before
        · exact absent after.mem_right
        · exact inductionHypothesis restNodup before after

/-- Without repetitions the order is transitive. -/
theorem Before.trans {history : List α} {x y z : α}
    (nodup : history.Nodup)
    (first : Before history x y) (second : Before history y z) :
    Before history x z := by
  induction history with
  | nil => exact absurd first (not_before_nil x y)
  | cons head rest inductionHypothesis =>
      obtain ⟨absent, restNodup⟩ := List.nodup_cons.mp nodup
      rw [before_cons_iff] at first second ⊢
      rcases first with ⟨rfl, _⟩ | first
      · rcases second with ⟨_, memberZ⟩ | second
        · exact Or.inl ⟨rfl, memberZ⟩
        · exact Or.inl ⟨rfl, second.mem_right⟩
      · rcases second with ⟨rfl, _⟩ | second
        · exact absurd first.mem_right absent
        · exact Or.inr (inductionHypothesis restNodup first second)

/-- In an extended history without repetitions, what came before an old event
came before it already. -/
theorem Before.of_append_left {first second : List α} {x y : α}
    (nodup : (first ++ second).Nodup) (member : y ∈ first)
    (before : Before (first ++ second) x y) :
    Before first x y := by
  have apart := (List.nodup_append.mp nodup).2.2
  rcases (before_append_iff first second x y).mp before with
    old | across | new
  · exact old
  · exact absurd rfl (apart y member y across.2)
  · exact absurd rfl (apart y member y new.mem_right)

/-- If some event has a property, a first one has it. -/
theorem exists_first {history : List α} {property : α → Prop}
    (nodup : history.Nodup) (some : ∃ x ∈ history, property x) :
    ∃ x ∈ history, property x ∧ ∀ y, Before history y x → ¬property y := by
  classical
  induction history with
  | nil => simp at some
  | cons head rest inductionHypothesis =>
      obtain ⟨absent, restNodup⟩ := List.nodup_cons.mp nodup
      by_cases holds : property head
      · refine ⟨head, by simp, holds, ?_⟩
        intro y before
        exact absurd ((before_cons_iff head rest y head).mp before)
          (by rintro (⟨-, member⟩ | inside)
              · exact absent member
              · exact absent inside.mem_right)
      · obtain ⟨x, member, propertyX⟩ := some
        have inRest : x ∈ rest := by
          rcases List.mem_cons.mp member with rfl | inRest
          · exact absurd propertyX holds
          · exact inRest
        obtain ⟨least, leastMember, leastProperty, leastFirst⟩ :=
          inductionHypothesis restNodup ⟨x, inRest, propertyX⟩
        refine ⟨least, List.mem_cons_of_mem _ leastMember, leastProperty, ?_⟩
        intro y before
        rcases (before_cons_iff head rest y least).mp before with
          ⟨rfl, -⟩ | inside
        · exact holds
        · exact leastFirst y inside

/-- Two rearrangements of each other that agree on the order of every pair are
the same list. -/
theorem eq_of_perm_of_before {first second : List α}
    (nodup : second.Nodup) (perm : first.Perm second)
    (order : ∀ x y, Before first x y → Before second x y) :
    first = second := by
  have pairwise : ∀ history : List α, history.Pairwise (Before history) :=
    fun history => List.pairwise_iff_forall_sublist.mpr fun sublist => sublist
  have firstPairwise : first.Pairwise (Before second) :=
    (pairwise first).imp fun before => order _ _ before
  refine List.Perm.eq_of_pairwise ?_ firstPairwise (pairwise second) perm
  intro x y _ _ before after
  exact absurd after (before.asymm nodup)

theorem before_map_iff {β : Type*} (f : α → β) (history : List α) (x y : β) :
    Before (history.map f) x y ↔
      ∃ a b, Before history a b ∧ f a = x ∧ f b = y := by
  unfold Before
  rw [List.sublist_map_iff]
  constructor
  · rintro ⟨picked, sublist, same⟩
    match picked, same with
    | [a, b], same =>
        simp only [List.map_cons, List.map_nil, List.cons.injEq, and_true] at same
        exact ⟨a, b, sublist, same.1.symm, same.2.symm⟩
  · rintro ⟨a, b, sublist, rfl, rfl⟩
    exact ⟨[a, b], sublist, rfl⟩

/-- What comes before an element stands left of it. -/
theorem Before.mem_of_eq_append {history earlier later : List α} {x y : α}
    (nodup : history.Nodup) (before : Before history x y)
    (split : history = earlier ++ y :: later) : x ∈ earlier := by
  subst split
  rcases (before_append_iff earlier (y :: later) x y).mp before with
    left | across | right
  · exact left.mem_left
  · exact across.1
  · obtain ⟨-, restNodup, apart⟩ := List.nodup_append.mp nodup
    rcases (before_cons_iff y later x y).mp right with here | beyond
    · exact absurd here.2 (List.nodup_cons.mp restNodup).1
    · exact absurd beyond.mem_right (List.nodup_cons.mp restNodup).1

/-- A list with its keys counted up is the start of every such list that has all
its elements. -/
theorem eq_take_of_keys {key : α → Nat} {part whole : List α} {few many : Nat}
    (keys : part.map key = List.range' 1 few)
    (allKeys : whole.map key = List.range' 1 many)
    (subset : ∀ x ∈ part, x ∈ whole) : part = whole.take few := by
  have size : part.length = few := by
    have length := congrArg List.length keys
    simpa using length
  have allSize : whole.length = many := by
    have length := congrArg List.length allKeys
    simpa using length
  have keyAt : ∀ i (small : i < part.length), key part[i] = i + 1 := by
    intro i small
    have entryAt := congrArg (·[i]?) keys
    simp [small, size ▸ small] at entryAt
    omega
  have allKeyAt : ∀ i (small : i < whole.length), key whole[i] = i + 1 := by
    intro i small
    have entryAt := congrArg (·[i]?) allKeys
    simp [small, allSize ▸ small] at entryAt
    omega
  have found : ∀ i (small : i < part.length),
      ∃ inside : i < whole.length, whole[i] = part[i] := by
    intro i small
    obtain ⟨j, inside, same⟩ := List.getElem_of_mem
      (subset _ (List.getElem_mem small))
    have left := keyAt i small
    have right := allKeyAt j inside
    rw [same] at right
    obtain rfl : i = j := by omega
    exact ⟨inside, same⟩
  refine List.ext_getElem ?_ ?_
  · rw [List.length_take, size, allSize]
    rcases Nat.eq_zero_or_pos few with none | some
    · omega
    · obtain ⟨inside, -⟩ := found (few - 1) (by omega)
      omega
  · intro i small _
    rw [List.getElem_take]
    exact (found i small).2.symm
