import Mathlib.Algebra.Order.Group.Nat

/-!
# Checked 64-bit arithmetic

A sum, difference, product, quotient or remainder of 64-bit numbers, or nothing
where the machine's result would not be the number itself: an overflow, a
borrow or a division by zero.  A computation that is something never wrapped.
-/

namespace Checked

/-- A sum below `2 ^ 64`. -/
def add (first second : Nat) : Option Nat :=
  if first + second < 2 ^ 64 then some (first + second) else none

/-- A difference that needs no borrow. -/
def sub (first second : Nat) : Option Nat :=
  if second ≤ first then some (first - second) else none

/-- A product below `2 ^ 64`. -/
def mul (first second : Nat) : Option Nat :=
  if first * second < 2 ^ 64 then some (first * second) else none

/-- A quotient by a number that is not zero. -/
def div (first second : Nat) : Option Nat :=
  if second = 0 then none else some (first / second)

/-- A remainder by a number that is not zero. -/
def mod (first second : Nat) : Option Nat :=
  if second = 0 then none else some (first % second)

variable {first second : Nat}

theorem add_eq (fits : first + second < 2 ^ 64) :
    add first second = some (first + second) :=
  if_pos fits

theorem sub_eq (covers : second ≤ first) :
    sub first second = some (first - second) :=
  if_pos covers

theorem mul_eq (fits : first * second < 2 ^ 64) :
    mul first second = some (first * second) :=
  if_pos fits

theorem div_eq (nonzero : second ≠ 0) :
    div first second = some (first / second) :=
  if_neg nonzero

theorem mod_eq (nonzero : second ≠ 0) :
    mod first second = some (first % second) :=
  if_neg nonzero

/-- A computation whose first operation is known. -/
theorem bind_eq {α β : Type} {value : α} {first : Option α}
    {next : α → Option β} {result : Option β} (known : first = some value)
    (rest : next value = result) : (first >>= next) = result := by
  rw [known]
  exact rest

/-- A loop over the first numbers, by what it has computed after each. -/
theorem foldlM_range {State : Type*} (step : State → Nat → Option State)
    (after : Nat → State) (count : Nat)
    (steps : ∀ round < count, step (after round) round = some (after (round + 1))) :
    (List.range count).foldlM step (after 0) = some (after count) := by
  induction count with
  | zero => rfl
  | succ count inductionHypothesis =>
      have before := inductionHypothesis fun round below =>
        steps round (Nat.lt_succ_of_lt below)
      rw [List.range_succ, List.foldlM_append, before]
      simp only [List.foldlM_cons, List.foldlM_nil, Option.bind_eq_bind,
        Option.bind_some, steps count (Nat.lt_succ_self count)]
      rfl

end Checked
