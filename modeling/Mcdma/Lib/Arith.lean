import Mathlib.Algebra.Order.Group.Nat
import Mathlib.Data.Int.Order.Basic
import Mcdma.Lib.Checked

/-!
# One program, several arithmetics

A program over 64-bit numbers is written once, over the operations it computes
with.  Run with the machine's operations it wraps where the machine does; run
with plain numbers it never wraps; run with checked operations it stops at the
first step that would have wrapped.  Where the checked run does not stop, the
other two arrive at the same result.
-/

/-- The unsigned and signed operations of a program, as steps of a monad. -/
structure Arith (m : Type → Type) where
  add : Nat → Nat → m Nat
  sub : Nat → Nat → m Nat
  mul : Nat → Nat → m Nat
  div : Nat → Nat → m Nat
  toInt : Nat → m Int
  addInt : Int → Int → m Int
  subInt : Int → Int → m Int
  mulInt : Int → Int → m Int
  divInt : Int → Int → m Int

namespace Arith

/-- The first number past the signed ones of 64 bits. -/
def half : Int := (2 ^ 63 : Nat)

/-- A signed number of 64 bits, or nothing. -/
def signed (value : Int) : Option Int :=
  if -half ≤ value ∧ value < half then some value else none

/-- The two's complement reading of a number. -/
def wrapInt (value : Int) : Int :=
  (value + half) % (2 * half) - half

/-- The operations that stop where the machine would wrap. -/
def checked : Arith Option where
  add := Checked.add
  sub := Checked.sub
  mul := Checked.mul
  div := Checked.div
  toInt value := if value < 2 ^ 63 then some value else none
  addInt first second := signed (first + second)
  subInt first second := signed (first - second)
  mulInt first second := signed (first * second)
  divInt first second :=
    if second = 0 then none else signed (Int.tdiv first second)

/-- The operations of a 64-bit machine. -/
def machine : Arith Id where
  add first second := pure ((first + second) % 2 ^ 64)
  sub first second :=
    pure (if second ≤ first then first - second else first + 2 ^ 64 - second)
  mul first second := pure (first * second % 2 ^ 64)
  div first second := pure (first / second)
  toInt value :=
    pure (if value < 2 ^ 63 then (value : Int) else value - 2 * half)
  addInt first second := pure (wrapInt (first + second))
  subInt first second := pure (wrapInt (first - second))
  mulInt first second := pure (wrapInt (first * second))
  divInt first second := pure (wrapInt (Int.tdiv first second))

/-- The operations on plain numbers; a difference stops at zero. -/
def plain : Arith Id where
  add first second := pure (first + second)
  sub first second := pure (first - second)
  mul first second := pure (first * second)
  div first second := pure (first / second)
  toInt value := pure value
  addInt first second := pure (first + second)
  subInt first second := pure (first - second)
  mulInt first second := pure (first * second)
  divInt first second := pure (Int.tdiv first second)

/-! ## Runs that agree -/

/-- Where the checked run gives a value, the other run gives the same. -/
def Agrees {α : Type} (guarded : Option α) (run : Id α) : Prop :=
  ∀ value, guarded = some value → run.run = value

namespace Agrees

variable {α β : Type} {guarded : Option α} {run : Id α}

theorem returns (value : α) : Agrees (some value) (pure value : Id α) := by
  rintro _ ⟨⟩
  rfl

theorem bind {next : α → Option β} {after : α → Id β}
    (first : Agrees guarded run)
    (rest : ∀ value, Agrees (next value) (after value)) :
    Agrees (guarded >>= next) (run >>= after) := by
  intro value got
  obtain ⟨middle, begun, ended⟩ := Option.bind_eq_some_iff.mp got
  have same := first middle begun
  subst same
  exact rest _ value ended

theorem ite {c : Prop} [Decidable c] {guarded₁ guarded₂ : Option α}
    {run₁ run₂ : Id α} (yes : Agrees guarded₁ run₁)
    (no : Agrees guarded₂ run₂) :
    Agrees (if c then guarded₁ else guarded₂) (if c then run₁ else run₂) := by
  split
  · exact yes
  · exact no

end Agrees

/-- Operations that agree with the checked ones. -/
structure Sound (ops : Arith Id) : Prop where
  add : ∀ first second, Agrees (checked.add first second) (ops.add first second)
  sub : ∀ first second, Agrees (checked.sub first second) (ops.sub first second)
  mul : ∀ first second, Agrees (checked.mul first second) (ops.mul first second)
  div : ∀ first second, Agrees (checked.div first second) (ops.div first second)
  toInt : ∀ value, Agrees (checked.toInt value) (ops.toInt value)
  addInt : ∀ first second,
    Agrees (checked.addInt first second) (ops.addInt first second)
  subInt : ∀ first second,
    Agrees (checked.subInt first second) (ops.subInt first second)
  mulInt : ∀ first second,
    Agrees (checked.mulInt first second) (ops.mulInt first second)
  divInt : ∀ first second,
    Agrees (checked.divInt first second) (ops.divInt first second)

theorem Agrees.of_signed {value : Int} {run : Id Int}
    (same : -half ≤ value → value < half → run.run = value) :
    Agrees (signed value) run := by
  intro found got
  unfold signed at got
  split at got
  · rename_i inside
    obtain rfl := Option.some.inj got
    exact same inside.1 inside.2
  · cases got

theorem wrapInt_eq {value : Int} (low : -half ≤ value)
    (high : value < half) : wrapInt value = value := by
  unfold wrapInt
  rw [Int.emod_eq_of_lt (by omega) (by omega)]
  omega

theorem Agrees.of_if {α : Type} {c : Prop} [Decidable c] {value : α}
    {run : Id α} (same : c → run.run = value) :
    Agrees (if c then some value else none) run := by
  intro found got
  split at got
  · obtain rfl := Option.some.inj got
    exact same ‹c›
  · cases got

theorem Agrees.of_div {first second : Nat} {run : Id Nat}
    (same : run.run = first / second) :
    Agrees (checked.div first second) run := by
  intro value got
  by_cases zero : second = 0
  · simp [checked, Checked.div, zero] at got
  · rw [same]
    exact Option.some.inj ((Checked.div_eq zero).symm.trans got)

theorem Agrees.of_divInt {first second : Int} {run : Id Int}
    (same : -half ≤ Int.tdiv first second →
      Int.tdiv first second < half → run.run = Int.tdiv first second) :
    Agrees (checked.divInt first second) run := by
  intro value got
  by_cases zero : second = 0
  · simp [checked, zero] at got
  · exact Agrees.of_signed same value ((if_neg zero).symm.trans got)

/-- The machine's operations agree with the checked ones. -/
theorem sound_machine : Sound machine where
  add _ _ := Agrees.of_if fun fits => Nat.mod_eq_of_lt fits
  sub first second := Agrees.of_if fun covers => by
    exact if_pos covers
  mul _ _ := Agrees.of_if fun fits => Nat.mod_eq_of_lt fits
  div _ _ := Agrees.of_div rfl
  toInt _ := Agrees.of_if fun below => if_pos below
  addInt _ _ := Agrees.of_signed fun low high => wrapInt_eq low high
  subInt _ _ := Agrees.of_signed fun low high => wrapInt_eq low high
  mulInt _ _ := Agrees.of_signed fun low high => wrapInt_eq low high
  divInt _ _ := Agrees.of_divInt fun low high => wrapInt_eq low high

/-- Plain numbers agree with the checked ones. -/
theorem sound_plain : Sound plain where
  add _ _ := Agrees.of_if fun _ => rfl
  sub _ _ := Agrees.of_if fun _ => rfl
  mul _ _ := Agrees.of_if fun _ => rfl
  div _ _ := Agrees.of_div rfl
  toInt _ := Agrees.of_if fun _ => rfl
  addInt _ _ := Agrees.of_signed fun _ _ => rfl
  subInt _ _ := Agrees.of_signed fun _ _ => rfl
  mulInt _ _ := Agrees.of_signed fun _ _ => rfl
  divInt _ _ := Agrees.of_divInt fun _ _ => rfl

/-! ## Runs that do not stop -/

/-- The checked run ends with a value that has the property. -/
def Yields {α : Type} (guarded : Option α) (post : α → Prop) : Prop :=
  ∃ value, guarded = some value ∧ post value

/-- Where the checked run ends, another ends with the same property. -/
theorem Agrees.yields {α : Type} {guarded : Option α} {run : Id α}
    {post : α → Prop} (agrees : Agrees guarded run)
    (yields : Yields guarded post) : post run.run := by
  obtain ⟨value, ended, holds⟩ := yields
  rw [agrees value ended]
  exact holds

namespace Yields

variable {α β : Type} {guarded : Option α} {post : α → Prop}
variable {goal : β → Prop}

theorem returns {value : α} (holds : post value) : Yields (some value) post :=
  ⟨value, rfl, holds⟩

theorem bind {next : α → Option β} (first : Yields guarded post)
    (rest : ∀ value, post value → Yields (next value) goal) :
    Yields (guarded >>= next) goal := by
  obtain ⟨value, rfl, holds⟩ := first
  exact rest value holds

theorem mono {weaker : α → Prop} (yields : Yields guarded post)
    (le : ∀ value, post value → weaker value) : Yields guarded weaker := by
  obtain ⟨value, ended, holds⟩ := yields
  exact ⟨value, ended, le value holds⟩

theorem ite {c : Prop} [Decidable c] {left right : Option α}
    (yes : c → Yields left post) (no : ¬c → Yields right post) :
    Yields (if c then left else right) post := by
  split
  · exact yes ‹c›
  · exact no ‹¬c›

variable {first second : Nat}

theorem add (fits : first + second < 2 ^ 64) :
    Yields (checked.add first second) (· = first + second) :=
  ⟨_, Checked.add_eq fits, rfl⟩

theorem sub (covers : second ≤ first) :
    Yields (checked.sub first second) (· = first - second) :=
  ⟨_, Checked.sub_eq covers, rfl⟩

theorem mul (fits : first * second < 2 ^ 64) :
    Yields (checked.mul first second) (· = first * second) :=
  ⟨_, Checked.mul_eq fits, rfl⟩

theorem div (nonzero : second ≠ 0) :
    Yields (checked.div first second) (· = first / second) :=
  ⟨_, Checked.div_eq nonzero, rfl⟩

theorem toInt (below : first < 2 ^ 63) :
    Yields (checked.toInt first) (· = first) :=
  ⟨_, if_pos below, rfl⟩

theorem of_signed {value : Int} (low : -half ≤ value)
    (high : value < half) : Yields (signed value) (· = value) :=
  ⟨value, if_pos ⟨low, high⟩, rfl⟩

section

variable {first second : Int}

theorem addInt (low : -half ≤ first + second)
    (high : first + second < half) :
    Yields (checked.addInt first second) (· = first + second) :=
  of_signed low high

theorem subInt (low : -half ≤ first - second)
    (high : first - second < half) :
    Yields (checked.subInt first second) (· = first - second) :=
  of_signed low high

theorem mulInt (low : -half ≤ first * second)
    (high : first * second < half) :
    Yields (checked.mulInt first second) (· = first * second) :=
  of_signed low high

theorem divInt (nonzero : second ≠ 0) (low : -half ≤ Int.tdiv first second)
    (high : Int.tdiv first second < half) :
    Yields (checked.divInt first second) (· = Int.tdiv first second) := by
  obtain ⟨value, ended, rfl⟩ := of_signed low high
  exact ⟨_, (if_neg nonzero).trans ended, rfl⟩

end

end Yields

end Arith
