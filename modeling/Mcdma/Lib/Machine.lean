import Mathlib.Data.List.Basic

/-!
# Machines and their runs

A machine has a start state and says what each action does to a state, if the
action is possible there.  Interleavings of several parties are runs of one
machine whose actions name the party.  An invariant of a machine holds at the
start and is kept by every action from a state that a run reaches.
-/

/-- A start state and what each action does where it is possible. -/
structure Machine (State Action : Type*) where
  start : State
  step : State → Action → Option State

namespace Machine

variable {State Action : Type*} (machine : Machine State Action)

/-- The state after a sequence of actions, if each was possible. -/
def run (state : State) (actions : List Action) : Option State :=
  actions.foldlM machine.step state

theorem run_cons {state next : State} {action : Action}
    (taken : machine.step state action = some next) (rest : List Action) :
    machine.run state (action :: rest) = machine.run next rest := by
  rw [run, List.foldlM_cons, taken]
  rfl

/-- The states reached by actions that all meet a condition. -/
inductive Reaches (allowed : State → Action → Prop) : State → Prop
  | start : Reaches allowed machine.start
  | step {state next : State} (reached : Reaches allowed state)
      (action : Action) (meets : allowed state action)
      (taken : machine.step state action = some next) : Reaches allowed next

/-- The states some run reaches. -/
def Reach (state : State) : Prop :=
  machine.Reaches (fun _ _ => True) state

variable {machine} {allowed : State → Action → Prop}
variable {state : State}

/-- What holds at the start and is kept by every step holds in every state
reached. -/
theorem Reaches.invariant (reached : machine.Reaches allowed state)
    (inv : State → Prop) (base : inv machine.start)
    (keeps : ∀ before next action, machine.Reaches allowed before →
      inv before → allowed before action →
      machine.step before action = some next → inv next) :
    inv state := by
  induction reached with
  | start => exact base
  | step reached action meets taken inductionHypothesis =>
      exact keeps _ _ action reached inductionHypothesis meets taken

/-- Actions that meet a condition meet a weaker one. -/
theorem Reaches.mono {weaker : State → Action → Prop}
    (reached : machine.Reaches allowed state)
    (less : ∀ before action, allowed before action → weaker before action) :
    machine.Reaches weaker state :=
  reached.invariant _ .start fun _ _ action _ reaches meets taken =>
    reaches.step action (less _ _ meets) taken

theorem Reach.invariant (reached : machine.Reach state) (inv : State → Prop)
    (base : inv machine.start)
    (keeps : ∀ before next action, inv before →
      machine.step before action = some next → inv next) :
    inv state :=
  Reaches.invariant reached inv base fun before next action _ holds _ taken =>
    keeps before next action holds taken

theorem Reach.next {next : State} (reached : machine.Reach state)
    (action : Action) (taken : machine.step state action = some next) :
    machine.Reach next :=
  Reaches.step reached action trivial taken

theorem Reach.ofRun {next : State} (reached : machine.Reach state)
    (actions : List Action) (ran : machine.run state actions = some next) :
    machine.Reach next := by
  induction actions generalizing state with
  | nil =>
      have same := Option.some.inj ran
      exact same ▸ reached
  | cons action rest inductionHypothesis =>
      obtain ⟨middle, taken, onward⟩ := Option.bind_eq_some_iff.mp ran
      exact inductionHypothesis (reached.next action taken) onward

/-- What relates a reached state to every next one relates it to every later
one. -/
theorem Reach.along {later : State} (reached : machine.Reach state)
    (rel : State → State → Prop) (refl : ∀ before, rel before before)
    (trans : ∀ before middle after, rel before middle → rel middle after →
      rel before after)
    (steps : ∀ before next action, machine.Reach before →
      machine.step before action = some next → rel before next)
    (actions : List Action) (ran : machine.run state actions = some later) :
    rel state later := by
  induction actions generalizing state with
  | nil =>
      have same := Option.some.inj ran
      exact same ▸ refl state
  | cons action rest inductionHypothesis =>
      obtain ⟨middle, taken, onward⟩ := Option.bind_eq_some_iff.mp ran
      exact trans _ _ _ (steps _ _ action reached taken)
        (inductionHypothesis (reached.next action taken) onward)

/-- A rank that no action of a run raises, and that some actions lower while it
is not zero, is lowered by each of them. -/
theorem run_rank (rank : State → Nat) (lowers : Action → Bool)
    {allowed : Action → Prop}
    (steps : ∀ before next action, allowed action →
      machine.step before action = some next →
      rank next ≤ rank before - (lowers action).toNat)
    {actions : List Action} (all : ∀ action ∈ actions, allowed action)
    {later : State} (ran : machine.run state actions = some later) :
    rank later ≤ rank state - actions.countP lowers := by
  induction actions generalizing state with
  | nil =>
      have same := Option.some.inj ran
      rw [same]
      exact Nat.le_refl _
  | cons action rest inductionHypothesis =>
      obtain ⟨middle, taken, onward⟩ := Option.bind_eq_some_iff.mp ran
      have first := steps _ _ action (all action List.mem_cons_self) taken
      have others := inductionHypothesis
        (fun other member => all other (List.mem_cons_of_mem _ member)) onward
      have counted : (action :: rest).countP lowers =
          rest.countP lowers + (lowers action).toNat := by
        rw [List.countP_cons]
        cases lowers action <;> rfl
      omega

/-- The machine that takes only the actions that meet a condition. -/
def guarded (machine : Machine State Action) (allowed : State → Action → Prop)
    [∀ state action, Decidable (allowed state action)] :
    Machine State Action where
  start := machine.start
  step := fun state action =>
    if allowed state action then machine.step state action else none

/-- Its runs are the runs whose actions all meet the condition. -/
theorem Reach.ofGuarded
    [∀ state action, Decidable (allowed state action)]
    (reached : (machine.guarded allowed).Reach state) :
    machine.Reaches allowed state := by
  refine reached.invariant _ .start ?_
  intro before next action reaches taken
  simp only [guarded, Option.ite_none_right_eq_some] at taken
  exact reaches.step action taken.1 taken.2

/-- A run from the start whose last state passes a test. -/
theorem Reach.ofTest {actions : List Action} {test : State → Bool}
    (passes : (machine.run machine.start actions).any test = true) :
    ∃ state, machine.Reach state ∧ test state = true := by
  obtain ⟨state, ran, passed⟩ := (Option.any_eq_true _ _).mp passes
  exact ⟨state, Reach.ofRun Reaches.start actions ran, passed⟩

/-- The state a run of the machine from its start ends in. -/
theorem Reach.get {actions : List Action}
    (runs : (machine.run machine.start actions).isSome = true) :
    machine.Reach ((machine.run machine.start actions).get runs) :=
  Reach.ofRun Reaches.start actions (Option.some_get runs).symm

end Machine
