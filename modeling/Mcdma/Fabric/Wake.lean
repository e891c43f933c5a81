import Mcdma.Fabric.Hooks
import Mcdma.Lib.Machine

/-!
# No lost wake-up

`bond_placed` and `bond_signal` of `rpc/libmcdma_fabric.c` as threads that run
them step by step, one access to what they share at a time.  The placement side
skips the lock when it reads that no signal waits.  A signal that becomes due
always leaves some thread that will still look at the queue, so when no call is
in progress no signal is due.
-/

namespace Mcdma
namespace Fabric

open Link

/-- The arguments of one `bond_signal` call. -/
structure Arrival where
  seq : Nat
  need : Nat → Nat
  off : Nat
  value : Nat

/-- Where a thread stands: the step it takes next. -/
inductive Stage where
  /-- In no call. -/
  | idle
  /-- `bond_placed` has stored its count and reads `waiting`. -/
  | glance
  /-- `bond_placed` takes the lock. -/
  | enter
  /-- `bond_signal` has judged its arguments and takes the lock. -/
  | arrive (bad : Bool) (arrival : Arrival)
  /-- `bond_signal` compares with the queue. -/
  | check (bad : Bool) (arrival : Arrival)
  /-- `bond_signal` widens the watermark of a link. -/
  | widen (lane : Nat) (wide : Nat → Nat) (arrival : Arrival)
  /-- `bond_signal` counts the signal it has put into its slot. -/
  | count
  /-- The head of the loop of `bond_drain`. -/
  | drain
  /-- `bond_drain` compares the watermark of a link. -/
  | scan (lane : Nat)
  /-- `bond_drain` stores the word. -/
  | publish
  /-- `bond_drain` empties the slot. -/
  | clear
  /-- `bond_drain` moves on to the next signal. -/
  | advance
  /-- `bond_drain` takes the signal off the count. -/
  | discount
  /-- The call gives the lock back and returns. -/
  | leave

/-- A bond, its lock, the words its threads have published and where each thread
stands. -/
structure Crew where
  bond : Bond
  holder : Option Nat := none
  stores : List Store := []
  pcs : Nat → Stage := fun _ => .idle

namespace Bond

/-- The entry at the head of the queue. -/
def head (bond : Bond) : Signal :=
  bond.pending (bond.rxSignal % bondSignals)

/-- What `bond_signal` finds wrong before it takes the lock. -/
def Misfit (bond : Bond) (off : Nat) : Prop :=
  bond.down = true ∨ off % 8 ≠ 0 ∨ bond.winLength < off ∨
    bond.winLength - off < 8

instance (bond : Bond) (off : Nat) : Decidable (bond.Misfit off) :=
  inferInstanceAs (Decidable (_ ∨ _))

/-- What `bond_signal` finds wrong under the lock. -/
def Misplaced (bond : Bond) (seq : Nat) : Prop :=
  seq < bond.rxSignal ∨ bondSignals ≤ seq - bond.rxSignal ∨
    (bond.pending (seq % bondSignals)).seq ≠ 0

instance (bond : Bond) (seq : Nat) : Decidable (bond.Misplaced seq) :=
  inferInstanceAs (Decidable (_ ∨ _))

/-- Write a signal into its slot. -/
def fill (bond : Bond) (arrival : Arrival) (wide : Nat → Nat) : Bond :=
  { bond with
    pending := Function.update bond.pending (arrival.seq % bondSignals)
      ⟨arrival.seq, wide, arrival.off, arrival.value⟩ }

/-- Empty the slot at the head of the queue. -/
def vacate (bond : Bond) : Bond :=
  { bond with
    pending := Function.update bond.pending (bond.rxSignal % bondSignals)
      { bond.head with seq := 0 } }

end Bond

namespace Crew

/-- Thread `thread` goes on to `pc`. -/
def goto (crew : Crew) (thread : Nat) (pc : Stage) : Crew :=
  { crew with pcs := Function.update crew.pcs thread pc }

/-- Thread `thread` takes the lock if it is free. -/
def lock (crew : Crew) (thread : Nat) (pc : Stage) : Option Crew :=
  if crew.holder = none then
    some ({ crew with holder := some thread }.goto thread pc)
  else none

/-- The next step of a thread that is in a call. -/
def proceed (crew : Crew) (thread : Nat) : Option Crew :=
  let bond := crew.bond
  match crew.pcs thread with
  | .idle => none
  | .glance =>
      some (crew.goto thread (if bond.waiting ≠ 0 then .enter else .idle))
  | .enter => crew.lock thread .drain
  | .arrive bad arrival => crew.lock thread (.check bad arrival)
  | .check bad arrival =>
      if bad = true ∨ bond.Misplaced arrival.seq then
        some ({ crew with bond := { bond with down := true } }.goto thread
          .leave)
      else some (crew.goto thread (.widen 0 (fun _ => 0) arrival))
  | .widen lane wide arrival =>
      if lane < bond.bonded then
        some (crew.goto thread (.widen (lane + 1)
          (Function.update wide lane
            (widen (bond.placed lane) (arrival.need lane))) arrival))
      else
        some ({ crew with bond := bond.fill arrival wide }.goto thread .count)
  | .count =>
      some ({ crew with bond := { bond with waiting := bond.waiting + 1 } }.goto
        thread .drain)
  | .drain =>
      some (crew.goto thread
        (if bond.down = false ∧ bond.head.seq = bond.rxSignal then .scan 0
          else .leave))
  | .scan lane =>
      some (crew.goto thread
        (if lane < bond.bonded then
          if bond.head.need lane ≤ bond.placed lane then .scan (lane + 1)
          else .leave
        else .publish))
  | .publish =>
      some ({ crew with stores := crew.stores ++ [bond.headStore] }.goto thread
        .clear)
  | .clear => some ({ crew with bond := bond.vacate }.goto thread .advance)
  | .advance =>
      some ({ crew with
        bond := { bond with rxSignal := bond.rxSignal + 1 } }.goto thread
          .discount)
  | .discount =>
      some ({ crew with bond := { bond with waiting := bond.waiting - 1 } }.goto
        thread .drain)
  | .leave => some ({ crew with holder := none }.goto thread .idle)

/-- What can happen next: a thread outside any call begins one, a thread goes on
with its call, or the peer goes down for a reason of its own. -/
inductive Act where
  | placed (thread lane count : Nat)
  | signal (thread : Nat) (arrival : Arrival)
  | proceed (thread : Nat)
  | fail

/-- One step of the crew. -/
def step (crew : Crew) : Act → Option Crew
  | .placed thread lane count =>
      match crew.pcs thread with
      | .idle =>
          some ({ crew with bond := crew.bond.place lane count }.goto thread
            .glance)
      | _ => none
  | .signal thread arrival =>
      match crew.pcs thread with
      | .idle =>
          some (crew.goto thread
            (.arrive (crew.bond.Misfit arrival.off) arrival))
      | _ => none
  | .proceed thread => crew.proceed thread
  | .fail => some { crew with bond := { crew.bond with down := true } }

/-- Any number of threads on a bond of `links` links over a window of `size`
bytes. -/
def machine (links size : Nat) : Machine Crew Act where
  start := { bond := { bonded := links, winLength := size } }
  step := step

/-- No call is in progress. -/
def Quiet (crew : Crew) : Prop :=
  ∀ thread, crew.pcs thread = .idle

end Crew

/-! ## The invariant -/

/-- Between `lock` and `unlock`. -/
def Stage.Holds : Stage → Prop
  | .idle | .glance | .enter | .arrive _ _ => False
  | _ => True

/-- The thread will still look at the head of the queue, or read `waiting` to
decide whether to. -/
def Stage.Watches : Stage → Prop
  | .idle | .arrive _ _ | .check _ _ | .widen _ _ _ | .leave => False
  | _ => True

namespace Bond

/-- The queue holds signals of its window in their slots, and `waiting` counts
them up to `owed` not yet counted and `spare` no longer there. -/
structure Tidy (bond : Bond) (owed spare : Nat) : Prop where
  pos : 0 < bond.rxSignal
  window : ∀ slot, (bond.pending slot).seq ≠ 0 →
    (bond.pending slot).seq % bondSignals = slot ∧
      bond.rxSignal ≤ (bond.pending slot).seq ∧
      (bond.pending slot).seq < bond.rxSignal + bondSignals
  count : bond.waiting + owed = bond.occupied.card + spare

/-- What the holder of the lock has made of the queue. -/
def At (bond : Bond) : Stage → Prop
  | .widen _ _ arrival =>
      bond.Tidy 0 0 ∧ bond.rxSignal ≤ arrival.seq ∧
        arrival.seq < bond.rxSignal + bondSignals ∧
        (bond.pending (arrival.seq % bondSignals)).seq = 0
  | .count => bond.Tidy 1 0
  | .scan _ | .publish | .clear =>
      bond.Tidy 0 0 ∧ bond.head.seq = bond.rxSignal
  | .advance => bond.Tidy 0 1 ∧ bond.head.seq = 0
  | .discount => bond.Tidy 0 1
  | _ => bond.Tidy 0 0

end Bond

/-- What holds in every state the threads reach. -/
structure Crew.Inv (crew : Crew) : Prop where
  owner : ∀ thread, (crew.pcs thread).Holds ↔ crew.holder = some thread
  free : crew.holder = none → crew.bond.Tidy 0 0
  held : ∀ thread, crew.holder = some thread →
    crew.bond.At (crew.pcs thread)
  wake : crew.bond.down = false → crew.bond.Due →
    ∃ thread, (crew.pcs thread).Watches

namespace Bond

/-- Bonds whose queues are the same. -/
structure SameQueue (bond other : Bond) : Prop where
  pending : other.pending = bond.pending
  rxSignal : other.rxSignal = bond.rxSignal
  waiting : other.waiting = bond.waiting

theorem SameQueue.tidy {bond other : Bond} (same : bond.SameQueue other)
    {owed spare : Nat} (tidy : bond.Tidy owed spare) :
    other.Tidy owed spare := by
  obtain ⟨pos, window, count⟩ := tidy
  have occupied : other.occupied = bond.occupied := by
    unfold Bond.occupied
    rw [same.pending]
  refine ⟨?_, ?_, ?_⟩
  · rw [same.rxSignal]
    exact pos
  · rw [same.pending, same.rxSignal]
    exact window
  · rw [same.waiting, occupied]
    exact count

theorem SameQueue.at {bond other : Bond} (same : bond.SameQueue other)
    {pc : Stage} (stands : bond.At pc) : other.At pc := by
  have head : other.head = bond.head := by
    unfold Bond.head
    rw [same.pending, same.rxSignal]
  cases pc with
  | widen lane wide arrival =>
      obtain ⟨tidy, low, high, empty⟩ := stands
      refine ⟨same.tidy tidy, ?_, ?_, ?_⟩
      · rw [same.rxSignal]
        exact low
      · rw [same.rxSignal]
        exact high
      · rw [same.pending]
        exact empty
  | scan | publish | clear =>
      refine ⟨same.tidy stands.1, ?_⟩
      rw [head, same.rxSignal]
      exact stands.2
  | advance =>
      refine ⟨same.tidy stands.1, ?_⟩
      rw [head]
      exact stands.2
  | _ => exact same.tidy stands

/-- Without a counted or an uncounted signal no signal is due. -/
theorem Tidy.not_due {bond : Bond} (tidy : bond.Tidy 0 0)
    (none : bond.waiting = 0) : ¬bond.Due := by
  intro due
  have member := due.mem_occupied tidy.pos
  have positive := Finset.card_pos.mpr ⟨_, member⟩
  have count := tidy.count
  omega

/-- A signal in the slot at the head of the queue is the next one. -/
theorem Tidy.head_seq {bond : Bond} {owed spare : Nat}
    (tidy : bond.Tidy owed spare) (filled : bond.head.seq ≠ 0) :
    bond.head.seq = bond.rxSignal := by
  obtain ⟨slot, low, high⟩ := tidy.window _ filled
  unfold Bond.head at filled ⊢
  unfold bondSignals at slot low high ⊢
  omega

theorem Tidy.fill {bond : Bond} (tidy : bond.Tidy 0 0) (arrival : Arrival)
    (wide : Nat → Nat) (low : bond.rxSignal ≤ arrival.seq)
    (high : arrival.seq < bond.rxSignal + bondSignals)
    (empty : (bond.pending (arrival.seq % bondSignals)).seq = 0) :
    (bond.fill arrival wide).Tidy 1 0 := by
  have pos := tidy.pos
  refine ⟨pos, ?_, ?_⟩
  · intro slot filled
    simp only [Bond.fill, Function.update_apply] at filled ⊢
    split at filled
    · next same =>
        rw [if_pos same]
        exact ⟨same.symm, low, high⟩
    · next other =>
        rw [if_neg other]
        exact tidy.window slot filled
  · have absent : arrival.seq % bondSignals ∉ bond.occupied := fun member =>
      (Bond.mem_occupied.mp member).2 empty
    have grown : (bond.fill arrival wide).occupied =
        insert (arrival.seq % bondSignals) bond.occupied := by
      ext slot
      have small := slot_lt arrival.seq
      simp only [Bond.mem_occupied, Finset.mem_insert, Bond.fill,
        Function.update_apply]
      split
      · next same =>
          have positive : arrival.seq ≠ 0 := by omega
          simp [same, positive, small]
      · next other => simp [other]
    rw [grown, Finset.card_insert_of_notMem absent]
    have count := tidy.count
    simp only [Bond.fill]
    omega

theorem Tidy.vacate {bond : Bond} (tidy : bond.Tidy 0 0)
    (filled : bond.head.seq = bond.rxSignal) :
    bond.vacate.Tidy 0 1 ∧ bond.vacate.head.seq = 0 := by
  have pos := tidy.pos
  refine ⟨⟨pos, ?_, ?_⟩, by simp [Bond.vacate, Bond.head]⟩
  · intro slot still
    simp only [Bond.vacate, Function.update_apply] at still ⊢
    split at still
    · exact absurd rfl still
    · next other =>
        rw [if_neg other]
        exact tidy.window slot still
  · have member : bond.rxSignal % bondSignals ∈ bond.occupied := by
      refine Bond.mem_occupied.mpr ⟨slot_lt _, ?_⟩
      unfold Bond.head at filled
      omega
    have shrunk : bond.vacate.occupied =
        bond.occupied.erase (bond.rxSignal % bondSignals) := by
      ext slot
      simp only [Bond.mem_occupied, Finset.mem_erase, Bond.vacate,
        Function.update_apply]
      split <;> simp_all
    have positive := Finset.card_pos.mpr ⟨_, member⟩
    rw [shrunk, Finset.card_erase_of_mem member]
    have count := tidy.count
    simp only [Bond.vacate]
    omega

theorem Tidy.advance {bond : Bond} (tidy : bond.Tidy 0 1)
    (empty : bond.head.seq = 0) :
    { bond with rxSignal := bond.rxSignal + 1 }.Tidy 0 1 := by
  refine ⟨Nat.succ_pos _, ?_, tidy.count⟩
  intro slot filled
  obtain ⟨place, low, high⟩ := tidy.window slot filled
  have later : (bond.pending slot).seq ≠ bond.rxSignal := by
    intro same
    apply filled
    rw [same] at place
    dsimp only
    rw [← place]
    exact empty
  dsimp only at filled ⊢
  omega

end Bond

namespace Crew

/-- What a thread's step leaves of the watch: it goes on watching, or another
thread does. -/
theorem watches_goto {pcs : Nat → Stage} {thread : Nat} {pc : Stage}
    (keeps : (pcs thread).Watches → pc.Watches)
    (watched : ∃ other, (pcs other).Watches) :
    ∃ other, (Function.update pcs thread pc other).Watches := by
  obtain ⟨other, watches⟩ := watched
  by_cases same : other = thread
  · subst same
    refine ⟨other, ?_⟩
    rw [Function.update_self]
    exact keeps watches
  · refine ⟨other, ?_⟩
    rw [Function.update_of_ne same]
    exact watches

theorem watches_self {pcs : Nat → Stage} {thread : Nat} {pc : Stage}
    (watches : pc.Watches) :
    ∃ other, (Function.update pcs thread pc other).Watches := by
  refine ⟨thread, ?_⟩
  rw [Function.update_self]
  exact watches

/-- Who holds the lock, after a thread's step. -/
theorem owner_goto {pcs : Nat → Stage} {holder next : Option Nat} {thread : Nat}
    {pc : Stage} (owner : ∀ other, (pcs other).Holds ↔ holder = some other)
    (self : pc.Holds ↔ next = some thread)
    (others : ∀ other, other ≠ thread →
      (holder = some other ↔ next = some other)) (other : Nat) :
    (Function.update pcs thread pc other).Holds ↔ next = some other := by
  by_cases same : other = thread
  · subst same
    rw [Function.update_self]
    exact self
  · rw [Function.update_of_ne same]
    exact (owner other).trans (others other same)

section

variable {crew : Crew} {thread : Nat} {pc : Stage} {bond : Bond}
variable {stores : List Store}

/-- A step of a thread outside the lock leaves the queue as it is. -/
theorem Inv.aside (inv : crew.Inv) (before : ¬(crew.pcs thread).Holds)
    (after : ¬pc.Holds) (same : crew.bond.SameQueue bond)
    (wake : bond.down = false → bond.Due →
      ∃ other, (Function.update crew.pcs thread pc other).Watches) :
    ({ crew with bond := bond }.goto thread pc).Inv where
  owner := by
    have notMine : crew.holder ≠ some thread := fun mine =>
      before ((inv.owner thread).mpr mine)
    exact owner_goto inv.owner (iff_of_false after notMine) fun _ _ => Iff.rfl
  free := fun none => same.tidy (inv.free none)
  held := by
    intro other holds
    have different : other ≠ thread := by
      rintro rfl
      exact before ((inv.owner other).mpr holds)
    simp only [goto, Function.update_of_ne different]
    exact same.at (inv.held other holds)
  wake := wake

/-- A thread that takes the lock finds the queue tidy. -/
theorem Inv.acquire (inv : crew.Inv) (none : crew.holder = none)
    (holds : pc.Holds) (stands : crew.bond.Tidy 0 0 → crew.bond.At pc)
    (keeps : (crew.pcs thread).Watches → pc.Watches) :
    ({ crew with holder := some thread }.goto thread pc).Inv where
  owner := by
    refine owner_goto inv.owner (iff_of_true holds rfl) ?_
    intro other different
    rw [none]
    simp [goto, Ne.symm different]
  free := fun absurdity => nomatch absurdity
  held := by
    intro other mine
    have same := Option.some.inj mine
    subst same
    simp only [goto, Function.update_self]
    exact stands (inv.free none)
  wake := fun up due => watches_goto keeps (inv.wake up due)

/-- A step of the thread that holds the lock. -/
theorem Inv.within (inv : crew.Inv) (before : (crew.pcs thread).Holds)
    (after : pc.Holds) (stands : crew.bond.At (crew.pcs thread) → bond.At pc)
    (wake : bond.down = false → bond.Due →
      ∃ other, (Function.update crew.pcs thread pc other).Watches) :
    ({ crew with bond := bond, stores := stores }.goto thread pc).Inv where
  owner := by
    have mine := (inv.owner thread).mp before
    exact owner_goto inv.owner (iff_of_true after mine) fun _ _ => Iff.rfl
  free := by
    intro none
    have mine := (inv.owner thread).mp before
    simp only [goto] at none
    rw [none] at mine
    cases mine
  held := by
    intro other holds
    have mine := (inv.owner thread).mp before
    have same : other = thread :=
      Option.some.inj (holds.symm.trans mine)
    subst same
    simp only [goto, Function.update_self]
    exact stands (inv.held other mine)
  wake := wake

/-- A call that gives the lock back leaves the queue tidy. -/
theorem Inv.release (inv : crew.Inv) (before : crew.pcs thread = .leave) :
    ({ crew with holder := none }.goto thread .idle).Inv where
  owner := by
    refine owner_goto inv.owner (iff_of_false (fun holds => holds) (nofun)) ?_
    intro other different
    have mine := (inv.owner thread).mp (before ▸ trivial)
    rw [mine]
    simp [goto, Ne.symm different]
  free := by
    intro _
    have mine := (inv.owner thread).mp (before ▸ trivial)
    have stands := inv.held thread mine
    rw [before] at stands
    exact stands
  held := fun _ absurdity => nomatch absurdity
  wake := by
    intro up due
    refine watches_goto ?_ (inv.wake up due)
    rw [before]
    exact fun watches => watches

end

/-- A placement that reads that no signal waits leaves none due, unless a signal
has been put into its slot and will be looked at. -/
theorem Inv.glance {crew : Crew} (inv : crew.Inv) {thread : Nat}
    (before : crew.pcs thread = .glance) (none : crew.bond.waiting = 0)
    (due : crew.bond.Due) :
    ∃ other, (Function.update crew.pcs thread .idle other).Watches := by
  cases holder : crew.holder with
  | none => exact absurd due ((inv.free holder).not_due none)
  | some other =>
      have different : other ≠ thread := by
        rintro rfl
        have holds := (inv.owner other).mpr holder
        rw [before] at holds
        exact holds
      have stands := inv.held other holder
      have holds := (inv.owner other).mpr holder
      refine ⟨other, ?_⟩
      rw [Function.update_of_ne different]
      cases stood : crew.pcs other with
      | idle => rw [stood] at holds; exact holds.elim
      | arrive bad arrival => rw [stood] at holds; exact holds.elim
      | check bad arrival =>
          rw [stood] at stands
          exact absurd due (stands.not_due none)
      | widen lane wide arrival =>
          rw [stood] at stands
          exact absurd due (stands.1.not_due none)
      | leave =>
          rw [stood] at stands
          exact absurd due (stands.not_due none)
      | _ => trivial

/-- Every step of a thread in a call keeps the invariant. -/
theorem Inv.proceed {crew next : Crew} (inv : crew.Inv) {thread : Nat}
    (taken : crew.proceed thread = some next) : next.Inv := by
  unfold Crew.proceed at taken
  cases stands : crew.pcs thread with
  | idle => simp [stands] at taken
  | glance =>
      simp only [stands, Option.some.injEq] at taken
      subst taken
      have outside : ¬(crew.pcs thread).Holds := by
        rw [stands]
        exact fun holds => holds
      by_cases waits : crew.bond.waiting = 0
      · rw [if_neg (not_not.mpr waits)]
        exact inv.aside outside (fun holds => holds) ⟨rfl, rfl, rfl⟩
          fun _ due => inv.glance stands waits due
      · rw [if_pos waits]
        exact inv.aside outside (fun holds => holds) ⟨rfl, rfl, rfl⟩
          fun _ _ => watches_self trivial
  | enter =>
      simp only [stands, lock] at taken
      split at taken
      · next free =>
          simp only [Option.some.injEq] at taken
          subst taken
          exact inv.acquire free trivial id fun _ => trivial
      · simp at taken
  | arrive bad arrival =>
      simp only [stands, lock] at taken
      split at taken
      · next free =>
          simp only [Option.some.injEq] at taken
          subst taken
          refine inv.acquire free trivial id ?_
          rw [stands]
          exact False.elim
      · simp at taken
  | check bad arrival =>
      have holds : (crew.pcs thread).Holds := stands ▸ trivial
      simp only [stands] at taken
      split at taken
      · simp only [Option.some.injEq] at taken
        subst taken
        refine inv.within holds trivial ?_ fun up => nomatch up
        rw [stands]
        have same : crew.bond.SameQueue { crew.bond with down := true } :=
          ⟨rfl, rfl, rfl⟩
        intro stood
        have tidy : crew.bond.Tidy 0 0 := stood
        exact same.tidy tidy
      · next accepted =>
          simp only [Option.some.injEq] at taken
          subst taken
          refine inv.within holds trivial ?_ fun up due =>
            watches_goto ?_ (inv.wake up due)
          · rw [stands]
            intro tidy
            simp only [Bond.Misplaced, not_or, not_lt, not_le,
              not_not] at accepted
            obtain ⟨-, low, high, empty⟩ := accepted
            exact ⟨tidy, low, by omega, empty⟩
          · rw [stands]
            exact False.elim
  | widen lane wide arrival =>
      have holds : (crew.pcs thread).Holds := stands ▸ trivial
      simp only [stands] at taken
      split at taken
      · simp only [Option.some.injEq] at taken
        subst taken
        refine inv.within holds trivial ?_ fun up due =>
          watches_goto ?_ (inv.wake up due)
        · rw [stands]
          exact id
        · rw [stands]
          exact False.elim
      · simp only [Option.some.injEq] at taken
        subst taken
        refine inv.within holds trivial ?_ fun _ _ => watches_self trivial
        rw [stands]
        rintro ⟨tidy, low, high, empty⟩
        exact tidy.fill arrival wide low high empty
  | count =>
      have holds : (crew.pcs thread).Holds := stands ▸ trivial
      simp only [stands, Option.some.injEq] at taken
      subst taken
      refine inv.within holds trivial ?_ fun _ _ => watches_self trivial
      rw [stands]
      rintro ⟨pos, window, count⟩
      exact ⟨pos, window, count⟩
  | drain =>
      have holds : (crew.pcs thread).Holds := stands ▸ trivial
      simp only [stands, Option.some.injEq] at taken
      subst taken
      split
      · next both =>
          refine inv.within holds trivial ?_ fun _ _ => watches_self trivial
          rw [stands]
          exact fun tidy => ⟨tidy, both.2⟩
      · next neither =>
          refine inv.within holds trivial ?_ fun up due =>
            absurd ⟨up, due.1⟩ neither
          rw [stands]
          exact id
  | scan lane =>
      have holds : (crew.pcs thread).Holds := stands ▸ trivial
      simp only [stands, Option.some.injEq] at taken
      subst taken
      split
      · next inBond =>
          split
          · refine inv.within holds trivial ?_ fun _ _ => watches_self trivial
            rw [stands]
            exact id
          · next behind =>
              refine inv.within holds trivial ?_ fun _ due =>
                absurd (due.2 lane inBond) behind
              rw [stands]
              exact And.left
      · refine inv.within holds trivial ?_ fun _ _ => watches_self trivial
        rw [stands]
        exact id
  | publish =>
      have holds : (crew.pcs thread).Holds := stands ▸ trivial
      simp only [stands, Option.some.injEq] at taken
      subst taken
      refine inv.within holds trivial ?_ fun _ _ => watches_self trivial
      rw [stands]
      exact id
  | clear =>
      have holds : (crew.pcs thread).Holds := stands ▸ trivial
      simp only [stands, Option.some.injEq] at taken
      subst taken
      refine inv.within holds trivial ?_ fun _ _ => watches_self trivial
      rw [stands]
      rintro ⟨tidy, filled⟩
      exact tidy.vacate filled
  | advance =>
      have holds : (crew.pcs thread).Holds := stands ▸ trivial
      simp only [stands, Option.some.injEq] at taken
      subst taken
      refine inv.within holds trivial ?_ fun _ _ => watches_self trivial
      rw [stands]
      rintro ⟨tidy, empty⟩
      exact tidy.advance empty
  | discount =>
      have holds : (crew.pcs thread).Holds := stands ▸ trivial
      simp only [stands, Option.some.injEq] at taken
      subst taken
      refine inv.within holds trivial ?_ fun _ _ => watches_self trivial
      rw [stands]
      rintro ⟨pos, window, count⟩
      refine ⟨pos, window, ?_⟩
      change crew.bond.waiting - 1 + 0 = crew.bond.occupied.card + 0
      omega
  | leave =>
      simp only [stands, Option.some.injEq] at taken
      subst taken
      exact inv.release stands

/-- Every step keeps the invariant. -/
theorem Inv.step {crew next : Crew} (inv : crew.Inv) {act : Act}
    (taken : crew.step act = some next) : next.Inv := by
  cases act with
  | placed thread lane count =>
      simp only [Crew.step] at taken
      split at taken
      · next stands =>
          simp only [Option.some.injEq] at taken
          subst taken
          refine inv.aside ?_ (fun holds => holds) ⟨rfl, rfl, rfl⟩
            fun _ _ => watches_self trivial
          rw [stands]
          exact fun holds => holds
      · simp at taken
  | signal thread arrival =>
      simp only [Crew.step] at taken
      split at taken
      · next stands =>
          simp only [Option.some.injEq] at taken
          subst taken
          refine inv.aside ?_ (fun holds => holds) ⟨rfl, rfl, rfl⟩
            fun up due => watches_goto ?_ (inv.wake up due)
          · rw [stands]
            exact fun holds => holds
          · rw [stands]
            exact False.elim
      · simp at taken
  | proceed thread => exact inv.proceed taken
  | fail =>
      simp only [Crew.step, Option.some.injEq] at taken
      subst taken
      have same : crew.bond.SameQueue { crew.bond with down := true } :=
        ⟨rfl, rfl, rfl⟩
      exact ⟨inv.owner, fun none => same.tidy (inv.free none),
        fun thread mine => same.at (inv.held thread mine), fun up => nomatch up⟩

/-- A bond starts with an empty queue. -/
theorem Inv.start (links size : Nat) : (machine links size).start.Inv where
  owner := by
    intro thread
    exact iff_of_false (fun holds => holds) nofun
  free := by
    intro _
    refine ⟨Nat.one_pos, fun slot filled => absurd rfl filled, ?_⟩
    change 0 + 0 = (Finset.filter (fun _ => (0 : Nat) ≠ 0) _).card + 0
    simp
  held := fun _ mine => nomatch mine
  wake := by
    intro _ due
    exact absurd due.1 Nat.zero_ne_one

/-- The invariant holds along every run. -/
theorem Inv.ofReach {links size : Nat} {crew : Crew}
    (reached : (machine links size).Reach crew) : crew.Inv :=
  reached.invariant Inv (Inv.start links size) fun _ _ _ inv taken =>
    inv.step taken

/-- When no call is in progress and the peer is up, the entry for the next
signal is empty or some link has not placed the writes before it; whether up or
not, `waiting` is the number of entries. -/
theorem no_lost_wakeup {links size : Nat} {crew : Crew}
    (reached : (machine links size).Reach crew) (quiet : crew.Quiet) :
    (crew.bond.down = false → crew.bond.head.seq = 0 ∨
      ∃ lane < crew.bond.bonded,
        crew.bond.placed lane < crew.bond.head.need lane) ∧
      crew.bond.waiting = crew.bond.occupied.card := by
  have inv := Inv.ofReach reached
  have none : crew.holder = none := by
    cases holder : crew.holder with
    | none => rfl
    | some thread =>
        have holds := (inv.owner thread).mpr holder
        rw [quiet thread] at holds
        exact holds.elim
  have tidy := inv.free none
  refine ⟨?_, by simpa using tidy.count⟩
  intro up
  by_contra uncovered
  simp only [not_or, not_exists, not_and, not_lt] at uncovered
  obtain ⟨filled, covered⟩ := uncovered
  obtain ⟨thread, watches⟩ :=
    inv.wake up ⟨tidy.head_seq filled, covered⟩
  rw [quiet thread] at watches
  exact watches

/-- A signal that waits for the first write of its only link. -/
def waitsForOne : Arrival := ⟨1, fun _ => 1, 0, 7⟩

/-- One thread hands in that signal. -/
def signalled : List Act :=
  .signal 0 waitsForOne :: List.replicate 8 (.proceed 0)

theorem signalled_runs :
    ((machine 1 64).run (machine 1 64).start signalled).isSome = true := by
  decide +kernel

theorem signalled_quiet :
    (((machine 1 64).run (machine 1 64).start signalled).get
      signalled_runs).Quiet := by
  intro thread
  cases thread with
  | zero => rfl
  | succ other => rfl

theorem no_lost_wakeup_signalled :
    (((machine 1 64).run (machine 1 64).start signalled).get
      signalled_runs).bond.waiting =
    (((machine 1 64).run (machine 1 64).start signalled).get
      signalled_runs).bond.occupied.card :=
  (no_lost_wakeup (Machine.Reach.get signalled_runs) signalled_quiet).2

/-- The thread then hands in a signal of the same number, which takes the peer
down, and places the write the first one waits for. -/
def refusedThenPlaced : List Act :=
  signalled ++ .signal 0 waitsForOne :: List.replicate 3 (.proceed 0) ++
    .placed 0 0 1 :: List.replicate 4 (.proceed 0)

theorem refusedThenPlaced_runs :
    ((machine 1 64).run (machine 1 64).start
      refusedThenPlaced).isSome = true := by
  decide +kernel

/-- A peer that is down publishes nothing more: its covered entry stays. -/
theorem down_leaves_covered_entry :
    ∃ crew, (machine 1 64).Reach crew ∧ crew.Quiet ∧
      ¬(crew.bond.head.seq = 0 ∨ ∃ lane < crew.bond.bonded,
        crew.bond.placed lane < crew.bond.head.need lane) := by
  refine ⟨_, Machine.Reach.get refusedThenPlaced_runs, ?_, by decide +kernel⟩
  intro thread
  cases thread with
  | zero => rfl
  | succ other => rfl

end Crew

end Fabric
end Mcdma
