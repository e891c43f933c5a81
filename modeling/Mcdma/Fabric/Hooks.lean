import Mcdma.Link.TakeSpec
import Mathlib.Data.Finset.Card

/-!
# Receive hooks of a bond

The receiver's half of a bonded peer in `rpc/libmcdma_fabric.c`: the reorder
queue of signals, the placement counts of the links, the announced tails and the
hooks through which a link's `take` uses them.  Counts of writes and signals are
unbounded here; only what crosses the wire in 32 bits is cut to them.
-/

namespace Mcdma
namespace Fabric

open Link

/-- `BOND_SIGNALS`: slots of the receiver's reorder queue. -/
def bondSignals : Nat := 4096

/-- `struct bond_signal`: a signal waiting for its writes, `seq` 0 for none. -/
structure Signal where
  seq : Nat := 0
  need : Nat → Nat := fun _ => 0
  off : Nat := 0
  value : Nat := 0

/-- What the links of one bond share at the receiver. -/
structure Bond where
  bonded : Nat
  winLength : Nat
  down : Bool := false
  pending : Nat → Signal := fun _ => {}
  placed : Nat → Nat := fun _ => 0
  rxSignal : Nat := 1
  waiting : Nat := 0
  tails : Nat → Nat → BondTail := fun _ _ => ⟨0, 0, 0⟩
  tailPut : Nat → Nat := fun _ => 0
  tailGot : Nat → Nat := fun _ => 0

/-- `(int32_t)((uint32_t)left - (uint32_t)right)`. -/
def diff32 (left right : Nat) : Int :=
  Int.bmod ((left : Int) - right) (2 ^ 32)

/-- Counts less than 2^31 apart compare as they are. -/
theorem diff32_eq {left right : Nat}
    (above : left < right + 2 ^ 31) (below : right < left + 2 ^ 31) :
    diff32 left right = (left : Int) - right := by
  unfold diff32
  rw [Int.bmod_eq_of_le] <;> omega

/-- Counts less than 2^31 apart. -/
def Close (left right : Nat) : Prop :=
  left < right + 2 ^ 31 ∧ right < left + 2 ^ 31

instance (left right : Nat) : Decidable (Close left right) :=
  inferInstanceAs (Decidable (_ ∧ _))

theorem Close.diff32_nonneg_iff {left right : Nat} (close : Close left right) :
    0 ≤ diff32 left right ↔ right ≤ left := by
  rw [diff32_eq close.1 close.2]
  omega

/-- Only the low 32 bits of a count matter to the comparison. -/
theorem diff32_mod (left right : Nat) :
    diff32 left (right % 2 ^ 32) = diff32 left right := by
  have same : ((left : Int) - (right % 2 ^ 32 : Nat)) % (2 ^ 32 : Nat) =
      ((left : Int) - right) % (2 ^ 32 : Nat) := by
    omega
  rw [diff32, diff32, Int.bmod, Int.bmod, same]

/-- `widen`: a write count's low 32 bits, widened against this end's count of
the same link's placed writes. -/
def widen (near low : Nat) : Nat :=
  let wide := (near : Int) + diff32 low near
  if 0 ≤ wide then wide.toNat else (wide + 2 ^ 64).toNat

/-- Widening is exact for counts less than 2^31 apart. -/
theorem widen_mod {near count : Nat} (close : Close near count) :
    widen near (count % 2 ^ 32) = count := by
  obtain ⟨above, below⟩ := close
  have cut : diff32 (count % 2 ^ 32) near = (count : Int) - near := by
    have same : ((count % 2 ^ 32 : Nat) - (near : Int)) % (2 ^ 32 : Nat) =
        ((count : Int) - near) % (2 ^ 32 : Nat) := by
      omega
    rw [← diff32_eq below above, diff32, diff32, Int.bmod, Int.bmod, same]
  unfold widen
  simp only [cut]
  rw [if_pos (by omega)]
  omega

namespace Bond

/-- The signal at the head of the reorder queue is next and its writes are
placed. -/
def Due (bond : Bond) : Prop :=
  (bond.pending (bond.rxSignal % bondSignals)).seq = bond.rxSignal ∧
    ∀ lane < bond.bonded,
      (bond.pending (bond.rxSignal % bondSignals)).need lane ≤ bond.placed lane

instance (bond : Bond) : Decidable bond.Due :=
  inferInstanceAs (Decidable (_ ∧ _))

/-- Clear the slot at the head of the queue and count its signal. -/
def publish (bond : Bond) : Bond :=
  { bond with
    pending := Function.update bond.pending (bond.rxSignal % bondSignals)
      { bond.pending (bond.rxSignal % bondSignals) with seq := 0 }
    rxSignal := bond.rxSignal + 1
    waiting := bond.waiting - 1 }

/-- The word the signal at the head of the queue stores. -/
def headStore (bond : Bond) : Store :=
  let signal := bond.pending (bond.rxSignal % bondSignals)
  ⟨.published signal.seq, ⟨signal.off, word signal.value⟩⟩

/-- The loop of `bond_drain`; each round empties a slot, so `bondSignals` rounds
are enough. -/
def drainLoop : Nat → Bond → Bond × List Store
  | 0, bond => (bond, [])
  | fuel + 1, bond =>
      if bond.down = false ∧ bond.Due then
        let rest := drainLoop fuel bond.publish
        (rest.1, bond.headStore :: rest.2)
      else (bond, [])

/-- `bond_drain`. -/
def drain (bond : Bond) : Bond × List Store :=
  drainLoop bondSignals bond

/-- Record a link's placement count. -/
def place (bond : Bond) (lane count : Nat) : Bond :=
  { bond with placed := Function.update bond.placed lane count }

/-- `bond_placed`. -/
def bondPlaced (lane : Nat) (bond : Bond) (count : Nat) : Bond × List Store :=
  let bond := bond.place lane count
  if bond.waiting ≠ 0 then bond.drain else (bond, [])

/-- What makes `bond_signal` refuse a signal. -/
def Refuses (bond : Bond) (seq off : Nat) : Prop :=
  bond.down = true ∨ off % 8 ≠ 0 ∨ bond.winLength < off ∨
    bond.winLength - off < 8 ∨ seq < bond.rxSignal ∨
    bondSignals ≤ seq - bond.rxSignal ∨
    (bond.pending (seq % bondSignals)).seq ≠ 0

instance (bond : Bond) (seq off : Nat) : Decidable (bond.Refuses seq off) :=
  inferInstanceAs (Decidable (_ ∨ _))

/-- Put a signal into its slot of the reorder queue. -/
def enqueue (bond : Bond) (seq : Nat) (need : Nat → Nat)
    (off value : Nat) : Bond :=
  { bond with
    pending := Function.update bond.pending (seq % bondSignals)
      { seq := seq
        need := fun lane =>
          if lane < bond.bonded then widen (bond.placed lane) (need lane)
          else 0
        off := off
        value := value }
    waiting := bond.waiting + 1 }

/-- `bond_signal`: whether the signal was queued, and what was published. -/
def bondSignal (bond : Bond) (seq : Nat) (need : Nat → Nat)
    (off value : Nat) : (Bond × List Store) × Bool :=
  if bond.Refuses seq off then (({ bond with down := true }, []), false)
  else ((bond.enqueue seq need off value).drain, true)

/-- A write's own signal must fall in the queue's window. -/
def OutOfWindow (bond : Bond) (seq : Nat) : Prop :=
  bond.down = true ∨ seq < bond.rxSignal ∨ bondSignals ≤ seq - bond.rxSignal

instance (bond : Bond) (seq : Nat) : Decidable (bond.OutOfWindow seq) :=
  inferInstanceAs (Decidable (_ ∨ _))

/-- `bond_ready`. -/
def bondReady (lane : Nat) (bond : Bond) (seq flags wait : Nat) : Ready :=
  if bond.OutOfWindow seq then .never
  else if flags &&& bondWaitSignals ≠ 0 ∧ seq ≠ bond.rxSignal then .notYet
  else if flags &&& bondWaitLink ≠ 0 ∧
      diff32 (bond.placed (if lane = 0 then 1 else 0)) wait < 0 then .notYet
  else .now

/-- The test of `bond_ready_n` on one link. -/
def ReadyOn (bond : Bond) (wait : Nat → Nat) (lane : Nat) : Prop :=
  0 ≤ diff32 (bond.placed lane) (wait lane)

instance (bond : Bond) (wait : Nat → Nat) (lane : Nat) :
    Decidable (bond.ReadyOn wait lane) :=
  inferInstanceAs (Decidable (_ ≤ _))

/-- `bond_ready_n`. -/
def bondReadyN (bond : Bond) (seq flags : Nat) (wait : Nat → Nat) : Ready :=
  if bond.OutOfWindow seq then .never
  else if flags &&& bondWaitSignals ≠ 0 ∧ seq ≠ bond.rxSignal then .notYet
  else if ∃ lane < bond.bonded, ¬bond.ReadyOn wait lane then .notYet
  else .now

theorem bondReadyN_eq_now_iff (bond : Bond) (seq flags : Nat)
    (wait : Nat → Nat) :
    bond.bondReadyN seq flags wait = .now ↔ ¬bond.OutOfWindow seq ∧
      (flags &&& bondWaitSignals ≠ 0 → seq = bond.rxSignal) ∧
      ∀ lane < bond.bonded, bond.ReadyOn wait lane := by
  unfold bondReadyN
  split_ifs with window turn behind
  · simp [window]
  · simp only [false_iff, not_and]
    exact fun _ waits => absurd (waits turn.1) turn.2
  · obtain ⟨lane, inBond, less⟩ := behind
    simp only [false_iff, not_and]
    exact fun _ _ met => absurd (met lane inBond) less
  · push Not at turn behind
    exact ⟨fun _ => ⟨window, turn, behind⟩, fun _ => rfl⟩

theorem bondReady_eq_now_iff (lane : Nat) (bond : Bond)
    (seq flags wait : Nat) :
    bond.bondReady lane seq flags wait = .now ↔ ¬bond.OutOfWindow seq ∧
      (flags &&& bondWaitSignals ≠ 0 → seq = bond.rxSignal) ∧
      (flags &&& bondWaitLink ≠ 0 →
        0 ≤ diff32 (bond.placed (if lane = 0 then 1 else 0)) wait) := by
  unfold bondReady
  by_cases window : bond.OutOfWindow seq
  · simp [window]
  · rw [if_neg window]
    by_cases turn : flags &&& bondWaitSignals ≠ 0 ∧ seq ≠ bond.rxSignal
    · rw [if_pos turn]
      simp only [reduceCtorEq, false_iff, not_and]
      exact fun _ waits => absurd (waits turn.1) turn.2
    · rw [if_neg turn]
      push Not at turn
      by_cases behind : flags &&& bondWaitLink ≠ 0 ∧
          diff32 (bond.placed (if lane = 0 then 1 else 0)) wait < 0
      · rw [if_pos behind]
        simp only [reduceCtorEq, false_iff, not_and]
        exact fun _ _ met => absurd (met behind.1) (by omega)
      · rw [if_neg behind]
        push Not at behind
        exact ⟨fun _ => ⟨window, turn, behind⟩, fun _ => rfl⟩

/-- `bond_announce`: whether there was room for the tail. -/
def bondAnnounce (lane : Nat) (bond : Bond) (tail : BondTail) : Bond × Bool :=
  let other := if lane = 0 then 1 else 0
  let put := bond.tailPut other
  if bondSignals ≤ put - bond.tailGot other then (bond, false)
  else
    ({ bond with
      tails := Function.update bond.tails other
        (Function.update (bond.tails other) (put % bondSignals) tail)
      tailPut := Function.update bond.tailPut other (put + 1) }, true)

/-- `bond_tail`. -/
def bondTail (lane : Nat) (bond : Bond) : Option (BondTail × Bond) :=
  let got := bond.tailGot lane
  if got = bond.tailPut lane then none
  else
    some (bond.tails lane (got % bondSignals),
      { bond with tailGot := Function.update bond.tailGot lane (got + 1) })

end Bond

/-- The hooks of link `lane` of a bond of `links`. -/
def bondHooks (links lane : Nat) : Hooks Bond where
  lane := lane
  links := links
  placed := Bond.bondPlaced lane
  signal := Bond.bondSignal
  ready := Bond.bondReady lane
  announce := Bond.bondAnnounce lane
  tail := Bond.bondTail lane
  readyN := Bond.bondReadyN

namespace Bond

/-! ## Draining -/

@[simp] theorem publish_placed (bond : Bond) :
    bond.publish.placed = bond.placed := rfl

@[simp] theorem publish_bonded (bond : Bond) :
    bond.publish.bonded = bond.bonded := rfl

@[simp] theorem publish_down (bond : Bond) :
    bond.publish.down = bond.down := rfl

@[simp] theorem publish_rxSignal (bond : Bond) :
    bond.publish.rxSignal = bond.rxSignal + 1 := rfl

/-- The slots of the reorder queue that hold a signal. -/
def occupied (bond : Bond) : Finset Nat :=
  (Finset.range bondSignals).filter fun slot => (bond.pending slot).seq ≠ 0

theorem mem_occupied {bond : Bond} {slot : Nat} :
    slot ∈ bond.occupied ↔
      slot < bondSignals ∧ (bond.pending slot).seq ≠ 0 := by
  simp [occupied]

theorem slot_lt (seq : Nat) : seq % bondSignals < bondSignals :=
  Nat.mod_lt _ (by decide)

theorem occupied_publish (bond : Bond) :
    bond.publish.occupied =
      bond.occupied.erase (bond.rxSignal % bondSignals) := by
  ext slot
  simp only [mem_occupied, Finset.mem_erase, publish, Function.update_apply]
  split <;> simp_all

theorem occupied_enqueue (bond : Bond) {seq : Nat} (need : Nat → Nat)
    (off value : Nat) (pos : seq ≠ 0) :
    (bond.enqueue seq need off value).occupied =
      insert (seq % bondSignals) bond.occupied := by
  ext slot
  have small := slot_lt seq
  simp only [mem_occupied, Finset.mem_insert, enqueue, Function.update_apply]
  split
  · next same => simp [same, pos, small]
  · next other => simp [other]

/-- A due signal occupies the slot at the head of the queue. -/
theorem Due.mem_occupied {bond : Bond} (due : bond.Due)
    (pos : 0 < bond.rxSignal) :
    bond.rxSignal % bondSignals ∈ bond.occupied := by
  refine Bond.mem_occupied.mpr ⟨slot_lt _, ?_⟩
  rw [due.1]
  omega

/-- The queue's counter counts its occupied slots. -/
def Counted (bond : Bond) : Prop :=
  0 < bond.rxSignal ∧ bond.waiting = bond.occupied.card

theorem Counted.publish {bond : Bond} (counted : bond.Counted)
    (due : bond.Due) : bond.publish.Counted := by
  refine ⟨Nat.succ_pos _, ?_⟩
  rw [occupied_publish, Finset.card_erase_of_mem (due.mem_occupied counted.1),
    ← counted.2]
  rfl

theorem Counted.enqueue {bond : Bond} (counted : bond.Counted) {seq : Nat}
    (need : Nat → Nat) (off value : Nat) (pos : seq ≠ 0)
    (free : (bond.pending (seq % bondSignals)).seq = 0) :
    (bond.enqueue seq need off value).Counted := by
  have absent : seq % bondSignals ∉ bond.occupied := fun member =>
    (Bond.mem_occupied.mp member).2 free
  refine ⟨counted.1, ?_⟩
  rw [occupied_enqueue bond need off value pos,
    Finset.card_insert_of_notMem absent, ← counted.2]
  rfl

/-- Enough rounds leave no due signal behind. -/
theorem not_due_drainLoop (fuel : Nat) (bond : Bond) (pos : 0 < bond.rxSignal)
    (up : bond.down = false) (enough : bond.occupied.card ≤ fuel) :
    ¬(drainLoop fuel bond).1.Due := by
  induction fuel generalizing bond with
  | zero =>
      intro due
      have empty := Finset.card_eq_zero.mp (Nat.le_zero.mp enough)
      have member := Due.mem_occupied due pos
      rw [drainLoop, empty] at member
      simp at member
  | succ fuel inductionHypothesis =>
      rw [drainLoop]
      by_cases due : bond.Due
      · rw [if_pos ⟨up, due⟩]
        refine inductionHypothesis bond.publish (Nat.succ_pos _) up ?_
        have member := due.mem_occupied pos
        rw [occupied_publish, Finset.card_erase_of_mem member]
        omega
      · rw [if_neg (fun both => due both.2)]
        exact due

theorem not_due_drain {bond : Bond} (pos : 0 < bond.rxSignal)
    (up : bond.down = false) : ¬bond.drain.1.Due := by
  refine not_due_drainLoop _ bond pos up ?_
  refine (Finset.card_filter_le _ _).trans ?_
  rw [Finset.card_range]

/-- What one round keeps, the whole loop keeps. -/
theorem drainLoop_induction {motive : Bond → List Store → Prop}
    (publishes : ∀ bond stores, bond.down = false → bond.Due →
      motive bond stores →
      motive bond.publish (stores ++ [bond.headStore]))
    (fuel : Nat) (bond : Bond) (stores : List Store)
    (holds : motive bond stores) :
    motive (drainLoop fuel bond).1 (stores ++ (drainLoop fuel bond).2) := by
  induction fuel generalizing bond stores with
  | zero => simpa [drainLoop] using holds
  | succ fuel inductionHypothesis =>
      rw [drainLoop]
      split
      · next both =>
          have step := inductionHypothesis bond.publish
            (stores ++ [bond.headStore])
            (publishes bond stores both.1 both.2 holds)
          simpa using step
      · simpa using holds

end Bond

end Fabric
end Mcdma
