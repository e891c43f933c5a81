import Mcdma.Lib.Machine
import Mathlib.Data.Finset.Card
import Mathlib.Order.Interval.Finset.Nat

/-!
# Pages lent to the firmware

`Hca::provide` gives the firmware the pages it asks for, out of a pool that is
allocated once, and `Hca::reclaim` takes them back in whatever portions and
order the firmware answers.  Two pools may serve one function, so a reclaim of
one may be answered with pages of the other.

What the firmware answers is arbitrary.  A call whose answers run out is still
waiting for the next one; each prefix of answers shows the state in between.
-/

namespace Mcdma
namespace Hca

/-- `max_pages`: what 64 MiB hold. -/
def maxPages : Nat := 64 * 1024 * 1024 / 4096

/-- The two pools. -/
inductive PoolName where
  | boot
  | initial
  deriving DecidableEq

/-- `Hca::Pool`.  The last two count, for each page, how often it was given and
how often it was accepted back; the source does not keep them. -/
structure Pool where
  memory : Bool := false
  dma : Nat := 0
  count : Nat := 0
  owned : Nat := 0
  function : Nat := 0
  given : Finset Nat := ∅
  gave : Nat → Nat := fun _ => 0
  took : Nat → Nat := fun _ => 0

namespace Pool

variable (p : Pool)

/-- `mark_given` for a batch of pages, with the count of those owned. -/
def give (offset batch : Nat) : Pool :=
  { p with
    given := p.given ∪ Finset.Ico offset (offset + batch)
    owned := (p.owned + batch) % 2 ^ 32
    gave := fun page =>
      p.gave page + if page ∈ Finset.Ico offset (offset + batch) then 1 else 0 }

/-- Whether an address is that of a page of the pool. -/
def Covers (dma : Nat) : Prop :=
  p.dma ≤ dma ∧ dma - p.dma < p.count * 4096 ∧ dma % 4096 = 0

instance (dma : Nat) : Decidable (p.Covers dma) :=
  inferInstanceAs (Decidable (_ ∧ _))

/-- The page at an address. -/
def pageAt (dma : Nat) : Nat := (dma - p.dma) / 4096 % 2 ^ 32

/-- `take_given`, with the count of those owned. -/
def take (page : Nat) : Option Pool :=
  if page ≥ p.count ∨ page ∉ p.given then none
  else some
    { p with
      given := p.given.erase page
      owned := (p.owned + (2 ^ 32 - 1)) % 2 ^ 32
      took := fun other => p.took other + if other = page then 1 else 0 }

end Pool

/-- How a command is answered: refused, without a certain answer, or done. -/
inductive Answer (Output : Type) where
  | refused
  | lost
  | done (output : Output)

/-- How the allocation of a pool ends; a failed one may leave the memory when
it cannot be unmapped. -/
inductive Allocated where
  | mapped (dma : Nat)
  | failed (kept : Bool)

/-- The pools and whether the transport is quarantined. -/
structure Pools where
  pool : PoolName → Pool
  quarantined : Bool

namespace Pools

/-- Nothing is allocated yet. -/
def init : Pools := ⟨fun _ => {}, false⟩

variable (h : Pools)

def quarantine : Pools := { h with quarantined := true }

def setPool (w : PoolName) (p : Pool) : Pools :=
  { h with pool := Function.update h.pool w p }

@[simp] theorem pool_quarantine : h.quarantine.pool = h.pool := rfl

@[simp] theorem pool_setPool (w : PoolName) (p : Pool) :
    (h.setPool w p).pool = Function.update h.pool w p := rfl

@[simp] theorem quarantined_quarantine : h.quarantine.quarantined = true := rfl

@[simp] theorem quarantined_setPool (w : PoolName) (p : Pool) :
    (h.setPool w p).quarantined = h.quarantined := rfl

/-- `Hca::call`: a quarantined transport sends nothing, and one that loses a
command is quarantined. -/
def call {Output : Type} (answer : Answer Output) : Option Output × Pools :=
  if h.quarantined then (none, h)
  else
    match answer with
    | .refused => (none, h)
    | .lost => (none, h.quarantine)
    | .done output => (some output, h)

/-- The batches of `Hca::provide` from a page on; nothing while the next answer
is awaited. -/
def giveLoop (w : PoolName) :
    List (Answer Unit) → Nat → Pools → Option Bool × Pools
  | [], offset, h =>
      if offset < (h.pool w).count then (none, h) else (some true, h)
  | answer :: rest, offset, h =>
      if offset < (h.pool w).count then
        let batch := min ((h.pool w).count - offset) 256
        match h.call answer with
        | (none, h) => (some false, h)
        | (some _, h) =>
            giveLoop w rest (offset + batch)
              (h.setPool w ((h.pool w).give offset batch))
      else (some true, h)

/-- `Hca::provide`: the answer to the query is a signed number of pages and a
word with the function. -/
def provide (w : PoolName) (query : Answer (Int × Nat))
    (allocated : Allocated) (answers : List (Answer Unit)) :
    Option Bool × Pools :=
  match h.call query with
  | (none, h) => (some false, h)
  | (some (count, function), h) =>
      let p := h.pool w
      if count < 0 ∨ count > maxPages ∨ p.memory = true then (some false, h)
      else
        let p := { p with count := count.toNat, function := function % 2 ^ 16 }
        if p.count = 0 then (some true, h.setPool w p)
        else
          match allocated with
          | .failed kept =>
              (some false, h.setPool w { p with memory := kept, dma := 0 })
          | .mapped dma =>
              giveLoop w answers 0
                (h.setPool w { p with memory := true, dma := dma })

/-- The pool an address belongs to: of the pools of the function, the last that
covers it. -/
def owner (function dma : Nat) : Option PoolName :=
  if (h.pool .initial).function = function ∧ (h.pool .initial).Covers dma then
    some .initial
  else if (h.pool .boot).function = function ∧ (h.pool .boot).Covers dma then
    some .boot
  else none

/-- One returned page: none when it is refused. -/
def takeBack (function dma : Nat) : Option Pools :=
  match h.owner function dma with
  | none => none
  | some w =>
      ((h.pool w).take ((h.pool w).pageAt dma)).map fun p => h.setPool w p

/-- The pages of one answer; one that is refused quarantines. -/
def takeAll (w : PoolName) : List Nat → Pools → Bool × Pools
  | [], h => (true, h)
  | dma :: rest, h =>
      match h.takeBack (h.pool w).function dma with
      | none => (false, h.quarantine)
      | some h => takeAll w rest h

/-- The portion a reclaim asks for. -/
def portion (w : PoolName) : Nat := min (h.pool w).owned 256

/-- `Hca::reclaim`: an answer is the number of pages returned and their
addresses. -/
def reclaim (w : PoolName) :
    List (Answer (Nat × (Nat → Nat))) → Pools → Option Bool × Pools
  | [], h =>
      if (h.pool w).owned ≠ 0 ∧ h.quarantined = false then (none, h)
      else (some (decide ((h.pool w).owned = 0)), h)
  | answer :: rest, h =>
      if (h.pool w).owned ≠ 0 ∧ h.quarantined = false then
        match h.call answer with
        | (none, h) => (some false, h)
        | (some (returned, dma), h) =>
            if returned = 0 ∨ returned > h.portion w then
              (some false, h.quarantine)
            else
              match takeAll w ((List.range returned).map dma) h with
              | (false, h) => (some false, h)
              | (true, h) => reclaim w rest h
      else (some (decide ((h.pool w).owned = 0)), h)

end Pools

end Hca
end Mcdma
