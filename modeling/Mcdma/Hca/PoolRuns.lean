import Mcdma.Hca.Pool

/-!
# The accounts of the lent pages

Every batch that is given and every page that is accepted back keeps the count
of owned pages that of the marked ones, in both pools.  A reclaim ends because
every round that goes on takes a page from one pool or the other.
-/

namespace Mcdma
namespace Hca

namespace Pool

/-- The books of one pool. -/
structure Sound (p : Pool) : Prop where
  counted : p.owned = p.given.card
  within : ∀ page ∈ p.given, page < p.count
  few : p.count ≤ maxPages
  history : ∀ page,
    p.gave page = p.took page + if page ∈ p.given then 1 else 0
  once : ∀ page, p.gave page ≤ 1
  fresh : p.memory = false → ∀ page, p.gave page = 0

variable {p : Pool}

theorem Sound.card_le (sound : p.Sound) : p.given.card ≤ p.count := by
  have inside : p.given ⊆ Finset.range p.count := fun page member =>
    Finset.mem_range.mpr (sound.within page member)
  simpa using Finset.card_le_card inside

theorem Sound.not_given (sound : p.Sound) {page : Nat}
    (never : p.gave page = 0) : page ∉ p.given := by
  intro member
  have history := sound.history page
  rw [if_pos member] at history
  omega

/-- A batch of pages that were never given. -/
theorem Sound.give (sound : p.Sound) {offset batch : Nat}
    (memory : p.memory = true) (fits : offset + batch ≤ p.count)
    (new : ∀ page, offset ≤ page → p.gave page = 0) :
    (p.give offset batch).Sound := by
  have apart : Disjoint p.given (Finset.Ico offset (offset + batch)) := by
    rw [Finset.disjoint_right]
    intro page member
    exact sound.not_given (new page (Finset.mem_Ico.mp member).1)
  have within : ∀ page ∈ p.given ∪ Finset.Ico offset (offset + batch),
      page < p.count := by
    intro page member
    rcases Finset.mem_union.mp member with old | now
    · exact sound.within page old
    · exact (Finset.mem_Ico.mp now).2.trans_le fits
  have card : (p.given ∪ Finset.Ico offset (offset + batch)).card =
      p.given.card + batch := by
    rw [Finset.card_union_of_disjoint apart, Nat.card_Ico]
    omega
  refine ⟨?_, within, sound.few, ?_, ?_, ?_⟩
  · have most : p.given.card + batch ≤ p.count := by
      have inside : p.given ∪ Finset.Ico offset (offset + batch) ⊆
          Finset.range p.count := fun page member =>
        Finset.mem_range.mpr (within page member)
      have bound := Finset.card_le_card inside
      rwa [card, Finset.card_range] at bound
    have small : p.count < 2 ^ 32 :=
      sound.few.trans_lt (by decide : maxPages < 2 ^ 32)
    change (p.owned + batch) % 2 ^ 32 =
      (p.given ∪ Finset.Ico offset (offset + batch)).card
    rw [card, sound.counted, Nat.mod_eq_of_lt (by omega)]
  · intro page
    have history := sound.history page
    simp only [Pool.give, Finset.mem_union]
    by_cases now : page ∈ Finset.Ico offset (offset + batch)
    · have before := sound.not_given (new page (Finset.mem_Ico.mp now).1)
      simp only [now, before, or_true, if_true, if_false] at history ⊢
      omega
    · simp only [now, or_false, if_false]
      omega
  · intro page
    have once := sound.once page
    simp only [Pool.give]
    split
    · next now =>
        rw [new page (Finset.mem_Ico.mp now).1]
    · omega
  · intro missing
    rw [show (p.give offset batch).memory = p.memory from rfl, memory] at missing
    cases missing

/-- A page accepted back. -/
theorem Sound.take (sound : p.Sound) {page : Nat} {after : Pool}
    (taken : p.take page = some after) :
    after.Sound ∧ page ∈ p.given ∧ after.owned + 1 = p.owned := by
  rw [Pool.take] at taken
  split at taken
  · cases taken
  · next good =>
      have member : page ∈ p.given := by
        by_contra absent
        exact good (Or.inr absent)
      obtain rfl := Option.some.inj taken
      have card := Finset.card_erase_add_one member
      have small : p.given.card < 2 ^ 32 :=
        (sound.card_le.trans sound.few).trans_lt
          (by decide : maxPages < 2 ^ 32)
      have owned : (p.owned + (2 ^ 32 - 1)) % 2 ^ 32 =
          (p.given.erase page).card := by
        rw [sound.counted, ← card]
        omega
      refine ⟨⟨owned, ?_, sound.few, ?_, sound.once, sound.fresh⟩, member, ?_⟩
      · intro other inside
        exact sound.within other (Finset.mem_of_mem_erase inside)
      · intro other
        have history := sound.history other
        simp only [Finset.mem_erase]
        by_cases same : other = page
        · subst same
          simp only [member, if_true, ne_eq, not_true_eq_false, false_and,
            if_false] at history ⊢
          omega
        · simp only [same, if_false, ne_eq, not_false_eq_true, true_and]
          omega
      · dsimp only
        rw [owned, sound.counted, card]

end Pool

namespace Pools

variable {h : Pools} {w : PoolName}

/-- The books of both pools. -/
def Sound (h : Pools) : Prop := ∀ w, (h.pool w).Sound

theorem Sound.setPool (sound : h.Sound) {p : Pool} (is : p.Sound) :
    (h.setPool w p).Sound := by
  intro v
  rw [pool_setPool, Function.update_apply]
  split
  · exact is
  · exact sound v

theorem Sound.quarantine (sound : h.Sound) : h.quarantine.Sound := sound

/-- What a command leaves: the same pools, and the quarantine it began with
unless it was lost. -/
theorem call_cases {Output : Type} (answer : Answer Output) :
    h.call answer = (none, h) ∨ h.call answer = (none, h.quarantine) ∨
      ∃ output, h.call answer = (some output, h) ∧ h.quarantined = false ∧
        answer = .done output := by
  unfold call
  split
  · exact Or.inl rfl
  · next calm =>
      cases answer with
      | refused => exact Or.inl rfl
      | lost => exact Or.inr (Or.inl rfl)
      | done output =>
          exact Or.inr (Or.inr ⟨output, rfl, by simpa using calm, rfl⟩)

theorem giveLoop_sound (answers : List (Answer Unit)) (offset : Nat)
    (sound : h.Sound) (memory : (h.pool w).memory = true)
    (new : ∀ page, offset ≤ page → (h.pool w).gave page = 0) :
    (giveLoop w answers offset h).2.Sound := by
  induction answers generalizing offset h with
  | nil =>
      rw [giveLoop]
      split <;> exact sound
  | cons answer rest inductionHypothesis =>
      rw [giveLoop]
      split
      · next left =>
          rcases h.call_cases answer with same | lost | ⟨_, done, _, _⟩
          · simp only [same]
            exact sound
          · simp only [lost]
            exact sound.quarantine
          · simp only [done]
            have fits : offset + min ((h.pool w).count - offset) 256 ≤
                (h.pool w).count := by omega
            refine inductionHypothesis _
              (sound.setPool ((sound w).give memory fits new)) ?_ ?_
            · rw [pool_setPool, Function.update_self]
              exact memory
            · intro page later
              rw [pool_setPool, Function.update_self]
              simp only [Pool.give]
              rw [new page (by omega), if_neg]
              simp only [Finset.mem_Ico]
              omega
      · exact sound

theorem provide_sound (sound : h.Sound) (query : Answer (Int × Nat))
    (allocated : Allocated) (answers : List (Answer Unit)) :
    (h.provide w query allocated answers).2.Sound := by
  rw [provide]
  rcases h.call_cases query with same | lost | ⟨⟨count, function⟩, done, _, _⟩
  · simp only [same]
    exact sound
  · simp only [lost]
    exact sound.quarantine
  · simp only [done]
    split
    · exact sound
    · next good =>
        have unallocated : (h.pool w).memory = false := by
          by_contra set
          exact good (Or.inr (Or.inr (by simpa using set)))
        have never := (sound w).fresh unallocated
        have empty : (h.pool w).given = ∅ :=
          Finset.eq_empty_of_forall_notMem fun page =>
            (sound w).not_given (never page)
        -- nothing of the pool is out, so its size and place may change
        have anew : ∀ memory dma, Pool.Sound
            { h.pool w with
              count := count.toNat
              function := function % 2 ^ 16
              memory := memory
              dma := dma } := by
          intro memory dma
          refine ⟨(sound w).counted, ?_, ?_, (sound w).history,
            (sound w).once, fun _ => never⟩
          · intro page member
            rw [show _ = (h.pool w).given from rfl, empty] at member
            simp at member
          · dsimp only
            omega
        split
        · exact sound.setPool (anew (h.pool w).memory (h.pool w).dma)
        · cases allocated with
          | failed kept => exact sound.setPool (anew kept 0)
          | mapped dma =>
              refine giveLoop_sound answers 0 (sound.setPool (anew true dma))
                ?_ ?_
              · rw [pool_setPool, Function.update_self]
              · intro page _
                rw [pool_setPool, Function.update_self]
                exact never page

/-! ## Pages returned -/

/-- What the firmware owes. -/
def owed (h : Pools) : Nat := (h.pool .boot).owned + (h.pool .initial).owned

/-- A returned address that is accepted: a page of a pool of the function that
is given. -/
def Due (h : Pools) (function dma : Nat) : Prop :=
  ∃ w, (h.pool w).function = function ∧ (h.pool w).Covers dma ∧
    (h.pool w).pageAt dma ∈ (h.pool w).given

theorem owner_spec {function dma : Nat}
    (found : h.owner function dma = some w) :
    (h.pool w).function = function ∧ (h.pool w).Covers dma := by
  unfold owner at found
  split at found
  · next is =>
      obtain rfl := Option.some.inj found
      exact is
  · split at found
    · next is =>
        obtain rfl := Option.some.inj found
        exact is
    · cases found

/-- The address belongs to a pool that has its page given. -/
def Held (h : Pools) (function dma : Nat) : Prop :=
  ∃ w, h.owner function dma = some w ∧
    (h.pool w).pageAt dma ∈ (h.pool w).given

theorem Held.due {function dma : Nat} (held : h.Held function dma) :
    h.Due function dma := by
  obtain ⟨w, found, member⟩ := held
  obtain ⟨is, covers⟩ := owner_spec found
  exact ⟨w, is, covers, member⟩

/-- The page that an accepted address takes from its pool. -/
theorem takeBack_spec (sound : h.Sound) {function dma : Nat} {after : Pools}
    (taken : h.takeBack function dma = some after) :
    ∃ w p, h.owner function dma = some w ∧
      (h.pool w).take ((h.pool w).pageAt dma) = some p ∧
      after = h.setPool w p ∧ after.Sound ∧
      (h.pool w).pageAt dma ∈ (h.pool w).given ∧
      after.owed + 1 = h.owed := by
  unfold takeBack at taken
  split at taken
  · cases taken
  · next w found =>
      obtain ⟨p, isTaken, rfl⟩ := Option.map_eq_some_iff.mp taken
      obtain ⟨is, member, fewer⟩ := (sound w).take isTaken
      refine ⟨w, p, found, isTaken, rfl, sound.setPool is, member, ?_⟩
      cases w with
      | boot => simp [owed]; omega
      | initial => simp [owed]; omega

/-- Taking a page changes neither place, size nor function of a pool. -/
theorem take_frame {p after : Pool} {page : Nat}
    (taken : p.take page = some after) :
    after.dma = p.dma ∧ after.count = p.count ∧
      after.function = p.function ∧ after.given = p.given.erase page := by
  unfold Pool.take at taken
  split at taken
  · cases taken
  · obtain rfl := Option.some.inj taken
    exact ⟨rfl, rfl, rfl, rfl⟩

section Taken

variable {function dma : Nat} {p : Pool}
  (taken : (h.pool w).take ((h.pool w).pageAt dma) = some p)

include taken

theorem covers_taken (v : PoolName) (other : Nat) :
    ((h.setPool w p).pool v).Covers other ↔ (h.pool v).Covers other := by
  obtain ⟨place, size, _, _⟩ := take_frame taken
  by_cases same : v = w
  · subst same
    simp only [pool_setPool, Function.update_self, Pool.Covers, place, size]
  · rw [pool_setPool, Function.update_of_ne same]

theorem function_taken (v : PoolName) :
    ((h.setPool w p).pool v).function = (h.pool v).function := by
  obtain ⟨_, _, is, _⟩ := take_frame taken
  by_cases same : v = w
  · subst same
    rw [pool_setPool, Function.update_self, is]
  · rw [pool_setPool, Function.update_of_ne same]

theorem pageAt_taken (v : PoolName) (other : Nat) :
    ((h.setPool w p).pool v).pageAt other = (h.pool v).pageAt other := by
  obtain ⟨place, _, _, _⟩ := take_frame taken
  by_cases same : v = w
  · subst same
    simp only [pool_setPool, Function.update_self, Pool.pageAt, place]
  · rw [pool_setPool, Function.update_of_ne same]

theorem given_taken (v : PoolName) {page : Nat}
    (member : page ∈ ((h.setPool w p).pool v).given) :
    page ∈ (h.pool v).given := by
  obtain ⟨_, _, _, left⟩ := take_frame taken
  by_cases same : v = w
  · subst same
    rw [pool_setPool, Function.update_self, left] at member
    exact Finset.mem_of_mem_erase member
  · rwa [pool_setPool, Function.update_of_ne same] at member

theorem owner_taken (other : Nat) :
    (h.setPool w p).owner function other = h.owner function other := by
  simp only [owner, covers_taken taken, function_taken taken]

theorem held_taken {other : Nat}
    (held : (h.setPool w p).Held function other) : h.Held function other := by
  obtain ⟨v, found, member⟩ := held
  rw [owner_taken taken] at found
  rw [pageAt_taken taken] at member
  exact ⟨v, found, given_taken taken v member⟩

/-- A page that was taken is not there to take again. -/
theorem not_held_taken (found : h.owner function dma = some w) :
    ¬(h.setPool w p).Held function dma := by
  rintro ⟨v, again, member⟩
  rw [owner_taken taken, found] at again
  obtain rfl := Option.some.inj again
  obtain ⟨_, _, _, left⟩ := take_frame taken
  rw [pageAt_taken taken, pool_setPool, Function.update_self, left] at member
  exact Finset.notMem_erase _ _ member

end Taken

/-- An answer whose pages are all accepted names different pages that are due,
and takes as many. -/
theorem takeAll_spec (sound : h.Sound) (list : List Nat) {after : Pools}
    (taken : takeAll w list h = (true, after)) :
    after.Sound ∧ after.owed + list.length = h.owed ∧
      after.quarantined = h.quarantined ∧ list.Nodup ∧
      ∀ dma ∈ list, h.Held (h.pool w).function dma := by
  induction list generalizing h with
  | nil =>
      obtain rfl : h = after := (Prod.mk.inj taken).2
      exact ⟨sound, rfl, rfl, List.nodup_nil, by simp⟩
  | cons dma rest inductionHypothesis =>
      rw [takeAll] at taken
      split at taken
      · simp at taken
      · next middle one =>
          obtain ⟨v, p, found, isTaken, rfl, middleSound, member, fewer⟩ :=
            takeBack_spec sound one
          obtain ⟨is, less, calm, nodup, held⟩ :=
            inductionHypothesis middleSound taken
          rw [function_taken isTaken] at held
          refine ⟨is, ?_, by rw [calm, quarantined_setPool], ?_, ?_⟩
          · rw [List.length_cons]
            omega
          · refine List.nodup_cons.mpr ⟨fun again => ?_, nodup⟩
            exact not_held_taken isTaken found (held dma again)
          · intro other inside
            rcases List.mem_cons.mp inside with rfl | later
            · exact ⟨v, found, member⟩
            · exact held_taken isTaken (held other later)

/-- An answer with a page that is refused quarantines, and takes what came
before it. -/
theorem takeAll_false (sound : h.Sound) (list : List Nat) {after : Pools}
    (taken : takeAll w list h = (false, after)) :
    after.Sound ∧ after.quarantined = true := by
  induction list generalizing h with
  | nil => simp [takeAll] at taken
  | cons dma rest inductionHypothesis =>
      rw [takeAll] at taken
      split at taken
      · obtain rfl : h.quarantine = after := (Prod.mk.inj taken).2
        exact ⟨sound.quarantine, rfl⟩
      · next middle one =>
          obtain ⟨_, _, _, _, _, middleSound, _, _⟩ := takeBack_spec sound one
          exact inductionHypothesis middleSound taken

/-- An answer that a reclaim goes on after: some pages, no more than it asked
for, each due and none twice. -/
def Proper (h : Pools) (w : PoolName) (returned : Nat) (dma : Nat → Nat) :
    Prop :=
  returned ≠ 0 ∧ returned ≤ h.portion w ∧
    ((List.range returned).map dma).Nodup ∧
    ∀ i < returned, h.Due (h.pool w).function (dma i)

/-- One round of a reclaim: it ends there, with the reason, or it took pages of
a proper answer and goes on. -/
theorem reclaim_cons (sound : h.Sound) (active : (h.pool w).owned ≠ 0)
    (calm : h.quarantined = false) (answer : Answer (Nat × (Nat → Nat)))
    (rest : List (Answer (Nat × (Nat → Nat)))) :
    (∃ after, reclaim w (answer :: rest) h = (some false, after) ∧
        after.Sound ∧ (after.quarantined = true ∨ answer = .refused)) ∨
      ∃ returned dma after, answer = .done (returned, dma) ∧
        h.Proper w returned dma ∧ after.Sound ∧ after.owed < h.owed ∧
        reclaim w (answer :: rest) h = reclaim w rest after := by
  rw [reclaim, if_pos ⟨active, calm⟩]
  cases answer with
  | refused =>
      left
      refine ⟨h, ?_, sound, Or.inr rfl⟩
      simp [call, calm]
  | lost =>
      left
      refine ⟨h.quarantine, ?_, sound.quarantine, Or.inl rfl⟩
      simp [call, calm]
  | done output =>
      obtain ⟨returned, dma⟩ := output
      have called : h.call (.done (returned, dma)) = (some (returned, dma), h) := by
        simp [call, calm]
      simp only [called]
      split
      · exact Or.inl ⟨h.quarantine, rfl, sound.quarantine, Or.inl rfl⟩
      · next count =>
          cases ends : takeAll w ((List.range returned).map dma) h with
          | mk all after =>
              cases all with
              | false =>
                  obtain ⟨is, set⟩ := takeAll_false sound _ ends
                  exact Or.inl ⟨after, rfl, is, Or.inl set⟩
              | true =>
                  obtain ⟨is, fewer, _, nodup, held⟩ :=
                    takeAll_spec sound _ ends
                  rw [List.length_map, List.length_range] at fewer
                  refine Or.inr ⟨returned, dma, after, rfl, ?_, is, by omega,
                    rfl⟩
                  refine ⟨by omega, by omega, nodup, fun i below => ?_⟩
                  exact (held (dma i) (List.mem_map.mpr
                    ⟨i, List.mem_range.mpr below, rfl⟩)).due

/-- A reclaim that has nothing to do. -/
theorem reclaim_idle (idle : ¬((h.pool w).owned ≠ 0 ∧ h.quarantined = false))
    (answers : List (Answer (Nat × (Nat → Nat)))) :
    reclaim w answers h = (some (decide ((h.pool w).owned = 0)), h) := by
  cases answers with
  | nil => rw [reclaim, if_neg idle]
  | cons answer rest => rw [reclaim, if_neg idle]

theorem reclaim_sound (sound : h.Sound)
    (answers : List (Answer (Nat × (Nat → Nat)))) :
    (reclaim w answers h).2.Sound := by
  induction answers generalizing h with
  | nil =>
      rw [reclaim]
      split <;> exact sound
  | cons answer rest inductionHypothesis =>
      by_cases loop : (h.pool w).owned ≠ 0 ∧ h.quarantined = false
      · rcases reclaim_cons sound loop.1 loop.2 answer rest with
          ⟨after, ends, is, _⟩ | ⟨_, _, after, _, _, is, _, goes⟩
        · rw [ends]
          exact is
        · rw [goes]
          exact inductionHypothesis is
      · rw [reclaim_idle loop]
        exact sound

/-- A reclaim needs no more answers than pages are owed, and one. -/
theorem reclaim_ends (sound : h.Sound)
    (answers : List (Answer (Nat × (Nat → Nat))))
    (enough : h.owed < answers.length) :
    (reclaim w answers h).1.isSome = true := by
  induction answers generalizing h with
  | nil => simp at enough
  | cons answer rest inductionHypothesis =>
      by_cases loop : (h.pool w).owned ≠ 0 ∧ h.quarantined = false
      · rcases reclaim_cons sound loop.1 loop.2 answer rest with
          ⟨after, ends, _, _⟩ | ⟨_, _, after, _, _, is, fewer, goes⟩
        · rw [ends]
          rfl
        · rw [goes]
          refine inductionHypothesis is ?_
          rw [List.length_cons] at enough
          omega
      · rw [reclaim_idle loop]
        rfl

/-- A reclaim succeeds only when nothing of the pool is owned. -/
theorem reclaim_true (sound : h.Sound)
    (answers : List (Answer (Nat × (Nat → Nat))))
    (succeeds : (reclaim w answers h).1 = some true) :
    ((reclaim w answers h).2.pool w).owned = 0 := by
  induction answers generalizing h with
  | nil =>
      rw [reclaim] at succeeds ⊢
      split at succeeds
      · cases succeeds
      · next idle =>
          rw [if_neg idle]
          exact of_decide_eq_true (Option.some.inj succeeds)
  | cons answer rest inductionHypothesis =>
      by_cases loop : (h.pool w).owned ≠ 0 ∧ h.quarantined = false
      · rcases reclaim_cons sound loop.1 loop.2 answer rest with
          ⟨after, ends, _, _⟩ | ⟨_, _, after, _, _, is, _, goes⟩
        · rw [ends] at succeeds
          simp at succeeds
        · rw [goes] at succeeds ⊢
          exact inductionHypothesis is succeeds
      · rw [reclaim_idle loop] at succeeds ⊢
        exact of_decide_eq_true (Option.some.inj succeeds)

/-! ## Whole runs -/

/-- A call on one of the pools and what the firmware answers to it. -/
inductive PoolCall where
  | provide (w : PoolName) (query : Answer (Int × Nat))
      (allocated : Allocated) (answers : List (Answer Unit))
  | reclaim (w : PoolName) (answers : List (Answer (Nat × (Nat → Nat))))

/-- Calls in any order on pools that start empty. -/
def machine : Machine Pools PoolCall where
  start := init
  step := fun h call =>
    match call with
    | .provide w query allocated answers =>
        some (h.provide w query allocated answers).2
    | .reclaim w answers => some (h.reclaim w answers).2

theorem init_sound : init.Sound := fun _ =>
  ⟨rfl, by simp [init], Nat.zero_le _, by simp [init], fun _ => Nat.zero_le _,
    fun _ _ => rfl⟩

theorem reach_sound (reached : machine.Reach h) : h.Sound := by
  refine reached.invariant Sound init_sound ?_
  intro before next call sound taken
  cases call with
  | provide w query allocated answers =>
      obtain rfl := Option.some.inj taken
      exact provide_sound sound query allocated answers
  | reclaim w answers =>
      obtain rfl := Option.some.inj taken
      exact reclaim_sound sound answers

/-- Whatever the firmware answered: in each pool the owned pages are the given
ones; each page was given at most once, was accepted back at most once and only
after it was given, by a reclaim of the pool's own function; an answer to a
running reclaim that is not proper quarantines; a reclaim ends on every sequence
of answers, and it succeeds only with no page of its pool owned. -/
theorem pages_accounted (reached : machine.Reach h) :
    (∀ w, (h.pool w).owned = (h.pool w).given.card) ∧
    (∀ w page, (h.pool w).took page ≤ (h.pool w).gave page ∧
      (h.pool w).gave page ≤ 1 ∧
      (page ∈ (h.pool w).given ↔
        (h.pool w).took page < (h.pool w).gave page)) ∧
    (∀ function dma after, h.takeBack function dma = some after →
      h.Due function dma ∧ after.owed + 1 = h.owed) ∧
    (∀ w returned dma rest, (h.pool w).owned ≠ 0 → h.quarantined = false →
      ¬h.Proper w returned dma →
      (h.reclaim w (.done (returned, dma) :: rest)).1 = some false ∧
        (h.reclaim w (.done (returned, dma) :: rest)).2.quarantined = true) ∧
    (∀ w answers, h.owed < answers.length →
      (h.reclaim w answers).1.isSome = true) ∧
    ∀ w answers, (h.reclaim w answers).1 = some true →
      ((h.reclaim w answers).2.pool w).owned = 0 := by
  have sound := reach_sound reached
  refine ⟨fun w => (sound w).counted, ?_, ?_, ?_, ?_, ?_⟩
  · intro w page
    have history := (sound w).history page
    have once := (sound w).once page
    by_cases member : page ∈ (h.pool w).given
    · simp only [member, if_true, true_iff] at history ⊢
      omega
    · simp only [member, if_false, false_iff] at history ⊢
      omega
  · intro function dma after taken
    obtain ⟨w, _, found, _, _, _, member, fewer⟩ := takeBack_spec sound taken
    exact ⟨Held.due ⟨w, found, member⟩, fewer⟩
  · intro w returned dma rest active calm improper
    rcases reclaim_cons sound active calm (.done (returned, dma)) rest with
      ⟨after, ends, _, reason⟩ | ⟨_, _, _, same, proper, _⟩
    · rw [ends]
      exact ⟨rfl, reason.resolve_right (by simp)⟩
    · obtain ⟨rfl, rfl⟩ := Prod.mk.inj (Answer.done.inj same)
      exact absurd proper improper
  · exact fun w answers enough => reclaim_ends sound answers enough
  · exact fun w answers succeeds => reclaim_true sound answers succeeds

/-- Two pages given to the function 7. -/
def lent : Pools :=
  (init.provide .boot (.done (2, 7)) (.mapped 0x100000) [.done ()]).2

/-- The firmware answers with one of them twice. -/
theorem pages_accounted_twice :
    machine.Reach lent ∧ (lent.pool .boot).owned = 2 ∧
      (lent.pool .boot).given.card = 2 ∧
      (lent.reclaim .boot [.done (2, fun _ => 0x100000)]).1 = some false ∧
      (lent.reclaim .boot [.done (2, fun _ => 0x100000)]).2.quarantined =
        true := by
  have reached : machine.Reach lent :=
    Machine.Reach.next Machine.Reaches.start
      (.provide .boot (.done (2, 7)) (.mapped 0x100000) [.done ()]) rfl
  have owned : (lent.pool .boot).owned = 2 := by decide
  obtain ⟨counted, _, _, quarantines, _, _⟩ := pages_accounted reached
  have twice : ¬lent.Proper .boot 2 fun _ => 0x100000 := fun proper =>
    absurd proper.2.2.1 (by decide)
  obtain ⟨fails, set⟩ := quarantines .boot 2 (fun _ => 0x100000) []
    (by rw [owned]; decide) (by decide) twice
  exact ⟨reached, owned, (counted .boot).symm.trans owned, fails, set⟩

end Pools

end Hca
end Mcdma
