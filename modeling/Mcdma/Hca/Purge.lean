import Mcdma.Hca.State
import Mathlib.Tactic.IntervalCases

/-!
# What a purge leaves in the ring

`purge_qp_completions` moves the entries it keeps up to the end of the
published ones, each with the owner bit of its new lap.  Read from the new
consumer index with the owner rule of `Hca::poll`, the ring then holds exactly
the old entries without those of the queue pair.
-/

namespace Mcdma
namespace Hca

/-! ## Owner bits -/

/-- An entry without its owner bit. -/
def Cqe.content (cqe : Cqe) : Cqe := fun spot =>
  if spot.val = 63 then cqe.owner &&& (0xfe : UInt8) else cqe spot

/-- The parity of an index's lap. -/
theorem lap_cases (index : UInt32) :
    (index >>> 5) &&& 1 = 0 ∧ index.toNat / 32 % 2 = 0 ∨
      (index >>> 5) &&& 1 = 1 ∧ index.toNat / 32 % 2 = 1 := by
  have value : ((index >>> 5) &&& 1).toNat = index.toNat / 32 % 2 := by
    simp [UInt32.toNat_and, UInt32.toNat_shiftRight, Nat.shiftRight_eq_div_pow,
      Nat.and_one_is_mod]
  rcases Nat.mod_two_eq_zero_or_one (index.toNat / 32) with even | odd
  · left
    refine ⟨UInt32.toNat_inj.mp ?_, even⟩
    rw [value, even]
    rfl
  · right
    refine ⟨UInt32.toNat_inj.mp ?_, odd⟩
    rw [value, odd]
    rfl

/-- What a byte keeps when its lowest bit is set anew. -/
theorem owned_bits (owner bit : UInt8) (one : bit = 0 ∨ bit = 1) :
    (owner &&& 0xfe ||| bit) >>> 4 = owner >>> 4 ∧
      (owner &&& 0xfe ||| bit) &&& 1 = bit ∧
      (owner &&& 0xfe ||| bit) &&& 0xfe = owner &&& 0xfe := by
  rcases one with rfl | rfl
  all_goals
    refine ⟨?_, ?_, ?_⟩
    all_goals
      apply UInt8.toBitVec_inj.mp
      ext place below
      interval_cases place <;> simp

namespace Cqe

variable (cqe : Cqe) (index : UInt32)

theorem owner_owned :
    (cqe.owned index).owner =
      (cqe.owner &&& (0xfe : UInt8)) |||
        UInt32.toUInt8 ((index >>> 5) &&& 1) := rfl

theorem opcode_owned : (cqe.owned index).opcode = cqe.opcode := by
  rw [opcode, opcode, owner_owned]
  rcases lap_cases index with ⟨lap, _⟩ | ⟨lap, _⟩
  · rw [lap]
    exact (owned_bits cqe.owner 0 (Or.inl rfl)).1
  · rw [lap]
    exact (owned_bits cqe.owner 1 (Or.inr rfl)).1

/-- An entry given an index's owner bit is published there. -/
theorem published_owned :
    (cqe.owned index).published index = (cqe.opcode != 15) := by
  rw [published, opcode_owned, owner_owned]
  rcases lap_cases index with ⟨lap, _⟩ | ⟨lap, _⟩
  · rw [lap]
    have bits := (owned_bits cqe.owner 0 (Or.inl rfl)).2.1
    simp only [show UInt32.toUInt8 0 = 0 from rfl, bits]
    simp
  · rw [lap]
    have bits := (owned_bits cqe.owner 1 (Or.inr rfl)).2.1
    simp only [show UInt32.toUInt8 1 = 1 from rfl, bits]
    simp

theorem content_owned : (cqe.owned index).content = cqe.content := by
  funext place
  rw [content, content, owner_owned]
  split
  · rcases lap_cases index with ⟨lap, _⟩ | ⟨lap, _⟩
    · rw [lap]
      exact (owned_bits cqe.owner 0 (Or.inl rfl)).2.2
    · rw [lap]
      exact (owned_bits cqe.owner 1 (Or.inr rfl)).2.2
  · next other => exact if_neg other

/-- An entry of one lap is not one of the next. -/
theorem not_published_next {cqe : Cqe} {index : UInt32}
    (now : cqe.published index = true) :
    cqe.published (index + 32) = false := by
  have later : (index + 32).toNat = (index.toNat + 32) % 2 ^ 32 := by
    rw [UInt32.toNat_add]
    rfl
  have small := index.toNat_lt
  rw [published, Bool.and_eq_true] at now
  rw [published, Bool.and_eq_false_iff]
  right
  have owner := beq_iff_eq.mp now.2
  rcases lap_cases index with ⟨lap, here⟩ | ⟨lap, here⟩
  · rcases lap_cases (index + 32) with ⟨_, there⟩ | ⟨next, there⟩
    · omega
    · rw [owner, lap, next]
      rfl
  · rcases lap_cases (index + 32) with ⟨next, there⟩ | ⟨_, there⟩
    · rw [owner, lap, next]
      rfl
    · omega

theorem opcode_of_published {cqe : Cqe} {index : UInt32}
    (now : cqe.published index = true) : (cqe.opcode != 15) = true :=
  (Bool.and_eq_true_iff.mp now).1

end Cqe

/-! ## The ring from an index on -/

/-- The entry a number of places after an index. -/
def window (ring : Fin 32 → Cqe) (base : UInt32) (offset : Nat) : Cqe :=
  ring (slotOf (base + UInt32.ofNat offset))

theorem slotOf_add (base : UInt32) (offset : Nat) :
    (slotOf (base + UInt32.ofNat offset)).val =
      (base.toNat + offset) % 32 := by
  simp only [slotOf, UInt32.toNat_add, UInt32.toNat_ofNat']
  omega

/-- The slots of 32 places in a row are different ones. -/
theorem slotOf_add_inj {base : UInt32} {first second : Nat}
    (left : first < 32) (right : second < 32)
    (same : slotOf (base + UInt32.ofNat first) =
      slotOf (base + UInt32.ofNat second)) : first = second := by
  have values := congrArg Fin.val same
  rw [slotOf_add, slotOf_add] at values
  omega

/-- A place of the next lap is the slot it was. -/
theorem window_lap (ring : Fin 32 → Cqe) (base : UInt32) (offset : Nat) :
    window ring base (offset + 32) = window ring base offset := by
  have same : slotOf (base + UInt32.ofNat (offset + 32)) =
      slotOf (base + UInt32.ofNat offset) := by
    apply Fin.ext
    rw [slotOf_add, slotOf_add]
    omega
  rw [window, window, same]

theorem window_update_self (ring : Fin 32 → Cqe) (base : UInt32)
    (place : Nat) (entry : Cqe) :
    window (Function.update ring (slotOf (base + UInt32.ofNat place)) entry)
      base place = entry := by
  rw [window, Function.update_self]

theorem window_update_ne (ring : Fin 32 → Cqe) (base : UInt32)
    {place offset : Nat} (entry : Cqe) (left : place < 32)
    (right : offset < 32) (other : offset ≠ place) :
    window (Function.update ring (slotOf (base + UInt32.ofNat place)) entry)
      base offset = window ring base offset := by
  rw [window, Function.update_of_ne]
  · rfl
  · exact fun slots => other (slotOf_add_inj right left slots)

theorem add_ofNat (base : UInt32) (first second : Nat) :
    base + UInt32.ofNat first + UInt32.ofNat second =
      base + UInt32.ofNat (first + second) := by
  rw [UInt32.add_assoc, ← UInt32.ofNat_add]

/-- The entries of a number of places in a row. -/
def span (ring : Fin 32 → Cqe) (base : UInt32) (start count : Nat) :
    List Cqe :=
  (List.range' start count).map (window ring base)

theorem span_succ (ring : Fin 32 → Cqe) (base : UInt32) (start count : Nat) :
    span ring base start (count + 1) =
      span ring base start count ++ [window ring base (start + count)] := by
  rw [span, span, List.range'_1_concat, List.map_append]
  rfl

/-- Reading from an index on with the owner rule of `Hca::poll` gives these
entries and then nothing. -/
def Reads (cq : HardwareCq) : UInt32 → List Cqe → Prop
  | index, [] => (cq.entry index).published index = false
  | index, entry :: rest =>
      (cq.entry index).published index = true ∧ cq.entry index = entry ∧
        Reads cq (index + 1) rest

/-- Published places up to one that is not. -/
theorem reads_span {cq : HardwareCq} {base : UInt32} (start count : Nat)
    (published : ∀ offset, start ≤ offset → offset < start + count →
      (window cq.ring base offset).published (base + UInt32.ofNat offset) =
        true)
    (ends : (window cq.ring base (start + count)).published
      (base + UInt32.ofNat (start + count)) = false) :
    Reads cq (base + UInt32.ofNat start) (span cq.ring base start count) := by
  induction count generalizing start with
  | zero => exact ends
  | succ count inductionHypothesis =>
      rw [span, List.range'_succ, List.map_cons]
      refine ⟨published start (Nat.le_refl _) (by omega), rfl, ?_⟩
      have next : base + UInt32.ofNat start + 1 =
          base + UInt32.ofNat (start + 1) := add_ofNat base start 1
      rw [next]
      refine inductionHypothesis (start + 1) ?_ ?_
      · intro offset low high
        exact published offset (by omega) (by omega)
      · rwa [Nat.add_assoc, Nat.add_comm 1]

/-- The loop that counts the published entries stops at the first that is not,
or after 32. -/
theorem visible_spec {cq : HardwareCq} {base : UInt32} {left start count : Nat}
    (counted : visible cq left (base + UInt32.ofNat start) = some count) :
    count ≤ left ∧
      (∀ offset, start ≤ offset → offset < start + count →
        (window cq.ring base offset).published (base + UInt32.ofNat offset) =
          true) ∧
      (count < left → (window cq.ring base (start + count)).published
        (base + UInt32.ofNat (start + count)) = false) := by
  induction left generalizing start count with
  | zero =>
      obtain rfl : 0 = count := Option.some.inj counted
      refine ⟨Nat.le_refl _, ?_, by simp⟩
      intro offset low high
      omega
  | succ left inductionHypothesis =>
      rw [visible] at counted
      split at counted
      · next unpublished =>
          obtain rfl : 0 = count := Option.some.inj counted
          refine ⟨Nat.zero_le _, ?_, ?_⟩
          · intro offset low high
            omega
          · intro _
            exact Bool.not_eq_true' _ |>.mp unpublished
      · next isPublished =>
          split at counted
          · simp at counted
          · rw [show base + UInt32.ofNat start + 1 =
              base + UInt32.ofNat (start + 1) from add_ofNat base start 1]
              at counted
            obtain ⟨rest, more, rfl⟩ := Option.map_eq_some_iff.mp counted
            obtain ⟨most, published, ends⟩ := inductionHypothesis more
            refine ⟨by omega, ?_, ?_⟩
            · intro offset low high
              rcases Nat.eq_or_lt_of_le low with rfl | later
              · simpa [window, HardwareCq.entry] using isPublished
              · exact published offset later (by omega)
            · intro few
              have stop := ends (by omega)
              rwa [show start + 1 + rest = start + (rest + 1) by omega] at stop

/-! ## Compaction -/

/-- The entries of the queue pair among the first places. -/
def dead (qpn : UInt32) (ring : Fin 32 → Cqe) (base : UInt32) (count : Nat) :
    Nat :=
  (span ring base 0 count).countP fun entry => entry.qpn == qpn

/-- The contents of the other entries among the first places. -/
def alive (qpn : UInt32) (ring : Fin 32 → Cqe) (base : UInt32) (count : Nat) :
    List Cqe :=
  ((span ring base 0 count).filter fun entry => !(entry.qpn == qpn)).map
    Cqe.content

section Compaction

variable {qpn : UInt32} {ring : Fin 32 → Cqe} {base : UInt32}

theorem length_span (start count : Nat) :
    (span ring base start count).length = count := by
  simp [span]

theorem dead_le (count : Nat) : dead qpn ring base count ≤ count := by
  refine List.countP_le_length.trans ?_
  rw [length_span]

theorem dead_succ_eq {count : Nat}
    (gone : (window ring base count).qpn = qpn) :
    dead qpn ring base (count + 1) = dead qpn ring base count + 1 := by
  rw [dead, span_succ, List.countP_append, Nat.zero_add]
  simp [dead, gone]

theorem dead_succ_ne {count : Nat}
    (other : (window ring base count).qpn ≠ qpn) :
    dead qpn ring base (count + 1) = dead qpn ring base count := by
  rw [dead, span_succ, List.countP_append, Nat.zero_add]
  simp [dead, other]

theorem alive_succ_eq {count : Nat}
    (gone : (window ring base count).qpn = qpn) :
    alive qpn ring base (count + 1) = alive qpn ring base count := by
  rw [alive, span_succ, List.filter_append, Nat.zero_add]
  simp [alive, gone]

theorem alive_succ_ne {count : Nat}
    (other : (window ring base count).qpn ≠ qpn) :
    alive qpn ring base (count + 1) =
      alive qpn ring base count ++ [(window ring base count).content] := by
  rw [alive, span_succ, List.filter_append, Nat.zero_add]
  simp [alive, other]

theorem span_congr {first second : Fin 32 → Cqe} {count : Nat}
    (same : ∀ offset < count,
      window first base offset = window second base offset) :
    span first base 0 count = span second base 0 count := by
  refine List.map_congr_left fun offset member => ?_
  exact same offset (by simpa using List.mem_range'_1.mp member)

/-- What the loop over the first `count` places leaves when `gone` entries
behind them were discarded: the places below the kept entries and those behind
the published ones as they were, and the kept entries in between. -/
structure Compacted (qpn : UInt32) (base : UInt32) (ring : Fin 32 → Cqe)
    (count gone : Nat) (after : (Fin 32 → Cqe) × UInt32) : Prop where
  discarded : after.2 = UInt32.ofNat (gone + dead qpn ring base count)
  kept : (span after.1 base (gone + dead qpn ring base count)
      (count - dead qpn ring base count)).map Cqe.content =
    alive qpn ring base count
  others : ∀ offset < 32, offset < gone + dead qpn ring base count ∨
      count + gone ≤ offset →
    window after.1 base offset = window ring base offset
  published : (∀ offset < count, (window ring base offset).published
      (base + UInt32.ofNat offset) = true) →
    ∀ offset, gone + dead qpn ring base count ≤ offset →
      offset < count + gone →
      (window after.1 base offset).published (base + UInt32.ofNat offset) =
        true

/-- A discarded entry only counts. -/
theorem Compacted.discard {count gone : Nat}
    {after : (Fin 32 → Cqe) × UInt32}
    (same : (window ring base count).qpn = qpn)
    (rest : Compacted qpn base ring count (gone + 1) after) :
    Compacted qpn base ring (count + 1) gone after := by
  have shift : gone + dead qpn ring base (count + 1) =
      gone + 1 + dead qpn ring base count := by
    rw [dead_succ_eq same]
    omega
  have left : count + 1 - dead qpn ring base (count + 1) =
      count - dead qpn ring base count := by
    rw [dead_succ_eq same]
    omega
  refine ⟨?_, ?_, ?_, ?_⟩
  · rw [shift, rest.discarded]
  · rw [shift, left, alive_succ_eq same, rest.kept]
  · intro offset below outside
    rw [shift] at outside
    exact rest.others offset below (by omega)
  · intro before offset low high
    rw [shift] at low
    exact rest.published (fun place few => before place (by omega)) offset low
      (by omega)

/-- A kept entry is moved on by as many as were discarded. -/
theorem Compacted.keep {moved : Fin 32 → Cqe} {count gone : Nat}
    {after : (Fin 32 → Cqe) × UInt32} (fits : count + 1 + gone ≤ 32)
    (other : (window ring base count).qpn ≠ qpn)
    (elsewhere : ∀ offset < 32, offset ≠ count + gone →
      window moved base offset = window ring base offset)
    (content : (window moved base (count + gone)).content =
      (window ring base count).content)
    (visible : (window ring base count).published
        (base + UInt32.ofNat count) = true →
      (window moved base (count + gone)).published
        (base + UInt32.ofNat (count + gone)) = true)
    (rest : Compacted qpn base moved count gone after) :
    Compacted qpn base ring (count + 1) gone after := by
  have same : span moved base 0 count = span ring base 0 count :=
    span_congr fun offset below => elsewhere offset (by omega) (by omega)
  have few : dead qpn ring base count ≤ count := dead_le count
  have deadEq : dead qpn moved base count = dead qpn ring base count := by
    rw [dead, same]
    rfl
  have aliveEq : alive qpn moved base count = alive qpn ring base count := by
    rw [alive, same]
    rfl
  obtain ⟨discarded, kept, others, published⟩ := rest
  rw [deadEq] at discarded kept others published
  have here : window after.1 base (count + gone) =
      window moved base (count + gone) :=
    others (count + gone) (by omega) (Or.inr (Nat.le_refl _))
  have last : gone + dead qpn ring base count +
      (count - dead qpn ring base count) = count + gone := by omega
  have left : count + 1 - dead qpn ring base count =
      count - dead qpn ring base count + 1 := by omega
  have deadNext : dead qpn ring base (count + 1) = dead qpn ring base count :=
    dead_succ_ne other
  refine ⟨?_, ?_, ?_, ?_⟩
  · rw [deadNext, discarded]
  · rw [deadNext, left, span_succ, last, List.map_append, kept, aliveEq,
      alive_succ_ne other, List.map_singleton, here, content]
  · intro offset below outside
    rw [deadNext] at outside
    rw [others offset below (by omega), elsewhere offset below (by omega)]
  · intro before offset low high
    rw [deadNext] at low
    rcases Nat.lt_or_ge offset (count + gone) with inside | final
    · refine published ?_ offset low inside
      intro place below
      rw [elsewhere place (by omega) (by omega)]
      exact before place (by omega)
    · obtain rfl : offset = count + gone := by omega
      rw [here]
      exact visible (before count (by omega))

end Compaction

/-- The loop of `purge_qp_completions`. -/
theorem compact_spec (cq : HardwareCq) (qpn : UInt32) (count : Nat)
    (ring : Fin 32 → Cqe) (gone : Nat) (fits : count + gone ≤ 32) :
    Compacted qpn cq.consumer ring count gone
      (compact cq qpn count ring (UInt32.ofNat gone)) := by
  induction count generalizing ring gone with
  | zero =>
      refine ⟨rfl, rfl, fun _ _ _ => rfl, ?_⟩
      intro _ offset low high
      have noneDead : dead qpn ring cq.consumer 0 = 0 := rfl
      omega
  | succ count inductionHypothesis =>
      simp only [compact]
      split
      · next same =>
          have next : UInt32.ofNat gone + 1 = UInt32.ofNat (gone + 1) :=
            (UInt32.ofNat_add gone 1).symm
          rw [next]
          exact (inductionHypothesis ring (gone + 1) (by omega)).discard same
      · next other =>
          split
          · rw [add_ofNat]
            refine Compacted.keep fits other ?_ ?_ ?_
              (inductionHypothesis _ gone (by omega))
            · intro offset below elsewhere
              exact window_update_ne ring cq.consumer _ (by omega) below
                elsewhere
            · rw [window_update_self]
              exact Cqe.content_owned _ _
            · intro published
              rw [window_update_self, Cqe.published_owned]
              exact Cqe.opcode_of_published published
          · next noneDead =>
              have zero : gone = 0 := by
                have small : gone < 2 ^ 32 := by omega
                have value := congrArg UInt32.toNat (not_not.mp noneDead)
                rw [UInt32.toNat_ofNat', Nat.mod_eq_of_lt small] at value
                exact value
              refine Compacted.keep fits other (fun _ _ _ => rfl) ?_ ?_
                (inductionHypothesis _ gone (by omega))
              · rw [zero, Nat.add_zero]
              · intro published
                rwa [zero, Nat.add_zero]

/-! ## The purge -/

/-- The queue after its published entries were compacted. -/
def HardwareCq.purged (cq : HardwareCq) (qpn : UInt32) (count : Nat) :
    HardwareCq :=
  { cq with
    ring := (compact cq qpn count cq.ring 0).1
    consumer := cq.consumer + (compact cq qpn count cq.ring 0).2 }

section Purged

variable {cq : HardwareCq} {qpn : UInt32} {count : Nat}
  (counted : visible cq 32 cq.consumer = some count)

include counted

theorem counted_spec :
    count ≤ 32 ∧
      (∀ offset < count, (window cq.ring cq.consumer offset).published
        (cq.consumer + UInt32.ofNat offset) = true) ∧
      (count < 32 → (window cq.ring cq.consumer count).published
        (cq.consumer + UInt32.ofNat count) = false) := by
  have start : cq.consumer = cq.consumer + UInt32.ofNat 0 := by simp
  rw [start] at counted
  obtain ⟨most, published, ends⟩ := visible_spec counted
  refine ⟨most, ?_, ?_⟩
  · intro offset below
    exact published offset (Nat.zero_le _) (by omega)
  · intro few
    simpa using ends few

/-- A full ring's next place is its first, of another lap. -/
theorem ends_of_published {ring : Fin 32 → Cqe}
    (stops : count < 32 → (window ring cq.consumer count).published
      (cq.consumer + UInt32.ofNat count) = false)
    (first : 0 < count → (window ring cq.consumer 0).published
      (cq.consumer + UInt32.ofNat 0) = true) :
    (window ring cq.consumer count).published
      (cq.consumer + UInt32.ofNat count) = false := by
  rcases Nat.lt_or_ge count 32 with few | full
  · exact stops few
  · obtain rfl : count = 32 := by
      have most := (counted_spec counted).1
      omega
    have next : cq.consumer + UInt32.ofNat 32 =
        cq.consumer + UInt32.ofNat 0 + 32 :=
      (add_ofNat cq.consumer 0 32).symm
    rw [window_lap ring cq.consumer 0, next]
    exact Cqe.not_published_next (first (by decide))

/-- The entries before. -/
theorem reads_before :
    Reads cq cq.consumer (span cq.ring cq.consumer 0 count) := by
  obtain ⟨most, published, ends⟩ := counted_spec counted
  have read : Reads cq (cq.consumer + UInt32.ofNat 0)
      (span cq.ring cq.consumer 0 count) := by
    refine reads_span 0 count (fun offset _ below => ?_) ?_
    · exact published offset (by omega)
    · rw [Nat.zero_add]
      exact ends_of_published counted ends (published 0)
  simpa using read

/-- The entries after. -/
theorem reads_purged (qpn : UInt32) :
    Reads (cq.purged qpn count) (cq.purged qpn count).consumer
      (span (cq.purged qpn count).ring cq.consumer
        (dead qpn cq.ring cq.consumer count)
        (count - dead qpn cq.ring cq.consumer count)) := by
  obtain ⟨most, published, ends⟩ := counted_spec counted
  have compacted : Compacted qpn cq.consumer cq.ring count 0
      (compact cq qpn count cq.ring 0) :=
    compact_spec cq qpn count cq.ring 0 most
  have few : dead qpn cq.ring cq.consumer count ≤ count := dead_le count
  have consumer : (cq.purged qpn count).consumer = cq.consumer +
      UInt32.ofNat (dead qpn cq.ring cq.consumer count) := by
    rw [HardwareCq.purged, compacted.discarded, Nat.zero_add]
  have visible := compacted.published published
  simp only [Nat.zero_add, Nat.add_zero] at visible
  rw [consumer]
  refine reads_span _ _ (fun offset low high => ?_) ?_
  · exact visible offset low (by omega)
  · rw [Nat.add_sub_cancel' few]
    refine ends_of_published counted (fun less => ?_) (fun nonzero => ?_)
    · rw [HardwareCq.purged, compacted.others count less (Or.inr (by omega))]
      exact ends less
    · rcases Nat.eq_zero_or_pos (dead qpn cq.ring cq.consumer count) with
        noneDead | gone
      · exact visible 0 (by omega) nonzero
      · rw [HardwareCq.purged,
          compacted.others 0 (by decide) (Or.inl (by omega))]
        exact published 0 nonzero

/-- The places of the lap behind the entries. -/
theorem entry_purged (qpn : UInt32) {offset : Nat} (below : offset < 32)
    (behind : count - dead qpn cq.ring cq.consumer count ≤ offset) :
    (cq.purged qpn count).entry
        ((cq.purged qpn count).consumer + UInt32.ofNat offset) =
      cq.entry ((cq.purged qpn count).consumer + UInt32.ofNat offset) := by
  have most := (counted_spec counted).1
  have compacted : Compacted qpn cq.consumer cq.ring count 0
      (compact cq qpn count cq.ring 0) :=
    compact_spec cq qpn count cq.ring 0 most
  have few : dead qpn cq.ring cq.consumer count ≤ count := dead_le count
  have consumer : (cq.purged qpn count).consumer = cq.consumer +
      UInt32.ofNat (dead qpn cq.ring cq.consumer count) := by
    rw [HardwareCq.purged, compacted.discarded, Nat.zero_add]
  rw [consumer, add_ofNat]
  change window (cq.purged qpn count).ring cq.consumer _ =
    window cq.ring cq.consumer _
  generalize place : dead qpn cq.ring cq.consumer count + offset = spot
  rcases Nat.lt_or_ge spot 32 with lap | next
  · exact compacted.others spot lap (Or.inr (by omega))
  · obtain ⟨start, rfl⟩ : ∃ start, spot = start + 32 := ⟨spot - 32, by omega⟩
    rw [window_lap, window_lap]
    exact compacted.others start (by omega) (Or.inl (by omega))

end Purged

namespace Device

/-- How a purge ends. -/
theorem purge_cases (h : Device) (c : Nat) (qpn : UInt32) :
    ((h.purge c qpn).1 = false ∧ (h.purge c qpn).2.cqs = h.cqs) ∨
      ∃ count, visible (h.cqs c) 32 (h.cqs c).consumer = some count ∧
        h.purge c qpn = (true, h.setCq c ((h.cqs c).purged qpn count)) := by
  simp only [purge]
  split
  · exact Or.inl ⟨rfl, rfl⟩
  · split
    · exact Or.inl ⟨rfl, rfl⟩
    · next count counted =>
        split
        · exact Or.inl ⟨rfl, rfl⟩
        · exact Or.inr ⟨count, counted, rfl⟩

/-- A purge that succeeds leaves, read from the new consumer index, the entries
read before without those of the queue pair, in their order and with their
contents; the consumer index moves on by the number of those, and every place
of the lap behind the entries is as it was.  A purge that fails changes no
completion queue. -/
theorem purge_compacts (h : Device) (c : Nat) (qpn : UInt32) :
    ((h.purge c qpn).1 = true →
      ∃ entries kept : List Cqe,
        Reads (h.cqs c) (h.cqs c).consumer entries ∧
        Reads ((h.purge c qpn).2.cqs c) ((h.purge c qpn).2.cqs c).consumer
          kept ∧
        kept.map Cqe.content =
          (entries.filter fun entry => !(entry.qpn == qpn)).map Cqe.content ∧
        ((h.purge c qpn).2.cqs c).consumer = (h.cqs c).consumer +
          UInt32.ofNat (entries.countP fun entry => entry.qpn == qpn) ∧
        entries.length ≤ 32 ∧
        (∀ offset < 32, kept.length ≤ offset →
          ((h.purge c qpn).2.cqs c).entry
            (((h.purge c qpn).2.cqs c).consumer + UInt32.ofNat offset) =
          (h.cqs c).entry
            (((h.purge c qpn).2.cqs c).consumer + UInt32.ofNat offset)) ∧
        ∀ other ≠ c, (h.purge c qpn).2.cqs other = h.cqs other) ∧
    ((h.purge c qpn).1 = false → (h.purge c qpn).2.cqs = h.cqs) := by
  rcases h.purge_cases c qpn with ⟨failed, same⟩ | ⟨count, counted, done⟩
  · exact ⟨fun succeeded => by rw [failed] at succeeded; simp at succeeded,
      fun _ => same⟩
  · have after : (h.purge c qpn).2.cqs c = (h.cqs c).purged qpn count := by
      rw [done, cqs_setCq, Function.update_self]
    have compacted : Compacted qpn (h.cqs c).consumer (h.cqs c).ring count 0
        (compact (h.cqs c) qpn count (h.cqs c).ring 0) :=
      compact_spec _ qpn count _ 0 (counted_spec counted).1
    refine ⟨fun _ => ?_, fun failed => by rw [done] at failed; simp at failed⟩
    refine ⟨span (h.cqs c).ring (h.cqs c).consumer 0 count,
      span ((h.cqs c).purged qpn count).ring (h.cqs c).consumer
        (dead qpn (h.cqs c).ring (h.cqs c).consumer count)
        (count - dead qpn (h.cqs c).ring (h.cqs c).consumer count),
      reads_before counted, ?_, ?_, ?_, ?_, ?_, ?_⟩
    · rw [after]
      exact reads_purged counted qpn
    · have kept := compacted.kept
      rwa [Nat.zero_add] at kept
    · rw [after]
      change (h.cqs c).consumer + (compact _ _ _ _ _).2 = _
      rw [compacted.discarded, Nat.zero_add]
      rfl
    · rw [length_span]
      exact (counted_spec counted).1
    · intro offset below behind
      rw [length_span] at behind
      rw [after]
      exact entry_purged counted qpn below behind
    · intro other different
      rw [done, cqs_setCq, Function.update_of_ne different]

/-- Two entries across the end of a lap: the first, of the queue pair 5, in
the last slot, and one of the queue pair 7 in the first. -/
def twoLaps : Device :=
  (Device.init false 0).setCq 0
    { HardwareCq.init with
      object := ⟨1, true⟩
      buffer := true
      ring := fun slot spot =>
        if spot.val = 59 then (if slot.val = 31 then 5 else 7)
        else if spot.val = 63 then
          (if slot.val = 31 then 0 else if slot.val = 0 then 1 else 0xf1)
        else 0
      live := true
      consumer := 31
      references := 2
      outstanding := 2 }

/-- The purge of the queue pair 5 moves the consumer index to the next lap. -/
theorem purge_compacts_twoLaps :
    (twoLaps.purge 0 5).1 = true ∧
      ∃ entries kept : List Cqe,
        Reads (twoLaps.cqs 0) 31 entries ∧
        Reads ((twoLaps.purge 0 5).2.cqs 0)
          (31 + UInt32.ofNat (entries.countP fun entry => entry.qpn == 5))
          kept ∧
        kept.map Cqe.content =
          (entries.filter fun entry => !(entry.qpn == 5)).map Cqe.content := by
  have succeeds : (twoLaps.purge 0 5).1 = true := by decide
  obtain ⟨entries, kept, before, after, same, consumer, _⟩ :=
    (purge_compacts twoLaps 0 5).1 succeeds
  rw [consumer] at after
  exact ⟨succeeds, entries, kept, before, after, same⟩

end Device

end Hca
end Mcdma
