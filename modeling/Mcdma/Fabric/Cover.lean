import Mcdma.Fabric.Spread

/-!
# What the sender's table remembers

Every write and every signal posted since the last flush is still remembered by
the range table, so the overlap it reports for a new copy covers everything in
flight that the copy must not overtake.
-/

namespace Mcdma
namespace Fabric

open Link

/-- The last write a range may name: none, or one posted since the flush. -/
def Named (cfg : Config) (sys : Sys) (writes : Nat → Nat) (lane ord : Nat) :
    Prop :=
  lane < cfg.links → ord = 0 ∨ sys.base lane < ord ∧ ord ≤ writes lane

/-- What a write leaves in the table. -/
def copyRange (patch : Patch) (lane ord : Nat) : Range :=
  ⟨patch.off, patch.stop, Function.update (fun _ => 0) lane ord, false⟩

/-- What a signal leaves in the table at the bytes it covers. -/
def signalRange (patch : Patch) : Range :=
  ⟨patch.off, patch.stop, fun _ => 0, true⟩

/-- A table that remembers everything in `log` since the flush `epoch`. -/
structure Remembers (table : Table) (log : List Entry) (epoch : Nat) :
    Prop where
  copies : ∀ entry ∈ log, entry.epoch = epoch → ∀ lane ord,
    entry.tag = .placed lane ord → table.Keeps (copyRange entry.patch lane ord)
  signals : ∀ entry ∈ log, entry.epoch = epoch → entry.IsSignal →
    table.Keeps (signalRange entry.patch)
  covered : ∀ signal ∈ log, signal.epoch = epoch → signal.IsSignal →
    ∀ entry, Before log entry signal → entry.epoch = epoch → entry.IsWrite →
      table.Keeps (signalRange entry.patch)

/-- The sender's table is up to date. -/
structure Cover (cfg : Config) (sys : Sys) : Prop where
  names : sys.peer.table.Names (Named cfg sys sys.peer.writes)
  remembers : Remembers sys.peer.table sys.log sys.epoch

section

variable {cfg : Config} {sys after : Sys} {allowed : Entry → Prop}

theorem overlaps_of_meets {off len : Nat} {patch other : Patch}
    (meets : other.Meets patch) (lower : off ≤ patch.off)
    (upper : patch.stop ≤ off + len) (ord : Nat → Nat) (signal : Bool) :
    (⟨other.off, other.stop, ord, signal⟩ : Range).Overlaps off
      (off + len) := by
  simp only [Patch.Meets] at meets
  constructor
  · change off < other.stop
    omega
  · change other.off < off + len
    omega

/-- Whatever a copy must not overtake was made, or the overlap names it. -/
theorem Cover.conflict (cover : Cover cfg sys) (core : Core cfg sys)
    {off len : Nat} {patch : Patch} (lower : off ≤ patch.off)
    (upper : patch.stop ≤ off + len) {first : Entry}
    (logged : first ∈ sys.log) (conflict : Conflict sys.log first patch) :
    Applied sys.bond first ∨
      (∃ lane ord, first.tag = .placed lane ord ∧
        ord ≤ (bondOverlap sys.peer.table off len).1 lane) ∨
      first.IsSignal ∧ (bondOverlap sys.peer.table off len).2 = true := by
  rcases Nat.lt_or_eq_of_le (core.epochs first logged) with old | current
  · exact Or.inl (core.settled first logged old)
  · right
    have nonempty : ∀ other : Patch, other.Meets patch → len ≠ 0 := by
      intro other meets empty
      simp only [Patch.Meets] at meets
      omega
    rcases conflict with meets | ⟨isSignal, write, isWrite, same, before, meets⟩
    · rcases core.history.cases logged with ⟨lane, ord, tag⟩ | isSignal
      · have keeps := cover.remembers.copies first logged current lane ord tag
        have named := (bondOverlap_of_keeps keeps (nonempty _ meets)
          (overlaps_of_meets meets lower upper _ _)).1 lane
        simp only [copyRange, Function.update_self] at named
        exact Or.inl ⟨lane, ord, tag, named⟩
      · have keeps := cover.remembers.signals first logged current isSignal
        exact Or.inr ⟨isSignal, (bondOverlap_of_keeps keeps (nonempty _ meets)
          (overlaps_of_meets meets lower upper _ _)).2 rfl⟩
    · have keeps := cover.remembers.covered first logged current isSignal write
        before (same.trans current) isWrite
      exact Or.inr ⟨isSignal, (bondOverlap_of_keeps keeps (nonempty _ meets)
        (overlaps_of_meets meets lower upper _ _)).2 rfl⟩

/-- A copy that waits for all the overlap names is safe. -/
theorem Cover.clear (cover : Cover cfg sys) (core : Core cfg sys) (off len : Nat)
    (writes : ∀ entry lane ord, entry.tag = .placed lane ord →
      lane < cfg.links → 0 < ord →
      ord ≤ (bondOverlap sys.peer.table off len).1 lane → allowed entry)
    (signals : ∀ entry sig, entry.tag = .published sig →
      sig ≤ sys.peer.txSignal →
      (bondOverlap sys.peer.table off len).2 = true → allowed entry) :
    Clear sys allowed off (off + len) := by
  intro first logged patch lower upper conflict
  rcases cover.conflict core lower upper logged conflict with made |
    ⟨lane, ord, tag, named⟩ | ⟨⟨sig, tag⟩, flagged⟩
  · exact Or.inl made
  · obtain ⟨inBond, positive, -⟩ := core.history.placed first logged lane ord tag
    exact Or.inr (writes first lane ord tag inBond positive named)
  · have posted := (core.history.published first logged sig tag).2
    exact Or.inr (signals first sig tag posted flagged)

/-- A write that `bond_prepare` lets go on keeps to the link it overlaps. -/
theorem Cover.clear_bondPrepare (cover : Cover cfg sys) (core : Core cfg sys)
    (off len : Nat) (goes : (bondPrepare cfg sys.peer off len).2 = false) :
    Clear sys (OnLane (bondPrepare cfg sys.peer off len).1.affinity) off
      (off + len) := by
  unfold bondPrepare at goes ⊢
  split at goes
  · next empty =>
      subst empty
      intro first logged patch lower upper conflict
      have meets : ∃ other : Patch, other.Meets patch := by
        rcases conflict with meets | ⟨-, write, -, -, -, meets⟩
        · exact ⟨_, meets⟩
        · exact ⟨_, meets⟩
      obtain ⟨other, meets⟩ := meets
      simp only [Patch.Meets] at meets
      omega
  · next some =>
      rw [if_neg some]
      simp only [Bool.or_eq_false_iff, decide_eq_false_iff_not] at goes
      obtain ⟨unflagged, few⟩ := goes
      refine cover.clear core off len ?_ ?_
      · intro entry lane ord tag inBond positive named
        refine ⟨lane, ord, ?_, tag⟩
        dsimp only
        set lanes := (List.range cfg.links).filter fun lane =>
          (bondOverlap sys.peer.table off len).1 lane ≠ 0 with lanesDef
        have member : lane ∈ lanes := by
          rw [lanesDef, List.mem_filter]
          exact ⟨List.mem_range.mpr inBond, by simp; omega⟩
        -- at most one link overlaps, so this is the one
        clear_value lanes
        rcases lanes with _ | ⟨only, _ | ⟨second, rest⟩⟩
        · simp at member
        · simpa using (List.mem_singleton.mp member).symm
        · exact absurd few (by simp)
      · intro entry sig tag posted flagged
        rw [unflagged] at flagged
        simp at flagged

/-! ## Keeping it up to date -/

theorem Named.mono {sys after : Sys} {writes writes' : Nat → Nat}
    (base : after.base = sys.base) (grows : ∀ lane, writes lane ≤ writes' lane)
    (lane ord : Nat) (named : Named cfg sys writes lane ord) :
    Named cfg after writes' lane ord := by
  intro inBond
  rcases named inBond with none | ⟨above, below⟩
  · exact Or.inl none
  · refine Or.inr ⟨?_, below.trans (grows lane)⟩
    rw [base]
    exact above

/-- Writes are appended to the log and remembered. -/
theorem Remembers.append_writes {table table' : Table} {log : List Entry}
    {epoch : Nat} {entries : List Entry} (remembers : Remembers table log epoch)
    (nodup : (log ++ entries).Nodup)
    (keeps : ∀ range, table.Keeps range → table'.Keeps range)
    (copies : ∀ entry ∈ entries, ∃ lane ord, entry.tag = .placed lane ord ∧
      table'.Keeps (copyRange entry.patch lane ord)) :
    Remembers table' (log ++ entries) epoch := by
  have isWrite : ∀ entry ∈ entries, ¬entry.IsSignal := by
    rintro entry member ⟨sig, published⟩
    obtain ⟨lane, ord, tag, -⟩ := copies entry member
    rw [tag] at published
    simp at published
  constructor
  · intro entry member current lane ord tag
    rcases List.mem_append.mp member with old | new
    · exact keeps _ (remembers.copies entry old current lane ord tag)
    · obtain ⟨lane', ord', tag', kept⟩ := copies entry new
      obtain ⟨rfl, rfl⟩ := Tag.placed.inj (tag.symm.trans tag')
      exact kept
  · intro entry member current isSignal
    rcases List.mem_append.mp member with old | new
    · exact keeps _ (remembers.signals entry old current isSignal)
    · exact absurd isSignal (isWrite entry new)
  · intro signal member current isSignal entry before
    rcases List.mem_append.mp member with old | new
    · intro same write
      exact keeps _ (remembers.covered signal old current isSignal entry
        (before.of_append_left nodup old) same write)
    · exact absurd isSignal (isWrite signal new)

/-- A signal is appended to the log, remembered, and covers what is before it. -/
theorem Remembers.concat_signal {table : Table} {log : List Entry}
    {signal : Entry} (remembers : Remembers table log signal.epoch)
    (nodup : (log ++ [signal]).Nodup) (isSignal : signal.IsSignal)
    {off : Nat} (start : signal.patch.off = off)
    (word : signal.patch.stop = off + 8) :
    Remembers (bondFlagged (bondRemember table off 8 (fun _ => 0) true))
      (log ++ [signal]) signal.epoch := by
  set table' := bondFlagged (bondRemember table off 8 (fun _ => 0) true)
  have flags : ∀ range : Range, table.Keeps range →
      table'.Keeps { range with signal := true } := fun range kept =>
    Table.keeps_bondFlagged (Table.keeps_bondRemember kept off 8 _ true)
  have keeps : ∀ range : Range, table.Keeps range → table'.Keeps range := by
    intro range kept
    have within : range.Within { range with signal := true } :=
      ⟨Nat.le_refl _, Nat.le_refl _, fun _ => Nat.le_refl _, fun _ => rfl⟩
    exact Table.Keeps.of_within within (flags range kept)
  have mine : table'.Keeps (signalRange signal.patch) := by
    rw [signalRange, start, word]
    have kept := Table.keeps_bondRemember_self table off (fun _ => 0) true
      (by decide : 8 ≠ 0)
    exact Table.keeps_bondFlagged kept
  constructor
  · intro entry member current lane ord tag
    rcases List.mem_append.mp member with old | new
    · exact keeps _ (remembers.copies entry old current lane ord tag)
    · obtain ⟨sig, published⟩ := isSignal
      rw [List.mem_singleton.mp new, published] at tag
      simp at tag
  · intro entry member current its
    rcases List.mem_append.mp member with old | new
    · exact keeps _ (remembers.signals entry old current its)
    · rw [List.mem_singleton.mp new]
      exact mine
  · intro other member current its entry before same isWrite
    rcases List.mem_append.mp member with old | new
    · exact keeps _ (remembers.covered other old current its entry
        (before.of_append_left nodup old) same isWrite)
    · -- the new signal covers every write of its epoch
      have earlier : entry ∈ log := by
        rw [List.mem_singleton.mp new, before_concat_iff] at before
        rcases before with inside | ⟨found, -⟩
        · exact inside.mem_left
        · exact found
      obtain ⟨lane, ord, tag⟩ := isWrite
      have within : (signalRange entry.patch).Within
          { copyRange entry.patch lane ord with signal := true } :=
        ⟨Nat.le_refl _, Nat.le_refl _, fun _ => Nat.zero_le _, fun _ => rfl⟩
      exact Table.Keeps.of_within within
        (flags _ (remembers.copies entry earlier same lane ord tag))

/-- A write is posted and remembered. -/
theorem Cover.wrote {src : Mem} {off roff len count : Nat}
    (cover : Cover cfg sys) (last : Nat → Nat)
    (core : Core cfg after) (wrote : Wrote sys after src off roff len count)
    (nothing : len = 0 → count = 0)
    (latest : ∀ lane < cfg.links, ∀ ord, sys.peer.writes lane < ord →
      ord ≤ after.peer.writes lane → ord ≤ last lane)
    (named : ∀ lane, Named cfg sys after.peer.writes lane (last lane)) :
    Cover cfg (after.withPeer { after.peer with
      table := bondRemember after.peer.table roff len last false }) := by
  obtain ⟨entries, log, parts, -⟩ := wrote.added
  have nodup := core.history.nodup
  rw [log] at nodup
  have base : after.base = sys.base := wrote.base
  have epoch : after.epoch = sys.epoch := by rw [wrote.rest]
  constructor
  · refine Table.names_bondRemember (fun _ _ => Or.inl rfl) ?_ _ _ _
      (fun lane => ?_)
    · rw [wrote.table]
      exact cover.names.mono (Named.mono base fun lane => (wrote.few lane).1)
    · exact Named.mono base (fun _ => Nat.le_refl _) _ _ (named lane)
  · change Remembers (bondRemember after.peer.table roff len last false)
      after.log after.epoch
    rw [log, epoch, wrote.table]
    refine cover.remembers.append_writes nodup
      (fun range kept => Table.keeps_bondRemember kept _ _ _ _) ?_
    intro entry member
    have part := parts entry member
    obtain ⟨lane, ord, tag, above, below⟩ := part.placed
    refine ⟨lane, ord, tag, ?_⟩
    have inBond : lane < cfg.links := (core.history.placed entry
      (by rw [log]; exact List.mem_append_right _ member) lane ord tag).1
    have nonempty : len ≠ 0 := by
      intro empty
      have few := (wrote.few lane).2
      rw [nothing empty] at few
      omega
    have within : (copyRange entry.patch lane ord).Within
        ⟨roff, roff + len, last, false⟩ := by
      refine ⟨part.lower, part.upper, ?_, by simp [copyRange]⟩
      intro other
      by_cases here : other = lane
      · subst here
        simpa [copyRange] using latest other inBond ord above below
      · simp [copyRange, here]
    exact Table.Keeps.of_within within
      (Table.keeps_bondRemember_self _ _ last false nonempty)

end

end Fabric
end Mcdma
