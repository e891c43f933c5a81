import Mcdma.Fabric.Steps
import Mcdma.Fabric.Writing

/-!
# The loops that post a write

The scheduler's loop of `bond_write_locked`, which picks a link for each chunk,
and the spread of `bond_parallel`, which gives every link a part.  Both post the
whole write, keep the invariant and report the last write on each link they
used.
-/

namespace Mcdma
namespace Fabric

open Link

/-- Writes of the link a call must stay on. -/
def OnLane (affinity : Option Nat) (entry : Entry) : Prop :=
  ∃ lane ord, affinity = some lane ∧ entry.tag = .placed lane ord

/-- The most messages a write of `len` bytes from `off` is cut into on one
link: no link takes less than two packets whole, and registrations end on such a
boundary. -/
def span (off len : Nat) : Nat :=
  if len = 0 then 0 else (off + len) / 8192 - off / 8192 + 1

/-- A piece shorter than two packets ends its registration or its write. -/
theorem span_step {off len take : Nat} (some : 0 < take) (le : take ≤ len)
    (whole : 8192 ≤ take ∨ (off + take) % 8192 = 0 ∨ take = len) :
    1 + span (off + take) (len - take) ≤ span off len := by
  unfold span
  rw [if_neg (by omega : ¬len = 0)]
  split
  · omega
  · next more =>
      have same : off + take + (len - take) = off + len := by omega
      rw [same]
      omega

theorem length_pieces_le {max seg : Nat} (maxLe : 8192 ≤ max)
    (aligned : seg % 8192 = 0) (segPos : 0 < seg) (fuel off roff len : Nat) :
    (pieces max seg fuel off roff len).length ≤ span off len := by
  induction fuel generalizing off roff len with
  | zero => simp [pieces]
  | succ fuel inductionHypothesis =>
      rw [pieces]
      split
      · simp
      · next some =>
          have inSeg := Nat.mod_lt off segPos
          have ends : (off + (seg - off % seg)) % 8192 = 0 := by
            have whole : off + (seg - off % seg) = seg * (off / seg + 1) := by
              have parts := Nat.div_add_mod off seg
              rw [Nat.mul_add, Nat.mul_one]
              omega
            rw [whole, Nat.mul_mod, aligned]
            simp
          set take := min (min len max) (seg - off % seg)
          have short : 8192 ≤ take ∨ (off + take) % 8192 = 0 ∨ take = len := by
            by_cases last : take = seg - off % seg
            · rw [last]
              exact Or.inr (Or.inl ends)
            · omega
          have step : 1 + span (off + take) (len - take) ≤ span off len :=
            span_step (by omega) (by omega) short
          have others := inductionHypothesis (off + take) (roff + take)
            (len - take)
          rw [List.length_cons]
          omega

theorem Config.max_pos (cfg : Config) (lane : Nat) : 8192 ≤ cfg.max lane := by
  have depth := cfg.depth_le lane
  have slots := cfg.peerSlots_le lane
  simp only [Config.max, msgMax, tbPacket, tbMsg]
  omega

theorem Config.max_le (cfg : Config) (lane : Nat) : cfg.max lane ≤ tbMsg := by
  simp only [Config.max, msgMax]
  omega

/-- The scan of `bond_choose` holds only links of the bond that are ready. -/
theorem bondChoose_scan {cfg : Config} {turn found : Nat} {rooms : Nat → Room}
    (steps : List Nat) (best : Option Nat)
    (start : ∀ held, best = some held →
      held < cfg.links ∧ (rooms held).ready = true)
    (same : steps.foldl (fun best step =>
      let lane := (turn + step) % cfg.links
      if (rooms lane).ready then
        match best with
        | none => some lane
        | some held =>
            if (rooms lane).backlog < (rooms held).backlog then some lane
            else best
      else best) best = some found) :
    found < cfg.links ∧ (rooms found).ready = true := by
  have links := cfg.two_le
  induction steps generalizing best with
  | nil => exact start found same
  | cons step rest inductionHypothesis =>
      refine inductionHypothesis _ ?_ same
      intro held has
      have below : (turn + step) % cfg.links < cfg.links :=
        Nat.mod_lt _ (by omega)
      dsimp only at has
      split at has
      · next ready =>
          split at has
          · obtain rfl := Option.some.inj has
            exact ⟨below, ready⟩
          · split at has
            · obtain rfl := Option.some.inj has
              exact ⟨below, ready⟩
            · exact start held has
      · exact start held has

/-- The link `bond_choose` picks is one of the bond's and ready. -/
theorem bondChoose_ready {cfg : Config} {turn lane : Nat} {rooms : Nat → Room}
    (chosen : bondChoose cfg turn rooms = some lane) :
    lane < cfg.links ∧ (rooms lane).ready = true :=
  bondChoose_scan _ none (by simp) chosen

/-- Two senders that differ only in how they choose links. -/
structure Peer.Alike (peer other : Peer) : Prop where
  lanes : other.lanes = peer.lanes
  txSignal : other.txSignal = peer.txSignal
  txFenced : other.txFenced = peer.txFenced
  table : other.table = peer.table

section

variable {cfg : Config} {sys before after : Sys} {src : Mem} {peer : Peer}
variable {off roff len count : Nat}

theorem Peer.Alike.writes {other : Peer} (alike : peer.Alike other) :
    other.writes = peer.writes := by
  funext lane
  rw [Peer.writes, Peer.writes, alike.lanes]

theorem Core.alike (core : Core cfg sys) (alike : sys.peer.Alike peer) :
    Core cfg (sys.withPeer peer) :=
  core.same ⟨fun lane => by rw [← alike.lanes]; rfl, alike.txSignal,
    alike.txFenced, rfl, rfl, rfl, rfl, rfl, rfl, rfl⟩

/-- The sender may change its mind about links before it posts. -/
theorem Sends.of_alike (alike : before.peer.Alike peer)
    (sends : Sends cfg (before.withPeer peer) after src off roff len count) :
    Sends cfg before after src off roff len count := by
  obtain ⟨core, plain, wrote⟩ := sends
  have writes := alike.writes
  refine ⟨core, plain, ?_, ?_, wrote.txSignal.trans alike.txSignal,
    wrote.txFenced.trans alike.txFenced, wrote.table.trans alike.table, ?_,
    wrote.out, wrote.rest⟩
  · obtain ⟨entries, log, parts, replay⟩ := wrote.added
    refine ⟨entries, log, ?_, replay⟩
    rw [← writes]
    exact parts
  · rw [← writes]
    exact wrote.few
  · intro lane
    rw [← alike.lanes]
    exact wrote.fences lane

/-- And after it has posted. -/
theorem Sends.alike (sends : Sends cfg before after src off roff len count)
    (alike : after.peer.Alike peer) :
    Sends cfg before (after.withPeer peer) src off roff len count := by
  obtain ⟨core, plain, wrote⟩ := sends
  have writes : peer.writes = after.peer.writes := alike.writes
  refine ⟨core.alike alike, plain, ?_, ?_, alike.txSignal.trans wrote.txSignal,
    alike.txFenced.trans wrote.txFenced, alike.table.trans wrote.table, ?_,
    wrote.out, ?_⟩
  · obtain ⟨entries, log, parts, replay⟩ := wrote.added
    refine ⟨entries, log, ?_, replay⟩
    change ∀ entry ∈ entries, Part _ _ _ _ peer.writes entry
    rw [writes]
    exact parts
  · change ∀ lane, _ ≤ peer.writes lane ∧ peer.writes lane ≤ _
    rw [writes]
    exact wrote.few
  · intro lane
    change (peer.lanes lane).fences = _ ∧ (peer.lanes lane).fenceAcked = _
    rw [alike.lanes]
    exact wrote.fences lane
  · rw [wrote.rest]
    rfl

end

/-- The loop of `bond_write_locked` went well: the write is posted, and `last`
names the last write of each link it used. -/
structure LoopOk (cfg : Config) (sys : Sys) (src : Mem) (off roff len : Nat)
    (first : Nat → Nat) (peer : Peer) (batches : List Batch)
    (last : Nat → Nat) : Prop where
  sends : Sends cfg sys (sys.after peer batches) src off roff len
    (span off len)
  affinity : ∀ lane, peer.affinity = some lane → lane < cfg.links
  last : ∀ lane,
    (last lane = first lane ∧ peer.writes lane = sys.peer.writes lane) ∨
      (last lane = peer.writes lane ∧
        sys.peer.writes lane < peer.writes lane)

section

variable {cfg : Config} {src : Mem} {length : Nat}

/-- A chunk that is ready has a byte, and is short only at the end of its
registration or its write. -/
theorem take_bondRoom {round : Round} {off len lane : Nat}
    (ready : (bondRoom cfg round off len lane).ready = true) :
    let take := (bondRoom cfg round off len lane).take
    0 < take ∧ take ≤ len ∧ take ≤ cfg.max lane ∧
      take ≤ tbSeg - off % tbSeg ∧
      (8192 ≤ take ∨ (off + take) % 8192 = 0 ∨ take = len) := by
  intro take
  have most := cfg.max_pos lane
  have nonzero : take ≠ 0 := by
    have parts : _ ∧ decide (take ≠ 0) = true :=
      (Bool.and_eq_true_iff.mp (Bool.and_eq_true_iff.mp ready).1)
    simpa using parts.2
  have takeDef : take = min (min (min len bondChunk)
    (tbWriteLimit (cfg.max lane))) (tbSeg - off % tbSeg) := rfl
  have limit : tbWriteLimit (cfg.max lane) ≤ cfg.max lane :=
    Nat.min_le_left _ _
  refine ⟨by omega, by omega, by omega, by omega, ?_⟩
  have inSeg : off % tbSeg < tbSeg := Nat.mod_lt _ (by decide)
  have room : (off + (tbSeg - off % tbSeg)) % 8192 = 0 := by
    simp only [tbSeg] at inSeg ⊢
    omega
  simp only [bondChunk, tbWriteLimit, tbTryMax] at takeDef
  by_cases last : take = tbSeg - off % tbSeg
  · rw [last]
    exact Or.inr (Or.inl room)
  · omega

/-- One chunk of the loop on one link. -/
theorem Core.sends_chunk {sys : Sys} {lane off roff take : Nat} (src : Mem)
    (length : Nat) (core : Core cfg sys) (plain : sys.Plain cfg)
    (below : lane < cfg.links) (hasByte : 0 < take) (fits : take ≤ cfg.max lane)
    (inSeg : take ≤ tbSeg - off % tbSeg)
    (within : roff + take ≤ cfg.remoteLength)
    (clear : Clear sys (OnLane sys.peer.affinity) roff (roff + take))
    (own : ∀ other, sys.peer.affinity = some other → other = lane) :
    let posted := bondPostChunk cfg src length sys.peer lane off roff take
    Sends cfg sys (sys.after posted.1 posted.2) src off roff take 1 ∧
      sys.peer.writes lane < posted.1.writes lane ∧
      (∀ other, other ≠ lane →
        posted.1.writes other = sys.peer.writes other) ∧
      (posted.1.affinity = sys.peer.affinity ∨
        posted.1.affinity = some lane) := by
  intro posted
  have maxPos := cfg.max_pos lane
  have single : cut (cfg.max lane) tbSeg off roff take =
    [⟨off, roff, take⟩] := cut_single hasByte fits inSeg
  have sends := Core.sends_pieces src (cfg.max lane) tbSeg none
    (OnLane sys.peer.affinity) (writePiece src) (by omega) (by decide) below
    (fun half piece some fits inside => pieced_writePiece some
      (fits.trans (cfg.max_le lane)) inside)
    (fun entry ⟨other, ord, has, tag⟩ =>
      Or.inl ⟨ord, by rw [tag, own other has]⟩)
    take off roff take core plain (Nat.le_refl _) within (by simp) clear
  have one : (pieces (cfg.max lane) tbSeg take off roff take).length = 1 :=
    congrArg List.length single
  rw [one] at sends
  set half := (postPieces (writePiece src) (sys.peer.lanes lane)
    (cut (cfg.max lane) tbSeg off roff take)).2 with halfDef
  have grown : (sys.peer.lanes lane).writesPosted < half.writesPosted := by
    rw [halfDef, single]
    simp only [postPieces, writePiece]
    split <;> exact Nat.lt_succ_self _
  have alike : (sys.peer.setLane lane half).Alike posted.1 := by
    refine ⟨?_, ?_, ?_, ?_⟩ <;>
      · simp only [posted, bondPostChunk]
        split <;> rfl
  have writes := alike.writes
  refine ⟨sends.alike alike, ?_, ?_, ?_⟩
  · rw [writes, Peer.writes, Peer.writes, Peer.setLane_lane]
    exact grown
  · intro other different
    rw [writes, Peer.writes, Peer.writes, Peer.setLane_other _ _ different]
  · simp only [posted, bondPostChunk]
    split
    · exact Or.inr rfl
    · exact Or.inl rfl

theorem LoopOk.nil {sys : Sys} {off roff len : Nat} {first last : Nat → Nat}
    {peer : Peer} {batches : List Batch} (core : Core cfg sys)
    (plain : sys.Plain cfg)
    (inBond : ∀ lane, sys.peer.affinity = some lane → lane < cfg.links)
    (empty : len = 0)
    (same : some (sys.peer, ([] : List Batch), first) =
      some (peer, batches, last)) :
    LoopOk cfg sys src off roff len first peer batches last := by
  obtain ⟨rfl, rfl, rfl⟩ : sys.peer = peer ∧ [] = batches ∧ first = last := by
    simpa using same
  subst empty
  exact ⟨⟨core, plain, Wrote.refl sys src off roff⟩, inBond,
    fun lane => Or.inl ⟨rfl, rfl⟩⟩

/-- The rest of the loop from a sender that differs only in its choices. -/
theorem LoopOk.of_alike {sys : Sys} {off roff len : Nat}
    {first last : Nat → Nat} {turned peer : Peer} {batches : List Batch}
    (alike : sys.peer.Alike turned)
    (rest : LoopOk cfg (sys.withPeer turned) src off roff len first peer
      batches last) :
    LoopOk cfg sys src off roff len first peer batches last := by
  have same : (sys.withPeer turned).after peer batches =
      sys.after peer batches := by
    rw [Sys.after, Sys.after, Sys.foldl_emit_withPeer]
    rfl
  have sends := rest.sends
  rw [same] at sends
  refine ⟨sends.of_alike alike, rest.affinity, ?_⟩
  rw [← alike.writes]
  exact rest.last

/-- A chunk and then the rest of the loop. -/
theorem LoopOk.cons {sys middle : Sys} {off roff len take lane : Nat}
    {first last : Nat → Nat} {peer : Peer} {early late : List Batch}
    (middleDef : middle = sys.after middle.peer early)
    (some : 0 < take) (le : take ≤ len)
    (whole : 8192 ≤ take ∨ (off + take) % 8192 = 0 ∨ take = len)
    (sends : Sends cfg sys middle src off roff take 1)
    (posted : sys.peer.writes lane < middle.peer.writes lane)
    (others : ∀ other, other ≠ lane →
      middle.peer.writes other = sys.peer.writes other)
    (rest : LoopOk cfg middle src (off + take) (roff + take) (len - take)
      (Function.update first lane (middle.peer.writes lane)) peer late last) :
    LoopOk cfg sys src off roff len first peer (early ++ late) last := by
  have both := sends.trans rest.sends
  have length : take + (len - take) = len := by omega
  rw [length] at both
  refine ⟨?_, rest.affinity, ?_⟩
  · rw [Sys.after_append sys middle.peer, ← middleDef]
    exact ⟨both.core, both.plain, both.wrote.mono (span_step some le whole)⟩
  · intro other
    have tail := rest.last other
    by_cases here : other = lane
    · subst here
      right
      rw [Function.update_self] at tail
      rcases tail with ⟨same, still⟩ | ⟨same, more⟩
      · exact ⟨by rw [same, still], by rw [still]; exact posted⟩
      · exact ⟨same, posted.trans more⟩
    · rw [Function.update_of_ne here, others other here] at tail
      exact tail

/-- The link of the next chunk is one of the bond's, ready, and the one the
call must stay on if there is one. -/
theorem bondTarget_ready {peer turned : Peer} {rooms : Nat → Room} {lane : Nat}
    (inBond : ∀ lane, peer.affinity = some lane → lane < cfg.links)
    (target : bondTarget cfg peer rooms = some (lane, turned)) :
    lane < cfg.links ∧ (rooms lane).ready = true ∧
      (∀ other, peer.affinity = some other → other = lane) ∧
      peer.Alike turned ∧ turned.affinity = peer.affinity := by
  unfold bondTarget at target
  cases affinity : peer.affinity with
  | none =>
      rw [affinity] at target
      obtain ⟨picked, chosen, same⟩ := Option.map_eq_some_iff.mp target
      obtain ⟨rfl, rfl⟩ := Prod.mk.inj same
      obtain ⟨below, ready⟩ := bondChoose_ready chosen
      exact ⟨below, ready, by simp, ⟨rfl, rfl, rfl, rfl⟩, rfl⟩
  | some own =>
      rw [affinity] at target
      simp only at target
      split at target
      · next ready =>
          obtain ⟨rfl, rfl⟩ := Prod.mk.inj (Option.some.inj target)
          exact ⟨inBond own affinity, ready, by simp, ⟨rfl, rfl, rfl, rfl⟩,
            affinity⟩
      · simp at target

/-- The loop of `bond_write_locked`. -/
theorem Core.sends_bondWriteLoop (rounds : List Round) {sys : Sys}
    {off roff len : Nat} {first : Nat → Nat} (core : Core cfg sys)
    (plain : sys.Plain cfg)
    (inBond : ∀ lane, sys.peer.affinity = some lane → lane < cfg.links)
    (within : roff + len ≤ cfg.remoteLength)
    (clear : Clear sys (OnLane sys.peer.affinity) roff (roff + len))
    {peer : Peer} {batches : List Batch} {last : Nat → Nat}
    (ran : bondWriteLoop cfg src length rounds sys.peer off roff len first =
      some (peer, batches, last)) :
    LoopOk cfg sys src off roff len first peer batches last := by
  induction rounds generalizing sys off roff len first peer batches last with
  | nil =>
      rw [bondWriteLoop] at ran
      split at ran
      · next empty => exact LoopOk.nil core plain inBond empty ran
      · simp at ran
  | cons round rest inductionHypothesis =>
      rw [bondWriteLoop] at ran
      split at ran
      · next empty => exact LoopOk.nil core plain inBond empty ran
      · dsimp only at ran
        split at ran
        · exact inductionHypothesis core plain inBond within clear ran
        · next lane turned target =>
            obtain ⟨below, ready, own, alike, same⟩ :=
              bondTarget_ready inBond target
            have turnedBond : ∀ other,
                (sys.withPeer turned).peer.affinity = some other →
                other < cfg.links := by
              change ∀ other, turned.affinity = some other → _
              rw [same]
              exact inBond
            have turnedClear : Clear (sys.withPeer turned)
                (OnLane turned.affinity) roff (roff + len) := by
              rw [same]
              exact clear
            refine LoopOk.of_alike alike ?_
            split at ran
            · exact inductionHypothesis (core.alike alike) plain turnedBond
                within turnedClear ran
            · obtain ⟨⟨final, late, ords⟩, onward, packed⟩ :=
                Option.map_eq_some_iff.mp ran
              obtain ⟨takePos, takeLe, fits, inSeg, whole⟩ :=
                take_bondRoom ready
              set take := (bondRoom cfg round off len lane).take
              obtain ⟨sends, grown, others, stays⟩ :=
                Core.sends_chunk src length (core.alike alike)
                  plain below takePos fits inSeg (by omega : roff + take ≤ _)
                  (turnedClear.mono (Nat.le_refl _) (by omega)
                    fun _ allows => allows)
                  (fun other has => own other (same ▸ has))
              set posted := bondPostChunk cfg src length turned lane off roff
                take
              change Sends cfg _ ((sys.withPeer turned).after posted.1 posted.2)
                _ _ _ _ _ at sends
              change posted.1.affinity = turned.affinity ∨
                posted.1.affinity = some lane at stays
              obtain ⟨rfl, rfl, rfl⟩ : final = peer ∧
                  posted.2 ++ late = batches ∧ ords = last := by
                simpa using packed
              refine LoopOk.cons rfl takePos takeLe whole sends grown others
                (inductionHypothesis sends.core sends.plain ?_ (by omega) ?_
                  onward)
              · intro other has
                change posted.1.affinity = some other at has
                rcases stays with kept | fixed
                · exact turnedBond other (kept.symm.trans has)
                · rw [← Option.some.inj (fixed.symm.trans has)]
                  exact below
              · have ahead : Clear (sys.withPeer turned)
                    (OnLane turned.affinity) (roff + take)
                    (roff + take + (len - take)) :=
                  turnedClear.mono (by omega) (by omega) fun _ allows => allows
                refine (ahead.wrote sends.wrote sends.core
                  (Or.inl (Nat.le_refl _))).mono (Nat.le_refl _)
                  (Nat.le_refl _) ?_
                rintro entry ⟨other, ord, has, tag⟩
                refine ⟨other, ord, ?_, tag⟩
                change posted.1.affinity = some other
                rcases stays with kept | fixed
                · exact kept.trans has
                · rw [fixed, own other (same ▸ has)]

end

end Fabric
end Mcdma
