import Mcdma.Fabric.Loops
import Mcdma.Fabric.Parts

/-!
# A write across all links

`bond_parts` gives every link a part of at least one byte and the parts make up
the write; `bond_parallel` posts them, each guarded by the whole write's waits.
-/

namespace Mcdma
namespace Fabric

open Link

/-! ## The parts -/

section

variable {links len : Nat}

/-- Every link gets a byte and together they get all. -/
theorem bondParts_total (load : Nat → Load) (two : 2 ≤ links)
    (most : links ≤ tbBondMax) (long : bondSplit ≤ len) :
    ((List.range links).map (bondParts load links len)).sum = len ∧
      ∀ lane < links, 0 < bondParts load links len lane := by
  constructor
  · rw [Parts.total_eq_sum]
    exact Parts.total_bondParts load len two
  · intro lane below
    have positive := Parts.least_pos two most long
    exact positive.trans_le (Parts.least_le_bondParts two below)

end

/-! ## Posting the parts -/

section

variable {cfg : Config} {src : Mem} {sig flags : Nat} {wait : Nat → Nat}

/-- The guard of every part of a write across the links. -/
def spreadGuard (sig flags : Nat) (wait : Nat → Nat) : Guard :=
  ⟨sig, decide (flags &&& bondWaitSignals ≠ 0), wait⟩

theorem postPieces_writes (post : Lane → Piece → List Post × Lane)
    (each : ∀ half piece,
      (post half piece).2.writesPosted = half.writesPosted + 1)
    (half : Lane) (list : List Piece) :
    (postPieces post half list).2.writesPosted =
      half.writesPosted + list.length := by
  induction list generalizing half with
  | nil => rfl
  | cons piece rest inductionHypothesis =>
      simp only [postPieces, List.length_cons]
      rw [inductionHypothesis, each]
      omega

theorem length_cut_pos (max seg off roff : Nat) {len : Nat}
    (some : 0 < len) :
    0 < (cut max seg off roff len).length := by
  obtain ⟨fuel, rfl⟩ : ∃ fuel, len = fuel + 1 := ⟨len - 1, by omega⟩
  simp [cut, pieces]

/-- A guarded part on one link. -/
theorem Core.sends_tbBondWriteN {sys : Sys} {lane roff len : Nat}
    (src : Mem) (off : Nat) (core : Core cfg sys) (plain : sys.Plain cfg)
    (below : lane < cfg.links) (within : roff + len ≤ cfg.remoteLength)
    (flagged : flags = 0 ∨ flags = bondWaitSignals)
    (sigFits : sig < 2 ^ 64)
    (new : NewGuard cfg sys (spreadGuard sig flags wait))
    (clear : Clear sys (Awaits (spreadGuard sig flags wait)) roff
      (roff + len)) :
    let posted := tbBondWriteN (cfg.max lane) tbSeg src (sys.peer.lanes lane)
      off roff len sig wait cfg.links flags
    Sends cfg sys
      (sys.after (sys.peer.setLane lane posted.2)
        (posted.1.map fun posts => (lane, posts)))
      src off roff len (span off len) ∧
    (0 < len → sys.peer.writes lane < posted.2.writesPosted) := by
  intro posted
  have maxPos := cfg.max_pos lane
  have sigPos : sig ≠ 0 := by
    have next : sig = sys.peer.txSignal + 1 := new.next
    omega
  have sends := Core.sends_pieces src (cfg.max lane) tbSeg
    (some (spreadGuard sig flags wait)) (Awaits (spreadGuard sig flags wait))
    (bondPiece src sig cfg.links wait flags) (by omega) (by decide) below
    (fun half piece hasByte fits inside => pieced_bondPiece hasByte
      (fits.trans (cfg.max_le lane)) inside sigPos sigFits flagged)
    (fun entry awaits => Or.inr ⟨_, rfl, awaits⟩)
    len off roff len core plain (Nat.le_refl _) within
    (fun held same => by rw [← Option.some.inj same]; exact new) clear
  refine ⟨⟨sends.core, sends.plain, sends.wrote.mono
    (length_pieces_le maxPos (by decide) (by decide) _ _ _ _)⟩, ?_⟩
  intro hasByte
  have counted := postPieces_writes (bondPiece src sig cfg.links wait flags)
    (fun half piece => rfl) (sys.peer.lanes lane)
    (cut (cfg.max lane) tbSeg off roff len)
  have some := length_cut_pos (cfg.max lane) tbSeg off roff hasByte
  change (sys.peer.lanes lane).writesPosted < (postPieces (bondPiece src sig
    cfg.links wait flags) (sys.peer.lanes lane)
    (cut (cfg.max lane) tbSeg off roff len)).2.writesPosted
  omega

/-- The parts link after link. -/
theorem Core.sends_bondSpread (src : Mem) (sizes : Nat → Nat)
    (flagged : flags = 0 ∨ flags = bondWaitSignals) (sigFits : sig < 2 ^ 64)
    (lanes : List Nat) {sys : Sys} (off roff : Nat) (core : Core cfg sys)
    (plain : sys.Plain cfg) (inBond : ∀ lane ∈ lanes, lane < cfg.links)
    (within : roff + (lanes.map sizes).sum ≤ cfg.remoteLength)
    (new : NewGuard cfg sys (spreadGuard sig flags wait))
    (clear : Clear sys (Awaits (spreadGuard sig flags wait)) roff
      (roff + (lanes.map sizes).sum)) :
    let spread := bondSpread cfg src sig wait flags sizes lanes sys.peer off
      roff
    Sends cfg sys (sys.after spread.1 spread.2) src off roff
      (lanes.map sizes).sum
      ((off + (lanes.map sizes).sum) / 8192 - off / 8192 + lanes.length) ∧
    (∀ lane ∈ lanes, 0 < sizes lane →
      sys.peer.writes lane < spread.1.writes lane) ∧
    spread.1.affinity = sys.peer.affinity := by
  induction lanes generalizing sys off roff with
  | nil =>
      refine ⟨⟨core, plain, ?_⟩, by simp, rfl⟩
      have nothing := Wrote.refl sys src off roff
      exact nothing.mono (Nat.zero_le _)
  | cons lane rest inductionHypothesis =>
      rw [List.map_cons, List.sum_cons] at within clear ⊢
      obtain ⟨first, grown⟩ := Core.sends_tbBondWriteN src off core
        plain (inBond lane (by simp)) (by omega : roff + sizes lane ≤ _)
        flagged sigFits new
        (clear.mono (Nat.le_refl _) (by omega) fun _ allows => allows)
      set posted := tbBondWriteN (cfg.max lane) tbSeg src
        (sys.peer.lanes lane) off roff (sizes lane) sig wait cfg.links flags
        with postedDef
      set middle := sys.after (sys.peer.setLane lane posted.2)
        (posted.1.map fun posts => (lane, posts)) with middleDef
      have ahead : Clear sys (Awaits (spreadGuard sig flags wait))
          (roff + sizes lane) (roff + sizes lane + (rest.map sizes).sum) :=
        clear.mono (by omega) (by omega) fun _ allows => allows
      obtain ⟨others, more, same⟩ := inductionHypothesis
        (off + sizes lane) (roff + sizes lane) first.core first.plain
        (fun other member => inBond other (by simp [member]))
        (by omega) (new.sends first)
        (ahead.wrote first.wrote first.core (Or.inl (Nat.le_refl _)))
      have both := first.trans others
      rw [middleDef, ← Sys.after_append] at both
      have few : span off (sizes lane) ≤
          (off + sizes lane) / 8192 - off / 8192 + 1 := by
        unfold span
        split <;> omega
      refine ⟨⟨both.core, both.plain, both.wrote.mono ?_⟩, ?_, same⟩
      · rw [List.length_cons]
        have assoc : off + (sizes lane + (rest.map sizes).sum) =
          off + sizes lane + (rest.map sizes).sum := by omega
        rw [assoc]
        omega
      · have later := others.wrote.few
        change ∀ other, middle.peer.writes other ≤ _ ∧ _ at later
        intro other member some
        have start : ∀ other, sys.peer.writes other ≤
            middle.peer.writes other := fun other => (first.wrote.few other).1
        rcases List.mem_cons.mp member with rfl | inRest
        · have here : middle.peer.writes other = posted.2.writesPosted := by
            change ((sys.peer.setLane other posted.2).lanes other).writesPosted
              = _
            rw [Peer.setLane_lane]
          have before := grown some
          rw [← here] at before
          exact lt_of_lt_of_le before (later other).1
        · exact lt_of_le_of_lt (start other) (more other inRest some)

end

end Fabric
end Mcdma
