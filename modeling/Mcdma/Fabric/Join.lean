import Mcdma.Fabric.Calls

/-!
# A write and its signal

The stretch of `bond_write_signal_locked` that posts: one joined message on a
two-link bond, one packet, guarded pieces on one link or parts on all of them.
-/

namespace Mcdma
namespace Fabric

open Link

section

variable {cfg : Config} {sys after : Sys} {oracle : Oracle} {peer : Peer}
variable {batches : List Batch} {next : Next} {copy : Write} {word : Word}
variable {lane : Nat}

/-- The write went ahead of its signal. -/
theorem Ran.of_sends {count : Nat} (core : Core cfg sys)
    (cover : Cover cfg sys) (last : Nat → Nat)
    (sends : Sends cfg sys after copy.src copy.off copy.roff copy.len count)
    (nonempty : copy.len ≠ 0) (few : count ≤ Rest.perCall)
    (inBounds : word.InBounds cfg)
    (affinity : ∀ lane, after.peer.affinity = some lane → lane < cfg.links)
    (latest : ∀ lane < cfg.links, ∀ ord, sys.peer.writes lane < ord →
      ord ≤ after.peer.writes lane → ord ≤ last lane)
    (named : ∀ lane < cfg.links, last lane = 0 ∨
      sys.peer.writes lane < last lane ∧ last lane ≤ after.peer.writes lane) :
    Ran cfg sys
      (after.withPeer { after.peer with
        table := bondRemember after.peer.table copy.roff copy.len last false })
      (.writeSignalPost copy word) (.go (.signal word)) := by
  have covered := cover.wrote last sends.core sends.wrote
    (fun empty => absurd empty nonempty) latest (by
      intro lane below
      refine (named lane below).imp_right ?_
      rintro ⟨above, posted⟩
      have ok := core.lanes lane below
      have based := ok.based.trans (ok.placed_le.1.trans ok.placed_le.2)
      exact ⟨lt_of_le_of_lt based above, posted⟩)
  obtain ⟨entries, log, parts, replay⟩ := sends.wrote.added
  exact {
    core := sends.core.same ⟨fun _ => rfl, rfl, rfl, rfl, rfl, rfl, rfl, rfl,
      rfl, rfl⟩
    cover := covered
    affinity := affinity
    effect := by
      refine ⟨entries, log, fun entry member => (parts entry member).epoch, ?_,
        ?_⟩
      · intro memory
        rw [Patch.replay_append, replay]
        rfl
      · rw [word?_of_parts parts]
        rfl
    static := inBounds
    ready := by
      intro left goes
      obtain rfl := Next.go.inj goes
      trivial
    fences := sends.wrote.fences
    out := sends.wrote.out
    few := by
      intro lane _
      have bound := sends.wrote.few lane
      change _ ≤ after.peer.writes lane ∧
        after.peer.writes lane + 0 ≤ _ + Rest.perCall
      omega
    signals := by
      exact congrArg (· + 1) sends.wrote.txSignal
    fenced := sends.wrote.txFenced }

/-- The write and its signal went as one message. -/
theorem Ran.of_joined {post : Post} {need : Nat → Nat} (core : Core cfg sys)
    (posting : Posting cfg sys lane [post] (some copy.patch)
      (some ⟨sys.peer.txSignal + 1, need, word.off, word.value⟩) peer)
    (cover : Cover cfg (sys.posted peer (lane, [post])))
    (affinity : ∀ lane, peer.affinity = some lane → lane < cfg.links)
    (lanes : peer.lanes =
      Function.update sys.peer.lanes lane ((sys.peer.lanes lane).sent 1))
    (silent : post.answer? = none) :
    Ran cfg sys (sys.after peer [(lane, [post])]) (.writeSignalPost copy word)
      (.go .done) where
  core := core.posted posting
  cover := cover
  affinity := affinity
  effect := ⟨_, posting.log_posted, by
    intro entry member
    rcases Posting.mem_entries member with ⟨patch, -, rfl⟩ |
      ⟨carried, -, rfl⟩ <;> rfl, fun memory => rfl, rfl⟩
  static := trivial
  ready := by
    intro left goes
    obtain rfl := Next.go.inj goes
    trivial
  fences := by
    intro other
    change (peer.lanes other).fences = _ ∧ (peer.lanes other).fenceAcked = _
    rw [lanes]
    by_cases here : other = lane
    · subst here
      rw [Function.update_self]
      exact ⟨rfl, rfl⟩
    · rw [Function.update_of_ne here]
      exact ⟨rfl, rfl⟩
  out := by
    intro other
    by_cases here : other = lane
    · subst here
      refine ⟨[post], by simp [Sys.after, Sys.withPeer, Sys.emit], ?_⟩
      intro found member
      rw [List.mem_singleton.mp member]
      exact silent
    · exact ⟨[], by simp [Sys.after, Sys.withPeer, Sys.emit, here], by simp⟩
  few := by
    intro other _
    refine ⟨posting.writes_le other, ?_⟩
    have same := congrFun posting.writes_eq other
    have positive : 1 ≤ Rest.perCall := by decide
    change peer.writes other + 0 ≤ sys.peer.writes other + Rest.perCall
    rw [same]
    by_cases here : other = lane
    · subst here
      simpa using positive
    · simp [here]
  signals := by
    change peer.txSignal + 0 = _
    rw [posting.signals]
    rfl
  fenced := posting.fenced

/-! ## Across the links -/

/-- The flag of a guarded part. -/
theorem flags_cases (signalled : Bool) :
    let flags := if signalled then bondWaitSignals else 0
    (flags = 0 ∨ flags = bondWaitSignals) ∧
      (decide (flags &&& bondWaitSignals ≠ 0) = signalled) := by
  cases signalled <;> exact ⟨by decide, by decide⟩

/-- Everything the table names is awaited by a part across the links. -/
theorem Cover.clear_spread (cover : Cover cfg sys) (core : Core cfg sys)
    (off len : Nat) {flags : Nat}
    (flagged : decide (flags &&& bondWaitSignals ≠ 0) =
      (bondOverlap sys.peer.table off len).2) :
    Clear sys (Awaits (spreadGuard (sys.peer.txSignal + 1) flags
      (bondOverlap sys.peer.table off len).1)) off (off + len) := by
  refine cover.clear core off len ?_ ?_
  · intro entry lane ord tag _ _ named
    rw [Awaits, tag]
    exact named
  · intro entry sig tag posted signalled
    rw [Awaits, tag]
    exact ⟨flagged.trans signalled, Nat.lt_succ_of_le posted⟩

/-- The counts a write leaves on one link are a link's last write. -/
theorem latest_update {links : Nat} {writes writes' : Nat → Nat}
    (others : ∀ other, other ≠ lane → writes' other = writes other) :
    ∀ other < links, ∀ ord, writes other < ord → ord ≤ writes' other →
      ord ≤ Function.update (fun _ => 0) lane (writes' lane) other := by
  intro other _ ord above below
  by_cases here : other = lane
  · subst here
    rw [Function.update_self]
    exact below
  · rw [others other here] at below
    omega

theorem named_update {links : Nat} {writes writes' : Nat → Nat}
    (grown : writes lane < writes' lane) :
    ∀ other < links,
      Function.update (fun _ => 0) lane (writes' lane) other = 0 ∨
        writes other < Function.update (fun _ => 0) lane (writes' lane) other ∧
          Function.update (fun _ => 0) lane (writes' lane) other ≤
            writes' other := by
  intro other _
  by_cases here : other = lane
  · subst here
    rw [Function.update_self]
    exact Or.inr ⟨grown, Nat.le_refl _⟩
  · rw [Function.update_of_ne here]
    exact Or.inl rfl

/-- `bond_parallel`. -/
theorem ran_bondParallel (core : Core cfg sys) (cover : Cover cfg sys)
    (quiet : sys.Quiet cfg)
    (inBond : ∀ lane, sys.peer.affinity = some lane → lane < cfg.links)
    (static : (Rest.writeSignalPost copy word).Static cfg sys.peer)
    (ready : (Rest.writeSignalPost copy word).Ready sys) :
    let posted := bondParallel cfg oracle sys.peer copy word
    Ran cfg sys (sys.after posted.1 posted.2.1) (.writeSignalPost copy word)
      (.go (if posted.2.2 then .done else .signal word)) := by
  intro posted
  obtain ⟨⟨nonempty, -, ⟨inside, placed⟩, inBounds⟩, fits⟩ := static
  have most := cfg.two_le
  set overlap := bondOverlap sys.peer.table copy.roff copy.len with overlapDef
  obtain ⟨flagged, decided⟩ := flags_cases overlap.2
  set flags := if overlap.2 then bondWaitSignals else 0 with flagsDef
  have new : NewGuard cfg sys
      (spreadGuard (sys.peer.txSignal + 1) flags overlap.1) :=
    cover.newGuard core quiet copy.roff copy.len ready rfl
      fun _ _ => Or.inr rfl
  have clear := cover.clear_spread core copy.roff copy.len decided
  have toWindow := within_add placed
  have fromWindow := within_add inside
  by_cases short : copy.len < bondSplit
  · set lane := sys.peer.turn % cfg.links with laneDef
    have below : lane < cfg.links := Nat.mod_lt _ (by omega)
    by_cases packet : copy.len + (48 + cfg.links * 8) ≤ tbPacket
    · -- the write and its signal in one packet
      have mark : sys.peer.watermarks cfg lane = sys.peer.writes lane :=
        if_pos below
      have need : joinedNeed cfg sys.peer lane lane =
          sys.peer.writes lane + 1 := by
        rw [joinedNeed, Function.update_self, mark]
      have bytes : copy.src.read copy.off copy.len ≠ [] :=
        read_ne_nil (Nat.pos_of_ne_zero nonempty)
      obtain ⟨aligned, room, valueFits⟩ := inBounds
      set post : Post := .bondInlineN (sys.peer.lanes lane).txSeq
        ((sys.peer.lanes lane).writesPosted + 1) copy.roff
        (copy.src.read copy.off copy.len) word.off word.value
        (sys.peer.txSignal + 1) cfg.links (joinedNeed cfg sys.peer lane)
        overlap.1 flags with postDef
      obtain ⟨final, same, lanes, txSignal, txFenced, affinity, table⟩ :
          ∃ final : Peer, posted = (final, [(lane, [post])], true) ∧
            final.lanes = Function.update sys.peer.lanes lane
              ((sys.peer.lanes lane).sent 1) ∧
            final.txSignal = sys.peer.txSignal + 1 ∧
            final.txFenced = sys.peer.txFenced ∧
            final.affinity = sys.peer.affinity ∧
            final.table = bondFlagged (bondRemember (bondRemember
              sys.peer.table copy.roff copy.len (Function.update (fun _ => 0)
                lane (joinedNeed cfg sys.peer lane lane)) false)
              word.off 8 (fun _ => 0) true) := by
        refine ⟨posted.1, ?_, ?_, ?_, ?_, ?_, ?_⟩ <;>
          simp only [posted, bondParallel, if_pos short, if_pos packet] <;> rfl
      rw [same]
      have sound : post.Sound cfg.links cfg.remoteLength lane :=
        ⟨rfl, flagged, bytes, by rw [Mem.length_read]; exact packet,
          by rw [Mem.length_read]; exact toWindow, need, aligned,
          within_add room, valueFits, by omega, fits⟩
      have step : post.step (Pos.ofLane (sys.peer.lanes lane)) =
          some (Pos.ofLane ((sys.peer.lanes lane).sent 1)) := by
        simp [postDef, Post.step, Pos.past, Pos.ofLane, Lane.sent]
      have copied : post.copied? lane = some
        ⟨.placed lane (sys.peer.writes lane + 1), copy.patch⟩ := rfl
      have posting := posting_joined core quiet below step sound copied rfl rfl
        new fits (clear.mono (Nat.le_refl _)
          (by simp [Write.patch, Patch.stop]) fun _ awaits => Or.inr awaits)
        lanes txSignal txFenced
      refine Ran.of_joined core posting ?_ (affinity ▸ inBond) lanes rfl
      refine cover.posted_joined core nonempty posting ?_
      rw [← need]
      exact table
    · have same : posted = bondParallel cfg oracle sys.peer copy word := rfl
      simp only [bondParallel, if_pos short, if_neg packet] at same
      rw [same]
      obtain ⟨sends, grown⟩ := Core.sends_tbBondWriteN copy.src copy.off core
        quiet.plain below toWindow flagged fits new clear
      set pieces := tbBondWriteN (cfg.max lane) tbSeg copy.src
        (sys.peer.lanes lane) copy.off copy.roff copy.len
        (sys.peer.txSignal + 1) overlap.1 cfg.links flags
      have kept : (sys.peer.setLane lane pieces.2).Alike
          (({ sys.peer with turn := sys.peer.turn + 1 }).setLane lane
            pieces.2) := ⟨rfl, rfl, rfl, rfl⟩
      have turned := sends.alike kept
      have here : (sys.peer.setLane lane pieces.2).writes lane =
          pieces.2.writesPosted := by
        rw [Peer.writes, Peer.setLane_lane]
      refine Ran.of_sends core cover _ turned nonempty (span_le fromWindow)
        inBounds inBond (latest_update ?_) (named_update ?_)
      · intro other different
        change ((sys.peer.setLane lane pieces.2).lanes other).writesPosted = _
        rw [Peer.setLane_other _ _ different]
        rfl
      · change _ < (sys.peer.setLane lane pieces.2).writes lane
        rw [here]
        exact grown (Nat.pos_of_ne_zero nonempty)
  · have same : posted = bondParallel cfg oracle sys.peer copy word := rfl
    simp only [bondParallel, if_neg short] at same
    rw [same]
    set sizes := bondParts (bondLook cfg oracle.look) cfg.links copy.len
      with sizesDef
    obtain ⟨whole, each⟩ := bondParts_total (bondLook cfg oracle.look)
      cfg.two_le cfg.le_max (Nat.le_of_not_lt short)
    have sum : ((List.range cfg.links).map sizes).sum = copy.len := whole
    obtain ⟨sends, grown, kept⟩ := Core.sends_bondSpread copy.src
      sizes flagged fits (List.range cfg.links) copy.off copy.roff
      core quiet.plain (fun lane member => List.mem_range.mp member)
      (by rw [sum]; exact toWindow) new (by rw [sum]; exact clear)
    rw [sum] at sends
    set spread := bondSpread cfg copy.src (sys.peer.txSignal + 1) overlap.1
      flags sizes (List.range cfg.links) sys.peer copy.off copy.roff
    refine Ran.of_sends core cover (spread.1.watermarks cfg) sends nonempty ?_
      inBounds (by
        intro lane has
        exact inBond lane (kept ▸ has)) ?_ ?_
    · have window := cfg.win_le
      have links := cfg.le_max
      rw [List.length_range]
      simp only [Rest.perCall, linkRegionMax, tbSeg, tbBondMax] at *
      omega
    · intro lane below ord _ posted
      change ord ≤ if lane < cfg.links then spread.1.writes lane else 0
      rw [if_pos below]
      exact posted
    · intro lane below
      right
      change _ < (if lane < cfg.links then spread.1.writes lane else 0) ∧
        (if lane < cfg.links then spread.1.writes lane else 0) ≤ _
      rw [if_pos below]
      exact ⟨grown lane (List.mem_range.mpr below) (each lane below),
        Nat.le_refl _⟩

/-! ## Joined on two links -/

/-- A write too short to be cut goes whole on one of the two links. -/
theorem bondPlan_whole {load : Nat → Load} {turn : Nat} {plan : Plan}
    (short : copy.len < bondSplit)
    (planned : (bondPlan cfg load copy turn).1 = some plan) :
    plan.head < 2 ∧ plan.first = copy.len := by
  have picked : (bondPick turn load copy.len).1 < 2 := by
    unfold bondPick
    dsimp only
    split
    · exact Nat.mod_lt _ (by decide)
    · dsimp only
      split <;> decide
  unfold bondPlan at planned
  dsimp only at planned
  split at planned
  · simp at planned
  · rw [if_neg (Nat.not_le.mpr short)] at planned
    dsimp only at planned
    split at planned
    · rw [← Option.some.inj planned]
      exact ⟨picked, rfl⟩
    · split at planned
      · rw [← Option.some.inj planned]
        refine ⟨?_, rfl⟩
        dsimp only
        omega
      · simp at planned

/-- The planning loop gives up without a trace, or posts the whole write on one
link. -/
theorem bondJoinLoop_eq (short : copy.len < bondSplit) (passes : List Pass)
    {start : Peer} {result : Option (List Batch)}
    (alike : sys.peer.Alike start)
    (same : start.affinity = sys.peer.affinity)
    (ran : bondJoinLoop cfg copy word passes start = some (peer, result)) :
    (result = none ∧ sys.peer.Alike peer ∧
        peer.affinity = sys.peer.affinity) ∨
      ∃ head turned, head < 2 ∧ copy.len + bondWsHead ≤ cfg.max head ∧
        sys.peer.Alike turned ∧ turned.affinity = sys.peer.affinity ∧
        peer = (bondPost cfg turned ⟨head, copy.len⟩ copy word).1 ∧
        result = some (bondPost cfg turned ⟨head, copy.len⟩ copy word).2 := by
  induction passes generalizing start with
  | nil => simp [bondJoinLoop] at ran
  | cons pass rest inductionHypothesis =>
      rw [bondJoinLoop] at ran
      dsimp only at ran
      set turned : Peer := { start with
        turn := (bondPlan cfg (bondLook cfg pass) copy start.turn).2 }
      have turnedAlike : sys.peer.Alike turned :=
        ⟨alike.lanes, alike.txSignal, alike.txFenced, alike.table⟩
      have gaveUp : some (turned, none) = some (peer, result) →
          result = none ∧ sys.peer.Alike peer ∧
            peer.affinity = sys.peer.affinity := by
        intro both
        obtain ⟨rfl, rfl⟩ := Prod.mk.inj (Option.some.inj both)
        exact ⟨rfl, turnedAlike, same⟩
      split at ran
      · exact Or.inl (gaveUp ran)
      · next plan planned =>
          obtain ⟨head, whole⟩ := bondPlan_whole short planned
          split at ran
          · exact Or.inl (gaveUp ran)
          · next fits =>
              rw [Bool.not_eq_false, bondFitsHead, decide_eq_true_eq] at fits
              split at ran
              · exact inductionHypothesis turnedAlike same ran
              · rw [if_neg (fun cut => cut.1 whole.symm),
                  if_neg (fun cut => cut.1 whole.symm)] at ran
                obtain ⟨rfl, rfl⟩ := Prod.mk.inj (Option.some.inj ran)
                right
                have planEq : plan = ⟨plan.head, copy.len⟩ := by
                  rw [← whole]
                refine ⟨plan.head, turned, head, ?_, turnedAlike, same, ?_, ?_⟩
                · rw [whole] at fits
                  omega
                · rw [← planEq]
                · rw [← planEq]

/-- The flags of a joined part. -/
theorem joinedFlags_cases (link signals : Bool) :
    let flags := (if link then bondWaitLink else 0) +
      (if signals then bondWaitSignals else 0)
    flags ≤ bondWaitLink + bondWaitSignals ∧
      (decide (flags &&& bondWaitSignals ≠ 0) = signals) ∧
      (decide (flags &&& bondWaitLink ≠ 0) = link) := by
  cases link <;> cases signals <;> exact ⟨by decide, by decide, by decide⟩

/-- A joined message on a two-link bond. -/
theorem ran_bondPost {head : Nat} {turned : Peer} (core : Core cfg sys)
    (cover : Cover cfg sys) (quiet : sys.Quiet cfg) (two : cfg.links = 2)
    (inBond : ∀ lane, sys.peer.affinity = some lane → lane < cfg.links)
    (static : (Rest.writeSignalPost copy word).Static cfg sys.peer)
    (ready : (Rest.writeSignalPost copy word).Ready sys) (below : head < 2)
    (fitsHead : copy.len + bondWsHead ≤ cfg.max head)
    (alike : sys.peer.Alike turned)
    (kept : turned.affinity = sys.peer.affinity) :
    Ran cfg sys
      (sys.after (bondPost cfg turned ⟨head, copy.len⟩ copy word).1
        (bondPost cfg turned ⟨head, copy.len⟩ copy word).2)
      (.writeSignalPost copy word) (.go .done) := by
  obtain ⟨⟨nonempty, -, ⟨inside, placed⟩, inBounds⟩, fits⟩ := static
  have toWindow := within_add placed
  have headBond : head < cfg.links := two ▸ below
  have maxLe := cfg.max_le head
  set overlap := bondOverlap sys.peer.table copy.roff copy.len with overlapDef
  obtain ⟨flagsLe, onSignals, onLink⟩ :=
    joinedFlags_cases (decide (overlap.1 (1 - head) ≠ 0)) overlap.2
  simp only [decide_eq_true_eq] at flagsLe onSignals onLink
  set flags := (if overlap.1 (1 - head) ≠ 0 then bondWaitLink else 0) +
    (if overlap.2 = true then bondWaitSignals else 0) with flagsDef
  have mark : sys.peer.watermarks cfg head = sys.peer.writes head :=
    if_pos headBond
  have marks : turned.watermarks cfg = sys.peer.watermarks cfg := by
    funext lane
    rw [Peer.watermarks, Peer.watermarks, alike.writes]
  have need : joinedNeed cfg sys.peer head head =
      sys.peer.writes head + 1 := by
    rw [joinedNeed, Function.update_self, mark]
  have bytes : copy.src.read copy.off copy.len ≠ [] :=
    read_ne_nil (Nat.pos_of_ne_zero nonempty)
  obtain ⟨aligned, room, valueFits⟩ := inBounds
  set post : Post := .bondWriteSignal (sys.peer.lanes head).txSeq
    ((sys.peer.lanes head).writesPosted + 1) copy.roff
    (copy.src.read copy.off copy.len) word.off word.value
    (sys.peer.txSignal + 1) (joinedNeed cfg sys.peer head) 0 flags
    (overlap.1 (1 - head)) with postDef
  obtain ⟨final, same, lanes, txSignal, txFenced, affinity, table⟩ :
      ∃ final : Peer, bondPost cfg turned ⟨head, copy.len⟩ copy word =
          (final, [(head, [post])]) ∧
        final.lanes = Function.update sys.peer.lanes head
          ((sys.peer.lanes head).sent 1) ∧
        final.txSignal = sys.peer.txSignal + 1 ∧
        final.txFenced = sys.peer.txFenced ∧
        final.affinity = sys.peer.affinity ∧
        final.table = bondFlagged (bondRemember (bondRemember
          sys.peer.table copy.roff copy.len (Function.update (fun _ => 0)
            head (joinedNeed cfg sys.peer head head)) false)
          word.off 8 (fun _ => 0) true) := by
    refine ⟨(bondPost cfg turned ⟨head, copy.len⟩ copy word).1,
      ?_, ?_, ?_, ?_, ?_, ?_⟩ <;>
      simp only [bondPost, Nat.sub_self, marks, alike.lanes,
        alike.txSignal, alike.txFenced, alike.table, kept, Peer.setLane,
        Peer.signalled, tbBondWriteSignal] <;> rfl
  rw [same]
  -- the other link of two, in the receiver's words and in the sender's
  have other : (if head = 0 then 1 else 0) = 1 - head := by
    split <;> omega
  set guard : Guard := ⟨sys.peer.txSignal + 1,
    decide (flags &&& bondWaitSignals ≠ 0), fun lane =>
      if lane = (if head = 0 then 1 else 0) ∧ flags &&& bondWaitLink ≠ 0
      then overlap.1 (1 - head) else 0⟩ with guardDef
  have new : NewGuard cfg sys guard := by
    refine cover.newGuard core quiet copy.roff copy.len ready rfl ?_
    intro lane _
    rw [guardDef, other]
    dsimp only
    split
    · next waits =>
        right
        rw [waits.1]
    · exact Or.inl rfl
  have clear : Clear sys (fun entry => (∃ ord, entry.tag = .placed head ord) ∨
      Awaits guard entry) copy.roff (copy.roff + copy.len) := by
    refine cover.clear core copy.roff copy.len ?_ ?_
    · intro entry lane ord tag inLinks positive named
      by_cases here : lane = head
      · subst here
        exact Or.inl ⟨ord, tag⟩
      · right
        have opposite : lane = 1 - head := by omega
        rw [← overlapDef] at named
        subst opposite
        have waits : flags &&& bondWaitLink ≠ 0 := by
          have named' : overlap.1 (1 - head) ≠ 0 := by omega
          simpa [named'] using onLink
        rw [Awaits, tag, guardDef, other]
        dsimp only
        rw [if_pos ⟨rfl, waits⟩]
        exact named
    · intro entry sig tag posted signalled
      right
      rw [Awaits, tag]
      exact ⟨onSignals.trans signalled, Nat.lt_succ_of_le posted⟩
  have sound : post.Sound cfg.links cfg.remoteLength head :=
    ⟨two, rfl, flagsLe, bytes, by rw [Mem.length_read]; omega,
      by rw [Mem.length_read]; exact toWindow, need, aligned,
      within_add room, valueFits, by omega, fits⟩
  have step : post.step (Pos.ofLane (sys.peer.lanes head)) =
      some (Pos.ofLane ((sys.peer.lanes head).sent 1)) := by
    simp [postDef, Post.step, Pos.past, Pos.ofLane, Lane.sent]
  have copied : post.copied? head = some
    ⟨.placed head (sys.peer.writes head + 1), copy.patch⟩ := rfl
  have posting := posting_joined core quiet headBond step sound copied rfl rfl
    new fits (clear.mono (Nat.le_refl _)
      (by simp [Write.patch, Patch.stop]) fun _ allows => allows)
    lanes txSignal txFenced
  refine Ran.of_joined core posting ?_ (affinity ▸ inBond) lanes rfl
  refine cover.posted_joined core nonempty posting ?_
  rw [← need]
  exact table

/-- The stretch that posts a write and its signal. -/
theorem ran_writeSignalPost (core : Core cfg sys) (cover : Cover cfg sys)
    (quiet : sys.Quiet cfg)
    (inBond : ∀ lane, sys.peer.affinity = some lane → lane < cfg.links)
    (static : (Rest.writeSignalPost copy word).Static cfg sys.peer)
    (ready : (Rest.writeSignalPost copy word).Ready sys)
    (ran : (Rest.writeSignalPost copy word).run cfg oracle sys.peer =
      some (peer, batches, next)) :
    Ran cfg sys (sys.after peer batches) (.writeSignalPost copy word) next := by
  rw [Rest.run] at ran
  split at ran
  · obtain ⟨rfl, rfl, rfl⟩ : (bondParallel cfg oracle sys.peer copy word).1 =
        peer ∧ (bondParallel cfg oracle sys.peer copy word).2.1 = batches ∧
        Next.go (if (bondParallel cfg oracle sys.peer copy word).2.2 then
          .done else .signal word) = next := by
      simpa using ran
    exact ran_bondParallel core cover quiet inBond static ready
  · next joins =>
      push Not at joins
      have two : cfg.links = 2 := le_antisymm joins.1 cfg.two_le
      obtain ⟨⟨joined, result⟩, looped, same⟩ :=
        Option.map_eq_some_iff.mp ran
      rcases bondJoinLoop_eq joins.2 oracle.passes ⟨rfl, rfl, rfl, rfl⟩ rfl
          looped with ⟨rfl, alike, kept⟩ | ⟨head, turned, below, fits, alike,
            kept, rfl, rfl⟩
      · obtain ⟨rfl, rfl, rfl⟩ : joined = peer ∧ [] = batches ∧
            Next.go (.prepare copy (some word)) = next := by
          simpa using same
        obtain ⟨⟨-, -, inside, inBounds⟩, -⟩ := static
        refine Ran.idle core cover alike (kept ▸ inBond) rfl rfl rfl ?_ ?_
        · refine ⟨inside, ?_⟩
          intro found has
          rw [← Option.some.inj has]
          exact inBounds
        · intro left goes
          obtain rfl := Next.go.inj goes
          trivial
      · obtain ⟨rfl, rfl, rfl⟩ :
            (bondPost cfg turned ⟨head, copy.len⟩ copy word).1 = peer ∧
            (bondPost cfg turned ⟨head, copy.len⟩ copy word).2 = batches ∧
            Next.go .done = next := by
          simpa using same
        exact ran_bondPost core cover quiet two inBond static ready below fits
          alike kept

end

/-- Every stretch of a call goes well. -/
theorem ran_run {cfg : Config} {sys : Sys} {oracle : Oracle} {peer : Peer}
    {batches : List Batch} {next : Next} {rest : Rest} (core : Core cfg sys)
    (cover : Cover cfg sys) (quiet : sys.Quiet cfg)
    (inBond : ∀ lane, sys.peer.affinity = some lane → lane < cfg.links)
    (static : rest.Static cfg sys.peer) (ready : rest.Ready sys)
    (ran : rest.run cfg oracle sys.peer = some (peer, batches, next)) :
    Ran cfg sys (sys.after peer batches) rest next := by
  cases rest with
  | done => simp [Rest.run] at ran
  | prepare copy follow => exact ran_prepare core cover static ran
  | write copy follow => exact ran_write core cover quiet inBond static ready ran
  | signal word => exact ran_signal core cover inBond static ran
  | signalPost word =>
      exact ran_signalPost core cover quiet inBond static ready ran
  | writeSignal copy word => exact ran_writeSignal core cover inBond static ran
  | writeSignalPost copy word =>
      exact ran_writeSignalPost core cover quiet inBond static ready ran

end Fabric
end Mcdma
