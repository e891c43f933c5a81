import Mcdma.Fabric.Units

/-!
# Carrying a call on

What each stretch of a call does between two points where it may wait: the
invariant and the table stay right, and what it logs together with what is left
of the call has the effect of the call.
-/

namespace Mcdma
namespace Fabric

open Link

/-- The bytes a write brings. -/
def Write.patch (copy : Write) : Patch :=
  ⟨copy.roff, copy.src.read copy.off copy.len⟩

/-- The word a signal stores. -/
def Word.patch (signal : Word) : Patch :=
  ⟨signal.off, word signal.value⟩

/-- The stores a call asks for, in order. -/
def Call.effect : Call → List Patch
  | .write copy => [copy.patch]
  | .signal word => [word.patch]
  | .writeSignal copy word => [copy.patch, word.patch]
  | .flush => []

/-- The words of a call's signal. -/
def Call.words : Call → List Patch
  | .signal word => [word.patch]
  | .writeSignal _ word => [word.patch]
  | _ => []

/-- The word an entry of the log publishes, if it does. -/
def Entry.word? (entry : Entry) : Option Patch :=
  match entry.tag with
  | .published _ => some entry.patch
  | _ => none

namespace Rest

/-- The words what is left of a call still publishes. -/
def words : Rest → List Patch
  | .done => []
  | .prepare _ follow => (follow.map Word.patch).toList
  | .write _ follow => (follow.map Word.patch).toList
  | .signal word => [word.patch]
  | .signalPost word => [word.patch]
  | .writeSignal _ word => [word.patch]
  | .writeSignalPost _ word => [word.patch]

/-- The stores what is left of a call still asks for. -/
def effect : Rest → List Patch
  | .done => []
  | .prepare copy follow => copy.patch :: (follow.map Word.patch).toList
  | .write copy follow => copy.patch :: (follow.map Word.patch).toList
  | .signal word => [word.patch]
  | .signalPost word => [word.patch]
  | .writeSignal copy word => [copy.patch, word.patch]
  | .writeSignalPost copy word => [copy.patch, word.patch]

/-- The most writes one call posts on a link. -/
def perCall : Nat := linkRegionMax * tbSeg / 8192 + tbBondMax

/-- The most writes what is left of a call still posts on a link. -/
def cost : Rest → Nat
  | .done => 0
  | .prepare _ _ => perCall
  | .write _ _ => perCall
  | .signal _ => 0
  | .signalPost _ => 0
  | .writeSignal _ _ => perCall
  | .writeSignalPost _ _ => perCall

/-- A write that may carry a signal's head before its bytes. -/
def Joinable (cfg : Config) (copy : Write) (word : Word) : Prop :=
  copy.len ≠ 0 ∧ wsRoom ≤ copy.off ∧ copy.InBounds cfg ∧ word.InBounds cfg

/-- What holds of the rest of a call also while it waits in a flush. -/
def Static (cfg : Config) (peer : Peer) : Rest → Prop
  | .done => True
  | .prepare copy follow =>
      copy.InBounds cfg ∧ ∀ word, follow = some word → word.InBounds cfg
  | .write copy follow =>
      copy.InBounds cfg ∧ ∀ word, follow = some word → word.InBounds cfg
  | .signal word => word.InBounds cfg
  | .signalPost word => word.InBounds cfg ∧ peer.txSignal + 1 < 2 ^ 64
  | .writeSignal copy word => Joinable cfg copy word
  | .writeSignalPost copy word =>
      Joinable cfg copy word ∧ peer.txSignal + 1 < 2 ^ 64

/-- What the rest of a call relies on when it goes on. -/
def Ready (sys : Sys) : Rest → Prop
  | .done => True
  | .prepare _ _ => True
  | .write copy _ => Clear sys (OnLane sys.peer.affinity) copy.roff
      (copy.roff + copy.len)
  | .signal _ => True
  | .signalPost _ =>
      sys.peer.txSignal + 1 ≤ sys.peer.txFenced + bondSignals
  | .writeSignal _ _ => True
  | .writeSignalPost _ _ =>
      sys.peer.txSignal + 1 ≤ sys.peer.txFenced + bondSignals

end Rest

/-- What is left of the call at the next point. -/
def Next.rest : Next → Rest
  | .go rest => rest
  | .flush rest => rest

/-- The entries a stretch adds to the log, with what is left of the call, have
the effect of what was left before, and publish its words. -/
structure Realizes (epoch : Nat) (entries : List Entry) (rest left : Rest) :
    Prop where
  epoch : ∀ entry ∈ entries, entry.epoch = epoch
  replay : ∀ memory,
    Patch.replay memory (entries.map Entry.patch ++ left.effect) =
      Patch.replay memory rest.effect
  words : entries.filterMap Entry.word? ++ left.words = rest.words

/-- A stretch of a call went well. -/
structure Ran (cfg : Config) (sys after : Sys) (rest : Rest) (next : Next) :
    Prop where
  core : Core cfg after
  cover : Cover cfg after
  affinity : ∀ lane, after.peer.affinity = some lane → lane < cfg.links
  effect : ∃ entries, after.log = sys.log ++ entries ∧
    Realizes sys.epoch entries rest next.rest
  static : next.rest.Static cfg after.peer
  ready : ∀ left, next = .go left → left.Ready after
  fences : ∀ lane, (after.peer.lanes lane).fences =
      (sys.peer.lanes lane).fences ∧
    (after.peer.lanes lane).fenceAcked = (sys.peer.lanes lane).fenceAcked
  out : ∀ lane, ∃ more, after.out lane = sys.out lane ++ more ∧
    ∀ post ∈ more, post.answer? = none
  few : ∀ lane < cfg.links, sys.peer.writes lane ≤ after.peer.writes lane ∧
    after.peer.writes lane + next.rest.cost ≤
      sys.peer.writes lane + rest.cost
  signals : after.peer.txSignal + next.rest.words.length =
    sys.peer.txSignal + rest.words.length
  fenced : after.peer.txFenced = sys.peer.txFenced

section

variable {cfg : Config} {sys : Sys} {oracle : Oracle} {peer : Peer}
variable {batches : List Batch} {next : Next}

theorem within_add {off len limit : Nat} (inside : within off len limit) :
    off + len ≤ limit := by
  obtain ⟨first, second⟩ := inside
  omega

/-- A write inside the window is not cut into more than `perCall` messages. -/
theorem span_le {off len : Nat} (inside : off + len ≤ cfg.winLength) :
    span off len ≤ Rest.perCall := by
  have window := cfg.win_le
  simp only [span, Rest.perCall, linkRegionMax, tbSeg, tbBondMax] at window ⊢
  split <;> omega

theorem Cover.alike (cover : Cover cfg sys) (alike : sys.peer.Alike peer) :
    Cover cfg (sys.withPeer peer) := by
  constructor
  · change peer.table.Names (Named cfg sys peer.writes)
    rw [alike.table, alike.writes]
    exact cover.names
  · change Remembers peer.table sys.log sys.epoch
    rw [alike.table]
    exact cover.remembers

/-- A stretch that posts nothing. -/
theorem Ran.idle {rest : Rest} (core : Core cfg sys) (cover : Cover cfg sys)
    (alike : sys.peer.Alike peer)
    (affinity : ∀ lane, peer.affinity = some lane → lane < cfg.links)
    (effect : next.rest.effect = rest.effect)
    (cost : next.rest.cost = rest.cost)
    (words : next.rest.words = rest.words)
    (static : next.rest.Static cfg peer)
    (ready : ∀ left, next = .go left → left.Ready (sys.withPeer peer)) :
    Ran cfg sys (sys.after peer []) rest next where
  core := core.alike alike
  cover := cover.alike alike
  affinity := affinity
  effect := ⟨[], (List.append_nil _).symm, by simp, fun memory => by
    rw [effect]
    rfl, words⟩
  static := static
  ready := ready
  fences := by
    intro lane
    change (peer.lanes lane).fences = _ ∧ (peer.lanes lane).fenceAcked = _
    rw [alike.lanes]
    exact ⟨rfl, rfl⟩
  out := fun lane => ⟨[], (List.append_nil _).symm, by simp⟩
  few := by
    intro lane _
    change _ ≤ peer.writes lane ∧ peer.writes lane + _ ≤ _
    rw [alike.writes, cost]
    exact ⟨Nat.le_refl _, Nat.le_refl _⟩
  signals := by
    change peer.txSignal + _ = _
    rw [alike.txSignal, words]
  fenced := alike.txFenced

/-- The messages of a write publish nothing. -/
theorem word?_of_parts {epoch roff len : Nat} {before after : Nat → Nat}
    {entries : List Entry}
    (parts : ∀ entry ∈ entries, Part epoch roff len before after entry) :
    entries.filterMap Entry.word? = [] := by
  rw [List.filterMap_eq_nil_iff]
  intro entry member
  obtain ⟨lane, ord, tag, -⟩ := (parts entry member).placed
  rw [Entry.word?, tag]

/-- The stretch before a plain write's first message. -/
theorem ran_prepare {copy : Write} {follow : Option Word} (core : Core cfg sys)
    (cover : Cover cfg sys)
    (static : (Rest.prepare copy follow).Static cfg sys.peer)
    (ran : (Rest.prepare copy follow).run cfg oracle sys.peer =
      some (peer, batches, next)) :
    Ran cfg sys (sys.after peer batches) (.prepare copy follow) next := by
  simp only [Rest.run, Option.some.injEq, Prod.mk.injEq] at ran
  obtain ⟨rfl, rfl, rfl⟩ := ran
  have alike : sys.peer.Alike
      (bondPrepare cfg sys.peer copy.roff copy.len).1 := by
    unfold bondPrepare
    split <;> exact ⟨rfl, rfl, rfl, rfl⟩
  have inBond : ∀ lane,
      (bondPrepare cfg sys.peer copy.roff copy.len).1.affinity = some lane →
      lane < cfg.links := by
    intro lane has
    unfold bondPrepare at has
    split at has
    · simp at has
    · have member := List.mem_of_getLast? has
      exact List.mem_range.mp (List.mem_filter.mp member).1
  have next : ∀ flush : Bool,
      (if flush = true then Next.flush (.write copy follow)
        else Next.go (.write copy follow)).rest = .write copy follow := by
    intro flush
    cases flush <;> rfl
  refine Ran.idle core cover alike inBond (by rw [next]; rfl)
    (by rw [next]; rfl) (by rw [next]; rfl) (by rw [next]; exact static) ?_
  intro left goes
  split at goes
  · simp at goes
  · next stays =>
      obtain rfl := Next.go.inj goes
      exact cover.clear_bondPrepare core copy.roff copy.len (by simpa using stays)

/-- The stretch that posts a plain write. -/
theorem ran_write {copy : Write} {follow : Option Word} (core : Core cfg sys)
    (cover : Cover cfg sys) (quiet : sys.Quiet cfg)
    (inBond : ∀ lane, sys.peer.affinity = some lane → lane < cfg.links)
    (static : (Rest.write copy follow).Static cfg sys.peer)
    (ready : (Rest.write copy follow).Ready sys)
    (ran : (Rest.write copy follow).run cfg oracle sys.peer =
      some (peer, batches, next)) :
    Ran cfg sys (sys.after peer batches) (.write copy follow) next := by
  obtain ⟨⟨inside, placed⟩, words⟩ := static
  simp only [Rest.run] at ran
  obtain ⟨⟨written, posts⟩, wrote, same⟩ := Option.map_eq_some_iff.mp ran
  obtain ⟨rfl, rfl, rfl⟩ : written = peer ∧ posts = batches ∧
      Next.go (Rest.ofWord follow) = next := by
    simpa using same
  unfold bondWriteLocked at wrote
  obtain ⟨⟨done, batches, last⟩, looped, same⟩ :=
    Option.map_eq_some_iff.mp wrote
  obtain ⟨rfl, rfl⟩ := Prod.mk.inj same
  -- the link may be picked now, if none is prescribed
  set start : Peer :=
    if follow.isSome ∧ copy.len < bondSplit ∧ sys.peer.affinity = none then
      { sys.peer with
        affinity := some (bondPick sys.peer.turn
          (bondLook cfg oracle.look) copy.len).1
        turn := (bondPick sys.peer.turn
          (bondLook cfg oracle.look) copy.len).2 }
    else sys.peer with startDef
  have alike : sys.peer.Alike start := by
    rw [startDef]
    split <;> exact ⟨rfl, rfl, rfl, rfl⟩
  have picked : (bondPick sys.peer.turn (bondLook cfg oracle.look)
      copy.len).1 < cfg.links := by
    have two := cfg.two_le
    unfold bondPick
    dsimp only
    split
    · have below : sys.peer.turn % 2 < 2 := Nat.mod_lt _ (by decide)
      dsimp only
      omega
    · dsimp only
      split <;> omega
  have startBond : ∀ lane, start.affinity = some lane → lane < cfg.links := by
    intro lane has
    rw [startDef] at has
    split at has
    · rw [← Option.some.inj has]
      exact picked
    · exact inBond lane has
  have clear : Clear (sys.withPeer start) (OnLane start.affinity) copy.roff
      (copy.roff + copy.len) := by
    have before : Clear (sys.withPeer start) (OnLane sys.peer.affinity)
      copy.roff (copy.roff + copy.len) := ready
    refine before.mono (Nat.le_refl _) (Nat.le_refl _) ?_
    rintro entry ⟨lane, ord, has, tag⟩
    refine ⟨lane, ord, ?_, tag⟩
    rw [startDef]
    split
    · next free =>
        rw [free.2.2] at has
        simp at has
    · exact has
  have loop := LoopOk.of_alike alike (Core.sends_bondWriteLoop oracle.rounds
    (core.alike alike) quiet.plain startBond (within_add placed) clear looped)
  have sends := loop.sends
  have based : ∀ lane < cfg.links, sys.base lane ≤ sys.peer.writes lane := by
    intro lane below
    have ok := core.lanes lane below
    exact ok.based.trans (ok.placed_le.1.trans ok.placed_le.2)
  have covered := cover.wrote last sends.core sends.wrote
    (fun empty => by simp [span, empty])
    (by
      intro lane _ ord above below
      rcases loop.last lane with ⟨-, still⟩ | ⟨latest, -⟩
      · change ord ≤ done.writes lane at below
        omega
      · rw [latest]
        exact below)
    (by
      intro lane below
      have bound := based lane below
      rcases loop.last lane with ⟨zero, -⟩ | ⟨latest, more⟩
      · exact Or.inl zero
      · right
        rw [latest]
        exact ⟨lt_of_le_of_lt bound more, Nat.le_refl _⟩)
  obtain ⟨entries, log, parts, replay⟩ := sends.wrote.added
  have fewer := span_le (within_add inside)
  exact {
    core := sends.core.same ⟨fun _ => rfl, rfl, rfl, rfl, rfl, rfl, rfl, rfl,
      rfl, rfl⟩
    cover := covered
    affinity := loop.affinity
    effect := by
      refine ⟨entries, log, fun entry member => (parts entry member).epoch, ?_,
        ?_⟩
      · intro memory
        rw [Patch.replay_append, replay]
        cases follow <;> rfl
      · rw [word?_of_parts parts]
        cases follow <;> rfl
    static := by
      cases follow with
      | none => trivial
      | some word => exact words word rfl
    ready := by
      intro left goes
      obtain rfl := Next.go.inj goes
      cases follow <;> trivial
    fences := sends.wrote.fences
    out := sends.wrote.out
    few := by
      intro lane _
      have bound := sends.wrote.few lane
      have free : (Next.go (Rest.ofWord follow)).rest.cost = 0 := by
        cases follow <;> rfl
      rw [free]
      change _ ≤ done.writes lane ∧ done.writes lane + 0 ≤
        _ + Rest.perCall
      change _ ≤ done.writes lane ∧ done.writes lane ≤ _ at bound
      omega
    signals := by
      have same : (Next.go (Rest.ofWord follow)).rest.words =
          (Rest.write copy follow).words := by
        cases follow <;> rfl
      rw [same]
      exact congrArg (· + _) sends.wrote.txSignal
    fenced := sends.wrote.txFenced }

/-- The loop of `bond_signal_locked` posts on one of the links. -/
theorem bondSignalLoop_eq {need : Nat → Nat} {word : Word}
    (passes : List Pass) {start : Peer} (alike : sys.peer.Alike start)
    (same : start.affinity = sys.peer.affinity)
    (ran : bondSignalLoop cfg need word passes start =
      some (peer, batches)) :
    ∃ lane turned, lane < cfg.links ∧ sys.peer.Alike turned ∧
      turned.affinity = sys.peer.affinity ∧
      peer = (turned.setLane lane (tbBondSignalN (sys.peer.lanes lane)
        word.off word.value (sys.peer.txSignal + 1) need
        cfg.links).2).signalled word ∧
      batches = [(lane, (tbBondSignalN (sys.peer.lanes lane) word.off
        word.value (sys.peer.txSignal + 1) need cfg.links).1)] := by
  have links := cfg.two_le
  induction passes generalizing start with
  | nil => simp [bondSignalLoop] at ran
  | cons pass rest inductionHypothesis =>
      rw [bondSignalLoop] at ran
      dsimp only at ran
      have turned : sys.peer.Alike { start with turn := start.turn + 1 } :=
        ⟨alike.lanes, alike.txSignal, alike.txFenced, alike.table⟩
      split at ran
      · exact inductionHypothesis turned same ran
      · next lane found =>
          have below : lane < cfg.links := by
            obtain ⟨step, -, same⟩ :=
              List.mem_map.mp (List.mem_of_find?_eq_some found)
            rw [← same]
            exact Nat.mod_lt _ (by omega)
          obtain ⟨rfl, rfl⟩ := Prod.mk.inj (Option.some.inj ran)
          refine ⟨lane, { start with turn := start.turn + 1 }, below, turned,
            same, ?_, ?_⟩
          · rw [alike.lanes, alike.txSignal]
          · rw [alike.lanes, alike.txSignal]

/-- The stretch that posts a signal. -/
theorem ran_signalPost {word : Word} (core : Core cfg sys)
    (cover : Cover cfg sys) (quiet : sys.Quiet cfg)
    (inBond : ∀ lane, sys.peer.affinity = some lane → lane < cfg.links)
    (static : (Rest.signalPost word).Static cfg sys.peer)
    (ready : (Rest.signalPost word).Ready sys)
    (ran : (Rest.signalPost word).run cfg oracle sys.peer =
      some (peer, batches, next)) :
    Ran cfg sys (sys.after peer batches) (.signalPost word) next := by
  obtain ⟨inBounds, fits⟩ := static
  simp only [Rest.run, bondSignalPost] at ran
  obtain ⟨⟨signalled, posts⟩, looped, same⟩ := Option.map_eq_some_iff.mp ran
  obtain ⟨rfl, rfl, rfl⟩ : signalled = peer ∧ posts = batches ∧
      Next.go .done = next := by
    simpa using same
  obtain ⟨lane, turned, below, alike, kept, rfl, rfl⟩ := bondSignalLoop_eq
    oracle.passes ⟨rfl, rfl, rfl, rfl⟩ rfl looped
  have posting := posting_bondSignalN core quiet below inBounds ready fits
    alike
  have covered := cover.posted core posting (fun _ kept => kept)
    (cover.names.mono (Named.mono rfl posting.writes_le)) (by simp) (by
      change bondFlagged (bondRemember turned.table _ _ _ _) = _
      rw [alike.table])
  set posted := tbBondSignalN (sys.peer.lanes lane) word.off word.value
    (sys.peer.txSignal + 1) (sys.peer.watermarks cfg) cfg.links
  have lanes : ((turned.setLane lane posted.2).signalled word).lanes =
      Function.update sys.peer.lanes lane posted.2 := by
    simp [Peer.signalled, Peer.setLane, alike.lanes]
  exact {
    core := core.posted posting
    cover := covered
    affinity := by
      intro other has
      exact inBond other (kept ▸ has)
    effect := ⟨_, posting.log_posted, by
      intro entry member
      rcases Posting.mem_entries member with ⟨patch, has, -⟩ |
        ⟨carried, -, rfl⟩
      · simp at has
      · rfl, fun memory => rfl, rfl⟩
    static := trivial
    ready := by
      intro left goes
      obtain rfl := Next.go.inj goes
      trivial
    fences := by
      intro other
      change (((turned.setLane lane posted.2).signalled word).lanes
        other).fences = _ ∧ (((turned.setLane lane posted.2).signalled
          word).lanes other).fenceAcked = _
      rw [lanes]
      by_cases here : other = lane
      · subst here
        rw [Function.update_self]
        exact ⟨rfl, rfl⟩
      · rw [Function.update_of_ne here]
        exact ⟨rfl, rfl⟩
    out := by
      intro other
      by_cases here : other = lane
      · subst here
        refine ⟨posted.1, by simp [Sys.after, Sys.withPeer, Sys.emit], ?_⟩
        intro post member
        rw [List.mem_singleton.mp member]
        rfl
      · exact ⟨[], by simp [Sys.after, Sys.withPeer, Sys.emit, here], by simp⟩
    few := by
      intro other _
      have same := congrFun posting.writes_eq other
      refine ⟨posting.writes_le other, ?_⟩
      change ((turned.setLane lane posted.2).signalled word).writes other + 0 ≤
        sys.peer.writes other + 0
      rw [same]
      by_cases here : other = lane
      · subst here
        simp
      · simp [here]
    signals := by
      change turned.txSignal + 1 + 0 = _
      rw [alike.txSignal]
      rfl
    fenced := alike.txFenced }

/-- The checks before a signal. -/
theorem ran_signal {word : Word} (core : Core cfg sys) (cover : Cover cfg sys)
    (inBond : ∀ lane, sys.peer.affinity = some lane → lane < cfg.links)
    (static : (Rest.signal word).Static cfg sys.peer)
    (ran : (Rest.signal word).run cfg oracle sys.peer =
      some (peer, batches, next)) :
    Ran cfg sys (sys.after peer batches) (.signal word) next := by
  have fits := core.signalsFit
  rw [Rest.run] at ran
  split at ran
  · simp at ran
  · next more =>
      obtain ⟨rfl, rfl, rfl⟩ : sys.peer = peer ∧ [] = batches ∧
          (if sys.peer.hasCredit then Next.go (.signalPost word)
            else Next.flush (.signalPost word)) = next := by
        simpa using ran
      have left : (if sys.peer.hasCredit = true then
          Next.go (.signalPost word) else Next.flush (.signalPost word)).rest =
          .signalPost word := by
        split <;> rfl
      refine Ran.idle core cover ⟨rfl, rfl, rfl, rfl⟩ inBond
        (by rw [left]; rfl) (by rw [left]; rfl) (by rw [left]; rfl)
        (by rw [left]; exact ⟨static, by omega⟩) ?_
      intro rest goes
      split at goes
      · next credit =>
          obtain rfl := Next.go.inj goes
          simp only [Peer.hasCredit, decide_eq_true_eq] at credit
          change sys.peer.txSignal + 1 ≤ sys.peer.txFenced + bondSignals
          omega
      · simp at goes

/-- The checks before a write with its signal. -/
theorem ran_writeSignal {copy : Write} {word : Word} (core : Core cfg sys)
    (cover : Cover cfg sys)
    (inBond : ∀ lane, sys.peer.affinity = some lane → lane < cfg.links)
    (static : (Rest.writeSignal copy word).Static cfg sys.peer)
    (ran : (Rest.writeSignal copy word).run cfg oracle sys.peer =
      some (peer, batches, next)) :
    Ran cfg sys (sys.after peer batches) (.writeSignal copy word) next := by
  have fits := core.signalsFit
  rw [Rest.run] at ran
  split at ran
  · simp at ran
  · next more =>
      obtain ⟨rfl, rfl, rfl⟩ : sys.peer = peer ∧ [] = batches ∧
          (if sys.peer.hasCredit then Next.go (.writeSignalPost copy word)
            else Next.flush (.writeSignalPost copy word)) = next := by
        simpa using ran
      have left : (if sys.peer.hasCredit = true then
          Next.go (.writeSignalPost copy word)
          else Next.flush (.writeSignalPost copy word)).rest =
          .writeSignalPost copy word := by
        split <;> rfl
      refine Ran.idle core cover ⟨rfl, rfl, rfl, rfl⟩ inBond
        (by rw [left]; rfl) (by rw [left]; rfl) (by rw [left]; rfl)
        (by rw [left]; exact ⟨static, by omega⟩) ?_
      intro rest goes
      split at goes
      · next credit =>
          obtain rfl := Next.go.inj goes
          simp only [Peer.hasCredit, decide_eq_true_eq] at credit
          change sys.peer.txSignal + 1 ≤ sys.peer.txFenced + bondSignals
          omega
      · simp at goes

end

end Fabric
end Mcdma
