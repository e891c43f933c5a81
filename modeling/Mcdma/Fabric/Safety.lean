import Mcdma.Fabric.Flush

/-!
# The invariant in every run

Every step of a bond keeps the whole invariant, as long as the counts that
messages carry stay close to those of the receiver.
-/

namespace Mcdma
namespace Fabric

open Link

/-- What is left of the call the sender is in. -/
def Pc.rest : Pc → Rest
  | .run rest => rest
  | .flush _ rest => rest
  | .fence _ _ rest => rest

/-- Everything that holds of a bond in every run. -/
structure Inv (cfg : Config) (sys : Sys) : Prop where
  core : Core cfg sys
  cover : Cover cfg sys
  affinity : ∀ lane, sys.peer.affinity = some lane → lane < cfg.links
  flow : FlowOk cfg sys
  static : sys.pc.rest.Static cfg sys.peer
  ready : ∀ rest, sys.pc = .run rest → rest.Ready sys
  effect : ∀ memory,
    Patch.replay memory (sys.log.map Entry.patch ++ sys.pc.rest.effect) =
      Patch.replay memory (sys.calls.flatMap Call.effect)
  words : sys.log.filterMap Entry.word? ++ sys.pc.rest.words =
    sys.calls.flatMap Call.words

section

variable {cfg : Config} {sys final : Sys} {lane : Nat}

/-! ## The first state -/

theorem core_init (cfg : Config) : Core cfg (Sys.init cfg) where
  lanes := by
    intro lane below
    refine ⟨⟨⟨0, 0, none⟩, ⟨rfl, rfl, by decide, rfl, fun _ => rfl, by simp⟩,
      rfl, rfl⟩, rfl, ?_, ?_, Nat.le_refl _⟩
    · simp [Sys.queue, Sys.init]
    · simp [Sys.queued, Sys.queue, Sys.init]
  history := by
    refine ⟨by simp [Sys.init], by simp [Sys.init], by simp [Sys.init],
      by simp [Sys.init], ?_, ?_, ?_⟩
    · intro first second before
      exact absurd before (not_before_nil first second)
    · intro first second before
      exact absurd before (not_before_nil first second)
    · intro sig positive small
      change sig ≤ 0 at small
      omega
  ledger := by
    refine ⟨by simp [Sys.init], by simp [Sys.init, Sys.trace],
      by simp [Sys.init, Sys.trace], ?_, rfl, ?_, ?_, rfl, rfl⟩
    · intro first second ordered
      exact absurd ordered.1 (not_before_nil first second)
    · intro slot _ occupied
      exact absurd rfl occupied
    · refine ⟨by simp [Sys.init, Sys.bond], ?_⟩
      simp [Sys.init, Sys.bond, Bond.occupied]
  drained := by
    rintro ⟨seq, -⟩
    simp [Sys.init, Sys.bond] at seq
  window := rfl
  tails := ⟨rfl, rfl⟩
  fenced := by simp [Sys.init, Sys.bond]
  credit := Nat.zero_le _
  signalsFit := by simp [Sys.init]
  guards := by simp [Sys.queue, Sys.init]
  carried := by simp [Sys.queue, Sys.init]
  pendingLeft := by
    intro slot _ occupied
    exact absurd rfl occupied
  complete := by simp [Sys.init]
  upcoming := by simp [Sys.queued, Sys.queue, Sys.init]
  exclusive := by simp [Sys.queued, Sys.queue, Sys.init]
  depends := by simp [Sys.init]
  epochs := by simp [Sys.init]
  settled := by simp [Sys.init]

theorem inv_init (cfg : Config) : Inv cfg (Sys.init cfg) where
  core := core_init cfg
  cover := by
    refine ⟨⟨?_, ?_⟩, ⟨?_, ?_, ?_⟩⟩ <;> simp [Sys.init]
  affinity := by simp [Sys.init]
  flow := by
    intro lane below
    exact ⟨by simp [Sys.queue, Sys.init], rfl, rfl⟩
  static := trivial
  ready := by
    intro rest same
    obtain rfl := Pc.run.inj same
    trivial
  effect := fun memory => rfl
  words := rfl

/-! ## Steps of the links -/

/-- What a call relies on stays true while the links work. -/
theorem Rest.Ready.mono {rest : Rest} (ready : rest.Ready sys)
    (log : final.log = sys.log)
    (affinity : final.peer.affinity = sys.peer.affinity)
    (txSignal : final.peer.txSignal = sys.peer.txSignal)
    (txFenced : final.peer.txFenced = sys.peer.txFenced)
    (applied : ∀ entry, Applied sys.bond entry → Applied final.bond entry) :
    rest.Ready final := by
  cases rest with
  | write copy follow =>
      intro first logged patch lower upper conflict
      rw [log] at logged conflict
      rw [affinity]
      exact (ready first logged patch lower upper conflict).imp_left
        (applied first)
  | signalPost word =>
      change _ ≤ _ at ready ⊢
      rw [txSignal, txFenced]
      exact ready
  | writeSignalPost copy word =>
      change _ ≤ _ at ready ⊢
      rw [txSignal, txFenced]
      exact ready
  | _ => trivial

theorem Rest.Static.congr {rest : Rest} {peer other : Peer}
    (static : rest.Static cfg peer) (txSignal : other.txSignal = peer.txSignal) :
    rest.Static cfg other := by
  cases rest <;> simp only [Rest.Static, txSignal] at static ⊢
  all_goals exact static

/-- A step that leaves the sender, its log and its calls alone. -/
theorem Inv.link (inv : Inv cfg sys) (core : Core cfg final)
    (flow : FlowOk cfg final) (pc : final.pc = sys.pc)
    (log : final.log = sys.log) (calls : final.calls = sys.calls)
    (epoch : final.epoch = sys.epoch) (base : final.base = sys.base)
    (writes : final.peer.writes = sys.peer.writes)
    (table : final.peer.table = sys.peer.table)
    (affinity : final.peer.affinity = sys.peer.affinity)
    (txSignal : final.peer.txSignal = sys.peer.txSignal)
    (txFenced : final.peer.txFenced = sys.peer.txFenced)
    (applied : ∀ entry, Applied sys.bond entry → Applied final.bond entry) :
    Inv cfg final where
  core := core
  cover := by
    constructor
    · rw [table, writes]
      exact inv.cover.names.mono (Named.mono base fun _ => Nat.le_refl _)
    · rw [table, log, epoch]
      exact inv.cover.remembers
  affinity := by
    rw [affinity]
    exact inv.affinity
  flow := flow
  static := by
    rw [pc]
    exact inv.static.congr txSignal
  ready := by
    intro rest same
    rw [pc] at same
    exact (inv.ready rest same).mono log affinity txSignal txFenced applied
  effect := by
    rw [pc, log, calls]
    exact inv.effect
  words := by
    rw [pc, log, calls]
    exact inv.words

theorem Inv.transmit (inv : Inv cfg sys) (below : lane < cfg.links)
    (stepped : sys.transmit lane = some final) : Inv cfg final := by
  have core := inv.core.transmit below stepped
  obtain ⟨post, rest, next, out, -, -, rfl⟩ :=
    inv.core.transmit_cases below stepped
  refine inv.link core ?_ rfl rfl rfl rfl rfl rfl rfl rfl rfl rfl
    fun _ made => made
  refine inv.flow.congr rfl ?_ rfl rfl
  funext other
  by_cases here : other = lane
  · subst here
    simp [Sys.queue, out]
  · simp [Sys.queue, here]

theorem Inv.take (inv : Inv cfg sys) (near : sys.Near cfg)
    (below : lane < cfg.links) {now : Nat} {reply : Reply} {result : Taken}
    (stepped : sys.take cfg lane now reply = some (final, result)) :
    Inv cfg final := by
  have core := inv.core.take near below stepped
  obtain ⟨post, rest, pos, next, wire, -, -, -, outcome⟩ :=
    inv.core.take_cases below stepped
  rcases outcome with ⟨after, -, -, takes, -, rfl⟩ | ⟨after, waits, -, -, rfl⟩
  · refine inv.link core (inv.flow.popped below wire) rfl rfl rfl rfl rfl rfl
      rfl rfl rfl rfl ?_
    intro entry made
    have effect := inv.core.effect below wire
    rw [← takes.bond] at effect
    exact effect.applied made
  · refine inv.link core (inv.flow.congr rfl rfl rfl rfl) rfl rfl rfl rfl rfl
      rfl rfl rfl rfl rfl ?_
    intro entry made
    change Applied after.bond entry
    rw [waits.bond]
    exact made

theorem Inv.ack (inv : Inv cfg sys) (below : lane < cfg.links)
    (stepped : sys.ack lane = some final) : Inv cfg final := by
  have flow := inv.flow.ack below stepped
  unfold Sys.ack at stepped
  split at stepped
  · simp at stepped
  · next value rest back =>
      obtain rfl := Option.some.inj stepped
      have lanes : ∀ other, Pos.ofLane ((sys.peer.setLane lane
          { sys.peer.lanes lane with
            fenceAcked := value % 2 ^ 32 }).lanes other) =
          Pos.ofLane (sys.peer.lanes other) := by
        intro other
        by_cases here : other = lane
        · subst here
          rw [Peer.setLane_lane]
          rfl
        · rw [Peer.setLane_other _ _ here]
      have same : sys.Same { sys with
          acks := Function.update sys.acks lane rest
          peer := sys.peer.setLane lane
            { sys.peer.lanes lane with fenceAcked := value % 2 ^ 32 } } :=
        ⟨lanes, rfl, rfl, rfl, rfl, rfl, rfl, rfl, rfl, rfl⟩
      exact inv.link (inv.core.same same) flow rfl rfl rfl rfl rfl same.writes
        rfl rfl rfl rfl fun _ made => made

/-! ## Steps of the sender -/

/-- The sender enters a call. -/
theorem Inv.call {call : Call} (inv : Inv cfg sys)
    (idle : sys.pc = .run .done) (inBounds : call.InBounds cfg) :
    Inv cfg { sys with pc := call.start, calls := sys.calls ++ [call] } where
  core := inv.core.same ⟨fun _ => rfl, rfl, rfl, rfl, rfl, rfl, rfl, rfl, rfl,
    rfl⟩
  cover := ⟨inv.cover.names, inv.cover.remembers⟩
  affinity := inv.affinity
  flow := by
    have settled : ∀ lane < cfg.links, Settled sys lane := by
      have flow := inv.flow
      rw [FlowOk, idle] at flow
      exact flow
    have moved : ∀ lane < cfg.links, Settled { sys with
        pc := call.start, calls := sys.calls ++ [call] } lane :=
      fun lane below => ⟨(settled lane below).queue,
        (settled lane below).acks, (settled lane below).acked⟩
    cases call with
    | write copy => exact moved
    | signal word => exact moved
    | writeSignal copy word =>
        unfold FlowOk
        by_cases empty : copy.len = 0
        · simp only [Call.start, if_pos empty]
          simpa only [Call.start, if_pos empty] using moved
        · simp only [Call.start, if_neg empty]
          simpa only [Call.start, if_neg empty] using moved
    | flush => exact ⟨moved, fun other earlier => absurd earlier (by simp)⟩
  static := by
    cases call with
    | write copy => exact ⟨inBounds, by simp⟩
    | signal word => exact inBounds
    | writeSignal copy word =>
        obtain ⟨room, inside, isWord⟩ := inBounds
        by_cases empty : copy.len = 0
        · simp only [Call.start, if_pos empty]
          exact isWord
        · simp only [Call.start, if_neg empty]
          exact ⟨empty, room empty, inside, isWord⟩
    | flush => trivial
  ready := by
    intro rest same
    cases call with
    | write copy =>
        obtain rfl := Pc.run.inj same
        trivial
    | signal word =>
        obtain rfl := Pc.run.inj same
        trivial
    | writeSignal copy word =>
        by_cases empty : copy.len = 0
        · simp only [Call.start, if_pos empty, Pc.run.injEq] at same
          subst same
          trivial
        · simp only [Call.start, if_neg empty, Pc.run.injEq] at same
          subst same
          trivial
    | flush => simp [Call.start] at same
  effect := by
    intro memory
    have before := inv.effect memory
    rw [idle] at before
    change Patch.replay memory (sys.log.map Entry.patch ++
      call.start.rest.effect) = Patch.replay memory
        ((sys.calls ++ [call]).flatMap Call.effect)
    rw [List.flatMap_append, Patch.replay_append, Patch.replay_append,
      ← before, Patch.replay_append, List.flatMap_cons, List.flatMap_nil,
      List.append_nil]
    cases call with
    | writeSignal copy word =>
        by_cases empty : copy.len = 0
        · -- no bytes: the signal alone
          simp only [Call.start, if_pos empty, Pc.rest, Rest.effect,
            Call.effect, Patch.replay, List.foldl_cons, List.foldl_nil]
          rw [Write.patch, empty]
          simp only [Mem.read, List.range_zero, List.map_nil]
          rw [Patch.apply_nil]
        · simp only [Call.start, if_neg empty]
          rfl
    | _ => rfl
  words := by
    have before := inv.words
    rw [idle] at before
    change sys.log.filterMap Entry.word? ++ call.start.rest.words =
      (sys.calls ++ [call]).flatMap Call.words
    rw [List.flatMap_append, ← before, List.append_assoc]
    cases call with
    | writeSignal copy word =>
        by_cases empty : copy.len = 0
        · simp only [Call.start, if_pos empty]
          rfl
        · simp only [Call.start, if_neg empty]
          rfl
    | _ => rfl

/-- Posting changes neither what is on its way nor the calls. -/
theorem Sys.foldl_emit (batches : List Batch) (sys : Sys) :
    (batches.foldl Sys.emit sys).acks = sys.acks ∧
      (batches.foldl Sys.emit sys).wire = sys.wire ∧
      (batches.foldl Sys.emit sys).calls = sys.calls ∧
      (batches.foldl Sys.emit sys).base = sys.base := by
  induction batches generalizing sys with
  | nil => exact ⟨rfl, rfl, rfl, rfl⟩
  | cons batch others inductionHypothesis =>
      exact inductionHypothesis (sys.emit batch)

/-- The sender carries its call on. -/
theorem Inv.run {rest : Rest} {oracle : Oracle} {peer : Peer}
    {batches : List Batch} {next : Next} (inv : Inv cfg sys)
    (quiet : sys.Quiet cfg) (stands : sys.pc = .run rest)
    (ran : rest.run cfg oracle sys.peer = some (peer, batches, next)) :
    Inv cfg { sys.after peer batches with pc := next.pc } := by
  have static := inv.static
  rw [stands] at static
  have went := ran_run inv.core inv.cover quiet inv.affinity static
    (inv.ready rest stands) ran
  have same : ∀ {pc : Pc}, (sys.after peer batches).Same
      { sys.after peer batches with pc := pc } :=
    ⟨fun _ => rfl, rfl, rfl, rfl, rfl, rfl, rfl, rfl, rfl, rfl⟩
  have left : next.pc.rest = next.rest := by
    cases next <;> rfl
  obtain ⟨acks, wire, calls, -⟩ := Sys.foldl_emit batches sys
  have settled : ∀ lane < cfg.links, Settled sys lane := by
    have flow := inv.flow
    rw [FlowOk, stands] at flow
    exact flow
  have moved : ∀ lane < cfg.links, Settled (sys.after peer batches) lane := by
    intro lane below
    refine (settled lane below).congr ?_ (congrFun acks lane)
      (went.fences lane).1 (went.fences lane).2
    intro post member
    obtain ⟨more, out, plain⟩ := went.out lane
    rw [Sys.queue, out] at member
    change post ∈ (batches.foldl Sys.emit sys).wire lane ++ _ at member
    rw [wire, ← List.append_assoc] at member
    rcases List.mem_append.mp member with old | new
    · exact Or.inl old
    · exact Or.inr (plain post new)
  obtain ⟨entries, log, -, replay, words⟩ := went.effect
  refine ⟨went.core.same same, ⟨went.cover.names, went.cover.remembers⟩,
    went.affinity, ?_, ?_, ?_, ?_, ?_⟩
  · cases next with
    | go rest => exact fun lane below => ⟨(moved lane below).queue,
        (moved lane below).acks, (moved lane below).acked⟩
    | flush rest => exact ⟨fun lane below => ⟨(moved lane below).queue,
        (moved lane below).acks, (moved lane below).acked⟩,
        fun other earlier => absurd earlier (by simp)⟩
  · change Rest.Static cfg _ next.pc.rest
    rw [left]
    exact went.static
  · intro rest same
    cases next with
    | go onward =>
        obtain rfl := Pc.run.inj same
        exact (went.ready onward rfl).mono rfl rfl rfl rfl fun _ made => made
    | flush onward => simp [Next.pc] at same
  · intro memory
    have before := inv.effect memory
    change Patch.replay memory ((sys.after peer batches).log.map Entry.patch ++
      next.pc.rest.effect) = Patch.replay memory
        ((batches.foldl Sys.emit sys).calls.flatMap Call.effect)
    rw [left, log, calls, ← before, stands, List.map_append, List.append_assoc,
      Patch.replay_append memory _ (entries.map Entry.patch ++ _), replay,
      ← Patch.replay_append]
  · have before := inv.words
    change (sys.after peer batches).log.filterMap Entry.word? ++
      next.pc.rest.words = (batches.foldl Sys.emit sys).calls.flatMap Call.words
    rw [left, log, calls, ← before, stands, List.filterMap_append,
      List.append_assoc, words]

/-- The sender asks a link for an answer. -/
theorem posting_fence (sys : Sys) (below : lane < cfg.links) :
    Posting cfg sys lane (tbFence (sys.peer.lanes lane)).1 none none
      (sys.peer.setLane lane (tbFence (sys.peer.lanes lane)).2) where
  below := below
  walked := by
    rw [Peer.setLane_lane]
    simp [tbFence, walk, Post.step, Pos.past, Pos.ofLane, Lane.sent]
  others := by
    intro other different
    rw [Peer.setLane_other _ _ different]
  sound := by
    intro post member
    rw [List.mem_singleton.mp member]
    exact Nat.mod_lt _ (by decide)
  stores := rfl
  counted := by
    rw [Peer.writes, Peer.setLane_lane]
    rfl
  signals := rfl
  fenced := rfl
  numbers := by simp [tbFence, Post.ord?]
  guarded := by simp [tbFence, Post.guard?]
  carries := by simp [tbFence, Post.carried?]
  signalled := by simp
  ordered := by simp

theorem Inv.ask {rest : Rest} (inv : Inv cfg sys)
    (stands : sys.pc = .flush lane rest) (below : lane < cfg.links) :
    Inv cfg { sys.emit (lane, (tbFence (sys.peer.lanes lane)).1) with
      peer := sys.peer.setLane lane (tbFence (sys.peer.lanes lane)).2
      pc := .fence lane (tbFence (sys.peer.lanes lane)).2.fences rest } := by
  have posting := posting_fence sys below
  have log : (sys.posted (sys.peer.setLane lane
      (tbFence (sys.peer.lanes lane)).2)
      (lane, (tbFence (sys.peer.lanes lane)).1)).log = sys.log := by
    rw [posting.log_posted]
    exact List.append_nil _
  have writes : (sys.peer.setLane lane
      (tbFence (sys.peer.lanes lane)).2).writes = sys.peer.writes := by
    rw [posting.writes_eq]
    exact Function.update_eq_self lane _
  have flow := inv.flow
  rw [FlowOk, stands] at flow
  obtain ⟨settled, empty⟩ := flow
  have queue := Posting.queue_posted sys (sys.peer.setLane lane
    (tbFence (sys.peer.lanes lane)).2) lane (tbFence (sys.peer.lanes lane)).1
  refine ⟨(inv.core.posted posting).same ⟨fun _ => rfl, rfl, rfl, rfl, rfl,
    rfl, rfl, rfl, rfl, rfl⟩, ⟨?_, ?_⟩, inv.affinity, ?_, ?_, ?_, ?_, ?_⟩
  · change sys.peer.table.Names (Named cfg sys (sys.peer.setLane lane
      (tbFence (sys.peer.lanes lane)).2).writes)
    rw [writes]
    exact inv.cover.names
  · change Remembers sys.peer.table (sys.posted (sys.peer.setLane lane
      (tbFence (sys.peer.lanes lane)).2)
      (lane, (tbFence (sys.peer.lanes lane)).1)).log sys.epoch
    rw [log]
    exact inv.cover.remembers
  · refine ⟨below, ?_, Nat.mod_lt _ (by decide), ?_, ?_, ?_⟩
    · change ((sys.peer.setLane lane _).lanes lane).fences = _
      rw [Peer.setLane_lane]
    · intro other inBond different
      refine (settled other inBond).congr ?_ rfl ?_ ?_
      · intro post member
        left
        have same := queue other
        rw [if_neg different, List.append_nil] at same
        rw [← same]
        exact member
      · change ((sys.peer.setLane lane _).lanes other).fences = _
        rw [Peer.setLane_other _ _ different]
      · change ((sys.peer.setLane lane _).lanes other).fenceAcked = _
        rw [Peer.setLane_other _ _ different]
    · intro other earlier
      have same := queue other
      rw [if_neg (Nat.ne_of_lt earlier), List.append_nil] at same
      exact same.trans (empty other earlier (earlier.trans below))
    · have same := queue lane
      rw [if_pos rfl] at same
      refine .asked (sys.queue lane) _ same (settled lane below).queue
        (settled lane below).acks ?_
      change (((sys.peer.setLane lane _).lanes lane).fenceAcked + 1) % 2 ^ 32 = _
      rw [Peer.setLane_lane]
      change ((sys.peer.lanes lane).fenceAcked + 1) % 2 ^ 32 = _
      rw [(settled lane below).acked]
      rfl
  · have static := inv.static
    rw [stands] at static
    exact static.congr rfl
  · intro other same
    simp at same
  · intro memory
    have before := inv.effect memory
    rw [stands] at before
    change Patch.replay memory ((sys.posted (sys.peer.setLane lane
      (tbFence (sys.peer.lanes lane)).2)
      (lane, (tbFence (sys.peer.lanes lane)).1)).log.map Entry.patch ++
        rest.effect) = _
    rw [log]
    exact before
  · have before := inv.words
    rw [stands] at before
    change (sys.posted (sys.peer.setLane lane
      (tbFence (sys.peer.lanes lane)).2)
      (lane, (tbFence (sys.peer.lanes lane)).1)).log.filterMap Entry.word? ++
        rest.words = _
    rw [log]
    exact before

/-- A link has answered. -/
theorem Inv.heard {mine : Nat} {rest : Rest} (inv : Inv cfg sys)
    (stands : sys.pc = .fence lane mine rest)
    (met : 0 ≤ diff32 (sys.peer.lanes lane).fenceAcked mine) :
    Inv cfg { sys with pc := .flush (lane + 1) rest } := by
  have flow := inv.flow
  rw [FlowOk, stands] at flow
  obtain ⟨empty, silent, acked⟩ := flow.fencing.heard_of met
  refine ⟨inv.core.same ⟨fun _ => rfl, rfl, rfl, rfl, rfl, rfl, rfl, rfl, rfl,
    rfl⟩, ⟨inv.cover.names, inv.cover.remembers⟩, inv.affinity, ⟨?_, ?_⟩, ?_,
    ?_, ?_, ?_⟩
  · intro other inBond
    by_cases here : other = lane
    · subst here
      refine ⟨?_, silent, acked.trans flow.number.symm⟩
      intro post member
      change post ∈ sys.queue other at member
      simp [empty] at member
    · have held := flow.others other inBond here
      exact ⟨held.queue, held.acks, held.acked⟩
  · intro other earlier inBond
    rcases Nat.lt_succ_iff_lt_or_eq.mp earlier with before | here
    · exact flow.done other before
    · subst here
      exact empty
  · have static := inv.static
    rw [stands] at static
    exact static.congr rfl
  · intro other same
    simp at same
  · intro memory
    have before := inv.effect memory
    rw [stands] at before
    exact before
  · have before := inv.words
    rw [stands] at before
    exact before

/-- Every link has answered. -/
theorem Inv.flushed {rest : Rest} (inv : Inv cfg sys)
    (stands : sys.pc = .flush lane rest) (last : cfg.links ≤ lane) :
    Inv cfg { sys with
      peer := { sys.peer with
        table := {}
        txFenced := sys.peer.txSignal }
      pc := .run rest
      epoch := sys.epoch + 1
      base := sys.peer.writes } := by
  have flow := inv.flow
  rw [FlowOk, stands] at flow
  obtain ⟨settled, done⟩ := flow
  have empty : ∀ other < cfg.links, sys.queue other = [] :=
    fun other below => done other (below.trans_le last) below
  have applied := (inv.core.all_applied empty).1
  refine ⟨inv.core.flushed empty (.run rest) {}, ⟨⟨by simp, by simp⟩, ?_⟩,
    inv.affinity, ?_, ?_, ?_, ?_, ?_⟩
  · -- nothing was posted since this flush
    have fresh : ∀ entry ∈ sys.log, entry.epoch ≠ sys.epoch + 1 := by
      intro entry logged same
      have bound := inv.core.epochs entry logged
      omega
    exact ⟨fun entry logged same => absurd same (fresh entry logged),
      fun entry logged same => absurd same (fresh entry logged),
      fun entry logged same => absurd same (fresh entry logged)⟩
  · exact fun other below => ⟨(settled other below).queue,
      (settled other below).acks, (settled other below).acked⟩
  · have static := inv.static
    rw [stands] at static
    exact static.congr rfl
  · intro other same
    obtain rfl := Pc.run.inj same
    cases rest with
    | write copy follow =>
        intro first logged patch _ _ _
        exact Or.inl (applied first logged)
    | signalPost word =>
        change sys.peer.txSignal + 1 ≤ sys.peer.txSignal + bondSignals
        simp [bondSignals]
    | writeSignalPost copy word =>
        change sys.peer.txSignal + 1 ≤ sys.peer.txSignal + bondSignals
        simp [bondSignals]
    | _ => trivial
  · intro memory
    have before := inv.effect memory
    rw [stands] at before
    exact before
  · have before := inv.words
    rw [stands] at before
    exact before

/-- What a step can do. -/
inductive Moves (cfg : Config) (sys : Sys) : Sys → Prop
  | call (call : Call) (idle : sys.pc = .run .done)
      (inBounds : call.InBounds cfg) :
      Moves cfg sys { sys with pc := call.start, calls := sys.calls ++ [call] }
  | run {rest : Rest} {oracle : Oracle} {peer : Peer} {batches : List Batch}
      {next : Next} (quiet : sys.Quiet cfg) (stands : sys.pc = .run rest)
      (ran : rest.run cfg oracle sys.peer = some (peer, batches, next)) :
      Moves cfg sys { sys.after peer batches with pc := next.pc }
  | ask {lane : Nat} {rest : Rest} (stands : sys.pc = .flush lane rest)
      (below : lane < cfg.links) :
      Moves cfg sys { sys.emit (lane, (tbFence (sys.peer.lanes lane)).1) with
        peer := sys.peer.setLane lane (tbFence (sys.peer.lanes lane)).2
        pc := .fence lane (tbFence (sys.peer.lanes lane)).2.fences rest }
  | flushed {lane : Nat} {rest : Rest} (stands : sys.pc = .flush lane rest)
      (last : cfg.links ≤ lane) :
      Moves cfg sys { sys with
        peer := { sys.peer with
          table := {}
          txFenced := sys.peer.txSignal }
        pc := .run rest
        epoch := sys.epoch + 1
        base := sys.peer.writes }
  | heard {lane mine : Nat} {rest : Rest} (stands : sys.pc = .fence lane mine rest)
      (met : 0 ≤ diff32 (sys.peer.lanes lane).fenceAcked mine) :
      Moves cfg sys { sys with pc := .flush (lane + 1) rest }
  | transmit {lane : Nat} {next : Sys} (below : lane < cfg.links)
      (sent : sys.transmit lane = some next) : Moves cfg sys next
  | take {lane now : Nat} {reply : Reply} {result : Taken} {next : Sys}
      (below : lane < cfg.links)
      (took : sys.take cfg lane now reply = some (next, result)) :
      Moves cfg sys next
  | ack {lane : Nat} {next : Sys} (below : lane < cfg.links)
      (acked : sys.ack lane = some next) : Moves cfg sys next

theorem Sys.moves {action : Action}
    (stepped : sys.step cfg action = some final) : Moves cfg sys final := by
  cases action with
  | call call =>
      rw [Sys.step] at stepped
      split at stepped
      · next idle =>
          split at stepped
          · next enters =>
              obtain rfl := Option.some.inj stepped
              exact .call call idle enters.1
          · simp at stepped
      · simp at stepped
  | advance oracle =>
      rw [Sys.step] at stepped
      split at stepped
      · next quiet =>
          unfold Sys.advance at stepped
          split at stepped
          · next rest stands =>
              obtain ⟨⟨peer, batches, next⟩, ran, rfl⟩ :=
                Option.map_eq_some_iff.mp stepped
              exact .run quiet stands ran
          · next lane rest stands =>
              split at stepped
              · next below =>
                  obtain rfl := Option.some.inj stepped
                  exact .ask stands below
              · next last =>
                  obtain rfl := Option.some.inj stepped
                  exact .flushed stands (Nat.le_of_not_lt last)
          · next lane mine rest stands =>
              split at stepped
              · next met =>
                  obtain rfl := Option.some.inj stepped
                  exact .heard stands met
              · simp at stepped
      · simp at stepped
  | transmit lane =>
      rw [Sys.step] at stepped
      split at stepped
      · next below => exact .transmit below stepped
      · simp at stepped
  | take lane now reply =>
      rw [Sys.step] at stepped
      split at stepped
      · next below =>
          obtain ⟨⟨after, result⟩, took, rfl⟩ :=
            Option.map_eq_some_iff.mp stepped
          exact .take below took
      · simp at stepped
  | ack lane =>
      rw [Sys.step] at stepped
      split at stepped
      · next below => exact .ack below stepped
      · simp at stepped

/-- Every step keeps the invariant. -/
theorem Inv.step {action : Action} (inv : Inv cfg sys) (near : sys.Near cfg)
    (stepped : sys.step cfg action = some final) : Inv cfg final := by
  cases Sys.moves stepped with
  | call call idle inBounds => exact inv.call idle inBounds
  | run quiet stands ran => exact inv.run quiet stands ran
  | ask stands below => exact inv.ask stands below
  | flushed stands last => exact inv.flushed stands last
  | heard stands met => exact inv.heard stands met
  | transmit below sent => exact inv.transmit below sent
  | take below took => exact inv.take near below took
  | ack below acked => exact inv.ack below acked

end

end Fabric
end Mcdma
