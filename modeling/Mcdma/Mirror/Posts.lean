import Mcdma.Mirror.Lists

/-!
# What the kernel does with a list

Each request of a list is either posted, which puts one record in the kernel's
ledger and moves one producer index on, or refused, which stops the list.  A
refusal leaves the ledger alone unless it quarantines the transport.
-/

namespace Mcdma
namespace Mirror

open Hca (Device HardwareQp WorkQueue slotOf)

/-- One request of a side is posted. -/
structure Posts (h h' : Device) (q : Nat) (send : Bool)
    (made : UInt64 × UInt8 × UInt32) : Prop where
  ready : h.ready = true
  few : ((h.qps q).queueOf send).pending < 31
  free : kernelLedger h (keyAt q send (producerOf (h.qps q) send)) = none
  nonzero : made.2.2 ≠ 0
  effect : Effect h h'
    (Function.update (kernelLedger h)
      (keyAt q send (producerOf (h.qps q) send))
      (some (recordAt (producerOf (h.qps q) send) made.1 made.2.1 made.2.2)))
    (Function.update (produced h) (q, send) (producerOf (h.qps q) send + 1))
    (consumed h)

/-- A request is refused. -/
structure Refuses (h h' : Device) : Prop where
  kept : Kept h h'
  consumers : consumed h' = consumed h
  rest : h'.quarantined = true ∨
    Effect h h' (kernelLedger h) (produced h) (consumed h)

theorem Refuses.refl (h : Device) : Refuses h h :=
  ⟨.refl h, rfl, .inr (.refl h)⟩

theorem Refuses.lost {h h' : Device} (kept : Kept h h')
    (consumers : consumed h' = consumed h) : Refuses h h'.quarantine :=
  ⟨kept.trans (.quarantine h'), consumers, .inl rfl⟩

section

variable {h : Device} {q : Nat}

/-- The records after a request is recorded. -/
theorem records_post {queue next : WorkQueue} {producer : UInt32}
    {id : UInt64} {opcode : UInt8} {length : UInt32} {lkeys : List UInt32}
    (posted : queue.post producer id opcode length lkeys = some next) :
    queue.records (slotOf producer) = none ∧ length ≠ 0 ∧
      queue.pending < 31 ∧
      next.records = Function.update queue.records (slotOf producer)
        (some (WorkQueue.recordOf producer id opcode length lkeys)) := by
  unfold WorkQueue.post at posted
  split at posted
  · next room =>
      cases posted
      obtain ⟨can, nonzero, -⟩ := room
      rw [WorkQueue.canPost, Bool.and_eq_true, decide_eq_true_eq,
        Option.isNone_iff_eq_none] at can
      exact ⟨can.2, nonzero, can.1, rfl⟩
  · cases posted

theorem consumed_charge (h : Device) (c : Nat) :
    consumed (h.charge c) = consumed h := by
  rw [Device.charge, consumed_setCq]
  exact Function.update_eq_self _ _

theorem Kept.charge (h : Device) (c : Nat) : Kept h (h.charge c) :=
  .setCq h rfl rfl rfl

/-- A queue pair whose page alone is replaced. -/
theorem effect_page (h : Device) (q : Nat) (page : Mem) :
    Effect h (h.setQp q { h.qps q with page := page }) (kernelLedger h)
      (produced h) (consumed h) := by
  refine ⟨.setQp h rfl (fun send => by cases send <;> rfl) rfl rfl, ?_,
    produced_setQp h q fun send => by cases send <;> rfl, rfl, rfl⟩
  have same := @kernelLedger_setQp h q { h.qps q with page := page }
    (q, true, 0) (kernelLedger h (q, true, 0)) rfl fun send slot => by
      rw [Function.update_eq_self]
      cases send <;> rfl
  rw [same, Function.update_eq_self]

/-- A queue pair with one more record on one side. -/
theorem effect_record {qp : HardwareQp} {send : Bool} {producer : UInt32}
    {id : UInt64} {opcode : UInt8} {length : UInt32} (lkeys : List UInt32)
    (c : Nat) (object : qp.object = (h.qps q).object)
    (cqOf : ∀ other, qp.cqOf other = (h.qps q).cqOf other)
    (userPosted : qp.userPosted = (h.qps q).userPosted)
    (clientContext : qp.clientContext = (h.qps q).clientContext)
    (queues : ∀ other, (qp.queueOf other).records =
      if other = send then
        Function.update ((h.qps q).queueOf send).records (slotOf producer)
          (some (WorkQueue.recordOf producer id opcode length lkeys))
      else ((h.qps q).queueOf other).records)
    (producers : ∀ other, producerOf qp other =
      if other = send then producer + 1 else producerOf (h.qps q) other) :
    Effect h ((h.setQp q qp).charge c)
      (Function.update (kernelLedger h) (keyAt q send producer)
        (some (recordAt producer id opcode length)))
      (Function.update (produced h) (q, send) (producer + 1))
      (consumed h) := by
  refine ⟨(Kept.setQp h object cqOf userPosted clientContext).trans
    (.charge _ c), ?_, ?_, consumed_charge _ c, rfl⟩
  · refine kernelLedger_setQp rfl fun other slot => ?_
    rw [queues, keyAt]
    by_cases same : other = send
    · subst same
      rw [if_pos rfl]
      by_cases here : slot = slotOf producer
      · rw [here, Function.update_self, Function.update_self]
        rfl
      · rw [Function.update_of_ne here, Function.update_of_ne (by simp [here])]
        rfl
    · rw [if_neg same, Function.update_of_ne (by simp [same])]
      rfl
  · funext side
    rw [produced, Device.charge, Device.qps_setCq, Device.qps_setQp]
    by_cases one : side.1 = q
    · rw [one, Function.update_self, producers]
      by_cases same : side.2 = send
      · have here : side = (q, send) := Prod.ext one same
        rw [if_pos same, here, Function.update_self]
      · have differs : side ≠ (q, send) := fun here => same (here ▸ rfl)
        rw [if_neg same, Function.update_of_ne differs, produced, one]
    · have differs : side ≠ (q, send) := fun here => one (here ▸ rfl)
      rw [Function.update_of_ne one, Function.update_of_ne differs, produced]

/-- `Hca::post` posts or refuses. -/
theorem post_cases (h : Device) (q : Nat) (id : UInt64)
    (r : Verbs.SendRequest) (rung : Bool) :
    ((h.post q id r rung).1 = true ∧ Posts h (h.post q id r rung).2 q true
      (id, r.opcode, Verbs.Kernel.requestBytes r)) ∨
    ((h.post q id r rung).1 = false ∧ Refuses h (h.post q id r rung).2) := by
  unfold Device.post
  dsimp only
  split
  · exact .inr ⟨rfl, .refl h⟩
  · next allowed =>
      simp only [Bool.or_eq_true, not_or, Bool.not_eq_true] at allowed
      obtain ⟨⟨⟨⟨⟨⟨-, -⟩, -⟩, notReady⟩, -⟩, -⟩, -⟩ := allowed
      split
      · exact .inr ⟨rfl, .refl h⟩
      · next page _ =>
          split
          · have kept := effect_page h q page
            exact .inr ⟨rfl, kept.kept, kept.consumers, .inr kept⟩
          · next sends recorded =>
              obtain ⟨free, nonzero, few, moved⟩ := records_post recorded
              split
              · refine .inl ⟨rfl, by simpa using notReady, few, ?_, nonzero,
                  effect_record (r.entries.map Verbs.SendSge.lkey) _ rfl
                    (fun other => by cases other <;> rfl) rfl rfl
                    (fun other => ?_) fun other => ?_⟩
                · simp [kernelLedger, keyAt, producerOf, HardwareQp.queueOf,
                    free]
                · cases other with
                  | true => exact moved
                  | false => rfl
                · cases other <;> rfl
              · refine .inr ⟨rfl, .lost ((Kept.setQp h ?_ (fun other => ?_) ?_
                  ?_).trans (.charge _ _)) (consumed_charge _ _)⟩
                · rfl
                · cases other <;> rfl
                · rfl
                · rfl

/-- `Hca::receive` posts or refuses. -/
theorem receive_cases (h : Device) (q : Nat) (id address : UInt64)
    (length lkey : UInt32) :
    ((h.receive q id address length lkey).1 = true ∧
      Posts h (h.receive q id address length lkey).2 q false
        (id, 0x0a, length)) ∨
    ((h.receive q id address length lkey).1 = false ∧
      Refuses h (h.receive q id address length lkey).2) := by
  unfold Device.receive
  dsimp only
  split
  · exact .inr ⟨rfl, .refl h⟩
  · next allowed =>
      simp only [Bool.or_eq_true, not_or, Bool.not_eq_true] at allowed
      obtain ⟨⟨⟨⟨⟨⟨⟨⟨-, -⟩, -⟩, notReady⟩, -⟩, -⟩, -⟩, -⟩, -⟩ := allowed
      split
      · have kept := effect_page h q (Verbs.Kernel.writeEntry (h.qps q).page
          ((slotOf (h.qps q).recvProducer).val * 16) ⟨address, lkey, length⟩)
        exact .inr ⟨rfl, kept.kept, kept.consumers, .inr kept⟩
      · next receives recorded =>
          obtain ⟨free, nonzero, few, moved⟩ := records_post recorded
          refine .inl ⟨rfl, by simpa using notReady, few, ?_, nonzero,
            effect_record [lkey] _ rfl (fun other => by cases other <;> rfl) rfl
              rfl (fun other => ?_) fun other => ?_⟩
          · simp [kernelLedger, keyAt, producerOf, HardwareQp.queueOf, free]
          · cases other with
            | true => rfl
            | false => exact moved
          · cases other <;> rfl

end

/-! ## One request -/

/-- What a round of a posting loop does with a request of a side, for which the
mirror makes a record. -/
structure Does (h : Device) (result : Option Errno × Device)
    (made : Option (UInt64 × UInt8 × UInt32)) (q : Nat) (send : Bool) :
    Prop where
  cases : (∃ record, made = some record ∧ result.1 = none ∧
      Posts h result.2 q send record) ∨
    (result.1 ≠ none ∧ Refuses h result.2)
  sound : h.Sound → result.2.Sound

theorem Does.refuse (h : Device) (error : Errno)
    (made : Option (UInt64 × UInt8 × UInt32)) (q : Nat) (send : Bool) :
    Does h (some error, h) made q send :=
  ⟨.inr ⟨by simp, .refl h⟩, id⟩

theorem postSend_does (h : Device) (q : Nat) (grant : Grant)
    {signalAll : Bool} {w : SendWr}
    (signaled : signalAll = true → w.signaled = true) :
    Does h (postSend h q signalAll grant w) (sendEntry w) q true := by
  rw [postSend]
  split
  · exact .refuse h _ _ _ _
  · next r made =>
      dsimp only
      split
      · exact .refuse h _ _ _ _
      · split
        · exact .refuse h _ _ _ _
        · split
          · exact .refuse h _ _ _ _
          · have entry := sendEntry_eq signaled made
            have outcomes := post_cases h q w.id r grant.rung
            have sound := fun sound : h.Sound =>
              Device.post_sound sound q w.id r grant.rung
            split
            · next after same =>
                rw [same] at outcomes sound
                exact ⟨.inr ⟨by simp, (outcomes.resolve_left (by simp)).2⟩, sound⟩
            · next after same =>
                rw [same] at outcomes sound
                exact ⟨.inl ⟨_, entry, rfl, (outcomes.resolve_right (by simp)).2⟩,
                  sound⟩

theorem postRecv_does (h : Device) (q : Nat) (grant : Grant) (w : RecvWr) :
    Does h (postRecv h q grant w) (receiveEntry w) q false := by
  rw [postRecv, receiveEntry]
  split
  · next entry list =>
      dsimp only
      split
      · exact .refuse h _ _ _ _
      · split
        · exact .refuse h _ _ _ _
        · split
          · exact .refuse h _ _ _ _
          · split
            · exact .refuse h _ _ _ _
            · have outcomes := receive_cases h q w.id entry.address entry.length
                entry.lkey
              have sound := fun sound : h.Sound => Device.receive_sound sound q
                w.id entry.address entry.length entry.lkey
              split
              · next after same =>
                  rw [same] at outcomes sound
                  exact ⟨.inr ⟨by simp, (outcomes.resolve_left (by simp)).2⟩,
                    sound⟩
              · next after same =>
                  rw [same] at outcomes sound
                  exact ⟨.inl ⟨_, rfl, rfl,
                    (outcomes.resolve_right (by simp)).2⟩, sound⟩
  · exact .refuse h _ _ _ _

/-! ## The list -/

section

variable {Wr Entry : Type} {lane : Key → Nat} {key : Entry → Key}
  {record : Entry → UserRecord}
variable {one : Device → Grant → Wr → Option Errno × Device}
variable {entry : Wr → Option (UInt64 × UInt8 × UInt32)} {q : Nat}
  {send : Bool}

/-- As long as its accounts are in order, the device has at most 31 requests
outstanding on each completion queue. -/
def Bounded (lane : Key → Nat) (h : Device) : Prop :=
  ∀ h', Kept h h' → h'.Sound → h'.quarantined = false →
    ∀ c, Log.AtMost (kernelLedger h') lane c 31

/-- What a list leaves of which so many requests were accepted.  Whoever follows
the log has the records of the accepted part. -/
structure Took (log : Log lane key record) (h h' : Device)
    (made : List (Key × UserRecord)) (producers : Nat × Bool → UInt32) :
    Prop where
  kept : Kept h h'
  consumers : consumed h' = consumed h
  sound : h.Sound → h'.Sound
  filled : ∃ log' : Log lane key record, log'.live = log.live ∧
    log'.held = Log.fill log.held made ∧
    (∀ cursor, log'.view cursor = Log.fill (log.view cursor) made) ∧
    (h.Sound → Bounded lane h → (∀ c, Log.AtMost log.held lane c 31) →
      ∀ c, Log.AtMost log'.held lane c 31) ∧
    (h'.quarantined = true ∨ kernelLedger h' = log'.held ∧
      produced h' = producers ∧ h'.quarantined = h.quarantined)

theorem Took.refl (log : Log lane key record) (h : Device)
    (ledger : h.quarantined = false → kernelLedger h = log.held) :
    Took log h h [] (produced h) := by
  refine ⟨.refl h, rfl, id, log, rfl, rfl, fun _ => rfl, fun _ _ => id, ?_⟩
  cases calm : h.quarantined with
  | true => exact .inl rfl
  | false => exact .inr ⟨ledger calm, rfl, rfl⟩

/-- A refused request stops the list. -/
theorem Took.refuse (log : Log lane key record) {h h' : Device}
    (ledger : kernelLedger h = log.held) (refuses : Refuses h h')
    (sound : h.Sound → h'.Sound) : Took log h h' [] (produced h) := by
  refine ⟨refuses.kept, refuses.consumers, sound, log, rfl, rfl, fun _ => rfl,
    fun _ _ => id, ?_⟩
  rcases refuses.rest with lost | effect
  · exact .inl lost
  · exact .inr ⟨effect.records.trans ledger, effect.producers,
      effect.quarantined⟩

/-- An accepted request is one more in front. -/
theorem Took.cons (log : Log lane key record) {h h₁ h' : Device}
    {made : UInt64 × UInt8 × UInt32} {rest : List (Key × UserRecord)}
    {producers : Nat × Bool → UInt32}
    (ledger : kernelLedger h = log.held) (posts : Posts h h₁ q send made)
    (sound : h.Sound → h₁.Sound)
    (onward : ∀ log : Log lane key record, kernelLedger h₁ = log.held →
      Took log h₁ h' rest producers) :
    Took log h h' ((keyAt q send (producerOf (h.qps q) send),
      recordAt (producerOf (h.qps q) send) made.1 made.2.1 made.2.2) :: rest)
      producers := by
  have free : log.held (keyAt q send (producerOf (h.qps q) send)) = none :=
    ledger ▸ posts.free
  obtain ⟨kept, consumers, sound', log', live, held, views, most, final⟩ :=
    onward (log.put _ (recordAt (producerOf (h.qps q) send) made.1 made.2.1
      made.2.2) free) (by rw [posts.effect.records, ledger, Log.held_put])
  refine ⟨posts.effect.kept.trans kept,
    consumers.trans posts.effect.consumers, sound' ∘ sound, log', live, held,
    fun cursor => ?_, fun wellFormed bounded _ => ?_, ?_⟩
  · rw [views, log.view_put]
    rfl
  · refine most (sound wellFormed) (fun later further =>
      bounded later (posts.effect.kept.trans further)) fun c => ?_
    rw [Log.held_put, ← ledger, ← posts.effect.records]
    refine bounded _ posts.effect.kept (sound wellFormed) ?_ c
    have calm := posts.ready
    rw [Device.ready, Bool.and_eq_true, Bool.not_eq_true'] at calm
    exact posts.effect.quarantined.trans calm.1
  · rcases final with lost | ⟨records, producers, calm⟩
    · exact .inl lost
    · exact .inr ⟨records, producers, calm.trans posts.effect.quarantined⟩

/-- The kernel's side of a list: the requests before the one it stops at are in
its ledger, and nothing else has changed. -/
theorem postAll_took (log : Log lane key record) (h : Device)
    (grants : Nat → Grant) (wrs : List Wr)
    (does : ∀ w ∈ wrs, ∀ h grant,
      Does h (one h grant w) (entry w) q send)
    (ledger : kernelLedger h = log.held) :
    Took log h (postAll one h grants wrs).2.2
      (puts entry q send (producerOf (h.qps q) send)
        (wrs.take (postAll one h grants wrs).2.1))
      (Function.update (produced h) (q, send) (producerOf (h.qps q) send +
        UInt32.ofNat (postAll one h grants wrs).2.1)) := by
  have still : Function.update (produced h) (q, send)
      (producerOf (h.qps q) send + UInt32.ofNat 0) = produced h := by
    rw [show UInt32.ofNat 0 = 0 from rfl, UInt32.add_zero]
    exact Function.update_eq_self _ _
  induction wrs generalizing log h grants with
  | nil =>
      rw [postAll, still]
      exact .refl log h fun _ => ledger
  | cons w rest inductionHypothesis =>
      obtain ⟨outcomes, sound⟩ := does w List.mem_cons_self h (grants 0)
      cases result : one h (grants 0) w with
      | mk outcome h₁ =>
          rw [result] at outcomes sound
          rcases outcomes with ⟨made, known, fine, posts⟩ | ⟨fails, refuses⟩
          · have noError : outcome = none := fine
            subst noError
            have moved : producerOf (h₁.qps q) send =
                producerOf (h.qps q) send + 1 := by
              have all := congrFun posts.effect.producers (q, send)
              rwa [Function.update_self] at all
            rw [postAll, result]
            dsimp only
            rw [List.take_succ_cons, puts, known]
            refine .cons log ledger posts sound fun log ledger => ?_
            have onward := inductionHypothesis log h₁
              (fun step => grants (step + 1))
              (fun w member => does w (List.mem_cons_of_mem _ member)) ledger ?_
            · rw [moved, posts.effect.producers, Function.update_idem,
                UInt32.add_assoc, UInt32.add_comm 1] at onward
              rw [UInt32.ofNat_add]
              exact onward
            · rw [show UInt32.ofNat 0 = 0 from rfl, UInt32.add_zero]
              exact Function.update_eq_self _ _
          · cases outcome with
            | none => exact absurd rfl fails
            | some error =>
                rw [postAll, result]
                dsimp only
                rw [still]
                exact .refuse log ledger refuses sound

/-- A queue of the mirror that follows the kernel's: at the same producer index,
with no record that the kernel does not have. -/
structure Follows (queue : UserQueue) (h : Device) (q : Nat) (send : Bool) :
    Prop where
  producer : queue.producer = producerOf (h.qps q) send
  within : ∀ slot, (queue.slots.records slot).isSome = true →
    (kernelLedger h (q, send, slot)).isSome = true

/-- The mirror can record what the kernel posts. -/
theorem Follows.post {queue : UserQueue} {h h' : Device}
    {made : UInt64 × UInt8 × UInt32} (follows : Follows queue h q send)
    (posts : Posts h h' q send made) :
    ∃ next, queue.post made.1 made.2.1 made.2.2 = some next ∧
      Follows next h' q send := by
  have few : queue.slots.pending < 31 := by
    have fewer : (Slots.occupied queue.slots.records).card ≤
        (Slots.occupied ((h.qps q).queueOf send).records).card := by
      refine Finset.card_le_card fun slot member => ?_
      rw [Slots.mem_occupied] at member ⊢
      simpa [kernelLedger] using follows.within slot member
    rw [queue.slots.counted, ((h.qps q).queueOf send).counted] at fewer
    exact lt_of_le_of_lt fewer posts.few
  have free : queue.slots.records (slotOf queue.producer) = none := by
    by_contra holds
    have there := follows.within _ (Option.isSome_iff_ne_none.mpr holds)
    rw [follows.producer, show (q, send, slotOf (producerOf (h.qps q) send)) =
      keyAt q send (producerOf (h.qps q) send) from rfl, posts.free] at there
    cases there
  have can : queue.canPost = true := by
    simp [UserQueue.canPost, few, free]
  cases posted : queue.post made.1 made.2.1 made.2.2 with
  | none =>
      rw [UserQueue.post, dif_pos ⟨can, posts.nonzero⟩] at posted
      cases posted
  | some next =>
      obtain ⟨-, -, producer, records⟩ := UserQueue.post_eq_some_iff.mp posted
      refine ⟨next, rfl, ?_, fun slot holds => ?_⟩
      · have all := congrFun posts.effect.producers (q, send)
        rw [Function.update_self] at all
        rw [producer, follows.producer]
        exact all.symm
      · rw [posts.effect.records, keyAt]
        rw [records, follows.producer] at holds
        by_cases here : slot = slotOf (producerOf (h.qps q) send)
        · rw [here, Function.update_self]
          rfl
        · rw [Function.update_of_ne here] at holds
          rw [Function.update_of_ne (by simp [here])]
          exact follows.within slot holds

/-- The kernel never accepts more than the mirror has recorded. -/
theorem postAll_le_recorded (h : Device) (grants : Nat → Grant)
    (queue : UserQueue) (wrs : List Wr)
    (does : ∀ w ∈ wrs, ∀ h grant,
      Does h (one h grant w) (entry w) q send)
    (follows : Follows queue h q send) :
    (postAll one h grants wrs).2.1 ≤ (recordAll entry queue wrs).2 := by
  induction wrs generalizing queue h grants with
  | nil => exact Nat.le_refl _
  | cons w rest inductionHypothesis =>
      obtain ⟨outcomes, -⟩ := does w List.mem_cons_self h (grants 0)
      cases result : one h (grants 0) w with
      | mk outcome h₁ =>
          rw [result] at outcomes
          rcases outcomes with ⟨made, known, fine, posts⟩ | ⟨fails, -⟩
          · have noError : outcome = none := fine
            subst noError
            obtain ⟨next, posted, further⟩ := follows.post posts
            rw [postAll, result, recordAll_of_post known posted]
            exact Nat.succ_le_succ (inductionHypothesis h₁
              (fun step => grants (step + 1)) next
              (fun w member => does w (List.mem_cons_of_mem _ member)) further)
          · cases outcome with
            | none => exact absurd rfl fails
            | some error =>
                rw [postAll, result]
                exact Nat.zero_le _

theorem postAll_length (h : Device) (grants : Nat → Grant) (wrs : List Wr) :
    (postAll one h grants wrs).2.1 ≤ wrs.length ∧
      ((postAll one h grants wrs).1 = none →
        (postAll one h grants wrs).2.1 = wrs.length) := by
  induction wrs generalizing h grants with
  | nil => exact ⟨Nat.le_refl _, fun _ => rfl⟩
  | cons w rest inductionHypothesis =>
      cases result : one h (grants 0) w with
      | mk outcome h₁ =>
          cases outcome with
          | some error =>
              rw [postAll, result]
              exact ⟨Nat.zero_le _, by simp⟩
          | none =>
              obtain ⟨few, all⟩ :=
                inductionHypothesis h₁ fun step => grants (step + 1)
              rw [postAll, result]
              exact ⟨Nat.succ_le_succ few, fun fine => congrArg (· + 1)
                (all fine)⟩

/-- The command of a process: what it reports as accepted is what the kernel
took, and no more than the mirror has recorded. -/
theorem kernelPost_took (log : Log lane key record) (h : Device)
    (command : Command) (queue : UserQueue) (wrs : List Wr)
    (does : ∀ w ∈ wrs, ∀ h grant,
      Does h (one h grant w) (entry w) q send)
    (ledger : h.quarantined = false → kernelLedger h = log.held)
    (follows : h.quarantined = false → Follows queue h q send) :
    let answer := kernelPost one h q command wrs
    let kept := accepted wrs.length answer.1 answer.2.1
    kept ≤ (recordAll entry queue wrs).2 ∧
      Took log h answer.2.2
        (puts entry q send (producerOf (h.qps q) send) (wrs.take kept))
        (Function.update (produced h) (q, send)
          (producerOf (h.qps q) send + UInt32.ofNat kept)) := by
  have nothing : Took log h h
      (puts entry q send (producerOf (h.qps q) send) (wrs.take 0))
      (Function.update (produced h) (q, send)
        (producerOf (h.qps q) send + UInt32.ofNat 0)) := by
    rw [List.take_zero, puts, show UInt32.ofNat 0 = 0 from rfl,
      UInt32.add_zero]
    have still : Function.update (produced h) (q, send)
        (producerOf (h.qps q) send) = produced h :=
      Function.update_eq_self _ _
    rw [still]
    exact .refl log h ledger
  unfold kernelPost
  split
  · exact ⟨Nat.zero_le _, nothing⟩
  · split
    · simp only [accepted, Nat.zero_min]
      exact ⟨Nat.zero_le _, nothing⟩
    · next notReady =>
        have calm : h.quarantined = false := by
          rw [Bool.not_eq_true, Bool.not_eq_false', Device.ready,
            Bool.and_eq_true, Bool.not_eq_true'] at notReady
          exact notReady.1
        split
        · simp only [accepted, Nat.zero_min]
          exact ⟨Nat.zero_le _, nothing⟩
        · have few := postAll_le_recorded h command.grants queue wrs does
            (follows calm)
          have took := postAll_took log h command.grants wrs does (ledger calm)
          obtain ⟨less, all⟩ := @postAll_length Wr one h command.grants wrs
          split
          · next posted after same =>
              rw [same] at few took all
              have whole : posted = wrs.length := all rfl
              subst whole
              exact ⟨few, took⟩
          · next error posted after same =>
              rw [same] at few took less
              have part : min posted wrs.length = posted :=
                Nat.min_eq_left less
              simp only [accepted, part]
              exact ⟨few, took⟩

end

end Mirror
end Mcdma
