import Mcdma.Mirror.Core

/-!
# What holds at every step

The invariant of the user provider's runs, and that each step keeps it: the
application has been handed the completions of the settled entries and of those
reported ahead, in the order the device wrote them, unless the queue is retired,
when nothing more is handed out.
-/

namespace Mcdma
namespace Mirror

open Hca (Cqe Device HardwareQp slotOf slotOfCounter window)

/-- What a caller of `acknowledge` hands out. -/
def Then.out : Then → List Wc
  | .poll out => out
  | .post _ _ => []

/-- What the running call will hand out for a ring. -/
def Call.out (call : Call) (c : Nat) : List Wc :=
  match call with
  | .poll ring _ _ out => if ring = c then out else []
  | .ack ring client => if ring = c then client.out else []
  | .verify ring _ done _ => if ring = c then done else []
  | _ => []

/-- How far the kernel is ahead of what is settled on each ring. -/
def Call.cursor (call : Call) : Nat → Nat :=
  match call with
  | .verify c _ _ left => Function.update (fun _ => 0) c left.length
  | _ => fun _ => 0

/-- What was handed out and will be, of what has been told. -/
structure Handed (handed out : List Wc) (retired : Bool) (told : List Wc) :
    Prop where
  all : retired = false → handed ++ out = told
  part : handed <+: told

namespace Handed

variable {handed out told : List Wc} {retired : Bool}

theorem deliver (now : Handed handed out retired told)
    (working : retired = false) : Handed (handed ++ out) [] retired told where
  all := fun _ => by rw [List.append_nil, now.all working]
  part := by rw [now.all working]

theorem retire (now : Handed handed out retired told) :
    Handed handed [] true told :=
  ⟨(fun here => by cases here), now.part⟩

theorem grow (now : Handed handed out retired told) (wc : Wc) :
    Handed handed (out ++ [wc]) retired (told ++ [wc]) where
  all := fun working => by rw [← List.append_assoc, now.all working]
  part := now.part.trans (List.prefix_append _ _)

end Handed

/-- The completions of a ring that are settled or reported ahead. -/
def told {cqOf : Nat → Bool → Nat} (flight : Flight cqOf)
    (settled : Nat → List Entry) (w : World) (c : Nat) : List Wc :=
  (settled c ++ (flight.live c).take (w.nodes c).ahead).map Entry.wc

/-- Where the running call stands. -/
def Stands {cqOf : Nat → Bool → Nat} (flight : Flight cqOf) (w : World) :
    Prop :=
  match w.call with
  | .poll c maximum base _ => maximum ≠ 0 ∧ (w.nodes c).retired = false ∧
      base = cqConsumer w.device c
  | .fresh c maximum => maximum ≠ 0 ∧ (w.nodes c).retired = false ∧
      (w.nodes c).ahead = 0
  | .verify c base done left => (w.nodes c).retired = false ∧
      (w.nodes c).ahead = 0 ∧
      left = ((flight.live c).take left.length).map Entry.wc ∧
      (base + UInt32.ofNat done.length).toNat % 64 =
        ((w.device.cqs c).consumer - UInt32.ofNat left.length).toNat % 64
  | _ => True

/-- The invariant. -/
structure Seen (cqOf : Nat → Bool → Nat) (w : World) (flight : Flight cqOf)
    (settled : Nat → List Entry) : Prop where
  core : Core flight settled w w.call.cursor
  handed : ∀ c, Handed (w.handed c) (w.call.out c) (w.nodes c).retired
    (told flight settled w c)
  stands : Stands flight w

namespace Seen

variable {cqOf : Nat → Bool → Nat} {w : World} {flight : Flight cqOf}
  {settled : Nat → List Entry} {cursor : Nat → Nat}

/-- Completions are handed out at the end of a call. -/
theorem hand (core : Core flight settled w fun _ => 0) {c : Nat}
    {out : List Wc} (working : (w.nodes c).retired = false)
    (mine : Handed (w.handed c) out (w.nodes c).retired
      (told flight settled w c))
    (others : ∀ other, other ≠ c → Handed (w.handed other) []
      (w.nodes other).retired (told flight settled w other)) :
    Seen cqOf (w.hand c out) flight settled := by
  refine ⟨core.congr rfl rfl rfl rfl rfl fun _ => ⟨rfl, rfl, rfl, rfl⟩,
    fun other => ?_, trivial⟩
  rw [World.hand]
  by_cases one : other = c
  · subst one
    dsimp only
    rw [Function.update_self]
    exact mine.deliver working
  · dsimp only
    rw [Function.update_of_ne one]
    exact others other one

/-- A call fails on a queue that is retired. -/
theorem fail (core : Core flight settled w fun _ => 0) {c : Nat}
    {out : List Wc} (retired : (w.nodes c).retired = true)
    (mine : Handed (w.handed c) out (w.nodes c).retired
      (told flight settled w c))
    (others : ∀ other, other ≠ c → Handed (w.handed other) []
      (w.nodes other).retired (told flight settled w other)) :
    Seen cqOf w.fail flight settled := by
  refine ⟨core.congr rfl rfl rfl rfl rfl fun _ => ⟨rfl, rfl, rfl, rfl⟩,
    fun other => ?_, trivial⟩
  by_cases one : other = c
  · subst one
    have now := mine.retire
    rw [← retired] at now
    exact now
  · exact others other one

/-! ## Polling -/

/-- The state of the call that polls a ring. -/
structure Polling (w : World) (flight : Flight cqOf)
    (settled : Nat → List Entry) (c : Nat) (out : List Wc) : Prop where
  core : Core flight settled w fun _ => 0
  working : (w.nodes c).retired = false
  mine : Handed (w.handed c) out (w.nodes c).retired (told flight settled w c)
  others : ∀ other, other ≠ c → Handed (w.handed other) []
    (w.nodes other).retired (told flight settled w other)

theorem polling (seen : Seen cqOf w flight settled) {c maximum : Nat}
    {base : UInt32} {out : List Wc} (here : w.call = .poll c maximum base out) :
    Polling w flight settled c out ∧ maximum ≠ 0 ∧
      base = cqConsumer w.device c := by
  obtain ⟨core, handed, stands⟩ := seen
  rw [here] at core handed
  rw [Stands, here] at stands
  refine ⟨⟨core, stands.2.1, ?_, fun other differs => ?_⟩, stands.1,
    stands.2.2⟩
  · have mine := handed c
    rwa [Call.out, if_pos rfl] at mine
  · have theirs := handed other
    rwa [Call.out, if_neg (Ne.symm differs)] at theirs

/-- The number of empty polls is of no concern. -/
theorem Polling.touch {c : Nat} {out : List Wc}
    (polling : Polling w flight settled c out) (count : Nat) :
    Polling (w.setNode c { w.nodes c with emptyPolls := count }) flight settled
      c out := by
  have nodes : ∀ other, ((w.setNode c
      { w.nodes c with emptyPolls := count }).nodes other).retired =
        (w.nodes other).retired ∧ ((w.setNode c
      { w.nodes c with emptyPolls := count }).nodes other).ahead =
        (w.nodes other).ahead := by
    intro other
    rw [World.setNode]
    by_cases one : other = c
    · subst one
      simp
    · simp [Function.update_of_ne one]
  have same : ∀ other, told flight settled (w.setNode c
      { w.nodes c with emptyPolls := count }) other =
        told flight settled w other := by
    intro other
    rw [told, (nodes other).2, told]
  refine ⟨polling.core.setNode rfl rfl rfl rfl, ?_, ?_, fun other differs => ?_⟩
  · rw [(nodes c).1]
    exact polling.working
  · rw [(nodes c).1, same]
    exact polling.mine
  · rw [(nodes other).1, same]
    exact polling.others other differs

/-- The call goes on to `acknowledge`. -/
theorem Polling.ack {c : Nat} {out : List Wc}
    (polling : Polling w flight settled c out) :
    Seen cqOf { w with call := .ack c (.poll out) } flight settled := by
  refine ⟨polling.core.congr rfl rfl rfl rfl rfl fun _ => ⟨rfl, rfl, rfl, rfl⟩,
    fun other => ?_, trivial⟩
  rw [Call.out]
  by_cases one : c = other
  · subst one
    rw [if_pos rfl]
    exact polling.mine
  · rw [if_neg one]
    exact polling.others other (Ne.symm one)

/-- The call ends. -/
theorem Polling.hand {c : Nat} {out : List Wc}
    (polling : Polling w flight settled c out) :
    Seen cqOf (w.hand c out) flight settled :=
  Seen.hand polling.core polling.working polling.mine polling.others

/-- The call ends on a queue it has retired. -/
theorem Polling.retire {c : Nat} {out : List Wc}
    (polling : Polling w flight settled c out) :
    Seen cqOf (w.retire c).fail flight settled := by
  have core : Core flight settled (w.retire c) fun _ => 0 :=
    polling.core.setNode rfl rfl rfl rfl
  refine ⟨core.congr rfl rfl rfl rfl rfl fun _ => ⟨rfl, rfl, rfl, rfl⟩,
    fun other => ?_, trivial⟩
  rw [World.retire, World.fail, World.setNode, told]
  dsimp only
  by_cases one : other = c
  · subst one
    rw [Function.update_self]
    exact polling.mine.retire
  · rw [Function.update_of_ne one]
    exact polling.others other one

/-- `user_poll` after its loop keeps the invariant. -/
theorem Polling.endPoll {c maximum : Nat} {out : List Wc} {after : World}
    (polling : Polling w flight settled c out) (nonzero : maximum ≠ 0)
    (ended : w.EndPoll c maximum out after) : Seen cqOf after flight settled := by
  cases ended with
  | acknowledges => exact (polling.touch 0).ack
  | hands => exact (polling.touch 0).hand
  | waits nothing count =>
      subst nothing
      exact (polling.touch count).hand
  | settles nothing =>
      subst nothing
      exact (polling.touch 0).ack
  | asks nothing level =>
      subst nothing
      have now := polling.touch 0
      refine ⟨now.core.congr rfl rfl rfl rfl rfl fun _ =>
        ⟨rfl, rfl, rfl, rfl⟩, fun other => ?_, nonzero, now.working, ?_⟩
      · by_cases one : other = c
        · subst one
          exact now.mine
        · exact now.others other one
      · simp [World.setNode, level]

/-- What is published at a place of the ring is the entry in flight there. -/
theorem entry_of_ready (core : Core flight settled w fun _ => 0) {c : Nat}
    {offset : Nat} {cqe : Cqe} (small : offset < 32)
    (ready : cqEntry w.device c
      (cqConsumer w.device c + UInt32.ofNat offset) = .ready cqe) :
    ∃ entry, (flight.live c)[offset]? = some entry ∧ entry.cqe = cqe := by
  cases live : (w.device.cqs c).live with
  | false =>
      rw [cqEntry, live, if_pos (by simp)] at ready
      cases ready
  | true =>
      rw [cqConsumer, cqEntry_eq live] at ready
      split at ready
      · next published =>
          cases ready
          have ring := core.kernel.rings c
          have place := ring.holds (ring.shown live) offset small
          rw [show UInt32.ofNat 0 = 0 from rfl, UInt32.sub_zero] at place
          rw [List.getElem?_map] at place
          cases next : (flight.live c)[offset]? with
          | none =>
              rw [next, Option.map_none] at place
              dsimp only at place
              rw [place] at published
              cases published
          | some entry =>
              rw [next, Option.map_some] at place
              exact ⟨entry, rfl, place.1.symm⟩
      · cases ready

/-- One round of the loop of `user_poll` keeps the invariant. -/
theorem pollRound (seen : Seen cqOf w flight settled) {c maximum : Nat}
    {base : UInt32} {out : List Wc} (here : w.call = .poll c maximum base out) :
    Seen cqOf (w.pollRound c maximum base out) flight settled := by
  obtain ⟨polling, nonzero, based⟩ := seen.polling here
  have round := w.pollRound_spec c maximum base out
  generalize w.pollRound c maximum base out = after at round ⊢
  cases round with
  | ends ended => exact polling.endPoll nonzero ended
  | gone => exact polling.retire
  | unknown => exact polling.retire
  | @reports cqe completion context room few ready decoded =>
      -- what is published there is the next entry in flight
      rw [based] at ready
      obtain ⟨entry, next, same⟩ := entry_of_ready polling.core
        (by omega) ready
      subst same
      obtain ⟨found, decodes, ledger, coherent, producers⟩ :=
        polling.core.decode next
      cases decodes.symm.trans decoded
      have core := polling.core.report next ledger coherent producers
      have nodes : ∀ other, ((w.report c (completionOf entry.cqe
          entry.record false) context).nodes other).retired =
            (w.nodes other).retired ∧
          ((w.report c (completionOf entry.cqe entry.record false)
            context).nodes other).ahead =
              if other = c then (w.nodes c).ahead + 1
              else (w.nodes other).ahead := by
        intro other
        rw [World.report, World.setNode]
        by_cases one : other = c
        · subst one
          simp
        · simp [one]
      refine ⟨core.congr rfl rfl rfl rfl rfl fun _ =>
        ⟨rfl, rfl, rfl, rfl⟩, fun other => ?_, nonzero, ?_, ?_⟩
      · rw [told]
        dsimp only
        rw [(nodes other).1, (nodes other).2, Call.out]
        by_cases one : c = other
        · subst one
          rw [if_pos rfl, if_pos rfl, List.take_add_one, next,
            Option.toList_some, ← List.append_assoc, List.map_append]
          exact polling.mine.grow entry.wc
        · rw [if_neg one, if_neg (Ne.symm one)]
          exact polling.others other (Ne.symm one)
      · exact (nodes c).1.trans polling.working
      · exact based

/-! ## Asking the kernel -/

/-- What a poll of the kernel does: it fails and consumes nothing, or it
consumes as many entries as it was asked for, or all there are. -/
theorem pollKernel_cases (core : Core flight settled w fun _ => 0)
    (command : Command) (c : Nat) {maximum : Nat} (nonzero : maximum ≠ 0) :
    ((w.pollKernel command c maximum).1 = .error () ∧
      Core flight settled
        { w with device := (w.pollKernel command c maximum).2 } fun _ => 0) ∨
    ((w.pollKernel command c maximum).1 =
        .ok (((flight.live c).take maximum).map Entry.wc) ∧
      Consumes flight w.context w.device (w.pollKernel command c maximum).2
        (fun _ => 0) c (min maximum (flight.live c).length)) := by
  unfold World.pollKernel
  split
  · cases ready : w.device.ready with
    | false =>
        rw [pollCq_idle ready c nonzero]
        exact .inl ⟨rfl, core⟩
    | true =>
        have few : (flight.live c).length < 32 := by
          have most := core.length_le c
          omega
        obtain ⟨consumes, result⟩ := core.kernel.consumeAll ready few
          (Nat.zero_le _) maximum []
        rw [List.drop_zero] at consumes result
        rcases result with fine | ⟨fails, -, nothing⟩
        · exact .inr ⟨fine, consumes⟩
        · rw [nothing, List.length_nil, Nat.min_zero] at consumes
          have still := core.consumed consumes (Nat.zero_le _)
          rw [Nat.add_zero, Function.update_eq_self] at still
          exact .inl ⟨fails, still⟩
  · exact .inl ⟨rfl, core⟩

/-! ## Acknowledging -/

/-- The state of a call in `acknowledge`. -/
structure Acking (w : World) (flight : Flight cqOf)
    (settled : Nat → List Entry) (c : Nat) (client : Then) : Prop where
  core : Core flight settled w fun _ => 0
  mine : Handed (w.handed c) client.out (w.nodes c).retired
    (told flight settled w c)
  others : ∀ other, other ≠ c → Handed (w.handed other) []
    (w.nodes other).retired (told flight settled w other)

theorem acking (seen : Seen cqOf w flight settled) {c : Nat} {client : Then}
    (here : w.call = .ack c client) : Acking w flight settled c client := by
  obtain ⟨core, handed, -⟩ := seen
  rw [here] at core handed
  refine ⟨core, ?_, fun other differs => ?_⟩
  · have mine := handed c
    rwa [Call.out, if_pos rfl] at mine
  · have theirs := handed other
    rwa [Call.out, if_neg (Ne.symm differs)] at theirs

theorem Acking.stay {c : Nat} {client : Then}
    (acking : Acking w flight settled c client) (here : w.call = .ack c client) :
    Seen cqOf w flight settled := by
  refine ⟨by rw [here]; exact acking.core, fun other => ?_, ?_⟩
  · rw [here, Call.out]
    by_cases one : c = other
    · subst one
      rw [if_pos rfl]
      exact acking.mine
    · rw [if_neg one]
      exact acking.others other (Ne.symm one)
  · rw [Stands, here]
    trivial

/-- The caller goes on when the queue is not retired. -/
theorem Acking.resume {c : Nat} {client : Then} {fine : Bool}
    (acking : Acking w flight settled c client)
    (retired : (w.nodes c).retired = !fine) :
    Seen cqOf (w.resume c client fine) flight settled := by
  cases fine with
  | false => exact Seen.fail acking.core retired acking.mine acking.others
  | true =>
      cases client with
      | poll out =>
          exact Seen.hand acking.core retired acking.mine acking.others
      | post p attempt =>
          refine ⟨acking.core.congr rfl rfl rfl rfl rfl fun _ =>
            ⟨rfl, rfl, rfl, rfl⟩, fun other => ?_, trivial⟩
          by_cases one : other = c
          · subst one
            exact acking.mine
          · exact acking.others other one

/-- The kernel's answer to a failed poll. -/
theorem Acking.device {c : Nat} {client : Then} {h : Device}
    (acking : Acking w flight settled c client)
    (core : Core flight settled { w with device := h } fun _ => 0) :
    Acking { w with device := h } flight settled c client :=
  ⟨core, acking.mine, acking.others⟩

/-- The queue is retired and the call stays in its loop. -/
theorem Acking.retire {c : Nat} {client : Then}
    (acking : Acking w flight settled c client) :
    Acking (w.setNode c { w.nodes c with retired := true }) flight settled c
      client := by
  have same : ∀ other, told flight settled
      (w.setNode c { w.nodes c with retired := true }) other =
        told flight settled w other := by
    intro other
    rw [told, told, World.setNode]
    by_cases one : other = c
    · subst one
      simp
    · simp [Function.update_of_ne one]
  refine ⟨acking.core.setNode rfl rfl rfl rfl, ?_, fun other differs => ?_⟩
  · rw [same, World.setNode]
    dsimp only
    rw [Function.update_self]
    exact ⟨(fun here => by cases here), acking.mine.part⟩
  · rw [same, World.setNode]
    dsimp only
    rw [Function.update_of_ne differs]
    exact acking.others other differs

/-- The kernel has consumed what was reported ahead, which is settled. -/
theorem Acking.settle {c : Nat} {client : Then} {h : Device}
    (acking : Acking w flight settled c client)
    (consumes : Consumes flight w.context w.device h (fun _ => 0) c
      (w.nodes c).ahead) :
    ∃ (flight' : Flight cqOf) (settled' : Nat → List Entry),
      Acking (w.round c ((w.nodes c).drop (w.nodes c).ahead) h) flight'
        settled' c client := by
  have few := (acking.core.pending c).few
  have moved := acking.core.consumed consumes (by rw [Nat.zero_add]; exact few)
  rw [Nat.zero_add] at moved
  have through : (w.nodes c).ahead ≤
      Function.update (fun _ => 0) c (w.nodes c).ahead c := by
    rw [Function.update_self]
  have less : ((w.nodes c).drop (w.nodes c).ahead).ahead =
      (w.nodes c).ahead - (w.nodes c).ahead := rfl
  obtain ⟨flight', live, core⟩ := moved.settle through (Nat.le_refl _) less
    (acking.core.pending_drop c (Nat.le_refl _))
  rw [Function.update_self, Nat.sub_self, Function.update_idem,
    Function.update_eq_self] at core
  refine ⟨flight', _, core, ?_, fun other differs => ?_⟩
  · have same : told flight' (Function.update settled c
        (settled c ++ (flight.live c).take (w.nodes c).ahead))
        (w.round c ((w.nodes c).drop (w.nodes c).ahead) h) c =
          told flight settled w c := by
      simp [told, World.round, World.setNode, UserCq.drop]
    rw [same]
    have still : ((w.round c ((w.nodes c).drop (w.nodes c).ahead) h).nodes
        c).retired = (w.nodes c).retired := by
      simp [World.round, World.setNode, UserCq.drop]
    rw [still]
    exact acking.mine
  · have same : told flight' (Function.update settled c
        (settled c ++ (flight.live c).take (w.nodes c).ahead))
        (w.round c ((w.nodes c).drop (w.nodes c).ahead) h) other =
          told flight settled w other := by
      simp [told, World.round, World.setNode, live, Function.update_of_ne
        differs]
    have still : (w.round c ((w.nodes c).drop (w.nodes c).ahead) h).nodes
        other = w.nodes other := by
      simp [World.round, World.setNode, Function.update_of_ne differs]
    rw [same, still]
    exact acking.others other differs

/-- The completions checked off are those pending. -/
theorem settle_eq (core : Core flight settled w fun _ => 0) {c : Nat}
    {h : Device} (consumes : Consumes flight w.context w.device h (fun _ => 0) c
      (w.nodes c).ahead) :
    (w.nodes c).settle
        (((flight.live c).take (w.nodes c).ahead).map Entry.wc)
        (cqConsumer w.device c) (cqConsumer h c) =
      (w.nodes c).drop (w.nodes c).ahead := by
  obtain ⟨-, few, same⟩ := core.pending c
  have small := core.length_le c
  have all : ((flight.live c).take (w.nodes c).ahead).length =
      (w.nodes c).ahead := by
    rw [List.length_take, Nat.min_eq_left few]
  have checked := (w.nodes c).checkOff_eq
    ((flight.live c).take (w.nodes c).ahead) fun spot entry here => by
      obtain ⟨below, -⟩ := List.getElem?_eq_some_iff.mp here
      rw [all] at below
      rw [List.getElem?_take_of_lt below] at here
      exact same spot entry below here
  have consumer : (h.cqs c).consumer =
      (w.device.cqs c).consumer + UInt32.ofNat (w.nodes c).ahead := by
    have moved := congrFun consumes.consumers c
    rwa [Function.update_self] at moved
  have moved : (cqConsumer h c - cqConsumer w.device c) &&& 0xffffff =
      UInt32.ofNat (w.nodes c).ahead := by
    rw [cqConsumer, cqConsumer, consumer]
    exact masked_sub _ (by omega)
  rw [UserCq.settle, checked, List.length_map, all, moved, if_neg (by simp)]

/-- The kernel answers with what it was asked for. -/
theorem answer_all (core : Core flight settled w cursor) {c : Nat}
    (nonzero : (w.nodes c).ahead ≠ 0) :
    ((flight.live c).take (w.nodes c).ahead).map Entry.wc ≠ [] ∧
      (((flight.live c).take (w.nodes c).ahead).map Entry.wc).length =
        (w.nodes c).ahead := by
  have all : (((flight.live c).take (w.nodes c).ahead).map
      Entry.wc).length = (w.nodes c).ahead := by
    rw [List.length_map, List.length_take,
      Nat.min_eq_left (core.pending c).few]
  exact ⟨fun nothing => nonzero (by rw [← all, nothing]; rfl), all⟩

/-- One round of the loop of `acknowledge` keeps the invariant. -/
theorem ackRound (seen : Seen cqOf w flight settled) {c : Nat} {client : Then}
    (here : w.call = .ack c client) (command : Command) :
    ∃ (flight' : Flight cqOf) (settled' : Nat → List Entry),
      Seen cqOf (w.ackRound command c client) flight' settled' := by
  have acking := seen.acking here
  unfold World.ackRound
  dsimp only
  split
  · exact ⟨flight, settled, acking.resume (by simp)⟩
  · next nonzero =>
      rcases pollKernel_cases acking.core command c nonzero with
        ⟨fails, core⟩ | ⟨answers, consumes⟩
      · generalize w.pollKernel command c (w.nodes c).ahead = answer
          at fails core
        obtain ⟨result, h⟩ := answer
        subst fails
        have now := acking.device core
        dsimp only
        split
        · next retired =>
            exact ⟨flight, settled, now.resume (by simpa using retired)⟩
        · exact ⟨flight, settled, now.retire.stay here⟩
      · have few := (acking.core.pending c).few
        rw [Nat.min_eq_left few] at consumes
        have settles := settle_eq acking.core consumes
        obtain ⟨flight', settled', after⟩ := acking.settle consumes
        generalize w.pollKernel command c (w.nodes c).ahead = answer
          at answers consumes settles after
        obtain ⟨result, h⟩ := answer
        have answered : result = _ := answers
        subst answered
        obtain ⟨listed, all⟩ := answer_all acking.core nonzero
        have fits : ¬(((flight.live c).take (w.nodes c).ahead).map
            Entry.wc = [] ∨ (((flight.live c).take (w.nodes c).ahead).map
              Entry.wc).length > (w.nodes c).ahead) := by
          rw [all]
          exact not_or.mpr ⟨listed, Nat.lt_irrefl _⟩
        refine ⟨flight', settled', ?_⟩
        -- an answer of this length passes both tests of the source
        dsimp only
        split
        · rw [all]
          exact after.stay here
        · rw [settles]
          exact after.stay here

/-! ## Polling through the kernel -/

/-- The command of `kernel_fresh` keeps the invariant. -/
theorem freshCommand (seen : Seen cqOf w flight settled) {c maximum : Nat}
    (here : w.call = .fresh c maximum) (command : Command) :
    Seen cqOf (w.freshCommand command c maximum) flight settled := by
  obtain ⟨core, handed, stands⟩ := seen
  rw [here] at core handed
  rw [Stands, here] at stands
  obtain ⟨nonzero, working, level⟩ := stands
  have zero : (Call.fresh c maximum).cursor = fun _ => 0 := rfl
  have nothing : ∀ other, (Call.fresh c maximum).out other = [] := fun _ => rfl
  rw [zero] at core
  unfold World.freshCommand
  rcases pollKernel_cases core command c nonzero with
    ⟨fails, still⟩ | ⟨answers, consumes⟩
  · generalize w.pollKernel command c maximum = answer at fails still
    obtain ⟨result, h⟩ := answer
    subst fails
    refine ⟨still.congr rfl rfl rfl rfl rfl fun _ => ⟨rfl, rfl, rfl, rfl⟩,
      fun other => ?_, trivial⟩
    have now := handed other
    rwa [nothing] at now
  · have within : 0 + min maximum (flight.live c).length ≤
        (flight.live c).length := by
      rw [Nat.zero_add]
      exact Nat.min_le_right _ _
    have moved := core.consumed consumes within
    rw [Nat.zero_add] at moved
    have consumer := congrFun consumes.consumers c
    rw [Function.update_self] at consumer
    generalize w.pollKernel command c maximum = answer
      at answers moved consumer
    obtain ⟨result, h⟩ := answer
    have answered : result = _ := answers
    subst answered
    have all : (((flight.live c).take maximum).map Entry.wc).length =
        min maximum (flight.live c).length := by
      rw [List.length_map, List.length_take]
    refine ⟨?_, fun other => ?_, working, level, ?_, ?_⟩
    · dsimp only
      rw [Call.cursor, all]
      exact moved.congr rfl rfl rfl rfl rfl fun _ => ⟨rfl, rfl, rfl, rfl⟩
    · have now := handed other
      rw [nothing] at now
      dsimp only
      rw [Call.out, ite_self]
      exact now
    · rw [all]
      by_cases few : maximum ≤ (flight.live c).length
      · rw [Nat.min_eq_left few]
      · rw [Nat.min_eq_right (by omega), List.take_length,
          List.take_of_length_le (by omega)]
    · have back : (h.cqs c).consumer -
          UInt32.ofNat (min maximum (flight.live c).length) =
            (w.device.cqs c).consumer := by
        have after : (h.cqs c).consumer = (w.device.cqs c).consumer +
            UInt32.ofNat (min maximum (flight.live c).length) := consumer
        rw [after, UInt32.add_sub_cancel]
      have same := masked_mod (w.device.cqs c).consumer 0
      rw [show UInt32.ofNat 0 = 0 from rfl, UInt32.add_zero,
        UInt32.add_zero] at same
      dsimp only
      rw [all, back, List.length_nil, show UInt32.ofNat 0 = 0 from rfl,
        UInt32.add_zero, cqConsumer]
      exact same

/-- The next completion to verify is of the first entry in flight, and the entry is
still in the ring. -/
theorem verified {c : Nat} {base : UInt32} {done left : List Wc} {wc : Wc}
    (core : Core flight settled w (Call.verify c base done (wc :: left)).cursor)
    (listed : wc :: left =
      ((flight.live c).take (wc :: left).length).map Entry.wc)
    (place : (base + UInt32.ofNat done.length).toNat % 64 =
      ((w.device.cqs c).consumer -
        UInt32.ofNat (wc :: left).length).toNat % 64) :
    ∃ entry rest, flight.live c = entry :: rest ∧ wc = entry.wc ∧
      left = (rest.take left.length).map Entry.wc ∧
      (w.device.cqs c).entry (base + UInt32.ofNat done.length) =
        entry.cqe := by
  rw [List.length_cons] at listed
  cases lives : flight.live c with
  | nil =>
      rw [lives, List.take_nil, List.map_nil] at listed
      cases listed
  | cons entry rest =>
      rw [lives, List.take_succ_cons, List.map_cons,
        List.cons.injEq] at listed
      refine ⟨entry, rest, rfl, listed.1, listed.2, ?_⟩
      have ring := core.kernel.rings c
      rw [Call.cursor, Function.update_self, lives, List.map_cons] at ring
      obtain ⟨is, -⟩ := ring.get (by decide) List.getElem?_cons_zero
      rw [window, show UInt32.ofNat 0 = 0 from rfl, UInt32.add_zero] at is
      rw [Hca.HardwareCq.entry, slotOf_congr place]
      exact is

/-- One round of the loop of `kernel_fresh` keeps the invariant. -/
theorem verifyRound (seen : Seen cqOf w flight settled) {c : Nat}
    {base : UInt32} {done left : List Wc}
    (here : w.call = .verify c base done left) :
    ∃ (flight' : Flight cqOf) (settled' : Nat → List Entry),
      Seen cqOf (w.verifyRound c base done left) flight' settled' := by
  obtain ⟨core, handed, stands⟩ := seen
  rw [here] at core handed
  rw [Stands, here] at stands
  obtain ⟨working, level, listed, place⟩ := stands
  have mine := handed c
  rw [Call.out, if_pos rfl] at mine
  have others : ∀ other, other ≠ c → Handed (w.handed other) []
      (w.nodes other).retired (told flight settled w other) := by
    intro other differs
    have theirs := handed other
    rwa [Call.out, if_neg (Ne.symm differs)] at theirs
  cases left with
  | nil =>
      rw [Call.cursor, List.length_nil, Function.update_eq_self] at core
      exact ⟨flight, settled, Seen.hand core working mine others⟩
  | cons wc left =>
      obtain ⟨entry, rest, entries, rfl, onward, there⟩ :=
        verified core listed place
      have next : (flight.live c)[0]? = some entry := by
        rw [entries]
        rfl
      obtain ⟨context, decodes, ledger, coherent, producers⟩ :=
        core.decode (level.symm ▸ next)
      have through : 1 ≤ (Call.verify c base done (entry.wc :: left)).cursor
          c := by
        rw [Call.cursor, Function.update_self]
        exact Nat.succ_le_succ (Nat.zero_le _)
      obtain ⟨flight', live, after⟩ := core.verify level through next ledger
        coherent producers
      refine ⟨flight', Function.update settled c (settled c ++ [entry]), ?_⟩
      rw [World.verifyRound, there, decodes]
      dsimp only
      have agrees : same entry.wc
          (completionOf entry.cqe entry.record false) = true :=
        same_publish (completionOf_user _ _ _)
      rw [if_pos agrees, completionOf_user, if_neg (by simp)]
      -- the entry was settled without ever being pending
      have drops : (flight.live c).drop 1 = rest := by
        rw [entries]
        rfl
      refine ⟨?_, fun other => ?_, working, level, ?_, ?_⟩
      · rw [Call.cursor, Function.update_self, Function.update_idem,
          List.length_cons, Nat.add_sub_cancel] at after
        exact after.congr rfl rfl rfl rfl rfl fun _ => ⟨rfl, rfl, rfl, rfl⟩
      · rw [Call.out, told]
        dsimp only
        by_cases one : c = other
        · subst one
          rw [if_pos rfl, level, List.take_zero, List.append_nil,
            Function.update_self, List.map_append, List.map_singleton]
          have now := mine.grow entry.wc
          rwa [told, level, List.take_zero, List.append_nil] at now
        · rw [if_neg one, live, Function.update_of_ne (Ne.symm one),
            Function.update_of_ne (Ne.symm one)]
          exact others other (Ne.symm one)
      · rw [live, Function.update_self, drops]
        exact onward
      · rw [List.length_append, List.length_singleton]
        rw [List.length_cons] at place
        exact mod_next place

/-! ## Starting a call, and posting -/

theorem out_of_idle (here : w.call = .idle) :
    w.call.cursor = (fun _ => 0) ∧ ∀ c, w.call.out c = [] := by
  rw [here]
  exact ⟨rfl, fun _ => rfl⟩

/-- The running call is replaced by one that hands out nothing yet. -/
theorem replace (seen : Seen cqOf w flight settled) {call : Call}
    (before : w.call.cursor = fun _ => 0) (out : ∀ c, w.call.out c = [])
    (after : call.cursor = fun _ => 0) (out' : ∀ c, call.out c = [])
    (stands : Stands flight { w with call := call }) :
    Seen cqOf { w with call := call } flight settled := by
  obtain ⟨core, handed, -⟩ := seen
  rw [before] at core
  refine ⟨?_, fun c => ?_, stands⟩
  · dsimp only
    rw [after]
    exact core.congr rfl rfl rfl rfl rfl fun _ => ⟨rfl, rfl, rfl, rfl⟩
  · have now := handed c
    rw [out] at now
    dsimp only
    rw [out']
    exact now

/-- The start of `poll_cq` keeps the invariant. -/
theorem startPoll (seen : Seen cqOf w flight settled) (here : w.call = .idle)
    (c maximum : Nat) : Seen cqOf (w.startPoll c maximum) flight settled := by
  obtain ⟨before, out⟩ := out_of_idle here
  unfold World.startPoll
  split
  · exact seen
  · next can =>
      obtain ⟨nonzero, working⟩ := not_or.mp can
      refine seen.replace before out rfl (fun other => ?_)
        ⟨nonzero, by simpa using working, rfl⟩
      rw [Call.out, ite_self]

/-- The start of a post keeps the invariant. -/
theorem startPost (seen : Seen cqOf w flight settled) (here : w.call = .idle)
    (p : Post) : Seen cqOf (w.startPost p) flight settled := by
  obtain ⟨before, out⟩ := out_of_idle here
  unfold World.startPost
  dsimp only
  split
  · exact seen
  · split
    · refine seen.replace before out rfl (fun other => ?_) trivial
      rw [Call.out, Then.out, ite_self]
    · exact seen.replace before out rfl (fun _ => rfl) trivial

/-- What an application may post: where the kernel takes every request of a
queue pair as signalled the application flags each send so too, for an unflagged
one is not recorded; and no refused part of a list reaches over the wrap of the
producer index. -/
def Sendable (w : World) (command : Command) (p : Post) : Prop :=
  match p with
  | .send q wrs =>
      (w.signalAll q = true → ∀ wr ∈ wrs, wr.signaled = true) ∧
        Core.Inside w sendEntry (fun h => postSend h q (w.signalAll q)) command p
          wrs
  | .receive q wrs =>
      Core.Inside w receiveEntry (fun h => postRecv h q) command p wrs

/-- An attempt to post leaves the nodes and what was handed out alone. -/
theorem attempted (seen : Seen cqOf w flight settled) {p : Post} {number : Nat}
    (here : w.call = .post p number) {command : Command}
    (can : Sendable w command p) :
    ∃ flight' : Flight cqOf, flight'.live = flight.live ∧
      Core flight' settled (w.postRound command p number) (fun _ => 0) ∧
      (w.postRound command p number).nodes = w.nodes ∧
      (w.postRound command p number).handed = w.handed ∧
      ((w.postRound command p number).call = .idle ∨
        (w.postRound command p number).call =
          .ack (w.cqOf p) (.post p 1)) := by
  have core := seen.core
  rw [here] at core
  cases p with
  | send q wrs =>
      exact core.attempt (fun _ => rfl) number (fun wr member h grant =>
        postSend_does h q grant fun all => can.1 all wr member) can.2
  | receive q wrs =>
      exact core.attempt (fun _ => rfl) number (fun wr _ h grant =>
        postRecv_does h q grant wr) can

/-- An attempt to post keeps the invariant. -/
theorem postRound (seen : Seen cqOf w flight settled) {p : Post} {number : Nat}
    (here : w.call = .post p number) {command : Command}
    (can : Sendable w command p) :
    ∃ flight' : Flight cqOf,
      Seen cqOf (w.postRound command p number) flight' settled := by
  obtain ⟨flight', live, moved, nodes, hands, calls⟩ := seen.attempted here can
  have handed := seen.handed
  rw [here] at handed
  have clear : (w.postRound command p number).call.cursor = (fun _ => 0) ∧
      ∀ c, (w.postRound command p number).call.out c = [] := by
    rcases calls with idle | acks
    · exact out_of_idle idle
    · rw [acks]
      refine ⟨rfl, fun c => ?_⟩
      rw [Call.out, Then.out, ite_self]
  refine ⟨flight', ?_, fun c => ?_, ?_⟩
  · rw [clear.1]
    exact moved
  · rw [clear.2, hands, nodes, told, live, nodes]
    exact handed c
  · rw [Stands]
    rcases calls with idle | acks
    · rw [idle]
      trivial
    · rw [acks]
      trivial

/-! ## The device and the transport -/

/-- Entries are added after those that matter to the running call. -/
theorem stands_grow {w' : World} {flight' : Flight cqOf}
    (stands : Stands flight w) (call : w'.call = w.call)
    (nodes : w'.nodes = w.nodes)
    (consumers : ∀ c, (w'.device.cqs c).consumer = (w.device.cqs c).consumer)
    (early : ∀ c count, count ≤ (flight.live c).length →
      (flight'.live c).take count = (flight.live c).take count) :
    Stands flight' w' := by
  unfold Stands at stands ⊢
  rw [call, nodes]
  cases here : w.call with
  | poll c maximum base out =>
      rw [here] at stands
      dsimp only at stands ⊢
      rw [cqConsumer, consumers]
      exact stands
  | fresh c maximum =>
      rw [here] at stands
      exact stands
  | verify c base done left =>
      rw [here] at stands
      obtain ⟨working, level, listed, place⟩ := stands
      have few : left.length ≤ (flight.live c).length := by
        have counted := congrArg List.length listed
        rw [List.length_map, List.length_take] at counted
        omega
      refine ⟨working, level, ?_, ?_⟩
      · rw [early c _ few]
        exact listed
      · rw [consumers]
        exact place
  | idle => trivial
  | ack c client => trivial
  | post p number => trivial

/-- The device's next completion keeps the invariant. -/
theorem write (seen : Seen cqOf w flight settled) {c : Nat} {entry : Entry}
    (writes : Core.Writes cqOf w c entry) :
    ∃ flight' : Flight cqOf, Seen cqOf (w.write c entry) flight' settled := by
  obtain ⟨core, handed, stands⟩ := seen
  obtain ⟨flight', live, after⟩ := core.write writes
  have early : ∀ other count, count ≤ (flight.live other).length →
      (flight'.live other).take count = (flight.live other).take count := by
    intro other count few
    rw [live]
    by_cases one : other = c
    · subst one
      rw [Function.update_self, List.take_append_of_le_length few]
    · rw [Function.update_of_ne one]
  refine ⟨flight', after, fun other => ?_, ?_⟩
  · have same : told flight' settled (w.write c entry) other =
        told flight settled w other := by
      rw [told, told, ← early other _ (core.pending other).few]
      rfl
    rw [same]
    exact handed other
  · refine stands_grow stands rfl rfl (fun other => ?_) early
    rw [World.write]
    dsimp only
    rw [Device.cqs_setCq]
    by_cases one : other = c
    · subst one
      rw [Function.update_self]
    · rw [Function.update_of_ne one]

/-- The loss of the transport, or of the rings, keeps the invariant. -/
theorem device (seen : Seen cqOf w flight settled) {h : Device}
    (index : h.index = w.device.index) (qps : h.qps = w.device.qps)
    (sound : h.Sound) (calm : h.quarantined = false →
      w.device.quarantined = false)
    (rings : ∀ c, (h.cqs c).object = (w.device.cqs c).object ∧
      ((h.cqs c).live = true → (w.device.cqs c).live = true) ∧
      (h.cqs c).ring = (w.device.cqs c).ring ∧
      (h.cqs c).consumer = (w.device.cqs c).consumer) :
    Seen cqOf { w with device := h } flight settled where
  core := seen.core.device index qps sound calm rings
  handed := seen.handed
  stands := stands_grow seen.stands rfl rfl (fun c => (rings c).2.2.2)
    fun _ _ _ => rfl

end Seen

/-! ## Any step -/

/-- What the device and the application may do: the device writes the completions
it owes, and every post is one that an application may make. -/
def Allowed (cqOf : Nat → Bool → Nat) (w : World) : Action → Prop
  | .write c entry => Core.Writes cqOf w c entry
  | .next command => ∀ p number, w.call = .post p number →
      Seen.Sendable w command p
  | _ => True

/-- Every step keeps the invariant. -/
theorem Seen.act {cqOf : Nat → Bool → Nat} {w after : World}
    {flight : Flight cqOf} {settled : Nat → List Entry} {action : Action}
    (seen : Seen cqOf w flight settled) (allowed : Allowed cqOf w action)
    (taken : w.act action = some after) :
    ∃ (flight' : Flight cqOf) (settled' : Nat → List Entry),
      Seen cqOf after flight' settled' := by
  cases World.acts taken with
  | startPoll idle c maximum =>
      exact ⟨flight, settled, seen.startPoll idle c maximum⟩
  | startPost idle p => exact ⟨flight, settled, seen.startPost idle p⟩
  | next command =>
      rw [World.next]
      cases here : w.call with
      | idle => exact ⟨flight, settled, seen⟩
      | poll c maximum base out =>
          exact ⟨flight, settled, seen.pollRound here⟩
      | ack c client => exact seen.ackRound here command
      | fresh c maximum =>
          exact ⟨flight, settled, seen.freshCommand here command⟩
      | verify c base done left => exact seen.verifyRound here
      | post p number =>
          obtain ⟨flight', after⟩ := seen.postRound here (allowed p number here)
          exact ⟨flight', settled, after⟩
  | write c entry =>
      obtain ⟨flight', after⟩ := seen.write allowed
      exact ⟨flight', settled, after⟩
  | quarantine =>
      exact ⟨flight, settled, seen.device rfl rfl (.inl rfl)
        (fun here => by cases here)
        fun _ => ⟨rfl, id, rfl, rfl⟩⟩
  | quiesce =>
      exact ⟨flight, settled, seen.device rfl rfl
        (seen.core.kernel.sound.quiet ⟨rfl, rfl, rfl, fun _ => rfl,
          fun _ => rfl, fun _ => rfl, id⟩) id
        fun _ => ⟨rfl, (fun here => by cases here), rfl, rfl⟩⟩

end Mirror
end Mcdma
