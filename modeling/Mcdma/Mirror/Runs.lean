import Mcdma.Mirror.Retired

/-!
# Runs of the user provider

From a state where the kernel and the process have the same requests, no
completion waits and every queue pair is posted through the kernel, whatever
order the calls, the device and the transport take their steps in, the
application is handed every completion once and in the order of its ring, no
entry of a ring is written over before the kernel has consumed it, the mirror is
the kernel's ledger less what was reported ahead of it, and a queue is retired
only when its ring or the kernel is lost.  This holds while each send that will
complete is flagged so and no refused part of a list reaches over the wrap of the
producer index.
-/

namespace Mcdma
namespace Mirror

open Hca (Cqe Device HardwareCq HardwareQp Polled slotOf window)

/-- No call runs, no completion waits, every queue pair is posted through the
kernel, and the kernel, the process and the device have the same requests. -/
structure Synced (cqOf : Nat → Bool → Nat) (w : World) : Prop where
  idle : w.call = .idle
  coherent : Coherent cqOf w.device w.context
  calm : w.device.quarantined = false
  sound : w.device.Sound
  rings : ∀ c, Ring (w.device.cqs c) (w.device.cqs c).consumer []
  hardware : ∀ c, w.hardware c = (w.device.cqs c).consumer
  level : ∀ c, (w.nodes c).ahead = 0 ∧ (w.nodes c).pendingCount = 0
  mirror : w.context.ledger = kernelLedger w.device
  owed : w.owed = kernelLedger w.device
  producers : ∀ q send, ((w.context.qps q).side send).producer =
    producerOf (w.device.qps q) send
  fresh : ∀ c, w.written c = [] ∧ w.handed c = []

variable {cqOf : Nat → Bool → Nat} {start w : World}

/-- It is a state the invariant holds in. -/
theorem Synced.seen (synced : Synced cqOf start) :
    ∃ (flight : Flight cqOf) (settled : Nat → List Entry),
      Seen cqOf start flight settled := by
  let flight : Flight cqOf :=
    { held := kernelLedger start.device
      live := fun _ => []
      nodup := fun _ => List.nodup_nil
      logged := fun _ _ member => absurd member List.not_mem_nil }
  have whole : ∀ cursor, flight.view cursor = kernelLedger start.device := by
    intro cursor
    funext spot
    simp [Log.view, Log.taken, flight]
  refine ⟨flight, fun _ => [], ?_, fun c => ?_, ?_⟩
  · rw [synced.idle]
    refine ⟨⟨synced.coherent, fun c entry member => ?_, fun c => ?_,
      synced.sound, fun _ => (whole _).symm⟩, fun c => Nat.zero_le _, ?_,
      fun _ => synced.producers, ?_, ?_, fun c => (synced.fresh c).1,
      fun c => ⟨?_, ?_, ?_⟩, fun c => ?_⟩
    · exact absurd member List.not_mem_nil
    · have zero : UInt32.ofNat (Call.idle.cursor c) = 0 := rfl
      rw [zero, UInt32.sub_zero]
      exact synced.rings c
    · rw [whole]
      exact synced.mirror
    · rw [whole]
      exact synced.owed
    · exact synced.coherent.bounded _ (.refl _) synced.sound synced.calm
    · rw [(synced.level c).1, (synced.level c).2]
    · rw [(synced.level c).1]
      exact Nat.zero_le _
    · intro spot entry small
      rw [(synced.level c).1] at small
      exact absurd small (Nat.not_lt_zero _)
    · have zero : UInt32.ofNat (Call.idle.cursor c) = 0 := rfl
      rw [zero, UInt32.sub_zero, synced.hardware]
      exact (UInt32.add_zero _).symm
  · have nothing : told flight (fun _ => []) start c = [] := by
      simp [told, flight]
    rw [nothing, (synced.fresh c).2, synced.idle]
    exact ⟨fun _ => rfl, List.prefix_refl _⟩
  · rw [Stands, synced.idle]
    trivial

/-- Every state reached keeps it. -/
theorem seen_of_reaches (synced : Synced cqOf start)
    (reached : (consume start).Reaches (Allowed cqOf) w) :
    ∃ (flight : Flight cqOf) (settled : Nat → List Entry),
      Seen cqOf w flight settled :=
  reached.invariant
    (fun w => ∃ (flight : Flight cqOf) (settled : Nat → List Entry),
      Seen cqOf w flight settled) synced.seen
    fun _ _ _ _ ⟨_, _, seen⟩ allowed taken => seen.act allowed taken

/-- The device is ready, the ring that is polled is live, and the kernel is
reached. -/
def Healthy (w : World) (action : Action) : Prop := ∀ c, ¬Lost w action c

/-! ## A run of one queue pair -/

/-- The device with one queue pair, ready to receive, on one completion
queue. -/
def sampleDevice : Device :=
  [Device.Operation.createCq 0 true (.done 7),
    .createQp 3 1 0 0 none true (.done 9),
    .transition 3 0x502 true (.done 0), .attach 3 (some 0)].foldl
      Device.perform (Device.init false 0)

/-- A context with that queue pair. -/
def sample : World where
  device := sampleDevice
  signalAll := fun _ => false
  context := ⟨[3], fun _ => ⟨9, 0, 0, UserQueue.reset, UserQueue.reset, false,
    false⟩⟩
  nodes := fun _ => ⟨false, 0, fun _ => ⟨0, 0, 0, 0, 0, 0, 0, false, 0, 0⟩, 0, 0,
    0⟩
  call := .idle
  hardware := fun _ => 0
  owed := fun _ => none
  written := fun _ => []
  handed := fun _ => []

/-- Its queue pairs. -/
theorem sampleDevice_qps (q : Nat) : sampleDevice.qps q =
    if q = 3 then
      { HardwareQp.init with
        object := ⟨9, true⟩
        buffer := true
        pd := 1
        state := 1
        clientContext := some 0 }
    else HardwareQp.init := by
  by_cases one : q = 3
  · subst one
    rfl
  · rw [if_neg one]
    have same : sampleDevice.qps = Function.update (Function.update
        (Function.update (fun _ => HardwareQp.init) 3 _) 3 _) 3 _ := rfl
    rw [same, Function.update_of_ne one, Function.update_of_ne one,
      Function.update_of_ne one]

theorem sampleDevice_cqs (c : Nat) : sampleDevice.cqs c =
    if c = 0 then
      { HardwareCq.init with
        object := ⟨7, true⟩
        buffer := true
        ring := HardwareCq.blank
        live := true
        references := 2 }
    else HardwareCq.init := by
  by_cases one : c = 0
  · subst one
    rfl
  · rw [if_neg one]
    have same : sampleDevice.cqs = Function.update (Function.update
        (Function.update (fun _ => HardwareCq.init) 0 _) 0 _) 0 _ := rfl
    rw [same, Function.update_of_ne one, Function.update_of_ne one,
      Function.update_of_ne one]

theorem sampleDevice_reached : (Device.machine false 0).Reach sampleDevice :=
  .ofRun .start
    [.createCq 0 true (.done 7), .createQp 3 1 0 0 none true (.done 9),
      .transition 3 0x502 true (.done 0), .attach 3 (some 0)] rfl

theorem sample_synced : Synced (fun _ _ => 0) sample := by
  have empty : kernelLedger sampleDevice = fun _ => none := by
    funext spot
    rw [kernelLedger, sampleDevice_qps]
    split <;> cases spot.2.1 <;> rfl
  have nothing : sample.context.ledger = fun _ => none := by
    funext spot
    rw [Context.ledger]
    cases spot.2.1 <;> rfl
  refine ⟨rfl, ⟨fun q send => ?_, fun q send => ?_, fun qpn q found => ?_⟩, rfl,
    Device.reach_sound sampleDevice_reached, fun c => ?_, fun c => ?_,
    fun c => ⟨rfl, rfl⟩, nothing.trans empty.symm, empty.symm,
    fun q send => ?_, fun c => ⟨rfl, rfl⟩⟩
  · dsimp only [sample]
    rw [sampleDevice_qps]
    split <;> cases send <;> rfl
  · cases send <;> rfl
  · obtain ⟨-, -, indexed, -⟩ := Device.accounts_hold sampleDevice_reached rfl
    obtain ⟨live, same⟩ := (indexed qpn q).mp found
    have three : q = 3 := by
      by_contra other
      rw [Device.Live, sampleDevice_qps, if_neg other] at live
      cases live
    subst three
    have nine : qpn = 9 := same.symm
    subst nine
    exact ⟨rfl, rfl, rfl, rfl⟩
  · dsimp only [sample]
    rw [sampleDevice_cqs]
    split
    · exact ⟨fun nonempty => absurd rfl nonempty, fun _ => rfl, fun _ => .blank _⟩
    · exact ⟨fun nonempty => absurd rfl nonempty, (fun live => by cases live),
        fun live => by cases live⟩
  · dsimp only [sample]
    rw [sampleDevice_cqs]
    split <;> rfl
  · dsimp only [sample]
    rw [sampleDevice_qps]
    split <;> cases send <;> rfl

/-- The completion of its first receive. -/
def sampleEntry : Entry where
  cqe := fun spot =>
    if spot.val = 47 then 64 else if spot.val = 59 then 9
    else if spot.val = 63 then 0x20 else 0
  q := 3
  record := recordAt 0 5 0x0a 64

/-- A command that reaches the kernel and is granted everything. -/
def granted : Command := ⟨true, fun _ => ⟨true, true⟩⟩

/-- A receive is posted, -/
def posting : World := sample.startPost (.receive 3 [⟨5, [⟨4096, 2, 64⟩]⟩])

/-- and the kernel has accepted it. -/
def posted : World := posting.next granted

/-- The device has written its completion. -/
def completed : World := posted.write 0 sampleEntry

/-- The queue is polled, -/
def polling : World := completed.startPoll 0 4

/-- the completion is reported, -/
def reporting : World := polling.next granted

/-- and handed out. -/
def polled : World := reporting.next granted

example : polled.handed 0 = [sampleEntry.wc] := by decide +kernel

/-- The device is ready, and only the ring of the sample is polled. -/
theorem healthy_sample {w : World} {action : Action}
    (ready : w.device.ready = true) (live : (w.device.cqs 0).live = true)
    (only : ∀ c maximum base out, w.call = .poll c maximum base out → c = 0)
    (asked : ∀ command, action = .next command → command = granted) :
    Healthy w action := by
  rintro c (⟨maximum, base, out, polls, dead⟩ | idle | ⟨command, same, lost⟩)
  · rw [only c maximum base out polls, live] at dead
    cases dead
  · rw [ready] at idle
    cases idle
  · rw [asked command same] at lost
    cases lost

/-- What the device and the application do in a healthy run of it. -/
def Fine (w : World) (action : Action) : Prop :=
  Allowed (fun _ _ => 0) w action ∧ Healthy w action

theorem completed_reached : (consume sample).Reaches Fine completed := by
  have first : (consume sample).Reaches Fine posting := by
    refine .step .start (.startPost _) ⟨trivial, ?_⟩ rfl
    exact healthy_sample rfl rfl (fun _ _ _ _ here => by cases here)
      fun _ here => by cases here
  have second : (consume sample).Reaches Fine posted := by
    refine .step first (.next granted) ⟨fun p number here => ?_, ?_⟩ rfl
    · have one : Call.post (.receive 3 [⟨5, [⟨4096, 2, 64⟩]⟩]) 0 =
        .post p number := here
      cases one
      intro spot low high
      have lower : 1 < spot := low
      have upper : spot ≤ 1 := high
      omega
    · exact healthy_sample rfl rfl (fun _ _ _ _ here => by cases here)
        fun _ same => by cases same; rfl
  refine .step second (.write 0 sampleEntry)
    ⟨⟨rfl, ⟨?_, ?_, ?_⟩, rfl, ?_, ?_⟩, ?_⟩ rfl
  · decide +kernel
  · decide +kernel
  · decide +kernel
  · decide +kernel
  · decide +kernel
  · exact healthy_sample rfl rfl (fun _ _ _ _ here => by cases here)
      fun _ here => by cases here

theorem polling_reached : (consume sample).Reaches Fine polling := by
  refine .step completed_reached (.startPoll 0 4) ⟨trivial, ?_⟩ rfl
  exact healthy_sample rfl rfl (fun _ _ _ _ here => by cases here)
    fun _ here => by cases here

/-- A step of its poll is fine. -/
theorem fine_poll {w : World} {base : UInt32} {out : List Wc}
    (here : w.call = .poll 0 4 base out) (ready : w.device.ready = true)
    (live : (w.device.cqs 0).live = true) : Fine w (.next granted) := by
  refine ⟨fun p number posts => ?_,
    healthy_sample ready live (fun _ _ _ _ polls => ?_)
      fun _ same => by cases same; rfl⟩
  · rw [here] at posts
    cases posts
  · rw [here] at polls
    cases polls
    rfl

theorem polled_reached : (consume sample).Reaches Fine polled :=
  .step
    (.step polling_reached (.next granted) (fine_poll rfl rfl rfl) rfl)
    (.next granted) (fine_poll rfl rfl rfl) rfl

/-- The same run as one of those where the kernel may fail. -/
theorem Fine.allowed {w : World} (reached : (consume sample).Reaches Fine w) :
    (consume sample).Reaches (Allowed fun _ _ => 0) w :=
  reached.mono fun _ _ fine => fine.1

/-- The queue is polled after its ring has been lost. -/
def lostRing : World := { polling with device := quiesce polling.device }

theorem lostRing_reached :
    (consume sample).Reaches (Allowed fun _ _ => 0) lostRing :=
  .step (Fine.allowed polling_reached) .quiesce trivial rfl

/-- The poll fails, and the queue is retired. -/
def retired : World := lostRing.next granted

theorem retired_reached :
    (consume sample).Reaches (Allowed fun _ _ => 0) retired :=
  .step lostRing_reached (.next granted) (fun _ _ here => by cases here) rfl

/-! ## One entry, decoded twice -/

/-- The library and the kernel decode one entry alike: for a request that both
have recorded they make the same completion, and for one that the process has
posted itself the library accepts what the kernel makes of its counter. -/
theorem decoders_agree {h after : Device} {c : Nat} {cqe : Cqe}
    {polled : Polled} {mc rest : Context} {completion : UserCompletion}
    (here : (h.cqs c).entry (h.cqs c).consumer = cqe)
    (polls : h.poll c = (polled, after))
    (consumes : polled.result = .success ∨ polled.result = .error)
    (decodes : userDecode mc cqe = some (completion, rest))
    (posted : completion.user = polled.user)
    (recorded : ∀ q taken, polled.user = false →
      mc.lookupQp cqe.qpn = some q →
      ((mc.qps q).side (sendSide cqe)).complete cqe.counter = some taken →
      taken.1 = ofWork polled.work) :
    same (wcOf polled) completion = true ∧
      (polled.user = false → wcOf polled = publish completion) := by
  obtain ⟨can, made, counter⟩ := poll_reports here polls consumes
  unfold userDecode at decodes
  rw [if_neg (by simp [can])] at decodes
  obtain ⟨q, found, decodes⟩ := Option.bind_eq_some_iff.mp decodes
  obtain ⟨taken, took, decodes⟩ := Option.map_eq_some_iff.mp decodes
  cases decodes
  rw [completionOf_user] at posted
  rw [posted]
  cases user : polled.user with
  | false =>
      rw [user] at made
      have all : wcOf polled =
          publish (completionOf cqe taken.1 false) := by
        rw [recorded q taken user found took, publish_completionOf can]
        exact congrArg wcOf made
      exact ⟨by rw [all]; exact same_publish (completionOf_user _ _ _),
        fun _ => all⟩
  | true =>
      rw [user, counter user] at made
      refine ⟨?_, fun other => by cases other⟩
      rw [made]
      exact same_unrecorded can taken.1 (failed cqe)

/-- The entry of the sample is decoded alike. -/
theorem decoders_agree_completed : ∃ completion rest,
    userDecode completed.context sampleEntry.cqe = some (completion, rest) ∧
      same (wcOf (completed.device.poll 0).1) completion = true := by
  obtain ⟨⟨completion, rest⟩, decodes⟩ := Option.isSome_iff_exists.mp
    (show (userDecode completed.context sampleEntry.cqe).isSome = true by
      decide +kernel)
  have looked : completed.context.lookupQp sampleEntry.cqe.qpn = some 3 := by
    decide +kernel
  have record : (((completed.context.qps 3).side
      (sendSide sampleEntry.cqe)).complete sampleEntry.cqe.counter).map
        Prod.fst = some (ofWork (completed.device.poll 0).1.work) := by
    decide +kernel
  have user : (userDecode completed.context sampleEntry.cqe).map
      (fun decoded => decoded.1.user) =
        some (completed.device.poll 0).1.user := by
    decide +kernel
  rw [decodes] at user
  have here : (completed.device.cqs 0).entry
      (completed.device.cqs 0).consumer = sampleEntry.cqe := by
    decide +kernel
  have consumes : (completed.device.poll 0).1.result = .success := by
    decide +kernel
  refine ⟨completion, rest, decodes, (decoders_agree here
    (Prod.mk.eta (p := completed.device.poll 0)).symm (.inl consumes) decodes
    (Option.some.inj user) ?_).1⟩
  intro q taken _ found took
  have same : q = 3 := Option.some.inj (found.symm.trans looked)
  subst same
  have took' : ((completed.context.qps 3).side
      (sendSide sampleEntry.cqe)).complete sampleEntry.cqe.counter =
        some taken := took
  rw [took'] at record
  exact Option.some.inj record

/-! ## What the application is handed -/

/-- The entries the device wrote and the kernel has not consumed are all in the
ring, from the kernel's consumer index on: none of them was written over. -/
theorem ring_keeps (synced : Synced cqOf start)
    (reached : (consume start).Reaches (Allowed cqOf) w) (c : Nat) :
    ∃ left : List Entry, left <:+ w.written c ∧ left.length ≤ 31 ∧
      Ring (w.device.cqs c) (w.device.cqs c).consumer
        (left.map Entry.cqe) ∧
      w.hardware c =
        (w.device.cqs c).consumer + UInt32.ofNat left.length := by
  obtain ⟨flight, settled, core, -, -⟩ := seen_of_reaches synced reached
  have few := core.length_le c
  have within := core.within c
  refine ⟨(flight.live c).drop (w.call.cursor c), ?_, ?_, ?_, ?_⟩
  · rw [core.written]
    exact (List.drop_suffix _ _).trans (List.suffix_append _ _)
  · rw [List.length_drop]
    omega
  · rw [List.map_drop]
    have within' : w.call.cursor c ≤ ((flight.live c).map Entry.cqe).length := by
      rwa [List.length_map]
    have ring := (core.kernel.rings c).drop (by rw [List.length_map]; omega)
      within'
    rwa [UInt32.sub_add_cancel] at ring
  · rw [core.hardware, List.length_drop]
    exact sub_add_ofNat _ within

/-- The kernel has not consumed the completion that was handed out. -/
theorem ring_keeps_polled : ∃ left : List Entry, left <:+ [sampleEntry] ∧
    left.length ≤ 31 ∧
    Ring (polled.device.cqs 0) (polled.device.cqs 0).consumer
      (left.map Entry.cqe) ∧
    polled.hardware 0 =
      (polled.device.cqs 0).consumer + UInt32.ofNat left.length :=
  ring_keeps sample_synced (Fine.allowed polled_reached) 0

/-! ## What the mirror holds -/

/-- Nothing is handed out for a retired queue, and it stays retired. -/
theorem retired_final (idle : start.call = .idle)
    (reached : (consume start).Reach w) {c : Nat}
    (retired : (w.nodes c).retired = true) {later : World}
    (onward : (consume w).Reach later) :
    (later.nodes c).retired = true ∧ later.handed c = w.handed c := by
  have works : w.Works := by
    refine reached.invariant World.Works ?_ fun _ _ _ works taken =>
      (works.act taken).1
    change start.Works
    rw [World.Works, idle]
    trivial
  have all : later.Works ∧ (later.nodes c).retired = true ∧
      later.handed c = w.handed c := by
    refine onward.invariant (fun later => later.Works ∧
      (later.nodes c).retired = true ∧ later.handed c = w.handed c)
      ⟨works, retired, rfl⟩ ?_
    rintro before next action ⟨works, was, handed⟩ taken
    obtain ⟨works', stays⟩ := works.act taken
    obtain ⟨still, same⟩ := stays.stays c was
    exact ⟨works', still, same.trans handed⟩
  exact all.2

/-- Another poll of the queue that was retired. -/
theorem retired_final_polled :
    ((retired.startPoll 0 4).nodes 0).retired = true ∧
      (retired.startPoll 0 4).handed 0 = retired.handed 0 :=
  retired_final rfl (retired_reached.mono fun _ _ _ => trivial) rfl
    (.step .start (.startPoll 0 4) trivial rfl)

end Mirror
end Mcdma
