import Mcdma.Setup.Mailbox

/-!
# No request is lost silently

While the thread is in its loop, a request the client still waits for has been
handed over, is the one the thread takes next, or was staged before the link
last came up.  The reconnect path clears the request word, samples the last
sequence and only then bumps the generation, so whatever was staged before the
sample was staged in an earlier generation.
-/

namespace Mcdma
namespace Setup

@[simp] theorem wordSeq_word (seq len : UInt32) :
    wordSeq (word seq len) = seq := by
  apply UInt32.toBitVec_inj.mp
  ext i below
  have whole : 32 + i < 64 := by omega
  have half : i < 64 := by omega
  simp [wordSeq, word, whole, half, BitVec.getLsbD_eq_getElem below]

@[simp] theorem wordSeq_zero : wordSeq 0 = 0 := by
  decide

namespace ThreadPc

/-- The link is down, or comes up with the next store. -/
def off : ThreadPc → Bool
  | .connecting | .clearRequest | .clearReady | .clearDone | .sample | .raise
  | .lowerWord => true
  | _ => false

/-- The request word has been cleared and `last` not yet sampled. -/
def cleared : ThreadPc → Bool
  | .clearReady | .clearDone | .sample => true
  | _ => false

/-- The generation has been bumped and the link has not failed since. -/
def live : ThreadPc → Bool → Bool
  | .top, up => up
  | .publish, _ => true
  | .progress, _ => true
  | .load, _ => true
  | .service, _ => true
  | .refuse _, _ => true
  | .transfer _, _ => true
  | .await _, _ => true
  | .finish _ _, _ => true
  | _, _ => false

/-- `last` has been sampled since the request word was cleared. -/
def sampled (pc : ThreadPc) (up : Bool) : Bool :=
  pc = .raise || pc = .bump || pc.live up

theorem live_of_loops {pc : ThreadPc} {up : Bool} (on : up = true)
    (loops : pc.loops = true) : pc.live up = true := by
  subst on
  cases pc <;> simp_all [ThreadPc.loops, ThreadPc.live]

end ThreadPc

namespace Mailbox

/-- The request has been handed over, or is refused for its length. -/
def Settled (m : Mailbox) (call : Staged) : Prop :=
  m.Handed call ∨ tooLong m.b call.word = true

/-- What holds of the word the thread works on. -/
def Holding (m : Mailbox) : Prop :=
  match m.pc with
  | .transfer w => (∃ call ∈ m.staged, call.word = w) ∧
      tooLong m.b w = false ∧ wordSeq w = m.last ∧
      wordSeq w ∉ m.handed.map wordSeq
  | .refuse w => (∃ call ∈ m.staged, call.word = w) ∧ tooLong m.b w = true
  | .await w | .finish w _ => w ∈ m.handed
  | _ => True

/-- What holds at every load and store. -/
structure Inv (m : Mailbox) : Prop where
  unique : ∀ first ∈ m.staged, ∀ second ∈ m.staged,
    wordSeq first.word = wordSeq second.word → first = second
  nonzero : ∀ call ∈ m.staged, wordSeq call.word ≠ 0
  request : m.request = 0 ∨ ∃ call ∈ m.staged, call.word = m.request
  last : m.last = 0 ∨ m.last ∈ m.used
  handed : ∀ w ∈ m.handed, (∃ call ∈ m.staged, call.word = w) ∧
    tooLong m.b w = false
  once : (m.handed.map wordSeq).Nodup
  answer : wordSeq m.done = 0 ∨ wordSeq m.done ∈ m.used
  done : ∀ call ∈ m.staged, wordSeq m.done = wordSeq call.word →
    m.Settled call
  counted : m.generation = UInt64.ofNat m.ups ∧
    m.generationWord = UInt64.ofNat m.ups
  noted : ∀ call ∈ m.staged, call.noted ≤ m.ups ∧
    call.generation = UInt64.ofNat call.noted
  notes : ∀ generation ups, m.client = .noted generation ups →
    ups ≤ m.ups ∧ generation = UInt64.ofNat ups
  waits : ∀ call, m.client = .waits call → call ∈ m.staged
  past : ∀ call ∈ m.staged, m.client ≠ .waits call →
    m.Settled call ∨ call.noted < m.ups
  off : m.pc.off = true → m.up = false
  cleared : m.pc.cleared = true →
    wordSeq m.request ∉ m.handed.map wordSeq
  spent : m.pc.sampled m.up = true →
    wordSeq m.request ∈ m.handed.map wordSeq → wordSeq m.request = m.last
  pending : m.pc.live m.up = true → ∀ call, m.client = .waits call →
    m.Settled call ∨ call.noted < m.ups ∨ m.TakesNext call
  holds : m.Holding

section

variable {m : Mailbox}

/-- A step of the thread that only moves it on. -/
theorem Inv.goto (inv : m.Inv) (pc : ThreadPc)
    (off : pc.off = true → m.up = false)
    (cleared : pc.cleared = true → m.pc.cleared = true)
    (sampled : pc.sampled m.up = true → m.pc.sampled m.up = true)
    (live : pc.live m.up = true →
      m.pc.live m.up = true ∧ ∀ w, m.pc ≠ .transfer w)
    (holds : Holding { m with pc := pc }) : Inv { m with pc := pc } :=
  { inv with
    off := off
    cleared := fun is => inv.cleared (cleared is)
    spent := fun is => inv.spent (sampled is)
    pending := by
      intro is call waits
      obtain ⟨was, other⟩ := live is
      rcases inv.pending was call waits with settled | earlier | next | taken
      · exact .inl settled
      · exact .inr (.inl earlier)
      · exact .inr (.inr (.inl next))
      · exact absurd taken (other _)
    holds := holds }

/-- A step out of the loop, where nothing is promised. -/
theorem Inv.lower (inv : m.Inv) : Inv { m with pc := .lower } := by
  refine inv.goto .lower ?_ ?_ ?_ ?_ trivial
  all_goals simp [ThreadPc.off, ThreadPc.cleared, ThreadPc.sampled,
    ThreadPc.live]

/-- A step within the loop. -/
theorem Inv.within (inv : m.Inv) (pc : ThreadPc)
    (here : m.pc.live m.up = true) (other : ∀ w, m.pc ≠ .transfer w)
    (loops : pc.loops = true) (holds : Holding { m with pc := pc }) :
    Inv { m with pc := pc } := by
  have sampled : m.pc.sampled m.up = true := by simp [ThreadPc.sampled, here]
  refine inv.goto pc ?_ ?_ (fun _ => sampled) (fun _ => ⟨here, other⟩) holds
  · cases pc <;> simp_all [ThreadPc.off, ThreadPc.loops]
  · cases pc <;> simp_all [ThreadPc.cleared, ThreadPc.loops]

/-- The sequences handed over are sequences used. -/
theorem Inv.handed_used (inv : m.Inv) {seq : UInt32}
    (member : seq ∈ m.handed.map wordSeq) : seq ∈ m.used := by
  obtain ⟨w, there, same⟩ := List.mem_map.mp member
  obtain ⟨⟨call, staged, word⟩, -⟩ := inv.handed w there
  exact List.mem_map.mpr ⟨call, staged, by rw [word, same]⟩

/-- The sequence in the request word is zero or used. -/
theorem Inv.request_used (inv : m.Inv) :
    wordSeq m.request = 0 ∨ wordSeq m.request ∈ m.used := by
  rcases inv.request with zero | ⟨call, staged, word⟩
  · exact .inl (by rw [zero, wordSeq_zero])
  · exact .inr (List.mem_map.mpr ⟨call, staged, by rw [word]⟩)

/-- The link's words are cleared, the last sequence sampled and the link raised,
one store after another. -/
theorem Inv.connects (inv : m.Inv) :
    (m.pc = .clearRequest → Inv { m with request := 0, pc := .clearReady }) ∧
    (m.pc = .clearReady → Inv { m with ready := 0, pc := .clearDone }) ∧
    (m.pc = .clearDone → Inv { m with done := 0, pc := .sample }) ∧
    (m.pc = .sample →
      Inv { m with last := wordSeq m.request, pc := .raise }) ∧
    (m.pc = .raise → Inv { m with up := true, pc := .bump }) := by
  have none : wordSeq 0 ∉ m.handed.map wordSeq := by
    intro member
    obtain ⟨call, staged, zero⟩ := List.mem_map.mp (inv.handed_used member)
    exact inv.nonzero call staged zero
  refine ⟨fun here => ?_, fun here => ?_, fun here => ?_, fun here => ?_,
    fun here => ?_⟩
  · exact
      { inv with
        request := .inl rfl
        off := fun _ => inv.off (by rw [here]; rfl)
        cleared := fun _ => none
        spent := fun is => absurd is (by simp [ThreadPc.sampled, ThreadPc.live])
        pending := fun is => absurd is (by simp [ThreadPc.live])
        holds := trivial }
  · exact
      { inv with
        off := fun _ => inv.off (by rw [here]; rfl)
        cleared := fun _ => inv.cleared (by rw [here]; rfl)
        spent := fun is => absurd is (by simp [ThreadPc.sampled, ThreadPc.live])
        pending := fun is => absurd is (by simp [ThreadPc.live])
        holds := trivial }
  · exact
      { inv with
        answer := .inl wordSeq_zero
        done := fun call staged same => absurd same.symm (by
          rw [wordSeq_zero]
          exact inv.nonzero call staged)
        off := fun _ => inv.off (by rw [here]; rfl)
        cleared := fun _ => inv.cleared (by rw [here]; rfl)
        spent := fun is => absurd is (by simp [ThreadPc.sampled, ThreadPc.live])
        pending := fun is => absurd is (by simp [ThreadPc.live])
        holds := trivial }
  · exact
      { inv with
        last := inv.request_used
        off := fun _ => inv.off (by rw [here]; rfl)
        cleared := fun is => absurd is (by simp [ThreadPc.cleared])
        spent := fun _ _ => rfl
        pending := fun is => absurd is (by simp [ThreadPc.live])
        holds := trivial }
  · exact
      { inv with
        off := fun is => absurd is (by simp [ThreadPc.off])
        cleared := fun is => absurd is (by simp [ThreadPc.cleared])
        spent := fun _ => inv.spent (by rw [here]; rfl)
        pending := fun is => absurd is (by simp [ThreadPc.live])
        holds := trivial }

/-- A new generation: every request staged so far was staged in an earlier
one. -/
theorem Inv.bump (inv : m.Inv) (here : m.pc = .bump) :
    Inv { m with
      generation := m.generation + 1
      generationWord := m.generation + 1
      ups := m.ups + 1
      pc := .publish } := by
  have count : m.generation + 1 = UInt64.ofNat (m.ups + 1) := by
    rw [inv.counted.1]
    simp
  exact
    { inv with
      counted := ⟨count, count⟩
      noted := fun call staged =>
        ⟨(inv.noted call staged).1.trans (Nat.le_succ _),
          (inv.noted call staged).2⟩
      notes := fun generation ups client =>
        ⟨(inv.notes generation ups client).1.trans (Nat.le_succ _),
          (inv.notes generation ups client).2⟩
      past := fun call staged other =>
        (inv.past call staged other).imp_right Nat.lt_succ_of_lt
      off := fun is => absurd is (by simp [ThreadPc.off])
      cleared := fun is => absurd is (by simp [ThreadPc.cleared])
      spent := fun _ => inv.spent (by rw [here]; rfl)
      pending := fun _ call waits => .inr (.inl (Nat.lt_succ_of_le
        (inv.noted call (inv.waits call waits)).1))
      holds := trivial }

/-- A new request is taken, or refused for its length. -/
theorem Inv.load (inv : m.Inv) (here : m.pc = .load)
    (some : wordSeq m.request ≠ 0) (new : wordSeq m.request ≠ m.last) :
    Inv { m with
      last := wordSeq m.request
      pc := if tooLong m.b m.request then .refuse m.request
        else .transfer m.request } := by
  have live : m.pc.live m.up = true := by rw [here]; rfl
  have sampled : m.pc.sampled m.up = true := by simp [ThreadPc.sampled, live]
  have staged : ∃ call ∈ m.staged, call.word = m.request := by
    refine inv.request.resolve_left fun zero => some ?_
    rw [zero, wordSeq_zero]
  have unhanded : wordSeq m.request ∉ m.handed.map wordSeq :=
    fun member => new (inv.spent sampled member)
  have waiting : ∀ call, m.client = .waits call → m.Settled call ∨
      call.noted < m.ups ∨ m.request = call.word := by
    intro call waits
    rcases inv.pending live call waits with settled | earlier | next | taken
    · exact .inl settled
    · exact .inr (.inl earlier)
    · exact .inr (.inr next.1)
    · rw [here] at taken
      cases taken
  cases long : tooLong m.b m.request with
  | false =>
      exact
        { inv with
          last := inv.request_used
          off := fun is => absurd is (by simp [ThreadPc.off])
          cleared := fun is => absurd is (by simp [ThreadPc.cleared])
          spent := fun _ _ => rfl
          pending := by
            intro _ call waits
            rcases waiting call waits with settled | earlier | same
            · exact .inl settled
            · exact .inr (.inl earlier)
            · exact .inr (.inr (.inr (by rw [← same]; rfl)))
          holds := ⟨staged, long, rfl, unhanded⟩ }
  | true =>
      exact
        { inv with
          last := inv.request_used
          off := fun is => absurd is (by simp [ThreadPc.off])
          cleared := fun is => absurd is (by simp [ThreadPc.cleared])
          spent := fun _ _ => rfl
          pending := by
            intro _ call waits
            rcases waiting call waits with settled | earlier | same
            · exact .inl settled
            · exact .inr (.inl earlier)
            · exact .inl (.inr (by rw [← same]; exact long))
          holds := ⟨staged, long⟩ }

/-- The request is handed over, and the thread goes on in its loop or leaves
it. -/
theorem Inv.transfer (inv : m.Inv) {w : UInt64} (here : m.pc = .transfer w)
    {pc : ThreadPc} (target : pc = .top ∨ pc = .await w ∨ pc = .lower) :
    Inv { m with handed := w :: m.handed, pc := pc } := by
  have live : m.pc.live m.up = true := by rw [here]; rfl
  have sampled : m.pc.sampled m.up = true := by simp [ThreadPc.sampled, live]
  have holds := inv.holds
  simp only [Holding, here] at holds
  obtain ⟨staged, short, last, unhanded⟩ := holds
  have settles : ∀ call, m.Settled call →
      Settled { m with handed := w :: m.handed, pc := pc } call :=
    fun call settled => settled.imp_left (List.mem_cons_of_mem _)
  exact
    { inv with
      handed := by
        intro other member
        rcases List.mem_cons.mp member with same | before
        · rw [same]
          exact ⟨staged, short⟩
        · exact inv.handed other before
      once := List.nodup_cons.mpr ⟨unhanded, inv.once⟩
      done := fun call member same => settles call (inv.done call member same)
      past := fun call member other =>
        (inv.past call member other).imp_left (settles call)
      off := by rcases target with rfl | rfl | rfl <;> simp [ThreadPc.off]
      cleared := by
        rcases target with rfl | rfl | rfl <;> simp [ThreadPc.cleared]
      spent := by
        intro _ member
        rcases List.mem_cons.mp member with same | before
        · exact same.trans last
        · exact inv.spent sampled before
      pending := by
        intro _ call waits
        rcases inv.pending live call waits with settled | earlier | next | taken
        · exact .inl (settles call settled)
        · exact .inr (.inl earlier)
        · exact .inr (.inr (.inl next))
        · rw [here] at taken
          have same : w = call.word := ThreadPc.transfer.inj taken
          exact .inl (.inl (by simp [Handed, same]))
      holds := by
        rcases target with rfl | rfl | rfl
        · trivial
        · exact List.mem_cons_self
        · trivial }

/-- The thread answers a request that is settled. -/
theorem Inv.answers {d : UInt64} {pc : ThreadPc}
    (known : wordSeq d ∈ m.used)
    (settled : ∀ call ∈ m.staged, wordSeq d = wordSeq call.word →
      m.Settled call)
    (next : Inv { m with pc := pc }) : Inv { m with done := d, pc := pc } :=
  { next with
    answer := .inr known
    done := settled }

/-- A word that was handed over settles the request of its sequence. -/
theorem settled_of_handed {w : UInt64} (there : w ∈ m.handed)
    {call : Staged} (same : wordSeq w = wordSeq call.word) :
    m.Settled call :=
  .inl (List.mem_map.mpr ⟨w, there, same⟩)

/-- One load or store of the daemon's thread. -/
theorem Inv.proceed (inv : m.Inv) (luck : Luck) : (m.proceed luck).Inv := by
  unfold Mailbox.proceed
  cases here : m.pc with
  | top =>
      dsimp only
      split
      · next up =>
          exact inv.within .progress (by rw [here]; exact up) (by simp [here])
            rfl trivial
      · next down =>
          refine inv.goto .connecting (fun _ => Bool.eq_false_iff.mpr down) ?_
            ?_ ?_ trivial
          all_goals simp [ThreadPc.cleared, ThreadPc.sampled, ThreadPc.live]
  | connecting =>
      have off : m.up = false := inv.off (by rw [here]; rfl)
      cases luck with
      | well =>
          refine inv.goto .clearRequest (fun _ => off) ?_ ?_ ?_ trivial
          all_goals simp [ThreadPc.cleared, ThreadPc.sampled, ThreadPc.live]
      | fails => exact inv.lower
      | unopened =>
          refine inv.goto .top ?_ ?_ ?_ ?_ trivial
          all_goals simp [ThreadPc.off, ThreadPc.cleared, ThreadPc.sampled,
            ThreadPc.live, off]
  | clearRequest => exact inv.connects.1 here
  | clearReady => exact inv.connects.2.1 here
  | clearDone => exact inv.connects.2.2.1 here
  | sample => exact inv.connects.2.2.2.1 here
  | raise => exact inv.connects.2.2.2.2 here
  | bump => exact inv.bump here
  | publish =>
      have moved := inv.within .progress (by rw [here]; rfl)
        (by simp [here]) rfl trivial
      exact { moved with }
  | progress =>
      dsimp only
      split
      · exact inv.within .load (by rw [here]; rfl) (by simp [here]) rfl trivial
      · exact inv.lower
  | load =>
      dsimp only
      split
      · exact inv.within .service (by rw [here]; rfl) (by simp [here]) rfl
          trivial
      · next new =>
          rw [not_or] at new
          exact inv.load here new.1 new.2
  | service =>
      dsimp only
      split
      · exact inv.within .top (by rw [here]; rfl) (by simp [here]) rfl trivial
      · exact inv.lower
  | refuse w =>
      have holds := inv.holds
      simp only [Holding, here] at holds
      obtain ⟨⟨call, staged, word⟩, long⟩ := holds
      refine Inv.answers ?_ ?_
        (inv.within .top (by rw [here]; rfl) (by simp [here]) rfl trivial)
      · rw [wordSeq_word, ← word]
        exact List.mem_map_of_mem staged
      · intro other member same
        rw [wordSeq_word, ← word] at same
        have equal := inv.unique call staged other member same
        rw [← equal]
        exact .inr (word ▸ long)
  | transfer w =>
      dsimp only
      refine inv.transfer here ?_
      split
      · split
        · exact .inl rfl
        · exact .inr (.inl rfl)
      · exact .inr (.inr rfl)
  | await w =>
      have holds := inv.holds
      simp only [Holding, here] at holds
      dsimp only
      split
      · exact inv.lower
      · split
        · exact inv
        · split
          · exact inv.lower
          · exact inv.within (.finish w m.ready) (by rw [here]; rfl)
              (by simp [here]) rfl holds
  | finish w r =>
      have holds := inv.holds
      simp only [Holding, here] at holds
      dsimp only
      split
      · exact inv.lower
      · refine Inv.answers ?_ ?_
          (inv.within .top (by rw [here]; rfl) (by simp [here]) rfl trivial)
        · rw [wordSeq_word]
          exact inv.handed_used (List.mem_map_of_mem holds)
        · intro call _ same
          rw [wordSeq_word] at same
          exact settled_of_handed holds same
  | lower =>
      exact
        { inv with
          off := fun _ => rfl
          cleared := fun is => absurd is (by simp [ThreadPc.cleared])
          spent := fun is =>
            absurd is (by simp [ThreadPc.sampled, ThreadPc.live])
          pending := fun is => absurd is (by simp [ThreadPc.live])
          holds := trivial }
  | lowerWord =>
      have off : m.up = false := inv.off (by rw [here]; rfl)
      have moved : Inv { m with pc := .top } := by
        refine inv.goto .top ?_ ?_ ?_ ?_ trivial
        all_goals simp [ThreadPc.off, ThreadPc.cleared, ThreadPc.sampled,
          ThreadPc.live, off]
      exact { moved with }

/-- The client stores a request with a sequence it has not used. -/
theorem Inv.stages (inv : m.Inv) {generation : UInt64} {ups : Nat}
    (client : m.client = .noted generation ups) {seq len : UInt32}
    (some : seq ≠ 0) (fresh : seq ∉ m.used) :
    Inv { m with
      request := word seq len
      client := .waits ⟨word seq len, generation, ups⟩
      staged := ⟨word seq len, generation, ups⟩ :: m.staged } := by
  have unlike : ∀ call ∈ m.staged, wordSeq call.word ≠ seq := by
    intro call staged same
    exact fresh (same ▸ List.mem_map_of_mem staged)
  have unhanded : wordSeq (word seq len) ∉ m.handed.map wordSeq := by
    rw [wordSeq_word]
    exact fun member => fresh (inv.handed_used member)
  have notes := inv.notes generation ups client
  have older : ∀ call ∈ m.staged, m.client ≠ .waits call := by
    intro call _ waits
    rw [client] at waits
    cases waits
  exact
    { inv with
      unique := by
        intro first member second member' same
        rcases List.mem_cons.mp member with new | old
        · rcases List.mem_cons.mp member' with new' | old'
          · rw [new, new']
          · rw [new, wordSeq_word] at same
            exact absurd same.symm (unlike second old')
        · rcases List.mem_cons.mp member' with new' | old'
          · rw [new', wordSeq_word] at same
            exact absurd same (unlike first old)
          · exact inv.unique first old second old' same
      nonzero := by
        intro call member
        rcases List.mem_cons.mp member with new | old
        · rw [new, wordSeq_word]
          exact some
        · exact inv.nonzero call old
      request := .inr ⟨_, List.mem_cons_self, rfl⟩
      last := inv.last.imp_right (List.mem_cons_of_mem _)
      handed := by
        intro w member
        obtain ⟨⟨call, staged, same⟩, short⟩ := inv.handed w member
        exact ⟨⟨call, List.mem_cons_of_mem _ staged, same⟩, short⟩
      answer := inv.answer.imp_right (List.mem_cons_of_mem _)
      done := by
        intro call member same
        rcases List.mem_cons.mp member with new | old
        · rw [new, wordSeq_word] at same
          rcases inv.answer with zero | known
          · exact absurd (same.symm.trans zero) some
          · exact absurd (same ▸ known) fresh
        · exact inv.done call old same
      noted := by
        intro call member
        rcases List.mem_cons.mp member with new | old
        · rw [new]
          exact notes
        · exact inv.noted call old
      notes := fun _ _ is => absurd is (by simp)
      waits := by
        intro call is
        rw [← Client.waits.inj is]
        exact List.mem_cons_self
      past := by
        intro call member other
        rcases List.mem_cons.mp member with new | old
        · exact absurd (by rw [new]) other
        · exact inv.past call old (older call old)
      cleared := fun _ => unhanded
      spent := fun _ member => absurd member unhanded
      pending := by
        intro _ call is
        rw [← Client.waits.inj is]
        refine .inr (.inr (.inl ⟨rfl, ?_⟩))
        rw [wordSeq_word]
        intro same
        rcases inv.last with zero | known
        · exact some (same.trans zero)
        · exact fresh (same ▸ known)
      holds := by
        have holds := inv.holds
        unfold Holding at holds ⊢
        dsimp only
        split
        · next w pc =>
            rw [pc] at holds
            obtain ⟨⟨call, staged, same⟩, rest⟩ := holds
            exact ⟨⟨call, List.mem_cons_of_mem _ staged, same⟩, rest⟩
        · next w pc =>
            rw [pc] at holds
            obtain ⟨⟨call, staged, same⟩, rest⟩ := holds
            exact ⟨⟨call, List.mem_cons_of_mem _ staged, same⟩, rest⟩
        · next w pc =>
            rw [pc] at holds
            exact holds
        · next w r pc =>
            rw [pc] at holds
            exact holds
        · trivial }

/-- The client's call is over: its request is settled, or it was staged in an
earlier generation. -/
theorem Inv.returns (inv : m.Inv) {call : Staged}
    (client : m.client = .waits call)
    (finished : wordSeq m.done = wordSeq call.word ∨
      m.generationWord ≠ call.generation) :
    Inv { m with client := .idle } := by
  have staged := inv.waits call client
  have ended : m.Settled call ∨ call.noted < m.ups := by
    rcases finished with done | changed
    · exact .inl (inv.done call staged done)
    · refine .inr (lt_of_le_of_ne (inv.noted call staged).1 fun same => ?_)
      rw [inv.counted.2, (inv.noted call staged).2, same] at changed
      exact changed rfl
  exact
    { inv with
      notes := fun _ _ is => absurd is (by simp)
      waits := fun _ is => absurd is (by simp)
      past := by
        intro other member _
        by_cases same : call = other
        · exact same ▸ ended
        · refine inv.past other member fun waits => same ?_
          rw [client] at waits
          exact Client.waits.inj waits
      pending := fun _ _ is => absurd is (by simp) }

/-- Every event keeps the invariant. -/
theorem Inv.step {next : Mailbox} (inv : m.Inv) (event : Event)
    (taken : m.step event = some next) : next.Inv := by
  cases event with
  | thread luck =>
      rw [← Option.some.inj taken]
      exact inv.proceed luck
  | notes =>
      simp only [Mailbox.step, Option.ite_none_right_eq_some] at taken
      obtain ⟨idle, taken⟩ := taken
      rw [← Option.some.inj taken]
      exact
        { inv with
          notes := by
            intro generation ups is
            obtain ⟨first, second⟩ := Client.noted.inj is
            rw [← first, ← second]
            exact ⟨le_rfl, inv.counted.2⟩
          waits := fun _ is => absurd is (by simp)
          past := fun call staged _ =>
            inv.past call staged (by simp [idle])
          pending := fun _ _ is => absurd is (by simp) }
  | stages seq len =>
      simp only [Mailbox.step] at taken
      split at taken
      · next generation ups client =>
          simp only [Option.ite_none_left_eq_some, not_or] at taken
          obtain ⟨⟨some, fresh⟩, taken⟩ := taken
          rw [← Option.some.inj taken]
          exact inv.stages client some fresh
      · cases taken
  | returns =>
      simp only [Mailbox.step] at taken
      split at taken
      · next call client =>
          simp only [Option.ite_none_right_eq_some] at taken
          obtain ⟨ended, taken⟩ := taken
          rw [← Option.some.inj taken]
          exact inv.returns client ended
      · cases taken
  | readyLands word =>
      rw [← Option.some.inj taken]
      exact { inv with }
  | replyLands word =>
      simp only [Mailbox.step, Option.ite_none_right_eq_some] at taken
      obtain ⟨handed, taken⟩ := taken
      rw [← Option.some.inj taken]
      obtain ⟨w, there, same⟩ := List.mem_map.mp handed
      exact
        { inv with
          answer := .inr (inv.handed_used handed)
          done := fun call _ equal =>
            settled_of_handed there (same.trans equal) }

/-- Every state of a mailbox. -/
theorem Inv.reach {b : Box} {direct : Bool}
    (reached : (machine b direct).Reach m) : m.Inv := by
  refine reached.invariant _ ?_ fun before next event inv taken =>
    inv.step event taken
  exact
    { unique := fun _ member => absurd member (by simp [machine])
      nonzero := fun _ member => absurd member (by simp [machine])
      request := .inl rfl
      last := .inl rfl
      handed := fun _ member => absurd member (by simp [machine])
      once := List.nodup_nil
      answer := .inl wordSeq_zero
      done := fun _ member => absurd member (by simp [machine])
      counted := ⟨rfl, rfl⟩
      noted := fun _ member => absurd member (by simp [machine])
      notes := fun _ _ is => absurd is (by simp [machine])
      waits := fun _ is => absurd is (by simp [machine])
      past := fun _ member => absurd member (by simp [machine])
      off := fun _ => rfl
      cleared := fun is => absurd is (by simp [machine, ThreadPc.cleared])
      spent := fun is => absurd is (by
        simp [machine, ThreadPc.sampled, ThreadPc.live])
      pending := fun is => absurd is (by simp [machine, ThreadPc.live])
      holds := trivial }

/-- The link has come up a positive multiple of 2^64 times since the request's
client noted the generation, which has come back to what it was. -/
def Wrapped (m : Mailbox) (call : Staged) : Prop :=
  ∃ rounds, 0 < rounds ∧ m.ups = call.noted + rounds * 2 ^ 64

/-- Each request is handed over at most once, and one that has not been is the
one the thread takes next or was staged in an earlier generation. -/
structure Kept (m : Mailbox) : Prop where
  once : ∀ call ∈ m.staged, m.handed.count call.word ≤ 1
  known : ∀ w ∈ m.handed, ∃ call ∈ m.staged, call.word = w
  next : m.InLoop → ∀ call ∈ m.staged, tooLong m.b call.word = false →
    call.word ∈ m.handed ∨ m.TakesNext call ∨
      m.generationWord ≠ call.generation ∨ m.Wrapped call

/-- The sequence of a request that was handed over is its own. -/
theorem Inv.mem_handed (inv : m.Inv) {call : Staged} (staged : call ∈ m.staged)
    (handed : m.Handed call) : call.word ∈ m.handed := by
  obtain ⟨w, there, same⟩ := List.mem_map.mp handed
  obtain ⟨⟨other, member, word⟩, -⟩ := inv.handed w there
  have equal := inv.unique other member call staged (by rw [word, same])
  rw [← equal, word]
  exact there

/-- An earlier generation reads otherwise, but for a wrap of its 64 bits. -/
theorem Inv.earlier (inv : m.Inv) {call : Staged} (staged : call ∈ m.staged)
    (earlier : call.noted < m.ups) :
    m.generationWord ≠ call.generation ∨ m.Wrapped call := by
  by_cases same : m.generationWord = call.generation
  · right
    rw [inv.counted.2, (inv.noted call staged).2] at same
    have words := congrArg UInt64.toNat same
    simp only [UInt64.toNat_ofNat'] at words
    exact ⟨(m.ups - call.noted) / 2 ^ 64, by omega, by omega⟩
  · exact .inl same

/-- No request is handed over twice, and none is lost silently. -/
theorem request_kept {b : Box} {direct : Bool}
    (reached : (machine b direct).Reach m) : m.Kept := by
  have inv := Inv.reach reached
  refine ⟨fun call _ => ?_, fun w there => (inv.handed w there).1, ?_⟩
  · exact List.nodup_iff_count_le_one.mp (List.Nodup.of_map _ inv.once) call.word
  · rintro ⟨up, loops⟩ call staged short
    have live := ThreadPc.live_of_loops up loops
    have settled : ∀ settled : m.Settled call, call.word ∈ m.handed := by
      rintro (handed | long)
      · exact inv.mem_handed staged handed
      · rw [short] at long
        cases long
    by_cases waits : m.client = .waits call
    · rcases inv.pending live call waits with handed | earlier | next
      · exact .inl (settled handed)
      · exact .inr (.inr (inv.earlier staged earlier))
      · exact .inr (.inl next)
    · rcases inv.past call staged waits with handed | earlier
      · exact .inl (settled handed)
      · exact .inr (.inr (inv.earlier staged earlier))

end

/-- Two halves of four MiB. -/
def plainBox : Box := ⟨4194304, 4194304⟩

/-- The link comes up. -/
def comesUp : List Event :=
  List.replicate 9 (.thread .well)

/-- A client stages a request, the thread hands it over, and the link fails and
comes up again. -/
def callAndFail : List Event :=
  comesUp ++ [.notes, .stages 7 64] ++ List.replicate 3 (.thread .well) ++
    [.thread .well, .thread .fails] ++ List.replicate 11 (.thread .well)

theorem callAndFail_runs :
    ((machine plainBox true).run (machine plainBox true).start callAndFail).any
      (fun m => decide (m.handed = [word 7 64] ∧ m.ups = 2)) = true := by
  decide +kernel

/-- The request of a failed link is not sent again. -/
theorem request_kept_reconnect :
    ∃ m, (machine plainBox true).Reach m ∧ m.handed = [word 7 64] ∧
      m.ups = 2 ∧ m.Kept := by
  obtain ⟨m, reached, found⟩ := Machine.Reach.ofTest callAndFail_runs
  have facts := of_decide_eq_true found
  exact ⟨m, reached, facts.1, facts.2, request_kept reached⟩

/-- The one request of a client that the link's failures keep from being
taken. -/
def lostCall : Staged := ⟨word 7 64, 1, 1⟩

/-- The thread in its loop after a reconnect that has cleared the request. -/
def lost (generation : UInt64) (ups : Nat) : Mailbox where
  b := plainBox
  direct := true
  upWord := 1
  generationWord := generation
  up := true
  generation := generation
  last := wordSeq 0
  pc := .progress
  client := .waits lostCall
  staged := [lostCall]
  ups := ups

/-- The link fails and comes up again. -/
def reconnects : List Event :=
  .thread .fails :: List.replicate 11 (.thread .well)

theorem lost_next (generation : UInt64) (ups : Nat) :
    (machine plainBox true).run (lost generation ups) reconnects =
      some (lost (generation + 1) (ups + 1)) := rfl

theorem lost_first :
    (machine plainBox true).run (machine plainBox true).start
      (comesUp ++ [.notes, .stages 7 64] ++ reconnects) = some (lost 2 2) :=
  rfl

/-- The link may come up any number of times while the client does not run. -/
theorem lost_reach (rounds : Nat) :
    (machine plainBox true).Reach
      (lost (2 + UInt64.ofNat rounds) (2 + rounds)) := by
  induction rounds with
  | zero => exact Machine.Reach.ofRun Machine.Reaches.start _ lost_first
  | succ rounds inductionHypothesis =>
      have again := inductionHypothesis.ofRun _ (lost_next _ _)
      have count : 2 + UInt64.ofNat rounds + 1 =
          2 + UInt64.ofNat (rounds + 1) := by
        rw [UInt64.ofNat_add, UInt64.add_assoc]
        rfl
      rw [count] at again
      exact again

/-- After 2^64 reconnects the generation reads as the client noted it, and the
request is gone. -/
theorem generation_comes_back :
    ∃ m, (machine plainBox true).Reach m ∧ m.InLoop ∧
      ∃ call ∈ m.staged, tooLong m.b call.word = false ∧
        call.word ∉ m.handed ∧ ¬ m.TakesNext call ∧
        m.generationWord = call.generation := by
  refine ⟨_, lost_reach (2 ^ 64 - 1), ⟨rfl, rfl⟩, lostCall, List.mem_cons_self,
    by decide +kernel, by simp [lost], ?_, by decide +kernel⟩
  rintro (⟨request, -⟩ | taken)
  · exact absurd request (by decide +kernel)
  · cases taken

end Mailbox

end Setup
end Mcdma
