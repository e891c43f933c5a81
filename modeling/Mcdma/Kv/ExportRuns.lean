import Mcdma.Kv.Export

/-!
# No export is lost

Every call of `add` is accounted for: its request is owned by a held handoff,
waits to be taken, or was taken.  A call under a handoff that is still held
throws the earlier owner away, and the set of finished requests holds a request
once however often it was released.  In a run that does neither, the accounts
balance, and every request can still be reported.
-/

namespace Mcdma
namespace Kv

namespace ExportTable

variable {Handoff Request Export Time : Type}
variable [DecidableEq Handoff] [DecidableEq Request]
variable (t : ExportTable Handoff Request Export Time)

/-- The held handoffs that a request owns. -/
def held (request : Request) : Nat :=
  t.owners.tally fun owner => owner.1 = request

/-- Whether the next `take_finished` reports the request. -/
def waiting (request : Request) : Nat :=
  if request ∈ t.finished then 1 else 0

/-- Releasing a handoff reports a request that is not reported already. -/
def Fresh (handoff : Handoff) : Prop :=
  ∀ owner, t.owners.get handoff = some owner → owner.1 ∉ t.finished

variable {t}

/-- Releasing a handoff moves its request from the held to the waiting. -/
theorem finish_balance {handoff : Handoff} (fresh : t.Fresh handoff)
    (request : Request) :
    (t.finish handoff).held request + (t.finish handoff).waiting request =
      t.held request + t.waiting request := by
  cases owned : t.owners.get handoff with
  | none =>
      simp only [finish, reported, owned, Dict.tally,
        Dict.pop_of_absent owned, held, waiting]
  | some owner =>
      have less := Dict.tally_pop owned fun owner => owner.1 = request
      have absent := fresh owner owned
      simp only [finish, reported, owned, held, waiting, less,
        Finset.mem_insert, decide_eq_true_eq]
      by_cases same : owner.1 = request
      · rw [same] at absent
        simp [same, absent]
      · simp [same, Ne.symm same]

end ExportTable

namespace Serving

variable {Handoff Request Export Time : Type}
variable [DecidableEq Handoff] [DecidableEq Request]
variable [Sub Time] [LT Time] [DecidableLT Time]

section Accounts

variable (s : Serving Handoff Request Export Time) (request : Request)

/-- The calls of `add` for a request. -/
def added : Nat :=
  s.adds.countP fun a => a.request = request

/-- Those whose handoff was closed or expired. -/
def ended : Nat :=
  s.adds.countP fun a => a.request = request && a.ended

/-- The reports of a request so far. -/
def taken : Nat :=
  s.reports.countP fun report => request ∈ report

end Accounts

/-- Every call of `add` is held, waits to be reported or was reported, each
once; and one whose handoff was neither closed nor expired is still held. -/
structure Conserved (s : Serving Handoff Request Export Time) : Prop where
  balance : ∀ request,
    s.added request = s.table.held request + s.table.waiting request + s.taken request
  early : ∀ request, s.table.waiting request + s.taken request ≤ s.ended request
  kept : ∀ a ∈ s.adds, a.ended = false →
    s.table.owners.get a.handoff = some (a.request, a.stamp)

/-- Every call made so far can still be reported. -/
def Releasable (ttl : Time) (s : Serving Handoff Request Export Time) : Prop :=
  ∃ sections later, (machine ttl).run s sections = some later ∧
    (∀ request, later.added request = s.added request) ∧
    ∀ request, later.taken request = s.added request

/-- The sections that lose nothing: an `add` under a handoff that is not held,
and a release whose request does not wait to be reported already. -/
def Careful (s : Serving Handoff Request Export Time) :
    Section Handoff Request Export Time → Prop
  | .add handoff _ _ _ => s.table.owners.get handoff = none
  | .finish handoff => s.table.Fresh handoff
  | .expireNext =>
      match s.responder with
      | .releasing (handoff :: _) => s.table.Fresh handoff
      | _ => True
  | _ => True

/-! ## The invariant -/

/-- The handoffs `expire` has collected and not yet released. -/
def leftover (s : Serving Handoff Request Export Time) : List Handoff :=
  match s.responder with
  | .releasing stale => stale
  | _ => []

/-- What the threads keep. -/
structure Inv (s : Serving Handoff Request Export Time) : Prop where
  balance : ∀ request,
    s.added request = s.table.held request + s.table.waiting request + s.taken request
  kept : ∀ a ∈ s.adds, a.ended = false →
    s.table.owners.get a.handoff = some (a.request, a.stamp)
  apart : ((s.adds.filter fun a => !a.ended).map Added.handoff).Nodup
  once : s.leftover.Nodup
  owned : ∀ handoff ∈ s.leftover, s.table.owners.get handoff ≠ none
  spent : ∀ handoff ∈ s.leftover, ∀ a ∈ s.adds, a.handoff = handoff →
    a.ended = true

variable {s : Serving Handoff Request Export Time} {ttl : Time}

omit [Sub Time] [LT Time] [DecidableLT Time] in
/-- The calls whose handoff has not ended own different handoffs. -/
theorem Inv.open_le_held (inv : s.Inv) (request : Request) :
    (s.adds.countP fun a => a.request = request && !a.ended) ≤
      s.table.held request := by
  let entry (a : Added Handoff Request Time) := (a.handoff, (a.request, a.stamp))
  let live := (s.adds.filter fun a => !a.ended).filter fun a =>
    a.request = request
  have distinct : (live.map entry).Nodup := by
    have handoffs : (live.map Added.handoff).Nodup :=
      inv.apart.sublist (List.filter_sublist.map _)
    refine List.Nodup.of_map Prod.fst ?_
    rw [List.map_map]
    exact handoffs
  have inside : live.map entry ⊆
      s.table.owners.entries.filter fun entry => entry.2.1 = request := by
    intro owner listed
    obtain ⟨a, member, rfl⟩ := List.mem_map.mp listed
    simp only [live, List.mem_filter, Bool.not_eq_true',
      decide_eq_true_eq] at member
    obtain ⟨⟨made, still⟩, asked⟩ := member
    rw [List.mem_filter]
    exact ⟨Dict.mem_of_get (inv.kept a made still), by simpa [entry] using asked⟩
  have few := (distinct.subperm inside).length_le
  rw [List.length_map, ← List.countP_eq_length_filter] at few
  simpa only [live, List.countP_filter, ← List.countP_eq_length_filter,
    ExportTable.held, Dict.tally] using few

omit [Sub Time] [LT Time] [DecidableLT Time] in
theorem Inv.conserved (inv : s.Inv) : s.Conserved where
  balance := inv.balance
  early := by
    intro request
    have still := inv.open_le_held request
    have total := inv.balance request
    have parts : s.added request = s.ended request +
        s.adds.countP fun a => a.request = request && !a.ended := by
      rw [added, ended, List.countP_eq_countP_filter_add s.adds _ Added.ended]
      simp only [List.countP_filter]
    omega
  kept := inv.kept

omit [Sub Time] [LT Time] [DecidableLT Time] in
theorem Inv.init : (init : Serving Handoff Request Export Time).Inv where
  balance := fun _ => rfl
  kept := by simp [Serving.init]
  apart := by simp [Serving.init]
  once := by simp [Serving.init, leftover]
  owned := by simp [Serving.init, leftover]
  spent := by simp [Serving.init, leftover]

/-! ## Each section keeps it -/

omit [Sub Time] [LT Time] [DecidableLT Time] in
theorem Inv.add (inv : s.Inv) {handoff : Handoff}
    (new : s.table.owners.get handoff = none) (request : Request)
    (export_ : Export ⊕ String) (now : Time) :
    (s.add handoff request export_ now).Inv where
  balance := by
    intro asked
    have total := inv.balance asked
    have more : (s.table.add handoff request export_ now).held asked =
        s.table.held asked + if decide (request = asked) then 1 else 0 :=
      Dict.tally_put_new new (request, now) _
    have same : (s.table.add handoff request export_ now).waiting asked =
        s.table.waiting asked := rfl
    simp only [added, taken, Serving.add, List.countP_append,
      List.countP_singleton, more, same] at total ⊢
    omega
  kept := by
    intro a member still
    simp only [Serving.add, ExportTable.add] at member ⊢
    rcases List.mem_append.mp member with made | last
    · have owner := inv.kept a made still
      have differs : a.handoff ≠ handoff := by
        intro same
        rw [same, new] at owner
        cases owner
      rw [Dict.get_put_other _ _ differs, owner]
    · rw [List.mem_singleton] at last
      subst last
      exact Dict.get_put_same _ _ _
  apart := by
    simp only [Serving.add, List.filter_append, List.map_append]
    rw [List.nodup_append]
    refine ⟨inv.apart, by simp, ?_⟩
    intro first listed second last same
    obtain ⟨a, member, rfl⟩ := List.mem_map.mp listed
    simp only [List.mem_filter, Bool.not_eq_true'] at member
    simp only [List.filter_cons, Bool.not_false, if_true, List.filter_nil,
      List.map_cons, List.map_nil, List.mem_singleton] at last
    have owner := inv.kept a member.1 member.2
    rw [same, last, new] at owner
    cases owner
  once := inv.once
  owned := by
    intro other collected
    have holds := inv.owned other collected
    have differs : other ≠ handoff := by
      rintro rfl
      exact holds new
    simp only [Serving.add, ExportTable.add]
    rwa [Dict.get_put_other _ _ differs]
  spent := by
    intro other collected a member same
    rcases List.mem_append.mp member with made | last
    · exact inv.spent other collected a made same
    · rw [List.mem_singleton] at last
      subst last
      exact absurd (same ▸ new) (inv.owned other collected)

omit [Sub Time] [LT Time] [DecidableLT Time] in
theorem Inv.takeFinished (inv : s.Inv) : s.takeFinished.Inv where
  balance := by
    intro request
    have total := inv.balance request
    have zero : (s.table.takeFinished).waiting request = 0 := rfl
    have same : (s.table.takeFinished).held request = s.table.held request :=
      rfl
    have now : (if decide (request ∈ s.table.finished) then 1 else 0) =
        s.table.waiting request := by
      simp [ExportTable.waiting]
    simp only [added, taken, Serving.takeFinished, List.countP_append,
      List.countP_singleton, zero, same, now] at total ⊢
    omega
  kept := inv.kept
  apart := inv.apart
  once := inv.once
  owned := inv.owned
  spent := inv.spent

omit [Sub Time] [LT Time] [DecidableLT Time] [DecidableEq Handoff] in
theorem added_map {calls : List (Added Handoff Request Time)}
    (condition : Added Handoff Request Time → Bool) (request : Request) :
    (calls.map (Added.endWhere condition)).countP
        (fun a => a.request = request) =
      calls.countP fun a => a.request = request := by
  rw [List.countP_map]
  rfl

omit [Sub Time] [LT Time] [DecidableLT Time] [DecidableEq Handoff]
  [DecidableEq Request] in
theorem open_sublist {calls : List (Added Handoff Request Time)}
    (condition : Added Handoff Request Time → Bool) :
    (((calls.map (Added.endWhere condition)).filter fun a => !a.ended).map
        Added.handoff).Sublist
      ((calls.filter fun a => !a.ended).map Added.handoff) := by
  rw [List.filter_map, List.map_map]
  refine List.Sublist.map _ (List.monotone_filter_right calls ?_)
  intro a
  simp only [Added.endWhere, Function.comp_apply, Bool.not_or,
    Bool.and_eq_true]
  exact And.left

omit [Sub Time] [LT Time] [DecidableLT Time] in
theorem Inv.close (inv : s.Inv) {handoff : Handoff}
    (fresh : s.table.Fresh handoff) (idle : s.responder = .idle) :
    (s.close handoff).Inv where
  balance := by
    intro request
    have total := inv.balance request
    have moved := ExportTable.finish_balance fresh request
    simp only [added, taken, Serving.close, added_map] at total ⊢
    omega
  kept := by
    intro a member still
    obtain ⟨before, made, rfl⟩ := List.mem_map.mp member
    simp only [Added.endWhere, Bool.or_eq_false_iff,
      decide_eq_false_iff_not] at still ⊢
    simp only [Serving.close, ExportTable.finish]
    rw [Dict.get_pop_other _ still.2]
    exact inv.kept before made still.1
  apart := inv.apart.sublist (open_sublist _)
  once := by simp [leftover, Serving.close, idle]
  owned := by simp [leftover, Serving.close, idle]
  spent := by simp [leftover, Serving.close, idle]

theorem Inv.collect (inv : s.Inv) (now : Time) : (s.collect ttl now).Inv where
  balance := by
    intro request
    have total := inv.balance request
    simp only [added, taken, Serving.collect, added_map] at total ⊢
    exact total
  kept := by
    intro a member still
    obtain ⟨before, made, rfl⟩ := List.mem_map.mp member
    simp only [Added.endWhere, Bool.or_eq_false_iff] at still
    exact inv.kept before made still.1
  apart := inv.apart.sublist (open_sublist _)
  once := s.table.owners.nodup.sublist (List.filter_sublist.map _)
  owned := by
    intro handoff collected
    obtain ⟨entry, listed, rfl⟩ := List.mem_map.mp collected
    have holds := Dict.get_of_mem (List.mem_filter.mp listed).1
    simp only [Serving.collect]
    rw [holds]
    simp
  spent := by
    intro handoff collected a member same
    obtain ⟨entry, listed, named⟩ := List.mem_map.mp collected
    obtain ⟨holds, old⟩ := List.mem_filter.mp listed
    obtain ⟨before, made, rfl⟩ := List.mem_map.mp member
    cases spent : before.ended with
    | true => simp [Added.endWhere, spent]
    | false =>
        -- The entry collected is the one this call made.
        have owner := inv.kept before made spent
        have same : before.handoff = entry.1 := same.trans named.symm
        rw [same, Dict.get_of_mem holds, Option.some.injEq] at owner
        rw [owner] at old
        simpa [Added.endWhere, spent] using old

omit [Sub Time] [LT Time] [DecidableLT Time] in
theorem Inv.expire (inv : s.Inv) {handoff : Handoff} {rest : List Handoff}
    (fresh : s.table.Fresh handoff)
    (releasing : s.responder = .releasing (handoff :: rest)) :
    (s.expire handoff rest).Inv := by
  have left : s.leftover = handoff :: rest := by simp [leftover, releasing]
  have once := inv.once
  have owned := inv.owned
  have spent := inv.spent
  rw [left] at once owned spent
  rw [List.nodup_cons] at once
  refine ⟨?_, ?_, inv.apart, once.2, ?_, ?_⟩
  · intro request
    have total := inv.balance request
    have moved := ExportTable.finish_balance fresh request
    simp only [added, taken, Serving.expire] at total ⊢
    omega
  · intro a member still
    have differs : a.handoff ≠ handoff := by
      intro same
      rw [spent handoff List.mem_cons_self a member same] at still
      cases still
    simp only [Serving.expire, ExportTable.finish]
    rw [Dict.get_pop_other _ differs]
    exact inv.kept a member still
  · intro other collected
    have differs : other ≠ handoff := by
      rintro rfl
      exact once.1 collected
    simp only [Serving.expire, ExportTable.finish]
    rw [Dict.get_pop_other _ differs]
    exact owned other (List.mem_cons_of_mem _ collected)
  · intro other collected
    exact spent other (List.mem_cons_of_mem _ collected)

omit [Sub Time] [LT Time] [DecidableLT Time] in
theorem Inv.goto (inv : s.Inv) {responder : Responder Handoff Time}
    (nothing : ∀ stale, responder ≠ .releasing stale) :
    (s.goto responder).Inv := by
  have left : (s.goto responder).leftover = [] := by
    cases responder with
    | idle => rfl
    | timed now => rfl
    | releasing stale => exact absurd rfl (nothing stale)
  refine ⟨inv.balance, inv.kept, inv.apart, ?_, ?_, ?_⟩
  · simp [left]
  · simp [left]
  · simp [left]

theorem Inv.step (inv : s.Inv)
    {stretch : Section Handoff Request Export Time}
    (careful : s.Careful stretch) {next : Serving Handoff Request Export Time}
    (taken : s.step ttl stretch = some next) : next.Inv := by
  cases stretch with
  | add handoff request export_ now =>
      cases taken
      exact inv.add careful request export_ now
  | takeFinished =>
      cases taken
      exact inv.takeFinished
  | finish handoff =>
      simp only [Serving.step] at taken
      split at taken
      · next idle =>
          cases taken
          exact inv.close careful idle
      · cases taken
  | clock now =>
      simp only [Serving.step] at taken
      split at taken
      · cases taken
        exact inv.goto (by simp)
      · cases taken
  | collect =>
      simp only [Serving.step] at taken
      split at taken
      · cases taken
        exact inv.collect _
      · cases taken
  | expireNext =>
      simp only [Serving.step] at taken
      split at taken
      · cases taken
        exact inv.goto (by simp)
      · next releasing =>
          cases taken
          simp only [Careful, releasing] at careful
          exact inv.expire careful releasing
      · cases taken

theorem Inv.ofReaches (reached : (machine ttl).Reaches Careful s) : s.Inv :=
  reached.invariant _ Inv.init fun _ _ _ _ inv careful taken =>
    inv.step careful taken

/-! ## What is held can be reported -/

omit [DecidableEq Request] [Sub Time] [LT Time] [DecidableLT Time] in
theorem fresh_of_none (nothing : s.table.finished = ∅) (handoff : Handoff) :
    s.table.Fresh handoff := by
  intro owner _
  simp [nothing]

theorem Releasable.before {stretch : Section Handoff Request Export Time}
    {next : Serving Handoff Request Export Time}
    (taken : s.step ttl stretch = some next)
    (same : ∀ request, next.added request = s.added request)
    (onward : next.Releasable ttl) : s.Releasable ttl := by
  obtain ⟨sections, later, ran, still, all⟩ := onward
  refine ⟨stretch :: sections, later, ?_, ?_, ?_⟩
  · exact Option.bind_eq_some_iff.mpr ⟨next, taken, ran⟩
  · intro request
    rw [still, same]
  · intro request
    rw [all, same]

/-- A release and the report of it. -/
theorem Releasable.report {stretch : Section Handoff Request Export Time}
    {next : Serving Handoff Request Export Time}
    (taken : s.step ttl stretch = some next)
    (same : ∀ request, next.added request = s.added request)
    (onward : next.takeFinished.Releasable ttl) : s.Releasable ttl := by
  have reports : next.step ttl .takeFinished = some next.takeFinished := rfl
  exact Releasable.before taken same
    (Releasable.before reports (fun _ => rfl) onward)

/-- Between calls the responder can close the held handoffs one by one. -/
theorem Inv.releasable_idle (inv : s.Inv) (idle : s.responder = .idle)
    (nothing : s.table.finished = ∅) : s.Releasable ttl := by
  induction size : s.table.owners.entries.length using Nat.strong_induction_on
    generalizing s with
  | _ size inductionHypothesis =>
  cases entries : s.table.owners.entries with
  | nil =>
      refine ⟨[], s, rfl, fun _ => rfl, ?_⟩
      intro request
      have total := inv.balance request
      simp only [ExportTable.held, Dict.tally, entries, List.countP_nil,
        ExportTable.waiting, nothing, Finset.notMem_empty, if_false] at total
      omega
  | cons entry rest =>
      have owned : s.table.owners.get entry.1 = some entry.2 := by
        apply Dict.get_of_mem
        rw [entries]
        exact List.mem_cons_self
      have fewer := Dict.length_pop_lt owned
      have closed := inv.close (fresh_of_none nothing entry.1) idle
      have taken : s.step ttl (.finish entry.1) = some (s.close entry.1) := by
        simp only [Serving.step, idle]
      have later : (s.close entry.1).takeFinished.Releasable ttl :=
        inductionHypothesis _ (size ▸ fewer) closed.takeFinished idle rfl rfl
      exact Releasable.report taken (fun _ => added_map _ _) later

/-- In `expire` the collected handoffs are released first. -/
theorem Inv.releasable_releasing (inv : s.Inv) {stale : List Handoff}
    (releasing : s.responder = .releasing stale)
    (nothing : s.table.finished = ∅) : s.Releasable ttl := by
  induction stale generalizing s with
  | nil =>
      have taken : s.step ttl .expireNext = some (s.goto .idle) := by
        simp only [Serving.step, releasing]
      have later : (s.goto .idle).Releasable ttl :=
        (inv.goto (by simp)).releasable_idle rfl nothing
      exact Releasable.before taken (fun _ => rfl) later
  | cons handoff rest inductionHypothesis =>
      have taken : s.step ttl .expireNext = some (s.expire handoff rest) := by
        simp only [Serving.step, releasing]
      have expired := inv.expire (fresh_of_none nothing handoff) releasing
      have later : (s.expire handoff rest).takeFinished.Releasable ttl :=
        inductionHypothesis expired.takeFinished rfl rfl
      exact Releasable.report taken (fun _ => rfl) later

theorem Inv.releasable_taken (inv : s.Inv) (nothing : s.table.finished = ∅) :
    s.Releasable ttl := by
  cases running : s.responder with
  | idle => exact inv.releasable_idle running nothing
  | timed now =>
      have taken : s.step ttl .collect = some (s.collect ttl now) := by
        simp only [Serving.step, running]
      have later : (s.collect ttl now).Releasable ttl :=
        (inv.collect now).releasable_releasing rfl nothing
      exact Releasable.before taken (fun _ => added_map _ _) later
  | releasing stale => exact inv.releasable_releasing running nothing

theorem Inv.releasable (inv : s.Inv) : s.Releasable ttl := by
  have reports : s.step ttl .takeFinished = some s.takeFinished := rfl
  exact Releasable.before reports (fun _ => rfl)
    (inv.takeFinished.releasable_taken rfl)

/-- Where no handoff is added again while it is held, and no request released
while it waits to be reported, every call of `add` is reported once, not before
its handoff was closed or expired, and none is lost. -/
theorem exports_conserved (reached : (machine ttl).Reaches Careful s) :
    s.Conserved ∧ s.Releasable ttl :=
  have inv := Inv.ofReaches reached
  ⟨inv.conserved, inv.releasable⟩

end Serving

/-! ## Runs -/

/-- Handoffs, requests and times are numbers, and an export is its number. -/
abbrev Numbered := Serving Nat Nat Nat Nat

namespace Serving

/-- A request is held and closed, a second expires. -/
def closedAndExpired : List (Section Nat Nat Nat Nat) :=
  [.add 7 1 (.inl 0) 0, .finish 7, .add 7 2 (.inr "no pages") 10, .takeFinished,
    .clock 200, .collect, .expireNext, .expireNext, .takeFinished]

instance (s : Numbered) (handoff : Nat) : Decidable (s.table.Fresh handoff) :=
  decidable_of_iff
    ((s.table.owners.get handoff).all fun owner => owner.1 ∉ s.table.finished)
    (by
      unfold ExportTable.Fresh
      cases s.table.owners.get handoff <;> simp)

instance (s : Numbered) (stretch : Section Nat Nat Nat Nat) :
    Decidable (s.Careful stretch) :=
  match stretch with
  | .add handoff _ _ _ =>
      inferInstanceAs (Decidable (s.table.owners.get handoff = none))
  | .finish handoff => inferInstanceAs (Decidable (s.table.Fresh handoff))
  | .expireNext =>
      match same : s.responder with
      | .releasing (handoff :: _) =>
          decidable_of_iff (s.table.Fresh handoff) (by simp [Careful, same])
      | .releasing [] => isTrue (by simp [Careful, same])
      | .idle => isTrue (by simp [Careful, same])
      | .timed _ => isTrue (by simp [Careful, same])
  | .takeFinished => isTrue trivial
  | .clock _ => isTrue trivial
  | .collect => isTrue trivial

/-- Both requests are reported once. -/
theorem exports_conserved_closed :
    ∃ s : Numbered, (machine 120).Reaches Careful s ∧
      s.taken 1 = 1 ∧ s.taken 2 = 1 ∧ s.Conserved ∧ s.Releasable 120 := by
  have runs : (((machine 120).guarded Careful).run init closedAndExpired).any
      (fun s => s.taken 1 = 1 ∧ s.taken 2 = 1) = true := by
    decide +kernel
  obtain ⟨s, reached, test⟩ := Machine.Reach.ofTest runs
  have careful := reached.ofGuarded
  rw [decide_eq_true_eq] at test
  exact ⟨s, careful, test.1, test.2, exports_conserved careful⟩

/-- Two requests under one handoff: the first is never reported. -/
theorem overwritten_export_lost :
    ∃ s : Numbered, (machine 120).Reach s ∧ ¬ s.Conserved := by
  have runs : ((machine 120).run init
      [.add 7 1 (.inl 0) 0, .add 7 2 (.inl 1) 1, .finish 7, .takeFinished]).any
      (fun s : Numbered => s.added 1 = 1 ∧ s.table.held 1 = 0 ∧
        s.table.waiting 1 = 0 ∧ s.taken 1 = 0) = true := by
    decide +kernel
  obtain ⟨s, reached, test⟩ := Machine.Reach.ofTest runs
  rw [decide_eq_true_eq] at test
  refine ⟨s, reached, ?_⟩
  intro conserved
  have total := conserved.balance 1
  omega

end Serving
end Kv
end Mcdma
