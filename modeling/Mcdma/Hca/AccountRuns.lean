import Mathlib.Algebra.BigOperators.Group.List.Basic
import Mcdma.Hca.Accounts

/-!
# Runs of the device

Every operation on the queues keeps the accounts or quarantines the transport,
whatever the firmware answers and whatever the device writes to the rings.
-/

namespace Mcdma
namespace Hca
namespace Device

/-- The accounts are in order unless the transport is quarantined. -/
def Sound (h : Device) : Prop := h.quarantined = true ∨ h.Accounts

/-- Nothing that an account looks at differs. -/
structure Quiet (h h' : Device) : Prop where
  list : h'.list = h.list
  index : h'.index = h.index
  qps : h'.qps = h.qps
  objects : ∀ c, (h'.cqs c).object = (h.cqs c).object
  references : ∀ c, (h'.cqs c).references = (h.cqs c).references
  outstanding : ∀ c, (h'.cqs c).outstanding = (h.cqs c).outstanding
  quarantined : h.quarantined = true → h'.quarantined = true

variable {h h' h'' : Device}

theorem Quiet.refl (h : Device) : h.Quiet h :=
  ⟨rfl, rfl, rfl, fun _ => rfl, fun _ => rfl, fun _ => rfl, id⟩

theorem Quiet.trans (first : h.Quiet h') (second : h'.Quiet h'') :
    h.Quiet h'' where
  list := second.list.trans first.list
  index := second.index.trans first.index
  qps := second.qps.trans first.qps
  objects := fun c => (second.objects c).trans (first.objects c)
  references := fun c => (second.references c).trans (first.references c)
  outstanding := fun c => (second.outstanding c).trans (first.outstanding c)
  quarantined := fun holds => second.quarantined (first.quarantined holds)

theorem Quiet.quarantine (h : Device) : h.Quiet h.quarantine :=
  ⟨rfl, rfl, rfl, fun _ => rfl, fun _ => rfl, fun _ => rfl, fun _ => rfl⟩

theorem Quiet.resources (h : Device) (count : Nat) :
    h.Quiet { h with resources := count } :=
  ⟨rfl, rfl, rfl, fun _ => rfl, fun _ => rfl, fun _ => rfl, id⟩

/-- A completion queue with another ring or consumer. -/
theorem Quiet.setCq (h : Device) {c : Nat} {cq : HardwareCq}
    (object : cq.object = (h.cqs c).object)
    (references : cq.references = (h.cqs c).references)
    (outstanding : cq.outstanding = (h.cqs c).outstanding) :
    h.Quiet (h.setCq c cq) := by
  have each : ∀ {Value : Type} (field : HardwareCq → Value),
      field cq = field (h.cqs c) → ∀ other,
        field ((h.setCq c cq).cqs other) = field (h.cqs other) := by
    intro Value field same other
    rw [cqs_setCq]
    by_cases one : other = c
    · rw [one, Function.update_self, same]
    · rw [Function.update_of_ne one]
  exact ⟨rfl, rfl, rfl, each HardwareCq.object object,
    each HardwareCq.references references,
    each HardwareCq.outstanding outstanding, id⟩

theorem Sound.quiet (sound : h.Sound) (quiet : h.Quiet h') : h'.Sound := by
  rcases sound with stopped | accounts
  · exact Or.inl (quiet.quarantined stopped)
  · refine Or.inr (accounts.keep quiet.list quiet.index quiet.qps ?_
      quiet.references quiet.outstanding)
    intro c _ live
    rw [quiet.objects]
    exact live

/-- A queue pair with another page, state or context. -/
theorem Sound.setQp (sound : h.Sound) {q : Nat} {qp : HardwareQp}
    (object : qp.object = (h.qps q).object)
    (send : qp.sendCq = (h.qps q).sendCq) (recv : qp.recvCq = (h.qps q).recvCq)
    (user : qp.userPosted = (h.qps q).userPosted)
    (sends : qp.sends = (h.qps q).sends)
    (receives : qp.receives = (h.qps q).receives) :
    (h.setQp q qp).Sound := by
  rcases sound with stopped | accounts
  · exact Or.inl stopped
  · refine Or.inr (accounts.move rfl rfl rfl object send recv (fun _ => rfl) ?_
      (fun _ => rfl) ?_ ?_)
    · rw [object, user, sends, receives]
      rintro (dead | posted)
      · exact accounts.listing.idle q (by simp [Live, dead])
      · exact accounts.listing.unposted q posted
    · intro c
      rw [HardwareQp.load, HardwareQp.load, send, recv, sends, receives]
      rfl
    · intro c
      rw [cqs_setQp, (accounts.counted c).outstanding]
      exact (accounts.counted c).bounded

/-! ## Commands -/

theorem call_cases (h : Device) (reply : Reply) :
    h.call reply = (none, h) ∨ h.call reply = (none, h.quarantine) ∨
      h.quarantined = false ∧ ∃ output, h.call reply = (some output, h) := by
  unfold call
  split
  · next ready =>
      have calm : h.quarantined = false := by
        simpa using (Bool.and_eq_true_iff.mp ready).1
      cases reply with
      | refused => exact Or.inl rfl
      | lost => exact Or.inr (Or.inl rfl)
      | done output => exact Or.inr (Or.inr ⟨calm, output, rfl⟩)
  · exact Or.inl rfl

theorem create_cases (h : Device) (object : Object) (reply : Reply) :
    h.create object reply = (none, h) ∨
      h.create object reply = (none, h.quarantine) ∨
      h.quarantined = false ∧ ∃ created,
        created.live = true ∧ h.create object reply =
          (some created, { h with resources := h.resources + 1 }) := by
  unfold create
  split
  · exact Or.inl rfl
  · obtain refused | lost | ⟨calm, output, done⟩ := h.call_cases reply
    · rw [refused]
      exact Or.inl rfl
    · rw [lost]
      exact Or.inr (Or.inl rfl)
    · rw [done]
      exact Or.inr (Or.inr ⟨calm, _, rfl, rfl⟩)

theorem destroy_cases (h : Device) (object : Object) (reply : Reply) :
    h.destroy object reply = (none, h) ∨
      h.destroy object reply = (none, h.quarantine) ∨
      ∃ left, left.live = false ∧ ∃ count, h.destroy object reply =
          (some left, { h with resources := count }) := by
  unfold destroy
  split
  · next dead =>
      exact Or.inr (Or.inr ⟨object, by simpa using dead, h.resources, rfl⟩)
  · split
    · exact Or.inr (Or.inr ⟨⟨0, false⟩, rfl, _, rfl⟩)
    · obtain refused | lost | ⟨-, output, done⟩ := h.call_cases reply
      · rw [refused]
        exact Or.inl rfl
      · rw [lost]
        exact Or.inr (Or.inl rfl)
      · rw [done]
        exact Or.inr (Or.inr ⟨⟨0, false⟩, rfl, _, rfl⟩)

/-! ## Completion queues -/

/-- A completion queue becomes live, or one that no queue pair uses is no
longer live. -/
theorem Sound.setCq (sound : h.Sound) {c : Nat} {cq : HardwareCq}
    (live : (h.cqs c).references ≠ 0 → (h.cqs c).object.live = true →
      cq.object.live = true)
    (references : cq.references = (h.cqs c).references)
    (outstanding : cq.outstanding = (h.cqs c).outstanding) :
    (h.setCq c cq).Sound := by
  rcases sound with stopped | accounts
  · exact Or.inl stopped
  · refine Or.inr (accounts.keep rfl rfl rfl ?_ ?_ ?_)
    all_goals
      intro other
      by_cases one : other = c
    · rw [one, cqs_setCq, Function.update_self]
      exact live
    · rw [cqs_setCq, Function.update_of_ne one]
      exact fun _ held => held
    · rw [one, cqs_setCq, Function.update_self, references]
    · rw [cqs_setCq, Function.update_of_ne one]
    · rw [one, cqs_setCq, Function.update_self, outstanding]
    · rw [cqs_setCq, Function.update_of_ne one]

theorem createCq_sound (sound : h.Sound) (c : Nat) (allocated : Bool)
    (reply : Reply) : (h.createCq c allocated reply).2.Sound := by
  unfold createCq
  dsimp only
  split
  · exact sound
  · obtain refused | lost | ⟨-, object, live, done⟩ :=
      h.create_cases (h.cqs c).object reply
    · rw [refused]
      exact sound.quiet (Quiet.setCq h rfl rfl rfl)
    · rw [lost]
      exact sound.quiet ((Quiet.quarantine h).trans
        (Quiet.setCq h.quarantine rfl rfl rfl))
    · rw [done]
      exact (sound.quiet (Quiet.resources h _)).setCq (fun _ _ => live) rfl rfl

theorem destroyCq_sound (sound : h.Sound) (c : Nat) (reply : Reply)
    (released : Bool) : (h.destroyCq c reply released).2.Sound := by
  unfold destroyCq
  dsimp only
  split
  · exact sound
  · next free =>
      simp only [Bool.or_eq_true, decide_eq_true_eq, not_or, not_not] at free
      obtain refused | lost | ⟨left, -, count, done⟩ :=
        h.destroy_cases (h.cqs c).object reply
      · rw [refused]
        exact sound
      · rw [lost]
        exact sound.quiet (Quiet.quarantine h)
      · rw [done]
        exact (sound.quiet (Quiet.resources h _)).setCq
          (fun used => absurd free.1 used) rfl rfl

/-! ## Queue pairs -/

theorem cqs_refer (h : Device) (c : Nat) (user : Bool) (other : Nat) :
    ((h.refer c user).cqs other).object = (h.cqs other).object ∧
      ((h.refer c user).cqs other).outstanding = (h.cqs other).outstanding ∧
      ((h.refer c user).cqs other).references =
        (h.cqs other).references + (if c = other then 1 else 0) := by
  simp only [refer, cqs_setCq]
  by_cases one : other = c
  · rw [one, Function.update_self, if_pos rfl]
    exact ⟨rfl, rfl, rfl⟩
  · rw [Function.update_of_ne one, if_neg (Ne.symm one)]
    exact ⟨rfl, rfl, rfl⟩

theorem createQp_sound (sound : h.Sound) (q : Nat) (pd : UInt32)
    (send recv : Nat) (uarPage : Option UInt32) (allocated : Bool)
    (reply : Reply) :
    (h.createQp q pd send recv uarPage allocated reply).2.Sound := by
  unfold createQp
  dsimp only
  split
  · exact sound
  · next wellFormed =>
      simp only [Bool.or_eq_true, not_or, Bool.not_eq_true] at wellFormed
      obtain ⟨⟨⟨⟨⟨-, dead⟩, -⟩, sendLive⟩, recvLive⟩, -⟩ := wellFormed
      split
      · exact sound
      · obtain refused | lost | ⟨calm, object, live, done⟩ :=
          h.create_cases (h.qps q).object reply
        · rw [refused]
          exact sound.setQp rfl rfl rfl rfl rfl rfl
        · rw [lost]
          exact (sound.quiet (Quiet.quarantine h)).setQp rfl rfl rfl rfl rfl rfl
        · rw [done]
          dsimp only
          split
          · exact Or.inl rfl
          · next index inserted =>
              have accounts := sound.resolve_left (by simp [calm])
              have gone : ¬h.Live q := by simp [Live, dead]
              refine Or.inr (accounts.add gone rfl rfl inserted live
                (accounts.listing.idle q gone)
                ⟨by simpa using sendLive, by simpa using recvLive⟩ ?_ ?_ ?_)
              all_goals intro c
              · exact (cqs_refer _ recv _ c).1.trans (cqs_refer _ send _ c).1
              · refine (cqs_refer _ recv _ c).2.2.trans ?_
                rw [(cqs_refer _ send _ c).2.2, Nat.add_assoc]
                rfl
              · exact (cqs_refer _ recv _ c).2.1.trans
                  (cqs_refer _ send _ c).2.1

theorem purge_quiet (h : Device) (c : Nat) (qpn : UInt32) :
    h.Quiet (h.purge c qpn).2 := by
  unfold purge
  dsimp only
  split
  · exact Quiet.refl h
  · split
    · exact Quiet.quarantine h
    · split
      · exact Quiet.quarantine h
      · exact Quiet.setCq h rfl rfl rfl

theorem purgeBoth_quiet (h : Device) (send recv : Nat) (qpn : UInt32) :
    h.Quiet (h.purgeBoth send recv qpn).2 := by
  have first := h.purge_quiet send qpn
  unfold purgeBoth
  split
  · next following purged =>
      rw [purged] at first
      exact first
  · next following purged =>
      rw [purged] at first
      split
      · exact first
      · exact first.trans (following.purge_quiet recv qpn)

/-- What is left of the counts when the requests of a queue pair are given
back. -/
theorem cqs_credit (h : Device) (send recv sends receives c : Nat) :
    ((h.credit send recv sends receives).cqs c).object = (h.cqs c).object ∧
      ((h.credit send recv sends receives).cqs c).references =
        (h.cqs c).references ∧
      ((h.credit send recv sends receives).cqs c).outstanding =
        (h.cqs c).outstanding - (if send = c then sends else 0) -
          (if recv = c then receives else 0) := by
  simp only [credit, cqs_setCq]
  by_cases one : c = recv
  · subst one
    rw [Function.update_self, if_pos rfl]
    by_cases two : c = send
    · subst two
      rw [Function.update_self, if_pos rfl]
      exact ⟨rfl, rfl, rfl⟩
    · rw [Function.update_of_ne two, if_neg (Ne.symm two)]
      exact ⟨rfl, rfl, rfl⟩
  · rw [Function.update_of_ne one, if_neg (Ne.symm one)]
    by_cases two : c = send
    · subst two
      rw [Function.update_self, if_pos rfl]
      exact ⟨rfl, rfl, rfl⟩
    · rw [Function.update_of_ne two, if_neg (Ne.symm two)]
      exact ⟨rfl, rfl, rfl⟩

/-- The requests of one queue pair are among those of all. -/
theorem Accounts.load_le (accounts : h.Accounts) (q c : Nat) :
    (h.qps q).load c ≤ (h.cqs c).outstanding := by
  have sums := accounts.listing.load_replace
    (h.list_setQp q (h.qps q).cleared) (h.qps_setQp q (h.qps q).cleared)
    (fun _ => ⟨rfl, rfl⟩) c
  have zero : (h.qps q).cleared.load c = 0 :=
    HardwareQp.load_eq_zero ⟨rfl, rfl⟩ c
  rw [(accounts.counted c).outstanding]
  omega

theorem resetStopped_sound (sound : h.Sound) (q : Nat) :
    (h.resetStopped q).2.Sound := by
  have quiet := h.purgeBoth_quiet (h.qps q).sendCq (h.qps q).recvCq
    (h.qps q).object.id
  unfold resetStopped
  dsimp only
  split
  · next following purged =>
      rw [purged] at quiet
      exact sound.quiet quiet
  · next following purged =>
      replace quiet : h.Quiet following := by simpa only [purged] using quiet
      have sound := sound.quiet quiet
      rw [← quiet.qps]
      rcases sound with stopped | accounts
      · exact Or.inl stopped
      · have less : ∀ c, _ := fun c => cqs_credit following (following.qps q).sendCq
          (following.qps q).recvCq (following.qps q).sends.pending
          (following.qps q).receives.pending c
        have part : ∀ c, (following.qps q).load c ≤ (following.cqs c).outstanding :=
          fun c => accounts.load_le q c
        have zero : ∀ c, (following.qps q).cleared.load c = 0 :=
          HardwareQp.load_eq_zero ⟨rfl, rfl⟩
        refine Or.inr (accounts.move rfl rfl rfl rfl rfl rfl
          (fun c => (less c).1) (fun _ => ⟨rfl, rfl⟩) (fun c => (less c).2.1)
          ?_ ?_)
        · intro c
          have enough := part c
          rw [cqs_setQp, (less c).2.2, zero]
          rw [HardwareQp.load] at enough ⊢
          omega
        · intro c
          have bounded := (accounts.counted c).bounded
          rw [← (accounts.counted c).outstanding] at bounded
          rw [cqs_setQp, (less c).2.2]
          omega

/-- A reset that succeeds leaves the queue pair as it was but without its
requests. -/
theorem resetStopped_qp (h : Device) (q : Nat)
    (done : (h.resetStopped q).1 = true) :
    (h.resetStopped q).2.qps q = (h.qps q).cleared := by
  unfold resetStopped at done ⊢
  dsimp only at done ⊢
  split
  · next following purged =>
      rw [purged] at done
      cases done
  · exact Function.update_self _ _ _

theorem resetQp_qp (h : Device) (q : Nat) (reply : Reply)
    (done : (h.resetQp q reply).1 = true) (live : h.Live q) :
    (h.resetQp q reply).2.qps q = (h.qps q).cleared := by
  unfold resetQp at done ⊢
  dsimp only at done ⊢
  rw [if_neg (by simpa [Live] using live)] at done ⊢
  split
  · rw [qps_rebuildBoth, qps_setQp, Function.update_self]
  · next attached =>
      rw [if_neg attached] at done
      split
      · next uncovered =>
          rw [if_pos uncovered] at done
          cases done
      · next covered =>
          rw [if_neg covered] at done
          split
          · next started =>
              rw [if_pos started] at done
              obtain refused | lost | ⟨-, output, answered⟩ :=
                h.call_cases reply
              · rw [refused] at done
                cases done
              · rw [lost] at done
                cases done
              · rw [answered] at done ⊢
                rw [resetStopped_qp _ _ done, qps_setQp, Function.update_self]
                rfl
          · next stopped =>
              rw [if_neg stopped] at done
              exact resetStopped_qp h q done

theorem resetQp_sound (sound : h.Sound) (q : Nat) (reply : Reply) :
    (h.resetQp q reply).2.Sound := by
  unfold resetQp
  dsimp only
  split
  · exact sound
  · next alive =>
      split
      · rcases sound with stopped | accounts
        · exact Or.inl (by rw [quarantined_rebuildBoth]; exact stopped)
        · have listing := accounts.listing.replace
            (h.list_setQp q (h.qps q).cleared)
            (h.index_setQp q _) (h.qps_setQp q _) rfl rfl rfl
            (fun _ => rfl) (fun _ => ⟨rfl, rfl⟩)
          have sums := fun c => accounts.listing.load_replace
            (h.list_setQp q (h.qps q).cleared) (h.qps_setQp q _)
            (fun _ => ⟨rfl, rfl⟩) c
          have zero : ∀ c, (h.qps q).cleared.load c = 0 :=
            HardwareQp.load_eq_zero ⟨rfl, rfl⟩
          refine Or.inr (listing.accounts_rebuild ?_ ?_)
          · intro c
            have before := (accounts.counted c).bounded
            have after := sums c
            rw [zero] at after
            omega
          · intro c send recv
            have counted := accounts.counted c
            have apart : (h.qps q).load c = 0 := by
              rw [HardwareQp.load, if_neg (Ne.symm send), if_neg (Ne.symm recv)]
            have after := sums c
            rw [zero, apart] at after
            refine ⟨?_, ?_, ?_⟩
            · rw [cqs_setQp, counted.outstanding]
              exact after.symm
            · rw [cqs_setQp, counted.references, roles_replace
                (h.list_setQp q (h.qps q).cleared) (h.qps_setQp q _) rfl rfl]
            · have bounded := counted.bounded
              omega
      · split
        · exact sound.quiet (Quiet.quarantine h)
        · split
          · obtain refused | lost | ⟨-, output, answered⟩ := h.call_cases reply
            · rw [refused]
              exact sound
            · rw [lost]
              exact sound.quiet (Quiet.quarantine h)
            · rw [answered]
              have stopped : (h.setQp q { h.qps q with state := 0 }).Sound :=
                sound.setQp rfl rfl rfl rfl rfl rfl
              exact resetStopped_sound stopped q
          · exact resetStopped_sound sound q

/-- A queue pair that is not live is overwritten. -/
theorem Accounts.bury (accounts : h.Accounts) {q : Nat} {qp : HardwareQp}
    (gone : ¬h.Live q) (dead : qp.object.live = false)
    (idle : qp.sends.pending = 0 ∧ qp.receives.pending = 0) :
    (h.setQp q qp).Accounts := by
  have listing := accounts.listing
  have others : ∀ other, h.Live other → other ≠ q :=
    fun other alive same => gone (same ▸ alive)
  have same : ∀ other, (h.setQp q qp).Live other ↔ h.Live other := by
    intro other
    rw [Live, Live, qps_setQp]
    by_cases one : other = q
    · rw [one, Function.update_self, dead]
      exact iff_of_false (by simp) gone
    · rw [Function.update_of_ne one]
  have kept : ∀ count : HardwareQp → Nat,
      ((h.setQp q qp).list.map fun other =>
          count ((h.setQp q qp).qps other)) =
        h.list.map fun other => count (h.qps other) := fun count =>
    List.map_congr_left fun other here => by
      rw [qps_setQp, Function.update_of_ne
        (others other ((listing.listed other).mp here))]
  refine ⟨⟨listing.nodup, ?_, ?_, ?_, ?_, ?_⟩, fun c => ?_⟩
  · intro other
    rw [same]
    exact listing.listed other
  · intro id other
    rw [same, index_setQp, listing.indexed, qps_setQp]
    refine and_congr_right fun alive => ?_
    rw [Function.update_of_ne (others other alive)]
  · intro other fallen
    rw [same] at fallen
    rw [qps_setQp]
    by_cases one : other = q
    · rw [one, Function.update_self]
      exact idle
    · rw [Function.update_of_ne one]
      exact listing.idle other fallen
  · intro other
    rw [qps_setQp]
    by_cases one : other = q
    · rw [one, Function.update_self]
      exact fun _ => idle
    · rw [Function.update_of_ne one]
      exact listing.unposted other
  · intro other alive
    rw [same] at alive
    rw [qps_setQp, Function.update_of_ne (others other alive)]
    exact listing.served other alive
  · have counted := accounts.counted c
    have load : (h.setQp q qp).load c = h.load c := by
      rw [Device.load, kept fun qp => qp.load c]
      rfl
    have roles : (h.setQp q qp).roles c = h.roles c := by
      rw [Device.roles, kept fun qp => qp.roles c]
      rfl
    refine ⟨?_, ?_, ?_⟩
    · rw [load]
      exact counted.outstanding
    · rw [roles]
      exact counted.references
    · rw [load]
      exact counted.bounded

/-- A live queue pair without requests leaves the list and the index, and its
completion queues are counted again. -/
theorem Accounts.forget (accounts : h.Accounts) {q : Nat} {object : Object}
    (lives : h.Live q) (dead : object.live = false)
    (idle : (h.qps q).sends.pending = 0 ∧ (h.qps q).receives.pending = 0) :
    (h.forgetQp q true (h.qps q).object.id object).Accounts := by
  have listing := accounts.listing
  have mem := (listing.listed q).mpr lives
  obtain ⟨rest, erased, -⟩ := h.index.erase_eq
    ((listing.indexed _ q).mpr ⟨lives, rfl⟩)
  have removed : ((h.setQp q { h.qps q with object := object }).unlist q
      (h.qps q).object.id).Listing := by
    refine listing.remove lives rfl ?_ rfl dead idle (fun _ => rfl)
    simp only [unlist, index_setQp, erased, Option.getD_some]
  -- the erased sum, by what the queue pair contributed
  have less : ∀ count : HardwareQp → Nat,
      (((h.list.erase q).map fun other => count ((h.setQp q
        { h.qps q with object := object }).qps other)).sum +
          count (h.qps q)) =
        (h.list.map fun other => count (h.qps other)).sum := by
    intro count
    have kept : ((h.list.erase q).map fun other => count ((h.setQp q
        { h.qps q with object := object }).qps other)) =
        (h.list.erase q).map fun other => count (h.qps other) :=
      List.map_congr_left fun other here => by
        rw [qps_setQp, Function.update_of_ne
          (listing.nodup.mem_erase_iff.mp here).1]
    rw [kept, Nat.add_comm]
    exact List.sum_map_erase (fun other => count (h.qps other)) mem
  have load : ∀ c, ((h.setQp q { h.qps q with object := object }).unlist q
      (h.qps q).object.id).load c = h.load c := by
    intro c
    have sums := less fun qp => qp.load c
    rw [HardwareQp.load_eq_zero idle] at sums
    exact sums
  refine removed.accounts_rebuild ?_ ?_
  · intro c
    rw [load]
    exact (accounts.counted c).bounded
  · intro c send recv
    have counted := accounts.counted c
    have sums := less fun qp => qp.roles c
    have apart : (h.qps q).roles c = 0 := by
      rw [HardwareQp.roles, if_neg (Ne.symm send), if_neg (Ne.symm recv)]
    rw [apart] at sums
    refine ⟨?_, ?_, ?_⟩
    · rw [load]
      exact counted.outstanding
    · refine counted.references.trans ?_
      exact sums.symm
    · rw [load]
      exact counted.bounded

theorem Sound.bury (sound : h.Sound) {q : Nat} {qp : HardwareQp}
    (gone : ¬h.Live q) (dead : qp.object.live = false)
    (idle : qp.sends.pending = 0 ∧ qp.receives.pending = 0) :
    (h.setQp q qp).Sound := by
  rcases sound with stopped | accounts
  · exact Or.inl stopped
  · exact Or.inr (accounts.bury gone dead idle)

theorem quarantined_forgetQp (h : Device) (q : Nat) (wasLive : Bool)
    (qpn : UInt32) (object : Object) :
    (h.forgetQp q wasLive qpn object).quarantined = h.quarantined := by
  unfold forgetQp
  dsimp only
  split
  · rw [quarantined_rebuildBoth]
    rfl
  · rfl

theorem qps_forgetQp (h : Device) (q : Nat) (wasLive : Bool)
    (qpn : UInt32) (object : Object) :
    (h.forgetQp q wasLive qpn object).qps =
      Function.update h.qps q { h.qps q with object := object } := by
  unfold forgetQp
  dsimp only
  split
  · rw [qps_rebuildBoth]
    rfl
  · rfl

/-- The bookkeeping of a destroyed queue pair, by whether it was live. -/
theorem forgetQp_sound (sound : h.Sound) {q : Nat} {wasLive : Bool}
    {object : Object} (same : (h.qps q).object.live = wasLive)
    (idle : wasLive = true → (h.qps q).sends.pending = 0 ∧
      (h.qps q).receives.pending = 0) (dead : object.live = false) :
    (h.forgetQp q wasLive (h.qps q).object.id object).Sound := by
  rcases sound with stopped | accounts
  · exact Or.inl (by rw [quarantined_forgetQp, stopped])
  · refine Or.inr ?_
    cases wasLive with
    | true => exact accounts.forget same dead (idle rfl)
    | false =>
        have gone : ¬h.Live q := by simp [Live, same]
        exact accounts.bury gone dead (accounts.listing.idle q gone)

theorem resetQp_dead (h : Device) (q : Nat) (reply : Reply)
    (gone : ¬h.Live q) : h.resetQp q reply = (true, h) := by
  unfold resetQp
  exact if_pos (by simpa [Live] using gone)

theorem resetQp_object (h : Device) (q : Nat) (reply : Reply)
    (done : (h.resetQp q reply).1 = true) :
    ((h.resetQp q reply).2.qps q).object = (h.qps q).object := by
  by_cases lives : h.Live q
  · rw [resetQp_qp h q reply done lives]
    rfl
  · rw [resetQp_dead h q reply lives]

theorem destroyQp_sound (sound : h.Sound) (q : Nat) (reset destroyed : Reply)
    (released : Bool) : (h.destroyQp q reset destroyed released).2.Sound := by
  have first := resetQp_sound sound q reset
  have object := resetQp_object h q reset
  have cleared := resetQp_qp h q reset
  unfold destroyQp
  dsimp only
  split
  · next following failed =>
      rw [failed] at first
      exact first
  · next following done =>
      simp only [done] at first object cleared
      obtain refused | lost | ⟨left, dead, count, answered⟩ :=
        following.destroy_cases (following.qps q).object destroyed
      · rw [refused]
        exact first
      · rw [lost]
        exact first.quiet (Quiet.quarantine following)
      · rw [answered, ← object trivial]
        have forgotten : (Device.forgetQp { following with resources := count } q
            (following.qps q).object.live (following.qps q).object.id left).Sound := by
          refine forgetQp_sound (first.quiet (Quiet.resources following count)) rfl
            (fun lives => ?_) dead
          rw [object trivial] at lives
          have after := cleared trivial lives
          change (following.qps q).sends.pending = 0 ∧
            (following.qps q).receives.pending = 0
          rw [after]
          exact ⟨rfl, rfl⟩
        dsimp only
        split
        · refine forgotten.bury ?_ rfl ⟨rfl, rfl⟩
          rw [Live, qps_forgetQp, Function.update_self, dead]
          simp
        · exact forgotten

/-! ## Requests and completions -/

theorem transition_sound (sound : h.Sound) (q opcode : Nat) (agrees : Bool)
    (reply : Reply) : (h.transition q opcode agrees reply).2.Sound := by
  unfold transition
  dsimp only
  split
  · exact sound
  · obtain refused | lost | ⟨-, output, answered⟩ := h.call_cases reply
    · rw [refused]
      exact sound
    · rw [lost]
      exact sound.quiet (Quiet.quarantine h)
    · rw [answered]
      exact sound.setQp rfl rfl rfl rfl rfl rfl

theorem cqs_charge (h : Device) (c other : Nat) :
    ((h.charge c).cqs other).object = (h.cqs other).object ∧
      ((h.charge c).cqs other).references = (h.cqs other).references ∧
      ((h.charge c).cqs other).outstanding =
        (h.cqs other).outstanding + (if c = other then 1 else 0) := by
  simp only [charge, cqs_setCq]
  by_cases one : other = c
  · rw [one, Function.update_self, if_pos rfl]
    exact ⟨rfl, rfl, rfl⟩
  · rw [Function.update_of_ne one, if_neg (Ne.symm one)]
    exact ⟨rfl, rfl, rfl⟩

/-- One more request of a queue pair, charged to a completion queue with
room. -/
theorem Accounts.charge (accounts : h.Accounts) {q c : Nat} {qp : HardwareQp}
    (live : h.Live q) (posted : (h.qps q).userPosted = false)
    (object : qp.object = (h.qps q).object)
    (send : qp.sendCq = (h.qps q).sendCq) (recv : qp.recvCq = (h.qps q).recvCq)
    (user : qp.userPosted = (h.qps q).userPosted)
    (more : ∀ other, qp.load other =
      (h.qps q).load other + (if c = other then 1 else 0))
    (room : (h.cqs c).outstanding < 31) :
    ((h.setQp q qp).charge c).Accounts := by
  have charged := cqs_charge (h.setQp q qp) c
  refine accounts.move rfl rfl rfl object send recv (fun c => (charged c).1)
    ?_ (fun c => (charged c).2.1) ?_ ?_
  · rintro (dead | theirs)
    · rw [object, show (h.qps q).object.live = true from live] at dead
      cases dead
    · rw [user, posted] at theirs
      cases theirs
  · intro other
    rw [(charged other).2.2, more, cqs_setQp]
    omega
  · intro other
    have bounded := (accounts.counted other).bounded
    rw [← (accounts.counted other).outstanding] at bounded
    rw [(charged other).2.2, cqs_setQp]
    split
    · next same =>
        subst same
        omega
    · omega

theorem post_sound (sound : h.Sound) (q : Nat) (id : UInt64)
    (r : Verbs.SendRequest) (rung : Bool) : (h.post q id r rung).2.Sound := by
  unfold post
  dsimp only
  split
  · exact sound
  · next allowed =>
      simp only [Bool.or_eq_true, not_or, Bool.not_eq_true] at allowed
      obtain ⟨⟨⟨⟨⟨⟨user, dead⟩, -⟩, notReady⟩, -⟩, -⟩, full⟩ := allowed
      have live : h.Live q := by simpa [Live] using dead
      have room : (h.cqs (h.qps q).sendCq).outstanding < 31 := by
        simpa using full
      split
      · exact sound
      · split
        · exact sound.setQp rfl rfl rfl rfl rfl rfl
        · next sends recorded =>
            have more := WorkQueue.pending_post recorded
            rcases sound with stopped | accounts
            · simp [ready, stopped] at notReady
            · split
              · refine Or.inr (accounts.charge live user rfl rfl rfl rfl ?_
                  room)
                intro other
                simp only [HardwareQp.load, more]
                split <;> omega
              · exact Or.inl rfl

theorem receive_sound (sound : h.Sound) (q : Nat) (id address : UInt64)
    (length lkey : UInt32) :
    (h.receive q id address length lkey).2.Sound := by
  unfold receive
  dsimp only
  split
  · exact sound
  · next allowed =>
      simp only [Bool.or_eq_true, not_or, Bool.not_eq_true] at allowed
      obtain ⟨⟨⟨⟨⟨⟨⟨⟨user, dead⟩, -⟩, notReady⟩, -⟩, -⟩, -⟩, -⟩, full⟩ := allowed
      have live : h.Live q := by simpa [Live] using dead
      have room : (h.cqs (h.qps q).recvCq).outstanding < 31 := by
        simpa using full
      split
      · exact sound.setQp rfl rfl rfl rfl rfl rfl
      · next receives recorded =>
          have more := WorkQueue.pending_post recorded
          rcases sound with stopped | accounts
          · simp [ready, stopped] at notReady
          · refine Or.inr (accounts.charge live user rfl rfl rfl rfl ?_ room)
            intro other
            simp only [HardwareQp.load, more]
            split <;> split <;> omega

theorem cqs_settle (h : Device) (c credit other : Nat) :
    ((h.settle c credit).cqs other).object = (h.cqs other).object ∧
      ((h.settle c credit).cqs other).references = (h.cqs other).references ∧
      ((h.settle c credit).cqs other).outstanding =
        (h.cqs other).outstanding - (if c = other then credit else 0) := by
  simp only [settle, cqs_setCq]
  by_cases one : other = c
  · rw [one, Function.update_self, if_pos rfl]
    exact ⟨rfl, rfl, rfl⟩
  · rw [Function.update_of_ne one, if_neg (Ne.symm one)]
    exact ⟨rfl, rfl, rfl⟩

theorem pollQp_sound (sound : h.Sound) (c : Nat) (result : CqResult)
    (completion : Completion) (q : Nat) (live : h.Live q) :
    (h.pollQp c result completion q).2.Sound := by
  unfold pollQp
  dsimp only
  split
  · exact Or.inl rfl
  · next serves =>
      simp only [not_not] at serves
      split
      · have settled := cqs_settle h c 0
        refine sound.quiet ⟨rfl, rfl, rfl, fun c => (settled c).1,
          fun c => (settled c).2.1, fun c => ?_, id⟩
        rw [(settled c).2.2]
        split <;> rfl
      · next posted =>
          split
          · exact Or.inl rfl
          · next owed =>
              split
              · exact Or.inl rfl
              · next work rest took =>
                  have less := WorkQueue.pending_complete took
                  have parts := HardwareQp.load_withQueue (h.qps q)
                    completion.send less
                  have kept : ∀ {Value : Type} (field : HardwareQp → Value),
                      (∀ queue, field { h.qps q with sends := queue } =
                        field (h.qps q)) →
                      (∀ queue, field { h.qps q with receives := queue } =
                        field (h.qps q)) →
                      field ((h.qps q).withQueue completion.send rest) =
                        field (h.qps q) := by
                    intro Value field sends receives
                    unfold HardwareQp.withQueue
                    split
                    · exact sends rest
                    · exact receives rest
                  have settled := cqs_settle (h.setQp q
                    ((h.qps q).withQueue completion.send rest)) c 1
                  rcases sound with stopped | accounts
                  · exact Or.inl stopped
                  · refine Or.inr (accounts.move rfl rfl rfl
                      (kept HardwareQp.object (fun _ => rfl) (fun _ => rfl))
                      (kept HardwareQp.sendCq (fun _ => rfl) (fun _ => rfl))
                      (kept HardwareQp.recvCq (fun _ => rfl) (fun _ => rfl))
                      (fun c => (settled c).1) ?_ (fun c => (settled c).2.1)
                      ?_ ?_)
                    · rw [kept HardwareQp.object (fun _ => rfl) (fun _ => rfl),
                        kept HardwareQp.userPosted (fun _ => rfl)
                          (fun _ => rfl)]
                      rintro (dead | theirs)
                      · rw [show (h.qps q).object.live = true from live] at dead
                        cases dead
                      · exact absurd theirs posted
                    · intro other
                      have part := parts other
                      have whole := accounts.load_le q other
                      rw [serves] at part
                      rw [(settled other).2.2, cqs_setQp]
                      omega
                    · intro other
                      have bounded := (accounts.counted other).bounded
                      rw [← (accounts.counted other).outstanding] at bounded
                      rw [(settled other).2.2, cqs_setQp]
                      omega

theorem poll_sound (sound : h.Sound) (c : Nat) : (h.poll c).2.Sound := by
  unfold poll
  dsimp only
  split
  · exact sound
  · next ready =>
      split
      · exact sound
      · exact sound
      · split
        · exact Or.inl rfl
        · next q found =>
            rcases sound with stopped | accounts
            · simp [Device.ready, stopped] at ready
            · have live := (accounts.listing.indexed _ _).mp
                (h.index.find_eq_some_iff.mp found)
              exact pollQp_sound (Or.inr accounts) c _ _ q live.1

/-! ## Runs -/

/-- What can happen: an operation of the kernel, the provider's context of a
queue pair, the device writing a ring, and the device going away. -/
inductive Operation where
  | createCq (c : Nat) (allocated : Bool) (reply : Reply)
  | destroyCq (c : Nat) (reply : Reply) (released : Bool)
  | createQp (q : Nat) (pd : UInt32) (send recv : Nat)
      (uarPage : Option UInt32) (allocated : Bool) (reply : Reply)
  | transition (q opcode : Nat) (agrees : Bool) (reply : Reply)
  | post (q : Nat) (id : UInt64) (r : Verbs.SendRequest) (rung : Bool)
  | receive (q : Nat) (id address : UInt64) (length lkey : UInt32)
  | poll (c : Nat)
  | resetQp (q : Nat) (reply : Reply)
  | destroyQp (q : Nat) (reset destroyed : Reply) (released : Bool)
  | attach (q : Nat) (context : Option Nat)
  | write (c : Nat) (ring : Fin 32 → Cqe)
  | remove (detached inactive : Bool)

/-- The device after an operation. -/
def perform (h : Device) : Operation → Device
  | .createCq c allocated reply => (h.createCq c allocated reply).2
  | .destroyCq c reply released => (h.destroyCq c reply released).2
  | .createQp q pd send recv uarPage allocated reply =>
      (h.createQp q pd send recv uarPage allocated reply).2
  | .transition q opcode agrees reply =>
      (h.transition q opcode agrees reply).2
  | .post q id r rung => (h.post q id r rung).2
  | .receive q id address length lkey =>
      (h.receive q id address length lkey).2
  | .poll c => (h.poll c).2
  | .resetQp q reply => (h.resetQp q reply).2
  | .destroyQp q reset destroyed released =>
      (h.destroyQp q reset destroyed released).2
  | .attach q context => h.setQp q { h.qps q with clientContext := context }
  | .write c ring => h.setCq c { h.cqs c with ring := ring }
  | .remove detached inactive =>
      { h with detached := detached, inactive := inactive }

/-- A device that starts without queues. -/
def machine (userQueues : Bool) (uar : UInt32) : Machine Device Operation where
  start := init userQueues uar
  step := fun h operation => some (h.perform operation)

theorem perform_sound (sound : h.Sound) (operation : Operation) :
    (h.perform operation).Sound := by
  cases operation with
  | createCq c allocated reply => exact createCq_sound sound c allocated reply
  | destroyCq c reply released => exact destroyCq_sound sound c reply released
  | createQp q pd send recv uarPage allocated reply =>
      exact createQp_sound sound q pd send recv uarPage allocated reply
  | transition q opcode agrees reply =>
      exact transition_sound sound q opcode agrees reply
  | post q id r rung => exact post_sound sound q id r rung
  | receive q id address length lkey =>
      exact receive_sound sound q id address length lkey
  | poll c => exact poll_sound sound c
  | resetQp q reply => exact resetQp_sound sound q reply
  | destroyQp q reset destroyed released =>
      exact destroyQp_sound sound q reset destroyed released
  | attach q context => exact sound.setQp rfl rfl rfl rfl rfl rfl
  | write c ring => exact sound.quiet (Quiet.setCq h rfl rfl rfl)
  | remove detached inactive =>
      exact sound.quiet
        ⟨rfl, rfl, rfl, fun _ => rfl, fun _ => rfl, fun _ => rfl, id⟩

theorem accounts_init (userQueues : Bool) (uar : UInt32) :
    (init userQueues uar).Accounts := by
  refine ⟨⟨List.nodup_nil, ?_, ?_, fun _ _ => ⟨rfl, rfl⟩,
    fun _ _ => ⟨rfl, rfl⟩, ?_⟩, fun c => ⟨rfl, rfl, Nat.zero_le _⟩⟩
  · intro q
    exact iff_of_false List.not_mem_nil Bool.false_ne_true
  · intro id q
    refine iff_of_false ?_ (fun both => Bool.false_ne_true both.1)
    rintro ⟨spot, here⟩
    cases here
  · intro q live
    exact absurd live Bool.false_ne_true

theorem reach_sound {userQueues : Bool} {uar : UInt32}
    (reached : (machine userQueues uar).Reach h) : h.Sound := by
  refine reached.invariant Sound (Or.inr (accounts_init userQueues uar)) ?_
  intro before following operation sound taken
  cases taken
  exact perform_sound sound operation

/-- The requests outstanding on a completion queue, of the live queue pairs the
kernel posts for. -/
def kernelLoad (h : Device) (c : Nat) : Nat :=
  ((h.list.filter fun q => !(h.qps q).userPosted).map fun q =>
    (h.qps q).load c).sum

/-- Queue pairs that are posted to from userspace have no kernel requests. -/
theorem Listing.kernelLoad_eq (listing : h.Listing) (c : Nat) :
    h.kernelLoad c = h.load c := by
  have each : ∀ entries : List Nat,
      ((entries.filter fun q => !(h.qps q).userPosted).map fun q =>
        (h.qps q).load c).sum =
          (entries.map fun q => (h.qps q).load c).sum := by
    intro entries
    induction entries with
    | nil => rfl
    | cons q rest inductionHypothesis =>
        by_cases user : (h.qps q).userPosted = true
        · rw [List.filter_cons_of_neg (by simp [user]), inductionHypothesis,
            List.map_cons, List.sum_cons,
            HardwareQp.load_eq_zero (listing.unposted q user), Nat.zero_add]
        · rw [List.filter_cons_of_pos (by simpa using user), List.map_cons,
            List.map_cons, List.sum_cons, List.sum_cons, inductionHypothesis]
  exact each h.list

/-- While the transport is not quarantined the counts of every live completion
queue are those of the live queue pairs, the list and the index name exactly
these, and a completion queue is destroyed only when none of them uses it. -/
theorem accounts_hold {userQueues : Bool} {uar : UInt32}
    (reached : (machine userQueues uar).Reach h)
    (calm : h.quarantined = false) :
    (∀ c, (h.cqs c).object.live = true →
      (h.cqs c).outstanding = h.kernelLoad c ∧ (h.cqs c).outstanding ≤ 31 ∧
        (h.cqs c).references = h.roles c) ∧
    (h.list.Nodup ∧ ∀ q, q ∈ h.list ↔ h.Live q) ∧
    (∀ id q, h.index.find id = some q ↔
      h.Live q ∧ (h.qps q).object.id = id) ∧
    (∀ c reply released, (h.destroyCq c reply released).1 = true →
      ∀ q, h.Live q → (h.qps q).sendCq ≠ c ∧ (h.qps q).recvCq ≠ c) := by
  have accounts := (reach_sound reached).resolve_left (by simp [calm])
  refine ⟨?_, ⟨accounts.listing.nodup, accounts.listing.listed⟩, ?_, ?_⟩
  · intro c _
    have counted := accounts.counted c
    rw [accounts.listing.kernelLoad_eq, counted.outstanding]
    exact ⟨rfl, counted.bounded, counted.references⟩
  · intro id q
    rw [h.index.find_eq_some_iff, accounts.listing.indexed]
  · intro c reply released done q live
    refine accounts.unreferenced ?_ live
    by_contra used
    have refused : h.destroyCq c reply released = (false, h) :=
      if_pos (by simp [used])
    rw [refused] at done
    cases done

/-- A queue pair on one completion queue in both roles with one receive
posted: the count is one, there are two references, and the completion queue
cannot be destroyed. -/
theorem accounts_hold_busy : ∃ h, (machine false 0).Reach h ∧
    h.quarantined = false ∧ h.kernelLoad 0 = 1 ∧ h.roles 0 = 2 ∧
    ∀ reply released, (h.destroyCq 0 reply released).1 ≠ true := by
  have runs : (((machine false 0).run (machine false 0).start
      [.createCq 0 true (.done 7), .createQp 3 1 0 0 none true (.done 9),
        .transition 3 0x502 true (.done 0), .receive 3 5 4096 64 2]).any
      fun h => !h.quarantined && (h.cqs 0).object.live &&
        (h.cqs 0).outstanding == 1 && (h.cqs 0).references == 2 &&
        (h.qps 3).object.live && (h.qps 3).sendCq == 0) = true := by
    decide +kernel
  obtain ⟨h, reached, passed⟩ := Machine.Reach.ofTest runs
  simp only [Bool.and_eq_true, Bool.not_eq_true', beq_iff_eq] at passed
  obtain ⟨⟨⟨⟨⟨calm, live⟩, one⟩, two⟩, alive⟩, sends⟩ := passed
  obtain ⟨counts, -, -, destroyed⟩ := accounts_hold reached calm
  obtain ⟨load, -, roles⟩ := counts 0 live
  refine ⟨h, reached, calm, load ▸ one, roles ▸ two, ?_⟩
  intro reply released done
  exact (destroyed 0 reply released done 3 alive).1 sends

end Device
end Hca
end Mcdma
