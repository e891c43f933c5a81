import Mcdma.Hca.State
import Mcdma.Lib.Machine

/-!
# The accounts of the device

The list and the index name the live queue pairs, and the two counts of a
completion queue are sums over them: of the roles they have on it, and of the
requests that will complete there.  An operation either keeps this or
quarantines the transport.
-/

namespace Mcdma

/-- Changing a function at one entry of a list without repetitions. -/
theorem sum_map_update {entries : List Nat} (nodup : entries.Nodup) {q : Nat}
    (mem : q ∈ entries) (count : Nat → Nat) (value : Nat) :
    (entries.map (Function.update count q value)).sum + count q =
      (entries.map count).sum + value := by
  induction entries with
  | nil => cases mem
  | cons head tail inductionHypothesis =>
      obtain ⟨fresh, rest⟩ := List.nodup_cons.mp nodup
      simp only [List.map_cons, List.sum_cons]
      rcases List.mem_cons.mp mem with rfl | later
      · have kept : tail.map (Function.update count q value) =
            tail.map count := by
          refine List.map_congr_left fun other here => ?_
          exact Function.update_of_ne (ne_of_mem_of_not_mem here fresh) _ _
        rw [kept, Function.update_self]
        omega
      · have differs : head ≠ q := (ne_of_mem_of_not_mem later fresh).symm
        have onward := inductionHypothesis rest later
        rw [Function.update_of_ne differs]
        omega

/-- Changing a function outside a list. -/
theorem map_update_notMem {entries : List Nat} {q : Nat}
    (absent : q ∉ entries) (count : Nat → Nat) (value : Nat) :
    entries.map (Function.update count q value) = entries.map count := by
  refine List.map_congr_left fun other here => ?_
  exact Function.update_of_ne (ne_of_mem_of_not_mem here absent) _ _

namespace Hca

namespace HardwareQp

theorem load_eq_zero {qp : HardwareQp}
    (idle : qp.sends.pending = 0 ∧ qp.receives.pending = 0) (c : Nat) :
    qp.load c = 0 := by
  simp [load, idle.1, idle.2]

/-- The requests of a queue pair after one of a side was taken. -/
theorem load_withQueue (qp : HardwareQp) (send : Bool)
    {rest : WorkQueue} (less : rest.pending + 1 = (qp.queueOf send).pending)
    (other : Nat) :
    (qp.withQueue send rest).load other +
      (if qp.cqOf send = other then 1 else 0) = qp.load other := by
  cases send with
  | true =>
      simp only [queueOf, if_true] at less
      simp only [withQueue, load, cqOf,
        if_true]
      split <;> omega
  | false =>
      simp only [queueOf, Bool.false_eq_true, if_false] at less
      simp only [withQueue, load, cqOf,
        Bool.false_eq_true, if_false]
      split <;> split <;> omega

end HardwareQp

namespace Device

/-- Whether a queue pair lives. -/
def Live (h : Device) (q : Nat) : Prop := (h.qps q).object.live = true

/-- The requests of listed queue pairs that complete on a completion queue. -/
def load (h : Device) (c : Nat) : Nat :=
  (h.list.map fun q => (h.qps q).load c).sum

/-- The roles of listed queue pairs on a completion queue. -/
def roles (h : Device) (c : Nat) : Nat :=
  (h.list.map fun q => (h.qps q).roles c).sum

/-- The list and the index name exactly the live queue pairs, which are on live
completion queues; only a live queue pair the kernel posts for has requests. -/
structure Listing (h : Device) : Prop where
  nodup : h.list.Nodup
  listed : ∀ q, q ∈ h.list ↔ h.Live q
  indexed : ∀ id q, h.index.Holds id q ↔ h.Live q ∧ (h.qps q).object.id = id
  idle : ∀ q, ¬h.Live q →
    (h.qps q).sends.pending = 0 ∧ (h.qps q).receives.pending = 0
  unposted : ∀ q, (h.qps q).userPosted = true →
    (h.qps q).sends.pending = 0 ∧ (h.qps q).receives.pending = 0
  served : ∀ q, h.Live q → (h.cqs (h.qps q).sendCq).object.live = true ∧
    (h.cqs (h.qps q).recvCq).object.live = true

/-- The counts of a completion queue are the sums. -/
structure Counted (h : Device) (c : Nat) : Prop where
  outstanding : (h.cqs c).outstanding = h.load c
  references : (h.cqs c).references = h.roles c
  bounded : h.load c ≤ 31

/-- The accounts are in order. -/
structure Accounts (h : Device) : Prop where
  listing : h.Listing
  counted : ∀ c, h.Counted c

/-! ## One structure replaced -/

section Replace

variable {h h' : Device}

/-- The same list, index and queue pairs, with every completion queue some
queue pair uses still live. -/
theorem Listing.keep (listing : h.Listing) (list : h'.list = h.list)
    (index : h'.index = h.index) (qps : h'.qps = h.qps)
    (live : ∀ q, h.Live q → ∀ c, (h.qps q).sendCq = c ∨ (h.qps q).recvCq = c →
      (h.cqs c).object.live = true → (h'.cqs c).object.live = true) :
    h'.Listing := by
  have same : ∀ q, h'.Live q ↔ h.Live q := fun q => by rw [Live, Live, qps]
  refine ⟨list ▸ listing.nodup, ?_, ?_, ?_, ?_, ?_⟩
  · intro q
    rw [list, same, listing.listed]
  · intro id q
    rw [index, same, qps, listing.indexed]
  · intro q
    rw [same, qps]
    exact listing.idle q
  · intro q
    rw [qps]
    exact listing.unposted q
  · intro q
    rw [same, qps]
    intro alive
    obtain ⟨sends, receives⟩ := listing.served q alive
    exact ⟨live q alive _ (Or.inl rfl) sends,
      live q alive _ (Or.inr rfl) receives⟩

/-- A queue pair replaced by one with the same number and completion queues. -/
theorem Listing.replace (listing : h.Listing) {q : Nat} {qp : HardwareQp}
    (list : h'.list = h.list) (index : h'.index = h.index)
    (qps : h'.qps = Function.update h.qps q qp)
    (object : qp.object = (h.qps q).object)
    (send : qp.sendCq = (h.qps q).sendCq) (recv : qp.recvCq = (h.qps q).recvCq)
    (live : ∀ c, (h'.cqs c).object = (h.cqs c).object)
    (idle : qp.object.live = false ∨ qp.userPosted = true →
      qp.sends.pending = 0 ∧ qp.receives.pending = 0) :
    h'.Listing := by
  have objects : ∀ other, (h'.qps other).object = (h.qps other).object := by
    intro other
    rw [qps]
    by_cases one : other = q
    · rw [one, Function.update_self, object]
    · rw [Function.update_of_ne one]
  have same : ∀ other, h'.Live other ↔ h.Live other := fun other => by
    rw [Live, Live, objects]
  refine ⟨list ▸ listing.nodup, ?_, ?_, ?_, ?_, ?_⟩
  · intro other
    rw [list, same, listing.listed]
  · intro id other
    rw [index, same, objects, listing.indexed]
  · intro other dead
    rw [same] at dead
    rw [qps]
    by_cases one : other = q
    · rw [one, Function.update_self]
      refine idle (Or.inl ?_)
      rw [object, ← one]
      exact Bool.eq_false_iff.mpr dead
    · rw [Function.update_of_ne one]
      exact listing.idle other dead
  · intro other
    rw [qps]
    by_cases one : other = q
    · rw [one, Function.update_self]
      exact fun user => idle (Or.inr user)
    · rw [Function.update_of_ne one]
      exact listing.unposted other
  · intro other alive
    rw [live, live, qps]
    have sides := listing.served other ((same other).mp alive)
    by_cases one : other = q
    · rw [one, Function.update_self, send, recv, ← one]
      exact sides
    · rw [Function.update_of_ne one]
      exact sides

/-- The sums after a queue pair is replaced. -/
theorem Listing.load_replace (listing : h.Listing) {q : Nat} {qp : HardwareQp}
    (list : h'.list = h.list) (qps : h'.qps = Function.update h.qps q qp)
    (idle : ¬h.Live q → qp.sends.pending = 0 ∧ qp.receives.pending = 0)
    (c : Nat) :
    h'.load c + (h.qps q).load c = h.load c + qp.load c := by
  have moved : (fun other => (h'.qps other).load c) =
      Function.update (fun other => (h.qps other).load c) q (qp.load c) := by
    funext other
    rw [qps]
    by_cases one : other = q
    · rw [one, Function.update_self, Function.update_self]
    · rw [Function.update_of_ne one, Function.update_of_ne one]
  rw [load, list, moved]
  by_cases alive : h.Live q
  · exact sum_map_update listing.nodup ((listing.listed q).mpr alive) _ _
  · rw [map_update_notMem (fun mem => alive ((listing.listed q).mp mem)),
      HardwareQp.load_eq_zero (idle alive),
      HardwareQp.load_eq_zero (listing.idle q alive)]
    rfl

theorem roles_replace {q : Nat} {qp : HardwareQp}
    (list : h'.list = h.list) (qps : h'.qps = Function.update h.qps q qp)
    (send : qp.sendCq = (h.qps q).sendCq) (recv : qp.recvCq = (h.qps q).recvCq)
    (c : Nat) : h'.roles c = h.roles c := by
  have same : (fun other => (h'.qps other).roles c) =
      fun other => (h.qps other).roles c := by
    funext other
    rw [qps]
    by_cases one : other = q
    · rw [one, Function.update_self, HardwareQp.roles, HardwareQp.roles, send,
        recv]
    · rw [Function.update_of_ne one]
  rw [roles, roles, list, same]

/-- A queue pair and the counts of the completion queues move together. -/
theorem Accounts.move (accounts : h.Accounts) {q : Nat} {qp : HardwareQp}
    (list : h'.list = h.list) (index : h'.index = h.index)
    (qps : h'.qps = Function.update h.qps q qp)
    (object : qp.object = (h.qps q).object)
    (send : qp.sendCq = (h.qps q).sendCq) (recv : qp.recvCq = (h.qps q).recvCq)
    (live : ∀ c, (h'.cqs c).object = (h.cqs c).object)
    (idle : qp.object.live = false ∨ qp.userPosted = true →
      qp.sends.pending = 0 ∧ qp.receives.pending = 0)
    (references : ∀ c, (h'.cqs c).references = (h.cqs c).references)
    (outstanding : ∀ c, (h'.cqs c).outstanding + (h.qps q).load c =
      (h.cqs c).outstanding + qp.load c)
    (bounded : ∀ c, (h'.cqs c).outstanding ≤ 31) :
    h'.Accounts := by
  refine ⟨accounts.listing.replace list index qps object send recv live idle,
    fun c => ?_⟩
  have sums := accounts.listing.load_replace list qps (fun dead => idle
    (Or.inl (by rw [object]; exact Bool.eq_false_iff.mpr dead))) c
  have before := (accounts.counted c).outstanding
  have after := outstanding c
  have equal : (h'.cqs c).outstanding = h'.load c := by omega
  refine ⟨equal, ?_, equal ▸ bounded c⟩
  rw [references, (accounts.counted c).references,
    roles_replace list qps send recv]

/-- A completion queue without references is in no live queue pair's use. -/
theorem Accounts.unreferenced (accounts : h.Accounts) {c q : Nat}
    (unused : (h.cqs c).references = 0) (alive : h.Live q) :
    (h.qps q).sendCq ≠ c ∧ (h.qps q).recvCq ≠ c := by
  rw [(accounts.counted c).references] at unused
  have zeros := List.sum_eq_zero_iff_forall_eq_nat.mp unused _
    (List.mem_map_of_mem ((accounts.listing.listed q).mpr alive))
  simp only [HardwareQp.roles, Nat.add_eq_zero_iff, ite_eq_right_iff] at zeros
  exact ⟨fun same => absurd (zeros.1 same) (by omega),
    fun same => absurd (zeros.2 same) (by omega)⟩

/-- A queue pair that is not live becomes live. -/
theorem Accounts.add (accounts : h.Accounts) {q : Nat} {qp : HardwareQp}
    (dead : ¬h.Live q) (list : h'.list = q :: h.list)
    (qps : h'.qps = Function.update h.qps q qp)
    (index : h.index.insert qp.object.id q = some h'.index)
    (alive : qp.object.live = true)
    (idle : qp.sends.pending = 0 ∧ qp.receives.pending = 0)
    (served : (h.cqs qp.sendCq).object.live = true ∧
      (h.cqs qp.recvCq).object.live = true)
    (live : ∀ c, (h'.cqs c).object = (h.cqs c).object)
    (references : ∀ c, (h'.cqs c).references =
      (h.cqs c).references + qp.roles c)
    (outstanding : ∀ c, (h'.cqs c).outstanding = (h.cqs c).outstanding) :
    h'.Accounts := by
  have listing := accounts.listing
  have absent : q ∉ h.list := fun mem => dead ((listing.listed q).mp mem)
  have self : h'.qps q = qp := by rw [qps, Function.update_self]
  have others : ∀ other, other ≠ q → h'.qps other = h.qps other :=
    fun other differs => by rw [qps, Function.update_of_ne differs]
  have kept : ∀ count : HardwareQp → Nat,
      (h.list.map fun other => count (h'.qps other)) =
        h.list.map fun other => count (h.qps other) := fun count =>
    List.map_congr_left fun other here => by
      rw [others other (ne_of_mem_of_not_mem here absent)]
  refine ⟨⟨?_, ?_, ?_, ?_, ?_, ?_⟩, fun c => ?_⟩
  · rw [list]
    exact List.nodup_cons.mpr ⟨absent, listing.nodup⟩
  · intro other
    rw [list, List.mem_cons, listing.listed, Live, Live]
    by_cases one : other = q
    · rw [one, self]
      exact iff_of_true (Or.inl rfl) alive
    · rw [others other one]
      exact or_iff_right one
  · intro id other
    rw [h.index.holds_insert index, listing.indexed, Live, Live]
    by_cases one : other = q
    · rw [one, self]
      constructor
      · rintro (⟨lives, -⟩ | ⟨rfl, -⟩)
        · exact absurd lives dead
        · exact ⟨alive, rfl⟩
      · rintro ⟨-, rfl⟩
        exact Or.inr ⟨rfl, rfl⟩
    · rw [others other one]
      exact or_iff_left fun both => one both.2
  · intro other gone
    by_cases one : other = q
    · rw [one, self]
      exact idle
    · rw [Live, others other one] at gone
      rw [others other one]
      exact listing.idle other gone
  · intro other
    by_cases one : other = q
    · rw [one, self]
      exact fun _ => idle
    · rw [others other one]
      exact listing.unposted other
  · intro other lives
    rw [live, live]
    by_cases one : other = q
    · rw [one, self]
      exact served
    · rw [Live, others other one] at lives
      rw [others other one]
      exact listing.served other lives
  · have load : h'.load c = h.load c := by
      rw [Device.load, list, List.map_cons, List.sum_cons, self,
        kept fun qp => qp.load c, HardwareQp.load_eq_zero idle, Nat.zero_add]
      rfl
    have roles : h'.roles c = h.roles c + qp.roles c := by
      rw [Device.roles, list, List.map_cons, List.sum_cons, self,
        kept fun qp => qp.roles c, Nat.add_comm]
      rfl
    refine ⟨?_, ?_, ?_⟩
    · rw [outstanding, load, (accounts.counted c).outstanding]
    · rw [references, roles, (accounts.counted c).references]
    · rw [load]
      exact (accounts.counted c).bounded

/-- A live queue pair without requests is no longer live. -/
theorem Listing.remove (listing : h.Listing) {q : Nat} {qp : HardwareQp}
    (lives : h.Live q) (list : h'.list = h.list.erase q)
    (index : h.index.erase (h.qps q).object.id q = some h'.index)
    (qps : h'.qps = Function.update h.qps q qp)
    (dead : qp.object.live = false)
    (idle : qp.sends.pending = 0 ∧ qp.receives.pending = 0)
    (live : ∀ c, (h'.cqs c).object = (h.cqs c).object) :
    h'.Listing := by
  have self : h'.qps q = qp := by rw [qps, Function.update_self]
  have others : ∀ other, other ≠ q → h'.qps other = h.qps other :=
    fun other differs => by rw [qps, Function.update_of_ne differs]
  refine ⟨?_, ?_, ?_, ?_, ?_, ?_⟩
  · rw [list]
    exact listing.nodup.erase q
  · intro other
    rw [list, listing.nodup.mem_erase_iff, listing.listed, Live, Live]
    by_cases one : other = q
    · rw [one, self, dead]
      exact iff_of_false (fun both => both.1 rfl) (by simp)
    · rw [others other one]
      exact and_iff_right one
  · intro id other
    obtain ⟨rest, erased, holds⟩ := h.index.erase_eq
      ((listing.indexed _ q).mpr ⟨lives, rfl⟩)
    have same := Option.some.inj (erased.symm.trans index)
    subst same
    rw [holds, listing.indexed, Live, Live]
    by_cases one : other = q
    · rw [one, self, dead]
      refine iff_of_false ?_ (by simp)
      rintro ⟨⟨-, number⟩, differs⟩
      exact differs number.symm
    · rw [others other one]
      constructor
      · exact fun both => both.1
      · rintro ⟨alive, rfl⟩
        refine ⟨⟨alive, rfl⟩, fun same => ?_⟩
        -- two queue pairs of one number would both be in the index
        have mine := (listing.indexed _ q).mpr ⟨lives, rfl⟩
        have theirs := (listing.indexed _ other).mpr ⟨alive, same⟩
        have first := h.index.find_eq_some_iff.mpr mine
        have second := h.index.find_eq_some_iff.mpr theirs
        exact one (Option.some.inj (second.symm.trans first))
  · intro other gone
    by_cases one : other = q
    · rw [one, self]
      exact idle
    · rw [Live, others other one] at gone
      rw [others other one]
      exact listing.idle other gone
  · intro other
    by_cases one : other = q
    · rw [one, self]
      exact fun _ => idle
    · rw [others other one]
      exact listing.unposted other
  · intro other alive
    rw [live, live]
    by_cases one : other = q
    · rw [Live, one, self, dead] at alive
      cases alive
    · rw [Live, others other one] at alive
      rw [others other one]
      exact listing.served other alive

/-- Only what no account looks at is changed. -/
theorem Accounts.keep (accounts : h.Accounts) (list : h'.list = h.list)
    (index : h'.index = h.index) (qps : h'.qps = h.qps)
    (live : ∀ c, (h.cqs c).references ≠ 0 →
      (h.cqs c).object.live = true → (h'.cqs c).object.live = true)
    (references : ∀ c, (h'.cqs c).references = (h.cqs c).references)
    (outstanding : ∀ c, (h'.cqs c).outstanding = (h.cqs c).outstanding) :
    h'.Accounts := by
  constructor
  · refine accounts.listing.keep list index qps fun q alive c role => ?_
    refine live c fun unused => ?_
    obtain ⟨send, recv⟩ := accounts.unreferenced unused alive
    rcases role with sends | receives
    · exact send sends
    · exact recv receives
  · intro c
    have load : h'.load c = h.load c := by rw [Device.load, list, qps]; rfl
    have roles : h'.roles c = h.roles c := by rw [Device.roles, list, qps]; rfl
    refine ⟨?_, ?_, ?_⟩
    · rw [outstanding, load, (accounts.counted c).outstanding]
    · rw [references, roles, (accounts.counted c).references]
    · rw [load]
      exact (accounts.counted c).bounded

/-! ## Counting again -/

theorem load_rebuild (h : Device) (c other : Nat) :
    (h.rebuild c).load other = h.load other := rfl

theorem roles_rebuild (h : Device) (c other : Nat) :
    (h.rebuild c).roles other = h.roles other := rfl

theorem object_rebuild (h : Device) (c other : Nat) :
    ((h.rebuild c).cqs other).object = (h.cqs other).object := by
  simp only [rebuild, cqs_setCq]
  by_cases one : other = c
  · rw [one, Function.update_self]
  · rw [Function.update_of_ne one]

theorem Listing.rebuild (listing : h.Listing) (c : Nat) :
    (h.rebuild c).Listing := by
  refine listing.keep rfl rfl rfl fun q _ other _ live => ?_
  rw [object_rebuild]
  exact live

/-- The completion queue that is counted again has the right counts. -/
theorem Listing.counted_rebuild (listing : h.Listing) {c : Nat}
    (bounded : h.load c ≤ 31) : (h.rebuild c).Counted c := by
  have alive : h.list.filter (fun q => (h.qps q).object.live) = h.list :=
    List.filter_eq_self.mpr fun q mem => (listing.listed q).mp mem
  refine ⟨?_, ?_, bounded⟩
  · simp only [Device.rebuild, cqs_setCq, Function.update_self, alive]
    rfl
  · simp only [Device.rebuild, cqs_setCq, Function.update_self, alive]
    rfl

theorem Counted.rebuild {other : Nat} (counted : h.Counted other) {c : Nat}
    (differs : other ≠ c) : (h.rebuild c).Counted other := by
  refine ⟨?_, ?_, counted.bounded⟩
  · rw [load_rebuild, ← counted.outstanding]
    simp only [Device.rebuild, cqs_setCq, Function.update_of_ne differs]
  · rw [roles_rebuild, ← counted.references]
    simp only [Device.rebuild, cqs_setCq, Function.update_of_ne differs]

/-- Counting two completion queues again puts the accounts in order when those
of the others are. -/
theorem Listing.accounts_rebuild (listing : h.Listing) {send recv : Nat}
    (bounded : ∀ c, h.load c ≤ 31)
    (others : ∀ c, c ≠ send → c ≠ recv → h.Counted c) :
    (h.rebuildBoth send recv).Accounts := by
  have sends := listing.counted_rebuild (bounded send)
  unfold rebuildBoth
  split
  · next same =>
      refine ⟨listing.rebuild send, fun c => ?_⟩
      by_cases one : c = send
      · exact one ▸ sends
      · exact (others c one (same ▸ one)).rebuild one
  · next differ =>
      have again := listing.rebuild send
      refine ⟨again.rebuild recv, fun c => ?_⟩
      by_cases two : c = recv
      · rw [two]
        exact again.counted_rebuild (bounded recv)
      · refine Counted.rebuild ?_ two
        by_cases one : c = send
        · exact one ▸ sends
        · exact (others c one two).rebuild one

end Replace

end Device

end Hca
end Mcdma
