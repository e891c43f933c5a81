import Mathlib.Algebra.Order.Group.Nat
import Mathlib.Data.List.Basic
import Mathlib.Data.Nat.ModEq
import Mcdma.Lib.Checked

/-!
# Page size and page list of a memory key

`segments_valid`, `choose_log_page` and `page_list` of `core/cx5_verbs.cpp`.  A
pinned range is a list of segments that abut in process space, each with its
device address.  The planner picks the largest page size with which all of them
can be described, and the list gives the device address of every such page.

A page that begins before the first segment, or ends past the last, still maps
each byte of the range as its segment does: no segment but the first begins
inside a page, and process and device addresses agree within one.
-/

namespace Mcdma
namespace Verbs

/-- `UINT64_MAX`. -/
def wordMax : Nat := 2 ^ 64 - 1

/-- `Segment`: process address, device address and length. -/
structure Segment where
  va : Nat
  iova : Nat
  length : Nat
  deriving DecidableEq

/-! ## The functions of the source -/

/-- The loop of `segments_valid` from an expected address on. -/
def segmentsFrom (stop : Nat) : Nat → List Segment → Bool
  | expect, [] => decide (expect ≥ stop)
  | expect, s :: rest =>
      if s.va ≠ expect ∨ s.length = 0 ∨ s.length &&& 4095 ≠ 0 ∨
          s.iova = 0 ∨ s.iova &&& 4095 ≠ 0 ∨ s.va > wordMax - s.length ∨
          s.iova > wordMax - s.length then false
      else segmentsFrom stop (s.va + s.length) rest

/-- `segments_valid`. -/
def segmentsValid (s : List Segment) (start length : Nat) : Bool :=
  if s = [] ∨ length = 0 ∨ start > wordMax - length then false
  else segmentsFrom (start + length) (start - (start &&& 4095)) s

/-- All segments agree with their device address within a page, and all but
the first begin one. -/
def segmentsFit (mask : Nat) : List Segment → Bool
  | [] => true
  | s :: rest =>
      decide (s.va &&& mask = s.iova &&& mask) &&
        rest.all fun t =>
          decide (t.va &&& mask = t.iova &&& mask ∧ t.va &&& mask = 0)

/-- The loop of `choose_log_page` over the page sizes from one on. -/
def chooseFrom (s : List Segment) (start length aliasAddress capacity : Nat) :
    Nat → Nat → Nat → Nat
  | 0, _, best => best
  | left + 1, log, best =>
      let mask := 2 ^ log - 1
      if (start ^^^ aliasAddress) &&& mask ≠ 0 then best
      else if !segmentsFit mask s then best
      else if length > wordMax - (start &&& mask) - mask then best
      else
        chooseFrom s start length aliasAddress capacity left (log + 1)
          (if ((start &&& mask) + length + mask) >>> log ≤ capacity then log
          else best)

/-- `choose_log_page`. -/
def chooseLogPage (s : List Segment) (start length aliasAddress capacity : Nat) :
    Nat :=
  if !segmentsValid s start length ∨ (start ^^^ aliasAddress) &&& 4095 ≠ 0 then 0
  else chooseFrom s start length aliasAddress capacity 19 12 0

/-- The inner loop of `page_list`: on to the segment that ends behind an
address, or the last.  The segments are those from number `k` on. -/
def advance (va : Nat) : Nat → List Segment → Nat × List Segment
  | k, s :: next :: rest =>
      if va ≥ s.va + s.length then advance va (k + 1) (next :: rest)
      else (k, s :: next :: rest)
  | k, segments => (k, segments)

/-- The device address of the page at an address, from segment `k`. -/
def pageOf (page mask va k : Nat) (s : Segment) : Option Nat :=
  if va < s.va then
    -- Only the first page may begin before the first segment.
    if k ≠ 0 ∨ s.va - va ≥ page ∨ s.va &&& mask ≠ s.iova &&& mask then none
    else some (s.iova - (s.va - va))
  else if va - s.va ≥ s.length ∨ (s.va ^^^ s.iova) &&& mask ≠ 0 ∨
      (k ≠ 0 ∧ s.va &&& mask ≠ 0) then none
  else some (s.iova + (va - s.va))

/-- The loop of `page_list` over the pages from number `i` on. -/
def pageLoop (page mask base : Nat) :
    Nat → Nat → Nat × List Segment → Option (List Nat)
  | 0, _, _ => some []
  | left + 1, i, (k, segments) => do
      let va := base + i * page
      let (k, segments) := advance va k segments
      let s ← segments.head?
      let address ← pageOf page mask va k s
      if address &&& mask ≠ 0 then none
      else
        let rest ← pageLoop page mask base left (i + 1) (k, segments)
        some (address :: rest)

/-- `page_list`: the pages, or none where the source returns 0. -/
def pageList (s : List Segment) (start length log capacity : Nat) :
    Option (List Nat) :=
  let page := 2 ^ log
  let mask := page - 1
  if log < 12 ∨ log > 30 ∨ !segmentsValid s start length then none
  else if length > wordMax - (start &&& mask) - mask then none
  else
    let entries := ((start &&& mask) + length + mask) >>> log
    if entries = 0 ∨ entries > capacity then none
    else pageLoop page mask (start - (start &&& mask)) entries 0 (0, s)

/-! ## Masks -/

theorem and_mask (value log : Nat) :
    value &&& (2 ^ log - 1) = value % 2 ^ log :=
  Nat.and_two_pow_sub_one_eq_mod value log

theorem and_4095 (value : Nat) : value &&& 4095 = value % 4096 :=
  and_mask value 12

theorem xor_eq_zero_iff (first second : Nat) :
    first ^^^ second = 0 ↔ first = second := by
  constructor
  · intro zero
    have back : first ^^^ second ^^^ second = 0 ^^^ second := by rw [zero]
    rwa [Nat.xor_assoc, Nat.xor_self, Nat.xor_zero, Nat.zero_xor] at back
  · rintro rfl
    exact Nat.xor_self first

/-- Two addresses agree below a power of two. -/
theorem xor_mask_eq_zero_iff (first second log : Nat) :
    (first ^^^ second) &&& (2 ^ log - 1) = 0 ↔
      first % 2 ^ log = second % 2 ^ log := by
  rw [and_mask, Nat.xor_mod_two_pow, xor_eq_zero_iff]

/-! ## Segments in a row -/

namespace Segment

/-- The segment maps an address. -/
def Holds (s : Segment) (va : Nat) : Prop :=
  s.va ≤ va ∧ va < s.va + s.length

instance (s : Segment) (va : Nat) : Decidable (s.Holds va) :=
  inferInstanceAs (Decidable (_ ∧ _))

/-- The device address it assigns. -/
def device (s : Segment) (va : Nat) : Nat := s.iova + (va - s.va)

/-- The segment maps an address below a page's end and not before it. -/
def Meets (s : Segment) (low high : Nat) : Prop :=
  ∃ va, low ≤ va ∧ va < high ∧ s.Holds va

/-- A segment that `segments_valid` takes. -/
structure Sound (s : Segment) : Prop where
  nonempty : 0 < s.length
  mapped : 0 < s.iova
  vaFits : s.va + s.length ≤ wordMax
  iovaFits : s.iova + s.length ≤ wordMax

end Segment

/-- The device address the segments assign to a process address. -/
def deviceOf (s : List Segment) (va : Nat) : Option Nat :=
  (s.find? fun t => decide (t.Holds va)).map fun t => t.device va

/-- Segments that follow each other from an address on. -/
def Abut : Nat → List Segment → Prop
  | _, [] => True
  | expect, s :: rest =>
      s.Sound ∧ s.va = expect ∧ Abut (s.va + s.length) rest

/-- Where segments from an address on end. -/
def stopOf : Nat → List Segment → Nat
  | expect, [] => expect
  | _, s :: rest => stopOf (s.va + s.length) rest

/-- A range and the segments that cover it, as `segments_valid` has them. -/
structure Laid (s : List Segment) (start length : Nat) : Prop where
  inhabited : s ≠ []
  nonempty : 0 < length
  word : start + length ≤ wordMax
  abut : Abut (start - start % 4096) s
  reaches : start + length ≤ stopOf (start - start % 4096) s

section Row

variable {s : List Segment} {expect : Nat}

theorem segmentsFrom_spec {stop : Nat}
    (valid : segmentsFrom stop expect s = true) :
    Abut expect s ∧ stop ≤ stopOf expect s := by
  induction s generalizing expect with
  | nil => exact ⟨trivial, of_decide_eq_true valid⟩
  | cons t rest inductionHypothesis =>
      rw [segmentsFrom] at valid
      split at valid
      · cases valid
      · next checks =>
          obtain ⟨abut, reaches⟩ := inductionHypothesis valid
          have sound : t.Sound := by
            refine ⟨?_, ?_, ?_, ?_⟩ <;> omega
          exact ⟨⟨sound, by omega, abut⟩, reaches⟩

theorem Abut.stop_le (abut : Abut expect s) (inhabited : s ≠ []) :
    stopOf expect s ≤ wordMax := by
  induction s generalizing expect with
  | nil => exact absurd rfl inhabited
  | cons head rest inductionHypothesis =>
      cases rest with
      | nil => exact abut.1.vaFits
      | cons next more => exact inductionHypothesis abut.2.2 (by simp)

theorem laid_of_valid {start length : Nat}
    (valid : segmentsValid s start length = true) : Laid s start length := by
  rw [segmentsValid] at valid
  split at valid
  · cases valid
  · next checks =>
      rw [and_4095] at valid
      obtain ⟨abut, reaches⟩ := segmentsFrom_spec valid
      have inhabited : s ≠ [] := fun absent => checks (Or.inl absent)
      exact ⟨inhabited, by omega, reaches.trans (abut.stop_le inhabited), abut,
        reaches⟩

theorem Abut.sound (abut : Abut expect s) {t : Segment} (member : t ∈ s) :
    t.Sound := by
  induction s generalizing expect with
  | nil => simp at member
  | cons head rest inductionHypothesis =>
      rcases List.mem_cons.mp member with rfl | later
      · exact abut.1
      · exact inductionHypothesis abut.2.2 later

theorem Abut.le_va (abut : Abut expect s) {t : Segment} (member : t ∈ s) :
    expect ≤ t.va := by
  induction s generalizing expect with
  | nil => simp at member
  | cons head rest inductionHypothesis =>
      obtain ⟨sound, here, after⟩ := abut
      rcases List.mem_cons.mp member with rfl | later
      · omega
      · have next := inductionHypothesis after later
        omega

/-- Behind a segment comes the next one, or the end. -/
theorem Abut.next (abut : Abut expect s) {t : Segment} (member : t ∈ s) :
    t.va + t.length = stopOf expect s ∨
      ∃ u ∈ s.tail, u.va = t.va + t.length := by
  induction s generalizing expect with
  | nil => simp at member
  | cons head rest inductionHypothesis =>
      obtain ⟨sound, here, after⟩ := abut
      rcases List.mem_cons.mp member with rfl | later
      · cases rest with
        | nil => exact Or.inl rfl
        | cons u more => exact Or.inr ⟨u, by simp, after.2.1⟩
      · rcases inductionHypothesis after later with last | ⟨u, follows, meets⟩
        · exact Or.inl last
        · exact Or.inr ⟨u, List.mem_of_mem_tail follows, meets⟩

/-- The segments assign what the one that holds the address does. -/
theorem deviceOf_eq (abut : Abut expect s) {t : Segment} (member : t ∈ s)
    {va : Nat} (holds : t.Holds va) : deviceOf s va = some (t.device va) := by
  induction s generalizing expect with
  | nil => simp at member
  | cons head rest inductionHypothesis =>
      obtain ⟨sound, here, after⟩ := abut
      rw [deviceOf]
      rcases List.mem_cons.mp member with rfl | later
      · rw [List.find?_cons_of_pos (by simpa using holds)]
        rfl
      · have behind := after.le_va later
        have passed : ¬head.Holds va := fun inside => by
          have low := holds.1
          have high := inside.2
          omega
        rw [List.find?_cons_of_neg (by simpa using passed)]
        exact inductionHypothesis after later

/-- Two segments that differ follow each other, and the later one is not the
first. -/
theorem Abut.order (abut : Abut expect s) {t u : Segment} (left : t ∈ s)
    (right : u ∈ s) (other : t ≠ u) :
    (u ∈ s.tail ∧ t.va + t.length ≤ u.va) ∨
      (t ∈ s.tail ∧ u.va + u.length ≤ t.va) := by
  induction s generalizing expect with
  | nil => simp at left
  | cons head rest inductionHypothesis =>
      obtain ⟨sound, here, after⟩ := abut
      rcases List.mem_cons.mp left with rfl | leftLater
      · rcases List.mem_cons.mp right with rfl | rightLater
        · exact absurd rfl other
        · exact Or.inl ⟨rightLater, after.le_va rightLater⟩
      · rcases List.mem_cons.mp right with rfl | rightLater
        · exact Or.inr ⟨leftLater, after.le_va leftLater⟩
        · rcases inductionHypothesis after leftLater rightLater with
            ⟨_, le⟩ | ⟨_, le⟩
          · exact Or.inl ⟨rightLater, le⟩
          · exact Or.inr ⟨leftLater, le⟩

end Row

/-! ## Finding a page's segment -/

section Advance

variable {s : List Segment} {expect va : Nat}

/-- The inner loop stops at a segment that ends behind the address: the first,
or one that begins before it. -/
theorem advance_spec (abut : Abut expect s) (inhabited : s ≠ [])
    (below : va < stopOf expect s) (k : Nat) :
    ∃ t rest j, advance va k s = (j, t :: rest) ∧ t ∈ s ∧
      va < t.va + t.length ∧
      (j = k ∧ s.head? = some t ∨ k < j ∧ t ∈ s.tail ∧ t.va ≤ va) := by
  induction s generalizing expect k with
  | nil => exact absurd rfl inhabited
  | cons head rest inductionHypothesis =>
      obtain ⟨sound, here, after⟩ := abut
      cases rest with
      | nil => exact ⟨head, [], k, rfl, by simp, below, Or.inl ⟨rfl, rfl⟩⟩
      | cons next more =>
          rw [advance]
          split
          · next passed =>
              obtain ⟨t, left, j, same, member, inside, place⟩ :=
                inductionHypothesis after (by simp) below (k + 1)
              refine ⟨t, left, j, same, List.mem_cons_of_mem _ member,
                inside, Or.inr ?_⟩
              rcases place with ⟨rfl, first⟩ | ⟨later, inTail, low⟩
              · obtain rfl : next = t := Option.some.inj first
                have nextVa := after.2.1
                exact ⟨by omega, by simp, by omega⟩
              · exact ⟨by omega, List.mem_cons_of_mem _ inTail, low⟩
          · next inside =>
              exact ⟨head, next :: more, k, rfl, by simp, by omega,
                Or.inl ⟨rfl, rfl⟩⟩

/-- Going on from where an earlier address stopped is starting anew. -/
theorem advance_advance {later : Nat} (le : va ≤ later) (k : Nat)
    (s : List Segment) :
    advance later (advance va k s).1 (advance va k s).2 =
      advance later k s := by
  induction s generalizing k with
  | nil => rfl
  | cons head rest inductionHypothesis =>
      cases rest with
      | nil => rfl
      | cons next more =>
          by_cases passed : va ≥ head.va + head.length
          · have both : later ≥ head.va + head.length := by omega
            rw [advance, if_pos passed, inductionHypothesis (k + 1)]
            conv_rhs => rw [advance, if_pos both]
          · rw [advance, if_neg passed]

end Advance

/-! ## One page -/

/-- Process and device addresses agree within a page, and every segment but the
first begins one. -/
structure Aligned (page : Nat) (s : List Segment) : Prop where
  agree : ∀ t ∈ s, t.va % page = t.iova % page
  starts : ∀ t ∈ s.tail, t.va % page = 0

theorem segmentsFit_iff (log : Nat) (s : List Segment) :
    segmentsFit (2 ^ log - 1) s = true ↔ Aligned (2 ^ log) s := by
  cases s with
  | nil => exact ⟨fun _ => ⟨by simp, by simp⟩, fun _ => rfl⟩
  | cons head rest =>
      simp only [segmentsFit, and_mask, Bool.and_eq_true, decide_eq_true_eq,
        List.all_eq_true]
      constructor
      · rintro ⟨first, others⟩
        refine ⟨?_, fun t member => (others t member).2⟩
        intro t member
        rcases List.mem_cons.mp member with rfl | later
        · exact first
        · exact (others t later).1
      · intro aligned
        exact ⟨aligned.agree head (by simp), fun t member =>
          ⟨aligned.agree t (List.mem_cons_of_mem _ member),
            aligned.starts t member⟩⟩

/-- The page at an address, found from the first segment on. -/
def pageAt (page mask : Nat) (s : List Segment) (va : Nat) : Option Nat := do
  let (k, segments) := advance va 0 s
  let t ← segments.head?
  let address ← pageOf page mask va k t
  if address &&& mask ≠ 0 then none else some address

section Page

variable {s : List Segment} {expect va page : Nat}

/-- No segment begins inside a page, so what begins in one ends behind it. -/
theorem inside_page (abut : Abut expect s)
    (starts : ∀ t ∈ s.tail, t.va % page = 0) {t : Segment} (member : t ∈ s)
    (atPage : va % page = 0) (inside : va < t.va + t.length) {off : Nat}
    (within : off < page) (below : va + off < stopOf expect s) :
    va + off < t.va + t.length := by
  rcases abut.next member with last | ⟨u, later, meets⟩
  · omega
  · have aligned := Nat.dvd_of_mod_eq_zero (starts u later)
    have begins := Nat.dvd_of_mod_eq_zero atPage
    have gap : page ≤ t.va + t.length - va := by
      rw [← meets] at inside ⊢
      exact Nat.le_of_dvd (by omega) (Nat.dvd_sub aligned begins)
    omega

/-- The page of the first segment begins before it. -/
theorem sub_eq_mod {first : Nat} (atPage : va % page = 0)
    (before : va ≤ first) (near : first < va + page) :
    first - va = first % page := by
  obtain ⟨count, rfl⟩ := Nat.dvd_of_mod_eq_zero atPage
  obtain ⟨off, rfl⟩ : ∃ off, first = page * count + off :=
    ⟨first - page * count, by omega⟩
  rw [Nat.mul_add_mod, Nat.mod_eq_of_lt (by omega)]
  omega

/-- A page in the middle of a segment. -/
theorem device_mod {t : Segment} (agree : t.va % page = t.iova % page)
    (atPage : va % page = 0) (after : t.va ≤ va) :
    t.device va % page = 0 := by
  have same : t.iova + (va - t.va) ≡ t.va + (va - t.va) [MOD page] :=
    Nat.ModEq.add_right _ agree.symm
  rw [Nat.add_sub_cancel' after] at same
  rw [Segment.device, same, atPage]

end Page

section PageAt

variable {s : List Segment} {start length log va : Nat}

/-- The device address of a page of the range: aligned, as its segment has it
for every byte of the range, and not zero if the first segment's is as large as
a page. -/
theorem pageAt_spec (laid : Laid s start length)
    (aligned : Aligned (2 ^ log) s) (atPage : va % 2 ^ log = 0)
    (low : start < va + 2 ^ log) (high : va < start + length) :
    ∃ t ∈ s, ∃ address,
      pageAt (2 ^ log) (2 ^ log - 1) s va = some address ∧
      (∀ off < 2 ^ log, start ≤ va + off → va + off < start + length →
        t.Holds (va + off) ∧ address + off = t.device (va + off)) ∧
      (address = 0 ↔ va ≤ start - start % 4096 ∧
        ∃ first, s.head? = some first ∧ first.iova < 2 ^ log) := by
  have positive : 0 < 2 ^ log := Nat.two_pow_pos log
  obtain ⟨t, rest, k, found, member, inside, place⟩ :=
    advance_spec laid.abut laid.inhabited (high.trans_le laid.reaches) 0
  have reaches : ∀ off < 2 ^ log, va + off < start + length →
      va + off < t.va + t.length := fun off within below =>
    inside_page laid.abut aligned.starts member atPage inside within
      (below.trans_le laid.reaches)
  have agree := aligned.agree t member
  have sound := laid.abut.sound member
  have firstVa : ∀ first, s.head? = some first →
      first.va = start - start % 4096 := by
    intro first isHead
    obtain ⟨more, rfl⟩ : ∃ more, s = first :: more := by
      cases s with
      | nil => simp at isHead
      | cons head more =>
          exact ⟨more, by rw [Option.some.inj isHead]⟩
    exact laid.abut.2.1
  refine ⟨t, member, ?_⟩
  rcases Nat.lt_or_ge va t.va with before | after
  · -- the first page begins before the first segment
    have isFirst : k = 0 ∧ s.head? = some t := by
      rcases place with first | ⟨_, _, le⟩
      · exact first
      · omega
    have tVa := firstVa t isFirst.2
    have near : t.va < va + 2 ^ log := by omega
    have gap := sub_eq_mod atPage before.le near
    have borrow : t.va - va ≤ t.iova := by
      rw [gap, agree]
      exact Nat.mod_le _ _
    have small : t.iova % 2 ^ log < 2 ^ log := Nat.mod_lt _ positive
    have pageEq : pageOf (2 ^ log) (2 ^ log - 1) va k t =
        some (t.iova - (t.va - va)) := by
      rw [pageOf, if_pos before, if_neg]
      rw [and_mask, and_mask]
      simp only [isFirst.1, agree, ne_eq, not_true_eq_false, false_or,
        or_false, ge_iff_le, not_le]
      rw [gap, agree]
      exact small
    have low0 : (t.iova - (t.va - va)) % 2 ^ log = 0 := by
      rw [gap, agree]
      exact Nat.sub_mod_eq_zero_of_mod_eq (Nat.mod_mod _ _).symm
    refine ⟨t.iova - (t.va - va), ?_, ?_, ?_⟩
    · simp only [pageAt, found, List.head?_cons, Option.bind_eq_bind,
        Option.bind_some, pageEq, and_mask, low0]
      simp
    · intro off within least below
      have upto := reaches off within below
      refine ⟨⟨by omega, upto⟩, ?_⟩
      rw [Segment.device]
      omega
    · constructor
      · intro zero
        refine ⟨by omega, t, isFirst.2, ?_⟩
        omega
      · rintro ⟨_, first, isHead, less⟩
        obtain rfl : t = first := Option.some.inj (isFirst.2.symm.trans isHead)
        rw [gap, agree, Nat.mod_eq_of_lt less]
        omega
  · have pageEq : pageOf (2 ^ log) (2 ^ log - 1) va k t =
        some (t.device va) := by
      rw [pageOf, if_neg (by omega), if_neg]
      · rfl
      · rw [ne_eq, xor_mask_eq_zero_iff, and_mask]
        rintro (long | other | ⟨later, unaligned⟩)
        · omega
        · exact other agree
        · rcases place with ⟨first, _⟩ | ⟨_, inTail, _⟩
          · exact later first
          · exact unaligned (aligned.starts t inTail)
    refine ⟨t.device va, ?_, ?_, ?_⟩
    · simp only [pageAt, found, List.head?_cons, Option.bind_eq_bind,
        Option.bind_some, pageEq, and_mask, device_mod agree atPage after]
      simp
    · intro off within least below
      have upto := reaches off within below
      refine ⟨⟨by omega, upto⟩, ?_⟩
      rw [Segment.device, Segment.device]
      omega
    · have positiveIova := sound.mapped
      constructor
      · intro zero
        rw [Segment.device] at zero
        omega
      · rintro ⟨le, first, isHead, less⟩
        -- the first segment begins the page, so its device address does too
        have headVa := firstVa first isHead
        have headMember : first ∈ s := List.mem_of_mem_head? isHead
        have order := laid.abut.le_va member
        obtain rfl : first.va = va := by omega
        have rounded := aligned.agree first headMember
        have mapped := (laid.abut.sound headMember).mapped
        rw [atPage, Nat.mod_eq_of_lt less] at rounded
        omega

end PageAt

/-! ## The page list -/

/-- The loop of `page_list` fills in, for each page, what is found for it alone
from the first segment on. -/
theorem pageLoop_spec {page mask base : Nat} {s : List Segment}
    (left i : Nat) (state : Nat × List Segment)
    (same : ∀ later, base + i * page ≤ later →
      advance later state.1 state.2 = advance later 0 s) :
    ((∀ j < left, (pageAt page mask s (base + (i + j) * page)).isSome) →
      (pageLoop page mask base left i state).isSome) ∧
    ∀ pages, pageLoop page mask base left i state = some pages →
      pages.length = left ∧ ∀ j < left,
        pages[j]? = pageAt page mask s (base + (i + j) * page) := by
  induction left generalizing i state with
  | zero =>
      refine ⟨fun _ => rfl, ?_⟩
      intro pages result
      obtain rfl : [] = pages := Option.some.inj result
      exact ⟨rfl, by simp⟩
  | succ left inductionHypothesis =>
      have here := same _ (Nat.le_refl _)
      have onward : ∀ later, base + (i + 1) * page ≤ later →
          advance later (advance (base + i * page) state.1 state.2).1
            (advance (base + i * page) state.1 state.2).2 =
          advance later 0 s := by
        intro later le
        have step : base + i * page ≤ later := by
          rw [Nat.succ_mul] at le
          omega
        rw [here, advance_advance step]
      have equation : pageLoop page mask base (left + 1) i state =
          (pageAt page mask s (base + i * page)).bind fun address =>
            (pageLoop page mask base left (i + 1)
              (advance (base + i * page) state.1 state.2)).bind fun rest =>
              some (address :: rest) := by
        rw [pageLoop, pageAt, here]
        simp only [Option.bind_eq_bind, Option.bind_assoc]
        congr 1
        funext t
        congr 1
        funext address
        split <;> rfl
      obtain ⟨runs, spec⟩ := inductionHypothesis (i + 1) _ onward
      rw [equation]
      constructor
      · intro all
        have first := all 0 (Nat.succ_pos left)
        rw [Nat.add_zero] at first
        obtain ⟨address, isAddress⟩ := Option.isSome_iff_exists.mp first
        obtain ⟨rest, isRest⟩ := Option.isSome_iff_exists.mp (runs (by
          intro j below
          rw [Nat.add_right_comm i 1 j, Nat.add_assoc i j 1]
          exact all (j + 1) (by omega)))
        rw [isAddress, Option.bind_some, isRest]
        rfl
      · intro pages result
        obtain ⟨address, isAddress, more⟩ :=
          Option.bind_eq_some_iff.mp result
        obtain ⟨rest, isRest, joined⟩ := Option.bind_eq_some_iff.mp more
        obtain rfl : address :: rest = pages := Option.some.inj joined
        obtain ⟨count, each⟩ := spec rest isRest
        refine ⟨by rw [List.length_cons, count], ?_⟩
        intro j below
        cases j with
        | zero => rw [Nat.add_zero, isAddress, List.getElem?_cons_zero]
        | succ j =>
            rw [List.getElem?_cons_succ, each j (by omega),
              Nat.add_right_comm i 1 j, Nat.add_assoc i j 1]

section List

variable {s : List Segment} {start length log capacity : Nat}

/-- The pages of a range. -/
def entries (start length log : Nat) : Nat :=
  (start % 2 ^ log + length + (2 ^ log - 1)) / 2 ^ log

/-- A range has as many pages as reach its end. -/
theorem lt_entries_iff (inhabited : 0 < length) (count : Nat) :
    count < entries start length log ↔
      count * 2 ^ log < start % 2 ^ log + length := by
  have positive : 0 < 2 ^ log := Nat.two_pow_pos log
  rw [entries, Nat.lt_div_iff_mul_lt positive]
  omega

/-- What a page list is. -/
theorem pageList_spec {pages : List Nat}
    (listed : pageList s start length log capacity = some pages) :
    12 ≤ log ∧ log ≤ 30 ∧ Laid s start length ∧
      pages.length = entries start length log ∧
      0 < pages.length ∧ pages.length ≤ capacity ∧
      ∀ j < pages.length, pages[j]? =
        pageAt (2 ^ log) (2 ^ log - 1) s
          (start - start % 2 ^ log + j * 2 ^ log) := by
  simp only [pageList] at listed
  split at listed
  · cases listed
  · next bad =>
      split at listed
      · cases listed
      · split at listed
        · cases listed
        · next room =>
            rw [and_mask, Nat.shiftRight_eq_div_pow] at room listed
            obtain ⟨count, each⟩ := (pageLoop_spec _ 0 (0, s)
              (fun _ _ => rfl)).2 pages listed
            have valid : segmentsValid s start length = true := by
              by_contra invalid
              exact bad (Or.inr (Or.inr (by simpa using invalid)))
            refine ⟨by omega, by omega, laid_of_valid valid, count, ?_, ?_, ?_⟩
            · rw [count]
              omega
            · rw [count]
              omega
            · intro j below
              rw [each j (by omega), Nat.zero_add]

end List

/-! ## The page size -/

/-- A page size with which the range can be described. -/
structure Fits (s : List Segment) (start length aliasAddress capacity log : Nat) :
    Prop where
  low : 12 ≤ log
  high : log ≤ 30
  shared : start % 2 ^ log = aliasAddress % 2 ^ log
  aligned : Aligned (2 ^ log) s
  room : length ≤ wordMax - start % 2 ^ log - (2 ^ log - 1)
  count : entries start length log ≤ capacity

section Choose

variable {s : List Segment} {start length aliasAddress capacity : Nat}

theorem mod_eq_of_le {first second small large : Nat} (le : small ≤ large)
    (same : first % 2 ^ large = second % 2 ^ large) :
    first % 2 ^ small = second % 2 ^ small := by
  have divides := pow_dvd_pow 2 le
  rw [← Nat.mod_mod_of_dvd first divides, same, Nat.mod_mod_of_dvd _ divides]

theorem Aligned.of_le {small large : Nat} (le : small ≤ large)
    (aligned : Aligned (2 ^ large) s) : Aligned (2 ^ small) s := by
  refine ⟨fun t member => mod_eq_of_le le (aligned.agree t member), ?_⟩
  intro t member
  have same : t.va % 2 ^ large = 0 % 2 ^ large := by
    rw [aligned.starts t member, Nat.zero_mod]
  rw [mod_eq_of_le le same, Nat.zero_mod]

theorem room_of_le {small large : Nat} (le : small ≤ large)
    (room : length ≤ wordMax - start % 2 ^ large - (2 ^ large - 1)) :
    length ≤ wordMax - start % 2 ^ small - (2 ^ small - 1) := by
  have divides := pow_dvd_pow 2 le
  have fewer : start % 2 ^ small ≤ start % 2 ^ large := by
    rw [← Nat.mod_mod_of_dvd start divides]
    exact Nat.mod_le _ _
  have smaller : 2 ^ small ≤ 2 ^ large := Nat.pow_le_pow_right (by decide) le
  omega

/-- The largest size below a bound that fits, or zero when none does. -/
def Best (s : List Segment) (start length aliasAddress capacity bound best : Nat) :
    Prop :=
  best = 0 ∧ (∀ log < bound, ¬Fits s start length aliasAddress capacity log) ∨
    Fits s start length aliasAddress capacity best ∧
      ∀ log < bound, Fits s start length aliasAddress capacity log → log ≤ best

theorem Best.extend {bound further best : Nat}
    (is : Best s start length aliasAddress capacity bound best)
    (absent : ∀ log, bound ≤ log → ¬Fits s start length aliasAddress capacity log) :
    Best s start length aliasAddress capacity further best := by
  refine is.imp (fun found => ⟨found.1, fun log _ => ?_⟩)
    (fun found => ⟨found.1, fun log _ fits => ?_⟩)
  · rcases Nat.lt_or_ge log bound with below | least
    · exact found.2 log below
    · exact absent log least
  · rcases Nat.lt_or_ge log bound with below | least
    · exact found.2 log below fits
    · exact absurd fits (absent log least)

/-- One more size. -/
theorem Best.next {log best : Nat}
    (is : Best s start length aliasAddress capacity log best) {count : Prop}
    [Decidable count]
    (fitsIff : Fits s start length aliasAddress capacity log ↔ count) :
    Best s start length aliasAddress capacity (log + 1)
      (if count then log else best) := by
  by_cases fits : count
  · rw [if_pos fits]
    exact Or.inr ⟨fitsIff.mpr fits, fun l below _ => by omega⟩
  · rw [if_neg fits]
    have not := fun is => fits (fitsIff.mp is)
    refine is.imp (fun found => ⟨found.1, fun l below => ?_⟩)
      (fun found => ⟨found.1, fun l below each => ?_⟩)
    · rcases Nat.lt_succ_iff_lt_or_eq.mp below with less | rfl
      · exact found.2 l less
      · exact not
    · rcases Nat.lt_succ_iff_lt_or_eq.mp below with less | rfl
      · exact found.2 l less each
      · exact absurd each not

/-- The loop keeps the largest size that fits; where it stops early, none of
the larger ones does. -/
theorem chooseFrom_spec (left log best : Nat) (last : log + left = 31)
    (low : 12 ≤ log)
    (sofar : Best s start length aliasAddress capacity log best) :
    Best s start length aliasAddress capacity 31
      (chooseFrom s start length aliasAddress capacity left log best) := by
  induction left generalizing log best with
  | zero =>
      refine sofar.extend fun l least fits => ?_
      have high := fits.high
      omega
  | succ left inductionHypothesis =>
      simp only [chooseFrom]
      split
      · next other =>
          refine sofar.extend fun l least fits => other ?_
          rw [xor_mask_eq_zero_iff]
          exact mod_eq_of_le least fits.shared
      · next shared =>
          rw [ne_eq, not_not, xor_mask_eq_zero_iff] at shared
          split
          · next unaligned =>
              refine sofar.extend fun l least fits => ?_
              have aligned := (segmentsFit_iff log s).mpr
                (fits.aligned.of_le least)
              simp [aligned] at unaligned
          · next aligned =>
              rw [Bool.not_eq_true', Bool.not_eq_false, segmentsFit_iff]
                at aligned
              rw [and_mask, Nat.shiftRight_eq_div_pow]
              split
              · next large =>
                  refine sofar.extend fun l least fits => ?_
                  have room := room_of_le least fits.room
                  omega
              · next room =>
                  refine inductionHypothesis (log + 1) _ (by omega) (by omega)
                    (sofar.next ?_)
                  constructor
                  · exact fun fits => fits.count
                  · exact fun count =>
                      ⟨low, by omega, shared, aligned, by omega, count⟩

/-- The planner returns the largest size that fits a valid range, or zero when
none does. -/
theorem chooseLogPage_spec (s : List Segment)
    (start length aliasAddress capacity : Nat) :
    chooseLogPage s start length aliasAddress capacity = 0 ∧
        (segmentsValid s start length = true →
          ∀ log, ¬Fits s start length aliasAddress capacity log) ∨
      segmentsValid s start length = true ∧
      Fits s start length aliasAddress capacity
        (chooseLogPage s start length aliasAddress capacity) ∧
      ∀ log, Fits s start length aliasAddress capacity log →
        log ≤ chooseLogPage s start length aliasAddress capacity := by
  rw [chooseLogPage]
  split
  · next bad =>
      refine Or.inl ⟨rfl, fun valid log fits => ?_⟩
      rcases bad with invalid | differs
      · simp [valid] at invalid
      · exact differs ((xor_mask_eq_zero_iff start aliasAddress 12).mpr
          (mod_eq_of_le fits.low fits.shared))
  · next good =>
      have valid : segmentsValid s start length = true := by
        by_contra invalid
        exact good (Or.inl (by simpa using invalid))
      have initial : Best s start length aliasAddress capacity 12 0 := by
        refine Or.inl ⟨rfl, fun log below fits => ?_⟩
        have low := fits.low
        omega
      rcases chooseFrom_spec 19 12 0 rfl (Nat.le_refl _) initial with
        absent | found
      · exact Or.inl ⟨absent.1, fun _ log fits =>
          absent.2 log (by have high := fits.high; omega) fits⟩
      · exact Or.inr ⟨valid, found.1, fun log fits =>
          found.2 log (by have high := fits.high; omega) fits⟩

end Choose

end Verbs
end Mcdma
