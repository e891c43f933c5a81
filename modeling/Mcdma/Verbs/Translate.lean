import Mcdma.Verbs.Pages

/-!
# The translation of a memory key

The planner and the page list once more in checked arithmetic, which never
fails for 64-bit arguments, and what the page list means: every byte of the
range has, through its page, the device address its segment assigns.
-/

namespace Mcdma
namespace Verbs

/-! ## Checked arithmetic -/

/-- The loop of `segments_valid`. -/
def segmentsFromChecked (stop : Nat) : Nat → List Segment → Option Bool
  | expect, [] => some (decide (expect ≥ stop))
  | expect, s :: rest => do
      let most ← Checked.sub wordMax s.length
      if s.va ≠ expect ∨ s.length = 0 ∨ s.length &&& 4095 ≠ 0 ∨
          s.iova = 0 ∨ s.iova &&& 4095 ≠ 0 ∨ s.va > most ∨
          s.iova > most then some false
      else
        let next ← Checked.add s.va s.length
        segmentsFromChecked stop next rest

/-- `segments_valid`. -/
def segmentsValidChecked (s : List Segment) (start length : Nat) :
    Option Bool := do
  let most ← Checked.sub wordMax length
  if s = [] ∨ length = 0 ∨ start > most then some false
  else
    let stop ← Checked.add start length
    segmentsFromChecked stop (start - (start &&& 4095)) s

/-- The loop of `choose_log_page`. -/
def chooseFromChecked (s : List Segment)
    (start length aliasAddress capacity : Nat) : Nat → Nat → Nat → Option Nat
  | 0, _, best => some best
  | left + 1, log, best => do
      let mask ← Checked.sub (2 ^ log) 1
      if (start ^^^ aliasAddress) &&& mask ≠ 0 then some best
      else if !segmentsFit mask s then some best
      else
        let most ← Checked.sub wordMax (start &&& mask)
        let most ← Checked.sub most mask
        if length > most then some best
        else
          let sum ← Checked.add (start &&& mask) length
          let sum ← Checked.add sum mask
          chooseFromChecked s start length aliasAddress capacity left (log + 1)
            (if sum >>> log ≤ capacity then log else best)

/-- `choose_log_page`. -/
def chooseLogPageChecked (s : List Segment)
    (start length aliasAddress capacity : Nat) : Option Nat := do
  let valid ← segmentsValidChecked s start length
  if !valid ∨ (start ^^^ aliasAddress) &&& 4095 ≠ 0 then some 0
  else chooseFromChecked s start length aliasAddress capacity 19 12 0

/-- The inner loop of `page_list`. -/
def advanceChecked (va : Nat) :
    Nat → List Segment → Option (Nat × List Segment)
  | k, s :: next :: rest => do
      let stop ← Checked.add s.va s.length
      if va ≥ stop then advanceChecked va (k + 1) (next :: rest)
      else some (k, s :: next :: rest)
  | k, segments => some (k, segments)

/-- The device address of a page; the inner option is what the source
returns. -/
def pageOfChecked (page mask va k : Nat) (s : Segment) :
    Option (Option Nat) :=
  if va < s.va then do
    let gap ← Checked.sub s.va va
    if k ≠ 0 ∨ gap ≥ page ∨ s.va &&& mask ≠ s.iova &&& mask then some none
    else
      let address ← Checked.sub s.iova gap
      some (some address)
  else do
    let gap ← Checked.sub va s.va
    if gap ≥ s.length ∨ (s.va ^^^ s.iova) &&& mask ≠ 0 ∨
        (k ≠ 0 ∧ s.va &&& mask ≠ 0) then some none
    else
      let address ← Checked.add s.iova gap
      some (some address)

/-- The loop of `page_list`. -/
def pageLoopChecked (page mask base : Nat) :
    Nat → Nat → Nat × List Segment → Option (Option (List Nat))
  | 0, _, _ => some (some [])
  | left + 1, i, (k, segments) => do
      let far ← Checked.mul i page
      let va ← Checked.add base far
      let (k, segments) ← advanceChecked va k segments
      match segments.head? with
      | none => some none
      | some s =>
          let address ← pageOfChecked page mask va k s
          match address with
          | none => some none
          | some address =>
              if address &&& mask ≠ 0 then some none
              else
                let rest ← pageLoopChecked page mask base left (i + 1)
                  (k, segments)
                some (rest.map fun rest => address :: rest)

/-- `page_list`. -/
def pageListChecked (s : List Segment) (start length log capacity : Nat) :
    Option (Option (List Nat)) := do
  let valid ← segmentsValidChecked s start length
  if log < 12 ∨ log > 30 ∨ !valid then some none
  else
    let mask ← Checked.sub (2 ^ log) 1
    let most ← Checked.sub wordMax (start &&& mask)
    let most ← Checked.sub most mask
    if length > most then some none
    else
      let sum ← Checked.add (start &&& mask) length
      let sum ← Checked.add sum mask
      let entries := sum >>> log
      if entries = 0 ∨ entries > capacity then some none
      else
        pageLoopChecked (2 ^ log) mask (start - (start &&& mask)) entries 0
          (0, s)

section Checked

variable {s : List Segment} {start length aliasAddress capacity : Nat}

theorem segmentsFromChecked_eq (stop expect : Nat) (s : List Segment)
    (words : ∀ t ∈ s, t.length ≤ wordMax) :
    segmentsFromChecked stop expect s = some (segmentsFrom stop expect s) := by
  induction s generalizing expect with
  | nil => rfl
  | cons t rest inductionHypothesis =>
      refine Checked.bind_eq (Checked.sub_eq (words t (by simp))) ?_
      rw [segmentsFrom]
      split
      · rfl
      · next checks =>
          refine Checked.bind_eq (Checked.add_eq ?_) ?_
          · have bound : wordMax < 2 ^ 64 := by decide
            omega
          · exact inductionHypothesis _ fun u member =>
              words u (List.mem_cons_of_mem _ member)

theorem segmentsValidChecked_eq (words : ∀ t ∈ s, t.length ≤ wordMax)
    (word : length ≤ wordMax) :
    segmentsValidChecked s start length =
      some (segmentsValid s start length) := by
  refine Checked.bind_eq (Checked.sub_eq word) ?_
  rw [segmentsValid]
  split
  · rfl
  · refine Checked.bind_eq (Checked.add_eq ?_) ?_
    · have bound : wordMax < 2 ^ 64 := by decide
      omega
    · exact segmentsFromChecked_eq _ _ s words

/-- The page masks leave room below the largest word. -/
theorem masks_fit {log : Nat} (high : log ≤ 30) (start : Nat) :
    1 ≤ 2 ^ log ∧ start &&& (2 ^ log - 1) ≤ wordMax ∧
      2 ^ log - 1 ≤ wordMax - (start &&& (2 ^ log - 1)) := by
  have positive : 0 < 2 ^ log := Nat.two_pow_pos log
  have large : 2 ^ log ≤ 2 ^ 30 := Nat.pow_le_pow_right (by decide) high
  have small : start &&& (2 ^ log - 1) < 2 ^ log := by
    rw [and_mask]
    exact Nat.mod_lt _ positive
  have top : wordMax = 2 ^ 64 - 1 := rfl
  omega

theorem chooseFromChecked_eq (left log best : Nat) (last : log + left = 31) :
    chooseFromChecked s start length aliasAddress capacity left log best =
      some (chooseFrom s start length aliasAddress capacity left log best) := by
  induction left generalizing log best with
  | zero => rfl
  | succ left inductionHypothesis =>
      obtain ⟨one, first, second⟩ := masks_fit (by omega : log ≤ 30) start
      have top : wordMax < 2 ^ 64 := by decide
      refine Checked.bind_eq (Checked.sub_eq one) ?_
      simp only [chooseFrom]
      split
      · rfl
      · split
        · rfl
        · refine Checked.bind_eq (Checked.sub_eq first) ?_
          refine Checked.bind_eq (Checked.sub_eq second) ?_
          split
          · rfl
          · refine Checked.bind_eq (Checked.add_eq (by omega)) ?_
            refine Checked.bind_eq (Checked.add_eq (by omega)) ?_
            exact inductionHypothesis _ _ (by omega)

theorem chooseLogPageChecked_eq (words : ∀ t ∈ s, t.length ≤ wordMax)
    (word : length ≤ wordMax) :
    chooseLogPageChecked s start length aliasAddress capacity =
      some (chooseLogPage s start length aliasAddress capacity) := by
  refine Checked.bind_eq (segmentsValidChecked_eq words word) ?_
  rw [chooseLogPage]
  split
  · rfl
  · exact chooseFromChecked_eq 19 12 0 rfl

theorem advanceChecked_eq (va k : Nat) (s : List Segment)
    (sound : ∀ t ∈ s, t.Sound) :
    advanceChecked va k s = some (advance va k s) := by
  induction s generalizing k with
  | nil => rfl
  | cons t rest inductionHypothesis =>
      cases rest with
      | nil => rfl
      | cons next more =>
          have fits := (sound t (by simp)).vaFits
          have top : wordMax < 2 ^ 64 := by decide
          rw [advance]
          refine Checked.bind_eq (Checked.add_eq (by omega)) ?_
          split
          · exact inductionHypothesis (k + 1) fun u member =>
              sound u (List.mem_cons_of_mem _ member)
          · rfl

/-- A page before the first segment is not before the device's. -/
theorem pageOfChecked_eq {log va k : Nat} {t : Segment} (sound : t.Sound)
    (atPage : va % 2 ^ log = 0) :
    pageOfChecked (2 ^ log) (2 ^ log - 1) va k t =
      some (pageOf (2 ^ log) (2 ^ log - 1) va k t) := by
  rw [pageOfChecked, pageOf]
  split
  · next before =>
      refine Checked.bind_eq (Checked.sub_eq before.le) ?_
      split
      · rfl
      · next checks =>
          refine Checked.bind_eq (Checked.sub_eq ?_) rfl
          rw [and_mask, and_mask] at checks
          have gap := sub_eq_mod atPage before.le (by omega : t.va < va + 2 ^ log)
          have agree : t.va % 2 ^ log = t.iova % 2 ^ log := by omega
          rw [gap, agree]
          exact Nat.mod_le _ _
  · next after =>
      refine Checked.bind_eq (Checked.sub_eq (by omega)) ?_
      split
      · rfl
      · next checks =>
          have fits := sound.iovaFits
          have top : wordMax < 2 ^ 64 := by decide
          exact Checked.bind_eq (Checked.add_eq (by omega)) rfl

theorem mem_advance {va k : Nat} {s : List Segment} {t : Segment}
    (member : t ∈ (advance va k s).2) : t ∈ s := by
  induction s generalizing k with
  | nil => exact member
  | cons head rest inductionHypothesis =>
      cases rest with
      | nil => exact member
      | cons next more =>
          rw [advance] at member
          split at member
          · exact List.mem_cons_of_mem _ (inductionHypothesis member)
          · exact member

theorem pageLoopChecked_eq {log base : Nat} (atPage : base % 2 ^ log = 0)
    (left i : Nat) (state : Nat × List Segment)
    (sound : ∀ t ∈ state.2, t.Sound)
    (bound : ∀ j < i + left, base + j * 2 ^ log ≤ wordMax) :
    pageLoopChecked (2 ^ log) (2 ^ log - 1) base left i state =
      some (pageLoop (2 ^ log) (2 ^ log - 1) base left i state) := by
  induction left generalizing i state with
  | zero => rfl
  | succ left inductionHypothesis =>
      have top : wordMax < 2 ^ 64 := by decide
      have here := bound i (by omega)
      have pageVa : (base + i * 2 ^ log) % 2 ^ log = 0 := by
        rw [Nat.add_mul_mod_self_right, atPage]
      rw [pageLoop]
      refine Checked.bind_eq (Checked.mul_eq (by omega)) ?_
      refine Checked.bind_eq (Checked.add_eq (by omega)) ?_
      refine Checked.bind_eq (advanceChecked_eq _ _ _ sound) ?_
      have onward := fun t (member : t ∈ (advance (base + i * 2 ^ log) state.1
        state.2).2) => sound t (mem_advance member)
      generalize advance (base + i * 2 ^ log) state.1 state.2 = found
        at onward ⊢
      obtain ⟨k, segments⟩ := found
      cases segments with
      | nil => rfl
      | cons t rest =>
          refine Checked.bind_eq
            (pageOfChecked_eq (onward t (by simp)) pageVa) ?_
          simp only [List.head?_cons, Option.bind_eq_bind, Option.bind_some]
          cases pageOf (2 ^ log) (2 ^ log - 1) (base + i * 2 ^ log) k t with
          | none => rfl
          | some address =>
              simp only [Option.bind_some]
              split
              · rfl
              · rw [inductionHypothesis (i + 1) (k, t :: rest) onward
                  fun j below => bound j (by omega)]
                cases pageLoop (2 ^ log) (2 ^ log - 1) base left (i + 1)
                  (k, t :: rest) <;> rfl

/-- No page of a range begins past its end. -/
theorem page_lt {log : Nat} (nonzero : 0 < length) {j : Nat}
    (below : j < entries start length log) :
    start - start % 2 ^ log + j * 2 ^ log < start + length := by
  have reach := (lt_entries_iff nonzero j).mp below
  have whole := Nat.mod_le start (2 ^ log)
  omega

theorem base_mod (start page : Nat) : (start - start % page) % page = 0 :=
  Nat.sub_mod_eq_zero_of_mod_eq (Nat.mod_mod _ _).symm

theorem pageListChecked_eq (words : ∀ t ∈ s, t.length ≤ wordMax)
    (word : length ≤ wordMax) (log : Nat) :
    pageListChecked s start length log capacity =
      some (pageList s start length log capacity) := by
  refine Checked.bind_eq (segmentsValidChecked_eq words word) ?_
  simp only [pageList]
  split
  · rfl
  · next good =>
      obtain ⟨one, first, second⟩ := masks_fit (by omega : log ≤ 30) start
      have top : wordMax < 2 ^ 64 := by decide
      refine Checked.bind_eq (Checked.sub_eq one) ?_
      refine Checked.bind_eq (Checked.sub_eq first) ?_
      refine Checked.bind_eq (Checked.sub_eq second) ?_
      split
      · rfl
      · refine Checked.bind_eq (Checked.add_eq (by omega)) ?_
        refine Checked.bind_eq (Checked.add_eq (by omega)) ?_
        split
        · rfl
        · have valid : segmentsValid s start length = true := by
            by_contra invalid
            exact good (Or.inr (Or.inr (by simpa using invalid)))
          have laid := laid_of_valid valid
          rw [and_mask, Nat.shiftRight_eq_div_pow]
          refine pageLoopChecked_eq (base_mod _ _) _ 0 (0, s)
            (fun t member => laid.abut.sound member) ?_
          intro j below
          rw [Nat.zero_add] at below
          have reach := page_lt laid.nonempty below
          have fits := laid.word
          omega

end Checked

/-! ## What the pages mean -/

section Exact

variable {s : List Segment} {start length aliasAddress capacity log : Nat}
  {pages : List Nat}

/-- A byte of the range through its page. -/
theorem byte_exact (laid : Laid s start length)
    (aligned : Aligned (2 ^ log) s)
    (listed : pageList s start length log capacity = some pages) {i : Nat}
    (below : i < length) :
    ∃ address, pages[(start % 2 ^ log + i) / 2 ^ log]? = some address ∧
      deviceOf s (start + i) =
        some (address + (start % 2 ^ log + i) % 2 ^ log) := by
  have positive : 0 < 2 ^ log := Nat.two_pow_pos log
  obtain ⟨_, _, _, count, _, _, each⟩ := pageList_spec listed
  have split := Nat.div_add_mod (start % 2 ^ log + i) (2 ^ log)
  generalize (start % 2 ^ log + i) / 2 ^ log = j at split ⊢
  have within := Nat.mod_lt (start % 2 ^ log + i) positive
  generalize (start % 2 ^ log + i) % 2 ^ log = off at split within ⊢
  have few : j < entries start length log := by
    rw [lt_entries_iff laid.nonempty, Nat.mul_comm]
    omega
  have whole := Nat.mod_le start (2 ^ log)
  rw [Nat.mul_comm] at split
  have position : start - start % 2 ^ log + j * 2 ^ log + off = start + i := by
    omega
  have inPage := Nat.mod_lt start positive
  have begins : (start - start % 2 ^ log + j * 2 ^ log) % 2 ^ log = 0 := by
    rw [Nat.add_mul_mod_self_right, base_mod]
  obtain ⟨t, member, address, isPage, bytes, _⟩ := pageAt_spec laid aligned
    begins (by omega) (page_lt laid.nonempty few)
  obtain ⟨holds, same⟩ := bytes off within (by omega) (by omega)
  refine ⟨address, by rw [each j (by omega), isPage], ?_⟩
  rw [← position, same]
  exact deviceOf_eq laid.abut member holds

/-- No page meets two segments. -/
theorem page_in_one (laid : Laid s start length)
    (aligned : Aligned (2 ^ log) s) {j : Nat} {t u : Segment}
    (left : t ∈ s) (right : u ∈ s)
    (first : t.Meets (start - start % 2 ^ log + j * 2 ^ log)
      (start - start % 2 ^ log + j * 2 ^ log + 2 ^ log))
    (second : u.Meets (start - start % 2 ^ log + j * 2 ^ log)
      (start - start % 2 ^ log + j * 2 ^ log + 2 ^ log)) : t = u := by
  have begins : (start - start % 2 ^ log + j * 2 ^ log) % 2 ^ log = 0 := by
    rw [Nat.add_mul_mod_self_right, base_mod]
  generalize start - start % 2 ^ log + j * 2 ^ log = va at first second begins
  -- a later segment would begin inside the page
  have apart : ∀ {t u : Segment}, u ∈ s.tail → t.va + t.length ≤ u.va →
      t.Meets va (va + 2 ^ log) → u.Meets va (va + 2 ^ log) → False := by
    rintro t u later behind ⟨low, fromLow, _, tLow⟩ ⟨high, _, toHigh, uHigh⟩
    have inside : va < u.va := by
      have upto := tLow.2
      omega
    have below : u.va < va + 2 ^ log := lt_of_le_of_lt uHigh.1 toHigh
    have gap := Nat.dvd_sub (Nat.dvd_of_mod_eq_zero (aligned.starts u later))
      (Nat.dvd_of_mod_eq_zero begins)
    have far := Nat.le_of_dvd (by omega) gap
    omega
  by_contra other
  rcases laid.abut.order left right other with ⟨later, le⟩ | ⟨later, le⟩
  · exact apart later le first second
  · exact apart later le second first

/-- For 64-bit arguments neither function wraps; and where the planner returns
a size with which there is a page list, the list fits the capacity, the key
yields for each byte of the range the device address its segment assigns, and
no page meets two segments. -/
theorem translation_exact (s : List Segment)
    (start length aliasAddress capacity : Nat)
    (words : ∀ t ∈ s, t.length ≤ wordMax) (word : length ≤ wordMax) :
    chooseLogPageChecked s start length aliasAddress capacity =
        some (chooseLogPage s start length aliasAddress capacity) ∧
      (∀ log, pageListChecked s start length log capacity =
        some (pageList s start length log capacity)) ∧
      ∀ log pages, chooseLogPage s start length aliasAddress capacity = log →
        pageList s start length log capacity = some pages →
        pages.length ≤ capacity ∧
        (∀ i < length, ∃ address,
          pages[(aliasAddress % 2 ^ log + i) / 2 ^ log]? = some address ∧
          deviceOf s (start + i) =
            some (address + (aliasAddress % 2 ^ log + i) % 2 ^ log)) ∧
        ∀ j < pages.length, ∀ t ∈ s, ∀ u ∈ s,
          t.Meets (start - start % 2 ^ log + j * 2 ^ log)
            (start - start % 2 ^ log + j * 2 ^ log + 2 ^ log) →
          u.Meets (start - start % 2 ^ log + j * 2 ^ log)
            (start - start % 2 ^ log + j * 2 ^ log + 2 ^ log) → t = u := by
  refine ⟨chooseLogPageChecked_eq words word, pageListChecked_eq words word,
    ?_⟩
  rintro log pages rfl listed
  obtain ⟨low, _, laid, _, _, most, _⟩ := pageList_spec listed
  rcases chooseLogPage_spec s start length aliasAddress capacity with
    ⟨absent, _⟩ | ⟨_, fits, _⟩
  · omega
  · refine ⟨most, ?_, ?_⟩
    · intro i below
      rw [← fits.shared]
      exact byte_exact laid fits.aligned listed below
    · intro j _ t left u right first second
      exact page_in_one laid fits.aligned left right first second

/-- Two segments that are not contiguous on the device, and pages of 8 KiB of
which the first begins before the first segment. -/
def twoSegments : List Segment :=
  [⟨0x1001000, 0x90001000, 0x1000⟩, ⟨0x1002000, 0xa0000000, 0x2000⟩]

/-- The last byte of the range through the second page. -/
theorem translation_exact_two :
    chooseLogPage twoSegments 0x1001234 0x2000 0x5234 64 = 13 ∧
      pageList twoSegments 0x1001234 0x2000 13 64 =
        some [0x90000000, 0xa0000000] ∧
      deviceOf twoSegments 0x1003233 = some (0xa0000000 + 0x1233) := by
  have planned : chooseLogPage twoSegments 0x1001234 0x2000 0x5234 64 = 13 := by
    decide
  have listed : pageList twoSegments 0x1001234 0x2000 13 64 =
      some [0x90000000, 0xa0000000] := by decide
  obtain ⟨_, _, exactly⟩ := translation_exact twoSegments 0x1001234 0x2000
    0x5234 64 (by decide) (by decide)
  obtain ⟨_, bytes, _⟩ := exactly 13 _ planned listed
  obtain ⟨address, isPage, device⟩ := bytes 0x1fff (by decide)
  obtain rfl : address = 0xa0000000 := (Option.some.inj isPage).symm
  exact ⟨planned, listed, device⟩

end Exact

end Verbs
end Mcdma
