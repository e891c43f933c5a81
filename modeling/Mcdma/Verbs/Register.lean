import Mcdma.Verbs.Translate

/-!
# Registering with the chosen page size

`create_user_mkey` checks the page list again before it writes the command: the
range and the base must not wrap, the list must cover the range exactly, and no
page may be at device address zero.  The planner does not look at the last: a
page size larger than the first segment's device address makes the first page
begin at zero, and the command is refused although a smaller size would do.
-/

namespace Mcdma
namespace Verbs

/-- `max_command_bytes`. -/
def maxCommandBytes : Nat := 8192

/-- `max_mkey_pages`: the translation entries one command carries. -/
def maxMkeyPages : Nat := (maxCommandBytes - 0x110) / 8

/-- The bytes of a command with a number of pages. -/
def mkeyBytes (count : Nat) : Nat := 0x110 + (count + 1) / 2 * 2 * 8

/-- `create_user_mkey`: the bytes of the command it writes, or 0. -/
def createUserMkey (capacity pd key base length : Nat) (pages : List Nat)
    (access : UInt32) (logPage : Nat) : Nat :=
  if key = 0 ∨ pd > 0xffffff ∨ pages.length = 0 ∨
      pages.length > maxMkeyPages ∨ length = 0 ∨ logPage < 12 ∨
      logPage > 30 ∨ access &&& ~~~7 ≠ 0 ∨
      (access &&& 2 ≠ 0 ∧ access &&& 1 = 0) ∨ base > wordMax - length then 0
  else
    let page := 2 ^ logPage
    let mask := page - 1
    let offset := base &&& mask
    if length > wordMax - offset - mask ∨
        length > pages.length * page - offset ∨
        (length + offset + mask) / page ≠ pages.length then 0
    else if capacity < mkeyBytes pages.length then 0
    else if pages.any fun address =>
        decide (address = 0 ∨ address &&& mask ≠ 0) then 0
    else mkeyBytes pages.length

/-- A valid key, protection domain and access, and a command with room for a
number of pages. -/
structure Granted (capacity pd key count : Nat) (access : UInt32) : Prop where
  keyed : key ≠ 0
  domain : pd ≤ 0xffffff
  bits : access &&& ~~~7 = 0
  write : access &&& 2 ≠ 0 → access &&& 1 ≠ 0
  few : count ≤ maxMkeyPages
  bytes : mkeyBytes count ≤ capacity

/-- The chosen page size registers: there is a page list with it, and the
command is accepted. -/
def Registers (s : List Segment) (start length aliasAddress capacity : Nat) : Prop :=
  chooseLogPage s start length aliasAddress capacity ≠ 0 →
    ∃ pages,
      pageList s start length (chooseLogPage s start length aliasAddress capacity)
        capacity = some pages ∧
      ∀ wire pd key access, Granted wire pd key pages.length access →
        createUserMkey wire pd key aliasAddress length pages access
          (chooseLogPage s start length aliasAddress capacity) ≠ 0

section

variable {s : List Segment} {start length aliasAddress capacity log : Nat}
  {pages : List Nat}

/-- A page size that fits has a page list. -/
theorem pageList_isSome (valid : segmentsValid s start length = true)
    (fits : Fits s start length aliasAddress capacity log) :
    ∃ pages, pageList s start length log capacity = some pages := by
  have laid := laid_of_valid valid
  have positive : 0 < 2 ^ log := Nat.two_pow_pos log
  have nonzero : 0 < entries start length log := by
    rw [lt_entries_iff laid.nonempty]
    have nonempty := laid.nonempty
    omega
  have low := fits.low
  have high := fits.high
  have room := fits.room
  have count : entries start length log ≤ capacity := fits.count
  have inPage := Nat.mod_lt start positive
  have whole := Nat.mod_le start (2 ^ log)
  have each : ∀ j < entries start length log,
      (pageAt (2 ^ log) (2 ^ log - 1) s
        (start - start % 2 ^ log + (0 + j) * 2 ^ log)).isSome := by
    intro j below
    have begins : (start - start % 2 ^ log + j * 2 ^ log) % 2 ^ log = 0 := by
      rw [Nat.add_mul_mod_self_right, base_mod]
    obtain ⟨t, _, address, isPage, _⟩ := pageAt_spec laid fits.aligned begins
      (by omega) (page_lt laid.nonempty below)
    rw [Nat.zero_add, isPage]
    rfl
  have runs := (pageLoop_spec _ 0 (0, s) (fun _ _ => rfl)).1 each
  refine Option.isSome_iff_exists.mp ?_
  simp only [pageList]
  rw [if_neg (by simp [valid]; omega), and_mask, if_neg (by omega),
    Nat.shiftRight_eq_div_pow, if_neg]
  · exact runs
  · rw [entries] at nonzero count
    omega

theorem pageAt_mod {va address : Nat}
    (isPage : pageAt (2 ^ log) (2 ^ log - 1) s va = some address) :
    address &&& (2 ^ log - 1) = 0 := by
  simp only [pageAt, Option.bind_eq_bind, Option.bind_eq_some_iff] at isPage
  obtain ⟨_, _, found, _, rest⟩ := isPage
  split at rest
  · cases rest
  · next low =>
      obtain rfl : found = address := Option.some.inj rest
      exact not_not.mp low

/-- Only the first page can be at zero, and it is when the first segment's
device address is below a page. -/
theorem zero_mem_iff (laid : Laid s start length) (low : 12 ≤ log)
    (aligned : Aligned (2 ^ log) s)
    (listed : pageList s start length log capacity = some pages) :
    0 ∈ pages ↔ ∃ first, s.head? = some first ∧ first.iova < 2 ^ log := by
  have positive : 0 < 2 ^ log := Nat.two_pow_pos log
  obtain ⟨_, _, _, count, nonzero, _, each⟩ := pageList_spec listed
  have inPage := Nat.mod_lt start positive
  have whole := Nat.mod_le start (2 ^ log)
  have divides : 4096 ∣ 2 ^ log := pow_dvd_pow 2 low
  have inner : start % 4096 ≤ start % 2 ^ log := by
    rw [← Nat.mod_mod_of_dvd start divides]
    exact Nat.mod_le _ _
  have page := fun j (below : j < pages.length) => pageAt_spec laid aligned
    (by rw [Nat.add_mul_mod_self_right, base_mod] :
      (start - start % 2 ^ log + j * 2 ^ log) % 2 ^ log = 0)
    (by omega) (page_lt laid.nonempty (count ▸ below))
  constructor
  · intro member
    obtain ⟨j, below, equal⟩ := List.mem_iff_getElem.mp member
    obtain ⟨_, _, address, isPage, _, zero⟩ := page j below
    have same : some 0 = some address := by
      rw [← isPage, ← each j below, List.getElem?_eq_getElem below, equal]
    exact (zero.mp (Option.some.inj same).symm).2
  · intro first
    obtain ⟨_, _, address, isPage, _, zero⟩ := page 0 nonzero
    have isZero : address = 0 := zero.mpr ⟨by omega, first⟩
    rw [isZero, ← each 0 nonzero] at isPage
    exact List.mem_of_getElem? isPage

/-- What `create_user_mkey` still asks of a page list of the planner's. -/
theorem createUserMkey_ne_zero_iff
    (valid : segmentsValid s start length = true)
    (fits : Fits s start length aliasAddress capacity log)
    (listed : pageList s start length log capacity = some pages)
    {wire pd key : Nat} {access : UInt32}
    (granted : Granted wire pd key pages.length access) :
    createUserMkey wire pd key aliasAddress length pages access log ≠ 0 ↔
      aliasAddress + length ≤ wordMax ∧ 0 ∉ pages := by
  have laid := laid_of_valid valid
  obtain ⟨low, high, _, count, nonzero, _, each⟩ := pageList_spec listed
  have nonempty := laid.nonempty
  have word := laid.word
  have arguments : ¬(key = 0 ∨ pd > 0xffffff ∨ pages.length = 0 ∨
      pages.length > maxMkeyPages ∨ length = 0 ∨ log < 12 ∨ log > 30 ∨
      access &&& ~~~7 ≠ 0 ∨ (access &&& 2 ≠ 0 ∧ access &&& 1 = 0) ∨
      aliasAddress > wordMax - length) ↔ aliasAddress + length ≤ wordMax := by
    have keyed := granted.keyed
    have domain := granted.domain
    have few := granted.few
    have write := granted.write
    simp only [granted.bits]
    constructor
    · intro good
      omega
    · rintro fitsWord (bad | bad | bad | bad | bad | bad | bad | bad | bad |
        bad)
      all_goals first | omega | exact bad rfl | exact write bad.1 bad.2
  have covered : ¬(length > wordMax - aliasAddress % 2 ^ log - (2 ^ log - 1) ∨
      length > pages.length * 2 ^ log - aliasAddress % 2 ^ log ∨
      (length + aliasAddress % 2 ^ log + (2 ^ log - 1)) / 2 ^ log ≠
        pages.length) := by
    have room := fits.room
    have reach := (lt_entries_iff nonempty (entries start length log)).not.mp
      (Nat.lt_irrefl _)
    rw [← fits.shared, count, Nat.add_comm length]
    rintro (long | short | other)
    · omega
    · omega
    · exact other rfl
  have zeros : (pages.any fun address =>
      decide (address = 0 ∨ address &&& (2 ^ log - 1) ≠ 0)) = true ↔
      0 ∈ pages := by
    rw [List.any_eq_true]
    constructor
    · rintro ⟨address, member, bad⟩
      obtain ⟨j, below, equal⟩ := List.mem_iff_getElem.mp member
      have isPage : pageAt (2 ^ log) (2 ^ log - 1) s
          (start - start % 2 ^ log + j * 2 ^ log) = some address := by
        rw [← each j below, List.getElem?_eq_getElem below, equal]
      rcases of_decide_eq_true bad with rfl | unaligned
      · exact member
      · exact absurd (pageAt_mod isPage) unaligned
    · exact fun member => ⟨0, member, by simp⟩
  simp only [createUserMkey]
  rw [and_mask, if_neg covered, if_neg (Nat.not_lt.mpr granted.bytes)]
  by_cases fitsWord : aliasAddress + length ≤ wordMax
  · rw [if_neg (arguments.mpr fitsWord)]
    split
    · next bad => simp [zeros.mp bad]
    · next good =>
        have clear : 0 ∉ pages := fun member => good (zeros.mpr member)
        simp [fitsWord, clear, mkeyBytes]
  · rw [if_pos (not_not.mp fun good => fitsWord (arguments.mp good))]
    simp [fitsWord]

/-- A larger page does not need more pages. -/
theorem entries_anti {small large : Nat} (nonzero : 0 < length)
    (le : small ≤ large) :
    entries start length large ≤ entries start length small := by
  by_contra more
  have fewer : entries start length small < entries start length large := by
    omega
  have reach := (lt_entries_iff nonzero _).mp fewer
  have short := (lt_entries_iff nonzero (entries start length small)).not.mp
    (Nat.lt_irrefl _)
  generalize entries start length small = count at reach short
  have positive : 0 < 2 ^ small := Nat.two_pow_pos small
  have smaller : 2 ^ small ≤ 2 ^ large := Nat.pow_le_pow_right (by decide) le
  have inner : start % 2 ^ large + 2 ^ small ≤
      start % 2 ^ small + 2 ^ large := by
    obtain ⟨ratio, whole⟩ := pow_dvd_pow 2 le
    have below := Nat.mod_lt start (Nat.two_pow_pos large)
    have parts := Nat.div_add_mod (start % 2 ^ large) (2 ^ small)
    rw [Nat.mod_mod_of_dvd start (pow_dvd_pow 2 le)] at parts
    have quotient : start % 2 ^ large / 2 ^ small < ratio := by
      rw [Nat.div_lt_iff_lt_mul positive, Nat.mul_comm, ← whole]
      exact below
    have scaled := Nat.mul_le_mul_left (2 ^ small) quotient
    rw [Nat.mul_succ, ← whole] at scaled
    omega
  rcases Nat.eq_zero_or_pos count with rfl | one
  · omega
  · have scaled : count * 2 ^ small + 2 ^ large ≤
        count * 2 ^ large + 2 ^ small := by
      obtain ⟨rest, rfl⟩ : ∃ rest, count = rest + 1 := ⟨count - 1, by omega⟩
      have each := Nat.mul_le_mul_left rest smaller
      rw [Nat.succ_mul, Nat.succ_mul]
      omega
    omega

/-- A page size that fits and whose pages one command carries: the key's last
address must not wrap, and the first segment's device address must be as large
as a page. -/
def Registrable (s : List Segment) (start length aliasAddress capacity : Nat) :
    Prop :=
  ∀ log, Fits s start length aliasAddress capacity log →
    entries start length log ≤ maxMkeyPages →
    aliasAddress + length ≤ wordMax ∧
      ∀ first, s.head? = some first → 2 ^ log ≤ first.iova

/-- The chosen page size registers exactly when every page size that fits
would. -/
theorem registers_iff (s : List Segment)
    (start length aliasAddress capacity : Nat) :
    Registers s start length aliasAddress capacity ↔
      (segmentsValid s start length = true →
        Registrable s start length aliasAddress capacity) := by
  rcases chooseLogPage_spec s start length aliasAddress capacity with
    ⟨absent, unfit⟩ | ⟨valid, fits, largest⟩
  · refine ⟨fun _ valid log fits => absurd fits (unfit valid log), ?_⟩
    exact fun _ nonzero => absurd absent nonzero
  · have laid := laid_of_valid valid
    obtain ⟨pages, listed⟩ := pageList_isSome valid fits
    obtain ⟨low, _, _, count, _, _, _⟩ := pageList_spec listed
    have zeros := zero_mem_iff laid low fits.aligned listed
    have chosen : chooseLogPage s start length aliasAddress capacity ≠ 0 := by omega
    constructor
    · intro registers _ log fitsLog few
      have le := largest log fitsLog
      have carried : pages.length ≤ maxMkeyPages := by
        rw [count]
        exact (entries_anti laid.nonempty le).trans few
      obtain ⟨same, isSame, accepted⟩ := registers chosen
      obtain rfl : pages = same := Option.some.inj (listed.symm.trans isSame)
      have granted : Granted (mkeyBytes pages.length) 0 1 pages.length 0 :=
        ⟨by decide, by decide, by decide, fun bit => absurd rfl bit, carried,
          Nat.le_refl _⟩
      obtain ⟨word, clear⟩ := (createUserMkey_ne_zero_iff valid fits listed
        granted).mp (accepted _ _ _ _ granted)
      refine ⟨word, fun first isHead => ?_⟩
      have large : 2 ^ chooseLogPage s start length aliasAddress capacity ≤
          first.iova := by
        by_contra less
        exact clear (zeros.mpr ⟨first, isHead, by omega⟩)
      exact (Nat.pow_le_pow_right (by decide) le).trans large
    · intro registrable _
      refine ⟨pages, listed, fun wire pd key access granted => ?_⟩
      have few : entries start length
          (chooseLogPage s start length aliasAddress capacity) ≤ maxMkeyPages :=
        count ▸ granted.few
      obtain ⟨word, large⟩ := registrable valid _ fits few
      refine (createUserMkey_ne_zero_iff valid fits listed granted).mpr
        ⟨word, fun zero => ?_⟩
      obtain ⟨first, isHead, less⟩ := zeros.mp zero
      have enough := large first isHead
      omega

/-- One page at device address `0x1000`, one page after an address that a page
of 16 MiB divides: the planner takes pages of 16 MiB and the first one would
begin at zero.  With pages of 4 KiB the command is accepted. -/
theorem registers_low_device :
    ¬Registers [⟨0x1001000, 0x1000, 0x1000⟩] 0x1001000 0x1000 0x1001000 990 ∧
      pageList [⟨0x1001000, 0x1000, 0x1000⟩] 0x1001000 0x1000 12 990 =
        some [0x1000] ∧
      createUserMkey 8192 0 1 0x1001000 0x1000 [0x1000] 0 12 ≠ 0 := by
  have chosen : chooseLogPage [⟨0x1001000, 0x1000, 0x1000⟩] 0x1001000 0x1000
      0x1001000 990 = 24 := by decide
  refine ⟨fun registers => ?_, by decide, by decide⟩
  rw [Registers, chosen] at registers
  obtain ⟨pages, listed, accepted⟩ := registers (by decide)
  obtain rfl : [0] = pages := Option.some.inj listed
  exact accepted 8192 0 1 0 ⟨by decide, by decide, by decide, by decide,
    by decide, by decide⟩ (by decide)

end

end Verbs
end Mcdma
