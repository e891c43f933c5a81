import Mathlib.Data.List.GetD
import Mathlib.Data.List.Nodup
import Mathlib.Data.List.Range
import Mathlib.Order.Lattice.Nat

/-!
# The ports of the lanes

A peer is connected over several devices, each with several queue pairs.  The
caller names one base port for each device, and `lane_ports` gives every queue
pair a block of ports of its own, as wide as the spread of the bases; or the
caller names the port of every lane.
-/

namespace Mcdma
namespace Fabric
namespace LanePorts

/-- The first loop of `lane_ports`: no port is zero or named before; the least
and the greatest. -/
def spread : List UInt16 → List UInt16 → UInt32 → UInt32 →
    Option (UInt32 × UInt32)
  | _, [], lo, hi => some (lo, hi)
  | before, port :: rest, lo, hi =>
      if port = 0 then none
      else if port ∈ before then none
      else
        spread (before ++ [port]) rest
          (if port.toUInt32 < lo then port.toUInt32 else lo)
          (if hi < port.toUInt32 then port.toUInt32 else hi)

/-- The port of a lane, before it is checked. -/
def lanePort (input : List UInt16) (devices lanes : Nat) (lo hi : UInt32)
    (lane : Nat) : UInt32 :=
  if input.length = lanes then (input.getD lane 0).toUInt32
  else
    (input.getD (lane % devices) 0).toUInt32 +
      UInt32.ofNat (lane / devices) * (hi - lo + 1)

/-- The second loop: each lane's port, if it is one. -/
def fill (port : Nat → UInt32) : List Nat → Option (List UInt16)
  | [] => some []
  | lane :: rest =>
      if 65535 < port lane then none
      else (fill port rest).map ((port lane).toUInt16 :: ·)

end LanePorts

/-- `lane_ports`. -/
def lanePorts (input : List UInt16) (devices lanes : Nat) :
    Option (List UInt16) :=
  if input.length ≠ devices ∧ input.length ≠ lanes then none
  else
    match LanePorts.spread [] input 65535 0 with
    | none => none
    | some (lo, hi) =>
        LanePorts.fill (LanePorts.lanePort input devices lanes lo hi)
          (List.range lanes)

namespace LanePorts

/-- The width of a block of ports: from the least base to the greatest. -/
def span (input : List UInt16) : Nat :=
  (input.map UInt16.toNat).foldl max 0 -
    (input.map UInt16.toNat).foldl min 65535 + 1

/-- The port of a lane as a number. -/
def laneNumber (input : List UInt16) (devices lanes lane : Nat) : Nat :=
  if input.length = lanes then (input.getD lane 0).toNat
  else
    (input.getD (lane % devices) 0).toNat + lane / devices * span input

/-! ## The two loops -/

section

variable {input : List UInt16}

/-- The first loop stops at a port that is zero or was named before. -/
theorem spread_eq (before rest : List UInt16) (lo hi : UInt32)
    (fresh : before.Nodup) :
    spread before rest lo hi =
      if 0 ∉ rest ∧ (before ++ rest).Nodup then
        some (UInt32.ofNat ((rest.map UInt16.toNat).foldl min lo.toNat),
          UInt32.ofNat ((rest.map UInt16.toNat).foldl max hi.toNat))
      else none := by
  induction rest generalizing before lo hi with
  | nil => simp [spread, fresh]
  | cons port rest inductionHypothesis =>
      rw [spread]
      split
      · next zero => simp [zero]
      · next nonempty =>
          split
          · next named =>
              rw [if_neg]
              rintro ⟨_, distinct⟩
              exact (List.nodup_append.mp distinct).2.2 port named port
                List.mem_cons_self rfl
          · next unnamed =>
              have longer : (before ++ [port]).Nodup := by
                rw [List.nodup_append]
                refine ⟨fresh, List.nodup_singleton _, ?_⟩
                intro first member second single same
                rw [List.mem_singleton] at single
                exact unnamed (single ▸ same ▸ member)
              have least : (if port.toUInt32 < lo then port.toUInt32
                  else lo).toNat = min lo.toNat port.toNat := by
                have below := @UInt32.lt_iff_toNat_lt port.toUInt32 lo
                rw [UInt16.toNat_toUInt32] at below
                split
                · next less =>
                    have lt := below.mp less
                    rw [UInt16.toNat_toUInt32]
                    omega
                · next more =>
                    have ge := mt below.mpr more
                    omega
              have most : (if hi < port.toUInt32 then port.toUInt32
                  else hi).toNat = max hi.toNat port.toNat := by
                have above := @UInt32.lt_iff_toNat_lt hi port.toUInt32
                rw [UInt16.toNat_toUInt32] at above
                split
                · next more =>
                    have lt := above.mp more
                    rw [UInt16.toNat_toUInt32]
                    omega
                · next less =>
                    have ge := mt above.mpr less
                    omega
              rw [inductionHypothesis _ _ _ longer, least, most]
              simp [Ne.symm nonempty]

/-- The second loop fills in the lanes if every one's port fits. -/
theorem fill_eq (port : Nat → UInt32) (lanes : List Nat) :
    fill port lanes =
      if ∀ lane ∈ lanes, port lane ≤ 65535 then
        some (lanes.map fun lane => (port lane).toUInt16)
      else none := by
  induction lanes with
  | nil => simp [fill]
  | cons lane rest inductionHypothesis =>
      rw [fill, inductionHypothesis]
      split
      · next above => simp [above]
      · next within => simp [UInt32.not_lt.mp within, apply_ite (Option.map _)]

/-- Every port lies between the least and the greatest. -/
theorem foldl_bounds (numbers : List Nat) (lo hi : Nat) :
    (numbers.foldl min lo ≤ lo ∧
        ∀ number ∈ numbers, numbers.foldl min lo ≤ number) ∧
      hi ≤ numbers.foldl max hi ∧
        ∀ number ∈ numbers, number ≤ numbers.foldl max hi := by
  induction numbers generalizing lo hi with
  | nil => simp
  | cons first rest inductionHypothesis =>
      obtain ⟨⟨low, lows⟩, high, highs⟩ :=
        inductionHypothesis (min lo first) (max hi first)
      simp only [List.foldl_cons, List.mem_cons, forall_eq_or_imp]
      refine ⟨⟨by omega, by omega, lows⟩, by omega, by omega, highs⟩

theorem foldl_max_le (numbers : List Nat) {hi limit : Nat} (start : hi ≤ limit)
    (small : ∀ number ∈ numbers, number ≤ limit) :
    numbers.foldl max hi ≤ limit := by
  induction numbers generalizing hi with
  | nil => exact start
  | cons first rest inductionHypothesis =>
      have head := small first List.mem_cons_self
      exact inductionHypothesis (by omega) fun number member =>
        small number (List.mem_cons_of_mem _ member)

/-- The least and the greatest of some ports. -/
theorem lo_le_hi (nonempty : input ≠ []) :
    (input.map UInt16.toNat).foldl min 65535 ≤
        (input.map UInt16.toNat).foldl max 0 ∧
      (input.map UInt16.toNat).foldl max 0 ≤ 65535 := by
  obtain ⟨⟨_, lows⟩, _, highs⟩ :=
    foldl_bounds (input.map UInt16.toNat) 65535 0
  obtain ⟨port, member⟩ := List.exists_mem_of_ne_nil _ nonempty
  have listed : port.toNat ∈ input.map UInt16.toNat :=
    List.mem_map_of_mem member
  refine ⟨(lows _ listed).trans (highs _ listed), ?_⟩
  refine foldl_max_le _ (Nat.zero_le _) fun number among => ?_
  obtain ⟨port, _, rfl⟩ := List.mem_map.mp among
  have small := port.toNat_lt
  omega

/-- A base port lies less than a block above the least. -/
theorem base_lt_span {port : UInt16} (member : port ∈ input) :
    (input.map UInt16.toNat).foldl min 65535 ≤ port.toNat ∧
      port.toNat <
        (input.map UInt16.toNat).foldl min 65535 + span input := by
  obtain ⟨⟨_, lows⟩, _, highs⟩ :=
    foldl_bounds (input.map UInt16.toNat) 65535 0
  have listed : port.toNat ∈ input.map UInt16.toNat :=
    List.mem_map_of_mem member
  have low := lows _ listed
  have high := highs _ listed
  rw [span]
  omega

variable {devices lanes : Nat}

/-- The port of a lane as the code computes it. -/
theorem toNat_lanePort (nonempty : input ≠ []) (lane : Nat) :
    (lanePort input devices lanes
        (UInt32.ofNat ((input.map UInt16.toNat).foldl min 65535))
        (UInt32.ofNat ((input.map UInt16.toNat).foldl max 0)) lane).toNat =
      laneNumber input devices lanes lane % 2 ^ 32 := by
  obtain ⟨ordered, small⟩ := lo_le_hi nonempty
  have width : (UInt32.ofNat ((input.map UInt16.toNat).foldl max 0) -
      UInt32.ofNat ((input.map UInt16.toNat).foldl min 65535) + 1).toNat =
      span input := by
    rw [span, UInt32.toNat_add, UInt32.toNat_sub_of_le, UInt32.toNat_ofNat',
      UInt32.toNat_ofNat']
    · simp only [UInt32.toNat_one]
      omega
    · rw [UInt32.le_iff_toNat_le, UInt32.toNat_ofNat', UInt32.toNat_ofNat']
      omega
  rw [lanePort, laneNumber]
  split
  · have port := (input.getD lane 0).toNat_lt
    rw [UInt16.toNat_toUInt32]
    omega
  · rw [UInt32.toNat_add, UInt32.toNat_mul, width, UInt16.toNat_toUInt32,
      UInt32.toNat_ofNat', Nat.mod_mul_mod, Nat.add_mod_mod]

/-- The first lane whose port is too large is too large in 32 bits as well. -/
theorem wrap_fits (whole : input.length = devices ∨ input.length = lanes)
    (nonempty : input ≠ []) :
    (∀ lane < lanes, laneNumber input devices lanes lane % 2 ^ 32 ≤ 65535) ↔
      ∀ lane < lanes, laneNumber input devices lanes lane ≤ 65535 := by
  refine ⟨fun wrapped lane => ?_, fun fits lane below =>
    (Nat.mod_le _ _).trans (fits lane below)⟩
  induction lane using Nat.strong_induction_on with
  | _ lane inductionHypothesis =>
      intro below
      have mine := wrapped lane below
      have port := UInt16.toNat_lt
      have positive : 0 < input.length := List.length_pos_iff.mpr nonempty
      unfold laneNumber at mine inductionHypothesis ⊢
      split
      · have := port (input.getD lane 0)
        omega
      · next bases =>
          have count : input.length = devices := whole.resolve_right bases
          rw [if_neg bases] at mine
          simp only [if_neg bases] at inductionHypothesis
          obtain ⟨ordered, small⟩ := lo_le_hi nonempty
          have narrow : span input ≤ 65536 := by
            rw [span]
            omega
          rcases Nat.lt_or_ge lane devices with first | later
          · rw [Nat.div_eq_of_lt first, Nat.zero_mul]
            have := port (input.getD (lane % devices) 0)
            omega
          · have before := inductionHypothesis (lane - devices) (by omega)
              (by omega)
            have same : (lane - devices) % devices = lane % devices := by
              rw [← Nat.mod_eq_sub_mod later]
            have next : lane / devices = (lane - devices) / devices + 1 := by
              rw [Nat.div_eq_sub_div (by omega) later]
            rw [same] at before
            rw [next, Nat.add_mul, Nat.one_mul] at mine ⊢
            omega

/-- `lanePorts` in one line. -/
theorem lanePorts_eq (nonempty : input ≠ []) :
    lanePorts input devices lanes =
      if (input.length = devices ∨ input.length = lanes) ∧ 0 ∉ input ∧
          input.Nodup ∧
          ∀ lane < lanes, laneNumber input devices lanes lane ≤ 65535 then
        some ((List.range lanes).map fun lane =>
          UInt16.ofNat (laneNumber input devices lanes lane))
      else none := by
  by_cases whole : input.length = devices ∨ input.length = lanes
  · by_cases sound : 0 ∉ input ∧ input.Nodup
    · rw [lanePorts, if_neg (by omega), spread_eq [] input _ _ List.nodup_nil,
        if_pos ⟨sound.1, by simpa using sound.2⟩]
      simp only [fill_eq, UInt32.le_iff_toNat_le, List.mem_range]
      change (if ∀ lane < lanes, (lanePort input devices lanes
        (UInt32.ofNat ((input.map UInt16.toNat).foldl min 65535))
        (UInt32.ofNat ((input.map UInt16.toNat).foldl max 0)) lane).toNat ≤
          65535 then _ else _) = _
      simp only [toNat_lanePort nonempty, wrap_fits whole nonempty]
      by_cases fits :
          ∀ lane < lanes, laneNumber input devices lanes lane ≤ 65535
      · rw [if_pos fits, if_pos ⟨whole, sound.1, sound.2, fits⟩]
        congr 1
        refine List.map_congr_left fun lane member => ?_
        have below := fits lane (List.mem_range.mp member)
        apply UInt16.toNat_inj.mp
        rw [UInt32.toNat_toUInt16]
        erw [toNat_lanePort nonempty]
        rw [UInt16.toNat_ofNat']
        omega
      · rw [if_neg fits, if_neg fun all => fits all.2.2.2]
    · rw [lanePorts, if_neg (by omega), spread_eq [] input _ _ List.nodup_nil,
        if_neg (by simpa using sound),
        if_neg fun all => sound ⟨all.2.1, all.2.2.1⟩]
  · rw [lanePorts, if_pos (by omega), if_neg fun all => whole all.1]

/-- Different lanes have different ports. -/
theorem laneNumber_inj (nonempty : input ≠ [])
    (whole : input.length = devices ∨ input.length = lanes) (distinct : input.Nodup)
    {first second : Nat} (firstLt : first < lanes) (secondLt : second < lanes)
    (same : laneNumber input devices lanes first =
      laneNumber input devices lanes second) : first = second := by
  unfold laneNumber at same
  split at same
  · next all =>
      rw [List.getD_eq_getElem _ _ (by omega),
        List.getD_eq_getElem _ _ (by omega), UInt16.toNat_inj] at same
      exact distinct.getElem_inj_iff.mp same
  · next bases =>
      have count : input.length = devices := whole.resolve_right bases
      have positive : 0 < devices := by
        have length := List.length_pos_iff.mpr nonempty
        omega
      have firstMod := Nat.mod_lt first positive
      have secondMod := Nat.mod_lt second positive
      rw [List.getD_eq_getElem _ _ (by omega),
        List.getD_eq_getElem _ _ (by omega)] at same
      obtain ⟨lowFirst, highFirst⟩ := base_lt_span
        (List.getElem_mem (by omega : first % devices < input.length))
      obtain ⟨lowSecond, highSecond⟩ := base_lt_span
        (List.getElem_mem (by omega : second % devices < input.length))
      have block : first / devices = second / devices := by
        generalize (input.map UInt16.toNat).foldl min 65535 = lo at *
        generalize span input = width at *
        rcases Nat.lt_trichotomy (first / devices) (second / devices) with
          less | equal | more
        · have step := Nat.mul_le_mul_right width (Nat.succ_le_of_lt less)
          rw [Nat.succ_mul] at step
          omega
        · exact equal
        · have step := Nat.mul_le_mul_right width (Nat.succ_le_of_lt more)
          rw [Nat.succ_mul] at step
          omega
      have base : first % devices = second % devices := by
        rw [block] at same
        apply distinct.getElem_inj_iff.mp
        apply UInt16.toNat_inj.mp
        exact Nat.add_right_cancel same
      rw [← Nat.div_add_mod first devices, block, base, Nat.div_add_mod]

/-- No lane's port is zero. -/
theorem laneNumber_pos (nonempty : input ≠ [])
    (whole : input.length = devices ∨ input.length = lanes)
    (nonzero : 0 ∉ input) {lane : Nat} (below : lane < lanes) :
    1 ≤ laneNumber input devices lanes lane := by
  have positive : ∀ index, index < input.length →
      1 ≤ (input.getD index 0).toNat := by
    intro index inside
    rw [List.getD_eq_getElem _ _ inside]
    by_contra zero
    apply nonzero
    have same : input[index] = 0 :=
      UInt16.toNat_inj.mp (by simp only [UInt16.toNat_zero]; omega)
    exact same ▸ List.getElem_mem inside
  unfold laneNumber
  split
  · exact positive lane (by omega)
  · next bases =>
      have length := List.length_pos_iff.mpr nonempty
      have inside := Nat.mod_lt lane (by omega : 0 < devices)
      exact (positive (lane % devices) (by omega)).trans (Nat.le_add_right _ _)

/-- Lane `q * devices + d` is the base of device `d` plus `q` blocks. -/
theorem laneNumber_block (bases : input.length = devices) (q : Nat) {d : Nat}
    (device : d < devices) (below : q * devices + d < lanes) :
    laneNumber input devices lanes (q * devices + d) =
      (input.getD d 0).toNat + q * span input := by
  have block : (q * devices + d) / devices = q := by
    rw [Nat.mul_comm, Nat.mul_add_div (by omega), Nat.div_eq_of_lt device,
      Nat.add_zero]
  have base : (q * devices + d) % devices = d := by
    rw [Nat.mul_add_mod', Nat.mod_eq_of_lt device]
  unfold laneNumber
  split
  · next all =>
      have first : q = 0 := by
        by_contra later
        have most := Nat.mul_le_mul_right devices
          (Nat.one_le_iff_ne_zero.mpr later)
        omega
      simp [first]
  · rw [block, base]

end

/-- `lane_ports` succeeds only with distinct ports from 1 to 65535, one for each
lane: those named, or lane `q * devices + d` at the base of device `d` plus `q`
blocks.  It fails exactly when a port is zero or named twice, the count is
neither that of the devices nor that of the lanes, or some lane's port would be
too large. -/
theorem lanePorts_distinct (input : List UInt16) (devices lanes : Nat)
    (nonempty : input ≠ []) :
    (∀ ports, lanePorts input devices lanes = some ports →
      ports.length = lanes ∧ ports.Nodup ∧
      (∀ port ∈ ports, 1 ≤ port.toNat ∧ port.toNat ≤ 65535) ∧
      (input.length = lanes → ports = input) ∧
      (input.length = devices → ∀ q d, d < devices → q * devices + d < lanes →
        (ports.getD (q * devices + d) 0).toNat =
          (input.getD d 0).toNat + q * span input)) ∧
    (lanePorts input devices lanes = none ↔
      0 ∈ input ∨ ¬ input.Nodup ∨
      (input.length ≠ devices ∧ input.length ≠ lanes) ∨
      ∃ lane < lanes, 65535 < laneNumber input devices lanes lane) := by
  rw [lanePorts_eq nonempty]
  constructor
  · intro ports success
    split at success
    · next sound =>
        obtain ⟨whole, nonzero, distinct, fits⟩ := sound
        obtain rfl := Option.some.inj success
        have number : ∀ lane < lanes, (UInt16.ofNat
            (laneNumber input devices lanes lane)).toNat =
              laneNumber input devices lanes lane := by
          intro lane below
          have small := fits lane below
          rw [UInt16.toNat_ofNat']
          omega
        refine ⟨by simp, ?_, ?_, ?_, ?_⟩
        · refine List.Nodup.map_on ?_ List.nodup_range
          intro first firstMem second secondMem same
          have firstLt := List.mem_range.mp firstMem
          have secondLt := List.mem_range.mp secondMem
          have numbers := congrArg UInt16.toNat same
          rw [number first firstLt, number second secondLt] at numbers
          exact laneNumber_inj nonempty whole distinct firstLt secondLt numbers
        · intro port member
          obtain ⟨lane, listed, rfl⟩ := List.mem_map.mp member
          have below := List.mem_range.mp listed
          rw [number lane below]
          exact ⟨laneNumber_pos nonempty whole nonzero below, fits lane below⟩
        · intro all
          apply List.ext_getElem (by simp [all])
          intro lane left right
          rw [List.getElem_map, List.getElem_range, laneNumber, if_pos all,
            List.getD_eq_getElem _ _ right, UInt16.ofNat_toNat]
        · intro bases q d device below
          rw [List.getD_eq_getElem _ _ (by simpa using below),
            List.getElem_map, List.getElem_range, number _ below]
          exact laneNumber_block bases q device below
    · simp at success
  · split
    · next sound =>
        obtain ⟨whole, nonzero, distinct, fits⟩ := sound
        refine iff_of_false (by simp) ?_
        rintro (zero | repeated | neither | ⟨lane, below, large⟩)
        · exact nonzero zero
        · exact repeated distinct
        · omega
        · have small := fits lane below
          omega
    · next fails =>
        refine iff_of_true rfl ?_
        by_contra sound
        push Not at sound
        obtain ⟨nonzero, distinct, whole, fits⟩ := sound
        exact fails ⟨by tauto, nonzero, distinct, fits⟩

/-- Two devices and two queue pairs each. -/
theorem lanePorts_distinct_two :
    lanePorts [7000, 7004] 2 4 = some [7000, 7004, 7005, 7009] ∧
      [7000, 7004, 7005, (7009 : UInt16)].Nodup := by
  have ports : lanePorts [7000, 7004] 2 4 =
      some [7000, 7004, 7005, 7009] := by decide
  exact ⟨ports,
    ((lanePorts_distinct [7000, 7004] 2 4 (by simp)).1 _ ports).2.1⟩

end LanePorts
end Fabric
end Mcdma
