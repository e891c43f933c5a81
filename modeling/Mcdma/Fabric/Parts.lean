import Mcdma.Fabric.Sender
import Mcdma.Lib.Checked

/-!
# Dividing a write over the links

`bond_parts` gives every link a least part and the rest in proportion to its
measured rate; the last link takes what is left by rounding.  The computation
is written out here once more with checked arithmetic: it never overflows, never
divides by zero and arrives at the parts of the sender's model.
-/

namespace Mcdma
namespace Fabric
namespace Parts

/-- The largest measured rate. -/
def fastest (load : Nat → Load) (n : Nat) : Nat :=
  (List.range n).foldl (fun rate lane => max rate (load lane).rate) 0

/-- The rate a link is taken to have: not below a third of the fastest, and
capped. -/
def rate (load : Nat → Load) (n lane : Nat) : Nat :=
  let measured := if (load lane).rate ≠ 0 then (load lane).rate else bondRate
  min (max measured (fastest load n / 3)) (2 ^ 20)

/-- The sum over the first links. -/
def total (count : Nat → Nat) (n : Nat) : Nat :=
  (List.range n).foldl (fun sum lane => sum + count lane) 0

/-- The least part of every link. -/
def least (n len : Nat) : Nat := min (len / n / 64 * 64) bondPart

/-- What the least parts leave. -/
def rest (n len : Nat) : Nat := len - n * least n len

/-- A link's share of the rest. -/
def share (load : Nat → Load) (n len lane : Nat) : Nat :=
  let sum := total (rate load n) n
  rest n len / sum * rate load n lane +
    rest n len % sum * rate load n lane / sum

/-- The part of a link before the last. -/
def part (load : Nat → Load) (n len lane : Nat) : Nat :=
  least n len + share load n len lane / 64 * 64

/-- One pass of the loop over the links before the last, in checked
arithmetic. -/
def fill (sum minimum rest rate lane : Nat) (filled : (Nat → Nat) × Nat) :
    Option ((Nat → Nat) × Nat) := do
  let whole ← Checked.div rest sum
  let whole ← Checked.mul whole rate
  let left ← Checked.mod rest sum
  let left ← Checked.mul left rate
  let left ← Checked.div left sum
  let share ← Checked.add whole left
  let even ← Checked.mul (share / 64) 64
  let size ← Checked.add minimum even
  let used ← Checked.add filled.2 size
  some (Function.update filled.1 lane size, used)

/-- `bond_parts` with checked arithmetic. -/
def bondPartsChecked (load : Nat → Load) (n len : Nat) :
    Option (Nat → Nat) := do
  let sum ← (List.range n).foldlM
    (fun sum lane => Checked.add sum (rate load n lane)) 0
  let quotient ← Checked.div len n
  let even ← Checked.mul (quotient / 64) 64
  let minimum := min even bondPart
  let taken ← Checked.mul n minimum
  let rest ← Checked.sub len taken
  let filled ← (List.range (n - 1)).foldlM
    (fun filled lane => fill sum minimum rest (rate load n lane) lane filled)
    (fun _ => 0, 0)
  let last ← Checked.sub len filled.2
  some (Function.update filled.1 (n - 1) last)

theorem bondParts_eq (load : Nat → Load) (n len lane : Nat) :
    bondParts load n len lane =
      if lane + 1 < n then part load n len lane
      else len - total (part load n len) (n - 1) := rfl

theorem total_succ (count : Nat → Nat) (n : Nat) :
    total count (n + 1) = total count n + count n := by
  rw [total, List.range_succ, List.foldl_append]
  rfl

theorem total_eq_sum (count : Nat → Nat) (n : Nat) :
    ((List.range n).map count).sum = total count n := by
  induction n with
  | zero => rfl
  | succ n inductionHypothesis =>
      rw [List.range_succ, List.map_append, List.sum_append,
        inductionHypothesis, total_succ]
      simp

theorem total_congr {first second : Nat → Nat} {n : Nat}
    (same : ∀ lane < n, first lane = second lane) :
    total first n = total second n := by
  rw [← total_eq_sum, ← total_eq_sum]
  congr 1
  refine List.map_congr_left fun lane member => ?_
  exact same lane (List.mem_range.mp member)

theorem total_mono (count : Nat → Nat) {few many : Nat} (le : few ≤ many) :
    total count few ≤ total count many := by
  induction le with
  | refl => exact Nat.le_refl _
  | step _ inductionHypothesis =>
      rw [total_succ]
      omega

variable {load : Nat → Load} {n len : Nat}

theorem rate_pos (lane : Nat) : 0 < rate load n lane := by
  have measured : 0 < (if (load lane).rate ≠ 0 then (load lane).rate
      else bondRate) := by
    split
    · omega
    · decide
  simp only [rate]
  omega

theorem rate_le (lane : Nat) : rate load n lane ≤ 2 ^ 20 :=
  Nat.min_le_right _ _

theorem total_rate_le (load : Nat → Load) (n count : Nat) :
    total (rate load n) count ≤ count * 2 ^ 20 := by
  induction count with
  | zero => exact Nat.zero_le _
  | succ count inductionHypothesis =>
      have capped : rate load n count ≤ 2 ^ 20 := rate_le count
      rw [total_succ]
      omega

theorem total_rate_pos (load : Nat → Load) (two : 2 ≤ n) :
    0 < total (rate load n) n := by
  have one : total (rate load n) 1 ≤ total (rate load n) n :=
    total_mono _ (by omega)
  have positive : 0 < rate load n 0 := rate_pos 0
  have single : total (rate load n) 1 = 0 + rate load n 0 := rfl
  omega

/-- The two halves of a share are the rounded product. -/
theorem share_eq (sum : 0 < total (rate load n) n) (len lane : Nat) :
    share load n len lane =
      rest n len * rate load n lane / total (rate load n) n := by
  have whole := Nat.div_add_mod (rest n len) (total (rate load n) n)
  simp only [share]
  conv_rhs => rw [← whole]
  rw [Nat.add_mul, Nat.mul_assoc, Nat.mul_add_div sum]

theorem share_mul_le (sum : 0 < total (rate load n) n) (len lane : Nat) :
    share load n len lane * total (rate load n) n ≤
      rest n len * rate load n lane := by
  rw [share_eq sum]
  exact Nat.div_mul_le_self _ _

/-- The shares of some links are no more than the rest. -/
theorem total_share_le (load : Nat → Load) (len : Nat) (two : 2 ≤ n)
    {count : Nat} (few : count ≤ n) :
    total (share load n len) count ≤ rest n len := by
  have sum := total_rate_pos load two
  have weighed : ∀ m, total (share load n len) m * total (rate load n) n ≤
      rest n len * total (rate load n) m := by
    intro m
    induction m with
    | zero => simp [total]
    | succ m inductionHypothesis =>
        have one := share_mul_le sum len m
        rw [total_succ, total_succ, Nat.add_mul, Nat.mul_add]
        omega
  refine Nat.le_of_mul_le_mul_right ?_ sum
  refine (weighed count).trans ?_
  exact Nat.mul_le_mul_left _ (total_mono _ few)

theorem least_mul_le (n len : Nat) : n * least n len ≤ len := by
  have below : least n len ≤ len / n := by
    have rounded := Nat.div_mul_le_self (len / n) 64
    simp only [least]
    omega
  refine (Nat.mul_le_mul_left n below).trans ?_
  exact Nat.mul_div_le len n

/-- Each part rounds its share down. -/
theorem total_part_le (load : Nat → Load) (n len count : Nat) :
    total (part load n len) count ≤
      count * least n len + total (share load n len) count := by
  induction count with
  | zero => exact Nat.zero_le _
  | succ count inductionHypothesis =>
      have rounded := Nat.div_mul_le_self (share load n len count) 64
      rw [total_succ, total_succ, part, Nat.succ_mul]
      omega

/-- The last link is left with its least part. -/
theorem least_le_last (load : Nat → Load) (len : Nat) (two : 2 ≤ n) :
    total (part load n len) (n - 1) + least n len ≤ len := by
  have parts := total_part_le load n len (n - 1)
  have shares := total_share_le load len two (by omega : n - 1 ≤ n)
  have covers := least_mul_le n len
  have whole : n * least n len = (n - 1) * least n len + least n len := by
    rw [← Nat.succ_mul]
    congr 1
    omega
  rw [rest] at shares
  omega

theorem least_eq : least n len = min 2048 (64 * (len / n / 64)) := by
  rw [least, Nat.mul_comm 64, Nat.min_comm]
  rfl

theorem least_pos (two : 2 ≤ n) (few : n ≤ 24) (large : 40 * 1024 ≤ len) :
    0 < least n len := by
  have enough : 64 ≤ len / n := by
    rw [Nat.le_div_iff_mul_le (by omega)]
    omega
  rw [least_eq]
  have one : 1 ≤ len / n / 64 := by omega
  omega

/-- A part is a least part and a multiple of 64. -/
theorem dvd_part (lane : Nat) : 64 ∣ part load n len lane := by
  have least64 : 64 ∣ least n len := by
    rw [least]
    rcases Nat.le_total (len / n / 64 * 64) bondPart with le | le
    · rw [Nat.min_eq_left le]
      exact Nat.dvd_mul_left _ _
    · rw [Nat.min_eq_right le]
      decide
  exact Nat.dvd_add least64 (Nat.dvd_mul_left _ _)

theorem bondParts_early {lane : Nat} (below : lane + 1 < n) :
    bondParts load n len lane = part load n len lane := by
  rw [bondParts_eq, if_pos below]

theorem bondParts_last (two : 2 ≤ n) :
    bondParts load n len (n - 1) =
      len - total (part load n len) (n - 1) := by
  rw [bondParts_eq, if_neg (by omega)]

/-- The parts make up the write. -/
theorem total_bondParts (load : Nat → Load) (len : Nat) (two : 2 ≤ n) :
    total (bondParts load n len) n = len := by
  have last := least_le_last load len two
  have upto : total (bondParts load n len) (n - 1) =
      total (part load n len) (n - 1) :=
    total_congr fun lane below => bondParts_early (by omega)
  have whole : total (bondParts load n len) (n - 1 + 1) = len := by
    rw [total_succ, upto, bondParts_last two]
    omega
  rwa [Nat.sub_add_cancel (by omega)] at whole

/-- Every link has its least part. -/
theorem least_le_bondParts (two : 2 ≤ n) {lane : Nat} (below : lane < n) :
    least n len ≤ bondParts load n len lane := by
  rcases Nat.lt_or_ge (lane + 1) n with before | beyond
  · rw [bondParts_early before]
    exact Nat.le_add_right _ _
  · have last := least_le_last load len two
    obtain rfl : lane = n - 1 := by omega
    rw [bondParts_last two]
    omega

/-- What the loop over the links before the last has filled in. -/
def filledTo (load : Nat → Load) (n len count : Nat) :
    (Nat → Nat) × Nat :=
  (fun lane => if lane < count then part load n len lane else 0,
    total (part load n len) count)

theorem filledTo_succ (load : Nat → Load) (n len count : Nat) :
    filledTo load n len (count + 1) =
      (Function.update (filledTo load n len count).1 count
        (part load n len count),
        (filledTo load n len count).2 + part load n len count) := by
  refine Prod.ext ?_ (total_succ _ _)
  funext lane
  simp only [filledTo, Function.update_apply]
  by_cases same : lane = count
  · subst same
    simp
  · have next : lane < count + 1 ↔ lane < count := by omega
    simp [same, next]

/-- A link's share is no more than the rest. -/
theorem share_le (two : 2 ≤ n) (len : Nat) {lane : Nat} (few : lane < n) :
    share load n len lane ≤ rest n len := by
  have upto := total_share_le load len two (Nat.succ_le_of_lt few)
  rw [Nat.succ_eq_add_one, total_succ] at upto
  omega

/-- Some links' parts leave the last link its least part. -/
theorem total_part_le_len (load : Nat → Load) (len : Nat) (two : 2 ≤ n)
    {count : Nat} (few : count ≤ n - 1) :
    total (part load n len) count ≤ len := by
  have last := least_le_last load len two
  have upto := total_mono (part load n len) few
  omega

section Steps

variable (two : 2 ≤ n) (few : n ≤ 24) (word : len < 2 ^ 64)

include two few

/-- The rates add up without overflow. -/
theorem sum_checked (load : Nat → Load) :
    (List.range n).foldlM
        (fun sum lane => Checked.add sum (rate load n lane)) 0 =
      some (total (rate load n) n) := by
  refine Checked.foldlM_range _ (total (rate load n)) n fun lane below => ?_
  have bounded := total_rate_le load n (lane + 1)
  rw [total_succ] at bounded ⊢
  exact Checked.add_eq (by omega)

include word

/-- One link's part computes without overflow. -/
theorem fill_eq {lane : Nat} (below : lane < n - 1) :
    fill (total (rate load n) n) (least n len) (rest n len)
        (rate load n lane) lane (filledTo load n len lane) =
      some (filledTo load n len (lane + 1)) := by
  have positive : 0 < total (rate load n) n := total_rate_pos load two
  have capped : total (rate load n) n ≤ n * 2 ^ 20 := total_rate_le load n n
  have restLt : rest n len < 2 ^ 64 := by
    rw [rest]
    omega
  have leftLt : rest n len % total (rate load n) n * rate load n lane <
      2 ^ 64 := by
    have small : rest n len % total (rate load n) n ≤ 24 * 2 ^ 20 := by
      have below := Nat.mod_lt (rest n len) positive
      omega
    calc rest n len % total (rate load n) n * rate load n lane
        ≤ (24 * 2 ^ 20) * 2 ^ 20 := Nat.mul_le_mul small (rate_le lane)
      _ < 2 ^ 64 := by decide
  have shareLe : share load n len lane ≤ rest n len :=
    share_le two len (by omega)
  have shareDef : share load n len lane =
      rest n len / total (rate load n) n * rate load n lane +
        rest n len % total (rate load n) n * rate load n lane /
          total (rate load n) n := rfl
  have wholeLe : rest n len / total (rate load n) n * rate load n lane ≤
      share load n len lane := Nat.le_add_right _ _
  have rounded := Nat.div_mul_le_self (share load n len lane) 64
  have usedLe : total (part load n len) (lane + 1) ≤ len :=
    total_part_le_len load len two (by omega)
  rw [total_succ] at usedLe
  have partDef : part load n len lane =
      least n len + share load n len lane / 64 * 64 := rfl
  refine Checked.bind_eq (Checked.div_eq positive.ne') ?_
  refine Checked.bind_eq (Checked.mul_eq (by omega)) ?_
  refine Checked.bind_eq (Checked.mod_eq positive.ne') ?_
  refine Checked.bind_eq (Checked.mul_eq leftLt) ?_
  refine Checked.bind_eq (Checked.div_eq positive.ne') ?_
  refine Checked.bind_eq (Checked.add_eq (by omega)) ?_
  rw [← shareDef]
  refine Checked.bind_eq (Checked.mul_eq (by omega)) ?_
  refine Checked.bind_eq (Checked.add_eq (by omega)) ?_
  rw [← partDef]
  refine Checked.bind_eq (Checked.add_eq (by omega :
    total (part load n len) lane + part load n len lane < 2 ^ 64)) ?_
  rw [filledTo_succ]

/-- The computation never overflows and arrives at the parts. -/
theorem bondPartsChecked_eq (load : Nat → Load) :
    bondPartsChecked load n len =
      some (Function.update (filledTo load n len (n - 1)).1 (n - 1)
        (len - total (part load n len) (n - 1))) := by
  have rounded := Nat.div_mul_le_self (len / n) 64
  have small := Nat.div_le_self len n
  have leastMul := least_mul_le n len
  have used := total_part_le_len load len two (Nat.le_refl (n - 1))
  have loop := Checked.foldlM_range
    (fun filled lane => fill (total (rate load n) n) (least n len)
      (rest n len) (rate load n lane) lane filled)
    (filledTo load n len) (n - 1)
    fun lane below => fill_eq two few word below
  refine Checked.bind_eq (sum_checked two few load) ?_
  refine Checked.bind_eq (Checked.div_eq (by omega)) ?_
  refine Checked.bind_eq (Checked.mul_eq (by omega)) ?_
  refine Checked.bind_eq
    (Checked.mul_eq (by omega : n * least n len < 2 ^ 64)) ?_
  refine Checked.bind_eq (Checked.sub_eq leastMul) ?_
  refine Checked.bind_eq loop ?_
  exact Checked.bind_eq (Checked.sub_eq used) rfl

end Steps

/-- A write of 40 KiB and more over two to twenty-four links, whatever rates
they measured: every operation of `bond_parts` fits 64 bits and divides by
something, and the parts make up the write, each at least the least part and
some byte, all but the last a multiple of 64. -/
theorem bondParts_divides (load : Nat → Load) (n len : Nat) (two : 2 ≤ n)
    (few : n ≤ 24) (large : 40 * 1024 ≤ len) (word : len < 2 ^ 64) :
    ∃ sizes, bondPartsChecked load n len = some sizes ∧
      (∀ lane < n, sizes lane = bondParts load n len lane) ∧
      ((List.range n).map sizes).sum = len ∧
      (∀ lane < n, min 2048 (64 * (len / n / 64)) ≤ sizes lane ∧
        0 < sizes lane) ∧
      ∀ lane, lane + 1 < n → 64 ∣ sizes lane := by
  have positive := least_pos two few large
  obtain ⟨sizes, sizesDef⟩ : ∃ sizes, sizes = Function.update
    (filledTo load n len (n - 1)).1 (n - 1)
    (len - total (part load n len) (n - 1)) := ⟨_, rfl⟩
  have same : ∀ lane < n, sizes lane = bondParts load n len lane := by
    intro lane below
    rw [sizesDef, bondParts_eq]
    by_cases before : lane + 1 < n
    · rw [Function.update_of_ne (by omega), if_pos before]
      exact if_pos (by omega)
    · obtain rfl : lane = n - 1 := by omega
      rw [Function.update_self, if_neg before]
  refine ⟨sizes, ?_, same, ?_, ?_, ?_⟩
  · rw [bondPartsChecked_eq two few word load, sizesDef]
  · rw [total_eq_sum, total_congr same, total_bondParts load len two]
  · intro lane below
    have enough : least n len ≤ bondParts load n len lane :=
      least_le_bondParts two below
    rw [← least_eq, same lane below]
    exact ⟨enough, by omega⟩
  · intro lane below
    rw [same lane (by omega), bondParts_early below]
    exact dvd_part lane

/-- Two links, one unmeasured and one faster than any, and 40 KiB. -/
theorem bondParts_divides_two :
    ∃ sizes, bondPartsChecked
        (fun lane => if lane = 0 then ⟨0, 0, 4096⟩ else ⟨0, 2 ^ 64 - 1, 4096⟩)
        2 40960 = some sizes ∧
      sizes 0 + sizes 1 = 40960 ∧ 2048 ≤ sizes 0 ∧ 2048 ≤ sizes 1 ∧
      64 ∣ sizes 0 := by
  obtain ⟨sizes, runs, _, sum, least, even⟩ := bondParts_divides
    (fun lane => if lane = 0 then ⟨0, 0, 4096⟩ else ⟨0, 2 ^ 64 - 1, 4096⟩)
    2 40960 (by decide) (by decide) (by decide) (by decide)
  refine ⟨sizes, runs, ?_, (least 0 (by decide)).1, (least 1 (by decide)).1,
    even 0 (by decide)⟩
  simpa [List.range_succ] using sum

end Parts
end Fabric
end Mcdma
