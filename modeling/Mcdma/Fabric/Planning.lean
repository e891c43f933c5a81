import Mcdma.Fabric.Contract
import Mcdma.Lib.Arith
import Mcdma.Link.Pair

/-!
# Planning a write over two links

`bond_plan` cuts a long write so that both links finish together, or puts all
of it on the link that finishes first.  It is written here over the arithmetic
it computes with.  Whatever it plans, its two messages can be posted: the head's
part and the tail each lie in one registration and in their link's limit, and
the tail never reads as a head.
-/

namespace Mcdma
namespace Fabric
namespace Planning

open Link (Region tbTailClean)

section

variable {m : Type → Type} [Monad m] (ops : Arith m)

/-- `bond_finish`. -/
def bondFinish (load : Load) (bytes : Nat) : m Nat := do
  let sum ← ops.add load.backlog bytes
  let nanos ← ops.mul sum 1000
  ops.div nanos load.rate

/-- `bond_pick`: the link that would finish first, and the next turn. -/
def bondPick (turn : Nat) (load : Nat → Load) (bytes : Nat) :
    m (Nat × Nat) := do
  let first ← bondFinish ops (load 0) bytes
  let second ← bondFinish ops (load 1) bytes
  let lane := if second < first then 1 else 0
  let soon := min first second
  let late := max first second
  let gap ← ops.sub late soon
  pure (if gap ≤ late / 4 then (turn % 2, (turn + 1) % 2) else (lane, turn))

/-- Bytes that the head's message can carry in its registration, if the head
itself lies in the registration of the first byte. -/
def room (win : Region) (off : Nat) : m (Option Nat) := do
  let start ← ops.sub off wsRoom
  if start / win.seg ≠ off / win.seg then pure none
  else
    let next ← ops.add (start / win.seg) 1
    let stop ← ops.mul next win.seg
    let room ← ops.sub stop off
    pure (some room)

/-- The first link's share of the bytes: where both links would finish
together. -/
def share (load : Nat → Load) (len : Nat) : m Nat := do
  let r0 : Int := (load 0).rate
  let r1 : Int := (load 1).rate
  let thrice ← ops.mulInt 3 r1
  let r0 := if thrice < r0 then thrice else r0
  let thrice ← ops.mulInt 3 r0
  let r1 := if thrice < r1 then thrice else r1
  let sum ← ops.add (load 1).backlog len
  let sum ← ops.toInt sum
  let queue ← ops.toInt (load 0).backlog
  let ahead ← ops.mulInt r0 sum
  let behind ← ops.mulInt r1 queue
  let gap ← ops.subInt ahead behind
  let both ← ops.addInt r0 r1
  let x ← ops.divInt gap both
  pure (if x < 0 then 0 else if (len : Int) < x then len else x.toNat)

/-- A lower end raised to a difference, where that is positive and larger. -/
def raise (low first second : Nat) : m Nat :=
  if second < first then do
    let excess ← ops.sub first second
    pure (if low < excess then excess else low)
  else pure low

/-- The least and the most that the head's message may carry. -/
def bounds (win : Region) (off len room mine other : Nat) :
    m (Nat × Nat) := do
  let stop ← ops.add off len
  let last ← ops.sub stop 1
  let last ← ops.mul (last / win.seg) win.seg
  let high ← ops.sub len bondPart
  let low ← raise ops bondPart last off
  let low ← raise ops low len other
  let carry ← (if wsRoom < mine then ops.sub mine wsRoom else pure 0)
  pure (low, min (min high room) carry)

/-- The head's message in whole packets, where it can be. -/
def packed (first : Nat) : m Nat := do
  let sum ← ops.add first wsRoom
  let sum ← ops.add sum (Link.tbPacket / 2)
  let whole ← ops.mul (sum / Link.tbPacket) Link.tbPacket
  if wsRoom < whole then ops.sub whole wsRoom else pure first

/-- A number moved into a range. -/
def clamp (low high first : Nat) : Nat :=
  if first < low then low else if high < first then high else first

/-- The cut moved by a byte where the tail would begin with a head's magic. -/
def nudge (win : Region) (off high first : Nat) : m Nat := do
  let place ← ops.add off first
  if tbTailClean win.mem win.length place = false then
    if first < high then ops.add first 1 else ops.sub first 1
  else pure first

/-- The cut of a long write, if there is one. -/
def cut (win : Region) (load : Nat → Load) (off len room turn : Nat) :
    m (Option Plan) := do
  let portion ← share ops load len
  let rest ← ops.sub len portion
  let h := turn % 2
  let range ← bounds ops win off len room (load h).max (load (1 - h)).max
  let whole ← packed ops (if h ≠ 0 then rest else portion)
  let first ← nudge ops win off range.2 (clamp range.1 range.2 whole)
  if bondPart ≤ portion ∧ bondPart ≤ rest ∧ range.1 ≤ range.2 ∧
      range.1 ≤ first ∧ first ≤ range.2 then
    let place ← ops.add off first
    pure (if tbTailClean win.mem win.length place = true then
      some ⟨h, first⟩ else none)
  else pure none

/-- A write that goes whole, on the link that finishes it first if that link
can carry it. -/
def uncut (load : Nat → Load) (len room turn : Nat) :
    m (Option Plan × Nat) := do
  let picked ← bondPick ops turn load len
  let need ← ops.add wsRoom len
  let fits := fun lane => decide (len ≤ room ∧ need ≤ (load lane).max)
  pure (
    if fits picked.1 then (some ⟨picked.1, len⟩, picked.2)
    else if fits (1 - picked.1) then (some ⟨1 - picked.1, len⟩, picked.2)
    else (none, picked.2))

/-- `bond_plan`: how a write goes as one message a link, if it can, and the
next turn. -/
def bondPlan (win : Region) (load : Nat → Load) (off len turn : Nat) :
    m (Option Plan × Nat) := do
  match ← room ops win off with
  | none => pure (none, turn)
  | some room =>
      let cut ← (if bondSplit ≤ len then cut ops win load off len room turn
        else pure none)
      match cut with
      | some plan =>
          pure (some plan, if turn % 2 = 0 then turn + 1 else turn - 1)
      | none => uncut ops load len room turn

end

/-! ## Can a link post it -/

/-- `tb_message_max`, of a link that may have no Thunderbolt end. -/
def tbMessageMax : Option Link.Flow → Nat
  | none => 0
  | some flow => flow.max

/-- `tb_can_bond_write_signal`: refused, waiting, possible, or more than one
message can carry. -/
def tbCanBondWriteSignal (e : Option Link.Flow) (src : Region)
    (off len : Nat) : Int :=
  match e with
  | none => -1
  | some flow =>
      if flow.poisoned ∨ src.length < off ∨ len = 0 ∨ src.length - off < len ∨
          flow.max = 0 then -1
      else if off < Link.bondWsHead ∨ flow.max < len ∨
          flow.max - len < Link.bondWsHead ∨
          (off - Link.bondWsHead) / src.seg ≠ (off + len - 1) / src.seg then 2
      else if flow.canFused (Link.bondWsHead + len) then 1 else 0

/-- `tb_can_bond_tail`, with the same answers. -/
def tbCanBondTail (e : Option Link.Flow) (src : Region) (off len : Nat) :
    Int :=
  match e with
  | none => -1
  | some flow =>
      if flow.poisoned ∨ src.length < off ∨ len = 0 ∨ src.length - off < len ∨
          flow.max = 0 then -1
      else if flow.max < len ∨ off / src.seg ≠ (off + len - 1) / src.seg ∨
          tbTailClean src.mem src.length off = false then 2
      else if flow.canFused len then 1 else 0

/-- The parts of a plan fit one message each. -/
structure Postable (win : Region) (load : Nat → Load) (off len : Nat)
    (plan : Plan) : Prop where
  link : plan.head < 2
  positive : 0 < plan.first
  le : plan.first ≤ len
  headroom : wsRoom ≤ off
  together : (off - wsRoom) / win.seg = (off + plan.first - 1) / win.seg
  carried : wsRoom + plan.first ≤ (load plan.head).max
  tailTogether : plan.first < len →
    (off + plan.first) / win.seg = (off + len - 1) / win.seg
  tailCarried : len - plan.first ≤ (load (1 - plan.head)).max ∨
    plan.first = len
  tailClean : plan.first < len →
    tbTailClean win.mem win.length (off + plan.first) = true

/-- A write that a caller may ask to plan: it lies in the source window, and
the links' figures are in the range of real ones. -/
structure Offered (win : Region) (load : Nat → Load) (off len : Nat) :
    Prop where
  headroom : wsRoom ≤ off
  nonempty : 0 < len
  len_le : len ≤ 2 ^ 40
  inside : off + len ≤ win.length
  length_lt : win.length < 2 ^ 64
  seg_lt : win.seg < 2 ^ 64
  backlog : ∀ lane < 2, (load lane).backlog < 2 ^ 40
  rate_pos : ∀ lane < 2, 0 < (load lane).rate
  rate_lt : ∀ lane < 2, (load lane).rate < 2 ^ 20
  max_lt : ∀ lane < 2, (load lane).max < 2 ^ 64

/-! ## The same plan in every arithmetic -/

section

open Arith

variable {ops : Arith Id} (sound : ops.Sound)
variable {win : Region} {load : Nat → Load} {off len turn : Nat}

include sound

theorem bondFinish_agrees (load : Load) (bytes : Nat) :
    Agrees (bondFinish checked load bytes) (bondFinish ops load bytes) := by
  refine .bind (sound.add _ _) fun _ => ?_
  refine .bind (sound.mul _ _) fun _ => ?_
  exact sound.div _ _

theorem bondPick_agrees (turn : Nat) (load : Nat → Load) (bytes : Nat) :
    Agrees (bondPick checked turn load bytes)
      (bondPick ops turn load bytes) := by
  refine .bind (bondFinish_agrees sound _ _) fun _ => ?_
  refine .bind (bondFinish_agrees sound _ _) fun _ => ?_
  refine .bind (sound.sub _ _) fun _ => ?_
  exact .returns _

theorem room_agrees (win : Region) (off : Nat) :
    Agrees (room checked win off) (room ops win off) := by
  refine .bind (sound.sub _ _) fun _ => .ite (.returns _) ?_
  refine .bind (sound.add _ _) fun _ => ?_
  refine .bind (sound.mul _ _) fun _ => ?_
  refine .bind (sound.sub _ _) fun _ => ?_
  exact .returns _

theorem share_agrees (load : Nat → Load) (len : Nat) :
    Agrees (share checked load len) (share ops load len) := by
  refine .bind (sound.mulInt _ _) fun _ => ?_
  refine .bind (sound.mulInt _ _) fun _ => ?_
  refine .bind (sound.add _ _) fun _ => ?_
  refine .bind (sound.toInt _) fun _ => ?_
  refine .bind (sound.toInt _) fun _ => ?_
  refine .bind (sound.mulInt _ _) fun _ => ?_
  refine .bind (sound.mulInt _ _) fun _ => ?_
  refine .bind (sound.subInt _ _) fun _ => ?_
  refine .bind (sound.addInt _ _) fun _ => ?_
  refine .bind (sound.divInt _ _) fun _ => ?_
  exact .returns _

theorem raise_agrees (low first second : Nat) :
    Agrees (raise checked low first second) (raise ops low first second) := by
  unfold raise
  exact .ite (.bind (sound.sub _ _) fun _ => .returns _) (.returns _)

theorem bounds_agrees (win : Region) (off len room mine other : Nat) :
    Agrees (bounds checked win off len room mine other)
      (bounds ops win off len room mine other) := by
  refine .bind (sound.add _ _) fun _ => ?_
  refine .bind (sound.sub _ _) fun _ => ?_
  refine .bind (sound.mul _ _) fun _ => ?_
  refine .bind (sound.sub _ _) fun _ => ?_
  refine .bind (raise_agrees sound _ _ _) fun _ => ?_
  refine .bind (raise_agrees sound _ _ _) fun _ => ?_
  refine .bind (.ite (sound.sub _ _) (.returns _)) fun _ => ?_
  exact .returns _

theorem packed_agrees (first : Nat) :
    Agrees (packed checked first) (packed ops first) := by
  refine .bind (sound.add _ _) fun _ => ?_
  refine .bind (sound.add _ _) fun _ => ?_
  refine .bind (sound.mul _ _) fun _ => ?_
  exact .ite (sound.sub _ _) (.returns _)

theorem nudge_agrees (win : Region) (off high first : Nat) :
    Agrees (nudge checked win off high first)
      (nudge ops win off high first) := by
  refine .bind (sound.add _ _) fun _ => ?_
  exact .ite (.ite (sound.add _ _) (sound.sub _ _)) (.returns _)

theorem cut_agrees (win : Region) (load : Nat → Load)
    (off len room turn : Nat) :
    Agrees (cut checked win load off len room turn)
      (cut ops win load off len room turn) := by
  refine .bind (share_agrees sound _ _) fun _ => ?_
  refine .bind (sound.sub _ _) fun _ => ?_
  refine .bind (bounds_agrees sound _ _ _ _ _ _) fun _ => ?_
  refine .bind (packed_agrees sound _) fun _ => ?_
  refine .bind (nudge_agrees sound _ _ _ _) fun _ => ?_
  exact .ite (.bind (sound.add _ _) fun _ => .returns _) (.returns _)

theorem uncut_agrees (load : Nat → Load) (len room turn : Nat) :
    Agrees (uncut checked load len room turn)
      (uncut ops load len room turn) := by
  refine .bind (bondPick_agrees sound _ _ _) fun _ => ?_
  refine .bind (sound.add _ _) fun _ => ?_
  exact .returns _

/-- A plan made without wrapping is the plan of any sound arithmetic. -/
theorem bondPlan_agrees (win : Region) (load : Nat → Load)
    (off len turn : Nat) :
    Agrees (bondPlan checked win load off len turn)
      (bondPlan ops win load off len turn) := by
  refine .bind (room_agrees sound _ _) fun room => ?_
  cases room with
  | none => exact .returns _
  | some room =>
      refine .bind (.ite (cut_agrees sound _ _ _ _ _ _) (.returns _)) fun cut => ?_
      cases cut with
      | none => exact uncut_agrees sound _ _ _ _
      | some plan => exact .returns _

end

/-! ## What the machine plans -/

section

open Arith

variable {win : Region} {load : Nat → Load} {off len turn : Nat}

/-- The end of the registration that holds an offset lies past it by at most a
registration. -/
theorem stop_bounds (win : Region) (off : Nat) :
    off < (off / win.seg + 1) * win.seg ∧
      (off / win.seg + 1) * win.seg ≤ off + win.seg := by
  have divided := Nat.div_add_mod off win.seg
  have left := Nat.mod_lt off win.segPos
  rw [Nat.add_mul, Nat.one_mul, Nat.mul_comm (off / win.seg)]
  omega

/-- The room of a head's message, also where the product wraps. -/
theorem room_machine (offered : Offered win load off len) {found : Nat}
    (got : (room machine win off).run = some found) :
    (off - wsRoom) / win.seg = off / win.seg ∧
      found = (off / win.seg + 1) * win.seg - off := by
  have start : machine.sub off wsRoom = pure (off - wsRoom) :=
    congrArg pure (if_pos offered.headroom)
  unfold room at got
  rw [start, pure_bind] at got
  split at got
  · cases got
  rename_i near
  have same : (off - wsRoom) / win.seg = off / win.seg := not_not.mp near
  refine ⟨same, ?_⟩
  have quotient := Nat.div_le_self off win.seg
  have inside := offered.inside
  have nonempty := offered.nonempty
  have lengthLt := offered.length_lt
  have next : machine.add (off / win.seg) 1 = pure (off / win.seg + 1) :=
    congrArg pure (Nat.mod_eq_of_lt (by omega))
  rw [same, next, pure_bind] at got
  obtain ⟨after, near⟩ := stop_bounds win off
  have segLt := offered.seg_lt
  have value := (Option.some.inj got).symm
  change found = if off ≤ (off / win.seg + 1) * win.seg % 2 ^ 64 then
    (off / win.seg + 1) * win.seg % 2 ^ 64 - off
    else (off / win.seg + 1) * win.seg % 2 ^ 64 + 2 ^ 64 - off at value
  generalize (off / win.seg + 1) * win.seg = stop at *
  rw [value]
  by_cases fits : stop < 2 ^ 64
  · rw [Nat.mod_eq_of_lt fits, if_pos (by omega)]
  · have wrapped : stop % 2 ^ 64 = stop - 2 ^ 64 := by
      rw [Nat.mod_eq_sub_mod (by omega), Nat.mod_eq_of_lt (by omega)]
    rw [wrapped, if_neg (by omega)]
    omega

end

/-! ## No step of a plan wraps -/

section

open Arith

variable {win : Region} {load : Nat → Load} {off len turn : Nat}

theorem bondFinish_yields (offered : Offered win load off len) {lane : Nat}
    (below : lane < 2) :
    Yields (bondFinish checked (load lane) len) fun _ => True := by
  have backlog := offered.backlog lane below
  have rate := offered.rate_pos lane below
  have lenLe := offered.len_le
  refine (Yields.add (by omega)).bind ?_
  rintro _ rfl
  refine (Yields.mul (by omega)).bind ?_
  rintro _ rfl
  exact (Yields.div (by omega)).mono fun _ _ => trivial

theorem bondPick_yields (offered : Offered win load off len) (turn : Nat) :
    Yields (bondPick checked turn load len) fun picked => picked.1 < 2 := by
  refine (bondFinish_yields offered (by omega)).bind fun first _ => ?_
  refine (bondFinish_yields offered (by omega)).bind fun second _ => ?_
  refine (Yields.sub (le_trans (min_le_left _ _) (le_max_left _ _))).bind ?_
  rintro _ rfl
  refine Yields.returns ?_
  split
  · exact Nat.mod_lt _ (by omega)
  · split <;> omega

theorem room_yields (offered : Offered win load off len)
    (fits : ((off - wsRoom) / win.seg + 1) * win.seg < 2 ^ 64) :
    Yields (room checked win off) fun _ => True := by
  have nonempty := offered.nonempty
  have inside := offered.inside
  have lengthLt := offered.length_lt
  refine (Yields.sub offered.headroom).bind ?_
  rintro _ rfl
  refine Yields.ite (fun _ => .returns trivial) fun near => ?_
  have same : (off - wsRoom) / win.seg = off / win.seg := not_not.mp near
  have quotient := Nat.div_le_self (off - wsRoom) win.seg
  refine (Yields.add (by omega)).bind ?_
  rintro _ rfl
  refine (Yields.mul fits).bind ?_
  rintro _ rfl
  refine (Yields.sub ?_).bind fun _ _ => .returns trivial
  rw [same]
  exact (stop_bounds win off).1.le

/-- A rate no further than three times another. -/
theorem capped_bounds (first second : Int) (positive : 0 < first)
    (other : 0 < second) :
    0 < (if 3 * second < first then 3 * second else first) ∧
      (if 3 * second < first then 3 * second else first) ≤ first := by
  split <;> omega

/-- The weighted difference of two loads stays far below the word. -/
theorem weighted_bounds (rate0 rate1 : Int) (ahead queue : Nat)
    (pos0 : 0 < rate0) (lt0 : rate0 < 2 ^ 20) (pos1 : 0 < rate1)
    (lt1 : rate1 < 2 ^ 20) (aheadLt : ahead < 2 ^ 42)
    (queueLt : queue < 2 ^ 42) :
    0 ≤ rate0 * ahead ∧ rate0 * ahead < half ∧ 0 ≤ rate1 * queue ∧
      rate1 * queue < half := by
  have first : rate0 * ahead ≤ 2 ^ 20 * 2 ^ 42 :=
    Int.mul_le_mul lt0.le (by omega) (by omega) (by omega)
  have second : rate1 * queue ≤ 2 ^ 20 * 2 ^ 42 :=
    Int.mul_le_mul lt1.le (by omega) (by omega) (by omega)
  have below : (2 ^ 20 * 2 ^ 42 : Int) < half := by decide
  refine ⟨Int.mul_nonneg pos0.le (by omega), by omega,
    Int.mul_nonneg pos1.le (by omega), by omega⟩

theorem share_yields (offered : Offered win load off len) :
    Yields (share checked load len) fun portion => portion ≤ len := by
  have pos0 := offered.rate_pos 0 (by omega)
  have pos1 := offered.rate_pos 1 (by omega)
  have lt0 := offered.rate_lt 0 (by omega)
  have lt1 := offered.rate_lt 1 (by omega)
  have backlog0 := offered.backlog 0 (by omega)
  have backlog1 := offered.backlog 1 (by omega)
  have lenLe := offered.len_le
  have word : half = 2 ^ 63 := by decide
  unfold share
  refine (Yields.mulInt (by omega) (by omega)).bind ?_
  rintro _ rfl
  have capped0 := capped_bounds (load 0).rate (load 1).rate (by omega)
    (by omega)
  dsimp only
  generalize (if 3 * ((load 1).rate : Int) < (load 0).rate then
    3 * ((load 1).rate : Int) else (load 0).rate) = rate0 at *
  refine (Yields.mulInt (by omega) (by omega)).bind ?_
  rintro _ rfl
  have capped1 := capped_bounds (load 1).rate rate0 (by omega) (by omega)
  generalize (if 3 * rate0 < ((load 1).rate : Int) then 3 * rate0
    else (load 1).rate) = rate1 at *
  refine (Yields.add (by omega)).bind ?_
  rintro _ rfl
  refine (Yields.toInt (by omega)).bind ?_
  rintro _ rfl
  refine (Yields.toInt (by omega)).bind ?_
  rintro _ rfl
  have weighted := weighted_bounds rate0 rate1 ((load 1).backlog + len)
    (load 0).backlog (by omega) (by omega) (by omega) (by omega) (by omega)
    (by omega)
  refine (Yields.mulInt (by omega) (by omega)).bind ?_
  rintro _ rfl
  refine (Yields.mulInt (by omega) (by omega)).bind ?_
  rintro _ rfl
  refine (Yields.subInt (by omega) (by omega)).bind ?_
  rintro _ rfl
  refine (Yields.addInt (by omega) (by omega)).bind ?_
  rintro _ rfl
  have bounded := Int.natAbs_tdiv_le_natAbs
    (rate0 * ↑((load 1).backlog + len) - rate1 * ↑(load 0).backlog)
    (rate0 + rate1)
  refine (Yields.divInt (by omega) (by omega) (by omega)).bind ?_
  rintro _ rfl
  refine Yields.returns ?_
  split
  · omega
  · split <;> omega

/-- What the adjustments of the range come to. -/
structure Bounded (win : Region) (off len room mine other : Nat)
    (range : Nat × Nat) : Prop where
  part : bondPart ≤ range.1
  last : (off + len - 1) / win.seg * win.seg - off ≤ range.1
  other : len - other ≤ range.1
  le : range.1 ≤ len
  high : range.2 = min (min (len - bondPart) room) (mine - wsRoom)

theorem raise_yields (low first second : Nat) :
    Yields (raise checked low first second)
      fun raised => raised = max low (first - second) := by
  unfold raise
  refine Yields.ite (fun above => ?_) fun below => .returns (by omega)
  refine (Yields.sub above.le).bind ?_
  rintro _ rfl
  refine Yields.returns ?_
  split <;> omega

theorem bounds_yields (offered : Offered win load off len)
    (long : bondSplit ≤ len) (room mine other : Nat) :
    Yields (bounds checked win off len room mine other)
      (Bounded win off len room mine other) := by
  have nonempty := offered.nonempty
  have inside := offered.inside
  have lengthLt := offered.length_lt
  have least : 2 * bondPart ≤ bondSplit := by decide
  have before := Nat.div_mul_le_self (off + len - 1) win.seg
  unfold bounds
  refine (Yields.add (by omega)).bind ?_
  rintro _ rfl
  refine (Yields.sub (by omega)).bind ?_
  rintro _ rfl
  refine (Yields.mul (by omega)).bind ?_
  rintro _ rfl
  refine (Yields.sub (by omega)).bind fun high highEq => ?_
  refine (raise_yields _ _ _).bind ?_
  rintro _ rfl
  refine (raise_yields _ _ _).bind ?_
  rintro _ rfl
  have carry : Yields (if wsRoom < mine then checked.sub mine wsRoom
      else pure 0) (· = mine - wsRoom) :=
    Yields.ite (fun above => Yields.sub above.le)
      fun below => .returns (by omega)
  refine carry.bind ?_
  rintro _ rfl
  refine Yields.returns ⟨?_, ?_, ?_, ?_, by rw [highEq]⟩ <;> dsimp only <;> omega

theorem packed_yields {first : Nat} (small : first ≤ 2 ^ 40) :
    Yields (packed checked first) fun _ => True := by
  have rounded := Nat.div_mul_le_self (first + wsRoom + Link.tbPacket / 2)
    Link.tbPacket
  have packet : Link.tbPacket / 2 < 2 ^ 40 := by decide
  have head : wsRoom < 2 ^ 40 := by decide
  unfold packed
  refine (Yields.add (by omega)).bind ?_
  rintro _ rfl
  refine (Yields.add (by omega)).bind ?_
  rintro _ rfl
  refine (Yields.mul (by omega)).bind ?_
  rintro _ rfl
  exact Yields.ite (fun above => (Yields.sub above.le).mono fun _ _ => trivial)
    fun _ => .returns trivial

theorem nudge_yields {high first : Nat} (positive : 0 < first)
    (fits : off + first < 2 ^ 64) (small : first ≤ 2 ^ 40) :
    Yields (nudge checked win off high first) fun _ => True := by
  unfold nudge
  refine (Yields.add (by omega)).bind ?_
  rintro _ rfl
  refine Yields.ite (fun _ => ?_) fun _ => .returns trivial
  refine Yields.ite (fun _ => ?_) fun _ => ?_
  · exact (Yields.add (by omega)).mono fun _ _ => trivial
  · exact (Yields.sub positive).mono fun _ _ => trivial

theorem clamp_le {low high first bound : Nat} (lowLe : low ≤ bound)
    (highLe : high ≤ bound) : clamp low high first ≤ bound := by
  unfold clamp
  split
  · exact lowLe
  · split <;> omega

theorem clamp_pos {low high first : Nat} (low_pos : 0 < low)
    (high_pos : 0 < high) : 0 < clamp low high first := by
  unfold clamp
  split
  · exact low_pos
  · split <;> omega

theorem cut_yields (offered : Offered win load off len)
    (long : bondSplit ≤ len) {room : Nat} (roomy : 0 < room)
    (carries : wsRoom < (load (turn % 2)).max) :
    Yields (cut checked win load off len room turn) fun _ => True := by
  have inside := offered.inside
  have lengthLt := offered.length_lt
  have lenLe := offered.len_le
  have least : 2 * bondPart ≤ bondSplit := by decide
  have part : 0 < bondPart := by decide
  unfold cut
  refine (share_yields offered).bind fun portion portionLe => ?_
  refine (Yields.sub portionLe).bind ?_
  rintro _ rfl
  refine (bounds_yields offered long _ _ _).bind fun range bounded => ?_
  refine (packed_yields ?_).bind fun whole _ => ?_
  · split <;> omega
  have high := bounded.high
  have low := bounded.part
  have lowLe := bounded.le
  have placed : clamp range.1 range.2 whole ≤ len :=
    clamp_le lowLe (by omega)
  have positive : 0 < clamp range.1 range.2 whole :=
    clamp_pos (by omega) (by omega)
  refine (nudge_yields positive (by omega) (by omega)).bind fun first _ => ?_
  refine Yields.ite (fun fits => ?_) fun _ => .returns trivial
  exact (Yields.add (by omega)).bind fun _ _ => .returns trivial

theorem uncut_yields (offered : Offered win load off len) (room turn : Nat) :
    Yields (uncut checked load len room turn) fun _ => True := by
  have lenLe := offered.len_le
  have head : wsRoom < 2 ^ 40 := by decide
  refine (bondPick_yields offered turn).bind fun picked _ => ?_
  exact (Yields.add (by omega)).bind fun _ _ => .returns trivial

/-- Planning a write does not wrap, if the head's link carries more than a
head's room and the registration ends below the last address. -/
theorem bondPlan_yields (offered : Offered win load off len)
    (carries : wsRoom < (load (turn % 2)).max)
    (fits : ((off - wsRoom) / win.seg + 1) * win.seg < 2 ^ 64) :
    Yields (bondPlan checked win load off len turn) fun _ => True := by
  obtain ⟨found, ended, -⟩ := room_yields offered fits
  refine Yields.bind ⟨found, ended, rfl⟩ ?_
  rintro _ rfl
  cases found with
  | none => exact .returns trivial
  | some room =>
      have exactly := room_machine offered (room_agrees sound_machine _ _ _ ended)
      have roomy := (stop_bounds win off).1
      have cutting : Yields (if bondSplit ≤ len then
          cut checked win load off len room turn else pure none)
          fun _ => True :=
        Yields.ite (fun long => cut_yields offered long (by omega) carries)
          fun _ => .returns trivial
      refine cutting.bind fun cut _ => ?_
      cases cut with
      | none => exact uncut_yields offered _ _
      | some plan => exact .returns trivial

end

/-! ## Every plan can be posted -/

section

open Arith

variable {win : Region} {load : Nat → Load} {off len turn : Nat}
variable {plan : Plan}

/-- The tests that a cut has passed. -/
theorem cut_tests (ops : Arith Id) {room : Nat}
    (planned : (cut ops win load off len room turn).run = some plan) :
    let range := (bounds ops win off len room (load (turn % 2)).max
      (load (1 - turn % 2)).max).run
    plan.head = turn % 2 ∧ range.1 ≤ plan.first ∧ plan.first ≤ range.2 ∧
      tbTailClean win.mem win.length (ops.add off plan.first).run = true := by
  unfold cut at planned
  simp only [Id.run_bind, apply_ite Id.run, Id.run_pure] at planned
  generalize (nudge ops win off _ _).run = first at planned
  split at planned
  · next fits =>
      split at planned
      · next clean =>
          obtain rfl := Option.some.inj planned
          exact ⟨rfl, fits.2.2.2.1, fits.2.2.2.2, clean⟩
      · cases planned
  · cases planned

/-- A whole write fits the link it is planned for. -/
theorem uncut_tests (offered : Offered win load off len) {room next : Nat}
    (planned : (uncut machine load len room turn).run = (some plan, next)) :
    plan.head < 2 ∧ plan.first = len ∧ len ≤ room ∧
      wsRoom + len ≤ (load plan.head).max := by
  have lenLe := offered.len_le
  have head : wsRoom < 2 ^ 40 := by decide
  have below := (bondPick_agrees sound_machine _ _ _).yields
    (bondPick_yields offered turn)
  have need : (machine.add wsRoom len).run = wsRoom + len :=
    Nat.mod_eq_of_lt (by omega)
  unfold uncut at planned
  simp only [Id.run_bind, Id.run_pure, need, decide_eq_true_eq] at planned
  generalize (bondPick machine turn load len).run = picked at *
  split at planned
  · next fits =>
      cases planned
      exact ⟨below, rfl, fits.1, fits.2⟩
  · split at planned
    · next fits =>
        cases planned
        refine ⟨?_, rfl, fits.1, fits.2⟩
        dsimp only
        omega
    · cases planned

/-- A part with its head in the room of the first byte's registration. -/
theorem together_of_room {room first : Nat} (positive : 0 < first)
    (near : (off - wsRoom) / win.seg = off / win.seg)
    (roomEq : room = (off / win.seg + 1) * win.seg - off)
    (le : first ≤ room) :
    (off - wsRoom) / win.seg = (off + first - 1) / win.seg := by
  have after := (stop_bounds win off).1
  have before := Nat.div_mul_le_self off win.seg
  rw [near]
  refine (Nat.div_eq_of_lt_le (by omega) ?_).symm
  omega

/-- A tail from the last registration's first byte on lies in it. -/
theorem together_of_last {first : Nat} (short : first < len)
    (le : (off + len - 1) / win.seg * win.seg - off ≤ first) :
    (off + first) / win.seg = (off + len - 1) / win.seg := by
  have after := (stop_bounds win (off + len - 1)).1
  exact Nat.div_eq_of_lt_le (by omega) (by omega)

/-- The plan of a write whose head has room in its registration. -/
theorem bondPlan_machine (offered : Offered win load off len) {next : Nat}
    (planned : (bondPlan machine win load off len turn).run =
      (some plan, next)) :
    ∃ room, (off - wsRoom) / win.seg = off / win.seg ∧
      room = (off / win.seg + 1) * win.seg - off ∧
      ((bondSplit ≤ len ∧
          (cut machine win load off len room turn).run = some plan) ∨
        (uncut machine load len room turn).run = (some plan, next)) := by
  unfold bondPlan at planned
  rw [Id.run_bind] at planned
  split at planned
  · cases planned
  · next room found =>
      obtain ⟨near, roomEq⟩ := room_machine offered found
      refine ⟨room, near, roomEq, ?_⟩
      rw [Id.run_bind] at planned
      split at planned
      · next cut found =>
          left
          split at found
          · next long =>
              cases planned
              exact ⟨long, found⟩
          · cases found
      · exact Or.inr planned

theorem postable_of_plan (offered : Offered win load off len) {next : Nat}
    (planned : (bondPlan machine win load off len turn).run =
      (some plan, next)) : Postable win load off len plan := by
  obtain ⟨room, near, roomEq, cutOrNot⟩ := bondPlan_machine offered planned
  have nonempty := offered.nonempty
  have inside := offered.inside
  have lengthLt := offered.length_lt
  rcases cutOrNot with ⟨long, cutting⟩ | whole
  · have bounded := (bounds_agrees sound_machine _ _ _ _ _ _).yields
      (bounds_yields offered long room (load (turn % 2)).max
        (load (1 - turn % 2)).max)
    obtain ⟨headEq, low, high, clean⟩ := cut_tests machine cutting
    have least : 0 < bondPart ∧ 2 * bondPart ≤ bondSplit := by decide
    have highEq := bounded.high
    have part := bounded.part
    have last := bounded.last
    have other := bounded.other
    have short : plan.first < len := by omega
    have place : (machine.add off plan.first).run = off + plan.first :=
      Nat.mod_eq_of_lt (by omega)
    rw [place] at clean
    refine ⟨?_, by omega, short.le, offered.headroom,
      together_of_room (by omega) near roomEq (by omega), ?_, ?_, Or.inl ?_,
      fun _ => clean⟩
    · rw [headEq]
      exact Nat.mod_lt _ (by decide)
    · rw [headEq]
      omega
    · exact fun _ => together_of_last short (last.trans low)
    · rw [headEq]
      omega
  · obtain ⟨below, firstEq, inRoom, carried⟩ := uncut_tests offered whole
    rw [← firstEq] at carried inRoom
    exact ⟨below, by omega, by omega, offered.headroom,
      together_of_room (by omega) near roomEq inRoom, carried,
      fun short => by omega, Or.inr firstEq, fun short => by omega⟩

/-- A link never answers that a planned head is more than one message. -/
theorem Postable.head_ne (postable : Postable win load off len plan)
    {e : Option Link.Flow} (limit : tbMessageMax e = (load plan.head).max) :
    tbCanBondWriteSignal e win off plan.first ≠ 2 := by
  have headroom := postable.headroom
  have carried := postable.carried
  have together := postable.together
  have same : wsRoom = Link.bondWsHead := rfl
  cases e with
  | none => simp [tbCanBondWriteSignal]
  | some flow =>
      change flow.max = _ at limit
      rw [tbCanBondWriteSignal]
      rw [same] at headroom carried together
      split
      · decide
      · rw [if_neg (by omega)]
        split <;> decide

/-- Nor that a planned tail is. -/
theorem Postable.tail_ne (postable : Postable win load off len plan)
    (short : plan.first < len) {e : Option Link.Flow}
    (limit : tbMessageMax e = (load (1 - plan.head)).max) :
    tbCanBondTail e win (off + plan.first) (len - plan.first) ≠ 2 := by
  have together := postable.tailTogether short
  have carried := postable.tailCarried
  have clean := postable.tailClean short
  have stop : off + plan.first + (len - plan.first) - 1 = off + len - 1 := by
    omega
  cases e with
  | none => simp [tbCanBondTail]
  | some flow =>
      change flow.max = _ at limit
      rw [tbCanBondTail, stop]
      split
      · decide
      · rw [if_neg]
        · split <;> decide
        · rintro (wide | apart | dirty)
          · omega
          · exact apart together
          · rw [clean] at dirty
            cases dirty

/-- A plan is always postable, and no step of planning wraps as long as the
head's link carries more than the room before a head and the registration of the
head ends below the last address. -/
theorem bondPlan_postable (win : Region) (load : Nat → Load)
    (off len turn : Nat) (offered : Offered win load off len) :
    (∀ plan next, (bondPlan machine win load off len turn).run =
        (some plan, next) →
      Postable win load off len plan ∧
        ∀ e : Nat → Option Link.Flow,
          (∀ lane < 2, tbMessageMax (e lane) = (load lane).max) →
          tbCanBondWriteSignal (e plan.head) win off plan.first ≠ 2 ∧
            (plan.first < len →
              tbCanBondTail (e (1 - plan.head)) win (off + plan.first)
                (len - plan.first) ≠ 2)) ∧
    (wsRoom < (load (turn % 2)).max →
      ((off - wsRoom) / win.seg + 1) * win.seg < 2 ^ 64 →
      bondPlan checked win load off len turn =
        some (bondPlan machine win load off len turn).run) := by
  refine ⟨?_, ?_⟩
  · intro plan next planned
    have postable := postable_of_plan offered planned
    have link := postable.link
    exact ⟨postable, fun e limits => ⟨postable.head_ne (limits _ link),
      fun short => postable.tail_ne short (limits _ (by omega))⟩⟩
  · intro carries fits
    obtain ⟨value, ended, -⟩ := bondPlan_yields offered carries fits
    rw [ended, bondPlan_agrees sound_machine _ _ _ _ _ value ended]

/-- A window of whole bytes, all of them those of a head's magic. -/
def magicWindow : Region where
  mem off := UInt8.ofNat (Link.magic / 256 ^ (off % 4))
  length := 2 ^ 20
  seg := 2 ^ 20
  segPos := by decide

/-- A write of 40 KiB with a head's magic in its first bytes. -/
theorem bondPlan_postable_cut :
    Offered magicWindow (fun _ => ⟨0, 1, 2 ^ 20⟩) 64 bondSplit ∧
      bondPlan checked magicWindow (fun _ => ⟨0, 1, 2 ^ 20⟩) 64 bondSplit 0 =
        some (bondPlan machine magicWindow (fun _ => ⟨0, 1, 2 ^ 20⟩) 64
          bondSplit 0).run := by
  have offered : Offered magicWindow (fun _ => ⟨0, 1, 2 ^ 20⟩) 64 bondSplit :=
    ⟨by decide, by decide, by decide, by decide, by decide, by decide,
      fun _ _ => by decide, fun _ _ => by decide, fun _ _ => by decide,
      fun _ _ => by decide⟩
  exact ⟨offered, (bondPlan_postable _ _ _ _ 0 offered).2 (by decide)
    (by decide)⟩

/-- On a link whose messages hold no more than the room before a head, the
nudge away from a magic takes one from nothing; and the end of a registration
past the last address has no 64 bits. -/
theorem bondPlan_wraps :
    (Offered magicWindow (fun lane => ⟨0, 1, if lane = 0 then 64 else 2 ^ 20⟩)
        64 bondSplit ∧
      bondPlan checked magicWindow
        (fun lane => ⟨0, 1, if lane = 0 then 64 else 2 ^ 20⟩) 64 bondSplit 0 =
        none) ∧
    (Offered ⟨fun _ => 0, 2 ^ 63 + 65, 2 ^ 63, by decide⟩
        (fun _ => ⟨0, 1, 2 ^ 20⟩) (2 ^ 63 + 64) 1 ∧
      bondPlan checked ⟨fun _ => 0, 2 ^ 63 + 65, 2 ^ 63, by decide⟩
        (fun _ => ⟨0, 1, 2 ^ 20⟩) (2 ^ 63 + 64) 1 0 = none) := by
  refine ⟨⟨⟨by decide, by decide, by decide, by decide, by decide, by decide,
    fun _ _ => by dsimp only; decide, fun _ _ => by dsimp only; decide,
    fun _ _ => by dsimp only; decide, fun lane _ => ?_⟩, ?_⟩, ⟨⟨by decide, by decide, by decide, by decide,
    by decide, by decide, fun _ _ => by decide, fun _ _ => by decide,
    fun _ _ => by decide, fun _ _ => by decide⟩, ?_⟩⟩
  · dsimp only
    split <;> decide
  · decide +kernel
  · decide +kernel

end

/-! ## The sender's plan -/

section

open Arith

variable {cfg : Config} {load : Nat → Load} {write : Write} {turn : Nat}

/-- The source window of a sender: both links register it in segments. -/
def window (cfg : Config) (write : Write) : Region where
  mem := write.src
  length := cfg.winLength
  seg := tbSeg
  segPos := by decide

theorem bondPick_plain (turn : Nat) (load : Nat → Load) (bytes : Nat) :
    (bondPick plain turn load bytes).run =
      Fabric.bondPick turn load bytes := by
  unfold Fabric.bondPick
  exact rfl

theorem share_plain (load : Nat → Load) (len : Nat) :
    (share plain load len).run =
      let r0 := if 3 * (load 1).rate < (load 0).rate then 3 * (load 1).rate
        else (load 0).rate
      let r1 := if 3 * r0 < (load 1).rate then 3 * r0 else (load 1).rate
      let x := Int.tdiv ((r0 : Int) * ((load 1).backlog + len) -
        (r1 : Int) * (load 0).backlog) (r0 + r1)
      if x < 0 then 0 else if (len : Int) < x then len else x.toNat := by
  have cast0 : (if 3 * ((load 1).rate : Int) < (load 0).rate then
      3 * ((load 1).rate : Int) else (load 0).rate) =
      ((if 3 * (load 1).rate < (load 0).rate then 3 * (load 1).rate
        else (load 0).rate : Nat) : Int) := by
    split <;> split <;> omega
  have cast1 : ∀ r0 : Nat, (if 3 * (r0 : Int) < (load 1).rate then
      3 * (r0 : Int) else (load 1).rate) =
      ((if 3 * r0 < (load 1).rate then 3 * r0 else (load 1).rate : Nat) :
        Int) := by
    intro r0
    split <;> split <;> omega
  unfold share plain
  simp only [Id.run_bind, Id.run_pure, cast0, cast1, Nat.cast_add]

theorem bounds_plain (win : Region) (off len room mine other : Nat) :
    (bounds plain win off len room mine other).run =
      let last := (off + len - 1) / win.seg * win.seg
      let lo := bondPart
      let lo := if off < last ∧ lo < last - off then last - off else lo
      let lo := if other < len ∧ lo < len - other then len - other else lo
      (lo, min (min (len - bondPart) room) (mine - wsRoom)) := by
  have raised : ∀ low first second : Nat,
      (raise plain low first second).run =
        if second < first ∧ low < first - second then first - second
        else low := by
    intro low first second
    unfold raise plain
    split
    · next above =>
        simp only [Id.run_bind, Id.run_pure, above, true_and]
    · next below => rw [if_neg fun both => below both.1]; rfl
  have carried : (if wsRoom < mine then plain.sub mine wsRoom
      else pure 0 : Id Nat).run = mine - wsRoom := by
    split
    · rfl
    · change 0 = mine - wsRoom
      omega
  unfold bounds
  simp only [Id.run_bind, Id.run_pure, raised, carried]
  rfl

theorem packed_plain (first : Nat) :
    (packed plain first).run =
      let whole := (first + wsRoom + Link.tbPacket / 2) / Link.tbPacket *
        Link.tbPacket
      if wsRoom < whole then whole - wsRoom else first := by
  unfold packed
  rw [Id.run_bind, Id.run_bind, Id.run_bind, apply_ite Id.run]
  rfl

theorem nudge_plain (win : Region) (off high first : Nat) :
    (nudge plain win off high first).run =
      if tbTailClean win.mem win.length (off + first) = false then
        if first < high then first + 1 else first - 1
      else first := by
  unfold nudge
  rw [Id.run_bind, apply_ite Id.run, apply_ite Id.run]
  rfl

/-- Two tests in a row are one. -/
theorem guarded_twice {α : Type} (first second : Prop) [Decidable first]
    [Decidable second] (value : α) :
    (if first then (if second then some value else none) else none) =
      if first ∧ second then some value else none := by
  by_cases holds : first <;> simp [holds]

theorem cut_plain (cfg : Config) (load : Nat → Load) (write : Write)
    (turn : Nat) :
    (cut plain (window cfg write) load write.off write.len
        (((write.off - wsRoom) / tbSeg + 1) * tbSeg - write.off) turn).run =
      bondPlanSplit cfg load write turn := by
  unfold cut
  simp only [Id.run_bind, apply_ite Id.run, Id.run_pure, nudge_plain,
    packed_plain, bounds_plain, share_plain]
  refine (guarded_twice _ _ _).trans ?_
  refine if_congr ?_ rfl rfl
  simp only [and_assoc]
  exact Iff.rfl

theorem bondPlan_plain (cfg : Config) (load : Nat → Load) (write : Write)
    (turn : Nat) :
    (bondPlan plain (window cfg write) load write.off write.len turn).run =
      Fabric.bondPlan cfg load write turn := by
  have roomEq : (room plain (window cfg write) write.off).run =
      if (write.off - wsRoom) / tbSeg ≠ write.off / tbSeg then none
      else some (((write.off - wsRoom) / tbSeg + 1) * tbSeg - write.off) := by
    unfold room
    rw [Id.run_bind, apply_ite Id.run]
    rfl
  unfold bondPlan Fabric.bondPlan
  rw [Id.run_bind, roomEq]
  by_cases near : (write.off - wsRoom) / tbSeg ≠ write.off / tbSeg
  · simp only [if_pos near]
    rfl
  · simp only [if_neg near, Id.run_bind, apply_ite Id.run, cut_plain,
      Id.run_pure]
    generalize (if bondSplit ≤ write.len then
      bondPlanSplit cfg load write turn else none) = planned
    cases planned with
    | some plan => rfl
    | none =>
        dsimp only
        unfold uncut
        simp only [Id.run_bind, Id.run_pure, bondPick_plain]
        rfl

/-- The sender's model plans what the machine does. -/
theorem sender_bondPlan (offered : Offered (window cfg write) load write.off
      write.len) (maxes : ∀ lane < 2, (load lane).max = cfg.max lane) :
    Fabric.bondPlan cfg load write turn =
      (bondPlan machine (window cfg write) load write.off write.len
        turn).run := by
  have lane : turn % 2 < 2 := Nat.mod_lt _ (by decide)
  have carries : wsRoom < (load (turn % 2)).max := by
    rw [maxes _ lane, Config.max, Link.msgMax]
    have depth := cfg.depth_le (turn % 2)
    have slots := cfg.peerSlots_le (turn % 2)
    have room : wsRoom < 2 * Link.tbPacket := by decide
    have whole : 2 * Link.tbPacket ≤ Link.tbMsg := by decide
    have deep : 2 * Link.tbPacket ≤ cfg.depth (turn % 2) / 2 * Link.tbPacket :=
      Nat.mul_le_mul_right _ (by omega)
    have wide : 2 * Link.tbPacket ≤
        cfg.peerSlots (turn % 2) / 2 * Link.tbPacket :=
      Nat.mul_le_mul_right _ (by omega)
    omega
  have fits : ((write.off - wsRoom) / tbSeg + 1) * tbSeg < 2 ^ 64 := by
    have inside : write.off + write.len ≤ cfg.winLength := offered.inside
    have most := cfg.win_le
    have small : linkRegionMax * tbSeg + tbSeg < 2 ^ 64 := by decide
    have below := Nat.div_mul_le_self (write.off - wsRoom) tbSeg
    rw [Nat.add_mul, Nat.one_mul]
    omega
  obtain ⟨value, ended, -⟩ := bondPlan_yields offered carries fits
  rw [← bondPlan_plain, bondPlan_agrees sound_plain _ _ _ _ _ value ended,
    bondPlan_agrees sound_machine _ _ _ _ _ value ended]

/-- Two links of a hundred packets each way. -/
def twin : Config where
  links := 2
  winLength := 2 ^ 20
  remoteLength := 2 ^ 20
  depth := fun _ => 100
  peerSlots := fun _ => 100
  two_le := pair.two_le
  le_max := pair.le_max
  depth_le := by simp
  peerSlots_le := by simp
  win_le := by decide
  remote_le := by decide

/-- The write of 40 KiB with a head's magic in its first bytes, on two links. -/
theorem sender_bondPlan_twin :
    Fabric.bondPlan twin (fun lane => ⟨0, 1, twin.max lane⟩)
      ⟨magicWindow.mem, 64, 64, bondSplit⟩ 0 =
    (bondPlan Arith.machine (window twin ⟨magicWindow.mem, 64, 64, bondSplit⟩)
      (fun lane => ⟨0, 1, twin.max lane⟩) 64 bondSplit 0).run :=
  sender_bondPlan
    { headroom := by decide
      nonempty := by decide
      len_le := by decide
      inside := by decide
      length_lt := by decide
      seg_lt := by decide
      backlog := fun _ _ => show 0 < 2 ^ 40 by decide
      rate_pos := fun _ _ => Nat.one_pos
      rate_lt := fun _ _ => show 1 < 2 ^ 20 by decide
      max_lt := fun _ _ => show Link.msgMax 100 100 < 2 ^ 64 by decide }
    fun _ _ => rfl

end

end Planning
end Fabric
end Mcdma
