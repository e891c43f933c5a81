import Mathlib.Data.List.Basic

/-!
# Pieces laid end to end

A piece is where it starts and how long it is.  Pieces tile an interval when
none is empty and each starts where the one before it ends, so that every point
of the interval lies in exactly one of them.
-/

namespace Tiling

/-- The pieces cover the points from `start` up to `stop`, in order. -/
def Tiles (start stop : Nat) : List (Nat × Nat) → Prop
  | [] => start = stop
  | piece :: rest =>
      piece.1 = start ∧ 0 < piece.2 ∧ Tiles (start + piece.2) stop rest

variable {start middle stop : Nat} {pieces more : List (Nat × Nat)}

theorem Tiles.le (tiles : Tiles start stop pieces) : start ≤ stop := by
  induction pieces generalizing start with
  | nil => exact Nat.le_of_eq tiles
  | cons piece rest inductionHypothesis =>
      have later := inductionHypothesis tiles.2.2
      omega

/-- No piece is empty or leaves the interval. -/
theorem Tiles.inside (tiles : Tiles start stop pieces) :
    ∀ piece ∈ pieces,
      start ≤ piece.1 ∧ 0 < piece.2 ∧ piece.1 + piece.2 ≤ stop := by
  induction pieces generalizing start with
  | nil => simp
  | cons first rest inductionHypothesis =>
      obtain ⟨here, nonzero, later⟩ := tiles
      have last := later.le
      intro piece member
      rcases List.mem_cons.mp member with rfl | behind
      · omega
      · have bounds := inductionHypothesis later piece behind
        omega

end Tiling
