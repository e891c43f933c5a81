import Mcdma.Kv.Pages
import Mcdma.Lib.Tiles

/-!
# Frames

`plan_frames` cuts the rows of each layer into frames that fit a reply.
-/

namespace Mcdma
namespace Kv

open Tiling

/-- A frame: its layer's position, its first row and its rows. -/
structure Frame where
  layer : Nat
  rowStart : Nat
  rows : Nat
deriving DecidableEq

/-- A layer to be cut: its position, its rows and the size of one. -/
structure LayerSize where
  layer : Nat
  rows : Nat
  rowBytes : Nat

/-- `range(0, stop, step)`. -/
def starts (stop step : Nat) : List Nat :=
  (List.range ((stop + step - 1) / step)).map fun i => i * step

/-- The frames of one layer. -/
def planLayer (capacity : Nat) (l : LayerSize) : Except Fault (List Frame) :=
  if l.rowBytes = 0 then .error .zeroDivision
  else
    let perFrame := capacity / l.rowBytes
    if perFrame < 1 then
      .error (.value
        s!"one page row of layer {l.layer} is larger than the reply half")
    else
      .ok ((starts l.rows perFrame).map fun start =>
        ⟨l.layer, start, min perFrame (l.rows - start)⟩)

/-- `plan_frames`. -/
def planFrames (capacity : Nat) :
    List LayerSize → Except Fault (List Frame)
  | [] => .ok []
  | l :: rest =>
      match planLayer capacity l with
      | .error fault => .error fault
      | .ok frames =>
          match planFrames capacity rest with
          | .error fault => .error fault
          | .ok more => .ok (frames ++ more)

/-- Where a frame starts among the rows of its layer, and its rows. -/
def Frame.span (f : Frame) : Nat × Nat := (f.rowStart, f.rows)

/-- The frames of a layer fit a reply and tile its rows in order. -/
structure Shares (capacity : Nat) (l : LayerSize) (part : List Frame) :
    Prop where
  layer : ∀ f ∈ part, f.layer = l.layer
  fits : ∀ f ∈ part, f.rows * l.rowBytes ≤ capacity
  tiles : Tiles 0 l.rows (part.map Frame.span)

/-- The frames are those of each layer, in order. -/
def Planned (capacity : Nat) (layers : List LayerSize)
    (frames : List Frame) : Prop :=
  ∃ parts : List (List Frame), frames = parts.flatten ∧
    List.Forall₂ (Shares capacity) layers parts

section

variable {capacity : Nat} {l : LayerSize} {layers : List LayerSize}
  {part frames : List Frame}

/-- The frame of each index belongs to a layer and lies in its rows. -/
theorem Planned.frame (planned : Planned capacity layers frames) {f : Frame}
    (member : f ∈ frames) :
    ∃ l ∈ layers, f.layer = l.layer ∧ 0 < f.rows ∧
      f.rowStart + f.rows ≤ l.rows ∧ f.rows * l.rowBytes ≤ capacity := by
  obtain ⟨parts, rfl, all⟩ := planned
  obtain ⟨part, among, here⟩ := List.mem_flatten.mp member
  obtain ⟨i, place⟩ := List.mem_iff_getElem?.mp among
  have lengths := all.length_eq
  have inside : i < parts.length := (List.getElem?_eq_some_iff.mp place).1
  have shares : Shares capacity layers[i] part := by
    have pair := List.forall₂_iff_get.mp all
    have startsThere := pair.2 i (by omega) inside
    rw [List.get_eq_getElem, List.get_eq_getElem,
      (List.getElem?_eq_some_iff.mp place).2] at startsThere
    exact startsThere
  obtain ⟨-, nonzero, last⟩ :=
    shares.tiles.inside _ (List.mem_map_of_mem here)
  exact ⟨layers[i], List.getElem_mem _, shares.layer f here, nonzero, last,
    shares.fits f here⟩

end

end Kv
end Mcdma
