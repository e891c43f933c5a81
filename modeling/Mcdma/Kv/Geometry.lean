import Mathlib.Data.List.Perm.Basic
import Mathlib.Data.List.Nodup
import Mathlib.Logic.Function.Basic

/-!
# What the dimensions of a cache hold

`mcdma_kv/export.py` labels the dimensions of a cache tensor from its sizes, or
with the shape function of the attention backend, and finds how many rows of
the tensor hold one block of the scheduler.
-/

namespace Mcdma
namespace Kv

/-- What a dimension holds; other names stand in exports of hybrid models. -/
inductive Label
  | block
  | token
  | head
  | headDim
  | kv
  | kvHeadDim
  | latent
  | other (name : String)
deriving DecidableEq

/-- The arguments of a shape function. -/
structure Args where
  rows : Nat
  tokens : Nat
  heads : Nat
  headSize : Nat

/-- `Probe`: a backend's shape function, which may raise. -/
abbrev Probe := Args → Option (List Nat)

/-! ## Labels from a shape function -/

/-- The arguments that are bumped, each with the label it shows. -/
def owners (mla : Bool) : List (Label × (Args → Args)) :=
  [(.block, fun args => { args with rows := args.rows + 16 }),
    (.token, fun args => { args with tokens := args.tokens + 16 }),
    (.headDim, fun args => { args with headSize := args.headSize + 16 })] ++
    if mla then []
    else [(.head, fun args => { args with heads := args.heads + 16 })]

/-- The indices where two shapes differ, as far as both go. -/
def changed : Nat → List Nat → List Nat → List Nat
  | index, a :: shape, b :: other =>
      if a ≠ b then index :: changed (index + 1) shape other
      else changed (index + 1) shape other
  | _, _, _ => []

/-- The loop over the owners. -/
def owned (shape : List Nat) (args : Args) (probe : Probe) :
    List (Label × (Args → Args)) → List (Option Label) →
      Option (List (Option Label))
  | [], labels => some labels
  | (name, bump) :: rest, labels =>
      match probe (bump args) with
      | none => none
      | some other =>
          match changed 0 shape other with
          | [index] =>
              if labels[index]? = some none then
                owned shape args probe rest (labels.set index (some name))
              else none
          | _ => none

/-- The label of a dimension once its size is known. -/
def settle (args : Args) (mla : Bool) (label : Option Label) (size : Nat) :
    Option Label :=
  if label = some .headDim ∧ mla = true then some .latent
  else if label = some .headDim ∧ size = 2 * args.headSize then
    some .kvHeadDim
  else if label = none ∧ size = 2 ∧ mla = false then some .kv
  else label

/-- The labels, if every dimension has one. -/
def allLabels : List (Option Label) → Option (List Label)
  | [] => some []
  | none :: _ => none
  | some label :: rest => (allLabels rest).map (label :: ·)

/-- `_by_probe`; where the probe raises, the caller goes on as with `None`. -/
def byProbe (shape : List Nat) (args : Args) (mla : Bool) (probe : Probe) :
    Option (List Label) :=
  if probe args ≠ some shape then none
  else
    match owned shape args probe (owners mla)
        (List.replicate shape.length none) with
    | none => none
    | some labels => allLabels (labels.zipWith (settle args mla) shape)

/-! ## Labels from sizes alone -/

/-- The sizes that are looked for. -/
def wanted (args : Args) (mla : Bool) : List (Label × Nat) :=
  [(.block, args.rows), (.token, args.tokens)] ++
    if mla then [(.latent, args.headSize)]
    else [(.head, args.heads), (.headDim, args.headSize)]

/-- The labels that a size could stand for. -/
def names (args : Args) (mla : Bool) (labels : List Label) (size : Nat) :
    List Label :=
  ((wanted args mla).filter fun entry =>
    entry.2 = size ∧ entry.1 ∉ labels).map Prod.fst ++
    (if mla = false ∧ size = 2 * args.headSize ∧ .headDim ∉ labels ∧
        .kvHeadDim ∉ labels then [.kvHeadDim] else []) ++
    if mla = false ∧ size = 2 ∧ .kv ∉ labels then [.kv] else []

/-- The loop over the sizes. -/
def bySizeFrom (args : Args) (mla : Bool) :
    List Label → List Nat → Option (List Label)
  | labels, [] => some labels
  | labels, size :: rest =>
      match names args mla labels size with
      | [name] => bySizeFrom args mla (labels ++ [name]) rest
      | _ => none

/-- `_by_size`. -/
def bySize (shape : List Nat) (args : Args) (mla : Bool) :
    Option (List Label) :=
  bySizeFrom args mla [] shape

/-! ## Labels and ratio -/

/-- A shape as it is printed. -/
def tupleText (shape : List Nat) : String :=
  match shape with
  | [size] => s!"({size},)"
  | _ => "(" ++ ", ".intercalate (shape.map toString) ++ ")"

/-- What `geometry` raises. -/
def unexplained (shape : List Nat) : String :=
  "cannot tell what the dimensions of cache shape " ++ tupleText shape ++
    " hold"

section

variable (shape : List Nat) (numBlocks blockSize heads headSize : Nat)
  (mla : Bool) (probe : Option Probe)

/-- The arguments at a ratio. -/
def argsAt (ratio : Nat) : Args :=
  ⟨numBlocks * ratio, blockSize / ratio, heads, headSize⟩

/-- The labels at a ratio. -/
def labelsAt (ratio : Nat) : Option (List Label) :=
  let args := argsAt numBlocks blockSize heads headSize ratio
  if args.rows ∈ shape then
    match probe.bind fun probe => byProbe shape args mla probe with
    | some labels => some labels
    | none => bySize shape args mla
  else none

/-- The loop over the ratios; the ratio doubles, so it is made `blockSize`
times at most. -/
def geometryFrom : Nat → Nat → Except String (List Label × Nat)
  | fuel + 1, ratio =>
      if blockSize % ratio = 0 ∧ ratio ≤ blockSize then
        match labelsAt shape numBlocks blockSize heads headSize mla probe
            ratio with
        | some labels => .ok (labels, ratio)
        | none => geometryFrom fuel (ratio * 2)
      else .error (unexplained shape)
  | 0, _ => .error (unexplained shape)

/-- `geometry`. -/
def geometry : Except String (List Label × Nat) :=
  geometryFrom shape numBlocks blockSize heads headSize mla probe
    (blockSize + 1) 1

end

end Kv
end Mcdma
