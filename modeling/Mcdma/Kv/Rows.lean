import Mcdma.Kv.Answer

/-!
# The rows of an export

`_export` takes from each layer's cache the page rows that hold the prompt from
the token asked for.  A block of the scheduler lies in some rows of the tensor,
and the tokens lie in the rows in order.
-/

namespace Mcdma
namespace Kv

/-- The kind of a group's cache. -/
inductive SpecKind
  | full
  | mla
  | other (name : String)
deriving DecidableEq

/-- A group's cache. -/
structure Spec where
  kind : SpecKind
  blockSize : Nat
  numKvHeads : Nat
  headSize : Nat

/-- A registered cache: the layer that its name tells, its group, its tensor
and its backend's shape function. -/
structure Cache where
  layer : Option Nat
  group : Option Nat
  tensor : Tensor
  dtype : String
  probe : Option Probe

/-- The worker's side of the connector, for a model whose layers all keep
pages. -/
structure Connector where
  caches : List Cache
  specs : List Spec
  numBlocks : Nat
  maxLayers : Nat
  totalHeads : Nat
  latent : Nat

/-- `HandoffRequest`. -/
structure HandoffRequest (Request : Type) where
  requestId : Request
  handoff : List UInt8
  tokens : List Nat
  exportFrom : Nat
  blockIds : List (List Nat)

/-- `DTYPES`. -/
def dtypes : List String := ["bfloat16", "float16", "float32"]

/-- The rows of some blocks. -/
def blockRows (blocks : List Nat) (ratio : Nat) : List Nat :=
  blocks.flatMap fun block =>
    (List.range ratio).map fun part => block * ratio + part

/-- `math.ceil(a / b)`. -/
def ceilDiv (a b : Nat) : Nat := (a + b - 1) / b

section

variable {Request : Type} (c : Connector) (r : HandoffRequest Request)

/-- One layer's pages and its tokens in a row, where its cache keeps pages. -/
def layerPages (cache : Cache) (layer group : Nat) (spec : Spec) (mla : Bool)
    (perRow : Option Nat) : Except Fault (LayerPages × Nat) :=
  if cache.dtype ∉ dtypes then
    .error (.value s!"{cache.dtype} KV caches cannot be exported")
  else
    match geometry cache.tensor.shape c.numBlocks spec.blockSize
      spec.numKvHeads spec.headSize mla cache.probe with
    | .error text => .error (.value text)
    | .ok (labels, ratio) =>
        let tokensPerRow := spec.blockSize / ratio
        if perRow ≠ none ∧ perRow ≠ some tokensPerRow then
          .error (.value
            "layers hold different numbers of tokens per page row")
        else
          match r.blockIds[group]? with
          | none => .error .index
          | some blocks =>
              if .block ∉ labels then
                .error (.value "'block' is not in list")
              else
                let first := r.exportFrom / tokensPerRow
                let last := ceilDiv r.tokens.length tokensPerRow
                .ok ({
                  index := layer
                  tensor := cache.tensor
                  blockDim := labels.idxOf .block
                  rows := ((blockRows blocks ratio).take last).drop first
                  dims := labels
                  dtype := cache.dtype
                  heads := spec.numKvHeads
                  totalHeads := c.totalHeads
                  headSize := spec.headSize
                  latentSize := if mla then c.latent else 0
                  ropeSize := if mla then (spec.headSize : Int) - c.latent else 0 },
                  tokensPerRow)

/-- One layer's pages; other kinds of caches are refused. -/
def exportLayer (cache : Cache) (layer group : Nat) (perRow : Option Nat) :
    Except Fault (LayerPages × Nat) :=
  match c.specs[group]? with
  | none => .error .index
  | some spec =>
      match spec.kind with
      | .other name => .error (.value s!"{name} layers cannot be exported")
      | .full => layerPages c r cache layer group spec false perRow
      | .mla => layerPages c r cache layer group spec true perRow

/-- The layer and the group of a cache that is exported. -/
def exported (cache : Cache) : Option (Nat × Nat) :=
  match cache.layer, cache.group with
  | some layer, some group =>
      if c.maxLayers ≠ 0 ∧ c.maxLayers ≤ layer then none
      else some (layer, group)
  | _, _ => none

/-- The loop over the caches. -/
def exportLayers : List Cache → Option Nat →
    Except Fault (List LayerPages × Option Nat)
  | [], perRow => .ok ([], perRow)
  | cache :: rest, perRow =>
      match exported c cache with
      | none => exportLayers rest perRow
      | some (layer, group) =>
          match exportLayer c r cache layer group perRow with
          | .error fault => .error fault
          | .ok (pages, tokensPerRow) =>
              match exportLayers rest (some tokensPerRow) with
              | .error fault => .error fault
              | .ok (more, perRow) => .ok (pages :: more, perRow)

/-- `_export`. -/
def export_ : Except Fault (Export Request) :=
  match exportLayers c r c.caches none with
  | .error fault => .error fault
  | .ok (_, none) =>
      .error (.value "the model has no exportable attention layers")
  | .ok (layers, some perRow) =>
      if layers.isEmpty then
        .error (.value "the model has no exportable attention layers")
      else
        .ok {
          requestId := r.requestId
          handoff := r.handoff
          tokens := r.tokens
          firstToken := r.exportFrom / perRow * perRow
          tokensPerRow := perRow
          layers := layers.mergeSort fun a b => decide (a.index ≤ b.index) }

end

/-! ## What the labels say -/

section

variable {shape : List Nat} {args : Args} {mla : Bool}

end

section

variable {shape : List Nat} {numBlocks blockSize heads headSize : Nat}
  {mla : Bool} {probe : Option Probe} {labels : List Label} {ratio : Nat}

end

/-! ## Where the tokens lie -/

theorem getElem?_blockRows {blocks : List Nat} {ratio : Nat}
    (positive : 0 < ratio) {row block : Nat}
    (here : blocks[row / ratio]? = some block) :
    (blockRows blocks ratio)[row]? = some (block * ratio + row % ratio) := by
  induction blocks generalizing row with
  | nil => cases here
  | cons first rest inductionHypothesis =>
      rw [blockRows, List.flatMap_cons]
      by_cases inFirst : row < ratio
      · rw [Nat.div_eq_of_lt inFirst] at here
        obtain rfl : first = block := Option.some.inj here
        rw [List.getElem?_append_left (by simpa using inFirst),
          List.getElem?_map, List.getElem?_range inFirst,
          Nat.mod_eq_of_lt inFirst]
        rfl
      · have later : (row - ratio) / ratio + 1 = row / ratio := by
          rw [← Nat.add_div_right _ positive, Nat.sub_add_cancel]
          omega
        rw [← later] at here
        rw [List.getElem?_append_right (by simpa using inFirst),
          List.length_map, List.length_range]
        have found := inductionHypothesis here
        have same : (row - ratio) % ratio = row % ratio :=
          (Nat.mod_eq_sub_mod (Nat.not_lt.mp inFirst)).symm
        rw [blockRows] at found
        rw [found, same]

section

variable {Request : Type} {c : Connector} {r : HandoffRequest Request}

/-- The rows of a layer that hold the prompt from the first row on, and how
they come from the blocks of its group. -/
structure Taken (c : Connector) (r : HandoffRequest Request) (perRow : Nat)
    (spec : Spec) (blocks : List Nat) (ratio : Nat) (layer : LayerPages) :
    Prop where
  sound : layer.Sound
  blockSize : spec.blockSize = perRow * ratio
  ratioPos : 0 < ratio
  perRowPos : 0 < perRow
  rows : layer.rows =
    ((blockRows blocks ratio).take (ceilDiv r.tokens.length perRow)).drop
      (r.exportFrom / perRow)

/-- What a cache is exported as: the pages of its layer, so many tokens in a
row. -/
def Yields (c : Connector) (r : HandoffRequest Request) (perRow : Nat)
    (cache : Cache) (layer : LayerPages) : Prop :=
  ∃ index group spec blocks ratio, exported c cache = some (index, group) ∧
    c.specs[group]? = some spec ∧ r.blockIds[group]? = some blocks ∧
    layer.index = index ∧ layer.tensor = cache.tensor ∧
    Taken c r perRow spec blocks ratio layer

/-- A cache that is skipped, or whose dimensions are recognised and which holds
so many tokens in a row. -/
def Exportable (c : Connector) (r : HandoffRequest Request) (perRow : Nat)
    (cache : Cache) : Prop :=
  ∀ index group, exported c cache = some (index, group) →
    cache.dtype ∈ dtypes ∧
    ∃ spec mla labels ratio blocks, c.specs[group]? = some spec ∧
      spec.kind = (if mla then .mla else .full) ∧
      geometry cache.tensor.shape c.numBlocks spec.blockSize
        spec.numKvHeads spec.headSize mla cache.probe =
          .ok (labels, ratio) ∧
      .block ∈ labels ∧ spec.blockSize / ratio = perRow ∧
      r.blockIds[group]? = some blocks

theorem Exportable.layer {perRow : Nat} {cache : Cache} {index group : Nat}
    {before : Option Nat} (exportable : Exportable c r perRow cache)
    (named : exported c cache = some (index, group))
    (same : before = none ∨ before = some perRow) :
    ∃ pages, exportLayer c r cache index group before =
      .ok (pages, perRow) := by
  obtain ⟨typed, spec, mla, labels, ratio, blocks, specced, kind, found, there,
    rfl, held⟩ := exportable index group named
  have agrees : ¬ (before ≠ none ∧
      before ≠ some (spec.blockSize / ratio)) := fun other =>
    same.elim other.1 other.2
  have layer : ∃ pages, layerPages c r cache index group spec mla before =
      .ok (pages, spec.blockSize / ratio) := by
    unfold layerPages
    rw [if_neg (not_not.mpr typed), found]
    dsimp only
    rw [if_neg agrees, held]
    dsimp only
    rw [if_neg (not_not.mpr there)]
    exact ⟨_, rfl⟩
  unfold exportLayer
  rw [specced]
  dsimp only
  rw [kind]
  cases mla <;> exact layer

theorem length_blockRows (blocks : List Nat) (ratio : Nat) :
    (blockRows blocks ratio).length = blocks.length * ratio := by
  simp [blockRows, List.length_flatMap]

/-- The rows of a layer are those that hold a token of the prompt, from the
first one on. -/
theorem Taken.length {perRow ratio : Nat} {spec : Spec} {blocks : List Nat}
    {layer : LayerPages} (taken : Taken c r perRow spec blocks ratio layer)
    (covered : r.tokens.length ≤ blocks.length * spec.blockSize) :
    layer.rows.length =
      ceilDiv r.tokens.length perRow - r.exportFrom / perRow := by
  have most : ceilDiv r.tokens.length perRow ≤ blocks.length * ratio := by
    refine Nat.le_of_lt_succ ((Nat.div_lt_iff_lt_mul taken.perRowPos).mpr ?_)
    have positive := taken.perRowPos
    rw [Nat.succ_mul, Nat.mul_assoc, Nat.mul_comm ratio, ← taken.blockSize]
    omega
  rw [taken.rows, List.length_drop, List.length_take, length_blockRows,
    Nat.min_eq_left most]

/-- A token's row stands where the decoder looks for it. -/
theorem Taken.row {perRow ratio : Nat} {spec : Spec} {blocks : List Nat}
    {layer : LayerPages} (taken : Taken c r perRow spec blocks ratio layer)
    (covered : r.tokens.length ≤ blocks.length * spec.blockSize) {t : Nat}
    (low : r.exportFrom / perRow * perRow ≤ t) (high : t < r.tokens.length) :
    ∃ block, blocks[t / spec.blockSize]? = some block ∧
      layer.rows[(t - r.exportFrom / perRow * perRow) / perRow]? =
        some (block * ratio + t % spec.blockSize / perRow) := by
  have inBlock : t / spec.blockSize < blocks.length := by
    refine Nat.div_lt_of_lt_mul ?_
    rw [Nat.mul_comm]
    omega
  have split : t / perRow / ratio = t / spec.blockSize := by
    rw [taken.blockSize, Nat.div_div_eq_div_mul]
  have part : t / perRow % ratio = t % spec.blockSize / perRow := by
    rw [taken.blockSize, Nat.mod_mul_right_div_self]
  refine ⟨blocks[t / spec.blockSize], List.getElem?_eq_getElem inBlock, ?_⟩
  have here : (blockRows blocks ratio)[t / perRow]? =
      some (blocks[t / spec.blockSize] * ratio +
        t % spec.blockSize / perRow) := by
    rw [← part]
    refine getElem?_blockRows taken.ratioPos ?_
    rw [split]
    exact List.getElem?_eq_getElem inBlock
  have position : (t - r.exportFrom / perRow * perRow) / perRow =
      t / perRow - r.exportFrom / perRow := by
    rw [Nat.mul_comm (r.exportFrom / perRow), Nat.sub_mul_div]
  have least : r.exportFrom / perRow ≤ t / perRow :=
    (Nat.le_div_iff_mul_le taken.perRowPos).mpr low
  have most : t / perRow < ceilDiv r.tokens.length perRow := by
    refine (Nat.le_div_iff_mul_le taken.perRowPos).mpr ?_
    have below := Nat.div_mul_le_self t perRow
    rw [Nat.succ_mul]
    omega
  rw [taken.rows, position, List.getElem?_drop,
    Nat.add_sub_cancel' least, List.getElem?_take_of_lt most, here]

end

end Kv
end Mcdma
