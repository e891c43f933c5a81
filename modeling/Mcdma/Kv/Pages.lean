import Mcdma.Kv.Geometry
import Mcdma.Kv.Wire
import Mathlib.Tactic.Ring

/-!
# Exported pages

A layer's export is some rows of its cache tensor.  One frame of it is copied
out as the bytes of the rows it names, so that its size is their number times
the size of a row.
-/

namespace Mcdma
namespace Kv

/-! ## Tensors -/

/-- The product of some sizes. -/
def product (sizes : List Nat) : Nat :=
  sizes.foldl (fun size value => size * value) 1

/-- A tensor: its shape and the bytes of each element. -/
structure Tensor where
  shape : List Nat
  itemsize : Nat
  element : List Nat → List UInt8
  sized : ∀ index, (element index).length = itemsize

/-- The indices of a shape, the last dimension running fastest. -/
def indices : List Nat → List (List Nat)
  | [] => [[]]
  | size :: rest =>
      (List.range size).flatMap fun index =>
        (indices rest).map fun behind => index :: behind

namespace Tensor

variable (t : Tensor)

/-- The bytes of a contiguous tensor. -/
def bytes : List UInt8 := (indices t.shape).flatMap t.element

/-- `index_select`, where every row is there. -/
def indexSelect (dim : Nat) (rows : List Nat) : Tensor where
  shape := t.shape.set dim rows.length
  itemsize := t.itemsize
  element := fun index =>
    t.element (index.modify dim fun row => rows.getD row 0)
  sized := fun _ => t.sized _

end Tensor

/-! ## A layer's rows -/

/-- `LayerPages`. -/
structure LayerPages where
  index : Nat
  tensor : Tensor
  blockDim : Nat
  rows : List Nat
  dims : List Label
  dtype : String
  heads : Nat := 0
  totalHeads : Nat := 0
  headSize : Nat := 0
  latentSize : Nat := 0
  ropeSize : Int := 0

/-- What `to_dict` says of a layer: with latent rows its sizes, else its
heads. -/
structure Entry where
  index : Nat
  shape : List Nat
  dims : List Label
  dtype : String
  sizes : (Nat × Int) ⊕ (Nat × Nat × Nat)

namespace LayerPages

variable (layer : LayerPages)

/-- `shape`. -/
def shape : List Nat :=
  (layer.dims.zip layer.tensor.shape).map fun entry =>
    if entry.1 = .block then layer.rows.length else entry.2

/-- `row_bytes`. -/
def rowBytes : Nat :=
  product ((layer.dims.zip layer.shape).map fun entry =>
    if entry.1 = .block then 1 else entry.2) * layer.tensor.itemsize

/-- `to_dict`. -/
def toDict : Entry where
  index := layer.index
  shape := layer.shape
  dims := layer.dims
  dtype := layer.dtype
  sizes :=
    if .latent ∈ layer.dims then .inl (layer.latentSize, layer.ropeSize)
    else .inr (layer.heads, layer.totalHeads, layer.headSize)

/-- `_fill`: the bytes of some rows, if they fit where they are copied. -/
def fill (start count room : Nat) : Except Fault (List UInt8) :=
  let rows := (layer.rows.drop start).take count
  if rows.all (fun row => row < layer.tensor.shape.getD layer.blockDim 0) =
      false then .error .index
  else
    let flat := (layer.tensor.indexSelect layer.blockDim rows).bytes
    if flat.length = 0 ∨ room < flat.length then
      .error (.value "the buffer does not hold the pages")
    else .ok flat

/-- One dimension holds the rows, and every dimension has a label. -/
structure Sound : Prop where
  labelled : layer.dims.length = layer.tensor.shape.length
  block : layer.dims[layer.blockDim]? = some .block
  only : ∀ dim : Nat, layer.dims[dim]? = some .block → dim = layer.blockDim

end LayerPages

/-! ## Sizes -/

section

theorem foldl_product (sizes : List Nat) (start : Nat) :
    sizes.foldl (fun size value => size * value) start =
      start * product sizes := by
  induction sizes generalizing start with
  | nil => simp [product]
  | cons size rest inductionHypothesis =>
      rw [product, List.foldl_cons, List.foldl_cons, inductionHypothesis,
        inductionHypothesis]
      ring

@[simp] theorem product_nil : product [] = 1 := rfl

@[simp] theorem product_cons (size : Nat) (rest : List Nat) :
    product (size :: rest) = size * product rest := by
  rw [product, List.foldl_cons, Nat.one_mul, foldl_product]

theorem length_indices (shape : List Nat) :
    (indices shape).length = product shape := by
  induction shape with
  | nil => rfl
  | cons size rest inductionHypothesis =>
      rw [indices, List.length_flatMap, product_cons]
      simp [inductionHypothesis]

theorem Tensor.length_bytes (t : Tensor) :
    t.bytes.length = product t.shape * t.itemsize := by
  rw [Tensor.bytes, List.length_flatMap, ← length_indices]
  simp [t.sized]

/-- A dimension that holds rows leaves the others to each row. -/
theorem product_set {dims : List Label} {sizes : List Nat} {dim : Nat}
    (count : Nat) (labelled : dims.length = sizes.length)
    (block : dims[dim]? = some .block)
    (only : ∀ other : Nat, dims[other]? = some .block → other = dim) :
    product (sizes.set dim count) =
      count * product ((dims.zip sizes).map fun entry =>
        if entry.1 = .block then 1 else entry.2) := by
  induction dims generalizing sizes dim with
  | nil => cases block
  | cons label dims inductionHypothesis =>
      cases sizes with
      | nil => cases labelled
      | cons size sizes =>
          have lengths : dims.length = sizes.length := by
            simpa using labelled
          cases dim with
          | zero =>
              have here : label = .block := Option.some.inj block
              have others : (dims.zip sizes).map (fun entry =>
                  if entry.1 = .block then 1 else entry.2) = sizes := by
                have apart : ∀ entry ∈ dims.zip sizes,
                    (if entry.1 = .block then 1 else entry.2) =
                      entry.2 := by
                  intro entry member
                  rw [if_neg]
                  intro same
                  have there := (List.of_mem_zip member).1
                  rw [same] at there
                  obtain ⟨other, place⟩ := List.mem_iff_getElem?.mp there
                  exact absurd (only (other + 1) place) (by omega)
                rw [List.map_congr_left apart]
                exact List.map_snd_zip (Nat.le_of_eq lengths.symm)
              rw [List.set_cons_zero, product_cons, List.zip_cons_cons,
                List.map_cons, product_cons, if_pos here, others,
                Nat.one_mul]
          | succ dim =>
              have here : label ≠ .block := by
                rintro rfl
                exact absurd (only 0 rfl) (by omega)
              have later := inductionHypothesis lengths block
                fun other place => by
                  have index := only (other + 1) place
                  omega
              rw [List.set_cons_succ, product_cons, later,
                List.zip_cons_cons, List.map_cons, product_cons, if_neg here]
              ring

variable {layer : LayerPages}

theorem zip_map_zip (dims : List Label) (sizes : List Nat)
    (f : Label × Nat → Nat) :
    dims.zip ((dims.zip sizes).map f) =
      (dims.zip sizes).map fun entry => (entry.1, f entry) := by
  induction dims generalizing sizes with
  | nil => rfl
  | cons label dims inductionHypothesis =>
      cases sizes with
      | nil => rfl
      | cons size sizes => simp [inductionHypothesis]

theorem LayerPages.rowBytes_eq (layer : LayerPages) :
    layer.rowBytes =
      product ((layer.dims.zip layer.tensor.shape).map fun entry =>
        if entry.1 = .block then 1 else entry.2) *
          layer.tensor.itemsize := by
  rw [LayerPages.rowBytes, LayerPages.shape, zip_map_zip, List.map_map]
  congr 2
  refine List.map_congr_left fun entry _ => ?_
  by_cases block : entry.1 = .block <;> simp [block]

/-- Some rows take the size of a row for each of them. -/
theorem LayerPages.length_select (sound : layer.Sound) {start count : Nat}
    (there : start + count ≤ layer.rows.length) :
    (layer.tensor.indexSelect layer.blockDim
      ((layer.rows.drop start).take count)).bytes.length =
        count * layer.rowBytes := by
  have rows : ((layer.rows.drop start).take count).length = count := by
    rw [List.length_take, List.length_drop]
    omega
  rw [Tensor.length_bytes, LayerPages.rowBytes_eq]
  dsimp only [Tensor.indexSelect]
  rw [product_set _ sound.labelled sound.block sound.only, rows,
    Nat.mul_assoc]

/-- A frame's pages fit where they are copied. -/
theorem LayerPages.fill_ok (sound : layer.Sound) {start count room : Nat}
    {flat : List UInt8} (filled : layer.fill start count room = .ok flat)
    (there : start + count ≤ layer.rows.length) :
    flat.length = count * layer.rowBytes ∧ flat.length ≤ room := by
  have size := LayerPages.length_select sound there
  unfold LayerPages.fill at filled
  dsimp only at filled
  split at filled
  · cases filled
  · split at filled
    · cases filled
    · next fits =>
        obtain rfl := Except.ok.inj filled
        exact ⟨size, by omega⟩

/-- Rows that are there are copied where they fit. -/
theorem LayerPages.fill_total (sound : layer.Sound) {start count room : Nat}
    (inside : ∀ row ∈ layer.rows,
      row < layer.tensor.shape.getD layer.blockDim 0)
    (there : start + count ≤ layer.rows.length)
    (nonzero : 0 < count * layer.rowBytes)
    (fits : count * layer.rowBytes ≤ room) :
    ∃ flat, layer.fill start count room = .ok flat := by
  have size := LayerPages.length_select sound there
  have all : ((layer.rows.drop start).take count).all (fun row =>
      row < layer.tensor.shape.getD layer.blockDim 0) = true := by
    rw [List.all_eq_true]
    intro row member
    exact decide_eq_true
      (inside row (List.mem_of_mem_drop (List.mem_of_mem_take member)))
  unfold LayerPages.fill
  dsimp only
  rw [if_neg (by rw [all]; simp), if_neg (by rw [size]; omega)]
  exact ⟨_, rfl⟩

end

end Kv
end Mcdma
