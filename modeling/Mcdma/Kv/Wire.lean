import Mcdma.Lib.Layout

/-!
# Message headers of the handoff protocol

Every message of `mcdma_kv/wire.py` starts with a header of 128 bytes.  What is
packed unpacks to the same header, and only a header whose values fit their
fields is packed.
-/

namespace Mcdma
namespace Kv

open Bytes

/-- `MAGIC`. -/
def magic : List UInt8 := [0x4d, 0x4b, 0x56, 0x48]

/-- `VERSION`. -/
def version : Nat := 1

/-- `HEADER_BYTES`. -/
def headerBytes : Nat := 128

/-- What is raised while a request is answered. -/
inductive Fault
  /-- `ValueError`, of which `WireError` is one. -/
  | value (text : String)
  /-- `struct.error`: a value does not fit its field. -/
  | range
  /-- `ZeroDivisionError`. -/
  | zeroDivision
  /-- `IndexError`. -/
  | index
  /-- `AttributeError`: what should be an object has no `get`. -/
  | attribute
  /-- `MailboxError`. -/
  | mailbox (text : String)
deriving DecidableEq

namespace Kind

def open_ : Nat := 1
def manifest : Nat := 2
def wait : Nat := 3
def error : Nat := 4
def pull : Nat := 5
def data : Nat := 6
def close : Nat := 7
def ack : Nat := 8

end Kind

/-- `_KINDS`. -/
def kinds : List Nat := [1, 2, 3, 4, 5, 6, 7, 8]

/-- `_CARRIERS`: kinds whose payload follows the header. -/
def carriers : List Nat :=
  [Kind.open_, Kind.manifest, Kind.error, Kind.data]

/-- `CHECKED`: the flag that says that the checksum is set. -/
def checked : Nat := 1

/-- `Header`. -/
structure Header where
  kind : Nat
  handoff : List UInt8
  frame : Nat := 0
  frames : Nat := 0
  layer : Nat := 0
  flags : Nat := 0
  rowStart : Nat := 0
  rows : Nat := 0
  nbytes : Nat := 0
  crc : Nat := 0
deriving DecidableEq

namespace Header

variable (h : Header)

/-- The fields of `_LAYOUT`, each a number with its width but the magic and
the handoff. -/
def chunks : List (List UInt8) :=
  [magic, lowBytes 2 version, lowBytes 2 h.kind, h.handoff,
    lowBytes 4 h.frame, lowBytes 4 h.frames, lowBytes 4 h.layer,
    lowBytes 4 h.flags, lowBytes 8 h.rowStart, lowBytes 8 h.rows,
    lowBytes 8 h.nbytes, lowBytes 4 h.crc]

/-- Every number fits its field. -/
def Fits : Prop :=
  (h.frame < 2 ^ 32 ∧ h.frames < 2 ^ 32 ∧ h.layer < 2 ^ 32 ∧
    h.flags < 2 ^ 32) ∧
  (h.rowStart < 2 ^ 64 ∧ h.rows < 2 ^ 64 ∧ h.nbytes < 2 ^ 64) ∧
    h.crc < 2 ^ 32

instance : Decidable h.Fits := by
  unfold Fits
  infer_instance

/-- `pack`. -/
def pack : Except Fault (List UInt8) :=
  if h.kind ∉ kinds ∨ h.handoff.length ≠ 16 then
    .error (.value "a handoff header needs a known kind and a 16-byte id")
  else if ¬ h.Fits then .error .range
  else .ok (h.chunks.flatten ++ List.replicate (headerBytes - 68) 0)

end Header

/-- The header that the fields of a message give. -/
def readHeader (payload : List UInt8) : Header where
  kind := field payload 6 2
  handoff := slice payload 8 16
  frame := field payload 24 4
  frames := field payload 28 4
  layer := field payload 32 4
  flags := field payload 36 4
  rowStart := field payload 40 8
  rows := field payload 48 8
  nbytes := field payload 56 8
  crc := field payload 64 4

/-- `unpack`. -/
def unpack (payload : List UInt8) : Except String Header :=
  if payload.length < headerBytes then
    .error "message is shorter than a handoff header"
  else if slice payload 0 4 ≠ magic ∨ field payload 4 2 ≠ version then
    .error "message is not a KV handoff protocol 1 header"
  else
    let header := readHeader payload
    if header.kind ∉ kinds then
      .error s!"unknown handoff message kind {header.kind}"
    else if header.kind ∈ carriers ∧
        payload.length < headerBytes + header.nbytes then
      .error "handoff payload is shorter than its header says"
    else .ok header

/-- `body`. -/
def body (payload : List UInt8) (header : Header) : List UInt8 :=
  slice payload headerBytes header.nbytes

/-! ## Round trip -/

section

variable {h : Header} {bytes rest payload : List UInt8}

theorem Header.pack_ok (packed : h.pack = .ok bytes) :
    (h.kind ∈ kinds ∧ h.handoff.length = 16 ∧ h.Fits) ∧
      bytes = h.chunks.flatten ++ List.replicate (headerBytes - 68) 0 := by
  unfold Header.pack at packed
  split at packed
  · cases packed
  · next known =>
      split at packed
      · cases packed
      · next fits =>
          rw [not_or, not_not, not_not] at known
          exact ⟨⟨known.1, known.2, not_not.mp fits⟩,
            (Except.ok.inj packed).symm⟩

theorem Header.length_pack (packed : h.pack = .ok bytes) :
    bytes.length = headerBytes := by
  obtain ⟨⟨-, sixteen, -⟩, rfl⟩ := h.pack_ok packed
  simp [Header.chunks, magic, headerBytes, sixteen]

theorem chunk_widths (sixteen : h.handoff.length = 16) :
    h.chunks.map List.length = [4, 2, 2, 16, 4, 4, 4, 4, 8, 8, 8, 4] := by
  simp [Header.chunks, magic, sixteen]

/-- A field of a packed message. -/
theorem slice_chunk (index : Nat) (sixteen : h.handoff.length = 16)
    {chunk : List UInt8} (here : h.chunks[index]? = some chunk) (skip : Nat)
    (place : ([4, 2, 2, 16, 4, 4, 4, 4, 8, 8, 8, 4].take index).sum = skip) :
    slice (h.chunks.flatten ++ rest) skip chunk.length = chunk := by
  have read := slice_flatten h.chunks rest here
  rwa [chunk_widths sixteen, place] at read

theorem field_chunk (index : Nat) (sixteen : h.handoff.length = 16)
    {width value : Nat} (small : value < 256 ^ width) (skip : Nat)
    (here : h.chunks[index]? = some (lowBytes width value))
    (place : ([4, 2, 2, 16, 4, 4, 4, 4, 8, 8, 8, 4].take index).sum = skip) :
    field (h.chunks.flatten ++ rest) skip width = value := by
  have read : slice (h.chunks.flatten ++ rest) skip
      (lowBytes width value).length = lowBytes width value :=
    slice_chunk index sixteen here skip place
  rw [length_lowBytes] at read
  rw [field, read, number_lowBytes, Nat.mod_eq_of_lt small]

/-- The header of a packed message is read as it was. -/
theorem readHeader_chunks (known : h.kind ∈ kinds)
    (sixteen : h.handoff.length = 16) (fits : h.Fits) :
    readHeader (h.chunks.flatten ++ rest) = h := by
  obtain ⟨⟨frame, frames, layer, flags⟩, ⟨rowStart, rows, nbytes⟩, crc⟩ :=
    fits
  have small : h.kind < 256 ^ 2 := by
    have below : ∀ kind ∈ kinds, kind < 256 ^ 2 := by decide
    exact below _ known
  have handoff : slice (h.chunks.flatten ++ rest) 8 16 = h.handoff := by
    have read : slice (h.chunks.flatten ++ rest) 8 h.handoff.length =
        h.handoff := slice_chunk 3 sixteen rfl 8 rfl
    rwa [sixteen] at read
  unfold readHeader
  rw [handoff, field_chunk 2 sixteen small 6 rfl rfl,
    field_chunk 4 sixteen (by simpa using frame) 24 rfl rfl,
    field_chunk 5 sixteen (by simpa using frames) 28 rfl rfl,
    field_chunk 6 sixteen (by simpa using layer) 32 rfl rfl,
    field_chunk 7 sixteen (by simpa using flags) 36 rfl rfl,
    field_chunk 8 sixteen (by simpa using rowStart) 40 rfl rfl,
    field_chunk 9 sixteen (by simpa using rows) 48 rfl rfl,
    field_chunk 10 sixteen (by simpa using nbytes) 56 rfl rfl,
    field_chunk 11 sixteen (by simpa using crc) 64 rfl rfl]

/-- A packed header with its payload unpacks to the header. -/
theorem unpack_pack (packed : h.pack = .ok bytes)
    (whole : h.kind ∈ carriers → h.nbytes ≤ rest.length) :
    unpack (bytes ++ rest) = .ok h := by
  have length := h.length_pack packed
  obtain ⟨⟨known, sixteen, fits⟩, rfl⟩ := h.pack_ok packed
  have front : slice (h.chunks.flatten ++
      (List.replicate (headerBytes - 68) 0 ++ rest)) 0 4 = magic :=
    slice_chunk 0 sixteen rfl 0 rfl
  have second : field (h.chunks.flatten ++
      (List.replicate (headerBytes - 68) 0 ++ rest)) 4 2 = version :=
    field_chunk 1 sixteen (by decide) 4 rfl rfl
  have read : readHeader (h.chunks.flatten ++
      (List.replicate (headerBytes - 68) 0 ++ rest)) = h :=
    readHeader_chunks known sixteen fits
  rw [unpack, List.length_append, length, if_neg (by omega),
    List.append_assoc, front, second, if_neg (by simp)]
  dsimp only
  rw [read, if_neg (not_not.mpr known), if_neg]
  rintro ⟨carries, short⟩
  have enough := whole carries
  omega

/-- An unpacked header has a known kind and a handoff of 16 bytes. -/
theorem unpack_sound (read : unpack payload = .ok h) :
    h.kind ∈ kinds ∧ h.handoff.length = 16 := by
  unfold unpack at read
  split at read
  · cases read
  · next long =>
      split at read
      · cases read
      · dsimp only at read
        split at read
        · cases read
        · next known =>
            split at read
            · cases read
            · rw [← Except.ok.inj read]
              refine ⟨not_not.mp known, length_slice _ _ _ ?_⟩
              rw [headerBytes] at long
              omega

end

end Kv
end Mcdma
