import Mcdma.Command.Codec

/-!
# Command mailboxes

The part of a command that does not fit its entry lies in a chain of blocks:
512 bytes of data, the address of the next block, a number and a token, and two
checksums.  `prepare_mailboxes` lays out such a chain and `collect_mailboxes`
takes the data out of one that the device has filled.
-/

namespace Mcdma
namespace Command

open Verbs (store)
open Verbs.Kernel (writeBe32 writeBe64)

/-- The blocks that so many bytes take. -/
def blockCount (bytes : Nat) : Nat :=
  (bytes + mailboxDataBytes - 1) / mailboxDataBytes

/-- The bytes that lie in a block. -/
def blockBytes (bytes i : Nat) : Nat :=
  min (bytes - i * mailboxDataBytes) mailboxDataBytes

/-- `mailbox_extent`. -/
def mailboxExtent (bytes capacity : Nat) (dma : UInt64) : Bool :=
  if bytes = 0 ∨ maxCommandBytes - 16 < bytes ∨ dmaMissing dma then false
  else
    let count := blockCount bytes
    decide (count ≤ maxMailboxes ∧ count * mailboxStride ≤ capacity ∧
      dma ≤ Verbs.uint64Max - UInt64.ofNat (count * mailboxStride))

/-- The address that a block names: that of the next one. -/
def nextBlock (dma : UInt64) (count i : Nat) : UInt64 :=
  if i + 1 < count then dma + UInt64.ofNat ((i + 1) * mailboxStride) else 0

/-- One round of `prepare_mailboxes`. -/
def fillBlock (b : Nat) (data : List UInt8) (next : UInt64) (index : UInt32)
    (token : UInt8) (m : Mem) : Mem :=
  let m := store m b data
  let m := writeBe64 m (b + 0x230) next
  let m := writeBe32 m (b + 0x238) index
  let m := store m (b + 0x23d) [token]
  let m := store m (b + 0x23e) [signature m (b + 0x200) 0x3e]
  store m (b + 0x23f) [signature m b 0x23f]

/-- The data that a block is filled with, if there are any. -/
def blockData (payload : Option Mem) (bytes i : Nat) : List UInt8 :=
  match payload with
  | none => []
  | some source => source.read (i * mailboxDataBytes) (blockBytes bytes i)

/-- The rounds of `prepare_mailboxes`. -/
def prepareRounds (dma : UInt64) (payload : Option Mem) (bytes : Nat)
    (token : UInt8) (rounds : Nat) (blocks : Mem) : Mem :=
  (List.range rounds).foldl
    (fun m i => fillBlock (i * mailboxStride) (blockData payload bytes i)
      (nextBlock dma (blockCount bytes) i) (UInt32.ofNat i) token m)
    (store blocks 0 (List.replicate (blockCount bytes * mailboxStride) 0))

/-- `prepare_mailboxes`. -/
def prepareMailboxes (blocks : Mem) (capacity : Nat) (dma : UInt64)
    (payload : Option Mem) (bytes : Nat) (token : UInt8) : Error × Mem :=
  if mailboxExtent bytes capacity dma = false then (.invalidLength, blocks)
  else if token = 0 then (.invalidToken, blocks)
  else
    (.none, prepareRounds dma payload bytes token (blockCount bytes) blocks)

/-- A block has the pointer, the number and the token of the chain. -/
def inChain (blocks : Mem) (dma : UInt64) (token : UInt8) (count i : Nat) :
    Bool :=
  readBe64 blocks (i * mailboxStride + 0x230) == nextBlock dma count i &&
    (readBe32 blocks (i * mailboxStride + 0x238)).toNat == i &&
    blocks (i * mailboxStride + 0x23d) == token

/-- The rounds that copy the data out. -/
def collectRounds (blocks : Mem) (bytes rounds : Nat) (payload : Mem) : Mem :=
  (List.range rounds).foldl
    (fun m i => store m (i * mailboxDataBytes)
      (blocks.read (i * mailboxStride) (blockBytes bytes i))) payload

/-- `collect_mailboxes`: the answer and the caller's output. -/
def collectMailboxes (blocks : Mem) (capacity : Nat) (dma : UInt64)
    (payload : Mem) (bytes : Nat) (token : UInt8) : Error × Mem :=
  if mailboxExtent bytes capacity dma = false then (.invalidLength, payload)
  else if token = 0 then (.invalidToken, payload)
  else if (List.range (blockCount bytes)).all
      (inChain blocks dma token (blockCount bytes)) = false then
    (.badMailbox, payload)
  else (.none, collectRounds blocks bytes (blockCount bytes) payload)

/-- The addresses of blocks met from one on, following the pointers. -/
def chain (blocks : Mem) (dma : UInt64) : Nat → UInt64 → List UInt64
  | 0, _ => []
  | fuel + 1, address =>
      if address = 0 then []
      else
        address :: chain blocks dma fuel
          (readBe64 blocks ((address - dma).toNat + 0x230))

/-! ## One block -/

section

variable {data : List UInt8} {next : UInt64} {index : UInt32} {token : UInt8}

/-- A block filled in an otherwise empty memory. -/
def record (data : List UInt8) (next : UInt64) (index : UInt32)
    (token : UInt8) : Mem :=
  fillBlock 0 data next index token fun _ => 0

/-- The block before its checksums. -/
def body (data : List UInt8) (next : UInt64) (index : UInt32)
    (token : UInt8) : Mem :=
  store (writeBe32 (writeBe64 (store (fun _ => 0) 0 data) 0x230 next) 0x238
    index) 0x23d [token]

/-- A checksum over a part of a window. -/
theorem signature_shows {m written image : Mem} {b off count : Nat}
    (within : off + count ≤ mailboxStride)
    (shown : Mem.Shows image b mailboxStride m written) :
    signature written (b + off) count = signature image off count := by
  refine signature_congr fun j below => ?_
  rw [Nat.add_assoc]
  exact shown.inside (by omega)

theorem signed_shows {m written image : Mem} {b : Nat} (place start : Nat)
    {count : Nat} (here : place < mailboxStride)
    (within : start + count ≤ mailboxStride)
    (shown : Mem.Shows image b mailboxStride m written) :
    Mem.Shows (store image place [signature image start count]) b
      mailboxStride m
      (store written (b + place) [signature written (b + start) count]) := by
  rw [signature_shows within shown]
  exact shown.apply (by rw [List.length_singleton]; exact here)

/-- What a round leaves in its block does not depend on where the block is, and
nothing else is written. -/
theorem fillBlock_shows {m written image : Mem} {b : Nat}
    (short : data.length ≤ mailboxDataBytes)
    (shown : Mem.Shows image b mailboxStride m written) :
    Mem.Shows (fillBlock 0 data next index token image) b mailboxStride m
      (fillBlock b data next index token written) := by
  have room : 0 + data.length ≤ mailboxStride := by
    simp only [mailboxDataBytes, mailboxStride] at *
    omega
  have filled : Mem.Shows (store image 0 data) b mailboxStride m
      (store written b data) := shown.apply room
  have pointed := Verbs.User.putBe64_shows filled 0x230 (by decide) next
  have numbered := Verbs.User.putBe32_shows pointed 0x238 (by decide) index
  rw [← Verbs.Kernel.writeBe64_eq, ← Verbs.Kernel.writeBe32_eq] at numbered
  have tagged := numbered.apply (show 0x23d + [token].length ≤ _ by
    simp [mailboxStride])
  have controlled := signed_shows 0x23e 0x200 (by decide)
    (by decide : 0x200 + 0x3e ≤ _) tagged
  exact signed_shows 0x23f 0 (by decide) (by decide : 0 + 0x23f ≤ _) controlled

/-- The block with the checksum of its control bytes. -/
def controlled (data : List UInt8) (next : UInt64) (index : UInt32)
    (token : UInt8) : Mem :=
  store (body data next index token) 0x23e
    [signature (body data next index token) 0x200 0x3e]

/-- The checksums come last. -/
theorem record_eq : record data next index token =
    store (controlled data next index token) 0x23f
      [signature (controlled data next index token) 0 0x23f] := rfl

theorem record_below {address : Nat} (below : address < 0x23e) :
    record data next index token address =
      body data next index token address := by
  rw [record_eq, store_other _ (by omega), controlled,
    store_other _ (by omega)]

theorem body_data {off : Nat} (inside : off < mailboxDataBytes) :
    body data next index token off = store (fun _ => 0) 0 data off := by
  unfold mailboxDataBytes at inside
  rw [body, store_other _ (by omega), writeBe32_other _ _ (by omega),
    writeBe64_other _ _ (by omega)]

/-- The data of a block are read back. -/
theorem record_data (short : data.length ≤ mailboxDataBytes) :
    (record data next index token).read 0 data.length = data := by
  apply List.ext_getElem (Mem.length_read _ _ _)
  intro off left right
  have stored := store_at (fun _ => 0) 0 data right
  rw [Nat.zero_add] at stored
  simp only [Mem.read, List.getElem_map, List.getElem_range, Nat.zero_add]
  unfold mailboxDataBytes at short
  rw [record_below (by omega), body_data (by unfold mailboxDataBytes; omega),
    stored, List.getD_eq_getElem _ _ right]

theorem readBe64_record :
    readBe64 (record data next index token) 0x230 = next := by
  refine Eq.trans (readBe64_congr fun off inside => ?_)
    (readBe64_writeBe64 (store (fun _ => 0) 0 data) 0x230 next)
  rw [record_below (by omega), body, store_other _ (by omega),
    writeBe32_other _ _ (by omega)]

theorem readBe32_record :
    readBe32 (record data next index token) 0x238 = index := by
  refine Eq.trans (readBe32_congr fun off inside => ?_)
    (readBe32_writeBe32 (writeBe64 (store (fun _ => 0) 0 data) 0x230 next)
      0x238 index)
  rw [record_below (by omega), body, store_other _ (by omega)]

theorem record_token : record data next index token 0x23d = token := by
  have stored := store_at (writeBe32 (writeBe64 (store (fun _ => 0) 0 data)
    0x230 next) 0x238 index) 0x23d [token] (by simp : 0 < [token].length)
  rw [record_below (by decide)]
  exact stored

/-- The bytes of both checksums are zero before them. -/
theorem body_blank (short : data.length ≤ mailboxDataBytes) :
    Blank (body data next index token) 0x23e 2 := by
  have empty : Blank (fun _ => 0) 0x23e 2 := fun _ _ => rfl
  have filled := empty.store
    (Or.inl (by unfold mailboxDataBytes at short; omega :
      0 + data.length ≤ 0x23e))
  have pointed := filled.writeBe64 next (Or.inl (by decide : 0x230 + 8 ≤ _))
  have numbered := pointed.writeBe32 index
    (Or.inl (by decide : 0x238 + 4 ≤ _))
  exact numbered.store (Or.inl (by simp))

/-- The control bytes of a block sum up to ones. -/
theorem xorBytes_control (short : data.length ≤ mailboxDataBytes) :
    xorBytes (record data next index token) 0x200 0x3f = 0xff := by
  have zero : body data next index token (0x200 + 0x3e) = 0 :=
    body_blank short 0 (by decide)
  have signed := xorBytes_signed (body data next index token) 0x200 0x3f 0x3e
    (by decide) zero
  rw [signature_of_zero zero] at signed
  rw [← signed]
  refine xorBytes_congr fun off inside => ?_
  rw [record_eq, store_other _ (by omega)]
  rfl

/-- And so do all its bytes. -/
theorem xorBytes_record (short : data.length ≤ mailboxDataBytes) :
    xorBytes (record data next index token) 0 0x240 = 0xff := by
  have zero : controlled data next index token (0 + 0x23f) = 0 := by
    rw [controlled, store_other _ (by simp)]
    exact body_blank short 1 (by decide)
  have signed := xorBytes_signed (controlled data next index token) 0 0x240
    0x23f (by decide) zero
  rwa [signature_of_zero zero] at signed

end

/-! ## The chain of blocks -/

section

variable {dma : UInt64} {payload : Option Mem} {bytes : Nat} {token : UInt8}

theorem length_blockData (payload : Option Mem) (bytes i : Nat) :
    (blockData payload bytes i).length ≤ mailboxDataBytes := by
  cases payload with
  | none => simp [blockData]
  | some source =>
      rw [blockData, Mem.length_read, blockBytes]
      exact Nat.min_le_right _ _

/-- The record in each block. -/
def blockRecord (dma : UInt64) (payload : Option Mem) (bytes : Nat)
    (token : UInt8) (i : Nat) : Mem :=
  record (blockData payload bytes i) (nextBlock dma (blockCount bytes) i)
    (UInt32.ofNat i) token

/-- The rounds so far have filled their blocks and left the others empty. -/
theorem prepareRounds_at (blocks : Mem) {rounds : Nat}
    (within : rounds ≤ blockCount bytes) {i off : Nat}
    (inside : i < blockCount bytes) (below : off < mailboxStride) :
    prepareRounds dma payload bytes token rounds blocks
        (i * mailboxStride + off) =
      if i < rounds then blockRecord dma payload bytes token i off else 0 := by
  induction rounds generalizing i off with
  | zero =>
      have address : i * mailboxStride + off <
          blockCount bytes * mailboxStride := by
        have upto := Nat.mul_le_mul_right mailboxStride
          (Nat.succ_le_of_lt inside)
        rw [Nat.succ_mul] at upto
        omega
      have cleared := store_at blocks 0
        (List.replicate (blockCount bytes * mailboxStride) 0)
        (by rwa [List.length_replicate])
      rw [Nat.zero_add] at cleared
      rw [if_neg (Nat.not_lt_zero i)]
      exact cleared.trans (List.getD_replicate 0 address)
  | succ rounds inductionHypothesis =>
      have before := @inductionHypothesis (by omega)
      have empty : Mem.Shows (fun _ => 0) (rounds * mailboxStride)
          mailboxStride (prepareRounds dma payload bytes token rounds blocks)
          (prepareRounds dma payload bytes token rounds blocks) := by
        intro address
        split
        · next window =>
            obtain ⟨place, rfl⟩ := Nat.exists_eq_add_of_le window.1
            rw [before (by omega) (by omega), if_neg (lt_irrefl rounds)]
        · rfl
      have filled : Mem.Shows (blockRecord dma payload bytes token rounds)
          (rounds * mailboxStride) mailboxStride
          (prepareRounds dma payload bytes token rounds blocks)
          (fillBlock (rounds * mailboxStride) (blockData payload bytes rounds)
            (nextBlock dma (blockCount bytes) rounds) (UInt32.ofNat rounds)
            token (prepareRounds dma payload bytes token rounds blocks)) :=
        fillBlock_shows (length_blockData payload bytes rounds) empty
      have step : prepareRounds dma payload bytes token (rounds + 1) blocks =
          fillBlock (rounds * mailboxStride) (blockData payload bytes rounds)
            (nextBlock dma (blockCount bytes) rounds) (UInt32.ofNat rounds)
            token (prepareRounds dma payload bytes token rounds blocks) := by
        rw [prepareRounds, List.range_succ, List.foldl_append]
        rfl
      rw [step]
      rcases Nat.lt_trichotomy i rounds with earlier | same | later
      · have upto := Nat.mul_le_mul_right mailboxStride
          (Nat.succ_le_of_lt earlier)
        rw [Nat.succ_mul] at upto
        rw [filled.outside (by omega), before inside below, if_pos earlier,
          if_pos (by omega)]
      · subst same
        rw [filled.inside below, if_pos (by omega)]
      · have upto := Nat.mul_le_mul_right mailboxStride
          (Nat.succ_le_of_lt later)
        rw [Nat.succ_mul] at upto
        rw [filled.outside (by omega), before inside below,
          if_neg (by omega), if_neg (by omega)]

/-- Each block holds its record in the end. -/
theorem prepared_at (blocks : Mem) {i off : Nat} (inside : i < blockCount bytes)
    (below : off < mailboxStride) :
    prepareRounds dma payload bytes token (blockCount bytes) blocks
        (i * mailboxStride + off) = blockRecord dma payload bytes token i off := by
  rw [prepareRounds_at blocks le_rfl inside below, if_pos inside]

theorem readBe64_prepared (blocks : Mem) {i : Nat}
    (inside : i < blockCount bytes) :
    readBe64 (prepareRounds dma payload bytes token (blockCount bytes) blocks)
        (i * mailboxStride + 0x230) = nextBlock dma (blockCount bytes) i := by
  have same : readBe64 (prepareRounds dma payload bytes token
      (blockCount bytes) blocks) (i * mailboxStride + 0x230) =
        readBe64 (blockRecord dma payload bytes token i) 0x230 := by
    refine readBe64_congr fun off small => ?_
    rw [Nat.add_assoc]
    exact prepared_at blocks inside (by unfold mailboxStride; omega)
  exact same.trans readBe64_record

/-- The blocks prepared are in the chain. -/
theorem inChain_prepared (blocks : Mem) (extent : blockCount bytes ≤ maxMailboxes)
    {i : Nat} (inside : i < blockCount bytes) :
    inChain (prepareRounds dma payload bytes token (blockCount bytes) blocks)
      dma token (blockCount bytes) i = true := by
  have index : readBe32 (prepareRounds dma payload bytes token
      (blockCount bytes) blocks) (i * mailboxStride + 0x238) =
        readBe32 (blockRecord dma payload bytes token i) 0x238 := by
    refine readBe32_congr fun off small => ?_
    rw [Nat.add_assoc]
    exact prepared_at blocks inside (by unfold mailboxStride; omega)
  have written : readBe32 (blockRecord dma payload bytes token i) 0x238 =
      UInt32.ofNat i := readBe32_record
  have tag : prepareRounds dma payload bytes token (blockCount bytes) blocks
      (i * mailboxStride + 0x23d) = token :=
    (prepared_at blocks inside (by decide)).trans record_token
  have number : (UInt32.ofNat i).toNat = i := by
    unfold maxMailboxes at extent
    rw [UInt32.toNat_ofNat']
    omega
  rw [inChain, readBe64_prepared blocks inside, index, written, tag, number]
  simp

/-- A block starts inside the payload. -/
theorem start_le {i : Nat} (inside : i < blockCount bytes) :
    i * mailboxDataBytes ≤ bytes := by
  unfold blockCount mailboxDataBytes at *
  omega

/-- The rounds that copy out bring back the front of the payload. -/
theorem collectRounds_eq {blocks source : Mem} (out : Mem) {rounds : Nat}
    (within : rounds ≤ blockCount bytes)
    (same : ∀ i < blockCount bytes,
      blocks.read (i * mailboxStride) (blockBytes bytes i) =
        source.read (i * mailboxDataBytes) (blockBytes bytes i)) :
    collectRounds blocks bytes rounds out =
      store out 0 (source.read 0 (min (rounds * mailboxDataBytes) bytes)) := by
  induction rounds with
  | zero =>
      rw [Nat.zero_mul, Nat.zero_min]
      exact (Patch.apply_nil out 0).symm
  | succ rounds inductionHypothesis =>
      have here : rounds * mailboxDataBytes ≤ bytes :=
        start_le (by omega)
      have step : collectRounds blocks bytes (rounds + 1) out =
          store (collectRounds blocks bytes rounds out)
            (rounds * mailboxDataBytes)
            (blocks.read (rounds * mailboxStride) (blockBytes bytes rounds)) := by
        rw [collectRounds, List.range_succ, List.foldl_append]
        rfl
      have front := Mem.length_read source 0 (rounds * mailboxDataBytes)
      have upto : min ((rounds + 1) * mailboxDataBytes) bytes =
          rounds * mailboxDataBytes + blockBytes bytes rounds := by
        rw [blockBytes, Nat.succ_mul]
        omega
      rw [step, inductionHypothesis (by omega), same rounds (by omega),
        Nat.min_eq_left here, upto, Mem.read_add, Nat.zero_add]
      have joined := Patch.apply_split out 0
        (source.read 0 (rounds * mailboxDataBytes))
        (source.read (rounds * mailboxDataBytes) (blockBytes bytes rounds))
      rw [front, Nat.zero_add] at joined
      exact joined

/-- What `mailbox_extent` asks for, in numbers. -/
structure Extent (bytes capacity : Nat) (dma : UInt64) : Prop where
  nonzero : 1 ≤ bytes
  short : bytes ≤ 8176
  address : dma ≠ 0
  aligned : dma.toNat % 1024 = 0
  room : blockCount bytes * 1024 ≤ capacity
  top : dma.toNat + blockCount bytes * 1024 < 2 ^ 64

variable {capacity : Nat}

theorem Extent.count_le (extent : Extent bytes capacity dma) :
    blockCount bytes ≤ maxMailboxes := by
  have short := extent.short
  unfold blockCount mailboxDataBytes maxMailboxes
  omega

theorem Extent.accepted (extent : Extent bytes capacity dma) :
    mailboxExtent bytes capacity dma = true := by
  have count := extent.count_le
  obtain ⟨nonzero, short, address, aligned, room, top⟩ := extent
  unfold maxMailboxes at count
  have masked : dmaMissing dma = false := by
    have low : dma &&& UInt64.ofNat (mailboxStride - 1) = 0 := by
      apply UInt64.toNat_inj.mp
      rw [UInt64.toNat_and]
      exact (Nat.and_two_pow_sub_one_eq_mod dma.toNat 10).trans aligned
    simp [dmaMissing, address, low]
  have most : dma ≤ Verbs.uint64Max -
      UInt64.ofNat (blockCount bytes * mailboxStride) := by
    have size : (UInt64.ofNat (blockCount bytes * mailboxStride)).toNat =
        blockCount bytes * 1024 := by
      rw [UInt64.toNat_ofNat', mailboxStride]
      omega
    have max : Verbs.uint64Max.toNat = 2 ^ 64 - 1 := rfl
    rw [UInt64.le_iff_toNat_le, UInt64.toNat_sub_of_le, size, max]
    · omega
    · rw [UInt64.le_iff_toNat_le, size, max]
      omega
  unfold mailboxExtent
  rw [if_neg (by rw [masked]; unfold maxCommandBytes; simp; omega)]
  exact decide_eq_true ⟨count, room, most⟩

/-- The address of a block, without wrapping. -/
theorem Extent.toNat_block (extent : Extent bytes capacity dma) {i : Nat}
    (inside : i < blockCount bytes) :
    (dma + UInt64.ofNat (i * mailboxStride)).toNat = dma.toNat + i * 1024 := by
  have top := extent.top
  rw [UInt64.toNat_add, UInt64.toNat_ofNat', mailboxStride]
  omega

/-- Following the pointers from a block meets those behind it. -/
theorem chain_rounds (payload : Option Mem) (token : UInt8) (blocks : Mem)
    (extent : Extent bytes capacity dma) (extra : Nat) {left k : Nat} (whole : k + left = blockCount bytes) :
    chain (prepareRounds dma payload bytes token (blockCount bytes) blocks) dma
        (left + extra)
        (if left = 0 then 0 else dma + UInt64.ofNat (k * mailboxStride)) =
      (List.range' k left).map fun i =>
        dma + UInt64.ofNat (i * mailboxStride) := by
  induction left generalizing k with
  | zero =>
      cases extra with
      | zero => rfl
      | succ extra => simp [chain]
  | succ left inductionHypothesis =>
      have inside : k < blockCount bytes := by omega
      have place := extent.toNat_block inside
      have start : dma.toNat ≠ 0 := fun zero =>
        extent.address (UInt64.toNat_inj.mp zero)
      have nonzero : dma + UInt64.ofNat (k * mailboxStride) ≠ 0 := by
        intro zero
        rw [zero, UInt64.toNat_zero] at place
        omega
      have offset : (dma + UInt64.ofNat (k * mailboxStride) - dma).toNat =
          k * mailboxStride := by
        rw [UInt64.toNat_sub_of_le]
        · rw [place, mailboxStride]
          omega
        · rw [UInt64.le_iff_toNat_le, place]
          omega
      have next : nextBlock dma (blockCount bytes) k =
          if left = 0 then 0
          else dma + UInt64.ofNat ((k + 1) * mailboxStride) := by
        unfold nextBlock
        by_cases last : left = 0
        · rw [if_pos last, if_neg (by omega)]
        · rw [if_neg last, if_pos (by omega)]
      rw [Nat.succ_add, chain, if_neg (Nat.succ_ne_zero left), if_neg nonzero,
        offset, readBe64_prepared blocks inside, next,
        inductionHypothesis (by omega)]
      rfl

/-- Following the pointers meets the blocks in order and stops. -/
theorem chain_prepared (blocks : Mem) (extent : Extent bytes capacity dma)
    (extra : Nat) :
    chain (prepareRounds dma payload bytes token (blockCount bytes) blocks) dma
        (blockCount bytes + extra) dma =
      (List.range (blockCount bytes)).map fun i =>
        dma + UInt64.ofNat (i * mailboxStride) := by
  have positive : blockCount bytes ≠ 0 := by
    have nonzero := extent.nonzero
    unfold blockCount mailboxDataBytes
    omega
  have start : dma + UInt64.ofNat (0 * mailboxStride) = dma := by
    rw [Nat.zero_mul]
    exact UInt64.add_zero dma
  have followed := chain_rounds payload token blocks extent extra
    (Nat.zero_add (blockCount bytes))
  rw [if_neg positive, start, ← List.range_eq_range'] at followed
  exact followed

theorem Extent.nodup (extent : Extent bytes capacity dma) :
    ((List.range (blockCount bytes)).map fun i =>
      dma + UInt64.ofNat (i * mailboxStride)).Nodup := by
  refine List.Nodup.map_on ?_ List.nodup_range
  intro first firstMem second secondMem same
  have numbers := congrArg UInt64.toNat same
  rw [extent.toNat_block (List.mem_range.mp firstMem),
    extent.toNat_block (List.mem_range.mp secondMem)] at numbers
  omega

/-- The data of a block are those of the payload. -/
theorem read_prepared (blocks source : Mem) {i : Nat}
    (inside : i < blockCount bytes) :
    (prepareRounds dma (some source) bytes token (blockCount bytes)
        blocks).read (i * mailboxStride) (blockBytes bytes i) =
      source.read (i * mailboxDataBytes) (blockBytes bytes i) := by
  have data : (blockRecord dma (some source) bytes token i).read 0
      (blockData (some source) bytes i).length =
        blockData (some source) bytes i :=
    record_data (length_blockData (some source) bytes i)
  have length : (blockData (some source) bytes i).length =
      blockBytes bytes i := Mem.length_read _ _ _
  rw [length] at data
  refine Eq.trans ?_ data
  simp only [Mem.read, Nat.zero_add]
  refine List.map_congr_left fun off listed => ?_
  have below := List.mem_range.mp listed
  have small : blockBytes bytes i ≤ mailboxDataBytes := Nat.min_le_right _ _
  exact prepared_at blocks inside
    (by unfold mailboxDataBytes at small; unfold mailboxStride; omega)

/-- Collecting what was prepared brings the payload back. -/
theorem collect_prepared (blocks source out : Mem) (tokened : token ≠ 0)
    (extent : Extent bytes capacity dma) :
    collectMailboxes (prepareRounds dma (some source) bytes token
        (blockCount bytes) blocks) capacity dma out bytes token =
      (.none, store out 0 (source.read 0 bytes)) := by
  have chained : (List.range (blockCount bytes)).all
      (inChain (prepareRounds dma (some source) bytes token
        (blockCount bytes) blocks) dma token (blockCount bytes)) = true := by
    rw [List.all_eq_true]
    intro i listed
    exact inChain_prepared blocks extent.count_le (List.mem_range.mp listed)
  have whole : min (blockCount bytes * mailboxDataBytes) bytes = bytes := by
    unfold blockCount mailboxDataBytes
    omega
  rw [collectMailboxes, if_neg (by rw [extent.accepted]; simp),
    if_neg tokened, if_neg (by rw [chained]; simp),
    collectRounds_eq out le_rfl fun i inside =>
      read_prepared blocks source inside, whole]

/-- Both checksums of every block. -/
theorem xorBytes_prepared (blocks : Mem) {i : Nat}
    (inside : i < blockCount bytes) :
    xorBytes (prepareRounds dma payload bytes token (blockCount bytes) blocks)
        (i * mailboxStride + 0x200) 0x3f = 0xff ∧
      xorBytes (prepareRounds dma payload bytes token (blockCount bytes)
        blocks) (i * mailboxStride) 0x240 = 0xff := by
  have small := length_blockData payload bytes i
  have control : xorBytes (blockRecord dma payload bytes token i) 0x200 0x3f =
      0xff := xorBytes_control small
  have all : xorBytes (blockRecord dma payload bytes token i) 0 0x240 = 0xff :=
    xorBytes_record small
  rw [← control]
  constructor
  · refine xorBytes_congr fun off below => ?_
    rw [Nat.add_assoc]
    exact prepared_at blocks inside (by unfold mailboxStride; omega)
  · rw [control, ← all]
    refine xorBytes_congr fun off below => ?_
    rw [Nat.zero_add]
    exact prepared_at blocks inside (by unfold mailboxStride; omega)

end

/-- A chain is checked before anything is copied. -/
theorem collectMailboxes_broken (blocks out : Mem) (capacity : Nat)
    (dma : UInt64) (bytes : Nat) (token : UInt8)
    (broken : ∃ i < blockCount bytes,
      inChain blocks dma token (blockCount bytes) i = false) :
    (collectMailboxes blocks capacity dma out bytes token).1 ≠ .none ∧
      (collectMailboxes blocks capacity dma out bytes token).2 = out := by
  obtain ⟨i, inside, wrong⟩ := broken
  have refused : (List.range (blockCount bytes)).all
      (inChain blocks dma token (blockCount bytes)) = false := by
    rw [List.all_eq_false]
    exact ⟨i, List.mem_range.mpr inside, by simp [wrong]⟩
  unfold collectMailboxes
  split
  · simp
  · split
    · simp
    · simp

/-- Mailboxes of a payload of 1 to 8176 bytes at an aligned address give it back
exactly, every block of them sums up to ones in its control bytes and in all,
and the pointers meet each block once, in order, and end in zero.  Mailboxes
with a pointer, number or token that is not that of the chain are refused and
the output stays as it was.  The two encoders of commands agree wherever no
mailbox is needed, and the entry sums up to ones. -/
theorem mailboxes_round_trip :
    (∀ (blocks source out : Mem) (bytes capacity : Nat) (dma : UInt64)
        (token : UInt8), token ≠ 0 → Extent bytes capacity dma →
      ∃ prepared, prepareMailboxes blocks capacity dma (some source) bytes
          token = (.none, prepared) ∧
        collectMailboxes prepared capacity dma out bytes token =
          (.none, store out 0 (source.read 0 bytes)) ∧
        (∀ i < blockCount bytes,
          xorBytes prepared (i * 1024 + 0x200) 0x3f = 0xff ∧
          xorBytes prepared (i * 1024) 0x240 = 0xff) ∧
        (∀ extra, chain prepared dma (blockCount bytes + extra) dma =
          (List.range (blockCount bytes)).map fun i =>
            dma + UInt64.ofNat (i * 1024)) ∧
        ((List.range (blockCount bytes)).map fun i =>
          dma + UInt64.ofNat (i * 1024)).Nodup) ∧
    (∀ (blocks out : Mem) (bytes capacity : Nat) (dma : UInt64)
        (token : UInt8), (∃ i < blockCount bytes,
          inChain blocks dma token (blockCount bytes) i = false) →
      (collectMailboxes blocks capacity dma out bytes token).1 ≠ .none ∧
        (collectMailboxes blocks capacity dma out bytes token).2 = out) ∧
    ∀ (e input : Mem) (n out : Nat) (token : UInt8)
        (inputDma outputDma : UInt64), n ≤ 16 → out ≤ 16 →
      encodeCommand e input n out token inputDma outputDma =
        encodeInline e input n out token ∧
      ((encodeInline e input n out token).1 = .none →
        xorBytes (encodeInline e input n out token).2 0 64 = 0xff) := by
  refine ⟨fun blocks source out bytes capacity dma token tokened extent => ?_,
    fun blocks out bytes capacity dma token broken =>
      collectMailboxes_broken blocks out capacity dma bytes token broken,
    fun e input n out token inputDma outputDma shortIn shortOut =>
      ⟨encodeCommand_inline e input token inputDma outputDma shortIn shortOut,
        xorBytes_encodeInline e input⟩⟩
  have prepared : prepareMailboxes blocks capacity dma (some source) bytes
      token = (.none, prepareRounds dma (some source) bytes token
        (blockCount bytes) blocks) := by
    rw [prepareMailboxes, if_neg (by rw [extent.accepted]; simp),
      if_neg tokened]
  refine ⟨_, prepared, collect_prepared blocks source out tokened extent,
    fun i inside => xorBytes_prepared blocks inside,
    fun extra => chain_prepared blocks extent extra, extent.nodup⟩

/-- A payload of 600 bytes in two blocks, and an entry of 8 bytes each way. -/
theorem mailboxes_round_trip_two :
    blockCount 600 = 2 ∧
      (∃ prepared, prepareMailboxes (fun _ => 0) 2048 4096
          (some fun _ => 7) 600 1 = (.none, prepared) ∧
        collectMailboxes prepared 2048 4096 (fun _ => 0) 600 1 =
          (.none, store (fun _ => 0) 0
            (Mem.read (fun _ => 7) 0 600))) ∧
      encodeCommand (fun _ => 0) (fun _ => 7) 8 8 1 0 0 =
        encodeInline (fun _ => 0) (fun _ => 7) 8 8 1 := by
  have extent : Extent 600 2048 4096 :=
    ⟨by decide, by decide, by decide, by decide, by decide, by decide⟩
  obtain ⟨prepared, made, collected, _⟩ := mailboxes_round_trip.1
    (fun _ => 0) (fun _ => 7) (fun _ => 0) 600 2048 4096 1 (by decide) extent
  exact ⟨by decide, ⟨prepared, made, collected⟩,
    (mailboxes_round_trip.2.2 (fun _ => 0) (fun _ => 7) 8 8 1 0 0 (by decide)
      (by decide)).1⟩

end Command
end Mcdma
