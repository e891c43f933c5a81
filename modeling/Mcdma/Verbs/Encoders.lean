import Mcdma.Lib.Window
import Mcdma.Verbs.Encode

/-!
# The two encoders agree

The process and the kernel accept the same requests and leave the same 64 bytes
in the producer's slot.  What either writes stays inside the slot, because the
limits on the inline bytes and the scatter list are those of one block.
-/

namespace Mcdma
namespace Verbs

/-! ## The kernel's helpers are the process's -/

namespace Kernel

theorem writeBe32_eq : writeBe32 = User.putBe32 := by
  funext m p v
  have bytes : [(v >>> 24).toUInt8, (v >>> 16).toUInt8, (v >>> 8).toUInt8,
      v.toUInt8] = (([(v >>> 24).toUInt8] ++ [(v >>> 16).toUInt8]) ++
        [(v >>> 8).toUInt8]) ++ [v.toUInt8] := rfl
  have last : v >>> 0 = v := by simp
  rw [User.putBe32, bytes, store, ← Patch.apply_split, ← Patch.apply_split,
    ← Patch.apply_split]
  simp [writeBe32, store, List.range_succ, last]

theorem writeBe64_eq : writeBe64 = User.putBe64 := by
  funext m p v
  rw [writeBe64, User.putBe64, writeBe32_eq]

theorem foldlM_gather (total : UInt64) (entries : List SendSge) :
    entries.foldlM gather total = User.gathered total entries := by
  induction entries generalizing total with
  | nil => rfl
  | cons s rest inductionHypothesis =>
      rw [List.foldlM_cons, User.gathered, gather]
      split
      · rfl
      · exact inductionHypothesis _

theorem requestBytes_eq (r : SendRequest) :
    requestBytes r = User.requestBytes r := by
  have same : payload r = User.payload r := by
    rw [payload, User.payload, foldlM_gather]
    rfl
  rw [requestBytes, User.requestBytes, same]
  rfl

theorem descriptors_eq (r : SendRequest) :
    descriptors r = User.descriptors r := rfl

theorem writeEntries_eq (m : Mem) (p : Nat) (entries : List SendSge) :
    (writeEntries m p entries).1 = User.putEntries m p entries := by
  rw [writeEntries]
  induction entries generalizing m p with
  | nil => rfl
  | cons s rest inductionHypothesis =>
      rw [List.foldl_cons, inductionHypothesis, User.putEntries, writeEntry,
        writeBe32_eq, writeBe64_eq, User.putEntry]

theorem writeControl_eq (m : Mem) (p : Nat) (qpn producer : UInt32)
    (r : SendRequest) :
    writeControl m p qpn producer.toUInt16 r =
      User.putControl m p qpn producer r := by
  rw [writeControl, User.putControl, writeBe32_eq, descriptors_eq]
  rfl

theorem writeTail_eq (m : Mem) (p : Nat) (r : SendRequest) :
    writeTail m p r = User.putData (User.putRemote m p r) p r := by
  rw [writeTail, writeBe32_eq, writeBe64_eq, User.putData]
  cases r.inlineData with
  | some data => rfl
  | none =>
      simp only [writeEntries_eq]
      rfl

end Kernel

/-! ## What an accepted request fits in -/

/-- The limits an accepted request keeps. -/
structure SendRequest.Fits (r : SendRequest) : Prop where
  opcode : r.opcode ≠ 0
  inlined : r.inlineData.isSome = true →
    User.dataOffset r + 4 + r.inlineBytes.toNat ≤ 64
  listed : r.inlineData = none →
    User.dataOffset r + 16 * r.sgeCount.toNat ≤ 64

theorem SendRequest.length_entries (r : SendRequest) :
    r.entries.length = r.sgeCount.toNat := by
  simp [entries]

namespace User

/-- A limit by the kind of the opcode, and where the data starts. -/
theorem limit_by_kind {r : SendRequest} {count rdma plain : UInt32}
    (small : ¬count > if rdmaOpcode r.opcode then rdma else plain) :
    dataOffset r = 32 ∧ count.toNat ≤ rdma.toNat ∨
      dataOffset r = 16 ∧ count.toNat ≤ plain.toNat := by
  rw [gt_iff_lt, UInt32.not_lt, UInt32.le_iff_toNat_le] at small
  cases kind : rdmaOpcode r.opcode with
  | true =>
      left
      simp only [kind, if_true] at small
      exact ⟨by simp [dataOffset, kind], small⟩
  | false =>
      right
      simp only [kind, Bool.false_eq_true, if_false] at small
      exact ⟨by simp [dataOffset, kind], small⟩

/-- The data of an accepted request ends with the block. -/
theorem payload_fits {r : SendRequest} {total : UInt64}
    (accepted : payload r = some total) :
    (r.inlineData.isSome = true →
        dataOffset r + 4 + r.inlineBytes.toNat ≤ 64) ∧
      (r.inlineData = none → dataOffset r + 16 * r.sgeCount.toNat ≤ 64) := by
  have twentyEight : maxInlineRdma.toNat = 28 := rfl
  have fortyFour : maxInlineSend.toNat = 44 := rfl
  have two : maxRdmaSge.toNat = 2 := rfl
  have three : maxSendSge.toNat = 3 := rfl
  simp only [payload] at accepted
  split at accepted
  · simp only [Option.ite_none_left_eq_some, Bool.or_eq_true,
      decide_eq_true_eq, not_or] at accepted
    obtain ⟨⟨⟨given, -⟩, -⟩, ⟨-, small⟩, -⟩ := accepted
    refine ⟨fun _ => ?_, fun missing => ?_⟩
    · have limit := limit_by_kind small
      omega
    · simp [missing] at given
  · next list =>
      simp only [Option.ite_none_left_eq_some, Bool.or_eq_true,
        decide_eq_true_eq, not_or] at accepted
      obtain ⟨⟨-, small⟩, -⟩ := accepted
      refine ⟨fun there => ?_, fun _ => ?_⟩
      · simp [there] at list
      · have limit := limit_by_kind small
        omega

theorem requestBytes_fits {r : SendRequest} (accepted : requestBytes r ≠ 0) :
    r.Fits := by
  simp only [requestBytes] at accepted
  split at accepted
  · exact absurd rfl accepted
  · next known =>
      split at accepted
      · exact absurd rfl accepted
      · split at accepted
        · exact absurd rfl accepted
        · cases data : payload r with
          | none =>
              rw [data] at accepted
              exact absurd rfl accepted
          | some total =>
              have limits := payload_fits data
              refine ⟨?_, limits.1, limits.2⟩
              intro zero
              rw [zero] at known
              exact known (by decide)

/-- The descriptor count of a request that fits. -/
theorem descriptors_le {r : SendRequest} (fits : r.Fits) :
    (descriptors r).toNat ≤ 4 := by
  have shift : dataOffset r =
      16 * (1 + (if rdmaOpcode r.opcode then (1 : UInt32) else 0).toNat) := by
    simp only [dataOffset]
    split
    · rfl
    · rfl
  have few : (if rdmaOpcode r.opcode then (1 : UInt32) else 0).toNat ≤ 1 := by
    split
    · decide
    · decide
  have sixteen : (16 : UInt32).toNat = 16 := rfl
  cases data : r.inlineData with
  | some bytes =>
      have limit := fits.inlined (by simp [data])
      simp only [descriptors, data, Option.isSome_some, if_true,
        UInt32.toNat_add, UInt32.toNat_div, UInt32.reduceToNat]
      omega
  | none =>
      have limit := fits.listed data
      simp only [descriptors, data, Option.isSome_none, Bool.false_eq_true,
        if_false, UInt32.toNat_add, UInt32.reduceToNat]
      omega

/-! ## The stores stay in the block -/

section Window

variable {image m written : Mem} {base : Nat}

theorem putBe32_shows {size : Nat}
    (shown : Mem.Shows image base size m written) (off : Nat)
    (within : off + 4 ≤ size) (v : UInt32) :
    Mem.Shows (putBe32 image off v) base size m
      (putBe32 written (base + off) v) :=
  shown.apply within

theorem putBe64_shows {size : Nat}
    (shown : Mem.Shows image base size m written) (off : Nat)
    (within : off + 8 ≤ size) (v : UInt64) :
    Mem.Shows (putBe64 image off v) base size m
      (putBe64 written (base + off) v) := by
  have first := putBe32_shows shown off (by omega) (v >>> 32).toUInt32
  have second := putBe32_shows first (off + 4) (by omega) v.toUInt32
  rwa [← Nat.add_assoc] at second

theorem putEntry_shows (shown : Mem.Shows image base 64 m written) (off : Nat)
    (within : off + 16 ≤ 64) (s : SendSge) :
    Mem.Shows (putEntry image off s) base 64 m
      (putEntry written (base + off) s) := by
  have length := putBe32_shows shown off (by omega) s.length
  have lkey := putBe32_shows length (off + 4) (by omega) s.lkey
  have address := putBe64_shows lkey (off + 8) (by omega) s.address
  rwa [← Nat.add_assoc, ← Nat.add_assoc] at address

theorem putEntries_shows {entries : List SendSge}
    (shown : Mem.Shows image base 64 m written) (off : Nat)
    (within : off + 16 * entries.length ≤ 64) :
    Mem.Shows (putEntries image off entries) base 64 m
      (putEntries written (base + off) entries) := by
  induction entries generalizing image written off with
  | nil => exact shown
  | cons s rest inductionHypothesis =>
      rw [List.length_cons] at within
      have first := putEntry_shows shown off (by omega) s
      have others := inductionHypothesis first (off + 16) (by omega)
      rwa [← Nat.add_assoc] at others

theorem putControl_shows (m : Mem) (base : Nat) (qpn producer : UInt32)
    (r : SendRequest) :
    Mem.Shows (putControl (fun _ => 0) 0 qpn producer r) base 64 m
      (putControl m base qpn producer r) := by
  have blank : store (fun _ => 0) 0 (List.replicate 64 0) = fun _ => 0 := by
    funext address
    simp only [store, Patch.apply]
    split
    · next covered => exact List.getD_replicate 0 covered.2
    · rfl
  simp only [putControl, blank, Nat.zero_add]
  have zero := Mem.shows_fill m base 64 0
  have index := putBe32_shows zero 0 (by omega)
    ((producer.toUInt16.toUInt32 <<< 8) ||| r.opcode.toUInt32)
  have number := putBe32_shows index 4 (by omega) ((qpn <<< 8) ||| descriptors r)
  have control := number.apply (show 11 + [controlByte r].length ≤ 64 by simp)
  split
  · exact control.apply (show 12 + (hostBytes r.immediate).length ≤ 64 by
      simp [hostBytes])
  · exact control

/-- What an accepted request leaves in its block does not depend on where the
block is, and nothing else is stored. -/
theorem writeWqe_shows (m : Mem) (base : Nat) (qpn producer : UInt32)
    {r : SendRequest} (fits : r.Fits) :
    Mem.Shows (writeWqe (fun _ => 0) 0 qpn producer r) base 64 m
      (writeWqe m base qpn producer r) := by
  have control := putControl_shows m base qpn producer r
  have remote : Mem.Shows
      (putRemote (putControl (fun _ => 0) 0 qpn producer r) 0 r) base 64 m
      (putRemote (putControl m base qpn producer r) base r) := by
    simp only [putRemote, Nat.zero_add]
    split
    · have target := putBe64_shows control 16 (by omega) r.remote
      exact putBe32_shows target 24 (by omega) r.rkey
    · exact control
  simp only [writeWqe, putData, Nat.zero_add]
  cases data : r.inlineData with
  | some bytes =>
      have limit := fits.inlined (by simp [data])
      have header := putBe32_shows remote (dataOffset r) (by omega)
        (0x80000000 ||| r.inlineBytes)
      have body := header.apply
        (show dataOffset r + 4 + (bytes.read 0 r.inlineBytes.toNat).length ≤ 64
          by simpa using limit)
      rwa [← Nat.add_assoc] at body
  | none =>
      have limit := fits.listed data
      rw [← r.length_entries] at limit
      exact putEntries_shows remote (dataOffset r) limit

end Window

/-! ## The control bytes -/

theorem store_below (m : Mem) {off address : Nat} (bytes : List UInt8)
    (below : address < off) : store m off bytes address = m address :=
  Patch.apply_of_not_covers fun covered => absurd covered.1 (by simp only; omega)

theorem putBe64_below (m : Mem) {p address : Nat} (v : UInt64)
    (below : address < p) : putBe64 m p v address = m address := by
  rw [putBe64, putBe32, store_below _ _ (by omega), putBe32,
    store_below _ _ below]

theorem putEntries_below (m : Mem) {p address : Nat} (entries : List SendSge)
    (below : address < p) : putEntries m p entries address = m address := by
  induction entries generalizing m p with
  | nil => rfl
  | cons s rest inductionHypothesis =>
      rw [putEntries, inductionHypothesis _ (by omega), putEntry,
        putBe64_below _ _ (by omega), putBe32, store_below _ _ (by omega),
        putBe32, store_below _ _ below]

/-- The control segment stays as it was written first. -/
theorem writeWqe_control (m : Mem) (wqe : Nat) (qpn producer : UInt32)
    (r : SendRequest) {address : Nat} (control : address < wqe + 16) :
    writeWqe m wqe qpn producer r address =
      putControl m wqe qpn producer r address := by
  have start : 16 ≤ dataOffset r := by
    simp only [dataOffset]
    split
    · omega
    · omega
  have remote : putRemote (putControl m wqe qpn producer r) wqe r address =
      putControl m wqe qpn producer r address := by
    simp only [putRemote]
    split
    · rw [putBe32, store_below _ _ (by omega), putBe64_below _ _ control]
    · rfl
  rw [writeWqe, ← remote, putData]
  cases r.inlineData with
  | some bytes =>
      simp only
      rw [store_below _ _ (by omega), putBe32, store_below _ _ (by omega)]
  | none =>
      simp only
      rw [putEntries_below _ _ (by omega)]

/-- The lowest byte of a field above a byte. -/
theorem low_byte (high low : UInt32) (small : low.toNat < 256) :
    ((high <<< 8) ||| low).toUInt8.toNat = low.toNat := by
  have shifted : high.toNat <<< 8 % 2 ^ 32 % 2 ^ 8 = 0 := by
    rw [Nat.shiftLeft_eq]
    omega
  rw [UInt32.toNat_toUInt8, UInt32.toNat_or, UInt32.toNat_shiftLeft,
    Nat.or_mod_two_pow]
  have eight : (8 : UInt32).toNat % 32 = 8 := rfl
  rw [eight, shifted, Nat.zero_or, Nat.mod_eq_of_lt small]

/-- Its last control bytes are the opcode and the descriptor count. -/
theorem putControl_bytes (m : Mem) (wqe : Nat) (qpn producer : UInt32)
    {r : SendRequest} (fits : r.Fits) :
    (putControl m wqe qpn producer r (wqe + 3)).toNat = r.opcode.toNat ∧
      (putControl m wqe qpn producer r (wqe + 7)).toNat =
        (descriptors r).toNat := by
  have few := descriptors_le fits
  have byte := r.opcode.toNat_lt
  have code : r.opcode.toUInt32.toNat = r.opcode.toNat := by simp
  have first (m : Mem) (v : UInt32) : putBe32 m wqe v (wqe + 3) = v.toUInt8 := by
    simp [putBe32, store, Patch.apply, Patch.Covers, Patch.stop]
  have second (m : Mem) (v : UInt32) :
      putBe32 m (wqe + 4) v (wqe + 7) = v.toUInt8 := by
    have there : wqe + 7 - (wqe + 4) = 3 := by omega
    simp [putBe32, store, Patch.apply, Patch.Covers, Patch.stop, there]
  have skips (m : Mem) : putBe32 m (wqe + 4) ((qpn <<< 8) ||| descriptors r)
      (wqe + 3) = m (wqe + 3) :=
    store_below _ _ (by omega)
  simp only [putControl]
  split
  · rw [store_below _ _ (by omega), store_below _ _ (by omega), skips, first,
      store_below _ _ (by omega), store_below _ _ (by omega), second]
    exact ⟨by rw [low_byte _ _ (by omega), code], low_byte _ _ (by omega)⟩
  · rw [store_below _ _ (by omega), skips, first, store_below _ _ (by omega),
      second]
    exact ⟨by rw [low_byte _ _ (by omega), code], low_byte _ _ (by omega)⟩

/-- The first eight bytes of an accepted request's block, as the host loads
them, are not zero. -/
theorem load64_writeWqe (m : Mem) (wqe : Nat) (qpn producer : UInt32)
    {r : SendRequest} (fits : r.Fits) :
    load64 (writeWqe m wqe qpn producer r) wqe ≠ 0 := by
  intro zero
  have small : Bytes.number ((writeWqe m wqe qpn producer r).read wqe 8) <
      256 ^ 8 := by
    have bound := Bytes.number_lt ((writeWqe m wqe qpn producer r).read wqe 8)
    rwa [Mem.length_read] at bound
  have number := congrArg UInt64.toNat zero
  rw [load64, UInt64.toNat_ofNat_of_lt' small] at number
  have third : writeWqe m wqe qpn producer r (wqe + 3) ∈
      (writeWqe m wqe qpn producer r).read wqe 8 :=
    List.mem_map.mpr ⟨3, by simp, rfl⟩
  have byte := Bytes.eq_zero_of_number number _ third
  rw [writeWqe_control m wqe qpn producer r (by omega)] at byte
  have code := (putControl_bytes m wqe qpn producer fits).1
  rw [byte] at code
  exact fits.opcode (UInt8.toNat_inj.mp code.symm)

end User

/-! ## Agreement -/

/-- The block of a producer index in a queue pair's page. -/
def sendSlot (page : Nat) (producer : UInt32) : Nat :=
  page + sqOffset + producer.toNat % 32 * 64

theorem sendSlot_eq (page : Nat) (producer : UInt32) :
    page + sqOffset + (producer &&& 31).toNat * 64 =
      sendSlot page producer := by
  have masked : (producer &&& 31).toNat = producer.toNat % 32 := by
    rw [UInt32.toNat_and]
    exact Nat.and_two_pow_sub_one_eq_mod producer.toNat 5
  rw [sendSlot, masked]

/-- The requests both encoders take for a queue pair number. -/
def Encodable (qpn : UInt32) (r : SendRequest) : Prop :=
  qpn ≤ 0xffffff ∧ User.requestBytes r ≠ 0

theorem User.encode_accepted {qpn : UInt32} {r : SendRequest}
    (valid : Encodable qpn r) (page : Nat) (producer : UInt32) (m : Mem) :
    encodeSendRequest (some page) qpn producer r m =
      (load64 (writeWqe m (sendSlot page producer) qpn producer r)
          (sendSlot page producer),
        writeWqe m (sendSlot page producer) qpn producer r) := by
  have few := descriptors_le (requestBytes_fits valid.2)
  have number : ¬qpn > 0xffffff := by
    rw [gt_iff_lt, UInt32.not_lt]
    exact valid.1
  have count : ¬descriptors r > 4 := by
    rw [gt_iff_lt, UInt32.not_lt, UInt32.le_iff_toNat_le]
    exact few
  simp only [encodeSendRequest, number, decide_false, Bool.false_or,
    beq_iff_eq, valid.2, if_false, count, sendSlot_eq]

theorem User.encode_refused {qpn : UInt32} {r : SendRequest}
    (refused : ¬Encodable qpn r) (page : Nat) (producer : UInt32) (m : Mem) :
    encodeSendRequest (some page) qpn producer r m = (0, m) := by
  have fails : (decide (qpn > 0xffffff) || requestBytes r == 0) = true := by
    rw [Encodable, not_and_or, UInt32.not_le, not_not] at refused
    simpa using refused
  simp only [encodeSendRequest, fails, if_true]

theorem Kernel.post_accepted {qpn : UInt32} {r : SendRequest}
    (valid : Encodable qpn r) (page : Nat) (producer : UInt32) (m : Mem) :
    postWqe page qpn producer r m =
      (true, User.writeWqe m (sendSlot page producer) qpn producer r) := by
  have few := User.descriptors_le (User.requestBytes_fits valid.2)
  have number : ¬qpn > 0xffffff := by
    rw [gt_iff_lt, UInt32.not_lt]
    exact valid.1
  have count : ¬User.descriptors r > 4 := by
    rw [gt_iff_lt, UInt32.not_lt, UInt32.le_iff_toNat_le]
    exact few
  simp only [postWqe, encodeSendRequest, requestBytes_eq, descriptors_eq,
    writeControl_eq, writeTail_eq, number, Nat.lt_irrefl, decide_false,
    Bool.false_or, beq_iff_eq, valid.2, if_false, count, sendSlot_eq]
  rfl

theorem Kernel.post_refused {qpn : UInt32} {r : SendRequest}
    (refused : ¬Encodable qpn r) (page : Nat) (producer : UInt32) (m : Mem) :
    postWqe page qpn producer r m = (false, m) := by
  have fails : (decide (qpn > 0xffffff) || User.requestBytes r == 0) =
      true := by
    rw [Encodable, not_and_or, UInt32.not_le, not_not] at refused
    simpa using refused
  simp only [postWqe, encodeSendRequest, requestBytes_eq, Nat.lt_irrefl,
    decide_false, Bool.false_or, fails, if_true]

/-- The process takes a request exactly when the kernel does.  Both then leave
the same 64 bytes in the producer's slot and change nothing else, with at most
four descriptors, and the doorbell value the process gets is the first eight of
them and not zero. -/
theorem send_encoders_agree (page page' : Nat) (qpn producer : UInt32)
    (r : SendRequest) (m m' : Mem) :
    let user := User.encodeSendRequest (some page) qpn producer r m
    let kernel := Kernel.postWqe page' qpn producer r m'
    let slot := sendSlot page producer
    let slot' := sendSlot page' producer
    (kernel.1 = true ↔ user.1 ≠ 0) ∧
      (kernel.1 = true →
        (∀ off < 64, user.2 (slot + off) = kernel.2 (slot' + off)) ∧
        (user.2 (slot + 7)).toNat ≤ 4 ∧
        user.1 = load64 user.2 slot) ∧
      (kernel.1 = false → user.2 = m ∧ kernel.2 = m') ∧
      (∀ address, ¬(slot ≤ address ∧ address < slot + 64) →
        user.2 address = m address) ∧
      ∀ address, ¬(slot' ≤ address ∧ address < slot' + 64) →
        kernel.2 address = m' address := by
  by_cases valid : Encodable qpn r
  · have fits := User.requestBytes_fits valid.2
    have here := User.writeWqe_shows m (sendSlot page producer) qpn producer fits
    have there :=
      User.writeWqe_shows m' (sendSlot page' producer) qpn producer fits
    simp only [User.encode_accepted valid, Kernel.post_accepted valid]
    refine ⟨⟨fun _ => User.load64_writeWqe _ _ _ _ fits, fun _ => trivial⟩,
      fun _ => ⟨?_, ?_, trivial⟩, by simp, fun _ => here.outside,
      fun _ => there.outside⟩
    · intro off below
      rw [here.inside below, there.inside below]
    · rw [User.writeWqe_control m _ qpn producer r (by omega),
        (User.putControl_bytes m _ qpn producer fits).2]
      exact User.descriptors_le fits
  · simp [User.encode_refused valid, Kernel.post_refused valid]

end Verbs
end Mcdma
