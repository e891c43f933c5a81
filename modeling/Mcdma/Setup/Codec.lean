import Mcdma.Setup.Message

/-!
# Encoding and decoding undo each other

Every message a sender prepares decodes to what its kind carries of it.  A byte
string is accepted exactly when it has the form its kind prescribes, and then
encoding the result gives it back, but for the last byte of an error text, which
is always sent as the terminator.
-/

namespace Mcdma
namespace Setup

open Bytes

theorem Kind.ofCode?_code (kind : Kind) :
    Kind.ofCode? kind.code = some kind := by
  cases kind <;> rfl

theorem Role.ofCode?_code (role : Role) :
    Role.ofCode? role.code = some role := by
  cases role <;> rfl

theorem Kind.code_of_ofCode? {code : UInt8} {kind : Kind}
    (named : Kind.ofCode? code = some kind) : kind.code = code := by
  simpa using List.find?_some named

theorem Role.code_of_ofCode? {code : UInt8} {role : Role}
    (named : Role.ofCode? code = some role) : role.code = code := by
  simpa using List.find?_some named

/-- The widths of a header's chunks. -/
def headWidths : List Nat := [4, 1, 1, 1, 1, 24, 16, 16]

/-- The widths of an offer's chunks. -/
def offerWidths : List Nat := [1, 1, 2, 4, 4, 4, 4, 16, 8, 8, 8, 8, 8, 4]

theorem headChunks_widths (m : Xmsg) :
    (headChunks m).map List.length = headWidths := by
  simp [headChunks, headWidths, xMagic]
  rfl

theorem offerChunks_widths (i : Xinfo) :
    (offerChunks i).map List.length = offerWidths := by
  simp [offerChunks, offerWidths]

/-! ## Single fields -/

section

variable {input : List UInt8} {offset : Nat}

theorem byteAt_of_slice {value : UInt8} (read : slice input offset 1 = [value]) :
    byteAt input offset = value := by
  have first := congrArg (fun bytes => bytes.getD 0 0) read
  simpa [slice, byteAt] using first

theorem get16_of_slice {value : UInt16}
    (read : slice input offset 2 = lowBytes 2 value.toNat) :
    get16 input offset = value := by
  rw [get16, field, read, number_lowBytes]
  apply UInt16.toNat_inj.mp
  have small := value.toNat_lt
  simp only [UInt16.toNat_ofNat']
  omega

theorem get32_of_slice {value : UInt32}
    (read : slice input offset 4 = lowBytes 4 value.toNat) :
    get32 input offset = value := by
  rw [get32, field, read, number_lowBytes]
  apply UInt32.toNat_inj.mp
  have small := value.toNat_lt
  simp only [UInt32.toNat_ofNat']
  omega

theorem get64_of_slice {value : UInt64}
    (read : slice input offset 8 = lowBytes 8 value.toNat) :
    get64 input offset = value := by
  rw [get64, field, read, number_lowBytes]
  apply UInt64.toNat_inj.mp
  have small := value.toNat_lt
  simp only [UInt64.toNat_ofNat']
  omega

theorem slice_of_byteAt (within : offset < input.length) :
    [byteAt input offset] = slice input offset 1 := by
  rw [slice, List.drop_eq_getElem_cons within, byteAt,
    List.getD_eq_getElem?_getD, List.getElem?_eq_getElem within]
  rfl

theorem lowBytes_field {width : Nat} (within : offset + width ≤ input.length) :
    lowBytes width (field input offset width) = slice input offset width := by
  have written := lowBytes_number (slice input offset width)
  rwa [length_slice input offset width within] at written

theorem slice_of_get16 (within : offset + 2 ≤ input.length) :
    lowBytes 2 (get16 input offset).toNat = slice input offset 2 := by
  have small := field_lt input offset 2
  rw [get16, UInt16.toNat_ofNat', Nat.mod_eq_of_lt (by simpa using small),
    lowBytes_field within]

theorem slice_of_get32 (within : offset + 4 ≤ input.length) :
    lowBytes 4 (get32 input offset).toNat = slice input offset 4 := by
  have small := field_lt input offset 4
  rw [get32, UInt32.toNat_ofNat', Nat.mod_eq_of_lt (by simpa using small),
    lowBytes_field within]

theorem slice_of_get64 (within : offset + 8 ≤ input.length) :
    lowBytes 8 (get64 input offset).toNat = slice input offset 8 := by
  have small := field_lt input offset 8
  rw [get64, UInt64.toNat_ofNat', Nat.mod_eq_of_lt (by simpa using small),
    lowBytes_field within]

end

/-! ## What was encoded decodes -/

section

variable (m : Xmsg) (rest : List UInt8)

/-- A chunk of the header reads back. -/
theorem slice_head (index : Nat) {chunk : List UInt8}
    (here : (headChunks m)[index]? = some chunk) :
    slice ((headChunks m).flatten ++ rest) (headWidths.take index).sum
      chunk.length = chunk := by
  rw [← headChunks_widths m]
  exact slice_flatten (headChunks m) rest here

theorem length_head : (headChunks m).flatten.length = xHead := by
  rw [List.length_flatten, headChunks_widths]
  rfl

/-- What the decoder makes of a header. -/
theorem read_head :
    slice ((headChunks m).flatten ++ rest) 0 4 = xMagic ∧
      byteAt ((headChunks m).flatten ++ rest) 4 = xVersion ∧
      byteAt ((headChunks m).flatten ++ rest) 5 = m.kind.code ∧
      byteAt ((headChunks m).flatten ++ rest) 6 = m.role.code ∧
      byteAt ((headChunks m).flatten ++ rest) 7 = m.flags ∧
      array xName (slice ((headChunks m).flatten ++ rest) 8 xName) = m.name ∧
      array 16 (slice ((headChunks m).flatten ++ rest) 32 16) =
        m.fromSession ∧
      array 16 (slice ((headChunks m).flatten ++ rest) 48 16) =
        m.toSession := by
  have name := slice_head m rest 5 rfl
  have fromSession := slice_head m rest 6 rfl
  have toSession := slice_head m rest 7 rfl
  rw [List.length_ofFn] at name fromSession toSession
  refine ⟨slice_head m rest 0 rfl,
    byteAt_of_slice (slice_head m rest 1 rfl),
    byteAt_of_slice (slice_head m rest 2 rfl),
    byteAt_of_slice (slice_head m rest 3 rfl),
    byteAt_of_slice (slice_head m rest 4 rfl), ?_, ?_, ?_⟩
  · exact (congrArg (array xName) name).trans (array_ofFn m.name)
  · exact (congrArg (array 16) fromSession).trans (array_ofFn m.fromSession)
  · exact (congrArg (array 16) toSession).trans (array_ofFn m.toSession)

/-- A chunk of an offer reads back. -/
theorem slice_offer (index : Nat) {chunk : List UInt8}
    (here : (headChunks m ++ offerChunks m.info)[index]? = some chunk) :
    slice ((headChunks m).flatten ++ ((offerChunks m.info).flatten ++ rest))
      ((headWidths ++ offerWidths).take index).sum chunk.length = chunk := by
  rw [← headChunks_widths m, ← offerChunks_widths m.info, ← List.map_append,
    ← List.append_assoc, ← List.flatten_append]
  exact slice_flatten _ rest here

theorem length_offer :
    ((headChunks m).flatten ++ (offerChunks m.info).flatten).length =
      xOfferFixed := by
  rw [← List.flatten_append, List.length_flatten, List.map_append,
    headChunks_widths, offerChunks_widths]
  rfl

/-- The fields of a message its kind carries. -/
def Table.carried (table : Table) : Table :=
  { table with
    rkey := fun k => if k.val < table.n.toNat then table.rkey k else 0 }

/-- What the decoder makes of an offer. -/
theorem readInfo_offer :
    readInfo ((headChunks m).flatten ++
      ((offerChunks m.info).flatten ++ keyBytes m.info.table)) =
      { m.info with table := m.info.table.carried } := by
  set rest := keyBytes m.info.table with restDef
  set input := (headChunks m).flatten ++
    ((offerChunks m.info).flatten ++ rest) with inputDef
  have n : get32 input 140 = m.info.table.n :=
    get32_of_slice (slice_offer m rest 21 rfl)
  have keys : ∀ k : Fin linkRegionMax, k.val < m.info.table.n.toNat →
      get32 input (xOfferFixed + 4 * k.val) = m.info.table.rkey k := by
    intro k below
    have small := (m.info.table.rkey k).toNat_lt
    have front := length_offer m
    have read : field input (xOfferFixed + 4 * k.val) 4 =
        (m.info.table.rkey k).toNat := by
      have key := field_lowTable 4 (fun k =>
        if below : k < linkRegionMax then
          (m.info.table.rkey ⟨k, below⟩).toNat else 0) m.info.table.n.toNat
        k.val [] below
      rw [List.append_nil] at key
      rw [inputDef, ← List.append_assoc,
        field_append_right _ _ _ _ (by omega), front, Nat.add_sub_cancel_left,
        restDef, keyBytes, key, dif_pos k.isLt]
      exact Nat.mod_eq_of_lt small
    rw [get32, read]
    exact UInt32.ofNat_toNat
  have gid : array 16 (slice input 84 16) = m.info.gid := by
    have read := slice_offer m rest 15 rfl
    rw [List.length_ofFn] at read
    exact (congrArg (array 16) read).trans (array_ofFn m.info.gid)
  have transport : byteAt input 64 = m.info.transport :=
    byteAt_of_slice (slice_offer m rest 8 rfl)
  have mode : byteAt input 65 = m.info.mode :=
    byteAt_of_slice (slice_offer m rest 9 rfl)
  have lid : get16 input 66 = m.info.lid :=
    get16_of_slice (slice_offer m rest 10 rfl)
  have qpn : get32 input 68 = m.info.qpn :=
    get32_of_slice (slice_offer m rest 11 rfl)
  have qpn2 : get32 input 72 = m.info.qpn2 :=
    get32_of_slice (slice_offer m rest 12 rfl)
  have psn : get32 input 76 = m.info.psn :=
    get32_of_slice (slice_offer m rest 13 rfl)
  have frames : get32 input 80 = m.info.frames :=
    get32_of_slice (slice_offer m rest 14 rfl)
  have req : get64 input 100 = m.info.req :=
    get64_of_slice (slice_offer m rest 16 rfl)
  have rep : get64 input 108 = m.info.rep :=
    get64_of_slice (slice_offer m rest 17 rfl)
  have table : (readInfo input).table = m.info.table.carried := by
    have base : get64 input 116 = m.info.table.base :=
      get64_of_slice (slice_offer m rest 18 rfl)
    have length : get64 input 124 = m.info.table.length :=
      get64_of_slice (slice_offer m rest 19 rfl)
    have seg : get64 input 132 = m.info.table.seg :=
      get64_of_slice (slice_offer m rest 20 rfl)
    have rkey : (readInfo input).table.rkey = m.info.table.carried.rkey := by
      funext k
      simp only [readInfo, Table.carried, n]
      split
      · next below => exact keys k below
      · rfl
    have fields : (readInfo input).table =
        ⟨get64 input 116, get64 input 124, get64 input 132, get32 input 140,
          (readInfo input).table.rkey⟩ := rfl
    rw [fields, base, length, seg, n, rkey]
    rfl
  have fields : readInfo input =
      ⟨byteAt input 64, byteAt input 65, get16 input 66, get32 input 68,
        get32 input 72, get32 input 76, get32 input 80,
        array 16 (slice input 84 16), get64 input 100, get64 input 108,
        (readInfo input).table⟩ := rfl
  rw [fields, table, transport, mode, lid, qpn, qpn2, psn, frames, gid, req,
    rep]

/-- What a message carries of itself: only an offer has an offer and keys up to
its count, only an error a text, and its last byte is the terminator. -/
def Xmsg.carried (m : Xmsg) : Xmsg :=
  { m with
    info := if m.kind = .offer then
      { m.info with table := m.info.table.carried } else {}
    text := if m.kind = .err then
      Function.update m.text ⟨xText - 1, by decide⟩ 0 else fun _ => 0 }

/-- A message a sender can prepare. -/
structure Xmsg.Prepared (m : Xmsg) : Prop where
  name : Terminated m.name
  offer : m.kind = .offer → m.info.table.n.toNat ≤ linkRegionMax ∧
    KnownTransport m.info.transport
  err : m.kind = .err → Terminated m.text

end

/-! ## What is accepted -/

/-- The bytes behind a header as its kind prescribes them. -/
def BodyFormed (input : List UInt8) : Kind → Prop
  | .offer => xOfferFixed ≤ input.length ∧
      (get32 input 140).toNat ≤ linkRegionMax ∧
      input.length = xOfferFixed + 4 * (get32 input 140).toNat ∧
      KnownTransport (byteAt input 64)
  | .err => input.length = xHead + xText ∧
      Terminated (array xText (slice input xHead xText))
  | _ => input.length = xHead

/-- A byte string of the form a kind prescribes. -/
structure Formed (input : List UInt8) (kind : Kind) (role : Role) : Prop where
  magic : slice input 0 4 = xMagic
  version : byteAt input 4 = xVersion
  isKind : byteAt input 5 = kind.code
  isRole : byteAt input 6 = role.code
  name : Terminated (array xName (slice input 8 xName))
  body : BodyFormed input kind

/-- The message of such a byte string. -/
def readMsg (input : List UInt8) (kind : Kind) (role : Role) : Xmsg :=
  { readHead input kind role with
    info := if kind = .offer then readInfo input else {}
    text := if kind = .err then array xText (slice input xHead xText)
      else fun _ => 0 }

theorem BodyFormed.length {input : List UInt8} {kind : Kind}
    (body : BodyFormed input kind) :
    xHead ≤ input.length ∧ input.length ≤ xMax := by
  cases kind <;>
    simp only [BodyFormed, xOfferFixed, linkRegionMax, xHead, xText, xMax]
      at body ⊢ <;> omega

/-- A body is read exactly when it has its kind's form. -/
theorem readBody_eq_some {input : List UInt8} {kind : Kind} {role : Role}
    {m : Xmsg} : readBody input (readHead input kind role) = some m ↔
      BodyFormed input kind ∧ m = readMsg input kind role := by
  unfold readBody
  cases kind with
  | offer =>
      change (if _ then _ else _) = _ ↔ (_ ∧ _ ∧ _ ∧ _) ∧ _
      rw [Option.ite_none_left_eq_some]
      dsimp only
      rw [Option.ite_none_left_eq_some, Option.ite_none_left_eq_some,
        not_or, not_lt, not_lt, not_not, not_not, Option.some.injEq]
      constructor
      · rintro ⟨long, ⟨few, length⟩, known, same⟩
        exact ⟨⟨long, few, length, known⟩, same.symm⟩
      · rintro ⟨⟨long, few, length, known⟩, same⟩
        exact ⟨long, ⟨few, length⟩, known, same.symm⟩
  | err =>
      change (if _ then _ else _) = _ ↔ (_ ∧ _) ∧ _
      rw [Option.ite_none_left_eq_some]
      dsimp only
      rw [Option.ite_none_left_eq_some, not_not, not_not, Option.some.injEq,
        and_assoc]
      exact and_congr_right' (and_congr_right' eq_comm)
  | ping | pong | bye =>
      change (if _ then _ else _) = _ ↔ _ ∧ _
      rw [Option.ite_none_left_eq_some, not_not, Option.some.injEq]
      exact and_congr_right' eq_comm

/-- Exactly the byte strings of their kind's form are accepted, and read as that
kind says. -/
theorem xchgDecode_eq_some {input : List UInt8} {m : Xmsg} :
    xchgDecode input = some m ↔
      Formed input m.kind m.role ∧ m = readMsg input m.kind m.role := by
  constructor
  · intro decoded
    unfold xchgDecode at decoded
    rw [Option.ite_none_left_eq_some] at decoded
    obtain ⟨framed, decoded⟩ := decoded
    push Not at framed
    split at decoded
    · next kind role isKind isRole =>
        dsimp only at decoded
        rw [Option.ite_none_left_eq_some, not_not, readBody_eq_some] at decoded
        obtain ⟨named, body, rfl⟩ := decoded
        exact ⟨⟨framed.2.2.1, framed.2.2.2,
          (Kind.code_of_ofCode? isKind).symm,
          (Role.code_of_ofCode? isRole).symm, named, body⟩, rfl⟩
    · simp at decoded
  · rintro ⟨formed, same⟩
    obtain ⟨low, high⟩ := formed.body.length
    unfold xchgDecode
    rw [if_neg (by
      push Not
      exact ⟨low, high, formed.magic, formed.version⟩), formed.isKind,
      formed.isRole, Kind.ofCode?_code, Role.ofCode?_code]
    have named : Terminated (readHead input m.kind m.role).name := formed.name
    dsimp only
    rw [if_neg (not_not.mpr named)]
    exact readBody_eq_some.mpr ⟨formed.body, same⟩

theorem xchgDecode_isSome {input : List UInt8} :
    (xchgDecode input).isSome = true ↔ ∃ kind role, Formed input kind role := by
  rw [Option.isSome_iff_exists]
  constructor
  · rintro ⟨m, decoded⟩
    exact ⟨m.kind, m.role, (xchgDecode_eq_some.mp decoded).1⟩
  · rintro ⟨kind, role, formed⟩
    exact ⟨readMsg input kind role, xchgDecode_eq_some.mpr ⟨formed, rfl⟩⟩

/-! ## The round trips -/

section

variable {m : Xmsg} {input : List UInt8} {cap : Nat}

theorem length_bodyBytes : xHead + (bodyBytes m).length = m.size := by
  have offer : (offerChunks m.info).flatten.length = 80 := by
    rw [List.length_flatten, offerChunks_widths]
    rfl
  cases kind : m.kind with
  | offer =>
      simp only [bodyBytes, Xmsg.size, kind, List.length_append, offer,
        keyBytes, length_lowTable, xHead, xOfferFixed]
      omega
  | err =>
      simp only [bodyBytes, Xmsg.size, kind, List.length_append,
        List.length_take, List.length_ofFn, List.length_singleton]
      rfl
  | ping | pong | bye =>
      simp only [bodyBytes, Xmsg.size, kind, List.length_nil, Nat.add_zero]

/-- A message a sender prepares is encoded. -/
theorem xchgEncode_eq (name : Terminated m.name)
    (few : m.kind = .offer → m.info.table.n.toNat ≤ linkRegionMax)
    (room : xMax ≤ cap) :
    xchgEncode m cap = some ((headChunks m).flatten ++ bodyBytes m) := by
  have small : m.size ≤ xMax := by
    unfold Xmsg.size
    split
    · next offer =>
        have count := few offer
        simp only [linkRegionMax, xOfferFixed, xMax] at *
        omega
    · decide
    · decide
  unfold xchgEncode
  rw [if_neg (fun many => absurd (few many.1) (by omega)), if_neg]
  push Not
  exact ⟨small.trans room, small, name⟩

/-- What a message is encoded as decodes to what the message carries. -/
theorem xchgDecode_encoded (prepared : m.Prepared) :
    xchgDecode ((headChunks m).flatten ++ bodyBytes m) = some m.carried := by
  obtain ⟨magic, version, kindRead, roleRead, flags, name, fromSession,
    toSession⟩ := read_head m (bodyBytes m)
  have length : ((headChunks m).flatten ++ bodyBytes m).length = m.size := by
    rw [List.length_append, length_head, length_bodyBytes]
  have text : m.kind = .err →
      array xText (slice ((headChunks m).flatten ++ bodyBytes m) xHead xText) =
        m.carried.text := by
    intro isErr
    have front := length_head m
    have body : bodyBytes m = List.ofFn m.carried.text := by
      rw [bodyBytes, isErr, Xmsg.carried, if_pos isErr]
      exact take_ofFn_zero m.text
    have read := slice_length_append (headChunks m).flatten (bodyBytes m)
    rw [front, body, List.length_ofFn, ← body] at read
    rw [read, body, array_ofFn]
  have info : m.kind = .offer →
      readInfo ((headChunks m).flatten ++ bodyBytes m) = m.carried.info := by
    intro isOffer
    rw [bodyBytes, isOffer, Xmsg.carried, if_pos isOffer]
    exact readInfo_offer m
  refine xchgDecode_eq_some.mpr ⟨⟨magic, version, kindRead, roleRead,
    name.symm ▸ prepared.name, ?_⟩, ?_⟩
  · change BodyFormed _ m.kind
    rw [Xmsg.size] at length
    cases kind : m.kind with
    | offer =>
        rw [kind] at length
        have read := info kind
        have count : (get32 ((headChunks m).flatten ++ bodyBytes m) 140) =
            m.info.table.n := by
          rw [Xmsg.carried, if_pos kind] at read
          exact congrArg (fun i => i.table.n) read
        have transport : (byteAt ((headChunks m).flatten ++ bodyBytes m) 64) =
            m.info.transport := by
          rw [Xmsg.carried, if_pos kind] at read
          exact congrArg (fun i => i.transport) read
        obtain ⟨few, known⟩ := prepared.offer kind
        refine ⟨?_, ?_, ?_, ?_⟩
        · rw [length]
          exact Nat.le_add_right _ _
        · rwa [count]
        · rwa [count]
        · rwa [transport]
    | err =>
        rw [kind] at length
        refine ⟨length, ?_⟩
        rw [text kind, Xmsg.carried, if_pos kind]
        exact ⟨_, Function.update_self ..⟩
    | ping | pong | bye =>
        rw [kind] at length
        exact length
  · have head : readHead ((headChunks m).flatten ++ bodyBytes m) m.kind m.role =
        { m with
          info := {}
          text := fun _ => 0 } := by
      rw [readHead, flags, name, fromSession, toSession]
    change m.carried = readMsg _ m.kind m.role
    rw [readMsg, head]
    cases kind : m.kind with
    | offer =>
        rw [if_pos rfl, if_neg (by decide), info kind]
        simp [Xmsg.carried, kind]
    | err =>
        rw [if_neg (by decide), if_pos rfl, text kind]
        simp [Xmsg.carried, kind]
    | ping | pong | bye => simp [Xmsg.carried, kind]

theorem cuts_head (input : List UInt8) : cuts headWidths input =
    [slice input 0 4, slice input 4 1, slice input 5 1, slice input 6 1,
      slice input 7 1, slice input 8 24, slice input 32 16,
      slice input 48 16] := by
  simp [cuts, headWidths, slice, List.drop_drop]

theorem cuts_offer (input : List UInt8) :
    cuts offerWidths (input.drop xHead) =
      [slice input 64 1, slice input 65 1, slice input 66 2, slice input 68 4,
        slice input 72 4, slice input 76 4, slice input 80 4, slice input 84 16,
        slice input 100 8, slice input 108 8, slice input 116 8,
        slice input 124 8, slice input 132 8, slice input 140 4] := by
  simp [cuts, offerWidths, slice, List.drop_drop, xHead]

/-- A header that was read is sent as it was. -/
theorem headChunks_read {kind : Kind} {role : Role}
    (formed : Formed input kind role) :
    (headChunks (readMsg input kind role)).flatten = input.take xHead := by
  have long := formed.body.length.1
  simp only [xHead] at long
  have same : headChunks (readMsg input kind role) = cuts headWidths input := by
    rw [cuts_head, headChunks, readMsg, readHead, formed.magic,
      ← formed.version, ← formed.isKind, ← formed.isRole,
      slice_of_byteAt (by omega), slice_of_byteAt (by omega),
      slice_of_byteAt (by omega), slice_of_byteAt (by omega),
      ofFn_array (length_slice _ _ _ (by simp only [xName]; omega)),
      ofFn_array (length_slice _ _ _ (by omega)),
      ofFn_array (length_slice _ _ _ (by omega))]
    rfl
  rw [same, flatten_cuts]
  rfl

/-- An offer that was read is sent as it was. -/
theorem offerChunks_read (long : xOfferFixed ≤ input.length) :
    (offerChunks (readInfo input)).flatten = slice input xHead 80 := by
  simp only [xOfferFixed] at long
  have same : offerChunks (readInfo input) =
      cuts offerWidths (input.drop xHead) := by
    rw [cuts_offer, offerChunks, readInfo]
    dsimp only
    rw [slice_of_byteAt (by omega), slice_of_byteAt (by omega),
      slice_of_get16 (by omega), slice_of_get32 (by omega),
      slice_of_get32 (by omega), slice_of_get32 (by omega),
      slice_of_get32 (by omega), ofFn_array (length_slice _ _ _ (by omega)),
      slice_of_get64 (by omega), slice_of_get64 (by omega),
      slice_of_get64 (by omega), slice_of_get64 (by omega),
      slice_of_get64 (by omega), slice_of_get32 (by omega)]
  rw [same, flatten_cuts]
  rfl

/-- The keys that were read are sent as they were. -/
theorem keyBytes_read
    (few : (get32 input 140).toNat ≤ linkRegionMax)
    (length : input.length = xOfferFixed + 4 * (get32 input 140).toNat) :
    keyBytes (readInfo input).table =
      slice input xOfferFixed (4 * (get32 input 140).toNat) := by
  rw [← lowTable_field input xOfferFixed 4 (get32 input 140).toNat length.ge]
  unfold keyBytes
  apply lowTable_congr
  intro index below
  have count : index < (get32 input 140).toNat := below
  have small := field_lt input (xOfferFixed + 4 * index) 4
  rw [dif_pos (by omega)]
  simp only [readInfo]
  rw [if_pos count, get32, UInt32.toNat_ofNat']
  exact Nat.mod_eq_of_lt (by simpa using small)

/-- A byte string as it is sent again: an error text ends with its last byte. -/
def resent (input : List UInt8) : Kind → List UInt8
  | .err => input.take (xHead + xText - 1) ++ [0]
  | _ => input

/-- What was accepted is encoded as it came, but for an error text's last
byte. -/
theorem xchgEncode_decoded (decoded : xchgDecode input = some m)
    (room : xMax ≤ cap) : xchgEncode m cap = some (resent input m.kind) := by
  obtain ⟨formed, same⟩ := xchgDecode_eq_some.mp decoded
  have body := formed.body
  have head := headChunks_read formed
  rw [← same] at head
  have name : Terminated m.name := by
    rw [same]
    exact formed.name
  cases kind : m.kind with
  | offer =>
      rw [kind] at body
      obtain ⟨long, few, length, -⟩ := body
      have info : m.info = readInfo input := by
        rw [same, readMsg, kind]
        rfl
      have count : m.info.table.n = get32 input 140 := by
        rw [info]
        rfl
      rw [xchgEncode_eq name (fun _ => by rwa [count]) room, head, bodyBytes,
        kind]
      dsimp only
      rw [info, offerChunks_read long, keyBytes_read few length]
      have front : slice input 0 xHead ++ slice input (0 + xHead) 80 =
          slice input 0 xOfferFixed := slice_append_slice input 0 xHead 80
      have whole : slice input 0 xOfferFixed ++ slice input (0 + xOfferFixed)
          (4 * (get32 input 140).toNat) = input := by
        rw [slice_append_slice, ← length]
        exact slice_self input
      rw [Nat.zero_add] at front whole
      change some (slice input 0 xHead ++ (slice input xHead 80 ++ _)) = _
      rw [← List.append_assoc, front, whole]
      rfl
  | err =>
      rw [kind] at body
      obtain ⟨length, -⟩ := body
      have text : List.ofFn m.text = slice input xHead xText := by
        have read : m.text = array xText (slice input xHead xText) := by
          rw [same, readMsg, kind]
          rfl
        rw [read, ofFn_array (length_slice _ _ _ length.ge)]
      have front : slice input 0 xHead ++
          slice input (0 + xHead) (xText - 1) =
            slice input 0 (xHead + xText - 1) :=
        slice_append_slice input 0 xHead (xText - 1)
      rw [xchgEncode_eq name (by simp [kind]) room, head, bodyBytes, kind]
      dsimp only
      have cut : (slice input xHead xText).take (xText - 1) =
          slice input xHead (xText - 1) := by
        rw [slice, slice, List.take_take]
        rfl
      rw [Nat.zero_add] at front
      rw [text, cut, ← List.append_assoc]
      change some (slice input 0 xHead ++ _ ++ _) = _
      rw [front]
      rfl
  | ping | pong | bye =>
      rw [kind] at body
      have length : input.length = xHead := body
      rw [xchgEncode_eq name (by simp [kind]) room, head, bodyBytes, kind,
        List.append_nil, ← length, List.take_length]
      rfl

/-- A byte string sent again differs at most in an error text's last byte. -/
theorem getElem?_resent {kind : Kind} {role : Role}
    (formed : Formed input kind role) :
    (resent input kind).length = input.length ∧
      ∀ index, (resent input kind)[index]? ≠ input[index]? →
        kind = .err ∧ index = xHead + xText - 1 := by
  cases kind with
  | err =>
      have length := formed.body.1
      have size : (resent input .err).length = input.length := by
        rw [resent, List.length_append, List.length_take, length]
        rfl
      refine ⟨size, fun index differs => ⟨rfl, ?_⟩⟩
      by_contra other
      apply differs
      have cut : (input.take (xHead + xText - 1)).length =
          xHead + xText - 1 := by
        rw [List.length_take, length]
        rfl
      by_cases early : index < xHead + xText - 1
      · rw [resent, List.getElem?_append_left (by omega),
          List.getElem?_take_of_lt early]
      · rw [List.getElem?_eq_none (by omega),
          List.getElem?_eq_none (by omega)]
  | offer | ping | pong | bye =>
      exact ⟨rfl, fun index differs => absurd rfl differs⟩

theorem carried_text (isErr : m.kind = .err)
    (ends : m.text ⟨xText - 1, by decide⟩ = 0) : m.carried.text = m.text := by
  rw [Xmsg.carried, if_pos isErr]
  exact Function.update_eq_self_iff.mpr ends.symm

end

/-- The setup codec: what a sender prepares arrives as far as its kind carries
it, exactly the byte strings of their kind's form are accepted, and what was
accepted is encoded as it came. -/
theorem setup_codec {cap : Nat} (room : xMax ≤ cap) :
    (∀ m : Xmsg, m.Prepared →
      (∃ bytes, xchgEncode m cap = some bytes ∧
        xchgDecode bytes = some m.carried) ∧
      (m.kind = .err → m.text ⟨xText - 1, by decide⟩ = 0 →
        m.carried.text = m.text)) ∧
    (∀ input, (xchgDecode input).isSome = true ↔
      ∃ kind role, Formed input kind role) ∧
    ∀ input m, xchgDecode input = some m →
      ∃ out, xchgEncode m cap = some out ∧ out.length = input.length ∧
        ∀ index, out[index]? ≠ input[index]? →
          m.kind = .err ∧ index = xHead + xText - 1 := by
  refine ⟨?_, fun input => xchgDecode_isSome, ?_⟩
  · intro m prepared
    refine ⟨⟨_, xchgEncode_eq prepared.name
      (fun offer => (prepared.offer offer).1) room,
      xchgDecode_encoded prepared⟩, carried_text⟩
  · intro input m decoded
    have formed := (xchgDecode_eq_some.mp decoded).1
    obtain ⟨length, differs⟩ := getElem?_resent formed
    exact ⟨_, xchgEncode_decoded decoded room, length, differs⟩

/-- A text in its array. -/
def padded (size : Nat) (text : String) : Fin size → UInt8 :=
  fun index => byteAt text.toUTF8.toList index

/-- The offer of a link "a" whose region has two keys. -/
def keyedOffer : Xmsg where
  kind := .offer
  role := .connect
  name := padded xName "a"
  fromSession := fun _ => 1
  toSession := fun _ => 2
  info :=
    { transport := linkRoce
      table :=
        { base := 4096
          length := 8192
          seg := 4096
          n := 2
          rkey := fun index => if index.val < 2 then 40 + index.val.toUInt32
            else 0 } }

/-- The listener's answer with a reason. -/
def busyErr : Xmsg where
  kind := .err
  role := .listen
  name := padded xName "a"
  fromSession := fun _ => 3
  toSession := fun _ => 1
  text := padded xText "no device is free"

theorem setup_codec_offer_err :
    (∃ bytes, xchgEncode keyedOffer xMax = some bytes ∧
      xchgDecode bytes = some keyedOffer.carried) ∧
    (∃ bytes, xchgEncode busyErr xMax = some bytes ∧
      xchgDecode bytes = some busyErr.carried) ∧
    keyedOffer.carried.info.table.rkey ⟨1, by decide⟩ = 41 ∧
    busyErr.carried.text = busyErr.text := by
  have offer : keyedOffer.Prepared :=
    { name := ⟨⟨1, by decide⟩, by decide +kernel⟩
      offer := fun _ => ⟨by decide, by decide⟩
      err := fun isErr => by cases isErr }
  have err : busyErr.Prepared :=
    { name := ⟨⟨1, by decide⟩, by decide +kernel⟩
      offer := fun isOffer => by cases isOffer
      err := fun _ => ⟨⟨xText - 1, by decide⟩, by decide +kernel⟩ }
  have codec := (setup_codec (le_refl xMax)).1
  exact ⟨(codec keyedOffer offer).1, (codec busyErr err).1, rfl,
    (codec busyErr err).2 rfl (by decide +kernel)⟩

/-- The length its kind prescribes. -/
def Prescribed (input : List UInt8) : Kind → Prop
  | .offer => (get32 input 140).toNat ≤ linkRegionMax ∧
      input.length = xOfferFixed + 4 * (get32 input 140).toNat
  | .err => input.length = xHead + xText
  | _ => input.length = xHead

/-- An offer of no known transport. -/
def strangeOffer : List UInt8 :=
  xMagic ++ [1, 1, 1, 0] ++ List.replicate 136 0

/-- An offer of an unknown transport has the magic, version, kind, role,
terminated name and length of an offer and is refused. -/
theorem strange_offer_refused :
    ¬∀ input, (xchgDecode input).isSome = true ↔ ∃ (kind : Kind) (role : Role),
      slice input 0 4 = xMagic ∧ byteAt input 4 = xVersion ∧
        byteAt input 5 = kind.code ∧ byteAt input 6 = role.code ∧
        Terminated (array xName (slice input 8 xName)) ∧
        Prescribed input kind := by
  intro accepts
  have refused : (xchgDecode strangeOffer).isSome = false := by decide +kernel
  have framed := (accepts strangeOffer).mpr ⟨.offer, .connect,
    by decide +kernel, by decide +kernel, by decide +kernel, by decide +kernel,
    by decide +kernel, by decide +kernel, by decide +kernel⟩
  rw [refused] at framed
  simp at framed

end Setup
end Mcdma
