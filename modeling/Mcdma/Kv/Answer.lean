import Mcdma.Kv.Export
import Mcdma.Kv.Frames

/-!
# Answers to a decoder

The responder of a link answers each request from what the table holds for its
handoff: an export, the reason why there is none, or nothing yet.
-/

namespace Mcdma
namespace Kv

/-- `Export`. -/
structure Export (Request : Type) where
  requestId : Request
  handoff : List UInt8
  tokens : List Nat
  firstToken : Nat
  tokensPerRow : Nat
  layers : List LayerPages
  frames : List Frame := []

/-- What `manifest` says of an export. -/
structure Manifest where
  protocol : Nat
  handoff : List UInt8
  model : String
  promptTokens : Nat
  firstToken : Nat
  tokenSha256 : List UInt8
  blockSize : Nat
  tpRank : Nat
  tpSize : Nat
  layers : List Entry
  frames : Nat

/-- What the options of a request are read as: no JSON, JSON that is no object,
or an object with or without the option. -/
inductive Loaded
  | malformed
  | other
  | object (checksum : Option Bool)

/-- A responder's mailbox and what it was made with.  The daemon's reply halves
have room for a header; texts, digests and checksums are made elsewhere. -/
structure Site where
  maxReply : Nat
  room : headerBytes ≤ maxReply
  crc32 : List UInt8 → UInt32
  loads : List UInt8 → Loaded
  dumps : Manifest → List UInt8
  tokenSha256 : List Nat → List UInt8
  model : String
  tpRank : Nat
  tpSize : Nat

/-- The table, the decoders' choices and the replies so far. -/
structure Answering (Request Time : Type) where
  table : ExportTable (List UInt8) Request (Export Request) Time
  checksums : Dict (List UInt8) Bool
  replies : List (Nat × List UInt8)

/-- The bytes of a text. -/
def encode (text : String) : List UInt8 := text.toUTF8.toList

/-- `_NO_HANDOFF`. -/
def noHandoff : List UInt8 := List.replicate 16 0

section

variable {Request Time : Type}

/-- The export's frames are set in place. -/
def ExportTable.setFrames
    (t : ExportTable (List UInt8) Request (Export Request) Time)
    (handoff : List UInt8) (e : Export Request) (frames : List Frame) :
    ExportTable (List UInt8) Request (Export Request) Time where
  exports := t.exports.put handoff (.inl { e with frames := frames })
  owners := t.owners
  finished := t.finished

/-- `manifest`. -/
def Export.manifest (site : Site) (e : Export Request) : Manifest where
  protocol := version
  handoff := e.handoff
  model := site.model
  promptTokens := e.tokens.length
  firstToken := e.firstToken
  tokenSha256 := site.tokenSha256 e.tokens
  blockSize := e.tokensPerRow
  tpRank := site.tpRank
  tpSize := site.tpSize
  layers := e.layers.map LayerPages.toDict
  frames := e.frames.length

/-- The layers as `plan_frames` takes them. -/
def Export.sizes (e : Export Request) : List LayerSize :=
  e.layers.zipIdx.map fun entry =>
    ⟨entry.2, entry.1.rows.length, entry.1.rowBytes⟩

variable (site : Site) (s : Answering Request Time) (seq : Nat)

/-- A reply in the mailbox. -/
def publish (bytes : List UInt8) : Answering Request Time × Option Fault :=
  if site.maxReply < bytes.length then
    (s, some (.mailbox "reply is larger than the reply half"))
  else ({ s with replies := s.replies ++ [(seq, bytes)] }, none)

/-- `_reply`. -/
def reply (h : Header) (payload : List UInt8) :
    Answering Request Time × Option Fault :=
  match ({ h with nbytes := payload.length } : Header).pack with
  | .error fault => (s, some fault)
  | .ok bytes => publish site s seq (bytes ++ payload)

/-- A refusal in words. -/
def refuse (handoff : List UInt8) (text : String) :
    Answering Request Time × Option Fault :=
  reply site s seq { kind := Kind.error, handoff := handoff } (encode text)

/-- Whether a decoder wants checksums. -/
def wantsChecksum (payload : List UInt8) (header : Header) :
    Except Fault Bool :=
  let text := body payload header
  match site.loads (if text = [] then encode "{}" else text) with
  | .malformed => .ok true
  | .object checksum => .ok (checksum.getD true)
  | .other => .error .attribute

/-- The frames of an export are planned when it is first opened. -/
def planExport (handoff : List UInt8) (e : Export Request) :
    Except Fault (Answering Request Time × Export Request) :=
  if e.frames ≠ [] then .ok (s, e)
  else
    match planFrames (site.maxReply - headerBytes) e.sizes with
    | .error fault => .error fault
    | .ok frames =>
        .ok ({ s with table := s.table.setFrames handoff e frames },
          { e with frames := frames })

/-- `_open`. -/
def open_ (header : Header) (payload : List UInt8) :
    Option (Export Request) → Answering Request Time × Option Fault
  | none =>
      reply site s seq { kind := Kind.wait, handoff := header.handoff } []
  | some e =>
      match wantsChecksum site payload header with
      | .error fault => (s, some fault)
      | .ok checksum =>
          let s := { s with
            checksums := s.checksums.put header.handoff checksum }
          match planExport site s header.handoff e with
          | .error fault => (s, some fault)
          | .ok (s, e) =>
              reply site s seq
                { kind := Kind.manifest, handoff := header.handoff,
                  frames := e.frames.length }
                (site.dumps (e.manifest site))

/-- The header of a frame's pages. -/
def dataHeader (header : Header) (e : Export Request) (layer : LayerPages)
    (frame : Frame) (checksum : Bool) (flat : List UInt8) : Header where
  kind := Kind.data
  handoff := header.handoff
  frame := header.frame
  frames := e.frames.length
  layer := layer.index
  flags := if checksum then checked else 0
  rowStart := frame.rowStart
  rows := frame.rows
  nbytes := flat.length
  crc := if checksum then (site.crc32 flat).toNat else 0

/-- `_pull`. -/
def pull (header : Header) (held : Option (Export Request)) :
    Answering Request Time × Option Fault :=
  match held.bind fun e => e.frames[header.frame]?.map fun frame =>
    (e, frame) with
  | none =>
      refuse site s seq header.handoff
        s!"no frame {header.frame} in this handoff"
  | some (e, frame) =>
      match e.layers[frame.layer]? with
      | none => (s, some .index)
      | some layer =>
          match layer.fill frame.rowStart frame.rows
            (site.maxReply - headerBytes) with
          | .error fault => (s, some fault)
          | .ok flat =>
              let checksum := (s.checksums.get header.handoff).getD true
              match (dataHeader site header e layer frame checksum
                flat).pack with
              | .error fault => (s, some fault)
              | .ok bytes => publish site s seq (bytes ++ flat)

variable [DecidableEq Request]

/-- The handoff is released, and what its decoder chose forgotten. -/
def release (handoff : List UInt8) : Answering Request Time where
  table := s.table.finish handoff
  checksums := s.checksums.pop handoff
  replies := s.replies

/-- A request for a handoff that has not failed. -/
def dispatch (header : Header) (payload : List UInt8)
    (held : Option (Export Request)) :
    Answering Request Time × Option Fault :=
  if header.kind = Kind.open_ then open_ site s seq header payload held
  else if header.kind = Kind.pull then pull site s seq header held
  else if header.kind = Kind.close then
    reply site (release s header.handoff) seq
      { kind := Kind.ack, handoff := header.handoff } []
  else
    refuse site s seq header.handoff
      s!"unexpected request kind {header.kind}"

/-- `handle`. -/
def handle (payload : List UInt8) : Answering Request Time × Option Fault :=
  match unpack payload with
  | .error text => refuse site s seq noHandoff text
  | .ok header =>
      match s.table.get header.handoff with
      | some (.inr reason) => refuse site s seq header.handoff reason
      | some (.inl e) => dispatch site s seq header payload (some e)
      | none => dispatch site s seq header payload none

end

/-! ## Replies -/

section

variable {Request Time : Type} {site : Site} {s : Answering Request Time}
  {seq : Nat}

/-- One more reply, with a header. -/
def Answers (s s' : Answering Request Time) (seq : Nat) (h : Header) :
    Prop :=
  ∃ bytes, s'.replies = s.replies ++ [(seq, bytes)] ∧ unpack bytes = .ok h

variable (site s seq) in
theorem publish_table (bytes : List UInt8) :
    (publish site s seq bytes).1.table = s.table ∧
      (publish site s seq bytes).1.checksums = s.checksums := by
  unfold publish
  split <;> exact ⟨rfl, rfl⟩

variable (site s seq) in
/-- A reply leaves the table as it is. -/
theorem reply_table (h : Header) (payload : List UInt8) :
    (reply site s seq h payload).1.table = s.table ∧
      (reply site s seq h payload).1.checksums = s.checksums := by
  unfold reply
  split
  · exact ⟨rfl, rfl⟩
  · exact publish_table _ _ _ _

theorem publish_ok {bytes : List UInt8} (fits : bytes.length ≤ site.maxReply) :
    publish site s seq bytes =
      ({ s with replies := s.replies ++ [(seq, bytes)] }, none) := by
  rw [publish, if_neg (by omega)]

/-- A header without a payload is packed and published. -/
theorem reply_bare {h : Header} (known : h.kind ∈ kinds)
    (sixteen : h.handoff.length = 16) (fits : h.Fits)
    (bare : h.nbytes = 0) :
    Answers s (reply site s seq h []).1 seq h := by
  have same : ({ h with nbytes := ([] : List UInt8).length } : Header) = h := by
    rw [List.length_nil, ← bare]
  have packed : h.pack = .ok (h.chunks.flatten ++
      List.replicate (headerBytes - 68) 0) := by
    rw [Header.pack, if_neg (by simp [known, sixteen]),
      if_neg (not_not.mpr fits)]
  have room := site.room
  rw [reply, same, packed]
  dsimp only
  rw [publish_ok]
  · exact ⟨_, rfl, unpack_pack packed fun _ => by simp [bare]⟩
  · rw [List.append_nil, Header.length_pack packed]
    exact room

end

/-! ## Closing a handoff -/

section

variable {Request Time : Type} [DecidableEq Request]

/-- A close request is acknowledged, and the handoff is no longer held. -/
def Closed (s s' : Answering Request Time) (seq : Nat)
    (handoff : List UInt8) : Prop :=
  Answers s s' seq { kind := Kind.ack, handoff := handoff } ∧
    s'.table.exports.get handoff = none ∧
    s'.table.owners.get handoff = none ∧
    ∀ owner, s.table.owners.get handoff = some owner →
      owner.1 ∈ s'.table.finished

theorem release_closed (s : Answering Request Time) (handoff : List UInt8) :
    (release s handoff).table.exports.get handoff = none ∧
      (release s handoff).table.owners.get handoff = none ∧
      ∀ owner, s.table.owners.get handoff = some owner →
        owner.1 ∈ (release s handoff).table.finished := by
  refine ⟨Dict.get_pop_same _ _, Dict.get_pop_same _ _, fun owner held => ?_⟩
  rw [release, ExportTable.finish, ExportTable.reported, held]
  exact Finset.mem_insert_self _ _

/-- A failed handoff is never touched. -/
theorem handle_failed {site : Site} {s : Answering Request Time} {seq : Nat}
    {payload : List UInt8} {header : Header} {reason : String}
    (read : unpack payload = .ok header)
    (failed : s.table.get header.handoff = some (.inr reason)) :
    (handle site s seq payload).1.table = s.table := by
  rw [handle, read]
  dsimp only
  rw [failed]
  exact (reply_table _ _ _ _ _).1

/-- A close request releases a handoff exactly if it holds no reason for a
failure. -/
theorem handle_close_iff (site : Site) (s : Answering Request Time)
    (seq : Nat) {payload : List UInt8} {header : Header}
    (read : unpack payload = .ok header) (close : header.kind = Kind.close) :
    Closed s (handle site s seq payload).1 seq header.handoff ↔
      ∀ reason, s.table.get header.handoff ≠ some (.inr reason) := by
  have sixteen := (unpack_sound read).2
  have dispatched : ∀ held, Closed s
      (dispatch site s seq header payload held).1 seq header.handoff := by
    intro held
    have answered : dispatch site s seq header payload held =
        reply site (release s header.handoff) seq
          { kind := Kind.ack, handoff := header.handoff } [] := by
      rw [dispatch, close]
      rfl
    obtain ⟨table, -⟩ := reply_table site (release s header.handoff) seq
      { kind := Kind.ack, handoff := header.handoff } []
    obtain ⟨exports, owners, finished⟩ := release_closed s header.handoff
    rw [answered, Closed, table]
    exact ⟨reply_bare (s := release s header.handoff)
      (by simp [kinds, Kind.ack]) sixteen (by simp [Header.Fits]) rfl,
      exports, owners, finished⟩
  constructor
  · rintro ⟨-, gone, -⟩ reason failed
    rw [handle_failed read failed] at gone
    rw [ExportTable.get, gone] at failed
    cases failed
  · intro fine
    rw [handle, read]
    dsimp only
    split
    · next reason held => exact absurd held (fine reason)
    · exact dispatched _
    · exact dispatched _

/-- A responder that has answered nothing yet. -/
def freshSite : Site where
  maxReply := 256
  room := by decide
  crc32 := fun _ => 0
  loads := fun _ => .malformed
  dumps := fun _ => []
  tokenSha256 := fun _ => []
  model := "m"
  tpRank := 0
  tpSize := 1

/-- A request to close the handoff whose bytes are zero. -/
def closeHeader : Header where
  kind := Kind.close
  handoff := noHandoff

/-- Its message. -/
def closeRequest : List UInt8 :=
  closeHeader.chunks.flatten ++ List.replicate (headerBytes - 68) 0

theorem unpack_closeRequest : unpack closeRequest = .ok closeHeader := by
  have packed : closeHeader.pack = .ok closeRequest := by
    rw [Header.pack, if_neg (by decide), if_neg (by decide), closeRequest]
  have read : unpack (closeRequest ++ []) = .ok closeHeader :=
    unpack_pack packed fun _ => Nat.zero_le _
  rwa [List.append_nil] at read

/-- A prompt of two tokens whose export has no layer. -/
def shortExport : Export Nat where
  requestId := 7
  handoff := noHandoff
  tokens := [1, 2]
  firstToken := 0
  tokensPerRow := 1
  layers := []

/-- A table that holds it for the request that owns it, while another handoff
failed. -/
def heldTable : ExportTable (List UInt8) Nat (Export Nat) Nat :=
  (ExportTable.init.add [1] 8 (.inr "KV caches cannot be exported") 0).add
    noHandoff 7 (.inl shortExport) 0

/-- It is answered where the export is held, and its owner is told. -/
theorem handle_close_held :
    heldTable.get noHandoff = some (.inl shortExport) ∧
      Closed (⟨heldTable, Dict.empty, []⟩ : Answering Nat Nat)
        (handle freshSite ⟨heldTable, Dict.empty, []⟩ 1 closeRequest).1 1
        noHandoff := by
  have held : heldTable.get noHandoff = some (.inl shortExport) :=
    Dict.get_put_same _ _ _
  refine ⟨held, (handle_close_iff freshSite ⟨heldTable, Dict.empty, []⟩ 1
    unpack_closeRequest rfl).mpr fun reason failed => ?_⟩
  have same : some (Sum.inl shortExport) = some (Sum.inr reason) :=
    held.symm.trans failed
  cases same

/-- A handoff that failed is not released. -/
theorem handle_close_failed :
    ¬ ∀ (site : Site) (s : Answering Nat Nat) (seq : Nat)
      (payload : List UInt8) (header : Header),
      unpack payload = .ok header → header.kind = Kind.close →
        Closed s (handle site s seq payload).1 seq header.handoff := by
  intro all
  have failed : (ExportTable.init.add closeHeader.handoff 7
      (.inr "KV caches cannot be exported") 0 :
        ExportTable (List UInt8) Nat (Export Nat) Nat).get
          closeHeader.handoff = some (.inr "KV caches cannot be exported") :=
    Dict.get_put_same _ _ _
  obtain ⟨-, gone, -⟩ := all freshSite ⟨ExportTable.init.add
    closeHeader.handoff 7 (.inr "KV caches cannot be exported") 0,
      Dict.empty, []⟩ 1 _ closeHeader unpack_closeRequest rfl
  rw [handle_failed unpack_closeRequest failed] at gone
  rw [ExportTable.get, gone] at failed
  cases failed

end

end Kv
end Mcdma
