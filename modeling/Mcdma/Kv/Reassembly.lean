import Mcdma.Kv.Rows

/-!
# Pages put together again

A decoder opens a handoff and pulls its frames.  The headers it reads say where
the rows of each frame belong, the frames tile the rows of every layer, and the
rows are those of the prompt's tokens in order.
-/

namespace Mcdma
namespace Kv

section

variable {Request Time : Type} {site : Site} {s s' : Answering Request Time}
  {seq : Nat} {h header : Header} {payload bytes : List UInt8}
  {e : Export Request}

/-! ## Replies -/

theorem not_answers_self : ¬ Answers s s seq h := by
  rintro ⟨bytes, same, -⟩
  have length := congrArg List.length same
  rw [List.length_append] at length
  simp at length

/-- What a published message is read as. -/
theorem answers_publish (packed : header.pack = .ok bytes)
    (whole : header.nbytes ≤ payload.length)
    (answered : Answers s (publish site s seq (bytes ++ payload)).1 seq h) :
    h = header := by
  unfold publish at answered
  split at answered
  · exact absurd answered not_answers_self
  · obtain ⟨found, same, read⟩ := answered
    have last := List.append_cancel_left same
    simp only [List.cons.injEq, Prod.mk.injEq, true_and, and_true] at last
    rw [← last, unpack_pack packed fun _ => whole] at read
    exact (Except.ok.inj read).symm

/-- A reply is read as it was made. -/
theorem answers_reply
    (answered : Answers s (reply site s seq header payload).1 seq h) :
    h = { header with nbytes := payload.length } := by
  unfold reply at answered
  split at answered
  · exact absurd answered not_answers_self
  · next bytes packed =>
      exact answers_publish packed (Nat.le_refl payload.length) answered

theorem sizes_mem {l : LayerSize} (member : l ∈ e.sizes) :
    ∃ layer, e.layers[l.layer]? = some layer ∧
      l.rows = layer.rows.length ∧ l.rowBytes = layer.rowBytes := by
  obtain ⟨⟨layer, position⟩, among, rfl⟩ := List.mem_map.mp member
  exact ⟨layer, List.mem_zipIdx_iff_getElem?.mp among, rfl, rfl⟩

/-- A frame and its layer. -/
theorem Planned.held {capacity : Nat} {frame : Frame}
    (planned : Planned capacity e.sizes e.frames)
    (member : frame ∈ e.frames) :
    ∃ layer, e.layers[frame.layer]? = some layer ∧ 0 < frame.rows ∧
      frame.rowStart + frame.rows ≤ layer.rows.length ∧
      frame.rows * layer.rowBytes ≤ capacity := by
  obtain ⟨l, among, same, nonzero, last, fits⟩ := planned.frame member
  obtain ⟨layer, place, rows, bytes⟩ := sizes_mem among
  rw [rows] at last
  rw [bytes] at fits
  exact ⟨layer, by rw [same]; exact place, nonzero, last, fits⟩

/-! ## Pulling a frame -/

/-- A header that says where a frame's pages belong. -/
def Describes (e : Export Request) (index : Nat) (h : Header) : Prop :=
  ∃ frame layer, e.frames[index]? = some frame ∧
    e.layers[frame.layer]? = some layer ∧ h.frame = index ∧
    h.frames = e.frames.length ∧ h.layer = layer.index ∧
    h.rowStart = frame.rowStart ∧ h.rows = frame.rows ∧
    h.nbytes = frame.rows * layer.rowBytes

/-- The counts of an export fit the fields of a header, and the rows of its
layers are there. -/
structure Sendable (site : Site) (e : Export Request) : Prop where
  frames : e.frames.length < 2 ^ 32
  reply : site.maxReply < 2 ^ 64
  index : ∀ layer ∈ e.layers, layer.index < 2 ^ 32
  rows : ∀ layer ∈ e.layers, layer.rows.length < 2 ^ 64
  rowBytes : ∀ layer ∈ e.layers, 0 < layer.rowBytes
  inside : ∀ layer ∈ e.layers, ∀ row ∈ layer.rows,
    row < layer.tensor.shape.getD layer.blockDim 0

/-- Every data header answered is that of the frame asked for. -/
theorem pull_describes (sound : ∀ layer ∈ e.layers, layer.Sound)
    (planned : Planned (site.maxReply - headerBytes) e.sizes e.frames)
    (answered : Answers s (pull site s seq header (some e)).1 seq h)
    (data : h.kind = Kind.data) : Describes e header.frame h := by
  unfold pull at answered
  split at answered
  · rw [refuse] at answered
    rw [answers_reply answered] at data
    cases data
  · next held frame same =>
      obtain ⟨frame', place, pair⟩ := Option.map_eq_some_iff.mp same
      obtain ⟨rfl, rfl⟩ := Prod.mk.inj pair
      obtain ⟨layer, here, nonzero, last, fits⟩ :=
        planned.held (List.mem_of_getElem? place)
      rw [here] at answered
      dsimp only at answered
      split at answered
      · exact absurd answered not_answers_self
      · next flat filled =>
          obtain ⟨size, room⟩ :=
            LayerPages.fill_ok (sound layer (List.mem_of_getElem? here))
              filled last
          split at answered
          · exact absurd answered not_answers_self
          · next bytes packed =>
              rw [answers_publish packed (Nat.le_refl flat.length) answered]
              exact ⟨frame', layer, place, here, rfl, rfl, rfl, rfl, rfl,
                size⟩

/-- Every frame that was planned is answered with its pages. -/
theorem pull_answers (sound : ∀ layer ∈ e.layers, layer.Sound)
    (planned : Planned (site.maxReply - headerBytes) e.sizes e.frames)
    (sendable : Sendable site e) (sixteen : header.handoff.length = 16)
    (inside : header.frame < e.frames.length) :
    ∃ h, Answers s (pull site s seq header (some e)).1 seq h ∧
      h.kind = Kind.data := by
  have place := List.getElem?_eq_getElem inside
  generalize e.frames[header.frame] = frame at place
  obtain ⟨layer, here, nonzero, last, fits⟩ :=
    planned.held (List.mem_of_getElem? place)
  have member := List.mem_of_getElem? here
  obtain ⟨flat, filled⟩ := LayerPages.fill_total (sound layer member)
    (sendable.inside layer member) last
    (Nat.mul_pos nonzero (sendable.rowBytes layer member)) fits
  obtain ⟨size, room⟩ := LayerPages.fill_ok (sound layer member) filled last
  have least := site.room
  have counts := sendable.frames
  have limit := sendable.reply
  have rows := sendable.rows layer member
  let checksum := (s.checksums.get header.handoff).getD true
  have packs : ∃ bytes, (dataHeader site header e layer frame checksum
      flat).pack = .ok bytes := by
    have crc : (dataHeader site header e layer frame checksum flat).crc <
        2 ^ 32 := by
      dsimp only [dataHeader]
      split
      · exact (site.crc32 flat).toNat_lt
      · decide
    have flags : (dataHeader site header e layer frame checksum flat).flags <
        2 ^ 32 := by
      dsimp only [dataHeader]
      split <;> decide
    have known : (dataHeader site header e layer frame checksum flat).kind ∈
        kinds := by
      dsimp only [dataHeader]
      decide
    have fitting : (dataHeader site header e layer frame checksum
        flat).Fits :=
      ⟨⟨by dsimp only [dataHeader]; omega, counts,
          sendable.index layer member, flags⟩,
        ⟨by dsimp only [dataHeader]; omega, by dsimp only [dataHeader]; omega,
          by dsimp only [dataHeader]; omega⟩, crc⟩
    rw [Header.pack, if_neg, if_neg (not_not.mpr fitting)]
    · exact ⟨_, rfl⟩
    · rintro (unknown | short)
      · exact unknown known
      · exact short sixteen
  obtain ⟨bytes, packed⟩ := packs
  refine ⟨dataHeader site header e layer frame checksum flat,
    ⟨bytes ++ flat, ?_, unpack_pack packed fun _ => Nat.le_refl flat.length⟩,
    rfl⟩
  unfold pull
  simp only [Option.bind_some, place, Option.map_some, here, filled]
  rw [packed]
  dsimp only
  rw [publish_ok]
  rw [List.length_append, Header.length_pack packed]
  omega

/-! ## Opening a handoff -/

variable [DecidableEq Request]

/-- A pull is answered from the export that is held. -/
theorem handle_pull (read : unpack payload = .ok header)
    (kind : header.kind = Kind.pull)
    (held : s.table.get header.handoff = some (.inl e)) :
    handle site s seq payload = pull site s seq header (some e) := by
  rw [handle, read]
  dsimp only
  rw [held]
  dsimp only
  rw [dispatch, kind]
  rfl

end

/-! ## The whole handoff -/

section

variable {Request Time : Type}

variable [DecidableEq Request]

/-- While an export is held its frames are answered under headers that say
where their pages belong. -/
def Served (Time : Type) (site : Site) (handoff : List UInt8)
    (e : Export Request) : Prop :=
  ∀ (s : Answering Request Time) (seq : Nat) (payload : List UInt8)
    (header : Header), s.table.get handoff = some (.inl e) →
    unpack payload = .ok header → header.kind = Kind.pull →
    header.handoff = handoff →
      (∀ h, Answers s (handle site s seq payload).1 seq h →
        h.kind = Kind.data → Describes e header.frame h) ∧
      (Sendable site e → header.frame < e.frames.length →
        ∃ h, Answers s (handle site s seq payload).1 seq h ∧
          h.kind = Kind.data)

theorem served {site : Site} {handoff : List UInt8} {e : Export Request}
    (sound : ∀ layer ∈ e.layers, layer.Sound)
    (planned : Planned (site.maxReply - headerBytes) e.sizes e.frames) :
    Served Time site handoff e := by
  rintro s seq payload header held read kind rfl
  rw [handle_pull read kind held]
  exact ⟨fun h answered data => pull_describes sound planned answered data,
    fun sendable inside => pull_answers sound planned sendable
      (unpack_sound read).2 inside⟩

end

end Kv
end Mcdma
