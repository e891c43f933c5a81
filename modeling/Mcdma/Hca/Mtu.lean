import Mathlib.Algebra.Order.Group.Nat

/-!
# Changing the frame size

`Hca::configure_ethernet_mtu` writes two settings of the device, reads them
back, and restores both when a command was refused or the readback differs.  A
command may also be lost; then the transport is quarantined and nothing more is
sent.

The firmware is arbitrary: what a write leaves in the registers, done, refused
or lost, is up to it.  Only a query reports the registers as they are.
-/

namespace Mcdma
namespace Hca
namespace Mtu

/-- The device's settings: the port's limit, its administrative and operational
size, and the virtual port's size. -/
structure Registers where
  maximum : UInt16
  admin : UInt16
  oper : UInt16
  vport : UInt16
  deriving DecidableEq

/-- The sizes the driver keeps. -/
structure Software where
  ethernetMtu : UInt16
  maxEthernetMtu : UInt16
  frameAdminMtu : UInt16
  frameOperMtu : UInt16
  vportFrameMtu : UInt16
  deriving DecidableEq

/-- How a command ends. -/
inductive Outcome where
  | refused
  | lost
  | done
  deriving DecidableEq

/-- How a write ends, and the registers after it. -/
structure Fate where
  outcome : Outcome
  after : Registers

/-- The driver and its device. -/
structure State where
  registers : Registers
  software : Software
  quarantined : Bool
  inactive : Bool
  initialized : Bool
  queuePairs : Bool

/-- The firmware's part in one change: the queries before, the two writes, the
queries after, and the same for restoring. -/
structure Firmware where
  port : Outcome
  vport : Outcome
  writePort : Fate
  writeVport : Fate
  afterPort : Outcome
  afterVport : Outcome
  restorePort : Fate
  restoreVport : Fate
  restoredPort : Outcome
  restoredVport : Outcome

namespace State

variable (h : State)

def ready : Bool := !h.quarantined && !h.inactive

/-- `Hca::call` of a query. -/
def call (outcome : Outcome) : Bool × State :=
  if !h.ready then (false, h)
  else
    match outcome with
    | .refused => (false, h)
    | .lost => (false, { h with quarantined := true })
    | .done => (true, h)

/-- `Hca::call` of a write. -/
def write (fate : Fate) : Bool × State :=
  if !h.ready then (false, h)
  else { h with registers := fate.after }.call fate.outcome

/-- `Hca::query_mtu`. -/
def queryMtu (port vport : Outcome) : Option Registers × State :=
  match h.call port with
  | (false, h) => (none, h)
  | (true, h) =>
      let maximum := h.registers.maximum
      let admin := h.registers.admin
      let oper := h.registers.oper
      match h.call vport with
      | (false, h) => (none, h)
      | (true, h) =>
          if maximum ≥ 1522 ∧ admin ≥ 1280 ∧ admin ≤ maximum then
            (some ⟨maximum, admin, oper, h.registers.vport⟩, h)
          else (none, h)

/-- The writes and the readback of a change. -/
def attempt (fw : Firmware) : Option Registers × State :=
  match h.write fw.writePort with
  | (false, h) => (none, h)
  | (true, h) =>
      match h.write fw.writeVport with
      | (false, h) => (none, h)
      | (true, h) => h.queryMtu fw.afterPort fw.afterVport

/-- Both settings restored and read back; one step that fails quarantines. -/
def restore (fw : Firmware) (before : Registers) : State :=
  if h.quarantined then h
  else
    match h.write fw.restorePort with
    | (false, h) => { h with quarantined := true }
    | (true, h) =>
        match h.write fw.restoreVport with
        | (false, h) => { h with quarantined := true }
        | (true, h) =>
            match h.queryMtu fw.restoredPort fw.restoredVport with
            | (none, h) => { h with quarantined := true }
            | (some restored, h) =>
                if restored.admin ≠ before.admin ∨
                    restored.vport ≠ before.vport then
                  { h with quarantined := true }
                else h

/-- `Hca::configure_ethernet_mtu`. -/
def configureEthernetMtu (fw : Firmware) (bytes : UInt16) : Bool × State :=
  if !h.ready ∨ !h.initialized ∨ h.queuePairs = true ∨ bytes < 1280 ∨
      bytes > 9000 then (false, h)
  else
    match h.queryMtu fw.port fw.vport with
    | (none, h) => (false, h)
    | (some before, h) =>
        let frame := bytes + 22
        if frame > before.maximum then (false, h)
        else
          match h.attempt fw with
          | (none, h) => (false, h.restore fw before)
          | (some after, h) =>
              if after.admin = frame ∧ after.oper ≥ frame ∧
                  after.vport = frame then
                (true,
                  { h with
                    software :=
                      { ethernetMtu := bytes
                        maxEthernetMtu := after.maximum - 22
                        frameAdminMtu := after.admin
                        frameOperMtu := after.oper
                        vportFrameMtu := after.vport } })
              else (false, h.restore fw before)

/-! ## What each part leaves -/

theorem call_cases (outcome : Outcome) :
    h.call outcome = (false, h) ∨
      h.call outcome = (false, { h with quarantined := true }) ∨
      h.call outcome = (true, h) := by
  unfold call
  split
  · exact Or.inl rfl
  · cases outcome with
    | refused => exact Or.inl rfl
    | lost => exact Or.inr (Or.inl rfl)
    | done => exact Or.inr (Or.inr rfl)

/-- A write touches the registers and the quarantine only. -/
theorem software_write (fate : Fate) :
    (h.write fate).2.software = h.software := by
  unfold write
  split
  · rfl
  · rcases call_cases { h with registers := fate.after } fate.outcome with
      same | same | same
    all_goals rw [same]

/-- A query leaves all but the quarantine, and reports the registers. -/
theorem queryMtu_spec (port vport : Outcome) :
    (h.queryMtu port vport).2.software = h.software ∧
      (h.queryMtu port vport).2.registers = h.registers ∧
      ∀ found, (h.queryMtu port vport).1 = some found →
        found = h.registers ∧ found.admin ≤ found.maximum ∧
          1522 ≤ found.maximum := by
  unfold queryMtu
  rcases h.call_cases port with first | first | first
  · simp [first]
  · simp [first]
  · rw [first]
    rcases h.call_cases vport with second | second | second
    · simp [second]
    · simp [second]
    · simp only [second]
      split
      · next good =>
          refine ⟨rfl, rfl, fun found is => ?_⟩
          obtain rfl := Option.some.inj is
          exact ⟨rfl, good.2.2, good.1⟩
      · simp

theorem software_attempt (fw : Firmware) :
    (h.attempt fw).2.software = h.software := by
  have first := h.software_write fw.writePort
  unfold attempt
  generalize h.write fw.writePort = port at first ⊢
  obtain ⟨_ | _, middle⟩ := port
  · exact first
  · have second := middle.software_write fw.writeVport
    dsimp only at first ⊢
    generalize middle.write fw.writeVport = vport at second ⊢
    obtain ⟨_ | _, last⟩ := vport
    · exact second.trans first
    · exact ((last.queryMtu_spec _ _).1.trans second).trans first

/-- The readback of a change is what the registers hold. -/
theorem attempt_some (fw : Firmware) {found : Registers}
    (read : (h.attempt fw).1 = some found) :
    found = (h.attempt fw).2.registers ∧ found.admin ≤ found.maximum ∧
      1522 ≤ found.maximum := by
  unfold attempt at read ⊢
  generalize h.write fw.writePort = port at read ⊢
  obtain ⟨_ | _, middle⟩ := port
  · cases read
  · dsimp only at read ⊢
    generalize middle.write fw.writeVport = vport at read ⊢
    obtain ⟨_ | _, last⟩ := vport
    · cases read
    · obtain ⟨_, same, spec⟩ :=
        last.queryMtu_spec fw.afterPort fw.afterVport
      dsimp only at read ⊢
      rw [same]
      exact spec found read

/-- Restoring ends with both settings read back as they were, or in
quarantine. -/
theorem restore_spec (fw : Firmware) (before : Registers) :
    (h.restore fw before).software = h.software ∧
      ((h.restore fw before).quarantined = true ∨
        (h.restore fw before).registers.admin = before.admin ∧
          (h.restore fw before).registers.vport = before.vport) := by
  unfold restore
  split
  · next set => exact ⟨rfl, Or.inl set⟩
  · have first := h.software_write fw.restorePort
    generalize h.write fw.restorePort = port at first ⊢
    obtain ⟨_ | _, middle⟩ := port
    · exact ⟨first, Or.inl rfl⟩
    · have second := middle.software_write fw.restoreVport
      dsimp only at first ⊢
      generalize middle.write fw.restoreVport = vport at second ⊢
      obtain ⟨_ | _, last⟩ := vport
      · exact ⟨second.trans first, Or.inl rfl⟩
      · obtain ⟨third, same, spec⟩ :=
          last.queryMtu_spec fw.restoredPort fw.restoredVport
        dsimp only at second ⊢
        generalize last.queryMtu fw.restoredPort fw.restoredVport = read
          at third same spec ⊢
        obtain ⟨_ | restored, final⟩ := read
        · exact ⟨(third.trans second).trans first, Or.inl rfl⟩
        · obtain ⟨rfl, _, _⟩ := spec restored rfl
          dsimp only at third same ⊢
          split
          · exact ⟨(third.trans second).trans first, Or.inl rfl⟩
          · next equal =>
              rw [not_or, not_not, not_not] at equal
              refine ⟨(third.trans second).trans first, Or.inr ?_⟩
              rw [same]
              exact equal

theorem frame_toNat {bytes : UInt16} (small : bytes.toNat ≤ 9000) :
    (bytes + 22).toNat = bytes.toNat + 22 := by
  rw [UInt16.toNat_add, show (22 : UInt16).toNat = 22 from rfl]
  exact Nat.mod_eq_of_lt (by omega)

/-- A change that fails leaves the driver's sizes, and the device's two
settings unless the transport is quarantined; one that succeeds leaves both
settings and all five sizes as requested. -/
theorem configureEthernetMtu_all_or_quarantine (fw : Firmware)
    (bytes : UInt16) :
    ((h.configureEthernetMtu fw bytes).1 = false →
      (h.configureEthernetMtu fw bytes).2.software = h.software ∧
      ((h.configureEthernetMtu fw bytes).2.quarantined = true ∨
        (h.configureEthernetMtu fw bytes).2.registers.admin =
            h.registers.admin ∧
          (h.configureEthernetMtu fw bytes).2.registers.vport =
            h.registers.vport)) ∧
    ((h.configureEthernetMtu fw bytes).1 = true →
      ∃ registers software,
        (h.configureEthernetMtu fw bytes).2.registers = registers ∧
        (h.configureEthernetMtu fw bytes).2.software = software ∧
        registers.admin.toNat = bytes.toNat + 22 ∧
        registers.vport.toNat = bytes.toNat + 22 ∧
        software.ethernetMtu = bytes ∧
        software.maxEthernetMtu.toNat + 22 = registers.maximum.toNat ∧
        bytes ≤ software.maxEthernetMtu ∧
        software.frameAdminMtu = registers.admin ∧
        software.frameOperMtu = registers.oper ∧
        bytes.toNat + 22 ≤ software.frameOperMtu.toNat ∧
        software.vportFrameMtu = registers.vport) := by
  unfold configureEthernetMtu
  split
  · exact ⟨fun _ => ⟨rfl, Or.inr ⟨rfl, rfl⟩⟩, fun ends => by cases ends⟩
  · next good =>
      obtain ⟨kept, same, spec⟩ := h.queryMtu_spec fw.port fw.vport
      generalize h.queryMtu fw.port fw.vport = query at kept same spec ⊢
      obtain ⟨_ | before, queried⟩ := query
      · dsimp only at kept same ⊢
        refine ⟨fun _ => ⟨kept, Or.inr ?_⟩, fun ends => by cases ends⟩
        rw [same]
        exact ⟨rfl, rfl⟩
      · obtain ⟨rfl, _, _⟩ := spec before rfl
        dsimp only at kept same ⊢
        split
        · refine ⟨fun _ => ⟨kept, Or.inr ?_⟩, fun ends => by cases ends⟩
          rw [same]
          exact ⟨rfl, rfl⟩
        · have wrote := queried.software_attempt fw
          have read : ∀ found, (queried.attempt fw).1 = some found → _ :=
            fun found is => queried.attempt_some fw is
          generalize queried.attempt fw = attempted at wrote read ⊢
          obtain ⟨_ | after, last⟩ := attempted
          · obtain ⟨software, ends⟩ := last.restore_spec fw h.registers
            exact ⟨fun _ => ⟨(software.trans wrote).trans kept, ends⟩,
              fun ends => by cases ends⟩
          · dsimp only at wrote read ⊢
            split
            · next agrees =>
                refine ⟨fun ends => (by cases ends), fun _ => ?_⟩
                obtain ⟨rfl, fits, _⟩ := read after rfl
                obtain ⟨admin, oper, vport⟩ := agrees
                have small : bytes.toNat ≤ 9000 := by
                  have most : ¬bytes > 9000 := fun large =>
                    good (Or.inr (Or.inr (Or.inr (Or.inr large))))
                  exact UInt16.le_iff_toNat_le.mp (UInt16.not_lt.mp most)
                have frame : (bytes + 22).toNat = bytes.toNat + 22 :=
                  frame_toNat small
                have operNat := UInt16.le_iff_toNat_le.mp oper
                have limit := UInt16.le_iff_toNat_le.mp fits
                rw [admin, frame] at limit
                have rest : (last.registers.maximum - 22).toNat =
                    last.registers.maximum.toNat - 22 :=
                  UInt16.toNat_sub_of_le _ _
                    (UInt16.le_iff_toNat_le.mpr (by
                      rw [show (22 : UInt16).toNat = 22 from rfl]
                      omega))
                refine ⟨last.registers, _, rfl, rfl, ?_, ?_, rfl, ?_, ?_, rfl,
                  rfl, ?_, rfl⟩
                · rw [admin, frame]
                · rw [vport, frame]
                · dsimp only
                  rw [rest]
                  omega
                · rw [UInt16.le_iff_toNat_le, rest]
                  omega
                · rwa [frame] at operNat
            · obtain ⟨software, ends⟩ := last.restore_spec fw h.registers
              exact ⟨fun _ => ⟨(software.trans wrote).trans kept, ends⟩,
                fun ends => by cases ends⟩

/-- A device at 1500 bytes that can do 9000. -/
def standard : State where
  registers := ⟨9022, 1522, 1522, 1522⟩
  software := ⟨1500, 9000, 1522, 1522, 1522⟩
  quarantined := false
  inactive := false
  initialized := true
  queuePairs := false

/-- Firmware that does the port's write and refuses the virtual port's, and
restores. -/
def halfway : Firmware where
  port := .done
  vport := .done
  writePort := ⟨.done, ⟨9022, 9022, 9022, 1522⟩⟩
  writeVport := ⟨.refused, ⟨9022, 9022, 9022, 1522⟩⟩
  afterPort := .done
  afterVport := .done
  restorePort := ⟨.done, ⟨9022, 1522, 1522, 1522⟩⟩
  restoreVport := ⟨.done, ⟨9022, 1522, 1522, 1522⟩⟩
  restoredPort := .done
  restoredVport := .done

/-- A change to 9000 bytes that is refused halfway is undone, and one that is
not succeeds. -/
theorem configureEthernetMtu_halfway :
    (standard.configureEthernetMtu halfway 9000).2.software =
        standard.software ∧
      (standard.configureEthernetMtu halfway 9000).2.registers.admin = 1522 ∧
      (standard.configureEthernetMtu
        { halfway with writeVport := ⟨.done, ⟨9022, 9022, 9022, 9022⟩⟩ }
        9000).2.software.ethernetMtu = 9000 := by
  obtain ⟨kept, ends⟩ := (standard.configureEthernetMtu_all_or_quarantine
    halfway 9000).1 (by decide)
  obtain ⟨_, software, _, is, _, _, size, _⟩ :=
    (standard.configureEthernetMtu_all_or_quarantine
      { halfway with writeVport := ⟨.done, ⟨9022, 9022, 9022, 9022⟩⟩ }
      9000).2 (by decide)
  refine ⟨kept, (ends.resolve_left (by decide)).1, ?_⟩
  rw [is, size]

end State

end Mtu
end Hca
end Mcdma
