import Mathlib.Data.Finset.Insert
import Mcdma.Lib.Dict
import Mcdma.Lib.Machine

/-!
# The exports held for a decoder

The engine thread adds an export under the handoff the client named and takes
the requests whose blocks may be freed.  The responder thread releases a
handoff when the decoder closes it, or when it has been held too long.  Each
section under the table's lock is one step.
-/

namespace Mcdma
namespace Kv

/-- The exports by handoff, who owns each and since when, and the requests to
report. -/
structure ExportTable (Handoff Request Export Time : Type) where
  exports : Dict Handoff (Export ⊕ String)
  owners : Dict Handoff (Request × Time)
  finished : Finset Request

namespace ExportTable

variable {Handoff Request Export Time : Type}
variable [DecidableEq Handoff] [DecidableEq Request]

/-- A new table. -/
def init : ExportTable Handoff Request Export Time where
  exports := Dict.empty
  owners := Dict.empty
  finished := ∅

variable (t : ExportTable Handoff Request Export Time)

/-- Hold an export, or the reason one could not be made, until it is closed or
expires. -/
def add (handoff : Handoff) (request : Request) (export_ : Export ⊕ String)
    (now : Time) : ExportTable Handoff Request Export Time where
  exports := t.exports.put handoff export_
  owners := t.owners.put handoff (request, now)
  finished := t.finished

/-- What the responder serves a handoff from. -/
def get (handoff : Handoff) : Option (Export ⊕ String) :=
  t.exports.get handoff

/-- The requests to report once a handoff is released. -/
def reported (handoff : Handoff) : Finset Request :=
  match t.owners.get handoff with
  | none => t.finished
  | some owner => insert owner.1 t.finished

/-- Release a handoff; its request's blocks are reported free at the next
step. -/
def finish (handoff : Handoff) : ExportTable Handoff Request Export Time where
  exports := t.exports.pop handoff
  owners := t.owners.pop handoff
  finished := t.reported handoff

/-- The handoffs held for longer than their time to live. -/
def stale [Sub Time] [LT Time] [DecidableLT Time] (ttl now : Time) :
    List Handoff :=
  (t.owners.entries.filter fun entry => ttl < now - entry.2.2).map Prod.fst

/-- The table once its finished requests are taken. -/
def takeFinished : ExportTable Handoff Request Export Time where
  exports := t.exports
  owners := t.owners
  finished := ∅

end ExportTable

/-- Where the responder thread is: between calls, in `expire` with the time it
read, or in `expire` with the handoffs left to release. -/
inductive Responder (Handoff Time : Type) where
  | idle
  | timed (now : Time)
  | releasing (stale : List Handoff)
  deriving DecidableEq

/-- One call of `add`, and whether its handoff was closed or expired since. -/
structure Added (Handoff Request Time : Type) where
  handoff : Handoff
  request : Request
  stamp : Time
  ended : Bool

namespace Added

variable {Handoff Request Time : Type}

/-- The call, its handoff ended where a condition holds. -/
def endWhere (condition : Added Handoff Request Time → Bool)
    (a : Added Handoff Request Time) : Added Handoff Request Time where
  handoff := a.handoff
  request := a.request
  stamp := a.stamp
  ended := a.ended || condition a

end Added

/-- The table, the responder thread, and the calls and reports so far. -/
structure Serving (Handoff Request Export Time : Type) where
  table : ExportTable Handoff Request Export Time
  responder : Responder Handoff Time
  adds : List (Added Handoff Request Time)
  reports : List (Finset Request)

/-- One locked section of either thread. -/
inductive Section (Handoff Request Export Time : Type) where
  /-- The engine holds an export. -/
  | add (handoff : Handoff) (request : Request) (export_ : Export ⊕ String)
      (now : Time)
  /-- The engine takes the finished requests. -/
  | takeFinished
  /-- The responder closes a handoff. -/
  | finish (handoff : Handoff)
  /-- The responder reads the clock at the head of `expire`. -/
  | clock (now : Time)
  /-- The responder collects the stale handoffs. -/
  | collect
  /-- The responder finishes the next of them. -/
  | expireNext

namespace Serving

variable {Handoff Request Export Time : Type}
variable [DecidableEq Handoff] [DecidableEq Request]
variable [Sub Time] [LT Time] [DecidableLT Time]

/-- The table is new and nothing was added. -/
def init : Serving Handoff Request Export Time where
  table := ExportTable.init
  responder := .idle
  adds := []
  reports := []

variable (s : Serving Handoff Request Export Time)

/-- The engine's `add`. -/
def add (handoff : Handoff) (request : Request) (export_ : Export ⊕ String)
    (now : Time) : Serving Handoff Request Export Time where
  table := s.table.add handoff request export_ now
  responder := s.responder
  adds := s.adds ++ [⟨handoff, request, now, false⟩]
  reports := s.reports

/-- The engine's `take_finished`. -/
def takeFinished : Serving Handoff Request Export Time where
  table := s.table.takeFinished
  responder := s.responder
  adds := s.adds
  reports := s.reports ++ [s.table.finished]

/-- The decoder closes a handoff: every call under it has ended. -/
def close (handoff : Handoff) : Serving Handoff Request Export Time where
  table := s.table.finish handoff
  responder := s.responder
  adds := s.adds.map (Added.endWhere fun a => a.handoff = handoff)
  reports := s.reports

/-- The stale handoffs are collected: the calls past their time have ended. -/
def collect (ttl now : Time) : Serving Handoff Request Export Time where
  table := s.table
  responder := .releasing (s.table.stale ttl now)
  adds := s.adds.map (Added.endWhere fun a => ttl < now - a.stamp)
  reports := s.reports

/-- One collected handoff is released. -/
def expire (handoff : Handoff) (rest : List Handoff) :
    Serving Handoff Request Export Time where
  table := s.table.finish handoff
  responder := .releasing rest
  adds := s.adds
  reports := s.reports

/-- The responder thread elsewhere. -/
def goto (responder : Responder Handoff Time) :
    Serving Handoff Request Export Time where
  table := s.table
  responder := responder
  adds := s.adds
  reports := s.reports

/-- What a section does where its thread can run it. -/
def step (ttl : Time) :
    Section Handoff Request Export Time →
      Option (Serving Handoff Request Export Time)
  | .add handoff request export_ now =>
      some (s.add handoff request export_ now)
  | .takeFinished => some s.takeFinished
  | .finish handoff =>
      match s.responder with
      | .idle => some (s.close handoff)
      | _ => none
  | .clock now =>
      match s.responder with
      | .idle => some (s.goto (.timed now))
      | _ => none
  | .collect =>
      match s.responder with
      | .timed now => some (s.collect ttl now)
      | _ => none
  | .expireNext =>
      match s.responder with
      | .releasing [] => some (s.goto .idle)
      | .releasing (handoff :: rest) => some (s.expire handoff rest)
      | _ => none

/-- The table served with a time to live. -/
def machine (ttl : Time) :
    Machine (Serving Handoff Request Export Time)
      (Section Handoff Request Export Time) where
  start := init
  step := fun s stretch => s.step ttl stretch

end Serving

end Kv
end Mcdma
