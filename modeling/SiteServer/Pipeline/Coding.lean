import SiteServer.Json.Record
import SiteServer.Pipeline.Stage
import SiteServer.Text.Uuid

/-! # Outcomes of stages and events as data: a member that is missing is left out. -/

namespace SiteServer.Pipeline

open RawJson

/-! ## Outcomes -/

namespace StageOutput

def keys : List String := ["status", "skip_reason"]

def toJson (output : StageOutput) : Json :=
  .object (("status", .string output.status.name) ::
    output.skipReason.toList.map fun reason => ("skip_reason", .string reason))

def ofRaw? (value : RawJson) : Option StageOutput := do
  let found ← members? true keys value
  return {
    status := ← memberOf (choice? StageStatus.ofName?) (found "status")
    skipReason := ← memberOr none (nullable? text?) (found "skip_reason") }

end StageOutput

/-! ## Events -/

namespace Event

def keys : List String := ["kind", "request_id", "stage", "duration_ms", "detail"]

def toJson (event : Event) : Json :=
  .object ([("kind", .string event.kind.name), ("request_id", .string event.requestId)] ++
    (event.stage.toList.map fun stage => ("stage", .string stage)) ++
    (event.duration.toList.map fun duration => ("duration_ms", .number (.double duration))) ++
    event.detail.toList.map fun detail => ("detail", .string detail))

/-- A duration; a whole number is the double nearest to it. -/
def durationOfRaw? : RawJson → Option Binary64
  | .number (some (.whole n)) => some (.ofFloat (Float.ofInt n))
  | .number (some (.double x)) => some x
  | _ => none

def ofRaw? (value : RawJson) : Option Event := do
  let found ← members? true keys value
  return {
    kind := ← memberOf (choice? EventKind.ofName?) (found "kind")
    requestId := ← memberOf (fun id => id.text?.bind Text.Uuid.normal?) (found "request_id")
    stage := ← memberOr none (nullable? text?) (found "stage")
    duration := ← memberOr none (nullable? durationOfRaw?) (found "duration_ms")
    detail := ← memberOr none (nullable? text?) (found "detail") }

end Event

end SiteServer.Pipeline
