import Arbor.Event.Json
import Arbor.Generation.Run
import Arbor.Json.Printer

/-! # Reports as JSON -/

namespace Arbor

def Summary.toJson (s : Summary Float) : Json :=
  let bounds := match s.bounds with
    | some b => .list [Event.vectorToJson b.low, Event.vectorToJson b.high]
    | none => .null
  .object [("points", .int s.points), ("arrows", .int s.arrows), ("markers", .int s.markers),
    ("bounds", bounds)]

def Generation.Report.toJson (r : Generation.Report) : Json :=
  .object [("symbols", .int r.symbols), ("events", r.events.toJson),
    ("final_stack_len", .int r.stackSize)]

end Arbor
