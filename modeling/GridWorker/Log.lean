import GridWorker.Json.Text

/-! # Log records

A record is one JSON object on one line, its keys in order. An error record has a
member `level`; an ordinary one has none. The text of the timestamp is supplied by
the clock of the host.
-/
namespace GridWorker

inductive Level where
  | info
  | error
deriving DecidableEq

structure LogRecord where
  component : String
  event : String
  level : Level
  details : Json

namespace LogRecord

def toJson (r : LogRecord) (timestamp : String) : Json :=
  .record ([("component", .string r.component), ("event", .string r.event),
    ("timestamp", .string timestamp), ("details", r.details)] ++
    match r.level with
    | .info => []
    | .error => [("level", .string "error")])

/-- The line of the record, its final newline included. -/
def line (r : LogRecord) (timestamp : String) : String := (r.toJson timestamp).text ++ "\n"

end LogRecord
end GridWorker
