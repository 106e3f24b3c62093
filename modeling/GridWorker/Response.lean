import GridWorker.Duration
import GridWorker.Json.Text

/-! # Responses

The answer to an invocation: whether the work succeeded, how many milliseconds it
took and a value to check it by. All three are strings where they are written.
-/
namespace GridWorker

inductive Status where
  | success
  | failure
deriving DecidableEq

namespace Status

def name : Status → String
  | .success => "Success"
  | .failure => "Failure"

def ofName? : String → Option Status
  | "Success" => some .success
  | "Failure" => some .failure
  | _ => none

def toJson (s : Status) : Json := .string s.name

/-- Decodes a name, or an object whose one member maps a name to `null`. -/
def ofJson? : Json → Option Status
  | .string s => ofName? s
  | .object [(key, .null)] => ofName? key
  | _ => none

end Status

structure Response where
  result : Status
  computeTimeMs : String
  check : String
deriving DecidableEq

namespace Response

def of (result : Status) (time : Duration) (check : String) : Response :=
  ⟨result, time.millis.repr, check⟩

/-- Whether the time is a plain decimal and no less than the whole milliseconds of `d`. -/
def tookAtLeast (r : Response) (d : Duration) : Bool :=
  match Numeral.digits? r.computeTimeMs.toList with
  | none => false
  | some ms => d.millis ≤ ms

def members (r : Response) : Members :=
  [("result", r.result.toJson), ("compute_time_ms", .string r.computeTimeMs),
    ("check", .string r.check)]

def written (r : Response) : Json := .object r.members

def toJson (r : Response) : Json := .record r.members

def field? : Option Json → Option String
  | some (.string s) => some s
  | _ => none

/-- Decodes an object, other members being ignored, or the list of exactly the three
fields in order. -/
def ofJson? : Json → Option Response
  | .object ms => do
    let result ← (ms.lookup "result").bind Status.ofJson?
    let time ← field? (ms.lookup "compute_time_ms")
    let check ← field? (ms.lookup "check")
    return ⟨result, time, check⟩
  | .array [result, time, check] => do
    let result ← Status.ofJson? result
    let time ← field? (some time)
    let check ← field? (some check)
    return ⟨result, time, check⟩
  | _ => none

end Response
end GridWorker
