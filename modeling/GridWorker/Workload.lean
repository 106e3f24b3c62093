import GridWorker.Duration
import GridWorker.Event

/-! # Workloads

The arguments of an event are `delay [ram_limit_gb] [iter_limit_millions]`. A
delay of zero or more plans a sleep of that many milliseconds, whatever follows
it; a negative delay plans a computation within the two limits. Planning reports
the first fault, an argument being checked completely before the next is read.
-/
namespace GridWorker

inductive Workload where
  | sleep (durationMs : UInt64)
  | compute (ramLimitGb iterLimitMillions : UInt64)
deriving DecidableEq

inductive Limit where
  | ram
  | iterations
deriving DecidableEq

namespace Limit

def name : Limit → String
  | .ram => "ram_limit_gb"
  | .iterations => "iter_limit_millions"

def index : Limit → Nat
  | .ram => 1
  | .iterations => 2

def most : Limit → Nat
  | .ram => 8
  | .iterations => 1000

def least : Limit → Nat
  | .ram => 1
  | .iterations => 0

def label (l : Limit) : String := "Argument " ++ l.index.repr ++ " (" ++ l.name ++ ")"

end Limit

inductive PlanFault where
  | noDelay
  | badDelay (raw : String)
  | missing (l : Limit)
  | malformed (l : Limit) (raw : String)
  | tooSmall (l : Limit)
  | tooLarge (l : Limit)
deriving DecidableEq

def PlanFault.message : PlanFault → String
  | .noDelay => "Forced delay argument is required"
  | .badDelay raw => "Forced delay '" ++ raw ++ "' must be an integer number of milliseconds"
  | .missing l => l.label ++ " is required when the forced delay is negative"
  | .malformed l raw => l.label ++ " must be a non-negative integer, got '" ++ raw ++ "'"
  | .tooSmall l => l.name ++ " must be a positive integer"
  | .tooLarge l => l.name ++ " must be at most " ++ l.most.repr

namespace Workload

def limit (arguments : List Argument) (l : Limit) : Except PlanFault UInt64 :=
  match arguments[l.index]? with
  | none => .error (.missing l)
  | some a =>
    match Numeral.uint64? a.asText with
    | none => .error (.malformed l a.asText)
    | some n =>
      if n.toNat < l.least then .error (.tooSmall l)
      else if l.most < n.toNat then .error (.tooLarge l)
      else .ok n

def plan (arguments : List Argument) : Except PlanFault Workload :=
  match arguments[0]? with
  | none => .error .noDelay
  | some a =>
    match Numeral.int64? a.asText with
    | none => .error (.badDelay a.asText)
    | some delay =>
      if 0 ≤ delay.toInt then .ok (.sleep (UInt64.ofNat delay.toInt.toNat))
      else do
        let ram ← limit arguments .ram
        let iterations ← limit arguments .iterations
        return .compute ram iterations

def sleepDuration? : Workload → Option Duration
  | .sleep ms => some (.ofMillis ms.toNat)
  | .compute _ _ => none

def members : Workload → Members
  | .sleep ms => [("mode", .string "sleep"), ("duration_ms", .ofUInt64 ms)]
  | .compute ram iterations =>
    [("mode", .string "compute"), (Limit.ram.name, .ofUInt64 ram),
      (Limit.iterations.name, .ofUInt64 iterations)]

def written (w : Workload) : Json := .object w.members

def toJson (w : Workload) : Json := .record w.members

/-- A field of a workload: a whole number from 0 to `2 ^ 64 - 1`. -/
def field? : Option Json → Option UInt64
  | some (.number (.whole n)) => n.toUInt64?
  | _ => none

/-- Decodes an object tagged by its mode, other members being ignored, or the list
of exactly the mode and the fields. -/
def ofJson? : Json → Option Workload
  | .object ms =>
    match ms.lookup "mode" with
    | some (.string "sleep") => (field? (ms.lookup "duration_ms")).map .sleep
    | some (.string "compute") => do
      let ram ← field? (ms.lookup Limit.ram.name)
      let iterations ← field? (ms.lookup Limit.iterations.name)
      return .compute ram iterations
    | _ => none
  | .array [.string "sleep", ms] => (field? (some ms)).map .sleep
  | .array [.string "compute", ram, iterations] => do
    let ram ← field? (some ram)
    let iterations ← field? (some iterations)
    return .compute ram iterations
  | _ => none

end Workload

def Event.plan (e : Event) : Except PlanFault Workload := Workload.plan e.arguments

end GridWorker
