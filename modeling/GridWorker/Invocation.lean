import GridWorker.Counter
import GridWorker.Log
import GridWorker.Response
import GridWorker.Ring
import GridWorker.Sleeper

/-! # Invocations

A request is answered in five stages: it is logged, its event is accepted, its
workload is planned and carried out, a success is counted, and the response is
logged. A sleep is left to a suspender, which is asked once; an interrupted sleep
is a failure, not an error, and is not counted. A request whose budget has more
milliseconds than 64 bits hold cannot be logged: it crashes before anything else
happens.
-/
namespace GridWorker

structure Request where
  event : Json
  requestId : String
  budget : Option Duration
  logEvent : Bool

/-- The readings of a steady clock, in nanoseconds, during one invocation: at its
start, at the beginning and the end of its suspension, when an interruption is
logged, and when the response is made. It lasts less than `2 ^ 64` milliseconds. -/
structure Timeline where
  started : Nat
  suspended : Nat
  woken : Nat
  reported : Nat
  finished : Nat
  ordered : started ≤ suspended ∧ suspended ≤ woken ∧ woken ≤ reported ∧ reported ≤ finished
  fits : finished - started < UInt64.size * 1000000

namespace Timeline

def untilReport (t : Timeline) : Duration := ⟨t.reported - t.started⟩

def total (t : Timeline) : Duration := ⟨t.finished - t.started⟩

/-- An invocation in which nothing but its suspension takes time. -/
def ofElapsed (d : Duration) : Timeline :=
  let e := min d.nanos (UInt64.size * 1000000 - 1)
  ⟨0, 0, e, e, e, by omega, Nat.lt_of_le_of_lt (Nat.min_le_right d.nanos _) (by decide)⟩

end Timeline

inductive Refusal where
  | event (f : EventFault)
  | arguments (f : PlanFault)
deriving DecidableEq

def Refusal.message : Refusal → String
  | .event f => "invalid worker event: " ++ f.message
  | .arguments f => "invalid worker arguments: " ++ f.message

inductive Outcome where
  | response (r : Response)
  | refused (why : Refusal)
  | crashed
deriving DecidableEq

namespace Request

/-- Whether the budget has more milliseconds than 64 bits hold. -/
def overflows (r : Request) : Bool :=
  match r.budget with
  | none => false
  | some b => UInt64.size ≤ b.millis

def workload (r : Request) : Except Refusal Workload :=
  match Event.accept r.event with
  | .error f => .error (.event f)
  | .ok e =>
    match e.plan with
    | .error f => .error (.arguments f)
    | .ok w => .ok w

def component : String := "worker_handler"

def millisJson (d : Duration) : Json := .ofUInt64 (UInt64.ofNat d.millis)

def received (r : Request) : LogRecord where
  component := component
  event := "invocation_received"
  level := .info
  details := .record [("request_id", .string r.requestId),
    ("budget_ms", .ofOption millisJson r.budget),
    ("event", if r.logEvent then r.event else .null)]

def interrupted (r : Request) (clock : Timeline) (ms : UInt64) (i : Interruption) : LogRecord where
  component := component
  event := "invocation_interrupted"
  level := .error
  details := .record [("request_id", .string r.requestId), ("requested_ms", .ofUInt64 ms),
    ("elapsed_ms", millisJson clock.untilReport), ("reason", .string i.message)]

def completed (r : Request) (w : Workload) (response : Response) (count : UInt64) : LogRecord where
  component := component
  event := "invocation_completed"
  level := .info
  details := .record [("request_id", .string r.requestId),
    ("result", response.result.toJson), ("workload", w.toJson),
    ("compute_time_ms", .string response.computeTimeMs), ("invocation_count", .ofUInt64 count)]

def sleepCheck (ms : UInt64) : String := ms.toNat.repr

def computationCheck (ram iterations : UInt64) : String := (computationValue ram iterations).repr

end Request

/-- What a request leaves behind: how it ended, the counter, its log records in order,
and what the suspender was asked for. -/
structure Handled where
  outcome : Outcome
  counter : Counter
  records : List LogRecord
  asked : List (Duration × Option Duration)

namespace Request

def complete (r : Request) (clock : Timeline) (w : Workload) (result : Status) (check : String)
    (count : UInt64) : Response × LogRecord :=
  let response := Response.of result clock.total check
  (response, r.completed w response count)

def handle (r : Request) (clock : Timeline)
    (suspend : Duration → Option Duration → Except Interruption Unit) (c : Counter) : Handled :=
  if r.overflows then ⟨.crashed, c, [], []⟩
  else match r.workload with
  | .error why => ⟨.refused why, c, [r.received], []⟩
  | .ok (.sleep ms) =>
    let duration := Duration.ofMillis ms.toNat
    match suspend duration r.budget with
    | .ok () =>
      let done := r.complete clock (.sleep ms) .success (sleepCheck ms) c.next.current
      ⟨.response done.1, c.next, [r.received, done.2], [(duration, r.budget)]⟩
    | .error i =>
      let done := r.complete clock (.sleep ms) .failure (sleepCheck ms) c.current
      ⟨.response done.1, c, [r.received, r.interrupted clock ms i, done.2],
        [(duration, r.budget)]⟩
  | .ok (.compute ram iterations) =>
    let done := r.complete clock (.compute ram iterations) .success
      (computationCheck ram iterations) c.next.current
    ⟨.response done.1, c.next, [r.received, done.2], []⟩

end Request
end GridWorker
