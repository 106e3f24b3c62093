import GridWorker.Session
import GridWorker.Settings

/-! # The host

A host loads its settings once, logs that it has started, and then answers requests
on one counter and one sleeper. The budget of a request is the time left before its
deadline. A termination signal is logged with the count of that moment and wakes the
suspensions in flight; requests that come later run normally.
-/
namespace GridWorker

structure Host where
  settings : Settings
  shared : Shared

/-- A request as it reaches the host: the deadline in milliseconds since the epoch,
the reading of the wall clock, and the time at which an interrupt arrives. -/
structure Arrival where
  event : Json
  requestId : String
  deadline : UInt64
  now : Int64
  interrupt : Option Duration

namespace Host

def component : String := "worker_runtime"

def started (s : Settings) : LogRecord where
  component := component
  event := "runtime_started"
  level := .info
  details := .record
    [("enforce_deadline", .bool s.enforceDeadline), ("log_event", .bool s.logEvent)]

def signalled (c : Counter) : LogRecord where
  component := component
  event := "shutdown_signal_received"
  level := .info
  details := .record [("invocation_count", .ofUInt64 c.current)]

/-- Starts a host: the settings are refused before anything is logged, or the host is
fresh and one record is written. -/
def start (environment : String → Option ByteArray) : Except SettingFault (Host × LogRecord) :=
  match Settings.ofEnvironment environment with
  | .error f => .error f
  | .ok s => .ok (⟨s, .fresh⟩, started s)

def request (settings : Settings) (a : Arrival) : Request where
  event := a.event
  requestId := a.requestId
  budget := settings.budget? a.deadline a.now
  logEvent := settings.logEvent

def callOf (settings : Settings) (a : Arrival) : Call :=
  .ideal (request settings a) 0 (.sleeper a.interrupt)

def serve (h : Host) (a : Arrival) : Handled × Host :=
  let (done, shared) := h.shared.call (callOf h.settings a)
  (done, { h with shared })

/-- What the host answers for an outcome. The text of a crash comes from the task that ran the
request. -/
def reply (crash : String) : Outcome → Except String Response
  | .response r => .ok r
  | .refused why => .error why.message
  | .crashed => .error ("worker handler task failed: " ++ crash)

def serveAll (h : Host) (arrivals : List Arrival) : List Handled × Host :=
  let (done, shared) := h.shared.session (arrivals.map (callOf h.settings))
  (done, { h with shared })

end Host
end GridWorker
