import GridWorker.Host

/-! # Schedules

Invocations and termination signals that run at the same time, as a machine of atomic
steps on the counter and the sleeper they share. An invocation begins (and, for a
sleep, begins its suspension), ends its suspension, records its success, and reads the
counter for its last record; a signal reads the counter for its record and then
interrupts the sleeper. A schedule says whose turn it is, any number of times.
-/
namespace GridWorker

inductive Phase where
  | ready
  | sleeping (ms : UInt64) (x : Suspension)
  | succeeded (w : Workload) (check : String)
  | settled (w : Workload) (result : Status) (check : String)
  | ended (outcome : Outcome)
deriving DecidableEq

structure Progress where
  phase : Phase
  shared : Shared
  records : List LogRecord

def Request.advance (r : Request) (clock : Timeline) (s : Shared) : Phase → Progress
  | .ready =>
    if r.overflows then ⟨.ended .crashed, s, []⟩
    else match r.workload with
    | .error why => ⟨.ended (.refused why), s, [r.received]⟩
    | .ok (.sleep ms) =>
      ⟨.sleeping ms (s.sleeper.suspend (.ofMillis ms.toNat) r.budget), s, [r.received]⟩
    | .ok (.compute ram iterations) =>
      ⟨.succeeded (.compute ram iterations) (computationCheck ram iterations), s, [r.received]⟩
  | .sleeping ms x =>
    match x.outcome s.sleeper with
    | .ok () => ⟨.succeeded (.sleep ms) (sleepCheck ms), s, []⟩
    | .error i => ⟨.settled (.sleep ms) .failure (sleepCheck ms), s, [r.interrupted clock ms i]⟩
  | .succeeded w check => ⟨.settled w .success check, { s with counter := s.counter.next }, []⟩
  | .settled w result check =>
    let done := r.complete clock w result check s.counter.current
    ⟨.ended (.response done.1), s, [done.2]⟩
  | .ended o => ⟨.ended o, s, []⟩

structure Invocation where
  request : Request
  clock : Timeline
  phase : Phase

inductive Delivery where
  | pending
  | logged
  | done
deriving DecidableEq

structure World where
  shared : Shared
  invocations : List Invocation
  signals : List Delivery
  log : List LogRecord

inductive Turn where
  | invocation (i : Nat)
  | signal (i : Nat)
deriving DecidableEq

namespace World

/-- One turn. A turn of something that has ended, or does not exist, changes nothing. -/
def step (w : World) : Turn → World
  | .invocation i =>
    match w.invocations[i]? with
    | none => w
    | some x =>
      let p := x.request.advance x.clock w.shared x.phase
      { w with
        shared := p.shared
        invocations := w.invocations.set i { x with phase := p.phase }
        log := w.log ++ p.records }
  | .signal i =>
    match w.signals[i]? with
    | some .pending =>
      { w with
        signals := w.signals.set i .logged
        log := w.log ++ [Host.signalled w.shared.counter] }
    | some .logged =>
      { w with
        signals := w.signals.set i .done
        shared := { w.shared with sleeper := w.shared.sleeper.interrupt } }
    | _ => w

def run (w : World) (turns : List Turn) : World := turns.foldl step w

def start (shared : Shared) (requests : List (Request × Timeline)) (signals : Nat) : World where
  shared := shared
  invocations := requests.map fun r => ⟨r.1, r.2, .ready⟩
  signals := List.replicate signals .pending
  log := []

/-- One invocation that a signal meets in its suspension, run to its end. -/
def signalledOnce (shared : Shared) (r : Request) (clock : Timeline) : World :=
  (start shared [(r, clock)] 1).run
    [.invocation 0, .signal 0, .signal 0, .invocation 0, .invocation 0, .invocation 0]

end World
end GridWorker
