import GridWorker.Duration

/-! # The interruptible sleeper

A sleeper is a generation of 64 bits that every interrupt moves on by one. A
suspension remembers the generation at its beginning and the time that it may wait:
its duration, or its budget where that is shorter. It may end once the generation
has changed or the wait is over, and what it then reports depends on the generation
first and on the budget second. Interrupts before its beginning leave no trace.
-/
namespace GridWorker

inductive Interruption where
  | signalled
  | budgetExhausted (budget : Duration)
deriving DecidableEq

def Interruption.message : Interruption → String
  | .signalled => "suspension interrupted by shutdown signal"
  | .budgetExhausted budget =>
    "invocation budget of " ++ budget.millis.repr ++ "ms exhausted before the requested duration"

theorem Interruption.message_budgetExhausted (budget : Duration) :
    (budgetExhausted budget).message = "invocation budget of " ++ budget.millis.repr ++
      "ms exhausted before the requested duration" := rfl

structure Suspension where
  started : UInt64
  duration : Duration
  wait : Duration
deriving DecidableEq

structure Sleeper where
  generation : UInt64
deriving DecidableEq

namespace Sleeper

def fresh : Sleeper := ⟨0⟩

def interrupt (s : Sleeper) : Sleeper := ⟨s.generation + 1⟩

def waitFor (duration : Duration) : Option Duration → Duration
  | none => duration
  | some budget => min budget duration

def suspend (s : Sleeper) (duration : Duration) (budget : Option Duration) : Suspension :=
  ⟨s.generation, duration, waitFor duration budget⟩

end Sleeper

namespace Suspension

def mayEnd (x : Suspension) (s : Sleeper) (elapsed : Duration) : Bool :=
  s.generation ≠ x.started ∨ x.wait ≤ elapsed

def outcome (x : Suspension) (s : Sleeper) : Except Interruption Unit :=
  if s.generation ≠ x.started then .error .signalled
  else if x.wait < x.duration then .error (.budgetExhausted x.wait)
  else .ok ()

end Suspension

/-- A suspension from its beginning to its end, with nothing else to wait for. -/
structure Nap where
  suspension : Suspension
  outcome : Except Interruption Unit
  elapsed : Duration
  sleeper : Sleeper

namespace Nap

/-- Suspends the caller. An interrupt that arrives before the wait is over ends the
suspension at once; otherwise it lasts exactly as long as it may. -/
def take (s : Sleeper) (duration : Duration) (budget interrupt : Option Duration) : Nap :=
  let x := s.suspend duration budget
  match interrupt with
  | some t =>
    if t < x.wait then ⟨x, x.outcome s.interrupt, t, s.interrupt⟩
    else ⟨x, x.outcome s, x.wait, s.interrupt⟩
  | none => ⟨x, x.outcome s, x.wait, s⟩

/-- Whether the suspension took the time that its outcome promises: the whole wait,
or, when it was signalled, less than its duration. -/
def waited (n : Nap) : Bool :=
  match n.outcome with
  | .error .signalled => n.elapsed < n.suspension.duration
  | _ => n.suspension.wait ≤ n.elapsed

end Nap
end GridWorker
