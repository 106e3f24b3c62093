import GridWorker.Invocation

/-! # Sessions

A session is a sequence of requests handled one after the other on one counter and
one sleeper. Each call names the suspender that serves its sleep: an answer fixed
beforehand, or the sleeper itself with the time at which an interrupt arrives, if
one does. Interrupts may also arrive before a call.
-/
namespace GridWorker

structure Shared where
  counter : Counter
  sleeper : Sleeper
deriving DecidableEq

def Shared.fresh : Shared := ⟨.zero, .fresh⟩

inductive Suspender where
  | scripted (answer : Except Interruption Unit)
  | sleeper (interrupt : Option Duration)

structure Call where
  request : Request
  interruptsBefore : Nat
  suspender : Suspender
  clock : Timeline

namespace Suspender

def answer (p : Suspender) (s : Sleeper) (duration : Duration) (budget : Option Duration) :
    Except Interruption Unit :=
  match p with
  | .scripted a => a
  | .sleeper interrupt => (Nap.take s duration budget interrupt).outcome

/-- The sleeper after a call that asked for these suspensions. -/
def leave (p : Suspender) (s : Sleeper) : List (Duration × Option Duration) → Sleeper
  | [] => s
  | (duration, budget) :: _ =>
    match p with
    | .scripted _ => s
    | .sleeper interrupt => (Nap.take s duration budget interrupt).sleeper

/-- How long a request waits when nothing else takes time. -/
def idle (p : Suspender) (r : Request) : Duration :=
  match p, r.workload with
  | .sleeper interrupt, .ok (.sleep ms) =>
    (Nap.take .fresh (.ofMillis ms.toNat) r.budget interrupt).elapsed
  | _, _ => .zero

end Suspender

def Call.ideal (r : Request) (interruptsBefore : Nat) (p : Suspender) : Call :=
  ⟨r, interruptsBefore, p, .ofElapsed (p.idle r)⟩

namespace Shared

def call (s : Shared) (c : Call) : Handled × Shared :=
  let sleeper := Nat.repeat Sleeper.interrupt c.interruptsBefore s.sleeper
  let h := c.request.handle c.clock (c.suspender.answer sleeper) s.counter
  (h, ⟨h.counter, c.suspender.leave sleeper h.asked⟩)

def session (s : Shared) : List Call → List Handled × Shared
  | [] => ([], s)
  | c :: rest =>
    let (h, s) := s.call c
    let (hs, s) := s.session rest
    (h :: hs, s)

end Shared
end GridWorker
