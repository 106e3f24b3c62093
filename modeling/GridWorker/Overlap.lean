import GridWorker.Sleeper

/-! # Overlapping suspensions

Any number of suspensions on one sleeper, with interrupts among them, as a machine of
atomic steps: time passes, a suspension begins, an interrupt arrives, a suspension
ends. A suspension begins once and ends once, and it ends only when it may: when the
generation is not the one at its beginning, or when its wait is over.
-/
namespace GridWorker

/-- How far a suspension has come: `since` is the time of its beginning. -/
inductive Stage where
  | waiting
  | begun (x : Suspension) (since : Nat)
  | ended (answer : Except Interruption Unit)

structure Rest where
  duration : Duration
  budget : Option Duration
  stage : Stage

/-- The sleeper, the time in nanoseconds and the suspensions. -/
structure Overlap where
  sleeper : Sleeper
  now : Nat
  rests : List Rest

inductive Move where
  | pass (d : Duration)
  | interrupt
  | begins (i : Nat)
  | ends (i : Nat)
deriving DecidableEq

namespace Overlap

def step (o : Overlap) : Move → Option Overlap
  | .pass d => some { o with now := o.now + d.nanos }
  | .interrupt => some { o with sleeper := o.sleeper.interrupt }
  | .begins i =>
    match o.rests[i]? with
    | some ⟨duration, budget, .waiting⟩ =>
      let x := o.sleeper.suspend duration budget
      some { o with rests := o.rests.set i ⟨duration, budget, .begun x o.now⟩ }
    | _ => none
  | .ends i =>
    match o.rests[i]? with
    | some ⟨duration, budget, .begun x since⟩ =>
      if x.mayEnd o.sleeper ⟨o.now - since⟩ then
        some { o with rests := o.rests.set i ⟨duration, budget, .ended (x.outcome o.sleeper)⟩ }
      else none
    | _ => none

def run (o : Overlap) (moves : List Move) : Option Overlap := moves.foldlM step o

def start (s : Sleeper) (now : Nat) (asks : List (Duration × Option Duration)) : Overlap where
  sleeper := s
  now := now
  rests := asks.map fun a => ⟨a.1, a.2, .waiting⟩

def stage? (o : Overlap) (i : Nat) : Option Stage := o.rests[i]?.map Rest.stage

end Overlap
end GridWorker
