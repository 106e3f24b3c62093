import GridWorker.Schedule
import GridWorker.Proofs.HandledCourses
import GridWorker.Proofs.SuccessCount

/-! # Tallies of a schedule

Turns of a schedule are counted by what they do in the world that they meet: a turn may
record a success, or interrupt the sleeper. A tally is a sum over the turns and splits
where the schedule splits. Each kind of turn is reflected in the phases of the
invocations or of the signals, so that what a world shows bounds what has happened.
-/
namespace GridWorker

def Phase.records : Phase → Bool
  | .succeeded _ _ => true
  | _ => false

def Phase.sleeps : Phase → Bool
  | .sleeping _ _ => true
  | _ => false

def Phase.counted : Phase → Bool
  | .settled _ result _ => result = .success
  | .ended o => o.succeeded
  | _ => false

namespace Request

/-- All that one step of an invocation can do. -/
inductive Advance (r : Request) (clock : Timeline) (s : Shared) : Phase → Progress → Prop
  | crash (full : r.overflows = true) : Advance r clock s .ready ⟨.ended .crashed,s,[]⟩
  | refuse (why : Refusal) (fits : r.overflows = false) (plan : r.workload = .error why) :
      Advance r clock s .ready ⟨.ended (.refused why),s,[r.received]⟩
  | sleep (ms : UInt64) (fits : r.overflows = false) (plan : r.workload = .ok (.sleep ms)) :
      Advance r clock s .ready
        ⟨.sleeping ms (s.sleeper.suspend (.ofMillis ms.toNat) r.budget),s,[r.received]⟩
  | compute (ram iterations : UInt64) (fits : r.overflows = false)
      (plan : r.workload = .ok (.compute ram iterations)) :
      Advance r clock s .ready
        ⟨.succeeded (.compute ram iterations) (computationCheck ram iterations),s,[r.received]⟩
  | wake (ms : UInt64) (x : Suspension) (answer : x.outcome s.sleeper = .ok ()) :
      Advance r clock s (.sleeping ms x) ⟨.succeeded (.sleep ms) (sleepCheck ms),s,[]⟩
  | interrupt (ms : UInt64) (x : Suspension) (i : Interruption)
      (answer : x.outcome s.sleeper = .error i) :
      Advance r clock s (.sleeping ms x)
        ⟨.settled (.sleep ms) .failure (sleepCheck ms),s,[r.interrupted clock ms i]⟩
  | record (w : Workload) (check : String) :
      Advance r clock s (.succeeded w check)
        ⟨.settled w .success check,{ s with counter := s.counter.next },[]⟩
  | complete (w : Workload) (result : Status) (check : String) :
      Advance r clock s (.settled w result check)
        ⟨.ended (.response (.of result clock.total check)),s,
          [r.completed w (.of result clock.total check) s.counter.current]⟩
  | rest (o : Outcome) : Advance r clock s (.ended o) ⟨.ended o,s,[]⟩

variable {r : Request} {clock : Timeline} {s : Shared} {phase : Phase} {p : Progress}

theorem Advance.counter_eq (h : r.Advance clock s phase p) :
    p.shared.counter = if phase.records then s.counter.next else s.counter := by
  cases h <;> rfl

end Request

namespace World

def phase? (w : World) (i : Nat) : Option Phase := w.invocations[i]?.map Invocation.phase

def records (w : World) : Turn → Bool
  | .invocation i => (w.phase? i).any Phase.records
  | .signal _ => false

theorem run_append (w : World) (xs ys : List Turn) : w.run (xs ++ ys) = (w.run xs).run ys :=
  List.foldl_append

theorem run_cons (w : World) (t : Turn) (rest : List Turn) :
    w.run (t :: rest) = (w.step t).run rest := rfl

end World
end GridWorker
