import GridWorker.Proofs.DeadlineLaw
import GridWorker.Proofs.LoggedCalls
import GridWorker.Proofs.ScheduleAccount
import GridWorker.Proofs.Utf8Text

/-! # Hosts and their settings

A host reads its settings from the bytes of its environment, as far as they are well-formed
UTF-8. It fails on them before it has written anything, or it writes one record with the two
flags. From then on these flags decide, for every request and in every order of turns, what its
suspension waits for and whether its event is logged.
-/
namespace GridWorker

/-! ## What a request leaves in a schedule -/

/-- What an invocation has done on its way to a phase: beyond its first turn it has logged its
arrival, and a suspension waits within the budget of its request. -/
def Request.Underway (r : Request) (log : List LogRecord) : Phase → Prop
  | .ready => True
  | .sleeping ms x =>
    r.received ∈ log ∧ ∃ s : Sleeper, x = s.suspend (.ofMillis ms.toNat) r.budget
  | .succeeded _ _ | .settled _ _ _ | .ended _ => r.received ∈ log

namespace Request
variable {r : Request} {clock : Timeline} {s : Shared} {phase : Phase} {p : Progress}
variable {log : List LogRecord}

theorem Underway.append (h : r.Underway log phase) (lines : List LogRecord) :
    r.Underway (log ++ lines) phase := by
  cases phase with
  | ready => exact trivial
  | sleeping ms x => exact ⟨List.mem_append_left _ h.1,h.2⟩
  | succeeded w check => exact List.mem_append_left _ h
  | settled w result check => exact List.mem_append_left _ h
  | ended o => exact List.mem_append_left _ h

end Request

namespace World

def requests (w : World) : List (Request × Timeline) :=
  w.invocations.map fun x => (x.request,x.clock)

end World

/-! ## The start -/

abbrev Hosting := ExceptT String (StateM (List LogRecord))

namespace Host
open World

def write (records : List LogRecord) : Hosting Unit := modify (· ++ records)

section Started
variable {environment : String → Option ByteArray} {arrivals : List (Arrival × Timeline)}
variable {signals : Nat} {turns : List Turn} {s : Settings} {f : SettingFault}

end Started

section World
variable {s : Settings} {arrivals : List (Arrival × Timeline)} {signals : Nat} {turns : List Turn}

end World
end Host

open Host

end GridWorker
