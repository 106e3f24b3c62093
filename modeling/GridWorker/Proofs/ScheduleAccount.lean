import GridWorker.Proofs.OverlapWindows
import GridWorker.Proofs.ScheduleTally

/-! # The account of a schedule

Invocations that run at the same time on one counter and one sleeper, in any order of
their turns and of those of the signals. The counter is the number of recordings, each
invocation records at most once, and what an invocation ends with is what its request
comes to alone, but for the interrupts that meet its own suspension. The first
generation of the sleeper is arbitrary.
-/
namespace GridWorker

/-- What a suspension reports that `n` interrupts have met, fewer than `2 ^ 64`. -/
def answerAfter (n : Nat) : Answer := fun duration budget =>
  if n = 0 then (Sleeper.fresh.suspend duration budget).outcome .fresh else .error .signalled

namespace Request

def answered (r : Request) (clock : Timeline) (n : Nat) : Outcome :=
  (r.handle clock (answerAfter n) .zero).outcome

end Request

/-- Where an invocation is, in terms of what its request comes to alone: `n` interrupts
have met its suspension so far, and `g` is the sleeper now. -/
def Phase.Accounted (r : Request) (clock : Timeline) (g : Sleeper) (n : Nat) : Phase → Prop
  | .ready => n = 0
  | .sleeping ms x =>
    r.overflows = false ∧ r.workload = .ok (.sleep ms) ∧ ∃ s : Sleeper,
      x = s.suspend (.ofMillis ms.toNat) r.budget ∧
      g.generation = s.generation + UInt64.ofNat n
  | .succeeded _ check => r.answered clock n = .response (.of .success clock.total check)
  | .settled _ result check => r.answered clock n = .response (.of result clock.total check)
  | .ended o => r.answered clock n = o

/-- An interrupt is put down to the suspensions that it meets. -/
theorem Phase.Accounted.interrupt {r : Request} {clock : Timeline} {g : Sleeper} {n : Nat}
    {phase : Phase} (ha : phase.Accounted r clock g n) :
    phase.Accounted r clock g.interrupt (n + phase.sleeps.toNat) := by
  cases phase with
  | sleeping ms x =>
    obtain ⟨fits,plan,s,hx,hg⟩ := ha
    refine ⟨fits,plan,s,hx,?_⟩
    rw [Sleeper.interrupt,hg,UInt64.add_assoc]
    exact congrArg (s.generation + ·) (UInt64.ofNat_add n 1).symm
  | ready => exact ha
  | succeeded w check => exact ha
  | settled w result check => exact ha
  | ended o => exact ha

namespace World

section Started

def fresh (sleeper : Sleeper) (requests : List (Request × Timeline)) (signals : Nat) : World :=
  start ⟨.zero,sleeper⟩ requests signals

variable {sleeper : Sleeper} {requests : List (Request × Timeline)} {signals : Nat}

end Started

/-- A signal that meets a sleep makes it fail, records nothing, and wakes whoever sleeps. -/
theorem signalledOnce_sleep {r : Request} {ms : UInt64} (fits : r.overflows = false)
    (plan : r.workload = .ok (.sleep ms)) (shared : Shared) (clock : Timeline) :
    (signalledOnce shared r clock).invocations.map Invocation.phase =
        [.ended (.response (.of .failure clock.total ms.toNat.repr))] ∧
      (signalledOnce shared r clock).shared =
        { shared with sleeper := shared.sleeper.interrupt } := by
  have hchanged : shared.sleeper.interrupt.generation ≠ shared.sleeper.generation :=
    (generation_add_ne_iff shared.sleeper.generation 1).mpr (by decide)
  have houtcome : (shared.sleeper.suspend (.ofMillis ms.toNat) r.budget).outcome
      shared.sleeper.interrupt = .error .signalled := Sleeper.outcome_of_changed r.budget hchanged
  simp [signalledOnce,run,start,step,Request.advance,fits,plan,houtcome,Request.complete,
    Request.sleepCheck]

end World

open World

end GridWorker
