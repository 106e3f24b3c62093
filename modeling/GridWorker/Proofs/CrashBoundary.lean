import GridWorker.Proofs.DeadlineLaw
import GridWorker.Proofs.LoggedCalls
import GridWorker.Proofs.RingWindow

/-! # Where a request can crash

The stages of a request are carried out one by one, each with everything that could make it
crash: a whole number that is to be logged must fit 64 bits, and the computation must stay
within its ring and its words. What was done before a crash stays done. Of all these places
only the first can fail, on the budget of the request, and no deadline leads to a budget that
is long enough.
-/
namespace GridWorker

structure Done where
  counter : Counter
  records : List LogRecord
  asked : List (Duration × Option Duration)

/-- Work that may crash. -/
abbrev Staged := OptionT (StateM Done)

namespace Staged

/-- Goes on only with a whole number that 64 bits hold. -/
def demandWord (n : Nat) : Staged Unit := if n < UInt64.size then pure () else failure

def demandBudget : Option Duration → Staged Unit
  | none => pure ()
  | some b => demandWord b.millis

def write (record : LogRecord) : Staged Unit :=
  modify fun d => { d with records := d.records ++ [record] }

def countSuccess : Staged Unit := modify fun d => { d with counter := d.counter.next }

def currentCount : Staged UInt64 := do return (← get).counter.current

def ask (suspend : Answer) (duration : Duration) (budget : Option Duration) :
    Staged (Except Interruption Unit) := do
  modify fun d => { d with asked := d.asked ++ [(duration,budget)] }
  return suspend duration budget

def compute (ram iterations : UInt64) : Staged Nat :=
  OptionT.mk (pure (Ring.checkedValue? (slotsOfGigabytes ram.toNat)
    (iterationsOfMillions iterations.toNat)))

end Staged

namespace Request
open Staged

def respond (r : Request) (clock : Timeline) (w : Workload) (result : Status) (check : String) :
    Staged (Except Refusal Response) := do
  let response := Response.of result clock.total check
  write (r.completed w response (← currentCount))
  return .ok response

/-- The request stage by stage: it ends in a response or a refusal, or it crashes. -/
def stages (r : Request) (clock : Timeline) (suspend : Answer) :
    Staged (Except Refusal Response) := do
  demandBudget r.budget
  write r.received
  match r.workload with
  | .error why => return .error why
  | .ok (.sleep ms) =>
    match ← ask suspend (.ofMillis ms.toNat) r.budget with
    | .ok () =>
      countSuccess
      r.respond clock (.sleep ms) .success (sleepCheck ms)
    | .error i =>
      demandWord clock.untilReport.millis
      write (r.interrupted clock ms i)
      r.respond clock (.sleep ms) .failure (sleepCheck ms)
  | .ok (.compute ram iterations) =>
    let value ← compute ram iterations
    countSuccess
    r.respond clock (.compute ram iterations) .success value.repr

def staged (r : Request) (clock : Timeline) (suspend : Answer) (c : Counter) :
    Option (Except Refusal Response) × Done :=
  (r.stages clock suspend).run.run ⟨c,[],[]⟩

end Request

def Outcome.returned? : Outcome → Option (Except Refusal Response)
  | .response r => some (.ok r)
  | .refused why => some (.error why)
  | .crashed => none

def Handled.done (h : Handled) : Done := ⟨h.counter,h.records,h.asked⟩

namespace Staged

theorem demandWord_of_lt {n : Nat} (fits : n < UInt64.size) : demandWord n = pure () := if_pos fits

theorem demandWord_of_le {n : Nat} (long : UInt64.size ≤ n) : demandWord n = failure :=
  if_neg (Nat.not_lt_of_le long)

theorem compute_eq (ram iterations : UInt64) :
    compute ram iterations = pure (computationValue ram iterations) := by
  rw [compute,Ring.checkedValue?_eq]
  rfl

end Staged

namespace Request
open Staged
variable {r : Request} {clock : Timeline} {suspend : Answer} {c : Counter}

theorem overflows_iff : r.overflows = true ↔ ∃ b, r.budget = some b ∧ UInt64.size ≤ b.millis := by
  unfold overflows
  split
  · rename_i hb
    simp [hb]
  · rename_i b hb
    simp [hb]

theorem staged_of_overflows (full : r.overflows = true) :
    r.staged clock suspend c = (none,⟨c,[],[]⟩) := by
  obtain ⟨b,hb,hlong⟩ := overflows_iff.mp full
  simp only [staged,stages,hb,demandBudget,demandWord_of_le hlong]
  rfl

theorem demandBudget_of_fits (fits : r.overflows = false) : demandBudget r.budget = pure () := by
  cases hb : r.budget with
  | none => rfl
  | some b =>
    refine demandWord_of_lt (Nat.lt_of_not_le fun hlong => ?_)
    exact Bool.false_ne_true (fits.symm.trans (overflows_iff.mpr ⟨b,hb,hlong⟩))

/-- The stages end as handling the request does, and leave the same behind. -/
theorem staged_eq (r : Request) (clock : Timeline) (suspend : Answer) (c : Counter) :
    r.staged clock suspend c =
      ((r.handle clock suspend c).outcome.returned?,(r.handle clock suspend c).done) := by
  cases hfull : r.overflows with
  | true =>
    rw [staged_of_overflows hfull,handle_full hfull]
    rfl
  | false =>
    have hbudget := demandBudget_of_fits hfull
    cases hplan : r.workload with
    | error why =>
      simp only [staged,stages,hbudget,hplan,handle_error hfull hplan]
      rfl
    | ok w =>
      cases w with
      | sleep ms =>
        cases hanswer : suspend (.ofMillis ms.toNat) r.budget with
        | ok u =>
          simp only [staged,stages,hbudget,hplan,ask,hanswer,handle_sleep_ok hfull hplan hanswer]
          rfl
        | error i =>
          have helapsed := demandWord_of_lt clock.untilReport_fits
          simp only [staged,stages,hbudget,hplan,ask,hanswer,helapsed,
            handle_sleep_error hfull hplan hanswer]
          rfl
      | compute ram iterations =>
        simp only [staged,stages,hbudget,hplan,compute_eq,handle_compute hfull hplan]
        rfl

end Request

theorem Refusal.message_head (why : Refusal) : why.message.toList.head? = some 'i' := by
  cases why with
  | event f => exact (congrArg List.head? String.toList_append).trans rfl
  | arguments f => exact (congrArg List.head? String.toList_append).trans rfl

/-- The host never answers with the failure of a task for a request that does not crash. -/
theorem Host.reply_of_returned {o : Outcome} {crash text : String} (returned : o ≠ .crashed)
    (answer : reply crash o = .error text) :
    ¬ "worker handler task failed".toList <+: text.toList := by
  cases o with
  | response r => cases answer
  | crashed => exact absurd rfl returned
  | refused why =>
    obtain rfl := Except.error.inj answer
    rintro ⟨rest,hrest⟩
    have hhead := why.message_head
    rw [← hrest] at hhead
    change some 'w' = some 'i' at hhead
    exact absurd hhead (by decide)

theorem Outcome.returned?_eq_none_iff {o : Outcome} : o.returned? = none ↔ o = .crashed := by
  cases o <;> simp [returned?]

theorem Request.outcome_eq_crashed_iff {r : Request} {clock : Timeline} {suspend : Answer}
    {c : Counter} : (r.handle clock suspend c).outcome = .crashed ↔ r.overflows = true := by
  constructor
  · intro h
    cases hfull : r.overflows with
    | true => rfl
    | false =>
      have hcourse := r.handle_course clock suspend c
      generalize r.handle clock suspend c = done at hcourse h
      cases hcourse with
      | crashed full => exact hfull.symm.trans full
      | _ => cases h
  · intro full
    rw [handle_full full]

open Host

/-- A request crashes exactly when it has a budget of more whole milliseconds than 64 bits hold,
and then before it has done anything; all its other stages go well, for every event, suspender
and counter. The budgets that the host sets are never that long, so the host never answers
with the failure of a task. -/
theorem only_unloggable_budgets_crash :
    (∀ (r : Request) (clock : Timeline) (suspend : Answer) (c : Counter),
      let h := r.handle clock suspend c
      r.staged clock suspend c = (h.outcome.returned?,⟨h.counter,h.records,h.asked⟩) ∧
      ((r.staged clock suspend c).1 = none ↔ ∃ b, r.budget = some b ∧
        0xffffffffffffffff < b.seconds * 1000 + b.subsecond / 1000000) ∧
      (h.outcome = .crashed → h.counter = c ∧ h.records = [] ∧ h.asked = [])) ∧
    (∀ (s : Settings) (a : Arrival) (clock : Timeline) (suspend : Answer) (c : Counter),
      (∀ b, s.budget? a.deadline a.now = some b → b.millis ≤ 0xffffffffffffffff) ∧
      ∀ crash text, reply crash ((request s a).handle clock suspend c).outcome = .error text →
        ¬ "worker handler task failed".toList <+: text.toList) := by
  refine ⟨?_,?_⟩
  · intro r clock suspend c h
    have hstaged : r.staged clock suspend c = _ := r.staged_eq clock suspend c
    refine ⟨hstaged,?_,?_⟩
    · rw [hstaged,Outcome.returned?_eq_none_iff,Request.outcome_eq_crashed_iff,
        Request.overflows_iff]
      simp only [Duration.millis_eq_parts]
      exact Iff.rfl
    · intro hcrash
      have hfull : r.overflows = true := Request.outcome_eq_crashed_iff.mp hcrash
      have hdone : h = ⟨.crashed,c,[],[]⟩ := Request.handle_full hfull
      rw [hdone]
      exact ⟨rfl,rfl,rfl⟩
  · intro s a clock suspend c
    refine ⟨fun b hb => Nat.le_of_lt_succ (Settings.budget?_fits hb),?_⟩
    intro crash text answer
    refine reply_of_returned ?_ answer
    intro hcrash
    exact Bool.false_ne_true
      ((request_fits s a).symm.trans (Request.outcome_eq_crashed_iff.mp hcrash))

/-- A budget of `2 ^ 64` milliseconds crashes a request whose event is no object; a nanosecond
less does not. The longest budget that a deadline can leave does not either. -/
theorem crash_begins_at_two_to_the_sixtyfour :
    let r : Duration → Request := fun b => ⟨.null,"a",some b,true⟩
    let suspend : Answer := fun _ _ => .ok ()
    let first := Duration.ofSeconds 18446744073709551 616000000
    let last := Duration.ofSeconds 18446744073709551 615999999
    let a : Arrival := ⟨.null,"a",0xffffffffffffffff,-5,none⟩
    ((r first).handle (.ofElapsed .zero) suspend .zero).outcome = .crashed ∧
    ((r first).handle (.ofElapsed .zero) suspend .zero).records = [] ∧
    ((r last).staged (.ofElapsed .zero) suspend .zero).1 ≠ none ∧
    reply "" ((request .standard a).handle (.ofElapsed .zero) suspend .zero).outcome =
      .error "invalid worker event: Worker event must be a JSON object" ∧
    ¬ "worker handler task failed".toList <+:
      "invalid worker event: Worker event must be a JSON object".toList := by
  intro r suspend first last a
  obtain ⟨hrequests,hhosts⟩ := only_unloggable_budgets_crash
  obtain ⟨hstaged,hiff,hnothing⟩ := hrequests (r first) (.ofElapsed .zero) suspend .zero
  obtain ⟨-,hiff',-⟩ := hrequests (r last) (.ofElapsed .zero) suspend .zero
  have hcrash : ((r first).handle (.ofElapsed .zero) suspend .zero).outcome = .crashed := by
    apply Outcome.returned?_eq_none_iff.mp
    have hnone := hiff.mpr ⟨first,rfl,by decide⟩
    rwa [hstaged] at hnone
  have hplan : (request .standard a).workload = .error (.event .notAnObject) := rfl
  have hanswer : reply "" ((request .standard a).handle (.ofElapsed .zero) suspend .zero).outcome =
      .error "invalid worker event: Worker event must be a JSON object" := by
    rw [Request.handle_error (request_fits .standard a) hplan]
    rfl
  refine ⟨hcrash,(hnothing hcrash).2.1,?_,hanswer,?_⟩
  · intro hnone
    obtain ⟨b,hb,hlong⟩ := hiff'.mp hnone
    obtain rfl := Option.some.inj hb
    exact absurd hlong (by decide)
  · exact (hhosts .standard a (.ofElapsed .zero) suspend .zero).2 "" _ hanswer

end GridWorker
