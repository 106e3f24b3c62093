import Mathlib.Data.List.Forall2
import GridWorker.Proofs.ServedCalls

/-! # What the log keeps of a payload

Two runs are compared whose calls agree in everything but their events and clocks. Where
events are not logged, and each pair of events is planned alike or refused on both sides,
the two runs leave the same lines, counts and questions to the suspenders; what else the
payloads hold, and why they are refused, is not to be read off them. The flag for events
changes nothing but the event in the line of an arrival.
-/
namespace GridWorker

namespace LogRecord

/-- The record with `null` for what it says under some keys of its details. -/
def masked (keys : List String) (r : LogRecord) : LogRecord :=
  { r with details := match r.details with
    | .object ms => .object (ms.map fun m => if m.1 ∈ keys then (m.1,.null) else m)
    | v => v }

def timeless : LogRecord → LogRecord := masked ["compute_time_ms","elapsed_ms"]

end LogRecord

def Outcome.timeless : Outcome → Outcome
  | .response r => .response { r with computeTimeMs := "" }
  | o => o

namespace Request
variable {r r' : Request}

theorem received_congr (requestId : r'.requestId = r.requestId) (budget : r'.budget = r.budget)
    (quiet : r.logEvent = false) (quiet' : r'.logEvent = false) : r'.received = r.received := by
  simp only [received,requestId,budget,quiet,quiet',Bool.false_eq_true,if_false]

theorem received_masked (requestId : r'.requestId = r.requestId) (budget : r'.budget = r.budget) :
    r'.received.masked ["event"] = r.received.masked ["event"] := by
  rw [received_eq,received_eq,requestId,budget]
  simp [LogRecord.masked]

theorem interrupted_timeless (requestId : r'.requestId = r.requestId) (clock clock' : Timeline)
    (ms : UInt64) (i : Interruption) :
    (r'.interrupted clock' ms i).timeless = (r.interrupted clock ms i).timeless := by
  rw [interrupted_eq,interrupted_eq,requestId]
  simp [LogRecord.timeless,LogRecord.masked]

theorem completed_timeless (requestId : r'.requestId = r.requestId) (w : Workload)
    (result : Status) (time time' : Duration) (check : String) (count : UInt64) :
    (r'.completed w (.of result time' check) count).timeless =
      (r.completed w (.of result time check) count).timeless := by
  rw [completed_eq,completed_eq,requestId]
  simp [Response.of,LogRecord.timeless,LogRecord.masked]

theorem overflows_congr (budget : r'.budget = r.budget) : r'.overflows = r.overflows := by
  simp only [overflows,budget]

end Request

/-- Two calls that differ at most in their events, flags and clocks, and whose events are
either both refused, for whatever reasons, or planned to one workload. -/
structure Handling.Twins (x y : Handling) : Prop where
  requestId : y.request.requestId = x.request.requestId
  budget : y.request.budget = x.request.budget
  plan : (∃ why why', x.request.workload = .error why ∧ y.request.workload = .error why') ∨
    ∃ w, x.request.workload = .ok w ∧ y.request.workload = .ok w
  answer : ∀ ms, x.request.workload = .ok (.sleep ms) →
    y.suspend (.ofMillis ms.toNat) y.request.budget =
      x.suspend (.ofMillis ms.toNat) x.request.budget

inductive Handled.Twins (x y : Handling) : Handled → Handled → Prop
  | crashed (c : Counter) : Twins x y ⟨.crashed,c,[],[]⟩ ⟨.crashed,c,[],[]⟩
  | refused {why why' : Refusal} (c : Counter) (plan : x.request.workload = .error why)
      (plan' : y.request.workload = .error why') :
      Twins x y ⟨.refused why,c,[x.request.received],[]⟩ ⟨.refused why',c,[y.request.received],[]⟩
  | answered {o o' : Outcome} {lines lines' : List LogRecord} (c : Counter)
      (asked : List (Duration × Option Duration)) (outcome : o'.timeless = o.timeless)
      (rest : lines'.map LogRecord.timeless = lines.map LogRecord.timeless) :
      Twins x y ⟨o,c,x.request.received :: lines,asked⟩ ⟨o',c,y.request.received :: lines',asked⟩

theorem Handling.Twins.on {x y : Handling} (h : x.Twins y) (c : Counter) :
    Handled.Twins x y (x.on c) (y.on c) := by
  have hbudget := h.budget
  have hid := h.requestId
  have hoverflows : y.request.overflows = x.request.overflows := Request.overflows_congr hbudget
  unfold Handling.on
  cases hfull : x.request.overflows with
  | true =>
    rw [Request.handle_full hfull,Request.handle_full (hoverflows.trans hfull)]
    exact .crashed c
  | false =>
    have hfull' := hoverflows.trans hfull
    rcases h.plan with ⟨why,why',hplan,hplan'⟩ | ⟨w,hplan,hplan'⟩
    · rw [Request.handle_error hfull hplan,Request.handle_error hfull' hplan']
      exact .refused c hplan hplan'
    · cases w with
      | sleep ms =>
        have hanswer := h.answer ms hplan
        cases ha : x.suspend (.ofMillis ms.toNat) x.request.budget with
        | ok u =>
          rw [Request.handle_sleep_ok hfull hplan ha,
            Request.handle_sleep_ok hfull' hplan' (hanswer.trans ha),hbudget]
          have hlast := Request.completed_timeless hid (.sleep ms) .success x.clock.total
            y.clock.total (Request.sleepCheck ms) c.next.current
          exact .answered c.next _ rfl (congrArg (fun line => [line]) hlast)
        | error i =>
          rw [Request.handle_sleep_error hfull hplan ha,
            Request.handle_sleep_error hfull' hplan' (hanswer.trans ha),hbudget]
          have hmiddle := Request.interrupted_timeless hid x.clock y.clock ms i
          have hlast := Request.completed_timeless hid (.sleep ms) .failure x.clock.total
            y.clock.total (Request.sleepCheck ms) c.current
          exact .answered c _ rfl (congrArg₂ (fun line line' => [line,line']) hmiddle hlast)
      | compute ram iterations =>
        rw [Request.handle_compute hfull hplan,Request.handle_compute hfull' hplan']
        have hlast := Request.completed_timeless hid (.compute ram iterations) .success
          x.clock.total y.clock.total (Request.computationCheck ram iterations) c.next.current
        exact .answered c.next _ rfl (congrArg (fun line => [line]) hlast)

namespace Handled.Twins
variable {x y : Handling} {h h' : Handled}

theorem counter_eq (twins : Handled.Twins x y h h') : h'.counter = h.counter := by
  cases twins <;> rfl

theorem asked_eq (twins : Handled.Twins x y h h') : h'.asked = h.asked := by
  cases twins <;> rfl

theorem records_timeless (twins : Handled.Twins x y h h')
    (arrival : y.request.received = x.request.received) :
    h'.records.map LogRecord.timeless = h.records.map LogRecord.timeless := by
  cases twins with
  | crashed c => rfl
  | refused c => rw [arrival]
  | answered c asked outcome rest => rw [arrival,List.map_cons,List.map_cons,rest]

theorem outcome_timeless (twins : Handled.Twins x y h h')
    (plan : y.request.workload = x.request.workload) :
    h'.outcome.timeless = h.outcome.timeless := by
  cases twins with
  | crashed c => rfl
  | refused c hplan hplan' =>
    obtain rfl := Except.error.inj (hplan.symm.trans (plan.symm.trans hplan'))
    rfl
  | answered c asked outcome rest => exact outcome

theorem records_masked (twins : Handled.Twins x y h h')
    (arrival : y.request.received.masked ["event"] = x.request.received.masked ["event"]) :
    List.Forall₂ (fun line line' => line'.timeless = line.timeless ∨
      line.event = "invocation_received" ∧ line'.masked ["event"] = line.masked ["event"])
      h.records h'.records := by
  have hfirst : x.request.received.event = "invocation_received" := rfl
  cases twins with
  | crashed c => exact .nil
  | refused c => exact .cons (Or.inr ⟨hfirst,arrival⟩) .nil
  | @answered o o' lines lines' c asked outcome rest =>
    have hrest : List.Forall₂ (fun line line' => line'.timeless = line.timeless) lines lines' := by
      have heq : List.Forall₂ (fun a b => b = a) (lines.map LogRecord.timeless)
          (lines'.map LogRecord.timeless) := by
        rw [rest]
        exact List.forall₂_refl _
      simpa only [List.forall₂_map_left_iff,List.forall₂_map_right_iff] using heq
    exact .cons (Or.inr ⟨hfirst,arrival⟩) (hrest.imp fun _ _ => Or.inl)

end Handled.Twins

structure Handling.AlikeButFlag (x y : Handling) : Prop where
  request : y.request = { x.request with logEvent := y.request.logEvent }
  answer : ∀ ms, x.request.workload = .ok (.sleep ms) →
    y.suspend (.ofMillis ms.toNat) x.request.budget =
      x.suspend (.ofMillis ms.toNat) x.request.budget

namespace Handling.AlikeButFlag
variable {x y : Handling}

theorem workload_eq (h : x.AlikeButFlag y) : y.request.workload = x.request.workload := by
  rw [h.request]
  rfl

theorem twins (h : x.AlikeButFlag y) : x.Twins y := by
  have hplan := h.workload_eq
  have hbudget : y.request.budget = x.request.budget := by rw [h.request]
  refine ⟨by rw [h.request],hbudget,?_,?_⟩
  · cases hx : x.request.workload with
    | error why => exact Or.inl ⟨why,why,rfl,hplan.trans hx⟩
    | ok w => exact Or.inr ⟨w,rfl,hplan.trans hx⟩
  · intro ms hms
    rw [hbudget]
    exact h.answer ms hms

end Handling.AlikeButFlag

/-- Runs of calls that are related one by one leave related things behind, if related calls
leave one counter. -/
theorem Counter.serve_forall₂ {R : Handling → Handling → Prop} {S : Handled → Handled → Prop}
    (step : ∀ x y, R x y → ∀ c, S (x.on c) (y.on c) ∧ (y.on c).counter = (x.on c).counter)
    {xs ys : List Handling} (related : List.Forall₂ R xs ys) (c : Counter) :
    List.Forall₂ S (c.serve xs).1 (c.serve ys).1 := by
  induction related generalizing c with
  | nil => exact .nil
  | @cons x y xs ys hxy _ ih =>
    obtain ⟨hhead,hcounter⟩ := step x y hxy c
    have hrest := ih (x.on c).counter
    simp only [serve,hcounter]
    exact .cons hhead hrest

/-- Where events are not logged, the lines of a run depend on the planned workloads, and on
which calls are refused, but on nothing else in the events. Whether events are logged
changes the lines of arrivals in one place, and nothing else. -/
theorem log_keeps_only_the_plan (c : Counter) :
    (∀ xs ys : List Handling, List.Forall₂ (fun x y => x.Twins y ∧
        x.request.logEvent = false ∧ y.request.logEvent = false) xs ys →
      List.Forall₂ (fun h h' =>
        h'.records.map LogRecord.timeless = h.records.map LogRecord.timeless ∧
          h'.counter = h.counter ∧ h'.asked = h.asked) (c.serve xs).1 (c.serve ys).1) ∧
    (∀ xs ys : List Handling, List.Forall₂ Handling.AlikeButFlag xs ys →
      List.Forall₂ (fun h h' => h'.outcome.timeless = h.outcome.timeless ∧
          h'.counter = h.counter ∧ h'.asked = h.asked ∧
          List.Forall₂ (fun line line' => line'.timeless = line.timeless ∨
            line.event = "invocation_received" ∧
              line'.masked ["event"] = line.masked ["event"]) h.records h'.records)
        (c.serve xs).1 (c.serve ys).1) := by
  refine ⟨?_,?_⟩
  · intro xs ys related
    apply Counter.serve_forall₂ _ related
    rintro x y ⟨htwins,hquiet,hquiet'⟩ c
    have hon := htwins.on c
    have harrival := Request.received_congr htwins.requestId htwins.budget hquiet hquiet'
    exact ⟨⟨hon.records_timeless harrival,hon.counter_eq,hon.asked_eq⟩,hon.counter_eq⟩
  · intro xs ys related
    apply Counter.serve_forall₂ _ related
    intro x y halike c
    have htwins := halike.twins
    have hon := htwins.on c
    have harrival := Request.received_masked htwins.requestId htwins.budget
    exact ⟨⟨hon.outcome_timeless halike.workload_eq,hon.counter_eq,hon.asked_eq,
      hon.records_masked harrival⟩,hon.counter_eq⟩

/-- A secret beside a sleep, and a secret for which a request is refused. -/
theorem log_keeps_no_secret :
    let call : Json → Bool → Handling := fun event logEvent =>
      ⟨⟨event,"a",some ⟨6000000⟩,logEvent⟩,.ofElapsed .zero,fun _ _ => .ok ()⟩
    let plain : Json := .object [("worker_arguments",.array [.string "5"])]
    let padded : Json := .object [("secret",.string "s"),
      ("worker_arguments",.array [.string "+05",.string "s"])]
    let planless : Json := .object [("worker_arguments",.array [.string "s"])]
    List.Forall₂ (fun x y => x.Twins y ∧ x.request.logEvent = false ∧ y.request.logEvent = false)
      [call plain false,call .null false] [call padded false,call planless false] ∧
    List.Forall₂ (fun h h' =>
      h'.records.map LogRecord.timeless = h.records.map LogRecord.timeless ∧
        h'.counter = h.counter ∧ h'.asked = h.asked)
      (Counter.zero.serve [call plain false,call .null false]).1
      (Counter.zero.serve [call padded false,call planless false]).1 ∧
    (call padded false).AlikeButFlag (call padded true) ∧
    List.Forall₂ (fun h h' => h'.outcome.timeless = h.outcome.timeless)
      (Counter.zero.serve [call padded false]).1 (Counter.zero.serve [call padded true]).1 := by
  intro call plain padded planless
  have hplanned : (call plain false).Twins (call padded false) :=
    ⟨rfl,rfl,Or.inr ⟨.sleep 5,rfl,rfl⟩,fun _ _ => rfl⟩
  have hrefused : (call .null false).Twins (call planless false) :=
    ⟨rfl,rfl,Or.inl ⟨_,_,rfl,rfl⟩,fun _ _ => rfl⟩
  have hrelated : List.Forall₂
      (fun x y => x.Twins y ∧ x.request.logEvent = false ∧ y.request.logEvent = false)
      [call plain false,call .null false] [call padded false,call planless false] :=
    .cons ⟨hplanned,rfl,rfl⟩ (.cons ⟨hrefused,rfl,rfl⟩ .nil)
  have hflag : (call padded false).AlikeButFlag (call padded true) := ⟨rfl,fun _ _ => rfl⟩
  obtain ⟨hquiet,hflipped⟩ := log_keeps_only_the_plan .zero
  have hsame := hflipped [call padded false] [call padded true] (.cons hflag .nil)
  exact ⟨hrelated,hquiet _ _ hrelated,hflag,hsame.imp fun _ _ h => h.1⟩

end GridWorker
