import Mathlib.Data.List.Forall2
import GridWorker.Proofs.OverlapWindows
import GridWorker.Proofs.PayloadSecrecy
import GridWorker.Proofs.SuccessCount

/-! # Calls alone and in company

What a suspension reports does not depend on the generation at its beginning, only on the
interrupts that come before its end; and a call reads the counter for one member of one record.
A call that shares its counter and sleeper with others therefore leaves the same behind as
alone, that member apart, and it is not to be seen from a call whether failures and interrupts
have come before it.
-/
namespace GridWorker

namespace Sleeper

theorem generation_repeat (n : Nat) (s : Sleeper) :
    (Nat.repeat interrupt n s).generation = s.generation + UInt64.ofNat n := by
  induction n with
  | zero => exact (UInt64.add_zero _).symm
  | succ n ih =>
    change (Nat.repeat interrupt n s).generation + 1 = _
    rw [ih,UInt64.ofNat_add,UInt64.add_assoc]
    rfl

theorem generation_repeat_eq_iff (n : Nat) (s t : Sleeper) :
    (Nat.repeat interrupt n s).generation = s.generation ↔
      (Nat.repeat interrupt n t).generation = t.generation := by
  rw [generation_repeat,generation_repeat,← not_iff_not,← ne_eq,← ne_eq,generation_add_ne_iff,
    generation_add_ne_iff]

theorem outcome_repeat (n : Nat) (s t : Sleeper) (duration : Duration)
    (budget : Option Duration) :
    (s.suspend duration budget).outcome (Nat.repeat interrupt n s) =
      (t.suspend duration budget).outcome (Nat.repeat interrupt n t) :=
  outcome_congr budget (generation_repeat_eq_iff n s t)

theorem mayEnd_repeat (n : Nat) (s t : Sleeper) (duration : Duration) (budget : Option Duration)
    (elapsed : Duration) :
    (s.suspend duration budget).mayEnd (Nat.repeat interrupt n s) elapsed =
      (t.suspend duration budget).mayEnd (Nat.repeat interrupt n t) elapsed := by
  have hsame := not_congr (generation_repeat_eq_iff n s t)
  exact decide_eq_decide.mpr (or_congr hsame Iff.rfl)

end Sleeper

/-- A request on the shared sleeper: how many interrupts come before its suspension begins, and
how many more before it ends. -/
structure Visit where
  request : Request
  clock : Timeline
  before : Nat
  during : Nat

namespace Visit

def answer (x : Visit) (s : Sleeper) : Answer := fun duration budget =>
  (s.suspend duration budget).outcome (Nat.repeat Sleeper.interrupt x.during s)

theorem answer_eq (x : Visit) (s t : Sleeper) : x.answer s = x.answer t := by
  funext duration budget
  exact Sleeper.outcome_repeat x.during s t duration budget

def handling (x : Visit) : Handling := ⟨x.request,x.clock,x.answer .fresh⟩

end Visit

namespace Shared

def visit (s : Shared) (x : Visit) : Handled × Shared :=
  let sleeper := Nat.repeat Sleeper.interrupt x.before s.sleeper
  let h := x.request.handle x.clock (x.answer sleeper) s.counter
  (h,⟨h.counter,Nat.repeat Sleeper.interrupt x.during sleeper⟩)

def history (s : Shared) : List Visit → List Handled × Shared
  | [] => ([],s)
  | x :: rest => ((s.visit x).1 :: ((s.visit x).2.history rest).1,((s.visit x).2.history rest).2)

theorem visit_eq (s : Shared) (x : Visit) : (s.visit x).1 = x.handling.on s.counter := by
  have hanswer := x.answer_eq (Nat.repeat Sleeper.interrupt x.before s.sleeper) .fresh
  exact congrArg (fun f => x.request.handle x.clock f s.counter) hanswer

/-- Visits are calls on one counter: nothing is left of the sleeper. -/
theorem history_eq_serve_map (s : Shared) (xs : List Visit) :
    (s.history xs).1 = (s.counter.serve (xs.map Visit.handling)).1 := by
  induction xs generalizing s with
  | nil => rfl
  | cons x rest ih =>
    have hcounter : (s.visit x).2.counter = (s.visit x).1.counter := rfl
    rw [history,ih,hcounter,visit_eq]
    rfl

end Shared

theorem Nap.outcome_eq (s t : Sleeper) (duration : Duration) (budget interrupt : Option Duration) :
    (take s duration budget interrupt).outcome = (take t duration budget interrupt).outcome := by
  -- the one interrupt either ends the suspension or comes too late for it
  have hquiet := Sleeper.outcome_repeat 0 s t duration budget
  have hsignalled := Sleeper.outcome_repeat 1 s t duration budget
  cases interrupt with
  | none => exact hquiet
  | some moment =>
    unfold take
    dsimp only
    by_cases hmoment : moment < (s.suspend duration budget).wait
    · have hmoment' : moment < (t.suspend duration budget).wait := hmoment
      rw [if_pos hmoment,if_pos hmoment']
      exact hsignalled
    · have hmoment' : ¬ moment < (t.suspend duration budget).wait := hmoment
      rw [if_neg hmoment,if_neg hmoment']
      exact hquiet

def Call.handling (x : Call) : Handling := ⟨x.request,x.clock,x.suspender.answer .fresh⟩

theorem Suspender.answer_eq (p : Suspender) (s t : Sleeper) : p.answer s = p.answer t := by
  funext duration budget
  cases p with
  | scripted answer => rfl
  | sleeper interrupt => exact Nap.outcome_eq s t duration budget interrupt

namespace Shared

theorem call_eq (s : Shared) (x : Call) : (s.call x).1 = x.handling.on s.counter := by
  have hanswer := x.suspender.answer_eq
    (Nat.repeat Sleeper.interrupt x.interruptsBefore s.sleeper) .fresh
  exact congrArg (fun f => x.request.handle x.clock f s.counter) hanswer

theorem handlings_eq_map (s : Shared) (xs : List Call) :
    s.handlings xs = xs.map Call.handling := by
  induction xs generalizing s with
  | nil => rfl
  | cons x rest ih =>
    have hanswer := x.suspender.answer_eq
      (Nat.repeat Sleeper.interrupt x.interruptsBefore s.sleeper) .fresh
    rw [handlings,ih,hanswer]
    rfl

theorem session_eq_serve_map (s : Shared) (xs : List Call) :
    (s.session xs).1 = (s.counter.serve (xs.map Call.handling)).1 := by
  rw [(s.session_eq_serve xs).1,handlings_eq_map]

end Shared

def LogRecord.countless : LogRecord → LogRecord :=
  masked ["compute_time_ms","elapsed_ms","invocation_count"]

/-- Two calls left the same, readings of the clock and of the counter apart. -/
structure Handled.SameButCount (h h' : Handled) : Prop where
  outcome : h'.outcome.timeless = h.outcome.timeless
  asked : h'.asked = h.asked
  records : h'.records.map LogRecord.countless = h.records.map LogRecord.countless

/-- Two calls left the same and found the counter alike, readings of the clock apart. -/
structure Handled.Unchanged (h h' : Handled) : Prop where
  outcome : h'.outcome.timeless = h.outcome.timeless
  counter : h'.counter = h.counter
  asked : h'.asked = h.asked
  records : h'.records.map LogRecord.timeless = h.records.map LogRecord.timeless

namespace Request

theorem interrupted_countless (r : Request) (clock clock' : Timeline) (ms : UInt64)
    (i : Interruption) :
    (r.interrupted clock' ms i).countless = (r.interrupted clock ms i).countless := by
  rw [interrupted_eq,interrupted_eq]
  simp [LogRecord.countless,LogRecord.masked]

theorem completed_countless (r : Request) (w : Workload) (result : Status)
    (time time' : Duration) (check : String) (count count' : UInt64) :
    (r.completed w (.of result time' check) count').countless =
      (r.completed w (.of result time check) count).countless := by
  rw [completed_eq,completed_eq]
  simp [Response.of,LogRecord.countless,LogRecord.masked]

theorem handle_sameButCount (r : Request) (clock clock' : Timeline) (suspend : Answer)
    (c c' : Counter) :
    (r.handle clock suspend c).SameButCount (r.handle clock' suspend c') := by
  cases hfull : r.overflows with
  | true =>
    rw [handle_full hfull,handle_full hfull]
    exact ⟨rfl,rfl,rfl⟩
  | false =>
    cases hplan : r.workload with
    | error why =>
      rw [handle_error hfull hplan,handle_error hfull hplan]
      exact ⟨rfl,rfl,rfl⟩
    | ok w =>
      cases w with
      | sleep ms =>
        cases hanswer : suspend (.ofMillis ms.toNat) r.budget with
        | ok u =>
          rw [handle_sleep_ok hfull hplan hanswer,handle_sleep_ok hfull hplan hanswer]
          have hlast := r.completed_countless (.sleep ms) .success clock.total clock'.total
            (sleepCheck ms) c.next.current c'.next.current
          exact ⟨rfl,rfl,congrArg (fun line => [_,line]) hlast⟩
        | error i =>
          rw [handle_sleep_error hfull hplan hanswer,handle_sleep_error hfull hplan hanswer]
          have hmiddle := r.interrupted_countless clock clock' ms i
          have hlast := r.completed_countless (.sleep ms) .failure clock.total clock'.total
            (sleepCheck ms) c.current c'.current
          exact ⟨rfl,rfl,congrArg₂ (fun line line' => [_,line,line']) hmiddle hlast⟩
      | compute ram iterations =>
        rw [handle_compute hfull hplan,handle_compute hfull hplan]
        have hlast := r.completed_countless (.compute ram iterations) .success clock.total
          clock'.total (computationCheck ram iterations) c.next.current c'.next.current
        exact ⟨rfl,rfl,congrArg (fun line => [_,line]) hlast⟩

end Request

structure Handling.Again (x y : Handling) : Prop where
  request : y.request = x.request
  suspend : y.suspend = x.suspend

namespace Handling.Again
variable {x y : Handling}

theorem twins (h : x.Again y) : x.Twins y := by
  refine ⟨by rw [h.request],by rw [h.request],?_,fun ms _ => by rw [h.request,h.suspend]⟩
  rw [h.request]
  cases hx : x.request.workload with
  | error why => exact Or.inl ⟨why,why,rfl,rfl⟩
  | ok w => exact Or.inr ⟨w,rfl,rfl⟩

theorem unchanged (h : x.Again y) (c : Counter) : (x.on c).Unchanged (y.on c) := by
  have hon := h.twins.on c
  exact ⟨hon.outcome_timeless (by rw [h.request]),hon.counter_eq,hon.asked_eq,
    hon.records_timeless (by rw [h.request])⟩

theorem on_eq (h : x.Again y) (clock : y.clock = x.clock) (c : Counter) : y.on c = x.on c := by
  unfold Handling.on
  rw [h.request,h.suspend,clock]

theorem sameButCount (h : x.Again y) (c c' : Counter) : (x.on c).SameButCount (y.on c') := by
  have hsame := x.request.handle_sameButCount x.clock y.clock x.suspend c c'
  unfold Handling.on
  rwa [h.request,h.suspend]

end Handling.Again

theorem Visit.handling_again {x y : Visit} (request : y.request = x.request)
    (during : y.during = x.during) : x.handling.Again y.handling := by
  refine ⟨request,?_⟩
  change y.answer .fresh = x.answer .fresh
  unfold Visit.answer
  rw [during]

theorem Call.handling_again {x y : Call} (request : y.request = x.request)
    (suspender : y.suspender = x.suspender) : x.handling.Again y.handling :=
  ⟨request,congrArg (·.answer .fresh) suspender⟩

/-- What is kept of a run, each call with what it left, when some calls that did not succeed are
taken out. -/
inductive Thinned {α : Type} : List (α × Handled) → List (α × Handled) → Prop
  | nil : Thinned [] []
  | drop {step : α × Handled} {rest kept : List (α × Handled)} (failed : step.2.succeeded = false)
      (thinned : Thinned rest kept) : Thinned (step :: rest) kept
  | keep {step : α × Handled} {rest kept : List (α × Handled)} (thinned : Thinned rest kept) :
      Thinned (step :: rest) (step :: kept)

namespace Counter
variable {α : Type} (f : α → Handling)

theorem serve_sameButCount (c : Counter) (xs : List α) :
    List.Forall₂ (fun x h => ∀ y, (f x).Again y → ∀ c', h.SameButCount (y.on c')) xs
      (c.serve (xs.map f)).1 := by
  induction xs generalizing c with
  | nil => exact .nil
  | cons x rest ih =>
    exact .cons (fun y again c' => again.sameButCount c c') (ih ((f x).on c).counter)

/-- The calls that are kept meet the counter that they met before. -/
theorem serve_thinned {c : Counter} {xs ys : List α} {kept : List (α × Handled)}
    (thinned : Thinned (xs.zip (c.serve (xs.map f)).1) kept)
    (again : List.Forall₂ (fun k y => (f k.1).Again (f y)) kept ys) :
    List.Forall₂ (fun k z => k.2.Unchanged z.2 ∧ ((f z.1).clock = (f k.1).clock → z.2 = k.2)) kept
      (ys.zip (c.serve (ys.map f)).1) := by
  induction xs generalizing c kept ys with
  | nil =>
    cases thinned
    cases again
    exact .nil
  | cons x rest ih =>
    rw [List.map_cons,serve,List.zip_cons_cons] at thinned
    cases thinned with
    | drop failed thinned =>
      -- only a success moves the counter on, so the calls that follow find it unmoved
      have hcounter := ((f x).on_course c).counter_eq
      rw [failed] at hcounter
      rw [show ((f x).on c).counter = c from hcounter] at thinned
      exact ih thinned again
    | keep thinned =>
      cases again with
      | @cons _ y _ ys hxy again =>
        have hunchanged := hxy.unchanged c
        rw [List.map_cons,serve,List.zip_cons_cons,hunchanged.counter]
        exact .cons ⟨hunchanged,fun clock => hxy.on_eq clock c⟩ (ih thinned again)

end Counter

/-- A visit leaves the same behind as alone, on a counter and a sleeper of its own, the readings
of its clock and of the counter apart, and its suspension may end at the same moments. If visits
that did not succeed are taken out of a history, and other interrupts come between the visits
that are left, then these leave the same behind, with their counts. Both hold of sessions too. -/
theorem visits_end_as_alone (s t : Shared) (counter : t.counter = s.counter) :
    (∀ xs : List Visit, List.Forall₂ (fun x h => ∀ clock,
      h.SameButCount (Shared.fresh.visit { x with clock, before := 0 }).1) xs (s.history xs).1) ∧
    (∀ (n : Nat) (duration : Duration) (budget : Option Duration) (elapsed : Duration),
      (s.sleeper.suspend duration budget).mayEnd (Nat.repeat Sleeper.interrupt n s.sleeper)
          elapsed =
        (Sleeper.fresh.suspend duration budget).mayEnd (Nat.repeat Sleeper.interrupt n .fresh)
          elapsed) ∧
    (∀ (xs ys : List Visit) (kept : List (Visit × Handled)),
      Thinned (xs.zip (s.history xs).1) kept →
      List.Forall₂ (fun k y => y.request = k.1.request ∧ y.during = k.1.during) kept ys →
      List.Forall₂ (fun k z => k.2.Unchanged z.2 ∧ (z.1.clock = k.1.clock → z.2 = k.2)) kept
        (ys.zip (t.history ys).1)) ∧
    (∀ xs : List Call, List.Forall₂ (fun x h => ∀ clock,
      h.SameButCount (Shared.fresh.call { x with clock, interruptsBefore := 0 }).1) xs
        (s.session xs).1) ∧
    (∀ (xs ys : List Call) (kept : List (Call × Handled)),
      Thinned (xs.zip (s.session xs).1) kept →
      List.Forall₂ (fun k y => y.request = k.1.request ∧ y.suspender = k.1.suspender) kept ys →
      List.Forall₂ (fun k z => k.2.Unchanged z.2 ∧ (z.1.clock = k.1.clock → z.2 = k.2)) kept
        (ys.zip (t.session ys).1)) := by
  refine ⟨?_,fun n => Sleeper.mayEnd_repeat n s.sleeper .fresh,?_,?_,?_⟩
  · intro xs
    rw [Shared.history_eq_serve_map]
    refine (Counter.serve_sameButCount Visit.handling s.counter xs).imp ?_
    intro x h hsame clock
    rw [Shared.visit_eq]
    exact hsame _ (Visit.handling_again (y := { x with clock, before := 0 }) rfl rfl) .zero
  · intro xs ys kept thinned again
    rw [Shared.history_eq_serve_map] at thinned ⊢
    rw [counter]
    exact Counter.serve_thinned Visit.handling thinned
      (again.imp fun _ _ h => Visit.handling_again h.1 h.2)
  · intro xs
    rw [Shared.session_eq_serve_map]
    refine (Counter.serve_sameButCount Call.handling s.counter xs).imp ?_
    intro x h hsame clock
    rw [Shared.call_eq]
    exact hsame _ (Call.handling_again (y := { x with clock, interruptsBefore := 0 }) rfl rfl) .zero
  · intro xs ys kept thinned again
    rw [Shared.session_eq_serve_map] at thinned ⊢
    rw [counter]
    exact Counter.serve_thinned Call.handling thinned
      (again.imp fun _ _ h => Call.handling_again h.1 h.2)

/-- A refused and an interrupted visit are taken out before a success, with the generation about
to wrap. -/
theorem success_ends_as_alone :
    let visit : Json → Nat → Nat → Visit := fun event before during =>
      ⟨⟨event,"a",none,false⟩,.ofElapsed .zero,before,during⟩
    let sleep : Json := .object [("worker_arguments",.array [.string "5"])]
    let s : Shared := ⟨⟨7⟩,⟨0xffffffffffffffff⟩⟩
    let t : Shared := ⟨⟨7⟩,.fresh⟩
    let xs := [visit .null 1 0,visit sleep 0 2,visit sleep 3 0]
    let kept := (xs.zip (s.history xs).1).drop 2
    t.counter = s.counter ∧ Thinned (xs.zip (s.history xs).1) kept ∧
      List.Forall₂ (fun k y => y.request = k.1.request ∧ y.during = k.1.during) kept
        [visit sleep 9 0] ∧
      List.Forall₂ (fun k z => k.2.Unchanged z.2 ∧ (z.1.clock = k.1.clock → z.2 = k.2)) kept
        ([visit sleep 9 0].zip (t.history [visit sleep 9 0]).1) := by
  intro visit sleep s t xs kept
  have hthinned : Thinned (xs.zip (s.history xs).1) kept :=
    .drop rfl (.drop (by decide +kernel) (.keep .nil))
  have hagain : List.Forall₂ (fun k y => y.request = k.1.request ∧ y.during = k.1.during) kept
      [visit sleep 9 0] := .cons ⟨rfl,rfl⟩ .nil
  obtain ⟨-,-,hkept,-,-⟩ := visits_end_as_alone s t rfl
  exact ⟨rfl,hthinned,hagain,hkept xs [visit sleep 9 0] kept hthinned hagain⟩

end GridWorker
