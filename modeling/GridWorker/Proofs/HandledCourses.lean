import GridWorker.Invocation
import GridWorker.Proofs.MemberLookup

/-! # The courses of a request

Handling a request takes one of five courses, and each says all that is left behind:
the outcome, the counter, the records and what the suspender was asked for. Whatever
holds of every handled request is proved by these five cases. The suspender decides
nothing but the one answer it is asked for.
-/
namespace GridWorker

abbrev Answer := Duration → Option Duration → Except Interruption Unit

def Outcome.succeeded : Outcome → Bool
  | .response r => r.result = .success
  | .refused _ => false
  | .crashed => false

def Handled.succeeded (h : Handled) : Bool := h.outcome.succeeded

namespace Request

/-- The five courses of a request, from a counter. -/
inductive Course (r : Request) (clock : Timeline) (suspend : Answer) (c : Counter) : Handled → Prop
  | crashed (full : r.overflows = true) : Course r clock suspend c ⟨.crashed,c,[],[]⟩
  | refused (why : Refusal) (fits : r.overflows = false) (plan : r.workload = .error why) :
      Course r clock suspend c ⟨.refused why,c,[r.received],[]⟩
  | slept (ms : UInt64) (fits : r.overflows = false) (plan : r.workload = .ok (.sleep ms))
      (answer : suspend (.ofMillis ms.toNat) r.budget = .ok ()) :
      Course r clock suspend c
        ⟨.response (.of .success clock.total (sleepCheck ms)),c.next,
          [r.received,
            r.completed (.sleep ms) (.of .success clock.total (sleepCheck ms)) c.next.current],
          [(.ofMillis ms.toNat,r.budget)]⟩
  | interrupted (ms : UInt64) (i : Interruption) (fits : r.overflows = false)
      (plan : r.workload = .ok (.sleep ms))
      (answer : suspend (.ofMillis ms.toNat) r.budget = .error i) :
      Course r clock suspend c
        ⟨.response (.of .failure clock.total (sleepCheck ms)),c,
          [r.received,r.interrupted clock ms i,
            r.completed (.sleep ms) (.of .failure clock.total (sleepCheck ms)) c.current],
          [(.ofMillis ms.toNat,r.budget)]⟩
  | computed (ram iterations : UInt64) (fits : r.overflows = false)
      (plan : r.workload = .ok (.compute ram iterations)) :
      Course r clock suspend c
        ⟨.response (.of .success clock.total (computationCheck ram iterations)),c.next,
          [r.received,
            r.completed (.compute ram iterations)
              (.of .success clock.total (computationCheck ram iterations)) c.next.current],
          []⟩

section Records
variable (r : Request)

theorem received_eq :
    r.received = ⟨"worker_handler","invocation_received",.info,
      .object [("budget_ms",.ofOption millisJson r.budget),
        ("event",if r.logEvent then r.event else .null),("request_id",.string r.requestId)]⟩ := by
  simp only [received,component,Json.record,Members.sorted,Members.insert,List.foldl_cons,
    List.foldl_nil,String.reduceLT,String.reduceEq,if_true,if_false]

theorem interrupted_eq (clock : Timeline) (ms : UInt64) (i : Interruption) :
    r.interrupted clock ms i = ⟨"worker_handler","invocation_interrupted",.error,
      .object [("elapsed_ms",millisJson clock.untilReport),("reason",.string i.message),
        ("request_id",.string r.requestId),("requested_ms",.ofUInt64 ms)]⟩ := by
  simp only [interrupted,component,Json.record,Members.sorted,Members.insert,List.foldl_cons,
    List.foldl_nil,String.reduceLT,String.reduceEq,if_true,if_false]

theorem completed_eq (w : Workload) (response : Response) (count : UInt64) :
    r.completed w response count = ⟨"worker_handler","invocation_completed",.info,
      .object [("compute_time_ms",.string response.computeTimeMs),
        ("invocation_count",.ofUInt64 count),("request_id",.string r.requestId),
        ("result",.string response.result.name),("workload",w.toJson)]⟩ := by
  simp only [completed,component,Status.toJson,Json.record,Members.sorted,Members.insert,
    List.foldl_cons,List.foldl_nil,String.reduceLT,String.reduceEq,if_true,if_false]

end Records

section Equations
variable {r : Request} {clock : Timeline} {suspend : Answer} {c : Counter}

theorem handle_full (full : r.overflows = true) :
    r.handle clock suspend c = ⟨.crashed,c,[],[]⟩ := by
  simp only [handle,full,if_true]

theorem handle_error {why : Refusal} (fits : r.overflows = false)
    (plan : r.workload = .error why) :
    r.handle clock suspend c = ⟨.refused why,c,[r.received],[]⟩ := by
  simp only [handle,fits,plan,Bool.false_eq_true,if_false]

theorem handle_sleep_ok {ms : UInt64} (fits : r.overflows = false)
    (plan : r.workload = .ok (.sleep ms))
    (answer : suspend (.ofMillis ms.toNat) r.budget = .ok ()) :
    r.handle clock suspend c =
      ⟨.response (.of .success clock.total (sleepCheck ms)),c.next,
        [r.received,
          r.completed (.sleep ms) (.of .success clock.total (sleepCheck ms)) c.next.current],
        [(.ofMillis ms.toNat,r.budget)]⟩ := by
  simp only [handle,complete,fits,plan,answer,Bool.false_eq_true,if_false]

theorem handle_sleep_error {ms : UInt64} {i : Interruption} (fits : r.overflows = false)
    (plan : r.workload = .ok (.sleep ms))
    (answer : suspend (.ofMillis ms.toNat) r.budget = .error i) :
    r.handle clock suspend c =
      ⟨.response (.of .failure clock.total (sleepCheck ms)),c,
        [r.received,r.interrupted clock ms i,
          r.completed (.sleep ms) (.of .failure clock.total (sleepCheck ms)) c.current],
        [(.ofMillis ms.toNat,r.budget)]⟩ := by
  simp only [handle,complete,fits,plan,answer,Bool.false_eq_true,if_false]

theorem handle_compute {ram iterations : UInt64} (fits : r.overflows = false)
    (plan : r.workload = .ok (.compute ram iterations)) :
    r.handle clock suspend c =
      ⟨.response (.of .success clock.total (computationCheck ram iterations)),c.next,
        [r.received,
          r.completed (.compute ram iterations)
            (.of .success clock.total (computationCheck ram iterations)) c.next.current],
        []⟩ := by
  simp only [handle,complete,fits,plan,Bool.false_eq_true,if_false]

end Equations

/-- Handling a request takes one of the courses. -/
theorem handle_course (r : Request) (clock : Timeline) (suspend : Answer) (c : Counter) :
    r.Course clock suspend c (r.handle clock suspend c) := by
  cases hfull : r.overflows with
  | true =>
    rw [handle_full hfull]
    exact .crashed hfull
  | false =>
    cases hplan : r.workload with
    | error why =>
      rw [handle_error hfull hplan]
      exact .refused why hfull hplan
    | ok w =>
      cases w with
      | sleep ms =>
        cases hanswer : suspend (.ofMillis ms.toNat) r.budget with
        | ok u =>
          rw [handle_sleep_ok hfull hplan hanswer]
          exact .slept ms hfull hplan hanswer
        | error i =>
          rw [handle_sleep_error hfull hplan hanswer]
          exact .interrupted ms i hfull hplan hanswer
      | compute ram iterations =>
        rw [handle_compute hfull hplan]
        exact .computed ram iterations hfull hplan

/-- A course is determined by the suspender's answer to what it was asked: suspenders
that agree there leave the same behind. -/
theorem handle_congr_asked (r : Request) (clock : Timeline) (f g : Answer) (c : Counter)
    (agree : ∀ q ∈ (r.handle clock f c).asked, g q.1 q.2 = f q.1 q.2) :
    r.handle clock g c = r.handle clock f c := by
  cases hfull : r.overflows with
  | true => simp only [handle,hfull,if_true]
  | false =>
    cases hplan : r.workload with
    | error why => simp only [handle,hfull,hplan]
    | ok w =>
      cases w with
      | compute ram iterations => simp only [handle,hfull,hplan]
      | sleep ms =>
        have hasked : (r.handle clock f c).asked = [(.ofMillis ms.toNat,r.budget)] := by
          simp only [handle,hfull,hplan]
          cases f (.ofMillis ms.toNat) r.budget <;> rfl
        have hmem : (.ofMillis ms.toNat,r.budget) ∈ (r.handle clock f c).asked := by
          rw [hasked]
          exact List.mem_singleton_self _
        have hsame := agree _ hmem
        simp only [handle,hfull,hplan,hsame]

end Request
end GridWorker
