import GridWorker.Proofs.ServedCalls

/-! # The count of successes

A call moves the counter on by one if it reports a success and leaves it alone
otherwise, and its last record carries the count that it leaves. Over a sequence of
calls the counter is therefore the number of successes, modulo `2 ^ 64`, at every
moment between two calls. Nothing is assumed of the suspenders.
-/
namespace GridWorker

namespace Request
variable {r : Request} {clock : Timeline} {suspend : Answer} {c : Counter} {h : Handled}

/-- Exactly the successes are counted. -/
theorem Course.counter_eq (course : r.Course clock suspend c h) :
    h.counter = if h.succeeded then c.next else c := by
  cases course <;> rfl

theorem detail?_completed_count (r : Request) (w : Workload) (response : Response)
    (count : UInt64) :
    (r.completed w response count).detail? "invocation_count" = some (.ofUInt64 count) := by
  rw [completed,LogRecord.detail?_record]
  simp

/-- Every record of completion carries the count that the call leaves. -/
theorem Course.completed_count (course : r.Course clock suspend c h) {record : LogRecord}
    (hm : record ∈ h.records) (he : record.event = "invocation_completed") :
    record.detail? "invocation_count" = some (.ofUInt64 h.counter.current) := by
  have hreceived : r.received.event ≠ "invocation_completed" := by simp [received]
  cases course with
  | crashed => cases hm
  | refused why =>
    rw [List.mem_singleton.mp hm] at he
    exact absurd he hreceived
  | slept ms =>
    simp only [List.mem_cons,List.not_mem_nil,or_false] at hm
    rcases hm with rfl | rfl
    · exact absurd he hreceived
    · exact detail?_completed_count ..
  | interrupted ms i =>
    simp only [List.mem_cons,List.not_mem_nil,or_false] at hm
    rcases hm with rfl | rfl | rfl
    · exact absurd he hreceived
    · simp [Request.interrupted] at he
    · exact detail?_completed_count ..
  | computed ram iterations =>
    simp only [List.mem_cons,List.not_mem_nil,or_false] at hm
    rcases hm with rfl | rfl
    · exact absurd he hreceived
    · exact detail?_completed_count ..

/-- A response never goes without its record. -/
theorem Course.exists_completed (course : r.Course clock suspend c h) {response : Response}
    (ho : h.outcome = .response response) :
    ∃ record ∈ h.records, record.event = "invocation_completed" := by
  cases course with
  | crashed => cases ho
  | refused why => cases ho
  | slept ms => exact ⟨_,List.mem_cons_of_mem _ (List.mem_singleton_self _),rfl⟩
  | interrupted ms i =>
    exact ⟨_,List.mem_cons_of_mem _ (List.mem_cons_of_mem _ (List.mem_singleton_self _)),rfl⟩
  | computed ram iterations => exact ⟨_,List.mem_cons_of_mem _ (List.mem_singleton_self _),rfl⟩

end Request

theorem Handling.on_course (x : Handling) (c : Counter) :
    x.request.Course x.clock x.suspend c (x.on c) := x.request.handle_course x.clock x.suspend c

theorem Counter.next_current_toNat (c : Counter) :
    c.next.current.toNat = (c.current.toNat + 1) % UInt64.size := UInt64.toNat_add ..

/-- After all calls the counter has moved on by the number of successes. -/
theorem Counter.serve_current_toNat (c : Counter) (calls : List Handling) :
    (c.serve calls).2.current.toNat =
      (c.current.toNat + (c.serve calls).1.countP Handled.succeeded) % UInt64.size := by
  induction calls generalizing c with
  | nil => exact (Nat.mod_eq_of_lt c.current.toNat_lt).symm
  | cons x rest ih =>
    have hcounter := (x.on_course c).counter_eq
    simp only [serve,ih,List.countP_cons]
    cases hs : (x.on c).succeeded with
    | false => simp only [hcounter,hs,Bool.false_eq_true,if_false,Nat.add_zero]
    | true =>
      simp only [hcounter,hs,if_true,Counter.next_current_toNat,Nat.mod_add_mod]
      congr 1
      omega

/-- The counter counts the successes: at every moment of a sequence of calls, whatever
answers for their sleeps, and of a session on one sleeper. -/
theorem counter_counts_successes (c : Counter) (calls : List Handling) :
    (∀ n, (c.serve (calls.take n)).2.current.toNat =
      (c.current.toNat + ((c.serve calls).1.take n).countP Handled.succeeded) % UInt64.size) ∧
    (∀ n h, (c.serve calls).1[n]? = some h →
      ((h.outcome = .crashed ∨ (∃ why, h.outcome = .refused why) ∨
          ∃ r, h.outcome = .response r ∧ r.result = .failure) →
        (c.serve (calls.take (n + 1))).2 = (c.serve (calls.take n)).2) ∧
      (∀ r, h.outcome = .response r →
        ∃ record ∈ h.records, record.event = "invocation_completed") ∧
      ∀ record ∈ h.records, record.event = "invocation_completed" →
        record.detail? "invocation_count" =
          some (.ofUInt64 (c.serve (calls.take (n + 1))).2.current)) ∧
    ∀ (s : Shared) (session : List Call) (n : Nat),
      (s.session (session.take n)).2.counter.current.toNat =
        (s.counter.current.toNat + ((s.session session).1.take n).countP Handled.succeeded) %
          UInt64.size := by
  refine ⟨?_,?_,?_⟩
  · intro n
    rw [Counter.serve_current_toNat,Counter.serve_take]
  · intro n h he
    obtain ⟨x,hx,rfl,hafter⟩ := Counter.serve_getElem? he
    have hcourse := x.on_course (c.serve (calls.take n)).2
    rw [hafter]
    refine ⟨?_,?_,?_⟩
    · intro hfail
      have hs : (x.on (c.serve (calls.take n)).2).succeeded = false := by
        rcases hfail with ho | ⟨why,ho⟩ | ⟨r,ho,hr⟩
        · simp only [Handled.succeeded,Outcome.succeeded,ho]
        · simp only [Handled.succeeded,Outcome.succeeded,ho]
        · simp [Handled.succeeded,Outcome.succeeded,ho,hr]
      rw [hcourse.counter_eq,hs]
      rfl
    · intro r ho
      exact hcourse.exists_completed ho
    · intro record hm hr
      exact hcourse.completed_count hm hr
  · intro s session n
    rw [(s.session_eq_serve (session.take n)).2,s.handlings_take,Counter.serve_current_toNat,
      Counter.serve_take,← (s.session_eq_serve session).1]

end GridWorker
