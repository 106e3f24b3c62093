import GridWorker.Proofs.ServedCalls

/-! # The lines of a call

Every call that does not crash writes one line on its arrival. If it is refused, that is
all; if it is answered, its last line is that of its completion, and a line on an
interruption stands between the two exactly when the answer is a failure. The log of a run
is made of the lines of its calls, in order, so that its lines count the answers.
-/
namespace GridWorker

def Json.IsWhole (v : Json) (i : Int) : Prop := ∃ w : Whole, v = .number (.whole w) ∧ w.val = i

theorem Json.isWhole_ofUInt64 (n : UInt64) : (Json.ofUInt64 n).IsWhole n.toNat :=
  ⟨.ofUInt64 n,rfl,rfl⟩

theorem Request.isWhole_millisJson {d : Duration} (fits : d.millis < UInt64.size) :
    (millisJson d).IsWhole d.millis := by
  have h := Json.isWhole_ofUInt64 (UInt64.ofNat d.millis)
  rwa [UInt64.toNat_ofNat_of_lt' fits] at h

/-- A call takes fewer milliseconds than 64 bits hold, and so does any part of it. -/
theorem Timeline.untilReport_fits (t : Timeline) : t.untilReport.millis < UInt64.size := by
  have hlate : t.reported ≤ t.finished := t.ordered.2.2.2
  have hfits : t.reported - t.started < UInt64.size * 1000000 :=
    Nat.lt_of_le_of_lt (Nat.sub_le_sub_right hlate t.started) t.fits
  exact Nat.div_lt_of_lt_mul (by rwa [Nat.mul_comm])

namespace LogRecord

/-- The line reports the arrival of a request: its budget in whole milliseconds, and its
event where events are logged. -/
def Arrival (line : LogRecord) (r : Request) : Prop :=
  ∃ budget, line = ⟨"worker_handler","invocation_received",.info,
      .object [("budget_ms",budget),("event",if r.logEvent then r.event else .null),
        ("request_id",.string r.requestId)]⟩ ∧
    match r.budget with
    | none => budget = .null
    | some b => budget.IsWhole (b.nanos / 1000000 : Nat)

/-- The error line reports that a sleep of so many milliseconds was interrupted, and why. -/
def Disturbance (line : LogRecord) (r : Request) (clock : Timeline) (ms : UInt64)
    (i : Interruption) : Prop :=
  ∃ elapsed requested, line = ⟨"worker_handler","invocation_interrupted",.error,
      .object [("elapsed_ms",elapsed),("reason",.string i.message),
        ("request_id",.string r.requestId),("requested_ms",requested)]⟩ ∧
    elapsed.IsWhole ((clock.reported - clock.started) / 1000000 : Nat) ∧
    requested.IsWhole ms.toNat

def Completion (line : LogRecord) (r : Request) (w : Workload) (response : Response)
    (count : UInt64) : Prop :=
  ∃ number, line = ⟨"worker_handler","invocation_completed",.info,
      .object [("compute_time_ms",.string response.computeTimeMs),("invocation_count",number),
        ("request_id",.string r.requestId),("result",.string response.result.name),
        ("workload",w.toJson)]⟩ ∧
    number.IsWhole count.toNat

variable {line : LogRecord} {r : Request}

theorem Arrival.event_eq (h : line.Arrival r) : line.event = "invocation_received" := by
  obtain ⟨budget,rfl,-⟩ := h
  rfl

theorem Arrival.requestId_eq (h : line.Arrival r) :
    line.detail? "request_id" = some (.string r.requestId) := by
  obtain ⟨budget,rfl,-⟩ := h
  simp [detail?,Members.lookup_cons]

theorem Disturbance.event_eq {clock : Timeline} {ms : UInt64} {i : Interruption}
    (h : line.Disturbance r clock ms i) : line.event = "invocation_interrupted" := by
  obtain ⟨elapsed,requested,rfl,-,-⟩ := h
  rfl

theorem Disturbance.requestId_eq {clock : Timeline} {ms : UInt64} {i : Interruption}
    (h : line.Disturbance r clock ms i) :
    line.detail? "request_id" = some (.string r.requestId) := by
  obtain ⟨elapsed,requested,rfl,-,-⟩ := h
  simp [detail?,Members.lookup_cons]

theorem Completion.event_eq {w : Workload} {response : Response} {count : UInt64}
    (h : line.Completion r w response count) : line.event = "invocation_completed" := by
  obtain ⟨number,rfl,-⟩ := h
  rfl

theorem Completion.requestId_eq {w : Workload} {response : Response} {count : UInt64}
    (h : line.Completion r w response count) :
    line.detail? "request_id" = some (.string r.requestId) := by
  obtain ⟨number,rfl,-⟩ := h
  simp [detail?,Members.lookup_cons]

end LogRecord

def Outcome.answered : Outcome → Bool
  | .response _ => true
  | _ => false

def Outcome.failed : Outcome → Bool
  | .response r => r.result = .failure
  | _ => false

namespace Request

/-- The lines that a call writes, by its outcome and the count after it. -/
inductive Lines (r : Request) (clock : Timeline) (suspend : Answer) (count : UInt64) :
    Outcome → List LogRecord → Prop
  | crashed : Lines r clock suspend count .crashed []
  | refused {why : Refusal} {first : LogRecord} (arrival : first.Arrival r) :
      Lines r clock suspend count (.refused why) [first]
  | succeeded {response : Response} {e : Event} {w : Workload} {first last : LogRecord}
      (result : response.result = .success) (event : Event.accept r.event = .ok e)
      (plan : e.plan = .ok w) (arrival : first.Arrival r)
      (completion : last.Completion r w response count) :
      Lines r clock suspend count (.response response) [first,last]
  | failed {response : Response} {e : Event} {ms : UInt64} {i : Interruption}
      {first middle last : LogRecord}
      (result : response.result = .failure) (event : Event.accept r.event = .ok e)
      (plan : e.plan = .ok (.sleep ms))
      (answer : suspend (.ofMillis ms.toNat) r.budget = .error i) (arrival : first.Arrival r)
      (disturbance : middle.Disturbance r clock ms i)
      (completion : last.Completion r (.sleep ms) response count) :
      Lines r clock suspend count (.response response) [first,middle,last]

theorem received_arrival {r : Request} (fits : r.overflows = false) : r.received.Arrival r := by
  refine ⟨.ofOption millisJson r.budget,r.received_eq,?_⟩
  cases hb : r.budget with
  | none => rfl
  | some b =>
    have hmillis : b.millis < UInt64.size := by simpa [overflows,hb] using fits
    exact isWhole_millisJson hmillis

theorem interrupted_disturbance (r : Request) (clock : Timeline) (ms : UInt64)
    (i : Interruption) : (r.interrupted clock ms i).Disturbance r clock ms i :=
  ⟨millisJson clock.untilReport,.ofUInt64 ms,r.interrupted_eq clock ms i,
    isWhole_millisJson clock.untilReport_fits,Json.isWhole_ofUInt64 ms⟩

theorem completed_completion (r : Request) (w : Workload) (response : Response)
    (count : UInt64) : (r.completed w response count).Completion r w response count :=
  ⟨.ofUInt64 count,r.completed_eq w response count,Json.isWhole_ofUInt64 count⟩

theorem workload_ok {r : Request} {w : Workload} (h : r.workload = .ok w) :
    ∃ e, Event.accept r.event = .ok e ∧ e.plan = .ok w := by
  unfold workload at h
  split at h
  · cases h
  · rename_i e he
    split at h
    · cases h
    · rename_i w' hw
      obtain rfl := Except.ok.inj h
      exact ⟨e,he,hw⟩

section Courses
variable {r : Request} {clock : Timeline} {suspend : Answer} {c : Counter} {h : Handled}

theorem Course.lines (course : r.Course clock suspend c h) :
    r.Lines clock suspend h.counter.current h.outcome h.records := by
  cases course with
  | crashed => exact .crashed
  | refused why fits => exact .refused (received_arrival fits)
  | slept ms fits plan =>
    obtain ⟨e,he,hw⟩ := workload_ok plan
    exact .succeeded rfl he hw (received_arrival fits) (completed_completion ..)
  | interrupted ms i fits plan answer =>
    obtain ⟨e,he,hw⟩ := workload_ok plan
    exact .failed rfl he hw answer (received_arrival fits) (interrupted_disturbance ..)
      (completed_completion ..)
  | computed ram iterations fits plan =>
    obtain ⟨e,he,hw⟩ := workload_ok plan
    exact .succeeded rfl he hw (received_arrival fits) (completed_completion ..)

end Courses

section Written
variable {r : Request} {clock : Timeline} {suspend : Answer} {count : UInt64}
variable {o : Outcome} {lines : List LogRecord}

/-- Every line of a call carries the id of its request. -/
theorem Lines.requestId (h : r.Lines clock suspend count o lines) {line : LogRecord}
    (hm : line ∈ lines) : line.detail? "request_id" = some (.string r.requestId) := by
  cases h with
  | crashed => cases hm
  | refused arrival =>
    rw [List.mem_singleton.mp hm]
    exact arrival.requestId_eq
  | succeeded _ _ _ arrival completion =>
    simp only [List.mem_cons,List.not_mem_nil,or_false] at hm
    rcases hm with rfl | rfl
    · exact arrival.requestId_eq
    · exact completion.requestId_eq
  | failed _ _ _ _ arrival disturbance completion =>
    simp only [List.mem_cons,List.not_mem_nil,or_false] at hm
    rcases hm with rfl | rfl | rfl
    · exact arrival.requestId_eq
    · exact disturbance.requestId_eq
    · exact completion.requestId_eq

theorem Lines.countP_completed (h : r.Lines clock suspend count o lines) :
    lines.countP (fun line => line.event = "invocation_completed") = o.answered.toNat := by
  cases h with
  | crashed => rfl
  | refused arrival => simp [arrival.event_eq,Outcome.answered]
  | succeeded _ _ _ arrival completion =>
    simp [arrival.event_eq,completion.event_eq,Outcome.answered]
  | failed _ _ _ _ arrival disturbance completion =>
    simp [arrival.event_eq,disturbance.event_eq,completion.event_eq,
      Outcome.answered]

theorem Lines.countP_interrupted (h : r.Lines clock suspend count o lines) :
    lines.countP (fun line => line.event = "invocation_interrupted") = o.failed.toNat := by
  cases h with
  | crashed => rfl
  | refused arrival => simp [arrival.event_eq,Outcome.failed]
  | succeeded result _ _ arrival completion =>
    simp [arrival.event_eq,completion.event_eq,Outcome.failed,result]
  | failed result _ _ _ arrival disturbance completion =>
    simp [arrival.event_eq,disturbance.event_eq,completion.event_eq,
      Outcome.failed,result]

end Written
end Request

def Counter.logged (c : Counter) (log : List LogRecord) : List Handling → List LogRecord
  | [] => log
  | x :: rest => (x.on c).counter.logged (log ++ (x.on c).records) rest

theorem Counter.logged_eq (c : Counter) (log : List LogRecord) (calls : List Handling) :
    c.logged log calls = log ++ (c.serve calls).1.flatMap Handled.records := by
  induction calls generalizing c log with
  | nil => exact (List.append_nil log).symm
  | cons x rest ih => simp only [logged,serve,ih,List.flatMap_cons,List.append_assoc]

theorem Counter.serve_lines {c : Counter} {calls : List Handling} {n : Nat} {h : Handled}
    (he : (c.serve calls).1[n]? = some h) : ∃ x, calls[n]? = some x ∧
      x.request.Lines x.clock x.suspend (c.serve (calls.take (n + 1))).2.current h.outcome
        h.records := by
  obtain ⟨x,hx,rfl,hafter⟩ := serve_getElem? he
  rw [hafter]
  exact ⟨x,hx,(x.request.handle_course x.clock x.suspend _).lines⟩

/-- Lines of a kind that calls of a kind write once, and others never, are as many as those
calls. -/
theorem Handled.countP_flatMap_records {hs : List Handled} {kind : LogRecord → Bool}
    {calls : Handled → Bool} (each : ∀ h ∈ hs, h.records.countP kind = (calls h).toNat) :
    (hs.flatMap Handled.records).countP kind = hs.countP calls := by
  induction hs with
  | nil => rfl
  | cons h rest ih =>
    have hhead := each h List.mem_cons_self
    have hrest := ih fun h' hm => each h' (List.mem_cons_of_mem _ hm)
    rw [List.flatMap_cons,List.countP_append,List.countP_cons,hhead,hrest]
    cases calls h <;> simp [Nat.add_comm]

/-- Every call of a run writes the lines of its outcome, with its own id, request, workload
and response, and with the count that it leaves; the log of the run is made of these lines
in order. There is a line of completion for every response, and a line on an interruption
for every failure. -/
theorem log_tells_every_call (c : Counter) (calls : List Handling) :
    let handled : List Handled := (c.serve calls).1
    let log : List LogRecord := c.logged [] calls
    (∀ (n : Nat) (h : Handled), handled[n]? = some h → ∃ x, calls[n]? = some x ∧
      x.request.Lines x.clock x.suspend (c.serve (calls.take (n + 1))).2.current h.outcome
        h.records ∧
      ∀ line ∈ h.records, line.detail? "request_id" = some (.string x.request.requestId)) ∧
    log = handled.flatMap Handled.records ∧
    log.countP (fun line => line.event = "invocation_completed") =
      handled.countP (fun h => h.outcome.answered) ∧
    log.countP (fun line => line.event = "invocation_interrupted") =
      handled.countP (fun h => h.outcome.failed) := by
  intro handled log
  have hlog : log = handled.flatMap Handled.records := c.logged_eq [] calls
  have hlines : ∀ h ∈ handled, ∃ (x : Handling) (count : UInt64),
      x.request.Lines x.clock x.suspend count h.outcome h.records := by
    intro h hm
    obtain ⟨n,hn⟩ := List.mem_iff_getElem?.mp hm
    obtain ⟨x,-,hx⟩ := Counter.serve_lines hn
    exact ⟨x,_,hx⟩
  refine ⟨?_,hlog,?_,?_⟩
  · intro n h hn
    obtain ⟨x,hx,hwritten⟩ := Counter.serve_lines hn
    exact ⟨x,hx,hwritten,fun line hm => hwritten.requestId hm⟩
  · rw [hlog]
    apply Handled.countP_flatMap_records
    intro h hm
    obtain ⟨x,count,hx⟩ := hlines h hm
    exact hx.countP_completed
  · rw [hlog]
    apply Handled.countP_flatMap_records
    intro h hm
    obtain ⟨x,count,hx⟩ := hlines h hm
    exact hx.countP_interrupted

end GridWorker
