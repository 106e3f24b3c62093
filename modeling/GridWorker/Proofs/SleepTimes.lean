import GridWorker.Proofs.DeadlineLaw
import GridWorker.Proofs.LoggedCalls

/-! # The time that a sleep takes

Whole milliseconds are cut off at every reading of the clock, and in the budget. Cutting off keeps
the order of durations, so a sleep that was waited for is answered with no fewer milliseconds than
it was waited for, and with no fewer than an interruption was logged with. The readings may be any
distance apart: only the line of an interruption needs its milliseconds in 64 bits, and a request
that cannot write it crashes.
-/
namespace GridWorker

theorem Duration.millis_mono {a b : Duration} (h : a ≤ b) : a.millis ≤ b.millis :=
  Nat.div_le_div_right h

/-- The readings of a timeline, however far apart. -/
structure Readings where
  started : Nat
  suspended : Nat
  woken : Nat
  reported : Nat
  finished : Nat
  ordered : started ≤ suspended ∧ suspended ≤ woken ∧ woken ≤ reported ∧ reported ≤ finished

def Timeline.readings (t : Timeline) : Readings :=
  ⟨t.started,t.suspended,t.woken,t.reported,t.finished,t.ordered⟩

namespace Readings
variable (x : Readings)

def rested : Duration := ⟨x.woken - x.suspended⟩

def untilReport : Duration := ⟨x.reported - x.started⟩

def total : Duration := ⟨x.finished - x.started⟩

theorem rested_le_total : x.rested ≤ x.total := by
  obtain ⟨hsuspended,hwoken,hreported,hfinished⟩ := x.ordered
  change x.woken - x.suspended ≤ x.finished - x.started
  omega

theorem untilReport_le_total : x.untilReport ≤ x.total :=
  Nat.sub_le_sub_right x.ordered.2.2.2 x.started

theorem millis_le_total {d : Duration} (h : d ≤ x.rested) : d.millis ≤ x.total.millis :=
  Duration.millis_mono (Nat.le_trans h x.rested_le_total)

/-- The readings up to the line of an interruption, if that line can be written. -/
def report (short : x.untilReport.millis < UInt64.size) : Timeline where
  started := x.started
  suspended := x.suspended
  woken := x.woken
  reported := x.reported
  finished := x.reported
  ordered := ⟨x.ordered.1,x.ordered.2.1,x.ordered.2.2.1,Nat.le_refl x.reported⟩
  fits := (Nat.div_lt_iff_lt_mul (by decide)).mp short

end Readings

namespace Request
variable (r : Request) (x : Readings) (suspend : Answer) (c : Counter)

def handleOn : Handled :=
  if r.overflows then ⟨.crashed,c,[],[]⟩
  else match r.workload with
  | .error why => ⟨.refused why,c,[r.received],[]⟩
  | .ok (.sleep ms) =>
    let asked := [(.ofMillis ms.toNat,r.budget)]
    match suspend (.ofMillis ms.toNat) r.budget with
    | .ok () =>
      let response := Response.of .success x.total (sleepCheck ms)
      ⟨.response response,c.next,
        [r.received,r.completed (.sleep ms) response c.next.current],asked⟩
    | .error i =>
      if short : x.untilReport.millis < UInt64.size then
        let response := Response.of .failure x.total (sleepCheck ms)
        ⟨.response response,c,[r.received,r.interrupted (x.report short) ms i,
          r.completed (.sleep ms) response c.current],asked⟩
      else ⟨.crashed,c,[r.received],asked⟩
  | .ok (.compute ram iterations) =>
    let response := Response.of .success x.total (computationCheck ram iterations)
    ⟨.response response,c.next,
      [r.received,r.completed (.compute ram iterations) response c.next.current],[]⟩

section Sleep
variable {r x suspend c} {ms : UInt64}

theorem handleOn_sleep_ok (fits : r.overflows = false) (plan : r.workload = .ok (.sleep ms))
    (answer : suspend (.ofMillis ms.toNat) r.budget = .ok ()) :
    r.handleOn x suspend c = ⟨.response (.of .success x.total (sleepCheck ms)),c.next,
      [r.received,
        r.completed (.sleep ms) (.of .success x.total (sleepCheck ms)) c.next.current],
      [(.ofMillis ms.toNat,r.budget)]⟩ := by
  simp only [handleOn,fits,plan,answer,Bool.false_eq_true,if_false]

theorem handleOn_sleep_error {i : Interruption} (fits : r.overflows = false)
    (plan : r.workload = .ok (.sleep ms))
    (answer : suspend (.ofMillis ms.toNat) r.budget = .error i)
    (short : x.untilReport.millis < UInt64.size) :
    r.handleOn x suspend c = ⟨.response (.of .failure x.total (sleepCheck ms)),c,
      [r.received,r.interrupted (x.report short) ms i,
        r.completed (.sleep ms) (.of .failure x.total (sleepCheck ms)) c.current],
      [(.ofMillis ms.toNat,r.budget)]⟩ := by
  simp only [handleOn,fits,plan,answer,short,Bool.false_eq_true,if_false,dif_pos]

/-- On a timeline this is how requests are handled. -/
theorem handleOn_readings (r : Request) (t : Timeline) (suspend : Answer) (c : Counter) :
    r.handleOn t.readings suspend c = r.handle t suspend c := by
  cases hfull : r.overflows with
  | true =>
    rw [handle_full hfull]
    simp only [handleOn,hfull,if_true]
  | false =>
    cases hplan : r.workload with
    | error why =>
      rw [handle_error hfull hplan]
      simp only [handleOn,hfull,hplan,Bool.false_eq_true,if_false]
    | ok w =>
      cases w with
      | sleep ms =>
        cases hanswer : suspend (.ofMillis ms.toNat) r.budget with
        | ok u =>
          rw [handle_sleep_ok hfull hplan hanswer,handleOn_sleep_ok hfull hplan hanswer]
          rfl
        | error i =>
          have hshort : t.readings.untilReport.millis < UInt64.size := t.untilReport_fits
          rw [handle_sleep_error hfull hplan hanswer,
            handleOn_sleep_error hfull hplan hanswer hshort]
          rfl
      | compute ram iterations =>
        rw [handle_compute hfull hplan]
        simp only [handleOn,hfull,hplan,Bool.false_eq_true,if_false]
        rfl

/-- A sleep is answered after its time, or after an interruption that is logged. -/
theorem answered_sleep_cases {response : Response} (plan : r.workload = .ok (.sleep ms))
    (answered : (r.handleOn x suspend c).outcome = .response response) :
    (suspend (.ofMillis ms.toNat) r.budget = .ok () ∧
      response = .of .success x.total (sleepCheck ms) ∧
      (r.handleOn x suspend c).records =
        [r.received,r.completed (.sleep ms) response c.next.current]) ∨
    ∃ (i : Interruption) (short : x.untilReport.millis < UInt64.size),
      suspend (.ofMillis ms.toNat) r.budget = .error i ∧
      response = .of .failure x.total (sleepCheck ms) ∧
      (r.handleOn x suspend c).records = [r.received,r.interrupted (x.report short) ms i,
        r.completed (.sleep ms) response c.current] := by
  cases hfull : r.overflows with
  | true => simp [handleOn,hfull] at answered
  | false =>
    cases hanswer : suspend (.ofMillis ms.toNat) r.budget with
    | ok u =>
      rw [handleOn_sleep_ok hfull plan hanswer] at answered ⊢
      obtain rfl := Outcome.response.inj answered
      exact Or.inl ⟨rfl,rfl,rfl⟩
    | error i =>
      by_cases hshort : x.untilReport.millis < UInt64.size
      · rw [handleOn_sleep_error hfull plan hanswer hshort] at answered ⊢
        obtain rfl := Outcome.response.inj answered
        exact Or.inr ⟨i,hshort,rfl,rfl,rfl⟩
      · simp [handleOn,hfull,plan,hanswer,hshort] at answered

section Answered
variable {response : Response} (plan : r.workload = .ok (.sleep ms))
variable (answered : (r.handleOn x suspend c).outcome = .response response)
include plan answered

theorem answered_time : response.computeTimeMs = x.total.millis.repr := by
  rcases answered_sleep_cases plan answered with ⟨-,rfl,-⟩ | ⟨i,hshort,-,rfl,-⟩ <;> rfl

theorem answered_success (success : response.result = .success) :
    suspend (.ofMillis ms.toNat) r.budget = .ok () := by
  rcases answered_sleep_cases plan answered with ⟨hok,-,-⟩ | ⟨i,hshort,-,rfl,-⟩
  · exact hok
  · cases success

theorem answered_error {i : Interruption}
    (error : suspend (.ofMillis ms.toNat) r.budget = .error i) :
    response.result = .failure ∧ ∃ short,
      r.interrupted (x.report short) ms i ∈ (r.handleOn x suspend c).records := by
  rcases answered_sleep_cases plan answered with ⟨hok,-,-⟩ | ⟨i',hshort,hi,rfl,hrecords⟩
  · cases hok.symm.trans error
  · cases hi.symm.trans error
    refine ⟨rfl,hshort,?_⟩
    rw [hrecords]
    exact List.mem_cons_of_mem _ List.mem_cons_self

/-- No other line has the name of an interruption. -/
theorem answered_line {record : LogRecord} (mem : record ∈ (r.handleOn x suspend c).records)
    (event : record.event = "invocation_interrupted") :
    ∃ i short, record = r.interrupted (x.report short) ms i := by
  have hreceived : r.received.event ≠ "invocation_interrupted" := by simp [received]
  have hcompleted : ∀ count, (r.completed (.sleep ms) response count).event ≠
      "invocation_interrupted" := fun count => by simp [completed]
  rcases answered_sleep_cases plan answered with ⟨-,-,hrecords⟩ | ⟨i,hshort,-,-,hrecords⟩
  · simp only [hrecords,List.mem_cons,List.not_mem_nil,or_false] at mem
    rcases mem with rfl | rfl
    · exact absurd event hreceived
    · exact absurd event (hcompleted _)
  · simp only [hrecords,List.mem_cons,List.not_mem_nil,or_false] at mem
    rcases mem with rfl | rfl | rfl
    · exact absurd event hreceived
    · exact ⟨i,hshort,rfl⟩
    · exact absurd event (hcompleted _)

end Answered
end Sleep

theorem detail?_interrupted_elapsed (r : Request) (clock : Timeline) (ms : UInt64)
    (i : Interruption) : (r.interrupted clock ms i).detail? "elapsed_ms" =
      some (.ofUInt64 (UInt64.ofNat clock.untilReport.millis)) := by
  rw [interrupted,LogRecord.detail?_record]
  simp [millisJson,Members.lookup_cons]

end Request

namespace Sleeper
variable {s t : Sleeper} {duration rested : Duration} {budget : Option Duration}

/-- A suspension that ends is signalled, or it has rested for its duration or for its budget. -/
theorem ended_cases (ended : (s.suspend duration budget).mayEnd t rested = true) :
    (s.suspend duration budget).outcome t = .error .signalled ∨
    (s.suspend duration budget).outcome t = .ok () ∧ duration ≤ rested ∨
    ∃ b, budget = some b ∧ b < duration ∧
      (s.suspend duration budget).outcome t = .error (.budgetExhausted b) ∧ b ≤ rested := by
  by_cases hsame : t.generation = s.generation
  · -- Nobody signalled, so it ended with its wait, which is the budget only where that is shorter.
    have hwait : waitFor duration budget ≤ rested := by
      simpa [Suspension.mayEnd,suspend,hsame] using ended
    by_cases hless : ∃ b, budget = some b ∧ b < duration
    · obtain ⟨b,rfl,hlt⟩ := hless
      rw [waitFor_of_lt hlt] at hwait
      exact Or.inr (Or.inr ⟨b,rfl,hlt,outcome_of_short hsame hlt,hwait⟩)
    · have hlong : ∀ b, budget = some b → ¬ b < duration :=
        fun b hb hlt => hless ⟨b,hb,hlt⟩
      rw [waitFor_of_not_lt hlong] at hwait
      exact Or.inr (Or.inl ⟨outcome_of_long hsame hlong,hwait⟩)
  · exact Or.inl (outcome_of_changed budget hsame)

theorem duration_le_of_ok (ended : (s.suspend duration budget).mayEnd t rested = true)
    (ok : (s.suspend duration budget).outcome t = .ok ()) : duration ≤ rested := by
  rcases ended_cases ended with hsignal | ⟨-,hrested⟩ | ⟨b,-,-,hexhausted,-⟩
  · cases ok.symm.trans hsignal
  · exact hrested
  · cases ok.symm.trans hexhausted

theorem budget_le_of_exhausted {b : Duration}
    (ended : (s.suspend duration budget).mayEnd t rested = true)
    (exhausted : (s.suspend duration budget).outcome t = .error (.budgetExhausted b)) :
    b ≤ rested ∧ ∃ budget', budget = some budget' ∧ b = min budget' duration := by
  rcases ended_cases ended with hsignal | ⟨hok,-⟩ | ⟨b',rfl,hlt,hexhausted,hrested⟩
  · cases exhausted.symm.trans hsignal
  · cases exhausted.symm.trans hok
  · cases exhausted.symm.trans hexhausted
    exact ⟨hrested,b,rfl,(if_pos (Nat.le_of_lt hlt)).symm⟩

/-- A suspension never waits longer than its duration. -/
theorem waitFor_le (duration : Duration) (budget : Option Duration) :
    waitFor duration budget ≤ duration := by
  by_cases hshort : ∃ b, budget = some b ∧ b < duration
  · obtain ⟨b,rfl,hlt⟩ := hshort
    rw [waitFor_of_lt hlt]
    exact Nat.le_of_lt hlt
  · rw [waitFor_of_not_lt fun b hb hlt => hshort ⟨b,hb,hlt⟩]
    exact Nat.le_refl duration.nanos

end Sleeper

open Sleeper in
/-- A suspension takes the time that its outcome promises. -/
theorem Nap.take_waited (s : Sleeper) (duration : Duration) (budget interrupt : Option Duration) :
    (take s duration budget interrupt).waited = true := by
  have hrested (later : Sleeper) : Nap.waited ⟨s.suspend duration budget,
      (s.suspend duration budget).outcome s,(s.suspend duration budget).wait,later⟩ = true := by
    have hwait : (s.suspend duration budget).wait ≤ (s.suspend duration budget).wait :=
      Nat.le_refl _
    rw [waited]
    split
    · next hsignalled =>
      dsimp only [Suspension.outcome,suspend] at hsignalled
      rw [if_neg (not_not_intro rfl)] at hsignalled
      split at hsignalled <;> cases hsignalled
    · exact decide_eq_true hwait
  cases interrupt with
  | none => exact hrested s
  | some t =>
    unfold take
    dsimp only
    split
    · next hearly =>
      have hchanged : s.interrupt.generation ≠ s.generation :=
        (generation_add_ne_iff s.generation 1).mpr (by decide)
      have hshort : t < duration := Nat.lt_of_lt_of_le hearly (waitFor_le duration budget)
      rw [waited,outcome_of_changed budget hchanged]
      exact decide_eq_true hshort
    · exact hrested s.interrupt

/-- A response took at least as long as every duration with no more whole milliseconds. -/
theorem Response.of_tookAtLeast (result : Status) (time d : Duration) (check : String) :
    (Response.of result time check).tookAtLeast d = decide (d.millis ≤ time.millis) := by
  have hread := (Numeral.digits_toDigits time.millis).read
  rw [Numeral.value_toDigits] at hread
  rw [tookAtLeast,of,Nat.toList_repr,hread]

open Request

/-- The time in the answer to a sleep is that from its start to the answer, in whole milliseconds.
A sleep that succeeded took its duration; one that exhausted its budget took the milliseconds that
are named as the reason, those of its budget or its duration, whichever is shorter; and a line on
an interruption names no more milliseconds than the answer. Nothing is asked of the clock but
that it is steady, and of the suspension that it does not end before its time unless it is
interrupted. -/
theorem sleep_times_add_up (r : Request) (x : Readings) (s t : Sleeper) (c : Counter)
    (ms : UInt64) (planned : r.workload = .ok (.sleep ms))
    (ended : (s.suspend (.ofMillis ms.toNat) r.budget).mayEnd t x.rested = true) :
    let suspend : Answer := fun duration budget => (s.suspend duration budget).outcome t
    let h := r.handleOn x suspend c
    let answer := suspend (.ofMillis ms.toNat) r.budget
    let elapsed := (x.finished - x.started) / 1000000
    (∀ clock : Timeline, clock.readings = x → r.handle clock suspend c = h) ∧
    ((∀ b, r.budget = some b → b.millis < UInt64.size) →
      (answer = .ok () ∨ (x.reported - x.started) / 1000000 < UInt64.size) →
      ∃ response, h.outcome = .response response) ∧
    (∀ response, h.outcome = .response response →
      response.computeTimeMs = elapsed.repr ∧
      (response.result = .success → ms.toNat ≤ elapsed) ∧
      (∀ b, answer = .error (.budgetExhausted b) → response.result = .failure ∧
        (∃ budget, r.budget = some budget ∧ b = min budget (.ofMillis ms.toNat)) ∧
        b.millis ≤ elapsed ∧
        ∃ record ∈ h.records, record.event = "invocation_interrupted" ∧
          record.detail? "reason" = some (.string ("invocation budget of " ++ b.millis.repr ++
            "ms exhausted before the requested duration"))) ∧
      ∀ record ∈ h.records, record.event = "invocation_interrupted" →
        ∃ logged : UInt64, record.detail? "elapsed_ms" = some (.ofUInt64 logged) ∧
          logged.toNat = (x.reported - x.started) / 1000000 ∧ logged.toNat ≤ elapsed) := by
  intro suspend h answer elapsed
  refine ⟨?_,?_,?_⟩
  · rintro clock rfl
    exact (r.handleOn_readings clock suspend c).symm
  · intro budgetFits hloggable
    have hfits := overflows_of_budget budgetFits
    cases hanswer : answer with
    | ok u => exact ⟨_,congrArg Handled.outcome (handleOn_sleep_ok hfits planned hanswer)⟩
    | error i =>
      have hshort : x.untilReport.millis < UInt64.size :=
        hloggable.resolve_left (fun hok => nomatch hok.symm.trans hanswer)
      exact ⟨_,congrArg Handled.outcome (handleOn_sleep_error hfits planned hanswer hshort)⟩
  · intro response answered
    refine ⟨answered_time planned answered,?_,?_,?_⟩
    · intro success
      have hok := answered_success planned answered success
      have hslept := x.millis_le_total (Sleeper.duration_le_of_ok ended hok)
      rwa [Duration.millis_ofMillis] at hslept
    · intro b hb
      obtain ⟨hfailure,hshort,hmem⟩ := answered_error planned answered hb
      obtain ⟨hrested,hleast⟩ := Sleeper.budget_le_of_exhausted ended hb
      refine ⟨hfailure,hleast,x.millis_le_total hrested,_,hmem,rfl,?_⟩
      rw [detail?_interrupted_reason,Interruption.message_budgetExhausted]
    · intro record hmem hevent
      obtain ⟨i,hshort,rfl⟩ := answered_line planned answered hmem hevent
      have hlogged : (UInt64.ofNat x.untilReport.millis).toNat = x.untilReport.millis :=
        UInt64.toNat_ofNat_of_lt' hshort
      refine ⟨_,detail?_interrupted_elapsed ..,hlogged,?_⟩
      exact (Nat.le_of_eq hlogged).trans (Duration.millis_mono x.untilReport_le_total)

/-- A budget that is a nanosecond too short for a sleep, and a sleep that is answered after more
milliseconds than 64 bits hold. -/
theorem exhausted_budget_is_named_in_millis :
    let r : Option Duration → Request := fun budget =>
      ⟨.object [("worker_arguments",.array [.ofInt64 7])],"a",budget,true⟩
    let late : Readings := ⟨500000,999999,7999998,8000000,8999999,by decide⟩
    let long : Readings := ⟨1,2,7000002,7000002,0xf42400000000000000001,by decide⟩
    let h := (r (some ⟨6999999⟩)).handleOn late
      (fun duration budget => (Sleeper.fresh.suspend duration budget).outcome .fresh) .zero
    let h' := (r none).handleOn long
      (fun duration budget => (Sleeper.fresh.suspend duration budget).outcome .fresh) .zero
    (∃ response, h.outcome = .response response ∧ response.computeTimeMs = "8" ∧
      (⟨6999999⟩ : Duration).millis ≤ 8 ∧ ∃ record ∈ h.records,
        record.event = "invocation_interrupted" ∧ record.detail? "reason" = some (.string
          "invocation budget of 6ms exhausted before the requested duration") ∧
        ∃ logged : UInt64, record.detail? "elapsed_ms" = some (.ofUInt64 logged) ∧
          logged.toNat = 7) ∧
    ∃ response, h'.outcome = .response response ∧
      response.computeTimeMs = "18446744073709551616" := by
  intro r late long h h'
  have hplan : ∀ budget, (r budget).workload = .ok (.sleep 7) := fun _ => rfl
  obtain ⟨-,hanswers,htimes⟩ := sleep_times_add_up (r (some ⟨6999999⟩)) late .fresh .fresh .zero 7
    (hplan _) (by decide)
  have hbudget : ∀ b, some (⟨6999999⟩ : Duration) = some b → b.millis < UInt64.size := by
    intro b hb
    obtain rfl := Option.some.inj hb
    decide
  obtain ⟨response,hresponse⟩ := hanswers hbudget (Or.inr (by decide))
  obtain ⟨htime,-,hexhausted,hlines⟩ := htimes response hresponse
  obtain ⟨-,-,hleast,record,hmem,hevent,hreason⟩ := hexhausted ⟨6999999⟩ rfl
  obtain ⟨logged,hlogged,hvalue,-⟩ := hlines record hmem hevent
  obtain ⟨-,hanswers',htimes'⟩ := sleep_times_add_up (r none) long .fresh .fresh .zero 7
    (hplan _) (by decide)
  obtain ⟨response',hresponse'⟩ := hanswers' nofun (Or.inl rfl)
  obtain ⟨htime',-,-,-⟩ := htimes' response' hresponse'
  exact ⟨⟨response,hresponse,htime.trans (by decide),hleast.trans (by decide),record,hmem,hevent,
    hreason,logged,hlogged,hvalue.trans (by decide)⟩,
    response',hresponse',htime'.trans (by decide +kernel)⟩

end GridWorker
