import GridWorker.Host
import GridWorker.Proofs.AnsweredRequests
import GridWorker.Proofs.OverlapWindows

/-! # Sleeps under a deadline

The budget of a request is the time left before its deadline, and a sleep that no
interrupt meets succeeds exactly when it fits. The law is stated over the integers, where
clocks before the epoch and deadlines in the past need no case of their own. A computation
takes no notice of the deadline.
-/
namespace GridWorker

/-- The milliseconds left before a deadline, none once it is past. A clock before the epoch
reads zero. -/
def timeLeft (deadline : UInt64) (now : Int64) : Int :=
  max 0 (deadline.toNat - max 0 now.toInt)

theorem timeLeft_toNat (deadline : UInt64) (now : Int64) :
    (timeLeft deadline now).toNat = deadline.toNat - now.toInt.toNat := by
  unfold timeLeft
  omega

/-- A budget is the time left before an enforced deadline; otherwise there is none. -/
theorem Settings.budget?_cases (s : Settings) (deadline : UInt64) (now : Int64) :
    (s.enforceDeadline = true ∧ deadline ≠ 0 ∧
      s.budget? deadline now = some (.ofMillis (timeLeft deadline now).toNat)) ∨
    ((s.enforceDeadline = false ∨ deadline = 0) ∧ s.budget? deadline now = none) := by
  cases hs : s.enforceDeadline with
  | false =>
    right
    refine ⟨Or.inl rfl,?_⟩
    rw [budget?,hs]
    rfl
  | true =>
    by_cases hd : deadline = 0
    · right
      refine ⟨Or.inr hd,?_⟩
      rw [budget?,hs,remaining?,if_pos hd]
      rfl
    · left
      refine ⟨rfl,hd,?_⟩
      rw [budget?,if_pos hs,remaining?,if_neg hd,timeLeft_toNat]

theorem Settings.budget?_fits {s : Settings} {deadline : UInt64} {now : Int64} {b : Duration}
    (h : s.budget? deadline now = some b) : b.millis < UInt64.size := by
  rcases s.budget?_cases deadline now with ⟨-,-,hb⟩ | ⟨-,hb⟩
  · obtain rfl := Option.some.inj (h.symm.trans hb)
    rw [Duration.millis_ofMillis,timeLeft_toNat]
    exact Nat.lt_of_le_of_lt (Nat.sub_le _ _) deadline.toNat_lt
  · cases h.symm.trans hb

theorem Sleeper.waitFor_le_budget (duration b : Duration) :
    waitFor duration (some b) ≤ b := by
  by_cases hle : b ≤ duration
  · rw [show waitFor duration (some b) = b from if_pos hle]
    exact Nat.le_refl b.nanos
  · rw [show waitFor duration (some b) = duration from if_neg hle]
    exact Nat.le_of_not_le hle

theorem Request.detail?_interrupted_reason (r : Request) (clock : Timeline) (ms : UInt64)
    (i : Interruption) :
    (r.interrupted clock ms i).detail? "reason" = some (.string i.message) := by
  rw [interrupted,LogRecord.detail?_record]
  simp

namespace Host

/-- What answering an arrival leaves behind on any clock. Serving takes the clock on which
nothing but the suspension takes time. -/
def answer (h : Host) (a : Arrival) (clock : Timeline) : Handled :=
  (h.shared.call { callOf h.settings a with clock := clock }).1

theorem serve_eq_answer (h : Host) (a : Arrival) :
    (h.serve a).1 = h.answer a (callOf h.settings a).clock := rfl

theorem request_fits (s : Settings) (a : Arrival) : (request s a).overflows = false :=
  Request.overflows_of_budget fun _ => Settings.budget?_fits

theorem answer_eq_handle (h : Host) (a : Arrival) (clock : Timeline) :
    h.answer a clock = (request h.settings a).handle clock
      (Suspender.answer (.sleeper a.interrupt) h.shared.sleeper) h.shared.counter := rfl

/-- Whether a sleep is over by the deadline. Without an enforced deadline it always is. -/
def InTime (s : Settings) (a : Arrival) (ms : UInt64) : Prop :=
  s.enforceDeadline = false ∨ a.deadline = 0 ∨ ms = 0 ∨
    max 0 a.now.toInt + ms.toNat ≤ a.deadline.toNat

variable {s : Settings} {a : Arrival} {ms : UInt64}

theorem inTime_iff_left (enforced : s.enforceDeadline = true) (given : a.deadline ≠ 0) :
    InTime s a ms ↔ ms.toNat ≤ (timeLeft a.deadline a.now).toNat := by
  have hzero : ms = 0 ↔ ms.toNat = 0 := UInt64.toNat_inj.symm
  unfold InTime timeLeft
  rw [hzero,enforced]
  simp only [given,Bool.true_eq_false,false_or]
  omega

theorem nap_of_inTime (t : Sleeper) (h : InTime s a ms) :
    (Nap.take t (.ofMillis ms.toNat) (request s a).budget none).outcome = .ok () := by
  apply Sleeper.outcome_of_long rfl
  intro b hb hlt
  rcases s.budget?_cases a.deadline a.now with ⟨hs,hd,hleft⟩ | ⟨-,hnone⟩
  · obtain rfl := Option.some.inj (hleft.symm.trans hb)
    have hfits := (inTime_iff_left hs hd).mp h
    have hshort := Duration.ofMillis_lt_ofMillis.mp hlt
    omega
  · cases hnone.symm.trans hb

theorem nap_of_late (t : Sleeper) (h : ¬ InTime s a ms) :
    (Nap.take t (.ofMillis ms.toNat) (request s a).budget none).outcome =
      .error (.budgetExhausted (.ofMillis (timeLeft a.deadline a.now).toNat)) := by
  rcases s.budget?_cases a.deadline a.now with ⟨hs,hd,hleft⟩ | ⟨hfree,-⟩
  · rw [inTime_iff_left hs hd,Nat.not_le] at h
    have hbudget : (request s a).budget = _ := hleft
    rw [hbudget]
    exact Sleeper.outcome_of_short rfl (Duration.ofMillis_lt_ofMillis.mpr h)
  · exact absurd (hfree.elim Or.inl fun hd => Or.inr (Or.inl hd)) h

theorem nap_elapsed_le (t : Sleeper) (duration : Duration) (enforced : s.enforceDeadline = true)
    (given : a.deadline ≠ 0) :
    (Nap.take t duration (request s a).budget none).elapsed ≤
      .ofMillis (timeLeft a.deadline a.now).toNat := by
  rcases s.budget?_cases a.deadline a.now with ⟨-,-,hleft⟩ | ⟨hs | hd,-⟩
  · have hbudget : (request s a).budget = _ := hleft
    rw [hbudget]
    exact Sleeper.waitFor_le_budget duration _
  · exact absurd (hs.symm.trans enforced) Bool.false_ne_true
  · exact absurd hd given

section Quiet
variable {h : Host} (clock : Timeline)

theorem answer_inTime (quiet : a.interrupt = none) (asks : (request h.settings a).Asks (.sleep ms))
    (hin : InTime h.settings a ms) :
    (h.answer a clock).outcome = .response (.of .success clock.total ms.toNat.repr) := by
  have hfits := request_fits h.settings a
  have hplan := Request.workload_eq_ok_iff.mpr asks
  rw [answer_eq_handle,quiet,
    Request.handle_sleep_ok hfits hplan (nap_of_inTime h.shared.sleeper hin)]
  rfl

theorem answer_late (quiet : a.interrupt = none) (asks : (request h.settings a).Asks (.sleep ms))
    (hlate : ¬ InTime h.settings a ms) :
    (h.answer a clock).outcome = .response (.of .failure clock.total ms.toNat.repr) ∧
    (request h.settings a).interrupted clock ms
      (.budgetExhausted (.ofMillis (timeLeft a.deadline a.now).toNat)) ∈
      (h.answer a clock).records := by
  have hfits := request_fits h.settings a
  have hplan := Request.workload_eq_ok_iff.mpr asks
  rw [answer_eq_handle,quiet,
    Request.handle_sleep_error hfits hplan (nap_of_late h.shared.sleeper hlate)]
  exact ⟨rfl,List.mem_cons_of_mem _ List.mem_cons_self⟩

end Quiet

theorem answer_asked {h : Host} (clock : Timeline)
    (asks : (request h.settings a).Asks (.sleep ms)) :
    (h.answer a clock).asked = [(.ofMillis ms.toNat,(request h.settings a).budget)] :=
  ((Request.handle_course ..).of_sleep (request_fits h.settings a) asks).1

theorem answer_compute {h : Host} (clock : Timeline) {ram iterations : UInt64}
    (asks : (request h.settings a).Asks (.compute ram iterations)) :
    (h.answer a clock).outcome =
      .response (.of .success clock.total (computationValue ram iterations).repr) :=
  ((Request.handle_course ..).of_compute (request_fits h.settings a) asks).2.2

end Host

open Host

/-- A host answers a sleep that no interrupt meets with a success if and only if the sleep
is over by the deadline, and otherwise reports the whole time left as its exhausted budget;
in neither case does the sleeper wait beyond an enforced deadline. A computation is answered
alike under all deadlines, settings and clocks. -/
theorem sleep_succeeds_iff_in_time (h : Host) (a : Arrival) (clock : Timeline)
    (quiet : a.interrupt = none) :
    let done := h.answer a clock
    let left := (timeLeft a.deadline a.now).toNat
    (∀ ms, (request h.settings a).Asks (.sleep ms) →
      ∃ response duration budget, done.outcome = .response response ∧
        done.asked = [(duration,budget)] ∧ response.check = ms.toNat.repr ∧
        (response.result = .success ↔ h.settings.enforceDeadline = false ∨ a.deadline = 0 ∨
          ms = 0 ∨ max 0 a.now.toInt + ms.toNat ≤ a.deadline.toNat) ∧
        (response.result = .failure →
          (Nap.take h.shared.sleeper duration budget a.interrupt).outcome =
            .error (.budgetExhausted (.ofMillis left)) ∧
          ∃ record ∈ done.records, record.event = "invocation_interrupted" ∧
            record.detail? "reason" = some (.string ("invocation budget of " ++
              left.repr ++ "ms exhausted before the requested duration"))) ∧
        (h.settings.enforceDeadline = true → a.deadline ≠ 0 →
          (Nap.take h.shared.sleeper duration budget a.interrupt).elapsed ≤
            .ofMillis left)) ∧
    (∀ ram iterations, (request h.settings a).Asks (.compute ram iterations) →
      ∀ (h' : Host) (a' : Arrival) (clock' : Timeline), a'.event = a.event →
      ∃ response response', done.outcome = .response response ∧
        (h'.answer a' clock').outcome = .response response' ∧
        response'.result = response.result ∧ response'.check = response.check) := by
  intro done left
  refine ⟨?_,?_⟩
  · intro ms asks
    have hasked := answer_asked clock asks
    have hwait : h.settings.enforceDeadline = true → a.deadline ≠ 0 →
        (Nap.take h.shared.sleeper (.ofMillis ms.toNat) (request h.settings a).budget none).elapsed ≤
          .ofMillis left := nap_elapsed_le h.shared.sleeper (.ofMillis ms.toNat)
    rw [quiet]
    by_cases hin : InTime h.settings a ms
    · have hresponse := answer_inTime clock quiet asks hin
      refine ⟨.of .success clock.total ms.toNat.repr,_,_,hresponse,hasked,rfl,
        ⟨fun _ => hin,fun _ => rfl⟩,?_,hwait⟩
      intro hf
      cases hf
    · obtain ⟨hresponse,hrecord⟩ := answer_late clock quiet asks hin
      refine ⟨.of .failure clock.total ms.toNat.repr,_,_,hresponse,hasked,rfl,
        ⟨?_,fun hs => absurd hs hin⟩,?_,hwait⟩
      · intro hs
        cases hs
      · intro _
        refine ⟨nap_of_late h.shared.sleeper hin,_,hrecord,rfl,?_⟩
        rw [Request.detail?_interrupted_reason,Interruption.message_budgetExhausted,
          Duration.millis_ofMillis]
  · intro ram iterations asks h' a' clock' hevent
    have asks' : (request h'.settings a').Asks (.compute ram iterations) := by
      obtain ⟨arguments,hlists,hasked⟩ := asks
      have hlists' : Event.Lists a'.event arguments := hevent ▸ hlists
      exact ⟨arguments,hlists',hasked⟩
    exact ⟨_,_,answer_compute clock asks,answer_compute clock' asks',rfl,rfl⟩

/-- One millisecond more than there is left, read on a clock before the epoch. -/
theorem sleep_late_by_a_millisecond :
    let h : Host := ⟨.standard,.fresh⟩
    let a : Arrival := ⟨.object [("worker_arguments",.array [.string "+007"])],"a",
      6,-5,none⟩
    let done := (h.serve a).1
    a.interrupt = none ∧ (request h.settings a).Asks (.sleep 7) ∧
      ∃ response duration budget, done.outcome = .response response ∧
        done.asked = [(duration,budget)] ∧ response.result = .failure ∧
        (Nap.take h.shared.sleeper duration budget none).outcome =
          .error (.budgetExhausted (.ofMillis 6)) ∧
        (Nap.take h.shared.sleeper duration budget none).elapsed ≤ .ofMillis 6 := by
  intro h a done
  have hasks : (request h.settings a).Asks (.sleep 7) := Request.workload_eq_ok_iff.mp rfl
  obtain ⟨hsleep,-⟩ := sleep_succeeds_iff_in_time h a (callOf h.settings a).clock rfl
  obtain ⟨response,duration,budget,hresponse,hasked,-,hin,hfailure,hwait⟩ := hsleep 7 hasks
  have hfailed : response.result = .failure := by
    cases hr : response.result with
    | failure => rfl
    | success =>
      have hlate := hin.mp hr
      exact absurd hlate (by decide)
  exact ⟨rfl,hasks,response,duration,budget,hresponse,hasked,hfailed,(hfailure hfailed).1,
    hwait rfl (by decide)⟩

end GridWorker
