import GridWorker.Proofs.HandledCourses
import GridWorker.Proofs.ListedArguments
import GridWorker.Proofs.PlannedWorkloads

/-! # The answer to a request

A request asks for a workload by the arguments that its event lists. It is answered when
it asks for one and refused when it does not, and the refusal names the stage at which
the request fails. The answer says how the workload went, and only a sleep is put to the
suspender, once.
-/
namespace GridWorker

/-- An event lists arguments that ask for this workload. -/
def Event.Asks (v : Json) (w : Workload) : Prop :=
  ∃ arguments, Event.Lists v arguments ∧ Workload.Asked arguments w

namespace Request

def Asks (r : Request) (w : Workload) : Prop := Event.Asks r.event w

variable {r : Request}

theorem workload_of_lists {arguments : List Argument} (h : Event.Lists r.event arguments) :
    r.workload = (Workload.plan arguments).mapError .arguments := by
  obtain ⟨e,he,rfl⟩ := Event.accept_complete h
  cases hplan : Workload.plan e.arguments with
  | error f => simp only [workload,he,Event.plan,hplan,Except.mapError]
  | ok w => simp only [workload,he,Event.plan,hplan,Except.mapError]

theorem workload_of_not_lists (h : ¬ ∃ arguments, Event.Lists r.event arguments) :
    ∃ f, r.workload = .error (.event f) := by
  cases he : Event.accept r.event with
  | error f =>
    refine ⟨f,?_⟩
    simp only [workload,he]
  | ok e => exact absurd ⟨e.arguments,Event.accept_sound he⟩ h

theorem workload_eq_ok_iff {w : Workload} : r.workload = .ok w ↔ r.Asks w := by
  constructor
  · intro h
    by_cases hlists : ∃ arguments, Event.Lists r.event arguments
    · obtain ⟨arguments,hlists⟩ := hlists
      rw [workload_of_lists hlists] at h
      cases hplan : Workload.plan arguments with
      | error f => simp [hplan,Except.mapError] at h
      | ok w' =>
        rw [hplan] at h
        obtain rfl := Except.ok.inj h
        exact ⟨arguments,hlists,Workload.plan_eq_ok_iff.mp hplan⟩
    · obtain ⟨f,hf⟩ := workload_of_not_lists hlists
      cases hf.symm.trans h
  · rintro ⟨arguments,hlists,hasked⟩
    rw [workload_of_lists hlists,Workload.plan_eq_ok_iff.mpr hasked]
    rfl

/-- A request that asks for nothing fails at its arguments if its event lists any, and at
its event otherwise. -/
theorem workload_of_not_asks (h : ¬ ∃ w, r.Asks w) :
    (∃ arguments, Event.Lists r.event arguments) ∧ (∃ f, r.workload = .error (.arguments f)) ∨
    (¬ ∃ arguments, Event.Lists r.event arguments) ∧ ∃ f, r.workload = .error (.event f) := by
  by_cases hlists : ∃ arguments, Event.Lists r.event arguments
  · refine Or.inl ⟨hlists,?_⟩
    obtain ⟨arguments,hlists⟩ := hlists
    have hworkload := workload_of_lists hlists
    cases hplan : Workload.plan arguments with
    | error f =>
      rw [hplan] at hworkload
      exact ⟨f,hworkload⟩
    | ok w => exact absurd ⟨w,arguments,hlists,Workload.plan_eq_ok_iff.mp hplan⟩ h
  · exact Or.inr ⟨hlists,workload_of_not_lists hlists⟩

theorem overflows_of_budget (fits : ∀ b, r.budget = some b → b.millis < UInt64.size) :
    r.overflows = false := by
  cases hb : r.budget with
  | none => simp only [overflows,hb]
  | some b => simp only [overflows,hb,decide_eq_false_iff_not,Nat.not_le,fits b hb]

section Courses
variable {clock : Timeline} {suspend : Answer} {c : Counter} {h : Handled}

theorem Course.answered_iff (course : r.Course clock suspend c h) (fits : r.overflows = false) :
    (∃ response, h.outcome = .response response) ↔ ∃ w, r.Asks w := by
  cases course with
  | crashed full => exact absurd (fits.symm.trans full) Bool.false_ne_true
  | refused why _ plan =>
    constructor
    · rintro ⟨response,hr⟩
      cases hr
    · rintro ⟨w,hw⟩
      cases plan.symm.trans (workload_eq_ok_iff.mpr hw)
  | slept ms _ plan => exact ⟨fun _ => ⟨_,workload_eq_ok_iff.mp plan⟩,fun _ => ⟨_,rfl⟩⟩
  | interrupted ms i _ plan => exact ⟨fun _ => ⟨_,workload_eq_ok_iff.mp plan⟩,fun _ => ⟨_,rfl⟩⟩
  | computed ram iterations _ plan =>
    exact ⟨fun _ => ⟨_,workload_eq_ok_iff.mp plan⟩,fun _ => ⟨_,rfl⟩⟩

theorem Course.of_sleep {ms : UInt64} (course : r.Course clock suspend c h)
    (fits : r.overflows = false) (asks : r.Asks (.sleep ms)) :
    h.asked = [(.ofMillis ms.toNat,r.budget)] ∧
    (suspend (.ofMillis ms.toNat) r.budget = .ok () →
      h.outcome = .response (.of .success clock.total ms.toNat.repr) ∧ h.counter = c.next) ∧
    (∀ i, suspend (.ofMillis ms.toNat) r.budget = .error i →
      h.outcome = .response (.of .failure clock.total ms.toNat.repr) ∧ h.counter = c) := by
  have hplan := workload_eq_ok_iff.mpr asks
  cases course with
  | crashed full => exact absurd (fits.symm.trans full) Bool.false_ne_true
  | refused why _ plan => cases plan.symm.trans hplan
  | slept ms' _ plan answer =>
    cases plan.symm.trans hplan
    refine ⟨rfl,fun _ => ⟨rfl,rfl⟩,?_⟩
    intro i hi
    cases answer.symm.trans hi
  | interrupted ms' i _ plan answer =>
    cases plan.symm.trans hplan
    refine ⟨rfl,?_,fun _ _ => ⟨rfl,rfl⟩⟩
    intro hok
    cases answer.symm.trans hok
  | computed ram iterations _ plan => cases plan.symm.trans hplan

theorem Course.of_compute {ram iterations : UInt64} (course : r.Course clock suspend c h)
    (fits : r.overflows = false) (asks : r.Asks (.compute ram iterations)) :
    h.asked = [] ∧ h.counter = c.next ∧
    h.outcome = .response (.of .success clock.total (computationValue ram iterations).repr) := by
  have hplan := workload_eq_ok_iff.mpr asks
  cases course with
  | crashed full => exact absurd (fits.symm.trans full) Bool.false_ne_true
  | refused why _ plan => cases plan.symm.trans hplan
  | slept ms _ plan => cases plan.symm.trans hplan
  | interrupted ms i _ plan => cases plan.symm.trans hplan
  | computed ram' iterations' _ plan =>
    cases plan.symm.trans hplan
    exact ⟨rfl,rfl,rfl⟩

theorem Course.of_error {why : Refusal} (course : r.Course clock suspend c h)
    (fits : r.overflows = false) (hplan : r.workload = .error why) :
    h = ⟨.refused why,c,[r.received],[]⟩ := by
  cases course with
  | crashed full => exact absurd (fits.symm.trans full) Bool.false_ne_true
  | refused why' _ plan =>
    cases plan.symm.trans hplan
    rfl
  | slept ms _ plan => cases plan.symm.trans hplan
  | interrupted ms i _ plan => cases plan.symm.trans hplan
  | computed ram iterations _ plan => cases plan.symm.trans hplan

end Courses
end Request

/-- A request whose budget can be logged is answered if and only if its event lists
arguments that ask for a workload. For a sleep the suspender is asked once, for just that
time under just that budget, and its answer decides between success and failure; for a
computation it is not asked. A request that asks for nothing is refused at the stage at
which it fails, and leaves nothing behind but the record of its arrival. What the
suspender would answer to anything else is of no account. -/
theorem requests_answered_as_asked (r : Request) (clock : Timeline) (suspend : Answer)
    (c : Counter) (budgetFits : ∀ b, r.budget = some b → b.millis < UInt64.size) :
    let h := r.handle clock suspend c
    ((∃ response, h.outcome = .response response) ↔ ∃ w, r.Asks w) ∧
    (∀ ms, r.Asks (.sleep ms) →
      h.asked = [(.ofMillis ms.toNat,r.budget)] ∧
      (suspend (.ofMillis ms.toNat) r.budget = .ok () →
        h.outcome = .response (.of .success clock.total ms.toNat.repr) ∧ h.counter = c.next) ∧
      (∀ i, suspend (.ofMillis ms.toNat) r.budget = .error i →
        h.outcome = .response (.of .failure clock.total ms.toNat.repr) ∧ h.counter = c)) ∧
    (∀ ram iterations, r.Asks (.compute ram iterations) →
      h.asked = [] ∧ h.counter = c.next ∧ h.outcome =
        .response (.of .success clock.total (computationValue ram iterations).repr)) ∧
    ((¬ ∃ w, r.Asks w) →
      h.asked = [] ∧ h.counter = c ∧ h.records = [r.received] ∧ ∃ why, h.outcome = .refused why ∧
      ((∃ arguments, Event.Lists r.event arguments) →
        ∃ text, why.message = "invalid worker arguments: " ++ text) ∧
      ((¬ ∃ arguments, Event.Lists r.event arguments) →
        ∃ text, why.message = "invalid worker event: " ++ text)) ∧
    (∀ other : Answer, (∀ q ∈ h.asked, other q.1 q.2 = suspend q.1 q.2) →
      r.handle clock other c = h) := by
  intro h
  have hfits := Request.overflows_of_budget budgetFits
  have hcourse : r.Course clock suspend c h := r.handle_course clock suspend c
  refine ⟨hcourse.answered_iff hfits,fun ms => hcourse.of_sleep hfits,
    fun ram iterations => hcourse.of_compute hfits,?_,
    fun other => r.handle_congr_asked clock suspend other c⟩
  intro hnot
  rcases Request.workload_of_not_asks hnot with ⟨hlists,f,hf⟩ | ⟨hlists,f,hf⟩
  · rw [hcourse.of_error hfits hf]
    exact ⟨rfl,rfl,rfl,_,rfl,fun _ => ⟨f.message,rfl⟩,fun hno => absurd hlists hno⟩
  · rw [hcourse.of_error hfits hf]
    exact ⟨rfl,rfl,rfl,_,rfl,fun hyes => absurd hyes hlists,fun _ => ⟨f.message,rfl⟩⟩

/-- A sleep of seven milliseconds, with a sign and zeros too many, that its budget cuts
short. -/
theorem padded_sleep_exceeds_its_budget :
    let r : Request := ⟨.object [("worker_arguments",.array [.string "+007",.string "x"])],"a",
      some ⟨6999999⟩,true⟩
    let suspend : Answer := fun _ budget => .error (.budgetExhausted (budget.getD .zero))
    let h := r.handle (.ofElapsed ⟨6999999⟩) suspend .zero
    (∀ b, r.budget = some b → b.millis < UInt64.size) ∧ r.Asks (.sleep 7) ∧
      h.asked = [(⟨7000000⟩,some ⟨6999999⟩)] ∧ h.counter = .zero ∧
      h.outcome = .response (.of .failure ⟨6999999⟩ "7") := by
  intro r suspend h
  have hbudget : ∀ b, r.budget = some b → b.millis < UInt64.size := by
    intro b hb
    obtain rfl := Option.some.inj hb
    decide
  have hasks : r.Asks (.sleep 7) := Request.workload_eq_ok_iff.mp rfl
  obtain ⟨-,hsleep,-,-,-⟩ :=
    requests_answered_as_asked r (.ofElapsed ⟨6999999⟩) suspend .zero hbudget
  obtain ⟨hasked,-,hfailure⟩ := hsleep 7 hasks
  obtain ⟨houtcome,hcounter⟩ := hfailure (.budgetExhausted ⟨6999999⟩) rfl
  exact ⟨hbudget,hasks,hasked,hcounter,houtcome⟩

end GridWorker
