import Mathlib.Data.List.Basic
import Mathlib.Data.Nat.ModEq
import GridWorker.Overlap

/-! # The window of a suspension

What a suspension reports depends on its duration, its budget and the number of
interrupts between its beginning and its end, counted modulo `2 ^ 64`. Each suspension
is followed through a run by itself: a move that neither begins nor ends it leaves it
alone, and the generation moves on by one with every interrupt. The first generation
is arbitrary, so it may be about to wrap.
-/
namespace GridWorker

/-- Adding `n` to a word changes it unless `2 ^ 64` divides `n`. -/
theorem generation_add_ne_iff (g : UInt64) (n : Nat) :
    g + UInt64.ofNat n ≠ g ↔ ¬ UInt64.size ∣ n := by
  have hg := g.toNat_lt
  have hsize : UInt64.size = 2 ^ 64 := rfl
  rw [ne_eq,not_iff_not,← UInt64.toNat_inj,UInt64.toNat_add,UInt64.toNat_ofNat',hsize,
    Nat.dvd_iff_mod_eq_zero]
  omega

namespace Sleeper
variable {s t : Sleeper} {n : Nat} {duration : Duration}

theorem waitFor_of_lt {b : Duration} (hb : b < duration) : waitFor duration (some b) = b :=
  if_pos (Nat.le_of_lt hb)

theorem waitFor_of_not_lt {budget : Option Duration}
    (hb : ∀ b, budget = some b → ¬ b < duration) : waitFor duration budget = duration := by
  cases budget with
  | none => rfl
  | some b =>
    by_cases hle : b ≤ duration
    · have hge : duration.nanos ≤ b.nanos := Nat.le_of_not_lt (hb b rfl)
      have heq : b.nanos = duration.nanos := Nat.le_antisymm hle hge
      exact (if_pos hle).trans (congrArg Duration.mk heq)
    · exact if_neg hle

theorem outcome_of_changed (budget : Option Duration)
    (hg : t.generation ≠ s.generation) :
    (s.suspend duration budget).outcome t = .error .signalled := if_pos hg

theorem outcome_of_short {b : Duration} (hg : t.generation = s.generation)
    (hb : b < duration) :
    (s.suspend duration (some b)).outcome t = .error (.budgetExhausted b) := by
  have hw := waitFor_of_lt hb
  simp only [Suspension.outcome,suspend,hg,hw,hb,ne_eq,not_true_eq_false,if_false,if_true]

theorem outcome_of_long {budget : Option Duration} (hg : t.generation = s.generation)
    (hb : ∀ b, budget = some b → ¬ b < duration) :
    (s.suspend duration budget).outcome t = .ok () := by
  have hw := waitFor_of_not_lt hb
  have hirrefl : ¬ duration < duration := Nat.lt_irrefl duration.nanos
  simp only [Suspension.outcome,suspend,hg,hw,hirrefl,ne_eq,not_true_eq_false,if_false]

/-- Of the two generations only whether they differ is reported. -/
theorem outcome_congr {s' t' : Sleeper} (budget : Option Duration)
    (h : t.generation = s.generation ↔ t'.generation = s'.generation) :
    (s.suspend duration budget).outcome t = (s'.suspend duration budget).outcome t' := by
  by_cases hs : t.generation = s.generation
  · simp only [Suspension.outcome,suspend,hs,h.mp hs,ne_eq,not_true_eq_false,if_false]
    rfl
  · rw [outcome_of_changed budget hs,outcome_of_changed budget (fun h' => hs (h.mpr h'))]

/-- What a suspension reports when `n` interrupts have come since its beginning. The
signal is tested before the budget. -/
theorem suspend_outcome (budget : Option Duration)
    (hg : t.generation = s.generation + UInt64.ofNat n) :
    ((s.suspend duration budget).outcome t = .error .signalled ↔ ¬ UInt64.size ∣ n) ∧
    (∀ b, (s.suspend duration budget).outcome t = .error (.budgetExhausted b) ↔
      UInt64.size ∣ n ∧ budget = some b ∧ b < duration) ∧
    ((s.suspend duration budget).outcome t = .ok () ↔
      UInt64.size ∣ n ∧ ∀ b, budget = some b → ¬ b < duration) := by
  have hne : t.generation ≠ s.generation ↔ ¬ UInt64.size ∣ n := by
    rw [hg]
    exact generation_add_ne_iff s.generation n
  by_cases hn : UInt64.size ∣ n
  · have hsame : t.generation = s.generation := not_not.mp (fun h => hne.mp h hn)
    by_cases hb : ∀ b, budget = some b → ¬ b < duration
    · rw [outcome_of_long hsame hb]
      refine ⟨by simp [hn],?_,⟨fun _ => ⟨hn,hb⟩,fun _ => rfl⟩⟩
      intro b
      simp only [reduceCtorEq,false_iff]
      rintro ⟨-,hbudget,hlt⟩
      exact hb b hbudget hlt
    · obtain ⟨b,hb'⟩ := not_forall.mp hb
      obtain ⟨rfl,hlt⟩ : budget = some b ∧ b < duration := by simpa using hb'
      rw [outcome_of_short hsame hlt]
      refine ⟨by simp [hn],?_,by simp [hn,hlt]⟩
      intro b'
      simp only [Except.error.injEq,Interruption.budgetExhausted.injEq,Option.some.injEq]
      exact ⟨fun h => ⟨hn,h,h ▸ hlt⟩,fun h => h.2.1⟩
  · rw [outcome_of_changed budget (hne.mpr hn)]
    simp [hn]

end Sleeper

namespace Overlap

/-- All that a move can do to one suspension: it begins or ends it, or leaves it alone. -/
theorem step_cases {o o' : Overlap} {m : Move} (h : o.step m = some o') (i : Nat) :
    (∃ duration budget, m = .begins i ∧ o.rests[i]? = some ⟨duration,budget,.waiting⟩ ∧
      o'.rests[i]? =
        some ⟨duration,budget,.begun (o.sleeper.suspend duration budget) o.now⟩) ∨
    (∃ duration budget x since, m = .ends i ∧
      o.rests[i]? = some ⟨duration,budget,.begun x since⟩ ∧
      x.mayEnd o.sleeper ⟨o.now - since⟩ = true ∧
      o'.rests[i]? = some ⟨duration,budget,.ended (x.outcome o.sleeper)⟩) ∨
    (m ≠ .begins i ∧ m ≠ .ends i ∧ o'.rests[i]? = o.rests[i]?) := by
  cases m with
  | pass d =>
    cases h
    exact Or.inr (Or.inr ⟨nofun,nofun,rfl⟩)
  | interrupt =>
    cases h
    exact Or.inr (Or.inr ⟨nofun,nofun,rfl⟩)
  | begins j =>
    simp only [step] at h
    split at h
    · rename_i duration budget hj
      cases h
      by_cases hij : j = i
      · subst j
        have hlt : i < o.rests.length := (List.getElem?_eq_some_iff.mp hj).1
        exact Or.inl ⟨duration,budget,rfl,hj,List.getElem?_set_self hlt⟩
      · exact Or.inr (Or.inr ⟨fun h => hij (Move.begins.inj h),nofun,List.getElem?_set_ne hij⟩)
    · cases h
  | ends j =>
    simp only [step] at h
    split at h
    · rename_i duration budget x since hj
      split at h
      · rename_i hmay
        cases h
        by_cases hij : j = i
        · subst j
          have hlt : i < o.rests.length := (List.getElem?_eq_some_iff.mp hj).1
          exact Or.inr (Or.inl
            ⟨duration,budget,x,since,rfl,hj,hmay,List.getElem?_set_self hlt⟩)
        · exact Or.inr (Or.inr ⟨nofun,fun h => hij (Move.ends.inj h),List.getElem?_set_ne hij⟩)
      · cases h
    · cases h

theorem step_asked {o o' : Overlap} {m : Move} (h : o.step m = some o') (i : Nat) :
    o'.rests[i]?.map (fun r => (r.duration,r.budget)) =
      o.rests[i]?.map fun r => (r.duration,r.budget) := by
  rcases step_cases h i with ⟨d,b,-,hbefore,hafter⟩ | ⟨d,b,x,since,-,hbefore,-,hafter⟩ | ⟨-,-,hsame⟩
  · rw [hbefore,hafter]
    rfl
  · rw [hbefore,hafter]
    rfl
  · rw [hsame]

theorem step_generation {o o' : Overlap} {m : Move} (h : o.step m = some o') :
    o'.sleeper.generation = o.sleeper.generation + UInt64.ofNat ([m].count .interrupt) := by
  cases m with
  | interrupt =>
    cases h
    rfl
  | pass d =>
    cases h
    exact (UInt64.add_zero _).symm
  | begins j =>
    simp only [step] at h
    split at h
    · cases h
      exact (UInt64.add_zero _).symm
    · cases h
  | ends j =>
    simp only [step] at h
    split at h
    · split at h
      · cases h
        exact (UInt64.add_zero _).symm
      · cases h
    · cases h

theorem run_cons {o o' : Overlap} {m : Move} {rest : List Move} :
    o.run (m :: rest) = some o' ↔ ∃ mid, o.step m = some mid ∧ mid.run rest = some o' := by
  simp only [run,List.foldlM_cons,Option.bind_eq_bind,Option.bind_eq_some_iff]

theorem run_append {o o' : Overlap} {xs ys : List Move} :
    o.run (xs ++ ys) = some o' ↔ ∃ mid, o.run xs = some mid ∧ mid.run ys = some o' := by
  simp only [run,List.foldlM_append,Option.bind_eq_bind,Option.bind_eq_some_iff]

theorem run_generation {o o' : Overlap} {moves : List Move} (h : o.run moves = some o') :
    o'.sleeper.generation =
      o.sleeper.generation + UInt64.ofNat (moves.count .interrupt) := by
  induction moves generalizing o with
  | nil =>
    cases h
    exact (UInt64.add_zero _).symm
  | cons m rest ih =>
    obtain ⟨mid,hm,hr⟩ := run_cons.mp h
    rw [ih hr,step_generation hm,UInt64.add_assoc,← UInt64.ofNat_add,← List.count_append]
    rfl

theorem run_asked {o o' : Overlap} {moves : List Move} (h : o.run moves = some o') (i : Nat) :
    o'.rests[i]?.map (fun r => (r.duration,r.budget)) =
      o.rests[i]?.map fun r => (r.duration,r.budget) := by
  induction moves generalizing o with
  | nil =>
    cases h
    rfl
  | cons m rest ih =>
    obtain ⟨mid,hm,hr⟩ := run_cons.mp h
    exact (ih hr).trans (step_asked hm i)

theorem run_ended {o o' : Overlap} {moves : List Move} {i : Nat} {duration : Duration}
    {budget : Option Duration} {answer : Except Interruption Unit} (h : o.run moves = some o')
    (hi : o.rests[i]? = some ⟨duration,budget,.ended answer⟩) :
    o'.rests[i]? = some ⟨duration,budget,.ended answer⟩ := by
  induction moves generalizing o with
  | nil =>
    cases h
    exact hi
  | cons m rest ih =>
    obtain ⟨mid,hm,hr⟩ := run_cons.mp h
    apply ih hr
    rcases step_cases hm i with ⟨d,b,-,hbefore,-⟩ | ⟨d,b,x,since,-,hbefore,-⟩ | ⟨-,-,hsame⟩
    · exact absurd (hi.symm.trans hbefore) (by simp)
    · exact absurd (hi.symm.trans hbefore) (by simp)
    · exact hsame.trans hi

/-- What has begun waits unchanged, or has ended on the generation that its end met. -/
theorem run_begun {o o' : Overlap} {moves : List Move} {i : Nat} {duration : Duration}
    {budget : Option Duration} {x : Suspension} {since : Nat} (h : o.run moves = some o')
    (hi : o.rests[i]? = some ⟨duration,budget,.begun x since⟩) :
    o'.rests[i]? = some ⟨duration,budget,.begun x since⟩ ∨
    ∃ during after mid, moves = during ++ .ends i :: after ∧ o.run during = some mid ∧
      o'.rests[i]? = some ⟨duration,budget,.ended (x.outcome mid.sleeper)⟩ := by
  induction moves generalizing o with
  | nil =>
    cases h
    exact Or.inl hi
  | cons m rest ih =>
    obtain ⟨mid,hm,hr⟩ := run_cons.mp h
    rcases step_cases hm i with
      ⟨d,b,-,hbefore,-⟩ | ⟨d,b,y,since',rfl,hbefore,-,hafter⟩ | ⟨hb,he,hsame⟩
    · exact absurd (hi.symm.trans hbefore) (by simp)
    · obtain ⟨rfl,rfl,rfl,rfl⟩ : duration = d ∧ budget = b ∧ x = y ∧ since = since' := by
        simpa using hi.symm.trans hbefore
      -- the run is cut here: nothing that comes later touches what has ended
      exact Or.inr ⟨[],rest,o,rfl,rfl,run_ended hr hafter⟩
    · rcases ih hr (hsame.trans hi) with hbegun | ⟨during,after,last,rfl,hd,hl⟩
      · exact Or.inl hbegun
      · exact Or.inr ⟨m :: during,after,last,rfl,run_cons.mpr ⟨mid,hm,hd⟩,hl⟩

/-- What waits has not begun, or began at some move of the run. -/
theorem run_waiting {o o' : Overlap} {moves : List Move} {i : Nat} {duration : Duration}
    {budget : Option Duration} (h : o.run moves = some o')
    (hi : o.rests[i]? = some ⟨duration,budget,.waiting⟩) :
    o'.rests[i]? = some ⟨duration,budget,.waiting⟩ ∨
    ∃ before rest, ∃ next : Overlap, ∃ x since, moves = before ++ .begins i :: rest ∧
      next.run rest = some o' ∧
      next.rests[i]? = some ⟨duration,budget,.begun x since⟩ := by
  induction moves generalizing o with
  | nil =>
    cases h
    exact Or.inl hi
  | cons m rest ih =>
    obtain ⟨mid,hm,hr⟩ := run_cons.mp h
    rcases step_cases hm i with
      ⟨d,b,rfl,hbefore,hafter⟩ | ⟨d,b,x,since,-,hbefore,-⟩ | ⟨hb,he,hsame⟩
    · obtain ⟨rfl,rfl⟩ : duration = d ∧ budget = b := by simpa using hi.symm.trans hbefore
      exact Or.inr ⟨[],rest,mid,_,_,rfl,hr,hafter⟩
    · exact absurd (hi.symm.trans hbefore) (by simp)
    · rcases ih hr (hsame.trans hi) with hwaits | ⟨before,after,next,x,since,rfl,hn,hx⟩
      · exact Or.inl hwaits
      · exact Or.inr ⟨m :: before,after,next,x,since,rfl,hn,hx⟩

/-- A suspension that begins and ends in a run reports what the interrupts between the
two make of it. -/
theorem run_window {o o' : Overlap} {i : Nat} {duration : Duration} {budget : Option Duration}
    {before during after : List Move}
    (h : o.run (before ++ .begins i :: (during ++ .ends i :: after)) = some o')
    (hi : o.rests[i]? = some ⟨duration,budget,.waiting⟩) :
    ∃ s t : Sleeper, t.generation = s.generation + UInt64.ofNat (during.count .interrupt) ∧
      o'.rests[i]? = some ⟨duration,budget,.ended ((s.suspend duration budget).outcome t)⟩ := by
  obtain ⟨mid,hbefore,hrest⟩ := run_append.mp h
  obtain ⟨next,hbegins,hrest⟩ := run_cons.mp hrest
  obtain ⟨last,hduring,hrest⟩ := run_append.mp hrest
  obtain ⟨done,hends,hafter⟩ := run_cons.mp hrest
  have hbegun : next.rests[i]? =
      some ⟨duration,budget,.begun (mid.sleeper.suspend duration budget) mid.now⟩ := by
    rcases step_cases hbegins i with ⟨d,b,-,hwaits,hbegun⟩ | ⟨_,_,_,_,hm,_⟩ | ⟨hm,-,-⟩
    · have hasked := run_asked hbefore i
      rw [hwaits,hi] at hasked
      obtain ⟨rfl,rfl⟩ : d = duration ∧ b = budget := by simpa using hasked
      exact hbegun
    · cases hm
    · exact absurd rfl hm
  have hended : done.rests[i]? = some ⟨duration,budget,
      .ended ((mid.sleeper.suspend duration budget).outcome last.sleeper)⟩ := by
    rcases step_cases hends i with ⟨_,_,hm,_⟩ | ⟨d,b,x,since,-,hlast,-,hdone⟩ | ⟨-,hm,-⟩
    · cases hm
    · rcases run_begun hduring hbegun with hsame | ⟨_,_,_,_,_,hearly⟩
      · obtain ⟨rfl,rfl,rfl,-⟩ : duration = d ∧ budget = b ∧
            mid.sleeper.suspend duration budget = x ∧ mid.now = since := by
          simpa using hsame.symm.trans hlast
        exact hdone
      · exact absurd (hearly.symm.trans hlast) (by simp)
    · exact absurd rfl hm
  refine ⟨mid.sleeper,last.sleeper,?_,run_ended hafter hended⟩
  rw [run_generation hduring,step_generation hbegins]
  exact congrArg (· + _) (UInt64.add_zero _)

theorem exists_window {o o' : Overlap} {i : Nat} {duration : Duration}
    {budget : Option Duration} {moves : List Move} {answer : Except Interruption Unit}
    (h : o.run moves = some o') (hi : o.rests[i]? = some ⟨duration,budget,.waiting⟩)
    (he : o'.stage? i = some (.ended answer)) :
    ∃ before during after, moves = before ++ .begins i :: (during ++ .ends i :: after) := by
  rcases run_waiting h hi with hsame | ⟨before,rest,_,_,_,rfl,hrun,hbegun⟩
  · simp [stage?,hsame] at he
  · rcases run_begun hrun hbegun with hsame | ⟨during,after,_,rfl,_⟩
    · simp [stage?,hsame] at he
    · exact ⟨before,during,after,rfl⟩

/-- A suspension that has begun can be brought to its end by waiting. -/
theorem begun_can_end {o : Overlap} {i : Nat} {x : Suspension} {since : Nat}
    (h : o.stage? i = some (.begun x since)) :
    ∃ d o', o.run [.pass d,.ends i] = some o' := by
  obtain ⟨⟨duration,budget,stage⟩,hi,hstage⟩ := Option.map_eq_some_iff.mp h
  obtain rfl : stage = .begun x since := hstage
  have hover : x.wait ≤ (⟨o.now + (since + x.wait.nanos) - since⟩ : Duration) := by
    change x.wait.nanos ≤ o.now + (since + x.wait.nanos) - since
    omega
  have hmay : x.mayEnd o.sleeper ⟨o.now + (since + x.wait.nanos) - since⟩ = true :=
    decide_eq_true (Or.inr hover)
  have hends : step { o with now := o.now + (since + x.wait.nanos) } (.ends i) =
      some { o with
        now := o.now + (since + x.wait.nanos)
        rests := o.rests.set i ⟨duration,budget,.ended (x.outcome o.sleeper)⟩ } := by
    simp only [step,hi,hmay,if_true]
  exact ⟨⟨since + x.wait.nanos⟩,_,run_cons.mpr ⟨_,rfl,run_cons.mpr ⟨_,hends,rfl⟩⟩⟩

theorem start_rests {s : Sleeper} {now : Nat} {asks : List (Duration × Option Duration)}
    {i : Nat} {duration : Duration} {budget : Option Duration}
    (hi : asks[i]? = some (duration,budget)) :
    (start s now asks).rests[i]? = some ⟨duration,budget,.waiting⟩ := by
  simp [start,hi]

section Started
variable {s : Sleeper} {now : Nat} {asks : List (Duration × Option Duration)}
variable {moves : List Move} {o : Overlap} {i : Nat} {duration : Duration}
variable {budget : Option Duration}

theorem window_report (hrun : (start s now asks).run moves = some o)
    (hi : asks[i]? = some (duration,budget)) {before during after : List Move}
    (hm : moves = before ++ .begins i :: (during ++ .ends i :: after)) :
    ∃ answer, o.stage? i = some (.ended answer) ∧
      (answer = .error .signalled ↔ ¬ UInt64.size ∣ during.count .interrupt) ∧
      (∀ b, answer = .error (.budgetExhausted b) ↔
        UInt64.size ∣ during.count .interrupt ∧ budget = some b ∧ b < duration) ∧
      (answer = .ok () ↔
        UInt64.size ∣ during.count .interrupt ∧ ∀ b, budget = some b → ¬ b < duration) := by
  subst hm
  obtain ⟨s,t,hg,hended⟩ := run_window hrun (start_rests hi)
  refine ⟨(s.suspend duration budget).outcome t,?_,Sleeper.suspend_outcome budget hg⟩
  rw [stage?,hended]
  rfl

/-- Two suspensions with one duration and one budget report alike when their windows hold
as many interrupts modulo `2 ^ 64`, whatever else the two runs hold. -/
theorem window_report_congr (hrun : (start s now asks).run moves = some o)
    (hi : asks[i]? = some (duration,budget)) {s' : Sleeper} {now' : Nat}
    {asks' : List (Duration × Option Duration)} {moves' : List Move} {o' : Overlap} {j : Nat}
    (hrun' : (start s' now' asks').run moves' = some o')
    (hj : asks'[j]? = some (duration,budget))
    {before during after before' during' after' : List Move}
    (hm : moves = before ++ .begins i :: (during ++ .ends i :: after))
    (hm' : moves' = before' ++ .begins j :: (during' ++ .ends j :: after'))
    (hcount : during.count .interrupt ≡ during'.count .interrupt [MOD UInt64.size]) :
    o'.stage? j = o.stage? i := by
  subst hm hm'
  obtain ⟨u,v,hg,hended⟩ := run_window hrun (start_rests hi)
  obtain ⟨u',v',hg',hended'⟩ := run_window hrun' (start_rests hj)
  have hdvd := hcount.dvd_iff (dvd_refl UInt64.size)
  have hsame : v'.generation = u'.generation ↔ v.generation = u.generation := by
    rw [hg,hg',← not_iff_not]
    exact (generation_add_ne_iff _ _).trans
      ((not_congr hdvd.symm).trans (generation_add_ne_iff _ _).symm)
  rw [stage?,stage?,hended,hended',Sleeper.outcome_congr budget hsame]

/-- The only interrupt of a run signals the suspensions that it meets, and no others. -/
theorem signalled_iff_met (hrun : (start s now asks).run moves = some o)
    (hi : asks[i]? = some (duration,budget)) {before after : List Move}
    (hm : moves = before ++ .interrupt :: after)
    (hbefore : .interrupt ∉ before) (hafter : .interrupt ∉ after) :
    o.stage? i = some (.ended (.error .signalled)) ↔ .begins i ∈ before ∧ .ends i ∈ after := by
  constructor
  · intro hsignalled
    obtain ⟨pre,during,post,hwindow⟩ := exists_window hrun (start_rests hi) hsignalled
    obtain ⟨answer,hanswer,hsignal,-,-⟩ := window_report hrun hi hwindow
    obtain rfl : answer = .error .signalled := by
      simpa using hanswer.symm.trans hsignalled
    have hin : .interrupt ∈ during := by
      by_contra hnone
      exact hsignal.mp rfl (by rw [List.count_eq_zero_of_not_mem hnone]; exact dvd_zero _)
    obtain ⟨front,back,rfl⟩ := List.append_of_mem hin
    have hsplit : before ++ Move.interrupt :: after =
        (pre ++ .begins i :: front) ++ .interrupt :: (back ++ .ends i :: post) := by
      rw [← hm,hwindow]
      simp
    obtain ⟨rfl,-,rfl⟩ := (List.append_cons_inj_of_notMem hbefore hafter).mp hsplit
    exact ⟨by simp,by simp⟩
  · rintro ⟨hb,he⟩
    obtain ⟨pre,front,rfl⟩ := List.append_of_mem hb
    obtain ⟨back,post,rfl⟩ := List.append_of_mem he
    have hwindow : moves =
        pre ++ .begins i :: ((front ++ .interrupt :: back) ++ .ends i :: post) := by
      rw [hm]
      simp
    obtain ⟨answer,hanswer,hsignal,-,-⟩ := window_report hrun hi hwindow
    have hcount : (front ++ Move.interrupt :: back).count .interrupt = 1 := by
      have hf : Move.interrupt ∉ front := fun h => hbefore (by simp [h])
      have hk : Move.interrupt ∉ back := fun h => hafter (by simp [h])
      simp [List.count_append,List.count_eq_zero_of_not_mem hf,List.count_eq_zero_of_not_mem hk]
    rw [hanswer,hsignal.mpr (by rw [hcount]; decide)]

end Started
end Overlap

open Overlap

/-- In any run of overlapping suspensions each one that has begun can end, and one that has
ended has begun before. It reports a signal unless the interrupts between the two are a
multiple of `2 ^ 64`, and otherwise what its own duration and budget say. Nothing else of
the run matters to it, and one interrupt signals exactly the suspensions that it meets. -/
theorem suspension_reports_its_window {s : Sleeper} {now : Nat}
    {asks : List (Duration × Option Duration)} {moves : List Move} {o : Overlap}
    (hrun : (start s now asks).run moves = some o) {i : Nat} {duration : Duration}
    {budget : Option Duration} (hi : asks[i]? = some (duration,budget)) :
    (∀ x since, o.stage? i = some (.begun x since) →
      ∃ d o', o.run [.pass d,.ends i] = some o') ∧
    (∀ answer, o.stage? i = some (.ended answer) →
      ∃ before during after : List Move,
        moves = before ++ .begins i :: (during ++ .ends i :: after)) ∧
    (∀ before during after : List Move,
      moves = before ++ .begins i :: (during ++ .ends i :: after) →
      ∃ answer : Except Interruption Unit, o.stage? i = some (.ended answer) ∧
        (answer = .error .signalled ↔ ¬ UInt64.size ∣ during.count .interrupt) ∧
        (∀ b, answer = .error (.budgetExhausted b) ↔
          UInt64.size ∣ during.count .interrupt ∧ budget = some b ∧ b < duration) ∧
        (answer = .ok () ↔
          UInt64.size ∣ during.count .interrupt ∧ ∀ b, budget = some b → ¬ b < duration)) ∧
    (∀ (s' : Sleeper) (now' : Nat) (asks' : List (Duration × Option Duration))
      (moves' : List Move) (o' : Overlap) (j : Nat),
      (start s' now' asks').run moves' = some o' → asks'[j]? = some (duration,budget) →
      ∀ before during after before' during' after' : List Move,
        moves = before ++ .begins i :: (during ++ .ends i :: after) →
        moves' = before' ++ .begins j :: (during' ++ .ends j :: after') →
        during.count .interrupt ≡ during'.count .interrupt [MOD UInt64.size] →
        o'.stage? j = o.stage? i) ∧
    (∀ before after : List Move, moves = before ++ .interrupt :: after →
      .interrupt ∉ before → .interrupt ∉ after →
      (o.stage? i = some (.ended (.error .signalled)) ↔
        .begins i ∈ before ∧ .ends i ∈ after)) := by
  refine ⟨?_,?_,?_,?_,?_⟩
  · intro x since hbegun
    exact begun_can_end hbegun
  · intro answer he
    exact exists_window hrun (start_rests hi) he
  · intro before during after hm
    exact window_report hrun hi hm
  · intro s' now' asks' moves' o' j hrun' hj before during after before' during' after' hm hm'
      hcount
    exact window_report_congr hrun hi hrun' hj hm hm' hcount
  · intro before after hm hbefore hafter
    exact signalled_iff_met hrun hi hm hbefore hafter

/-- Two suspensions around one interrupt that wraps the generation: the first is met by
it, the second begins after it and exhausts its budget. -/
theorem suspension_reports_across_the_wrap :
    ∃ o, (start ⟨18446744073709551615⟩ 7 [(⟨10⟩,none),(⟨9⟩,some ⟨5⟩)]).run
        [.begins 0,.pass ⟨3⟩,.interrupt,.begins 1,.ends 0,.pass ⟨5⟩,.ends 1] = some o ∧
      o.stage? 0 = some (.ended (.error .signalled)) ∧
      o.stage? 1 = some (.ended (.error (.budgetExhausted ⟨5⟩))) := by
  obtain ⟨o,hrun⟩ : ∃ o, (start ⟨18446744073709551615⟩ 7 [(⟨10⟩,none),(⟨9⟩,some ⟨5⟩)]).run
      [.begins 0,.pass ⟨3⟩,.interrupt,.begins 1,.ends 0,.pass ⟨5⟩,.ends 1] = some o :=
    Option.isSome_iff_exists.mp (by decide +kernel)
  obtain ⟨-,-,-,-,hmet⟩ := suspension_reports_its_window hrun (i := 0) rfl
  obtain ⟨-,-,hreport,-,-⟩ := suspension_reports_its_window hrun (i := 1) rfl
  refine ⟨o,hrun,?_,?_⟩
  · have hfirst := hmet [.begins 0,.pass ⟨3⟩] [.begins 1,.ends 0,.pass ⟨5⟩,.ends 1] rfl
      (by decide) (by decide)
    exact hfirst.mpr ⟨by decide,by decide⟩
  · obtain ⟨answer,hanswer,-,hbudget,-⟩ :=
      hreport [.begins 0,.pass ⟨3⟩,.interrupt] [.ends 0,.pass ⟨5⟩] [] rfl
    rw [hanswer,(hbudget ⟨5⟩).mpr ⟨by decide,rfl,by decide⟩]

end GridWorker
