import Mathlib.Data.List.Nodup
import GridWorker.Counter

/-! # Tickets of a counter

Every operation on a counter answers the count before it, so the answers to the records of a
run are consecutive tickets, from the first count on and from the largest count back to zero.
A run is any list of turns: whatever its threads do, in whatever order their operations meet.
Short of the wrap, an answer is never below an answer before it, and it is above every ticket
before it.
-/
namespace GridWorker
namespace Counter

def Turn.records (t : Turn) : Bool := t.operation = .record

def after (c : Counter) (n : Nat) : Counter := ⟨c.count + UInt64.ofNat n⟩

def tickets (answers : List (Turn × UInt64)) : List UInt64 :=
  (answers.filter fun a => a.1.records).map Prod.snd

/-- The answers to the records of one thread, in the order of the run. -/
def ticketsOf (thread : Nat) (answers : List (Turn × UInt64)) : List UInt64 :=
  tickets (answers.filter fun a => a.1.thread = thread)

def readings (answers : List (Turn × UInt64)) : List UInt64 :=
  (answers.filter fun a => !a.1.records).map Prod.snd

section After
variable (c : Counter) (m n : Nat)

@[simp] theorem after_zero : c.after 0 = c := congrArg Counter.mk (UInt64.add_zero c.count)

theorem after_after : (c.after m).after n = c.after (m + n) := by
  simp only [after,UInt64.ofNat_add,UInt64.add_assoc]

theorem after_current_toNat :
    (c.after n).current.toNat = (c.current.toNat + n) % UInt64.size := by
  have hsum : (c.count + UInt64.ofNat n).toNat =
      (c.count.toNat + n % UInt64.size) % UInt64.size := by
    rw [UInt64.toNat_add,UInt64.toNat_ofNat']
  exact hsum.trans (Nat.add_mod_mod ..)

theorem after_current_of_fits (fits : c.current.toNat + n < UInt64.size) :
    (c.after n).current.toNat = c.current.toNat + n := by
  rw [after_current_toNat,Nat.mod_eq_of_lt fits]

/-- A counter does not come back to a count within `2 ^ 64` records. -/
theorem after_current_inj {c : Counter} {m n : Nat} (hm : m < UInt64.size) (hn : n < UInt64.size)
    (h : (c.after m).current = (c.after n).current) : m = n := by
  have hcount := c.current.toNat_lt
  have hnat := congrArg UInt64.toNat h
  rw [after_current_toNat,after_current_toNat] at hnat
  simp only [UInt64.size] at hm hn hnat
  omega

end After

section Trace
variable (c : Counter)

/-- A turn answers the count before it, and moves the counter on if it records. -/
theorem trace_cons (t : Turn) (rest : List Turn) : c.trace (t :: rest) =
    ((t,c.current) :: ((c.after t.records.toNat).trace rest).1,
      ((c.after t.records.toNat).trace rest).2) := by
  rcases t with ⟨thread,_ | _⟩
  · rfl
  · rw [show (⟨thread,.read⟩ : Turn).records.toNat = 0 from rfl,after_zero]
    rfl

theorem countP_records_cons (t : Turn) (rest : List Turn) :
    (t :: rest).countP Turn.records = t.records.toNat + rest.countP Turn.records := by
  rw [List.countP_cons,Nat.add_comm]
  cases t.records <;> rfl

theorem trace_final (turns : List Turn) :
    (c.trace turns).2 = c.after (turns.countP Turn.records) := by
  induction turns generalizing c with
  | nil => exact c.after_zero.symm
  | cons t rest ih => rw [trace_cons,ih,after_after,countP_records_cons]

/-- Every answer is the count after the records before it. -/
theorem trace_getElem? (turns : List Turn) (i : Nat) : (c.trace turns).1[i]? =
    turns[i]?.map fun t => (t,(c.after ((turns.take i).countP Turn.records)).current) := by
  induction turns generalizing c i with
  | nil => rfl
  | cons t rest ih =>
    rw [trace_cons]
    cases i with
    | zero => simp
    | succ i =>
      rw [List.getElem?_cons_succ,List.getElem?_cons_succ,List.take_succ_cons,
        countP_records_cons,← after_after]
      exact ih (c.after t.records.toNat) i

theorem trace_map_fst (turns : List Turn) : (c.trace turns).1.map Prod.fst = turns := by
  induction turns generalizing c with
  | nil => rfl
  | cons t rest ih => rw [trace_cons,List.map_cons,ih]

theorem tickets_trace (turns : List Turn) : tickets (c.trace turns).1 =
    (List.range (turns.countP Turn.records)).map fun k => (c.after k).current := by
  induction turns generalizing c with
  | nil => rfl
  | cons t rest ih =>
    rw [trace_cons,countP_records_cons]
    cases ht : t.records with
    | true =>
      have htickets : tickets ((t,c.current) :: ((c.after 1).trace rest).1) =
          c.current :: tickets ((c.after 1).trace rest).1 := by simp [tickets,ht]
      rw [Bool.toNat_true,htickets,ih,Nat.add_comm,List.range_succ_eq_map,List.map_cons,
        after_zero,List.map_map]
      simp only [after_after,Function.comp_def,Nat.succ_eq_add_one,Nat.add_comm]
    | false =>
      have htickets : tickets ((t,c.current) :: (c.trace rest).1) =
          tickets (c.trace rest).1 := by simp [tickets,ht]
      rw [Bool.toNat_false,after_zero,htickets,ih,Nat.zero_add]

theorem tickets_nodup {turns : List Turn} (few : turns.countP Turn.records ≤ UInt64.size) :
    (tickets (c.trace turns).1).Nodup := by
  rw [tickets_trace]
  refine List.Nodup.map_on ?_ List.nodup_range
  intro m hm n hn
  rw [List.mem_range] at hm hn
  exact after_current_inj (by omega) (by omega)

theorem mem_trace {turns : List Turn} {a : Turn × UInt64} (h : a ∈ (c.trace turns).1) :
    ∃ n ≤ turns.countP Turn.records, a.2 = (c.after n).current := by
  obtain ⟨i,hi⟩ := List.mem_iff_getElem?.mp h
  rw [trace_getElem?] at hi
  obtain ⟨t,-,rfl⟩ := Option.map_eq_some_iff.mp hi
  exact ⟨_,(List.take_sublist i turns).countP_le,rfl⟩

/-- Short of the wrap, no answer is below an answer before it, or at a ticket before it. -/
theorem trace_pairwise {turns : List Turn}
    (fits : c.current.toNat + turns.countP Turn.records < UInt64.size) :
    (c.trace turns).1.Pairwise fun a b => a.2 ≤ b.2 ∧ (a.1.records = true → a.2 < b.2) := by
  induction turns generalizing c with
  | nil => exact .nil
  | cons t rest ih =>
    rw [countP_records_cons] at fits
    have hcount : (c.after t.records.toNat).current.toNat = c.current.toNat + t.records.toNat :=
      c.after_current_of_fits _ (by omega)
    rw [trace_cons,List.pairwise_cons]
    refine ⟨?_,ih (c.after t.records.toNat) (by omega)⟩
    -- The rest starts at the count after `t`, which is one more if `t` records.
    intro b hb
    obtain ⟨n,hn,hanswer⟩ := (c.after t.records.toNat).mem_trace hb
    have hnat : b.2.toNat = c.current.toNat + t.records.toNat + n := by
      rw [hanswer,after_after,c.after_current_of_fits _ (by omega),Nat.add_assoc]
    change c.current ≤ b.2 ∧ (t.records = true → c.current < b.2)
    refine ⟨UInt64.le_iff_toNat_le.mpr (by omega),?_⟩
    intro ht
    rw [ht,Bool.toNat_true] at hnat
    exact UInt64.lt_iff_toNat_lt.mpr (by omega)

theorem ticketsOf_pairwise {turns : List Turn}
    (fits : c.current.toNat + turns.countP Turn.records < UInt64.size) (thread : Nat) :
    (ticketsOf thread (c.trace turns).1).Pairwise (· < ·) := by
  rw [ticketsOf,tickets,List.pairwise_map,List.pairwise_filter]
  refine ((c.trace_pairwise fits).filter _).imp ?_
  intro a b hab ha _
  exact hab.2 ha

theorem readings_pairwise {turns : List Turn}
    (fits : c.current.toNat + turns.countP Turn.records < UInt64.size) :
    (readings (c.trace turns).1).Pairwise (· ≤ ·) := by
  rw [readings,List.pairwise_map]
  exact ((c.trace_pairwise fits).filter _).imp And.left

end Trace
end Counter

open Counter

/-- Whatever the turns of a run, its records take the tickets from the first count on, one after
the other and modulo `2 ^ 64`, so that none is lost and, within `2 ^ 64` records, none is handed
out twice. Every read answers the first count plus the records before it, and so does a read
after the run. Unless the count wraps, every thread sees its tickets rise, and no read falls
behind an earlier one. -/
theorem records_take_consecutive_tickets (c : Counter) (turns : List Turn) :
    let answers := (c.trace turns).1
    let n := turns.countP Turn.records
    answers.map Prod.fst = turns ∧
    (tickets answers).map UInt64.toNat =
      (List.range n).map (fun k => (c.current.toNat + k) % UInt64.size) ∧
    (n ≤ UInt64.size → (tickets answers).Nodup) ∧
    (c.trace turns).2.current.toNat = (c.current.toNat + n) % UInt64.size ∧
    (∀ i thread, turns[i]? = some ⟨thread,.read⟩ →
      ∃ count, answers[i]? = some (⟨thread,.read⟩,count) ∧ count.toNat =
        (c.current.toNat + (turns.take i).countP Turn.records) % UInt64.size) ∧
    (c.current.toNat + n < UInt64.size →
      (∀ thread, (ticketsOf thread answers).Pairwise (· < ·)) ∧
      (readings answers).Pairwise (· ≤ ·)) := by
  intro answers n
  refine ⟨c.trace_map_fst turns,?_,c.tickets_nodup,?_,?_,?_⟩
  · rw [c.tickets_trace turns,List.map_map]
    simp only [Function.comp_def,after_current_toNat]
    rfl
  · rw [c.trace_final turns,after_current_toNat]
  · intro i thread hi
    refine ⟨(c.after ((turns.take i).countP Turn.records)).current,?_,
      c.after_current_toNat _⟩
    rw [c.trace_getElem? turns i,hi]
    rfl
  · intro fits
    exact ⟨c.ticketsOf_pairwise fits,c.readings_pairwise fits⟩

/-- Two threads whose tickets go over the largest count, and the same threads from zero on. -/
theorem tickets_cross_the_wrap :
    let turns : List Turn := [⟨1,.record⟩,⟨2,.record⟩,⟨1,.read⟩,⟨1,.record⟩]
    let late : Counter := ⟨0xfffffffffffffffe⟩
    (tickets (late.trace turns).1).map UInt64.toNat =
      [0xfffffffffffffffe,0xffffffffffffffff,0] ∧
    (tickets (late.trace turns).1).Nodup ∧ (late.trace turns).2.current.toNat = 1 ∧
    (∃ count, (late.trace turns).1[2]? = some (⟨1,.read⟩,count) ∧ count.toNat = 0) ∧
    zero.current.toNat + turns.countP Turn.records < UInt64.size ∧
    (ticketsOf 1 (zero.trace turns).1).Pairwise (· < ·) ∧
    (readings (zero.trace turns).1).Pairwise (· ≤ ·) := by
  intro turns late
  obtain ⟨-,htickets,hnodup,hfinal,hread,-⟩ := records_take_consecutive_tickets late turns
  obtain ⟨-,-,-,-,-,hrise⟩ := records_take_consecutive_tickets zero turns
  have fits : zero.current.toNat + turns.countP Turn.records < UInt64.size := by decide
  obtain ⟨hthreads,hreads⟩ := hrise fits
  obtain ⟨count,hanswer,hcount⟩ := hread 2 1 rfl
  exact ⟨htickets.trans (by decide),hnodup (by decide),hfinal.trans (by decide),
    ⟨count,hanswer,hcount.trans (by decide)⟩,fits,hthreads 1,hreads⟩

end GridWorker
