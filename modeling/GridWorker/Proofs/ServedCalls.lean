import GridWorker.Session
import GridWorker.Proofs.HandledCourses

/-! # Calls on one counter

Calls served one after the other share a counter and nothing else: what answers for a
sleep may be anything, and need not be the same from call to call. A session on one
sleeper is such a sequence, each call being answered by the sleeper as the calls and
interrupts before it have left it.
-/
namespace GridWorker

/-- A request with its clock and whatever answers for its sleep. -/
structure Handling where
  request : Request
  clock : Timeline
  suspend : Answer

def Handling.on (x : Handling) (c : Counter) : Handled := x.request.handle x.clock x.suspend c

namespace Counter

def serve (c : Counter) : List Handling → List Handled × Counter
  | [] => ([],c)
  | x :: rest => (x.on c :: ((x.on c).counter.serve rest).1,((x.on c).counter.serve rest).2)

theorem serve_append (c : Counter) (xs ys : List Handling) :
    c.serve (xs ++ ys) =
      ((c.serve xs).1 ++ ((c.serve xs).2.serve ys).1,((c.serve xs).2.serve ys).2) := by
  induction xs generalizing c with
  | nil => rfl
  | cons x rest ih => simp only [List.cons_append,serve,ih]

theorem serve_length (c : Counter) (xs : List Handling) : (c.serve xs).1.length = xs.length := by
  induction xs generalizing c with
  | nil => rfl
  | cons x rest ih => simp only [serve,List.length_cons,ih]

theorem serve_take (c : Counter) (xs : List Handling) (n : Nat) :
    (c.serve (xs.take n)).1 = (c.serve xs).1.take n := by
  have h := congrArg Prod.fst (c.serve_append (xs.take n) (xs.drop n))
  rw [List.take_append_drop] at h
  by_cases hn : n ≤ xs.length
  · have hl : (c.serve (xs.take n)).1.length = n := by
      rw [serve_length,List.length_take,Nat.min_eq_left hn]
    rw [h,List.take_append_of_le_length (Nat.le_of_eq hl.symm),
      List.take_of_length_le (Nat.le_of_eq hl)]
  · rw [List.take_of_length_le (by omega),List.take_of_length_le (by rw [serve_length]; omega)]

/-- Every call is handled on the counter that the calls before it have left, and the
counter that it leaves is the one after it. -/
theorem serve_getElem? {c : Counter} {xs : List Handling} {n : Nat} {h : Handled}
    (he : (c.serve xs).1[n]? = some h) :
    ∃ x, xs[n]? = some x ∧ h = x.on (c.serve (xs.take n)).2 ∧
      (c.serve (xs.take (n + 1))).2 = h.counter := by
  have hn : n < xs.length := by
    rw [← c.serve_length xs]
    exact (List.getElem?_eq_some_iff.mp he).1
  have hx : xs.take (n + 1) = xs.take n ++ [xs[n]] := List.take_succ_eq_append_getElem hn
  have hs := c.serve_append (xs.take n) [xs[n]]
  rw [← hx] at hs
  have hl : (c.serve (xs.take n)).1.length = n := by
    rw [serve_length,List.length_take,Nat.min_eq_left (Nat.le_of_lt hn)]
  have hh : h = xs[n].on (c.serve (xs.take n)).2 := by
    have ht : (c.serve (xs.take (n + 1))).1[n]? = some h := by
      rw [serve_take,List.getElem?_take_of_lt (Nat.lt_succ_self n),he]
    rw [hs,List.getElem?_append_right (Nat.le_of_eq hl),hl,Nat.sub_self] at ht
    exact (Option.some.inj ht).symm
  refine ⟨xs[n],List.getElem?_eq_getElem hn,hh,?_⟩
  rw [hs,hh]
  rfl

end Counter

namespace Shared

def handlings (s : Shared) : List Call → List Handling
  | [] => []
  | c :: rest =>
    ⟨c.request,c.clock,
      c.suspender.answer (Nat.repeat Sleeper.interrupt c.interruptsBefore s.sleeper)⟩ ::
      (s.call c).2.handlings rest

/-- A session serves its calls on the counter that is shared. -/
theorem session_eq_serve (s : Shared) (calls : List Call) :
    (s.session calls).1 = (s.counter.serve (s.handlings calls)).1 ∧
    (s.session calls).2.counter = (s.counter.serve (s.handlings calls)).2 := by
  induction calls generalizing s with
  | nil => exact ⟨rfl,rfl⟩
  | cons c rest ih =>
    obtain ⟨hs,hc⟩ := ih (s.call c).2
    exact ⟨congrArg ((s.call c).1 :: ·) hs,hc⟩

theorem handlings_take (s : Shared) (calls : List Call) (n : Nat) :
    s.handlings (calls.take n) = (s.handlings calls).take n := by
  induction calls generalizing s n with
  | nil => simp [handlings]
  | cons c rest ih =>
    cases n with
    | zero => rfl
    | succ n => simp only [List.take_succ_cons,handlings,ih]

end Shared
end GridWorker
