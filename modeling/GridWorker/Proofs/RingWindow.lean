import Mathlib.Data.Nat.Fib.Basic
import GridWorker.Ring

/-! # What the ring holds

Before each step the ring holds the latest numbers of the Fibonacci sequence modulo `10 ^ 9`,
as many as it has slots, each in the slot of its number. The two numbers that a step adds are
always among them when there are two slots or more, so the value of a computation does not
depend on the capacity. With a single slot the ring keeps adding zero to itself. No step reads
or writes outside the ring, and no sum leaves a signed word.
-/
namespace GridWorker
namespace Ring

/-- The sum of step `i` as long as no slot is lost before it is read. -/
def term (i : Nat) : Nat := Nat.fib i % modulus

theorem term_add (i : Nat) : (term i + term (i + 1)) % modulus = term (i + 2) := by
  rw [term,term,term,← Nat.add_mod,Nat.fib_add_two]

/-- What a ring of this capacity holds before step `i`. The capacity limits only the slots that
are added to the first two. -/
structure Holds (capacity i : Nat) (r : Ring) : Prop where
  size : r.slots.size = max 2 (min i capacity)
  small : ∀ j, r.slots.getD j 0 < modulus
  recent : 2 ≤ capacity → ∀ j < i, i ≤ j + capacity → r.slots.getD (j % capacity) 0 = term j
  still : capacity = 1 → r.slots.getD 0 0 = 0

theorem Holds.mem_lt {capacity i : Nat} {r : Ring} (holds : r.Holds capacity i) :
    ∀ n ∈ r.slots, n < modulus := by
  intro n hn
  obtain ⟨j,hj,rfl⟩ := Array.mem_iff_getElem.mp hn
  have hsmall := holds.small j
  rwa [Array.getD_eq_getD_getElem?,Array.getElem?_eq_getElem hj,Option.getD_some] at hsmall

theorem start_holds (capacity : Nat) : start.Holds capacity 2 where
  size := by
    change 2 = _
    omega
  small := by
    intro j
    match j with
    | 0 => decide
    | 1 => decide
    | j + 2 =>
      change 0 < modulus
      decide
  recent := by
    intro htwo j hj _
    have hslot : j % capacity = j := Nat.mod_eq_of_lt (by omega)
    rw [hslot]
    rcases (by omega : j = 0 ∨ j = 1) with rfl | rfl <;> rfl
  still := fun _ => rfl

section Step
variable (capacity i : Nat) (r : Ring)

theorem step_value : (r.step capacity i).value =
    (r.slots.getD ((i - 2) % capacity) 0 + r.slots.getD ((i - 1) % capacity) 0) % modulus := rfl

theorem step_slots : (r.step capacity i).slots =
    if i < capacity then r.slots.push (r.step capacity i).value
    else r.slots.setIfInBounds (i % capacity) (r.step capacity i).value := rfl

/-- A step writes one slot, the slot of its number, and leaves the others alone. -/
theorem step_getD (holds : r.Holds capacity i) (begun : 2 ≤ i) (positive : 1 ≤ capacity)
    (j : Nat) : (r.step capacity i).slots.getD j 0 =
      if j = i % capacity then (r.step capacity i).value else r.slots.getD j 0 := by
  have hsize := holds.size
  rw [step_slots]
  by_cases hgrow : i < capacity
  · have hslot : i % capacity = r.slots.size := by
      rw [Nat.mod_eq_of_lt hgrow]
      omega
    rw [if_pos hgrow,hslot,Array.getD_eq_getD_getElem?,Array.getElem?_push]
    by_cases hj : j = r.slots.size
    · rw [if_pos hj,if_pos hj,Option.getD_some]
    · rw [if_neg hj,if_neg hj,Array.getD_eq_getD_getElem?]
  · have hslot : i % capacity < r.slots.size := by
      have hmod := Nat.mod_lt i positive
      omega
    rw [if_neg hgrow,Array.getD_eq_getD_getElem?,Array.getElem?_setIfInBounds]
    by_cases hj : j = i % capacity
    · rw [if_pos hj.symm,if_pos hj,if_pos hslot,Option.getD_some]
    · rw [if_neg (Ne.symm hj),if_neg hj,Array.getD_eq_getD_getElem?]

end Step

section Preservation
variable {capacity i : Nat} {r : Ring}

theorem Holds.value_eq_term (holds : r.Holds capacity i) (begun : 2 ≤ i) (two : 2 ≤ capacity) :
    (r.step capacity i).value = term i := by
  obtain ⟨k,rfl⟩ := Nat.exists_eq_add_of_le' begun
  have hfirst := holds.recent two k (by omega) (by omega)
  have hsecond := holds.recent two (k + 1) (by omega) (by omega)
  rw [step_value,show k + 2 - 2 = k by omega,show k + 2 - 1 = k + 1 by omega,hfirst,hsecond,
    term_add]

theorem Holds.value_eq_zero (holds : r.Holds capacity i) (one : capacity = 1) :
    (r.step capacity i).value = 0 := by
  have hslot := holds.still one
  subst one
  rw [step_value,Nat.mod_one,Nat.mod_one,hslot]
  rfl

/-- The slot of an earlier number is not the slot of this one before the ring has gone round. -/
theorem mod_ne_mod {j : Nat} (before : j < i) (near : i < j + capacity) :
    j % capacity ≠ i % capacity := by
  intro hsame
  have hdvd : capacity ∣ i - j :=
    Nat.dvd_of_mod_eq_zero (Nat.sub_mod_eq_zero_of_mod_eq hsame.symm)
  have hle := Nat.le_of_dvd (by omega) hdvd
  omega

theorem Holds.step (holds : r.Holds capacity i) (begun : 2 ≤ i) (positive : 1 ≤ capacity) :
    (r.step capacity i).Holds capacity (i + 1) where
  size := by
    have hsize := holds.size
    rw [step_slots]
    by_cases hgrow : i < capacity
    · rw [if_pos hgrow,Array.size_push]
      omega
    · rw [if_neg hgrow,Array.size_setIfInBounds]
      omega
  small := by
    intro j
    rw [step_getD capacity i r holds begun positive]
    by_cases hj : j = i % capacity
    · rw [if_pos hj,step_value]
      exact Nat.mod_lt _ (by decide)
    · rw [if_neg hj]
      exact holds.small j
  recent := by
    intro two j hj hnear
    rw [step_getD capacity i r holds begun positive]
    rcases Nat.lt_succ_iff_lt_or_eq.mp hj with hbefore | rfl
    · rw [if_neg (mod_ne_mod hbefore (by omega))]
      exact holds.recent two j hbefore (by omega)
    · rw [if_pos rfl]
      exact holds.value_eq_term begun two
  still := by
    intro one
    rw [step_getD capacity i r holds begun positive,holds.value_eq_zero one,holds.still one]
    exact ite_self 0

end Preservation

section Run
variable {capacity : Nat}

theorem before_succ {i : Nat} (begun : 2 ≤ i) :
    before capacity (i + 1) = (before capacity i).step capacity i := by
  obtain ⟨k,rfl⟩ := Nat.exists_eq_add_of_le' begun
  exact Nat.fold_succ ..

theorem before_holds (positive : 1 ≤ capacity) {i : Nat} (begun : 2 ≤ i) :
    (before capacity i).Holds capacity i := by
  induction i, begun using Nat.le_induction with
  | base => exact start_holds capacity
  | succ i begun ih =>
    rw [before_succ begun]
    exact ih.step begun positive

theorem before_of_le_two {i : Nat} (early : i ≤ 2) : before capacity i = start := by
  rw [before,Nat.sub_eq_zero_of_le early]
  rfl

theorem before_size (positive : 1 ≤ capacity) (i : Nat) :
    (before capacity i).slots.size = max 2 (min i capacity) := by
  rcases Nat.le_total i 2 with early | begun
  · have hsize := (start_holds capacity).size
    rw [before_of_le_two early]
    omega
  · exact (before_holds positive begun).size

theorem before_small (positive : 1 ≤ capacity) (i : Nat) :
    ∀ n ∈ (before capacity i).slots, n < modulus := by
  rcases Nat.le_total i 2 with early | begun
  · rw [before_of_le_two early]
    exact (start_holds capacity).mem_lt
  · exact (before_holds positive begun).mem_lt

theorem before_value_lt (capacity i : Nat) : (before capacity i).value < modulus := by
  rcases Nat.lt_or_ge 2 i with begun | early
  · obtain ⟨k,rfl⟩ : ∃ k, i = k + 2 + 1 := ⟨i - 3,by omega⟩
    rw [before_succ (Nat.le_add_left 2 k),step_value]
    exact Nat.mod_lt _ (by decide)
  · rw [before_of_le_two early]
    decide

end Run

/-- Step `i` with nothing taken for granted: the slots that it reads and writes must be there,
and the sum must fit a signed word. -/
def step? (capacity i : Nat) (r : Ring) : Option Ring := do
  let first ← r.slots[(i - 2) % capacity]?
  let second ← r.slots[(i - 1) % capacity]?
  let sum := (first + second) % modulus
  if 0x8000000000000000 ≤ first + second then none
  else if i < capacity then some ⟨r.slots.push sum,sum⟩
  else if r.slots.size ≤ i % capacity then none
  else some ⟨r.slots.setIfInBounds (i % capacity) sum,sum⟩

def checkedValue? (capacity iterations : Nat) : Option Nat :=
  let steps := List.range (iterations - 2)
  (steps.foldlM (fun (r : Ring) k => r.step? (max capacity 1) (k + 2)) start).map Ring.value

theorem Holds.getElem?_eq {capacity i : Nat} {r : Ring} (holds : r.Holds capacity i) (begun : 2 ≤ i)
    (positive : 1 ≤ capacity) {j : Nat} (before : j < i) :
    r.slots[j % capacity]? = some (r.slots.getD (j % capacity) 0) := by
  have hsize := holds.size
  have hmod := Nat.mod_lt j positive
  have hle := Nat.mod_le j capacity
  have hslot : j % capacity < r.slots.size := by omega
  rw [Array.getElem?_eq_getElem hslot,Array.getD_eq_getD_getElem?,Array.getElem?_eq_getElem hslot,
    Option.getD_some]

theorem Holds.step?_eq {capacity i : Nat} {r : Ring} (holds : r.Holds capacity i) (begun : 2 ≤ i)
    (positive : 1 ≤ capacity) : r.step? capacity i = some (r.step capacity i) := by
  have hfirst := holds.getElem?_eq begun positive (j := i - 2) (by omega)
  have hsecond := holds.getElem?_eq begun positive (j := i - 1) (by omega)
  have hsum := Nat.add_lt_add (holds.small ((i - 2) % capacity)) (holds.small ((i - 1) % capacity))
  have hword : modulus + modulus ≤ 0x8000000000000000 := by decide
  simp only [step?,hfirst,hsecond,Option.bind_eq_bind,Option.bind_some]
  rw [if_neg (by omega)]
  by_cases hgrow : i < capacity
  · rw [if_pos hgrow,Ring.step,if_pos hgrow]
  · have hsize := holds.size
    have hmod := Nat.mod_lt i positive
    rw [if_neg hgrow,if_neg (by omega),Ring.step,if_neg hgrow]

/-- A checked run goes through the given states when each of its steps does. -/
theorem foldlM_range {σ : Type} {f : σ → Nat → Option σ} {s : Nat → σ} {steps : Nat}
    (each : ∀ k < steps, f (s k) k = some (s (k + 1))) :
    (List.range steps).foldlM f (s 0) = some (s steps) := by
  induction steps with
  | zero => rfl
  | succ steps ih =>
    have hrun := ih fun k hk => each k (Nat.lt_succ_of_lt hk)
    have hlast := each steps (Nat.lt_succ_self steps)
    rw [List.range_succ,List.foldlM_append,hrun]
    simp only [Option.bind_eq_bind,Option.bind_some,List.foldlM_cons,List.foldlM_nil,hlast]
    rfl

theorem foldlM_step?_eq {capacity : Nat} (positive : 1 ≤ capacity) (steps : Nat) :
    (List.range steps).foldlM (fun (r : Ring) k => r.step? capacity (k + 2)) start =
      some (before capacity (steps + 2)) := by
  refine foldlM_range (s := fun k => before capacity (k + 2)) ?_
  intro k _
  have hbegun : 2 ≤ k + 2 := Nat.le_add_left 2 k
  rw [(before_holds positive hbegun).step?_eq hbegun positive,before_succ hbegun]

end Ring

theorem Ring.checkedValue?_eq (capacity iterations : Nat) :
    checkedValue? capacity iterations = some (syntheticValue capacity iterations) := by
  rw [checkedValue?,foldlM_step?_eq (Nat.le_max_right capacity 1)]
  rfl

theorem syntheticValue_succ (capacity : Nat) {i : Nat} (begun : 2 ≤ i) :
    syntheticValue capacity (i + 1) =
      ((Ring.before (max capacity 1) i).step (max capacity 1) i).value := by
  rw [syntheticValue,Ring.before_succ begun]

section Cases
variable {capacity iterations : Nat}

theorem syntheticValue_short (short : iterations < 3) :
    syntheticValue capacity iterations = 123 := by
  rw [syntheticValue,Ring.before_of_le_two (Nat.le_of_lt_succ short)]
  rfl

theorem syntheticValue_of_one (one : capacity ≤ 1) (long : 3 ≤ iterations) :
    syntheticValue capacity iterations = 0 := by
  obtain ⟨i,rfl⟩ := Nat.exists_eq_add_of_le' long
  have hholds := Ring.before_holds (Nat.le_max_right capacity 1) (Nat.le_add_left 2 i)
  rw [syntheticValue_succ capacity (Nat.le_add_left 2 i)]
  exact hholds.value_eq_zero (Nat.max_eq_right one)

theorem syntheticValue_of_two (two : 2 ≤ capacity) (long : 3 ≤ iterations) :
    syntheticValue capacity iterations = Ring.term (iterations - 1) := by
  obtain ⟨i,rfl⟩ := Nat.exists_eq_add_of_le' long
  have hholds := Ring.before_holds (Nat.le_max_right capacity 1) (Nat.le_add_left 2 i)
  rw [syntheticValue_succ capacity (Nat.le_add_left 2 i)]
  exact hholds.value_eq_term (Nat.le_add_left 2 i) (by omega)

end Cases

/-- The synthetic computation never fails, and its value is the Fibonacci number before its last
step, modulo `10 ^ 9`, unless the ring has but one slot or there is no step at all. Rings of two
slots and more therefore agree for every number of steps. -/
theorem synthetic_value_is_fibonacci (capacity iterations : Nat) :
    Ring.checkedValue? capacity iterations = some (syntheticValue capacity iterations) ∧
    syntheticValue capacity iterations =
      (if iterations < 3 then 123 else if capacity ≤ 1 then 0
        else Nat.fib (iterations - 1) % 1000000000) ∧
    ∀ other, 2 ≤ capacity → 2 ≤ other →
      syntheticValue other iterations = syntheticValue capacity iterations := by
  have hvalue : ∀ c, syntheticValue c iterations =
      if iterations < 3 then 123 else if c ≤ 1 then 0
        else Nat.fib (iterations - 1) % 1000000000 := by
    intro c
    by_cases hshort : iterations < 3
    · rw [if_pos hshort]
      exact syntheticValue_short hshort
    · have hlong := Nat.le_of_not_lt hshort
      rw [if_neg hshort]
      by_cases hone : c ≤ 1
      · rw [if_pos hone]
        exact syntheticValue_of_one hone hlong
      · rw [if_neg hone]
        exact syntheticValue_of_two (Nat.lt_of_not_le hone) hlong
  refine ⟨Ring.checkedValue?_eq capacity iterations,hvalue capacity,?_⟩
  intro other htwo hother
  rw [hvalue,hvalue,if_neg (by omega : ¬ other ≤ 1),if_neg (by omega : ¬ capacity ≤ 1)]

/-- Two slots do for fifty steps what fifty slots do, past the numbers below `10 ^ 9`. -/
theorem two_slots_do_for_fifty_steps :
    2 ≤ 2 ∧ 2 ≤ 50 ∧ syntheticValue 50 50 = syntheticValue 2 50 ∧
      syntheticValue 2 50 = 778742049 := by
  obtain ⟨-,hvalue,hsame⟩ := synthetic_value_is_fibonacci 2 50
  exact ⟨by decide,by decide,hsame 50 (by decide) (by decide),hvalue.trans (by decide +kernel)⟩

end GridWorker
