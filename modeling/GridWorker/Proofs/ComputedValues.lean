import GridWorker.Proofs.PlannedWorkloads
import GridWorker.Proofs.RingWindow

/-! # The value of a computation

The two limits of a computation are words, and so are the slots and the steps that they stand
for, since products stop at the largest word. Any memory at all gives slots enough, so that the
value depends on the steps alone. Without memory the ring has its one slot and the value is zero,
unless there are no steps. Limits that are planned are far from where products stop.
-/
namespace GridWorker

theorem slotsOfGigabytes_le (gigabytes : Nat) : slotsOfGigabytes gigabytes ≤ wordMax := by
  unfold slotsOfGigabytes
  omega

theorem slotsOfGigabytes_pos {gigabytes : Nat} (given : 1 ≤ gigabytes) :
    2 ≤ slotsOfGigabytes gigabytes := by
  have hword : wordMax = 0xffffffffffffffff := rfl
  unfold slotsOfGigabytes
  omega

theorem slotsOfGigabytes_le_billion {gigabytes : Nat} (few : gigabytes ≤ 8) :
    slotsOfGigabytes gigabytes ≤ 1000000000 := by
  have hcut : slotsOfGigabytes gigabytes ≤ gigabytes * 1000000000 / 8 :=
    Nat.div_le_div_right (Nat.min_le_left ..)
  omega

theorem iterationsOfMillions_le (millions : Nat) : iterationsOfMillions millions ≤ wordMax :=
  Nat.min_le_right ..

theorem iterationsOfMillions_pos {millions : Nat} (given : 1 ≤ millions) :
    3 ≤ iterationsOfMillions millions := by
  have hword : wordMax = 0xffffffffffffffff := rfl
  unfold iterationsOfMillions
  omega

theorem Ring.before_size_le {capacity : Nat} (positive : 1 ≤ capacity) (i : Nat) :
    (before capacity i).slots.size ≤ max 2 capacity := by
  have hsize := before_size positive i
  omega

section Computation
variable {ram iterations : UInt64}

theorem computationValue_of_idle (idle : iterations = 0) :
    computationValue ram iterations = 123 := by
  subst idle
  exact syntheticValue_short (by decide)

theorem one_le_toNat {n : UInt64} (h : n ≠ 0) : 1 ≤ n.toNat :=
  Nat.one_le_iff_ne_zero.mpr fun h0 => h (UInt64.toNat_inj.mp h0)

theorem computationValue_of_no_memory (busy : iterations ≠ 0) :
    computationValue 0 iterations = 0 :=
  syntheticValue_of_one (by decide) (iterationsOfMillions_pos (one_le_toNat busy))

theorem computationValue_of_memory (memory : ram ≠ 0) (busy : iterations ≠ 0) :
    computationValue ram iterations =
      Nat.fib (min (iterations.toNat * 1000000) 0xffffffffffffffff - 1) % 1000000000 :=
  syntheticValue_of_two (slotsOfGigabytes_pos (one_le_toNat memory))
    (iterationsOfMillions_pos (one_le_toNat busy))

theorem computationValue_congr {other : UInt64} (memory : ram ≠ 0) (more : other ≠ 0) :
    computationValue other iterations = computationValue ram iterations := by
  by_cases hidle : iterations = 0
  · rw [computationValue_of_idle hidle,computationValue_of_idle hidle]
  · rw [computationValue_of_memory memory hidle,computationValue_of_memory more hidle]

theorem Workload.limits_of_plan {arguments : List Argument}
    (planned : plan arguments = .ok (.compute ram iterations)) :
    1 ≤ ram.toNat ∧ ram.toNat ≤ 8 ∧ iterations.toNat ≤ 1000 := by
  cases plan_sound planned with
  | compute _ _ _ _ ramLeast ramMost _ iterationsMost => exact ⟨ramLeast,ramMost,iterationsMost⟩

end Computation

/-- For all limits, the slots and the steps of a computation are words, no step fails, and the
value is the Fibonacci number before the last step, modulo `10 ^ 9`, unless there are no steps or
there is no memory. So any memory gives the value that any other does. What planning admits is
never cut off at the largest word, and fills `10 ^ 9` slots at most. -/
theorem computed_value_is_fibonacci (ram iterations : UInt64) :
    (slotsOfGigabytes ram.toNat ≤ 0xffffffffffffffff ∧
      iterationsOfMillions iterations.toNat ≤ 0xffffffffffffffff ∧
      Ring.checkedValue? (slotsOfGigabytes ram.toNat) (iterationsOfMillions iterations.toNat) =
        some (computationValue ram iterations)) ∧
    computationValue ram iterations =
      (if iterations = 0 then 123 else if ram = 0 then 0
        else Nat.fib (min (iterations.toNat * 1000000) 0xffffffffffffffff - 1) % 1000000000) ∧
    (∀ other : UInt64, ram ≠ 0 → other ≠ 0 →
      computationValue other iterations = computationValue ram iterations) ∧
    ∀ arguments, Workload.plan arguments = .ok (.compute ram iterations) →
      ram.toNat * 1000000000 ≤ 0xffffffffffffffff ∧
      iterations.toNat * 1000000 ≤ 0xffffffffffffffff ∧
      slotsOfGigabytes ram.toNat ≤ 1000000000 ∧
      ∀ i, (Ring.before (max (slotsOfGigabytes ram.toNat) 1) i).slots.size ≤ 1000000000 := by
  refine ⟨⟨slotsOfGigabytes_le _,iterationsOfMillions_le _,Ring.checkedValue?_eq _ _⟩,?_,
    fun other => computationValue_congr,?_⟩
  · by_cases hidle : iterations = 0
    · rw [if_pos hidle]
      exact computationValue_of_idle hidle
    · by_cases hmemory : ram = 0
      · rw [if_neg hidle,if_pos hmemory,hmemory]
        exact computationValue_of_no_memory hidle
      · rw [if_neg hidle,if_neg hmemory]
        exact computationValue_of_memory hmemory hidle
  · intro arguments planned
    obtain ⟨-,hram,hiterations⟩ := Workload.limits_of_plan planned
    have hslots := slotsOfGigabytes_le_billion hram
    refine ⟨by omega,by omega,hslots,?_⟩
    intro i
    have hsize := Ring.before_size_le (Nat.le_max_right (slotsOfGigabytes ram.toNat) 1) i
    omega

/-- The largest plan there is, and the same memory with steps that are cut off. -/
theorem largest_plan_fills_a_billion_slots :
    let arguments : List Argument := [.integer (-1),.integer 8,.integer 1000]
    Workload.plan arguments = .ok (.compute 8 1000) ∧ slotsOfGigabytes 8 = 1000000000 ∧
    (∀ i, (Ring.before (max (slotsOfGigabytes 8) 1) i).slots.size ≤ 1000000000) ∧
    computationValue 8 1000 = Nat.fib 999999999 % 1000000000 ∧
    computationValue 0xffffffffffffffff 1000 = computationValue 8 1000 ∧
    computationValue 8 0xffffffffffffffff = Nat.fib 0xfffffffffffffffe % 1000000000 := by
  intro arguments
  have hplan : Workload.plan arguments = .ok (.compute 8 1000) := by decide
  have hsteps : min ((1000 : UInt64).toNat * 1000000) 0xffffffffffffffff - 1 = 999999999 := by
    decide
  have hcut : min ((0xffffffffffffffff : UInt64).toNat * 1000000) 0xffffffffffffffff - 1 =
      0xfffffffffffffffe := by decide
  obtain ⟨-,hvalue,hother,hplanned⟩ := computed_value_is_fibonacci 8 1000
  obtain ⟨-,hlong,-,-⟩ := computed_value_is_fibonacci 8 0xffffffffffffffff
  obtain ⟨-,-,-,hsize⟩ := hplanned arguments hplan
  rw [if_neg (by decide),if_neg (by decide),hsteps] at hvalue
  rw [if_neg (by decide),if_neg (by decide),hcut] at hlong
  exact ⟨hplan,rfl,hsize,hvalue,hother 0xffffffffffffffff (by decide) (by decide),hlong⟩

end GridWorker
