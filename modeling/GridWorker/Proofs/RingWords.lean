import GridWorker.Proofs.RingWindow

/-! # The ring in machine words

The synthetic computation on words of 64 bits: slots and value are signed, the numbers of slots
and steps are unsigned. A step asks for everything that could stop it, and no step is stopped,
because the words stand for a ring of natural numbers with its window: the ring has a slot for
every number so far until it has its capacity, no slot reaches `10 ^ 9`, and the latest numbers
of the Fibonacci sequence are in the slots of their numbers.
-/
namespace GridWorker

structure WordRing where
  slots : Array Int64
  value : Int64

namespace WordRing

def start : WordRing := ⟨#[0, 1], 123⟩

def sum? (first second : Int64) : Option Int64 :=
  if first.toBitVec.saddOverflow second.toBitVec then none
  else some ((first + second) % 1000000000)

/-- The slots after step `i`: one more while the ring grows, then one overwritten, which must be
there. -/
def store? (capacity i : UInt64) (sum : Int64) (slots : Array Int64) : Option (Array Int64) :=
  if i < capacity then some (slots.push sum)
  else if (i % capacity).toNat < slots.size then some (slots.setIfInBounds (i % capacity).toNat sum)
  else none

/-- Step `i` with nothing taken for granted: the differences must not be negative, the capacity
must not be zero, the slots must be there and the sum must not overflow. -/
def step? (capacity i : UInt64) (r : WordRing) : Option WordRing := do
  guard (2 ≤ i ∧ 0 < capacity)
  let first ← r.slots[((i - 2) % capacity).toNat]?
  let second ← r.slots[((i - 1) % capacity).toNat]?
  let sum ← sum? first second
  let slots ← store? capacity i sum r.slots
  return ⟨slots,sum⟩

def before? (capacity i : UInt64) : Option WordRing :=
  (List.range (i.toNat - 2)).foldlM
    (fun (r : WordRing) k => r.step? capacity (UInt64.ofNat (k + 2))) start

def value? (ringCapacity iterations : UInt64) : Option Int64 :=
  (before? (max ringCapacity 1) iterations).map value

/-- What is true of a ring at the beginning of step `i`. As long as the ring is not full, the
latest numbers are all numbers so far: the difference of natural numbers stops at zero. -/
structure Sound (capacity i : UInt64) (r : WordRing) : Prop where
  size : r.slots.size = max 2 (min i.toNat capacity.toNat)
  first_lt : ((i - 2) % capacity).toNat < r.slots.size
  second_lt : ((i - 1) % capacity).toNat < r.slots.size
  overwritten_lt : capacity ≤ i → (i % capacity).toNat < r.slots.size
  appended_eq : i < capacity → r.slots.size = i.toNat
  small : ∀ v ∈ r.slots, 0 ≤ v.toInt ∧ v.toInt < 1000000000
  sum_exact : ∀ v ∈ r.slots, ∀ w ∈ r.slots, (v + w).toInt = v.toInt + w.toInt
  recent : 2 ≤ capacity → ∀ j, i.toNat - capacity.toNat ≤ j → j < i.toNat →
    r.slots[j % capacity.toNat]?.map Int64.toInt = some ((Nat.fib j % 1000000000 : Nat) : Int)

structure Stepped (capacity i : UInt64) (r next : WordRing) : Prop where
  succeeds : r.step? capacity i = some next
  appended : i < capacity →
    next.slots = r.slots.push next.value ∧ next.slots[i.toNat]? = some next.value
  overwritten : capacity ≤ i →
    next.slots = r.slots.setIfInBounds (i % capacity).toNat next.value

theorem Sound.push_getElem? {capacity i : UInt64} {r : WordRing} (sound : r.Sound capacity i)
    (grows : i < capacity) (v : Int64) : (r.slots.push v)[i.toNat]? = some v := by
  rw [← sound.appended_eq grows]
  exact Array.getElem?_push_size

end WordRing

namespace Ring

def words (r : Ring) : WordRing := ⟨r.slots.map Int64.ofNat,Int64.ofNat r.value⟩

theorem start_words : start.words = WordRing.start := by
  simp [words,start,WordRing.start]

theorem toInt_word {n : Nat} (small : n < modulus) : (Int64.ofNat n).toInt = n :=
  Int64.toInt_ofNat_of_lt (small.trans (by decide))

theorem map_toInt_words {r : Ring} (small : ∀ n ∈ r.slots, n < modulus) :
    r.words.slots.map Int64.toInt = r.slots.map Int.ofNat := by
  rw [words,Array.map_map]
  exact Array.map_congr_left fun n hn => toInt_word (small n hn)

section Sum
variable {a b : Nat}

theorem toInt_add_words (ha : a < modulus) (hb : b < modulus) :
    (Int64.ofNat a + Int64.ofNat b).toInt = ((a + b : Nat) : Int) := by
  have hword : modulus + modulus < 0x8000000000000000 := by decide
  rw [← Int64.ofNat_add]
  exact Int64.toInt_ofNat_of_lt (by omega)

theorem saddOverflow_words (ha : a < modulus) (hb : b < modulus) :
    (Int64.ofNat a).toBitVec.saddOverflow (Int64.ofNat b).toBitVec = false := by
  have hfirst : (Int64.ofNat a).toBitVec.toInt = a := toInt_word ha
  have hsecond : (Int64.ofNat b).toBitVec.toInt = b := toInt_word hb
  have hword : modulus + modulus < 0x8000000000000000 := by decide
  rw [BitVec.saddOverflow,hfirst,hsecond]
  simp only [Bool.or_eq_false_iff,decide_eq_false_iff_not]
  omega

theorem sum?_words (ha : a < modulus) (hb : b < modulus) :
    WordRing.sum? (Int64.ofNat a) (Int64.ofNat b) = some (Int64.ofNat ((a + b) % modulus)) := by
  have hmod : (1000000000 : Int64).toInt = (modulus : Int) := by decide
  rw [WordRing.sum?,saddOverflow_words ha hb]
  refine congrArg some (Int64.toInt_inj.mp ?_)
  rw [Int64.toInt_mod,toInt_add_words ha hb,hmod,toInt_word (Nat.mod_lt _ (by decide)),
    Int.ofNat_tmod]

end Sum

section Store
variable {capacity i : Nat} {r : Ring}

theorem Holds.words_size (holds : r.Holds capacity i) :
    r.words.slots.size = max 2 (min i capacity) := Array.size_map.trans holds.size

theorem step_words_of_lt (grows : i < capacity) :
    (r.step capacity i).words.slots = r.words.slots.push (r.step capacity i).words.value := by
  rw [words,step_slots,if_pos grows]
  exact Array.map_push

theorem step_words_of_le (full : capacity ≤ i) :
    (r.step capacity i).words.slots =
      r.words.slots.setIfInBounds (i % capacity) (r.step capacity i).words.value := by
  rw [words,step_slots,if_neg (Nat.not_lt_of_le full)]
  exact Array.map_setIfInBounds

end Store

section Step
variable {capacity i : UInt64} {r : Ring}

/-- The slots of the two numbers before step `i` are there. -/
theorem Holds.words_getElem?_sub (holds : r.Holds capacity.toNat i.toNat) (begun : 2 ≤ i)
    (positive : 1 ≤ capacity.toNat) {k : UInt64} (least : 1 ≤ k) (most : k ≤ 2) :
    r.words.slots[((i - k) % capacity).toNat]? =
      some (Int64.ofNat (r.slots.getD ((i.toNat - k.toNat) % capacity.toNat) 0)) := by
  have hbegun : 2 ≤ i.toNat := UInt64.le_iff_toNat_le.mp begun
  have hleast : 1 ≤ k.toNat := UInt64.le_iff_toNat_le.mp least
  have hslot := holds.getElem?_eq hbegun positive (j := i.toNat - k.toNat) (by omega)
  rw [UInt64.toNat_mod,UInt64.toNat_sub_of_le i k (UInt64.le_trans most begun),words,
    Array.getElem?_map,hslot]
  rfl

theorem Holds.overwritten_lt (holds : r.Holds capacity.toNat i.toNat)
    (positive : 1 ≤ capacity.toNat) (full : capacity.toNat ≤ i.toNat) :
    (i % capacity).toNat < r.words.slots.size := by
  have hmod := Nat.mod_lt i.toNat positive
  rw [holds.words_size,UInt64.toNat_mod]
  omega

theorem Holds.store?_words (holds : r.Holds capacity.toNat i.toNat)
    (positive : 1 ≤ capacity.toNat) :
    WordRing.store? capacity i (r.step capacity.toNat i.toNat).words.value r.words.slots =
      some (r.step capacity.toNat i.toNat).words.slots := by
  rw [WordRing.store?]
  by_cases hgrow : i < capacity
  · rw [if_pos hgrow,step_words_of_lt (UInt64.lt_iff_toNat_lt.mp hgrow)]
  · have hfull : capacity.toNat ≤ i.toNat := UInt64.le_iff_toNat_le.mp (UInt64.not_lt.mp hgrow)
    rw [if_neg hgrow,if_pos (holds.overwritten_lt positive hfull),step_words_of_le hfull,
      UInt64.toNat_mod]

/-- On words a step does what it does on natural numbers. -/
theorem Holds.step?_words (holds : r.Holds capacity.toNat i.toNat) (begun : 2 ≤ i)
    (positive : 0 < capacity) :
    r.words.step? capacity i = some (r.step capacity.toNat i.toNat).words := by
  have hpositive : 1 ≤ capacity.toNat := UInt64.lt_iff_toNat_lt.mp positive
  have hguard : (guard (2 ≤ i ∧ 0 < capacity) : Option Unit) = some () := if_pos ⟨begun,positive⟩
  have hfirst := holds.words_getElem?_sub begun hpositive (k := 2) (by decide) (by decide)
  have hsecond := holds.words_getElem?_sub begun hpositive (k := 1) (by decide) (by decide)
  have hsum := sum?_words (holds.small ((i.toNat - (2 : UInt64).toNat) % capacity.toNat))
    (holds.small ((i.toNat - (1 : UInt64).toNat) % capacity.toNat))
  simp only [WordRing.step?,hguard,hfirst,hsecond,hsum,Option.bind_eq_bind,Option.bind_some]
  -- what is stored is the value of the step
  change (WordRing.store? capacity i (r.step capacity.toNat i.toNat).words.value
    r.words.slots).bind _ = _
  rw [holds.store?_words hpositive]
  rfl

/-- The window of the ring makes its words sound. -/
theorem Holds.sound_words (holds : r.Holds capacity.toNat i.toNat) (begun : 2 ≤ i)
    (positive : 0 < capacity) : r.words.Sound capacity i := by
  have hbegun : 2 ≤ i.toNat := UInt64.le_iff_toNat_le.mp begun
  have hpositive : 1 ≤ capacity.toNat := UInt64.lt_iff_toNat_lt.mp positive
  have hfirst := holds.words_getElem?_sub begun hpositive (k := 2) (by decide) (by decide)
  have hsecond := holds.words_getElem?_sub begun hpositive (k := 1) (by decide) (by decide)
  exact {
    size := holds.words_size
    first_lt := (Array.getElem?_eq_some_iff.mp hfirst).1
    second_lt := (Array.getElem?_eq_some_iff.mp hsecond).1
    overwritten_lt := fun full =>
      holds.overwritten_lt hpositive (UInt64.le_iff_toNat_le.mp full)
    appended_eq := by
      intro grows
      have hgrows : i.toNat < capacity.toNat := UInt64.lt_iff_toNat_lt.mp grows
      rw [holds.words_size]
      omega
    small := by
      intro v hv
      obtain ⟨n,hn,rfl⟩ := Array.mem_map.mp hv
      have hsmall := holds.mem_lt n hn
      rw [toInt_word hsmall]
      exact ⟨Int.natCast_nonneg n,Int.ofNat_lt.mpr hsmall⟩
    sum_exact := by
      intro v hv w hw
      obtain ⟨a,ha,rfl⟩ := Array.mem_map.mp hv
      obtain ⟨b,hb,rfl⟩ := Array.mem_map.mp hw
      have hva := holds.mem_lt a ha
      have hwb := holds.mem_lt b hb
      rw [toInt_add_words hva hwb,toInt_word hva,toInt_word hwb,Int.natCast_add]
    recent := by
      intro two j hnear hbefore
      have hslot := holds.getElem?_eq hbegun hpositive hbefore
      have hterm := holds.recent (UInt64.le_iff_toNat_le.mp two) j hbefore (by omega)
      rw [words,Array.getElem?_map,hslot,hterm]
      exact congrArg some (toInt_word (Nat.mod_lt _ (by decide)))
  }

theorem Holds.stepped_words (holds : r.Holds capacity.toNat i.toNat) (begun : 2 ≤ i)
    (positive : 0 < capacity) :
    r.words.Stepped capacity i (r.step capacity.toNat i.toNat).words where
  succeeds := holds.step?_words begun positive
  appended := by
    intro grows
    have hpush := step_words_of_lt (r := r) (UInt64.lt_iff_toNat_lt.mp grows)
    have hlast := (holds.sound_words begun positive).push_getElem? grows
      (r.step capacity.toNat i.toNat).words.value
    rw [← hpush] at hlast
    exact ⟨hpush,hlast⟩
  overwritten := by
    intro full
    rw [UInt64.toNat_mod]
    exact step_words_of_le (UInt64.le_iff_toNat_le.mp full)

theorem foldlM_step?_words (positive : 0 < capacity) {steps : Nat}
    (fits : steps + 2 ≤ UInt64.size) :
    (List.range steps).foldlM
        (fun (r : WordRing) k => r.step? capacity (UInt64.ofNat (k + 2))) WordRing.start =
      some (before capacity.toNat (steps + 2)).words := by
  rw [← start_words]
  refine foldlM_range (s := fun k => (before capacity.toNat (k + 2)).words) ?_
  intro k hk
  -- a step is numbered by a word, so that its number is not cut off
  have hword : (UInt64.ofNat (k + 2)).toNat = k + 2 := UInt64.toNat_ofNat_of_lt' (by omega)
  have hbegun : 2 ≤ (UInt64.ofNat (k + 2)).toNat := by omega
  have hholds := before_holds (UInt64.lt_iff_toNat_lt.mp positive) hbegun
  have hstep := hholds.step?_words (UInt64.le_iff_toNat_le.mpr hbegun) positive
  rw [hword] at hstep
  rw [hstep,before_succ (Nat.le_add_left 2 k)]

end Step
end Ring

namespace WordRing
variable {capacity : UInt64}

/-- On words no step fails, for the ring of natural numbers has its window before every step. -/
theorem before?_eq (positive : 0 < capacity) (i : UInt64) :
    before? capacity i = some (Ring.before capacity.toNat i.toNat).words := by
  have hsize : UInt64.size = 0x10000000000000000 := rfl
  have hfits : i.toNat < UInt64.size := UInt64.toNat_lt i
  rw [before?,Ring.foldlM_step?_words positive (by omega),Ring.before,Nat.add_sub_cancel,Ring.before]

theorem toNat_add_one {i n : UInt64} (more : i < n) : (i + 1).toNat = i.toNat + 1 := by
  have hmore := UInt64.lt_iff_toNat_lt.mp more
  rw [UInt64.toNat_add]
  exact Nat.mod_eq_of_lt (Nat.lt_of_le_of_lt hmore (UInt64.toNat_lt n))

theorem before?_succ (positive : 0 < capacity) {i n : UInt64} (begun : 2 ≤ i) (more : i < n) :
    before? capacity (i + 1) =
      some ((Ring.before capacity.toNat i.toNat).step capacity.toNat i.toNat).words := by
  rw [before?_eq positive,toNat_add_one more,Ring.before_succ (UInt64.le_iff_toNat_le.mp begun)]

theorem max_one_pos (n : UInt64) : 0 < max n 1 := by
  rw [UInt64.lt_iff_toNat_lt,UInt64.toNat_max]
  exact Nat.le_max_right n.toNat 1

theorem value?_eq (ringCapacity iterations : UInt64) :
    (value? ringCapacity iterations).map Int64.toInt =
      some (syntheticValue ringCapacity.toNat iterations.toNat : Int) := by
  have hvalue := Ring.before_value_lt (max ringCapacity.toNat 1) iterations.toNat
  rw [value?,before?_eq (max_one_pos ringCapacity),UInt64.toNat_max]
  exact congrArg some (Ring.toInt_word hvalue)

end WordRing

/-- For every capacity, zero included, and every number of steps, the ring is sound at the
beginning of each step, and the step succeeds: it appends the slot of its own number or overwrites
one that is there. The words are the numbers of the ring that is computed, the last one is its
value, and there are never more slots than the capacity and the steps ask for, the first two
apart. -/
theorem ring_steps_stay_in_bounds (ringCapacity iterations : UInt64) :
    (∀ i, 2 ≤ i → i < iterations → ∃ r next,
      WordRing.before? (max ringCapacity 1) i = some r ∧
      WordRing.before? (max ringCapacity 1) (i + 1) = some next ∧
      r.Sound (max ringCapacity 1) i ∧ r.Stepped (max ringCapacity 1) i next) ∧
    (∀ i ≤ iterations, ∃ r, WordRing.before? (max ringCapacity 1) i = some r ∧
      r.slots.map Int64.toInt =
        (Ring.before (max ringCapacity.toNat 1) i.toNat).slots.map Int.ofNat ∧
      r.slots.size ≤ max 2 (min ringCapacity.toNat iterations.toNat)) ∧
    (WordRing.value? ringCapacity iterations).map Int64.toInt =
      some (syntheticValue ringCapacity.toNat iterations.toNat : Int) := by
  have hnat : (max ringCapacity 1).toNat = max ringCapacity.toNat 1 := UInt64.toNat_max ..
  have hpositive := WordRing.max_one_pos ringCapacity
  have hone := Nat.le_max_right ringCapacity.toNat 1
  refine ⟨?_,?_,WordRing.value?_eq ringCapacity iterations⟩
  · intro i begun more
    have hholds := Ring.before_holds hone (UInt64.le_iff_toNat_le.mp begun)
    rw [← hnat] at hholds
    exact ⟨_,_,WordRing.before?_eq hpositive i,WordRing.before?_succ hpositive begun more,
      hholds.sound_words begun hpositive,hholds.stepped_words begun hpositive⟩
  · intro i within
    have hwithin : i.toNat ≤ iterations.toNat := UInt64.le_iff_toNat_le.mp within
    have hsize := Ring.before_size hone i.toNat
    have hring := WordRing.before?_eq hpositive i
    rw [hnat] at hring
    refine ⟨_,hring,Ring.map_toInt_words (Ring.before_small hone i.toNat),?_⟩
    rw [Ring.words,Array.size_map,hsize]
    omega

/-- Three slots have been gone round often before step 47: the one in the middle holds Fibonacci
number 46, which is 1836311903, and the last one is overwritten next. -/
theorem three_slots_hold_the_last_three :
    (2 : UInt64) ≤ 47 ∧ (47 : UInt64) < 50 ∧ (50 : UInt64) ≤ 50 ∧
    (∃ r next, WordRing.before? 3 47 = some r ∧ WordRing.before? 3 48 = some next ∧
      r.slots.size = 3 ∧ r.slots[1]?.map Int64.toInt = some 836311903 ∧
      next.slots = r.slots.setIfInBounds 2 next.value) ∧
    ∃ last, WordRing.before? 3 50 = some last ∧ last.slots.size ≤ 3 := by
  have hmax : max (3 : UInt64) 1 = 3 := by decide
  obtain ⟨hsteps,hsizes,-⟩ := ring_steps_stay_in_bounds 3 50
  simp only [hmax] at hsteps hsizes
  obtain ⟨r,next,hr,hnext,hsound,hstepped⟩ := hsteps 47 (by decide) (by decide)
  obtain ⟨last,hlast,-,hfew⟩ := hsizes 50 (by decide)
  have hmiddle := hsound.recent (by decide) 46 (by decide) (by decide)
  have hnumber : Nat.fib 46 % 1000000000 = 836311903 := by decide +kernel
  rw [hnumber] at hmiddle
  exact ⟨by decide,by decide,by decide,
    ⟨r,next,hr,hnext,hsound.size,hmiddle,hstepped.overwritten (by decide)⟩,last,hlast,hfew⟩

end GridWorker
