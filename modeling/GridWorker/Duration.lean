/-! # Durations

A length of time in nanoseconds. Whole milliseconds and whole seconds truncate;
neither is bounded by a machine word.
-/
namespace GridWorker

structure Duration where
  nanos : Nat
deriving DecidableEq, Inhabited

namespace Duration

def zero : Duration := ⟨0⟩

def ofMillis (ms : Nat) : Duration := ⟨ms * 1000000⟩

def ofSeconds (seconds nanos : Nat) : Duration := ⟨seconds * 1000000000 + nanos⟩

def millis (d : Duration) : Nat := d.nanos / 1000000

def seconds (d : Duration) : Nat := d.nanos / 1000000000

def subsecond (d : Duration) : Nat := d.nanos % 1000000000

instance : LE Duration := ⟨fun a b => a.nanos ≤ b.nanos⟩

instance : LT Duration := ⟨fun a b => a.nanos < b.nanos⟩

instance (a b : Duration) : Decidable (a ≤ b) := inferInstanceAs (Decidable (a.nanos ≤ b.nanos))

instance (a b : Duration) : Decidable (a < b) := inferInstanceAs (Decidable (a.nanos < b.nanos))

instance : Min Duration := ⟨fun a b => if a ≤ b then a else b⟩

@[simp] theorem millis_ofMillis (ms : Nat) : (ofMillis ms).millis = ms :=
  Nat.mul_div_cancel ms (by decide)

@[simp] theorem ofMillis_le_ofMillis {a b : Nat} : ofMillis a ≤ ofMillis b ↔ a ≤ b :=
  Nat.mul_le_mul_right_iff (by decide)

@[simp] theorem ofMillis_lt_ofMillis {a b : Nat} : ofMillis a < ofMillis b ↔ a < b :=
  Nat.mul_lt_mul_right (by decide)

/-- Durations compare by their seconds, and by the nanoseconds beyond them where those agree. -/
theorem lt_iff_parts {a b : Duration} :
    a < b ↔ a.seconds < b.seconds ∨ a.seconds = b.seconds ∧ a.subsecond < b.subsecond := by
  change a.nanos < b.nanos ↔ _
  simp only [seconds,subsecond]
  omega

theorem millis_eq_parts (d : Duration) : d.millis = d.seconds * 1000 + d.subsecond / 1000000 := by
  simp only [millis,seconds,subsecond]
  omega

end Duration
end GridWorker
