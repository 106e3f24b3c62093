import GridWorker.Workload

/-! # The synthetic computation

Each step adds the two values before it modulo `10 ^ 9` and keeps the sum in a ring
of slots. The ring starts with two slots, grows by one slot a step until it has its
capacity, and is overwritten round and round from then on. Steps are numbered from
two, so that slot and step agree while the ring grows. The last sum is the value of
the computation; without any step it is 123.
-/
namespace GridWorker

structure Ring where
  slots : Array Nat
  value : Nat

namespace Ring

def modulus : Nat := 1000000000

def start : Ring := ⟨#[0, 1], 123⟩

def step (capacity i : Nat) : Ring → Ring
  | ⟨slots, _⟩ =>
    let sum := (slots.getD ((i - 2) % capacity) 0 + slots.getD ((i - 1) % capacity) 0) % modulus
    ⟨if i < capacity then slots.push sum else slots.setIfInBounds (i % capacity) sum, sum⟩

/-- The ring at the beginning of step `i`. -/
def before (capacity i : Nat) : Ring :=
  Nat.fold (i - 2) (fun k _ r => r.step capacity (k + 2)) start

end Ring

/-- The value after all steps below `iterations`; a ring has at least one slot. -/
def syntheticValue (capacity iterations : Nat) : Nat :=
  (Ring.before (max capacity 1) iterations).value

def wordMax : Nat := UInt64.size - 1

def slotsOfGigabytes (gigabytes : Nat) : Nat := min (gigabytes * 1000000000) wordMax / 8

def iterationsOfMillions (millions : Nat) : Nat := min (millions * 1000000) wordMax

def computationValue (ramLimitGb iterLimitMillions : UInt64) : Nat :=
  syntheticValue (slotsOfGigabytes ramLimitGb.toNat) (iterationsOfMillions iterLimitMillions.toNat)

end GridWorker
