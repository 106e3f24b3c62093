/-! # Little-endian fields

Binary records are sequences of natural numbers, each in a fixed number of bytes with
the lowest byte first. A number that is too large keeps its low bytes only.
-/
namespace GridWorker

abbrev Bytes := List UInt8

namespace LittleEndian

/-- The low `width` bytes of a number. -/
def encode : Nat → Nat → Bytes
  | 0, _ => []
  | width + 1, n => UInt8.ofNat n :: encode width (n / 256)

def decode : Bytes → Nat
  | [] => 0
  | b :: bs => b.toNat + 256 * decode bs

def record (fields : List (Nat × Nat)) : Bytes := fields.flatMap fun f => encode f.1 f.2

def bytes? (n : Nat) (bs : Bytes) : Option (Bytes × Bytes) :=
  let front := bs.take n
  if front.length = n then some (front, bs.drop n) else none

def fields? : List Nat → Bytes → Option (List Nat × Bytes)
  | [], bs => some ([], bs)
  | width :: widths, bs => do
    let (field, bs) ← bytes? width bs
    let (fields, bs) ← fields? widths bs
    return (decode field :: fields, bs)

end LittleEndian
end GridWorker
