/-! # Integer numerals

A numeral is an optional sign and one or more ASCII digits; leading zeros are
allowed, blanks and separators are not. A natural numeral takes `+` only, an
integer numeral `+` or `-`. The 64-bit readers add nothing but the range.
-/
namespace GridWorker.Numeral

/-- The value of one or more ASCII digits with nothing else around them. -/
def digits? (cs : List Char) : Option Nat :=
  if cs ≠ [] ∧ cs.all Char.isDigit then some (Nat.ofDigitChars 10 cs 0) else none

/-- A natural numeral: digits, with at most one `+` before them. -/
def natural? : List Char → Option Nat
  | '+' :: cs => digits? cs
  | cs => digits? cs

/-- An integer numeral: digits, with at most one `+` or `-` before them. -/
def integer? : List Char → Option Int
  | '-' :: cs => (digits? cs).map fun n => -(n : Int)
  | cs => (natural? cs).map Int.ofNat

def uint64? (s : String) : Option UInt64 :=
  (natural? s.toList).bind fun n => if n < UInt64.size then some (UInt64.ofNat n) else none

def int64? (s : String) : Option Int64 :=
  (integer? s.toList).bind fun i =>
    if -0x8000000000000000 ≤ i ∧ i < 0x8000000000000000 then some (Int64.ofInt i) else none

/-- The canonical decimal of an integer: no `+`, no leading zeros, `-` only below zero. -/
def decimal (i : Int) : List Char :=
  if i < 0 then '-' :: Nat.toDigits 10 i.natAbs else Nat.toDigits 10 i.natAbs

end GridWorker.Numeral
