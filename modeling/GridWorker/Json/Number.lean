import GridWorker.Json.Basic
import GridWorker.Json.Shortest
import GridWorker.Text.Numeral

/-! # JSON numbers

A numeral without fraction and exponent is a whole number if 64 bits hold it;
`-0` is the negative floating-point zero. Every other numeral is a floating-point
number: its leading digits, as many as 64 bits hold, are the significand, and
what is left only moves the point. A numeral beyond the largest number is refused.
-/
namespace GridWorker.Number

def text : Number → List Char
  | .whole n => Numeral.decimal n.val
  | .real x => x.text

structure Parts where
  negative : Bool
  whole : List Char
  fraction : Option (List Char)
  exponent : Option Int

def unsign (mark : Char) : List Char → Bool × List Char
  | [] => (false, [])
  | c :: cs => if c = mark then (true, cs) else (false, c :: cs)

def exponent? : List Char → Option (Option Int)
  | [] => some none
  | c :: cs => if c = 'e' ∨ c = 'E' then (Numeral.integer? cs).map some else none

/-- Cuts a numeral at the point and the exponent. The whole part has no leading
zeros, and a point has digits on both sides. -/
def parts? (cs : List Char) : Option Parts := do
  let (negative, cs) := unsign '-' cs
  let whole := cs.takeWhile Char.isDigit
  if whole = [] ∨ (whole.head? = some '0' ∧ whole.length ≠ 1) then none
  match cs.dropWhile Char.isDigit with
  | '.' :: cs =>
    let fraction := cs.takeWhile Char.isDigit
    if fraction = [] then none
    return ⟨negative, whole, some fraction, ← exponent? (cs.dropWhile Char.isDigit)⟩
  | cs => return ⟨negative, whole, none, ← exponent? cs⟩

/-- Appends digits to a significand until one does not fit in 64 bits; the count
says how many were taken. -/
def absorb (significand : Nat) : List Char → Nat × Nat
  | [] => (significand, 0)
  | c :: cs =>
    let next := significand * 10 + (c.toNat - '0'.toNat)
    if next < UInt64.size then
      let r := absorb next cs
      (r.1, r.2 + 1)
    else (significand, 0)

def Parts.real? (p : Parts) : Option Binary64 :=
  let w := absorb 0 p.whole
  let f := absorb w.1 (p.fraction.getD [])
  let moved : Int := (p.whole.length : Int) - w.2 - f.2
  Binary64.ofDecimal? p.negative f.1 (moved + p.exponent.getD 0)

def Parts.whole? (p : Parts) : Option Whole :=
  match p.fraction, p.exponent with
  | none, none =>
    let n := Nat.ofDigitChars 10 p.whole 0
    if p.negative then if n = 0 then none else Whole.ofInt? (-(n : Int))
    else Whole.ofInt? n
  | _, _ => none

def read? (cs : List Char) : Option Number :=
  (parts? cs).bind fun p =>
    match p.whole? with
    | some n => some (.whole n)
    | none => p.real?.map .real

end GridWorker.Number
