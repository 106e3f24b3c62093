/-! # Finite 64-bit binary floating-point numbers

A number is a sign, a mantissa below `2^53` and an exponent, in the one normal
form of IEEE 754 double precision; zero is signed. Arithmetic goes through exact
quotients of natural numbers, which are rounded to the nearest number once, a
half going to the even mantissa. A result too large for the format is `none`.
-/
namespace GridWorker

def Binary64.leastFull : Nat := 0x10000000000000

/-- The form in which each magnitude has one mantissa and one exponent. -/
def Binary64.Normal (mantissa : Nat) (exponent : Int) : Prop :=
  mantissa < 2 * leastFull ∧ -1074 ≤ exponent ∧ exponent ≤ 971 ∧
    (leastFull ≤ mantissa ∨ exponent = -1074)

instance (mantissa : Nat) (exponent : Int) : Decidable (Binary64.Normal mantissa exponent) :=
  inferInstanceAs (Decidable (_ ∧ _))

/-- The number `± mantissa * 2 ^ exponent`. -/
structure Binary64 where
  negative : Bool
  mantissa : Nat
  exponent : Int
  normal : Binary64.Normal mantissa exponent
deriving DecidableEq

namespace Binary64

/-- A quotient rounded to the nearest natural number, a half to the even one. -/
def roundHalfEven (n d : Nat) : Nat :=
  let twice := 2 * (n % d)
  if twice < d ∨ (twice = d ∧ n / d % 2 = 0) then n / d else n / d + 1

def unscaled (n d : Nat) (e : Int) : Nat × Nat :=
  if 0 ≤ e then (n, d * Nat.pow 2 e.toNat) else (n * Nat.pow 2 (-e).toNat, d)

/-- The exponent at which `n / d` has 53 binary digits before the point, or the
least exponent of the format where that is larger. -/
def exponentOf (n d : Nat) : Int :=
  let low : Int := (n.log2 : Int) - d.log2 - 53
  let q := unscaled n d low
  max (-1074) (if q.1 / q.2 < 2 * leastFull then low else low + 1)

/-- The mantissa and exponent nearest to `n / d`, before any bound on the exponent. -/
def round (n d : Nat) : Nat × Int :=
  if n = 0 then (0, -1074) else
    let e := exponentOf n d
    let q := unscaled n d e
    let m := roundHalfEven q.1 q.2
    if m = 2 * leastFull then (leastFull, e + 1) else (m, e)

/-- The number nearest to `n / d` with the given sign; `none` when it overflows. -/
def nearest? (negative : Bool) (n d : Nat) : Option Binary64 :=
  let r := round n d
  if h : Normal r.1 r.2 then some ⟨negative, r.1, r.2, h⟩ else none

def zero (negative : Bool) : Binary64 := ⟨negative, 0, -1074, by decide⟩

def ratio (x : Binary64) : Nat × Nat :=
  if 0 ≤ x.exponent then (x.mantissa * Nat.pow 2 x.exponent.toNat, 1)
  else (x.mantissa, Nat.pow 2 (-x.exponent).toNat)

def times? (x y : Binary64) : Option Binary64 :=
  nearest? x.negative (x.ratio.1 * y.ratio.1) (x.ratio.2 * y.ratio.2)

def over? (x y : Binary64) : Option Binary64 :=
  nearest? x.negative (x.ratio.1 * y.ratio.2) (x.ratio.2 * y.ratio.1)

def tenPower? (k : Nat) : Option Binary64 := nearest? false (Nat.pow 10 k) 1

/-- `x` times a power of ten, one rounding for the power and one for each product
or quotient. A power below `10 ^ -308` is divided out in two stages. -/
def scaleByTen? (x : Binary64) (k : Int) : Option Binary64 :=
  if 0 ≤ k then
    if x.mantissa = 0 then some x
    else if 308 < k then none
    else (tenPower? k.toNat).bind x.times?
  else
    let n := (-k).toNat
    if n ≤ 308 then (tenPower? n).bind x.over?
    else if n ≤ 616 then do
      let y ← (tenPower? 308).bind x.over?
      (tenPower? (n - 308)).bind y.over?
    else some (zero x.negative)

/-- The number written as a significand and a power of ten: the significand is
rounded first, then scaled. -/
def ofDecimal? (negative : Bool) (significand : Nat) (exponent : Int) : Option Binary64 :=
  (nearest? negative significand 1).bind (scaleByTen? · exponent)

end Binary64
end GridWorker
