import GridWorker.Json.Binary64

/-! # Shortest decimal text of a binary number

Of the decimals that round to the number, those with the fewest digits are kept,
and of these the nearest, a tie going to the even last digit. Each count of
digits is a grid; on a grid only the two neighbours of the exact value can serve.
The layout is positional for decimal exponents from -5 to 15 and scientific
outside that range, with a sign on the exponent.
-/
namespace GridWorker.Binary64

/-- A positive number and the ends of the interval that rounds to it, over one
denominator. The ends belong to the interval iff `closed`. -/
structure Bracket where
  low : Nat
  exact : Nat
  high : Nat
  denominator : Nat
  closed : Bool

/-- The bracket of a magnitude: half a unit on each side, but a quarter below a
power of two, where the next smaller numbers lie twice as dense. -/
def bracket (x : Binary64) : Bracket :=
  let below := if x.mantissa = leastFull ∧ -1074 < x.exponent then 1 else 2
  let e := x.exponent - 2
  let up (n : Nat) := if 0 ≤ e then n * Nat.pow 2 e.toNat else n
  { low := up (4 * x.mantissa - below)
    exact := up (4 * x.mantissa)
    high := up (4 * x.mantissa + 2)
    denominator := if 0 ≤ e then 1 else Nat.pow 2 (-e).toNat
    closed := x.mantissa % 2 = 0 }

def Bracket.inUnits (b : Bracket) (s : Int) : Bracket :=
  if 0 ≤ s then { b with denominator := b.denominator * Nat.pow 10 s.toNat }
  else
    let k := Nat.pow 10 (-s).toNat
    { b with low := b.low * k, exact := b.exact * k, high := b.high * k }

def Bracket.holds (b : Bracket) (c : Nat) : Bool :=
  let p := c * b.denominator
  if b.closed then b.low ≤ p ∧ p ≤ b.high else b.low < p ∧ p < b.high

/-- The better of the two neighbours of the exact value that lie in the interval. -/
def Bracket.neighbour? (b : Bracket) : Option Nat :=
  let c := b.exact / b.denominator
  let twice := 2 * (b.exact % b.denominator)
  match b.holds c, b.holds (c + 1) with
  | true, true =>
    some (if twice < b.denominator ∨ (twice = b.denominator ∧ c % 2 = 0) then c else c + 1)
  | true, false => some c
  | false, true => some (c + 1)
  | false, false => none

def leadingExponent (n d : Nat) : Int :=
  if d ≤ n then (Nat.toDigits 10 (n / d)).length - 1
  else -((Nat.toDigits 10 ((d - 1) / n)).length : Int)

/-- Digits and exponent of the last one, for a positive magnitude. Seventeen
digits always suffice, so the search over grids succeeds. -/
def shortest (x : Binary64) : List Char × Int :=
  let b := x.bracket
  let e := leadingExponent b.exact b.denominator
  let hit (i : Nat) : Option (Nat × Int) :=
    let s := e - i
    (b.inUnits s).neighbour?.map (·, s)
  let (c, s) := ((List.range 17).findSome? hit).getD (b.exact / b.denominator, 0)
  let ds := Nat.toDigits 10 c
  let kept := (ds.reverse.dropWhile (· = '0')).reverse
  (kept, s + (ds.length - kept.length : Nat))

/-- Digits with the point placed so that the leading digit stands for `10 ^ e`. -/
def layout (ds : List Char) (e : Int) : List Char :=
  if -5 ≤ e ∧ e < 16 then
    if e < 0 then '0' :: '.' :: List.replicate ((-e).toNat - 1) '0' ++ ds
    else
      let whole := e.toNat + 1
      if ds.length ≤ whole then ds ++ List.replicate (whole - ds.length) '0' ++ ['.', '0']
      else ds.take whole ++ '.' :: ds.drop whole
  else
    let mantissa := if ds.length ≤ 1 then ds else ds.take 1 ++ '.' :: ds.drop 1
    mantissa ++ 'e' :: (if e < 0 then '-' else '+') :: Nat.toDigits 10 e.natAbs

def text (x : Binary64) : List Char :=
  let body :=
    if x.mantissa = 0 then ['0', '.', '0']
    else
      let (ds, s) := x.shortest
      layout ds (s + ds.length - 1)
  if x.negative then '-' :: body else body

end GridWorker.Binary64
