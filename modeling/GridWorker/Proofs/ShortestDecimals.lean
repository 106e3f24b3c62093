import Mathlib.Algebra.Order.Field.Power
import Mathlib.Data.Rat.Cast.Order
import Mathlib.Tactic.FieldSimp
import Mathlib.Tactic.Linarith
import Mathlib.Tactic.Positivity
import GridWorker.Proofs.NumberText
import GridWorker.Proofs.NumeralValues

/-! # The decimals of floating-point numbers

A floating-point number is written as a decimal that rounds to it. The decimals that round to
one number lie in an interval around it, and the intervals of two numbers have nothing in
common: so numbers that are written alike are equal.
-/
namespace GridWorker

namespace Binary64

def Within (closed : Bool) (least most q : ℚ) : Prop :=
  if closed then least ≤ q ∧ q ≤ most else least < q ∧ q < most

theorem Within.le {closed : Bool} {least most q : ℚ} (h : Within closed least most q) :
    least ≤ q ∧ q ≤ most := by
  unfold Within at h
  split at h
  · exact h
  · exact ⟨h.1.le,h.2.le⟩

theorem within_of_lt {closed : Bool} {least most q : ℚ} (hleast : least < q) (hmost : q < most) :
    Within closed least most q := by
  unfold Within
  split
  · exact ⟨hleast.le,hmost.le⟩
  · exact ⟨hleast,hmost⟩

theorem within_div_iff {closed : Bool} {least most q r : ℚ} (h : 0 < r) :
    Within closed (least / r) (most / r) q ↔ Within closed least most (q * r) := by
  simp only [Within,div_le_iff₀ h,le_div_iff₀ h,div_lt_iff₀ h,lt_div_iff₀ h]

theorem cast_pow_toNat (b : ℕ) {s : ℤ} (hs : 0 ≤ s) :
    ((Nat.pow b s.toNat : ℕ) : ℚ) = (b : ℚ) ^ s := by
  rw [Nat.pow_eq,Nat.cast_pow,← zpow_natCast,Int.toNat_of_nonneg hs]

/-- The bracket stands for these three rational numbers. -/
structure Bracket.Spans (b : Bracket) (least middle most : ℚ) : Prop where
  pos : 0 < b.denominator
  low : (b.low : ℚ) = least * b.denominator
  exact : (b.exact : ℚ) = middle * b.denominator
  high : (b.high : ℚ) = most * b.denominator

namespace Bracket
variable {b : Bracket} {least middle most : ℚ}

theorem Spans.inUnits (h : b.Spans least middle most) (s : ℤ) :
    (b.inUnits s).Spans (least / 10 ^ s) (middle / 10 ^ s) (most / 10 ^ s) := by
  have hten : (10 : ℚ) ^ s ≠ 0 := zpow_ne_zero s (by norm_num)
  unfold Bracket.inUnits
  split
  · rename_i hs
    have hpower : ((Nat.pow 10 s.toNat : ℕ) : ℚ) = 10 ^ s := cast_pow_toNat 10 hs
    have hscale : ∀ q : ℚ, q * b.denominator =
        q / 10 ^ s * (b.denominator * Nat.pow 10 s.toNat : ℕ) := by
      intro q
      rw [Nat.cast_mul,hpower]
      field_simp
    exact ⟨Nat.mul_pos h.pos (Nat.pow_pos (by decide)),h.low.trans (hscale _),
      h.exact.trans (hscale _),h.high.trans (hscale _)⟩
  · rename_i hs
    have hpower : ((Nat.pow 10 (-s).toNat : ℕ) : ℚ) = (10 ^ s)⁻¹ := by
      rw [cast_pow_toNat 10 (by omega),zpow_neg,Nat.cast_ofNat]
    have hscale : ∀ {n : ℕ} {q : ℚ}, (n : ℚ) = q * b.denominator →
        ((n * Nat.pow 10 (-s).toNat : ℕ) : ℚ) = q / 10 ^ s * b.denominator := by
      intro n q hn
      rw [Nat.cast_mul,hpower,hn]
      field_simp
    exact ⟨h.pos,hscale h.low,hscale h.exact,hscale h.high⟩

theorem Spans.holds_iff (h : b.Spans least middle most) (c : ℕ) :
    b.holds c = true ↔ Within b.closed least most c := by
  have hpos : (0 : ℚ) < b.denominator := Nat.cast_pos.mpr h.pos
  have hlow_le : b.low ≤ c * b.denominator ↔ least ≤ c := by
    rw [← Nat.cast_le (α := ℚ),h.low,Nat.cast_mul,mul_le_mul_iff_left₀ hpos]
  have hhigh_le : c * b.denominator ≤ b.high ↔ (c : ℚ) ≤ most := by
    rw [← Nat.cast_le (α := ℚ),h.high,Nat.cast_mul,mul_le_mul_iff_left₀ hpos]
  have hlow_lt : b.low < c * b.denominator ↔ least < c := by
    rw [← Nat.cast_lt (α := ℚ),h.low,Nat.cast_mul,mul_lt_mul_iff_left₀ hpos]
  have hhigh_lt : c * b.denominator < b.high ↔ (c : ℚ) < most := by
    rw [← Nat.cast_lt (α := ℚ),h.high,Nat.cast_mul,mul_lt_mul_iff_left₀ hpos]
  unfold holds Within
  cases b.closed with
  | true => simp [hlow_le,hhigh_le]
  | false => simp [hlow_lt,hhigh_lt]

theorem neighbour?_holds {c : ℕ} (h : b.neighbour? = some c) : b.holds c = true := by
  unfold neighbour? at h
  dsimp only at h
  split at h
  · rename_i hfloor hceiling
    obtain rfl := Option.some.inj h
    split
    · exact hfloor
    · exact hceiling
  · rename_i hfloor _
    rwa [← Option.some.inj h]
  · rename_i _ hceiling
    rwa [← Option.some.inj h]
  · cases h

/-- One of the neighbours lies in an interval that reaches by half a unit to either side. -/
theorem Spans.exists_neighbour (h : b.Spans least middle most) (hleast : least < middle - 1 / 2)
    (hmost : middle + 1 / 2 < most) : ∃ c, b.neighbour? = some c := by
  have hpos : (0 : ℚ) < b.denominator := Nat.cast_pos.mpr h.pos
  have hfloor : ((b.exact / b.denominator : ℕ) : ℚ) ≤ middle := by
    rw [← mul_le_mul_iff_left₀ hpos,← h.exact]
    exact_mod_cast Nat.div_mul_le_self _ _
  have hceiling : middle < ((b.exact / b.denominator + 1 : ℕ) : ℚ) := by
    rw [← mul_lt_mul_iff_left₀ hpos,← h.exact]
    exact_mod_cast Nat.lt_mul_of_div_lt (Nat.lt_succ_self _) h.pos
  have hholds : b.holds (b.exact / b.denominator) = true ∨
      b.holds (b.exact / b.denominator + 1) = true := by
    rw [h.holds_iff,h.holds_iff]
    push_cast at hceiling ⊢
    by_cases hhalf : middle ≤ ((b.exact / b.denominator : ℕ) : ℚ) + 1 / 2
    · exact Or.inl (within_of_lt (by linarith) (by linarith))
    · exact Or.inr (within_of_lt (by linarith) (by linarith))
  unfold neighbour?
  rcases hholds with hc | hc
  · cases hnext : b.holds (b.exact / b.denominator + 1) <;> simp [hc,hnext]
  · cases hthis : b.holds (b.exact / b.denominator) <;> simp [hc,hthis]

end Bracket

/-- How many quarters of a unit the interval reaches below the number. -/
def below (x : Binary64) : ℕ := if x.mantissa = leastFull ∧ -1074 < x.exponent then 1 else 2

def quarter (x : Binary64) : ℚ := 2 ^ (x.exponent - 2)

/-- The decimals with this value round to the number. -/
def Covers (x : Binary64) (q : ℚ) : Prop :=
  Within (x.mantissa % 2 = 0) ((4 * x.mantissa - x.below : ℕ) * x.quarter)
    ((4 * x.mantissa + 2 : ℕ) * x.quarter) q

theorem quarter_pos (x : Binary64) : 0 < x.quarter := zpow_pos (by norm_num) _

theorem spans_bracket (x : Binary64) : x.bracket.Spans
    ((4 * x.mantissa - x.below : ℕ) * x.quarter) ((4 * x.mantissa : ℕ) * x.quarter)
    ((4 * x.mantissa + 2 : ℕ) * x.quarter) := by
  unfold bracket quarter
  by_cases he : 0 ≤ x.exponent - 2
  · have hpower : ((Nat.pow 2 (x.exponent - 2).toNat : ℕ) : ℚ) = 2 ^ (x.exponent - 2) :=
      cast_pow_toNat 2 he
    have hup : ∀ n : ℕ, ((n * Nat.pow 2 (x.exponent - 2).toNat : ℕ) : ℚ) =
        n * 2 ^ (x.exponent - 2) * (1 : ℕ) := by
      intro n
      rw [Nat.cast_mul,hpower,Nat.cast_one,mul_one]
    simp only [if_pos he]
    exact ⟨Nat.one_pos,hup _,hup _,hup _⟩
  · have hpower : ((Nat.pow 2 (-(x.exponent - 2)).toNat : ℕ) : ℚ) = (2 ^ (x.exponent - 2))⁻¹ := by
      rw [cast_pow_toNat 2 (by omega),zpow_neg,Nat.cast_ofNat]
    have hup : ∀ n : ℕ, (n : ℚ) =
        n * 2 ^ (x.exponent - 2) * (Nat.pow 2 (-(x.exponent - 2)).toNat : ℕ) := by
      intro n
      rw [hpower,mul_inv_cancel_right₀ (zpow_ne_zero _ (by norm_num))]
    simp only [if_neg he]
    exact ⟨Nat.pow_pos (by decide),hup _,hup _,hup _⟩

theorem leadingExponent_le {n d : ℕ} (hn : 0 < n) (hd : 0 < d) :
    (10 : ℚ) ^ leadingExponent n d * d ≤ n := by
  unfold leadingExponent
  split
  · rename_i h
    have hlength : 0 < (Nat.toDigits 10 (n / d)).length := Nat.length_toDigits_pos
    obtain ⟨k,hk⟩ := Nat.exists_eq_succ_of_ne_zero hlength.ne'
    have hquotient : 10 ^ k ≤ n / d := by
      by_cases hzero : k = 0
      · rw [hzero,pow_zero]
        exact Nat.div_pos h hd
      · refine Nat.le_of_not_lt fun hlt => ?_
        have hle := (Nat.length_toDigits_le_iff (by decide) (Nat.pos_of_ne_zero hzero)).mpr hlt
        omega
    have hexponent : ((Nat.toDigits 10 (n / d)).length : ℤ) - 1 = k := by omega
    rw [hexponent,zpow_natCast]
    exact_mod_cast (Nat.mul_le_mul_right d hquotient).trans (Nat.div_mul_le_self n d)
  · have hlength : 0 < (Nat.toDigits 10 ((d - 1) / n)).length := Nat.length_toDigits_pos
    have hquotient := (Nat.length_toDigits_le_iff (by decide) hlength).mp le_rfl
    have hmost : d ≤ n * 10 ^ (Nat.toDigits 10 ((d - 1) / n)).length := by
      have hlt := Nat.lt_mul_of_div_lt hquotient hn
      rw [Nat.mul_comm] at hlt
      omega
    rw [zpow_neg,zpow_natCast,inv_mul_le_iff₀ (by positivity),mul_comm]
    exact_mod_cast hmost

def significant (ds : List Char) : List Char := (ds.reverse.dropWhile (· = '0')).reverse

theorem exists_significant_append (ds : List Char) :
    ds = significant ds ++ List.replicate (ds.length - (significant ds).length) '0' := by
  have hsplit : ds = significant ds ++ (ds.reverse.takeWhile (· = '0')).reverse := by
    rw [significant,← List.reverse_append,List.takeWhile_append_dropWhile,List.reverse_reverse]
  have hzeros : ∀ c ∈ (ds.reverse.takeWhile (· = '0')).reverse, c = '0' := by
    intro c hc
    have htaken := List.mem_takeWhile_imp (List.mem_reverse.mp hc)
    exact of_decide_eq_true htaken
  have hlength := congrArg List.length hsplit
  rw [List.length_append] at hlength
  have hreplicate := List.eq_replicate_of_mem hzeros
  rw [← Nat.sub_eq_of_eq_add' hlength] at hreplicate
  rwa [hreplicate] at hsplit

def decimalValue (ds : List Char) (s : ℤ) : ℚ := Nat.ofDigitChars 10 ds 0 * 10 ^ s

theorem decimalValue_append_zeros (ds : List Char) (k : ℕ) (s : ℤ) :
    decimalValue (ds ++ List.replicate k '0') s = decimalValue ds (s + k) := by
  rw [decimalValue,decimalValue,Nat.ofDigitChars_append,Nat.ofDigitChars_replicate_zero,
    Nat.cast_mul,Nat.cast_pow,Nat.cast_ofNat,zpow_add₀ (by norm_num),zpow_natCast]
  ring

theorem decimalValue_zeros_append (n : ℕ) (ds : List Char) (s : ℤ) :
    decimalValue (List.replicate n '0' ++ ds) s = decimalValue ds s := by
  rw [decimalValue,decimalValue,Nat.ofDigitChars_append,Nat.ofDigitChars_replicate_zero,
    Nat.mul_zero]

variable {x : Binary64}

theorem below_lt (h : x.mantissa ≠ 0) : x.below < 4 * x.mantissa := by
  unfold below
  split <;> omega

theorem least_pos (h : x.mantissa ≠ 0) :
    0 < ((4 * x.mantissa - x.below : ℕ) : ℚ) * x.quarter :=
  mul_pos (Nat.cast_pos.mpr (Nat.sub_pos_of_lt (below_lt h))) x.quarter_pos

theorem mantissa_lt (x : Binary64) :
    2 * x.mantissa < x.below * 10 ^ 16 ∧ x.mantissa < 10 ^ 16 := by
  have hnormal := x.normal.1
  unfold below
  split
  · rename_i hfull
    rw [hfull.1]
    decide
  · simp only [leastFull] at hnormal
    omega

/-- In units of the seventeenth digit a number is at least `10 ^ 16`. -/
theorem ten_pow_le_units (h : x.mantissa ≠ 0) {s : ℤ}
    (grid : leadingExponent x.bracket.exact x.bracket.denominator - 16 = s) :
    (10 : ℚ) ^ 16 ≤ 4 * x.mantissa * (x.quarter / 10 ^ s) := by
  have hspans := x.spans_bracket
  have hmantissa : (0 : ℚ) < x.mantissa := Nat.cast_pos.mpr (Nat.pos_of_ne_zero h)
  have hquarter := x.quarter_pos
  have hexact : 0 < x.bracket.exact := by
    rw [← Nat.cast_pos (α := ℚ),hspans.exact]
    have hden : (0 : ℚ) < x.bracket.denominator := Nat.cast_pos.mpr hspans.pos
    push_cast
    positivity
  have hlead := leadingExponent_le hexact hspans.pos
  have hexponent : leadingExponent x.bracket.exact x.bracket.denominator = (16 : ℕ) + s := by omega
  rw [hspans.exact,mul_le_mul_iff_left₀ (Nat.cast_pos.mpr hspans.pos),hexponent,
    zpow_add₀ (by norm_num),zpow_natCast,← le_div_iff₀ (zpow_pos (by norm_num) s)] at hlead
  push_cast at hlead
  rwa [mul_div_assoc] at hlead

/-- On the grid of seventeen digits one of the neighbours serves. -/
theorem exists_neighbour (h : x.mantissa ≠ 0) : ∃ c, (x.bracket.inUnits
    (leadingExponent x.bracket.exact x.bracket.denominator - 16)).neighbour? = some c := by
  generalize hs : leadingExponent x.bracket.exact x.bracket.denominator - 16 = s
  have hunits := ten_pow_le_units h hs
  have hmantissa : (0 : ℚ) < x.mantissa := Nat.cast_pos.mpr (Nat.pos_of_ne_zero h)
  have hbelow : 1 / 2 < x.below * (x.quarter / 10 ^ s) := by
    have hcast : (2 : ℚ) * x.mantissa < x.below * 10 ^ 16 := by exact_mod_cast x.mantissa_lt.1
    nlinarith
  have habove : 1 / 2 < 2 * (x.quarter / 10 ^ s) := by
    have hcast : (x.mantissa : ℚ) < 10 ^ 16 := by exact_mod_cast x.mantissa_lt.2
    nlinarith
  -- both ends lie more than half a unit of this grid from the number
  refine (x.spans_bracket.inUnits s).exists_neighbour ?_ ?_
  · rw [Nat.cast_sub (below_lt h).le,mul_div_assoc,mul_div_assoc]
    push_cast
    linarith
  · rw [mul_div_assoc,mul_div_assoc]
    push_cast
    linarith

theorem exists_shortest (h : x.mantissa ≠ 0) : ∃ c s, (x.bracket.inUnits s).holds c = true ∧
    x.shortest = (significant (Nat.toDigits 10 c),
      s + ((Nat.toDigits 10 c).length - (significant (Nat.toDigits 10 c)).length : ℕ)) := by
  let hit (i : ℕ) : Option (ℕ × ℤ) :=
    (x.bracket.inUnits (leadingExponent x.bracket.exact x.bracket.denominator - i)).neighbour?.map
      (·,leadingExponent x.bracket.exact x.bracket.denominator - i)
  obtain ⟨c,hc⟩ := exists_neighbour h
  have hlast : (hit 16).isSome = true := by
    change (Option.map _ (Bracket.neighbour? (Bracket.inUnits _ (_ - 16)))).isSome = true
    rw [hc]
    rfl
  have hfound : ((List.range 17).findSome? hit).isSome = true :=
    List.findSome?_isSome_iff.mpr ⟨16,by decide,hlast⟩
  obtain ⟨⟨d,s⟩,hd⟩ := Option.isSome_iff_exists.mp hfound
  obtain ⟨i,-,hi⟩ := List.exists_of_findSome?_eq_some hd
  obtain ⟨d',hd',hpair⟩ := Option.map_eq_some_iff.mp hi
  cases hpair
  refine ⟨d,_,Bracket.neighbour?_holds hd',?_⟩
  unfold shortest
  dsimp only
  rw [show List.findSome? _ (List.range 17) = _ from hd]
  rfl

/-- A number is written in the digits of a decimal that rounds to it, the first of which is not
zero. -/
theorem covers_shortest (h : x.mantissa ≠ 0) : x.Covers (decimalValue x.shortest.1 x.shortest.2) ∧
    ∃ d ds, x.shortest.1 = d :: ds ∧ d ≠ '0' := by
  obtain ⟨c,s,hc,hshortest⟩ := exists_shortest h
  have hcovers : x.Covers (c * 10 ^ s) := by
    have hwithin := (x.spans_bracket.inUnits s |>.holds_iff c).mp hc
    have hclosed : (x.bracket.inUnits s).closed = decide (x.mantissa % 2 = 0) := by
      unfold Bracket.inUnits
      split <;> rfl
    rwa [hclosed,within_div_iff (zpow_pos (by norm_num) _)] at hwithin
  have hpos : c ≠ 0 := by
    rintro rfl
    have hle := hcovers.le.1
    rw [Nat.cast_zero,zero_mul] at hle
    exact absurd hle (not_le.mpr (least_pos h))
  have hdigits := exists_significant_append (Nat.toDigits 10 c)
  rw [hshortest]
  constructor
  · rw [← decimalValue_append_zeros,← hdigits,decimalValue,
      Nat.ofDigitChars_toDigits (by decide) (by decide)]
    exact hcovers
  · have hhead : (Nat.toDigits 10 c).head? ≠ some '0' := fun hzero =>
      hpos (Numeral.toDigits_head hzero)
    cases hds : significant (Nat.toDigits 10 c) with
    | nil =>
      rw [hds,List.nil_append] at hdigits
      have hlength : 0 < (Nat.toDigits 10 c).length := Nat.length_toDigits_pos
      obtain ⟨k,hk⟩ := Nat.exists_eq_succ_of_ne_zero hlength.ne'
      rw [hk] at hdigits
      exact absurd (hdigits ▸ rfl) hhead
    | cons d ds =>
      refine ⟨d,ds,rfl,?_⟩
      rintro rfl
      rw [hdigits,hds] at hhead
      exact hhead rfl

/-- Where two intervals meet, they meet in an end of both, which belongs to one of them only. -/
theorem Covers.meet {y : Binary64} {q : ℚ} (hx : x.Covers q) (hy : y.Covers q) {k : ℕ}
    (step : y.exponent = x.exponent + k) :
    (4 * y.mantissa - y.below) * 2 ^ k ≤ 4 * x.mantissa + 2 ∧
      (x.mantissa % 2 = 1 ∨ y.mantissa % 2 = 1 →
        (4 * y.mantissa - y.below) * 2 ^ k < 4 * x.mantissa + 2) := by
  have hquarter : y.quarter = 2 ^ k * x.quarter := by
    rw [quarter,step,show x.exponent + k - 2 = k + (x.exponent - 2) by omega,
      zpow_add₀ (by norm_num),zpow_natCast]
    rfl
  have hle := hy.le.1.trans hx.le.2
  rw [hquarter,← mul_assoc,mul_le_mul_iff_left₀ x.quarter_pos] at hle
  refine ⟨by exact_mod_cast hle,?_⟩
  intro hodd
  have hlt : ((4 * y.mantissa - y.below : ℕ) : ℚ) * y.quarter <
      (4 * x.mantissa + 2 : ℕ) * x.quarter := by
    rcases hodd with hodd | hodd
    · have hstrict := hx
      rw [Covers,Within,if_neg (by simp [hodd])] at hstrict
      exact hy.le.1.trans_lt hstrict.2
    · have hstrict := hy
      rw [Covers,Within,if_neg (by simp [hodd])] at hstrict
      exact hstrict.1.trans_le hx.le.2
  rw [hquarter,← mul_assoc,mul_lt_mul_iff_left₀ x.quarter_pos] at hlt
  exact_mod_cast hlt

theorem Covers.not_lt {y : Binary64} {q : ℚ} (hx : x.Covers q) (hy : y.Covers q) :
    ¬ (x.exponent < y.exponent ∨ x.exponent = y.exponent ∧ x.mantissa < y.mantissa) := by
  intro hlt
  obtain ⟨k,hk⟩ := Int.le.dest (show x.exponent ≤ y.exponent by omega)
  obtain ⟨hle,hodd⟩ := hx.meet hy hk.symm
  have hxmost := x.normal.1
  have hxleast := x.normal.2.1
  have hyfull := y.normal.2.2.2
  have hbelow : y.below = 2 ∨ y.below = 1 ∧ y.mantissa = leastFull := by
    unfold below
    split
    · rename_i hfull
      exact Or.inr ⟨rfl,hfull.1⟩
    · exact Or.inl rfl
  have hsparse : y.below = 2 → y.mantissa ≠ leastFull ∨ y.exponent = -1074 := by
    unfold below
    split
    · nofun
    · intro _
      omega
  cases k with
  | zero =>
    -- neighbours on one grid, of which one is odd and its interval open
    rw [pow_zero,Nat.mul_one] at hle hodd
    omega
  | succ k =>
    -- the largest mantissa below a power of two is odd
    have hpower : (4 * y.mantissa - y.below) * 2 ≤ (4 * y.mantissa - y.below) * 2 ^ (k + 1) :=
      Nat.mul_le_mul_left _ (Nat.le_self_pow (Nat.succ_ne_zero k) 2)
    simp only [leastFull] at hxmost hyfull hbelow hsparse
    omega

/-- A decimal rounds to one number only. -/
theorem Covers.magnitude_eq {y : Binary64} {q : ℚ} (hx : x.Covers q) (hy : y.Covers q) :
    x.mantissa = y.mantissa ∧ x.exponent = y.exponent := by
  have hxy := hx.not_lt hy
  have hyx := hy.not_lt hx
  omega

end Binary64

namespace Number

def Parts.magnitude (p : Parts) : ℚ :=
  Binary64.decimalValue (p.whole ++ p.fraction.getD [])
    (p.exponent.getD 0 - (p.fraction.getD []).length)

end Number

namespace Binary64

def exponentText (e : ℤ) : List Char :=
  'e' :: (if e < 0 then '-' else '+') :: Nat.toDigits 10 e.natAbs

/-- The layouts of digits of which the first stands for `10 ^ e`. -/
inductive Layout (ds : List Char) (e : ℤ) : List Char → Prop
  | fraction (n : ℕ) (h : e + n + 1 = 0) : Layout ds e ('0' :: '.' :: (List.replicate n '0' ++ ds))
  | whole (n : ℕ) (h : e + 1 = ds.length + n) :
      Layout ds e (ds ++ List.replicate n '0' ++ ['.','0'])
  | point {w f : List Char} (digits : w ++ f = ds) (hw : w ≠ []) (hf : f ≠ [])
      (h : e + 1 = w.length) : Layout ds e (w ++ '.' :: f)
  | digit {d : Char} (digits : [d] = ds) : Layout ds e (d :: exponentText e)
  | scientific {d : Char} {f : List Char} (digits : d :: f = ds) (hf : f ≠ []) :
      Layout ds e (d :: '.' :: (f ++ exponentText e))

theorem layout_form {ds : List Char} (hds : ds ≠ []) (e : ℤ) : Layout ds e (layout ds e) := by
  unfold layout
  split
  · split
    · exact .fraction _ (by omega)
    · dsimp only
      split
      · exact .whole _ (by omega)
      · rename_i hlong
        have hlength := List.length_take_of_le (Nat.le_of_not_le hlong)
        refine .point (List.take_append_drop _ _) ?_ ?_ (by omega)
        · exact List.ne_nil_of_length_eq_add_one hlength
        · exact List.drop_eq_nil_iff.not.mpr hlong
  · match ds,hds with
    | [d],_ => exact .digit rfl
    | d :: d' :: f,_ => exact .scientific rfl (List.cons_ne_nil d' f)

theorem exponent?_exponentText (e : ℤ) :
    Number.exponent? (exponentText e) = some (some e) := by
  have hdigits : Numeral.Digits (Nat.toDigits 10 e.natAbs) :=
    ⟨Nat.toDigits_ne_nil,fun c hc => Numeral.isDigit_toDigits hc⟩
  have hvalue : Numeral.value (Nat.toDigits 10 e.natAbs) = e.natAbs := by
    rw [← Numeral.ofDigitChars_eq_value,Nat.ofDigitChars_toDigits (by decide) (by decide)]
  have hdenotes : Numeral.Denotes ((if e < 0 then '-' else '+') :: Nat.toDigits 10 e.natAbs) e := by
    by_cases he : e < 0
    · have habs : e = -(Numeral.value (Nat.toDigits 10 e.natAbs) : ℤ) := by omega
      rw [if_pos he]
      nth_rewrite 2 [habs]
      exact .minus hdigits
    · have habs : e = (Numeral.value (Nat.toDigits 10 e.natAbs) : ℤ) := by omega
      rw [if_neg he]
      nth_rewrite 2 [habs]
      exact .plus hdigits
  rw [exponentText,Number.exponent?,if_pos (Or.inl rfl),Numeral.integer?_complete hdenotes]
  rfl

section
open Number
variable {ds cs : List Char} {e : ℤ}

/-- Digits in their layout are a numeral with a point or an exponent, which stands for what
the digits stand for. -/
theorem Layout.parts (layout : Layout ds e cs) (hds : ds ≠ [])
    (hdigits : ∀ c ∈ ds, c.isDigit = true) (hhead : ds.head? ≠ some '0') (negative : Bool) :
    ∃ p, parts? (if negative then '-' :: cs else cs) = some p ∧ p.negative = negative ∧
      p.whole? = none ∧ p.magnitude = decimalValue ds (e + 1 - ds.length) := by
  have hzeros : ∀ n, ∀ c ∈ List.replicate n '0', c.isDigit = true := by
    intro n c hc
    rw [List.eq_of_mem_replicate hc]
    rfl
  have hleading : ∀ w f z, w ++ f = ds → w ≠ [] → (∀ c ∈ z, c.isDigit = true) →
      Leading (w ++ z) := by
    rintro w f z rfl hw hz
    refine ⟨List.append_ne_nil_of_left_ne_nil hw z,List.forall_mem_append.mpr
      ⟨fun c hc => hdigits c (List.mem_append_left f hc),hz⟩,?_⟩
    intro hzero
    cases w with
    | nil => exact absurd rfl hw
    | cons d w => exact absurd hzero hhead
  cases layout with
  | fraction n h =>
    have hw : Leading ['0'] := ⟨List.cons_ne_nil _ _,by simp,fun _ => rfl⟩
    have hf : ∀ c ∈ List.replicate n '0' ++ ds, c.isDigit = true :=
      List.forall_mem_append.mpr ⟨hzeros n,hdigits⟩
    have hparts := parts?_fraction (t := []) negative hw
      (List.append_ne_nil_of_right_ne_nil _ hds) hf nofun rfl
    rw [List.append_nil] at hparts
    refine ⟨_,hparts,rfl,rfl,?_⟩
    have hsplit : ['0'] ++ (List.replicate n '0' ++ ds) = List.replicate (n + 1) '0' ++ ds := by
      rw [List.replicate_succ,List.cons_append]
      rfl
    have hexponent : (0 : ℤ) - (List.replicate n '0' ++ ds).length = e + 1 - ds.length := by
      rw [List.length_append,List.length_replicate]
      omega
    rw [Parts.magnitude,Option.getD_some,Option.getD_none,hsplit,hexponent,
      decimalValue_zeros_append]
  | whole n h =>
    have hw := hleading ds [] (List.replicate n '0') (List.append_nil ds) hds (hzeros n)
    have hparts := parts?_fraction (f := ['0']) (t := []) negative hw (List.cons_ne_nil _ _)
      (hzeros 1) nofun rfl
    refine ⟨_,hparts,rfl,rfl,?_⟩
    have hsplit : ds ++ List.replicate n '0' ++ ['0'] = ds ++ List.replicate (n + 1) '0' := by
      rw [List.append_assoc,List.replicate_succ']
    have hexponent : (0 : ℤ) - ['0'].length + (n + 1 : ℕ) = e + 1 - ds.length := by
      rw [List.length_singleton]
      omega
    rw [Parts.magnitude,Option.getD_some,Option.getD_none,hsplit,decimalValue_append_zeros,
      hexponent]
  | @point w f digits hw hf h =>
    subst digits
    have hparts := parts?_fraction (t := []) negative
      (hleading w f [] rfl hw nofun) hf (fun c hc => hdigits c (List.mem_append_right w hc)) nofun
      rfl
    rw [List.append_nil,List.append_nil] at hparts
    refine ⟨_,hparts,rfl,rfl,?_⟩
    have hexponent : (0 : ℤ) - f.length = e + 1 - (w ++ f).length := by
      rw [List.length_append]
      omega
    rw [Parts.magnitude,Option.getD_some,Option.getD_none,hexponent]
  | @digit d digits =>
    subst digits
    have hparts := parts?_bare (t := exponentText e) negative
      (hleading [d] [] [] rfl (List.cons_ne_nil _ _) nofun) (by simp [exponentText])
      (exponent?_exponentText e)
    refine ⟨_,hparts,rfl,rfl,?_⟩
    have hexponent : e - ([] : List Char).length = e + 1 - [d].length := by
      rw [List.length_nil,List.length_singleton]
      omega
    rw [Parts.magnitude,Option.getD_some,Option.getD_none,hexponent]
    rfl
  | @scientific d f digits hf =>
    subst digits
    have hparts := parts?_fraction (w := [d]) (t := exponentText e) negative
      (hleading [d] f [] rfl (List.cons_ne_nil _ _) nofun) hf
      (fun c hc => hdigits c (List.mem_cons_of_mem d hc)) (by simp [exponentText])
      (exponent?_exponentText e)
    refine ⟨_,hparts,rfl,rfl,?_⟩
    have hexponent : e - f.length = e + 1 - (d :: f).length := by
      rw [List.length_cons]
      omega
    rw [Parts.magnitude,Option.getD_some,Option.getD_some,hexponent]
    rfl

end

/-- A number is written as a numeral with a point or an exponent, which rounds to it. -/
theorem parts?_text (x : Binary64) : ∃ p, Number.parts? x.text = some p ∧
    p.negative = x.negative ∧ p.whole? = none ∧ (x.mantissa = 0 → p.magnitude = 0) ∧
      (x.mantissa ≠ 0 → x.Covers p.magnitude) := by
  rw [text_eq]
  by_cases h : x.mantissa = 0
  · have hunsigned : x.unsigned = ['0','.','0'] := if_pos h
    refine ⟨⟨x.negative,['0'],some ['0'],none⟩,?_,rfl,rfl,fun _ => ?_,absurd h⟩
    · rw [hunsigned]
      cases x.negative <;> rfl
    · rw [Number.Parts.magnitude,decimalValue,show Nat.ofDigitChars 10 _ 0 = 0 from rfl,
        Nat.cast_zero,zero_mul]
  · have hunsigned : x.unsigned = layout x.shortest.1
        (x.shortest.2 + x.shortest.1.length - 1) := if_neg h
    obtain ⟨hcovers,d,ds,hds,hd⟩ := covers_shortest h
    have hne : x.shortest.1 ≠ [] := hds ▸ List.cons_ne_nil d ds
    have hhead : x.shortest.1.head? ≠ some '0' := by
      rw [hds]
      exact fun hzero => hd (Option.some.inj hzero)
    obtain ⟨p,hp,hnegative,hwhole,hmagnitude⟩ := (layout_form hne _).parts hne
      (fun c hc => isDigit_shortest hc) hhead x.negative
    rw [hunsigned]
    refine ⟨p,hp,hnegative,hwhole,fun hzero => absurd hzero h,fun _ => ?_⟩
    have hexponent : x.shortest.2 + x.shortest.1.length - 1 + 1 - x.shortest.1.length =
        x.shortest.2 := by omega
    rwa [hmagnitude,hexponent]

/-- Two numbers are never written alike. -/
theorem text_injective : Function.Injective text := by
  intro x y h
  obtain ⟨p,hp,hpnegative,-,hxzero,hx⟩ := x.parts?_text
  obtain ⟨q,hq,hqnegative,-,hyzero,hy⟩ := y.parts?_text
  rw [h] at hp
  obtain rfl := Option.some.inj (hp.symm.trans hq)
  have hnegative := hpnegative.symm.trans hqnegative
  have hmagnitude : x.mantissa = y.mantissa ∧ x.exponent = y.exponent := by
    have hxfull := x.normal.2.2.2
    have hyfull := y.normal.2.2.2
    simp only [leastFull] at hxfull hyfull
    have hnonzero : ∀ z : Binary64, z.mantissa ≠ 0 → ¬ z.Covers 0 :=
      fun z hz hcovers => absurd hcovers.le.1 (not_le.mpr (least_pos hz))
    by_cases hx0 : x.mantissa = 0
    · by_cases hy0 : y.mantissa = 0
      · omega
      · exact absurd (hxzero hx0 ▸ hy hy0) (hnonzero y hy0)
    · by_cases hy0 : y.mantissa = 0
      · exact absurd (hyzero hy0 ▸ hx hx0) (hnonzero x hx0)
      · exact (hx hx0).magnitude_eq (hy hy0)
  cases x
  cases y
  obtain ⟨rfl,rfl⟩ := hmagnitude
  cases hnegative
  rfl

end Binary64

namespace Number

theorem text_injective : Function.Injective text := by
  -- a floating-point number has a point or an exponent, with which no whole number is read
  have hwhole : ∀ (w : Whole) (x : Binary64), text (.whole w) ≠ text (.real x) := by
    intro w x h
    obtain ⟨p,hp,-,hreal,-,-⟩ := x.parts?_text
    have hread := read?_whole w
    rw [h,read?,show parts? (text (.real x)) = some p from hp,Option.bind_some,hreal] at hread
    obtain ⟨y,-,hy⟩ := Option.map_eq_some_iff.mp hread
    cases hy
  intro m n h
  cases m with
  | whole v =>
    cases n with
    | whole w => exact Option.some.inj ((read?_whole v).symm.trans (h ▸ read?_whole w))
    | real y => exact absurd h (hwhole v y)
  | real x =>
    cases n with
    | whole w => exact absurd h.symm (hwhole w x)
    | real y => exact congrArg Number.real (Binary64.text_injective h)

end Number
end GridWorker
