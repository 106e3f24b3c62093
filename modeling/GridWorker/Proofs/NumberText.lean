import Mathlib.Data.List.TakeWhile
import GridWorker.Json.Number

/-! # Numbers as they are written

The decimal of a whole number is read as that number: it has no leading zeros, and zero has
no sign. Every number is written in digits, signs, points and the letter of an exponent.
-/
namespace GridWorker

theorem Whole.ext {v w : Whole} (h : v.val = w.val) : v = w := by
  cases v
  cases w
  cases h
  rfl

theorem Whole.ofInt?_val (w : Whole) : ofInt? w.val = some w := dif_pos ⟨w.min_le,w.lt_max⟩

namespace Numeral

theorem isDigit_toDigits {n : Nat} {c : Char} (h : c ∈ Nat.toDigits 10 n) : c.isDigit = true :=
  Nat.isDigit_of_mem_toDigits (by decide) (by decide) h

/-- A decimal begins with a zero only if it is nothing else. -/
theorem toDigits_head {n : Nat} (h : (Nat.toDigits 10 n).head? = some '0') : n = 0 := by
  induction n using Nat.strongRecOn with
  | ind n ih =>
    by_cases hn : n < 10
    · rw [Nat.toDigits_of_lt_base hn] at h
      have hdigit : ∀ m < 10, Nat.digitChar m = '0' → m = 0 := by decide
      exact hdigit n hn (Option.some.inj h)
    · have hten : 10 ≤ n := Nat.le_of_not_lt hn
      have hfront : (Nat.toDigits 10 (n / 10)).head? = some '0' := by
        rw [Nat.toDigits_of_base_le (by decide) hten,List.head?_append] at h
        cases hd : Nat.toDigits 10 (n / 10) with
        | nil => exact absurd hd Nat.toDigits_ne_nil
        | cons c cs => simpa [hd] using h
      have hzero := ih (n / 10) (by omega) hfront
      omega

end Numeral

namespace Number

/-- What may stand before the point of a numeral: one zero, or digits that begin otherwise. -/
def Leading (w : List Char) : Prop :=
  w ≠ [] ∧ (∀ c ∈ w, c.isDigit = true) ∧ (w.head? = some '0' → w.length = 1)

theorem leading_toDigits (n : Nat) : Leading (Nat.toDigits 10 n) := by
  refine ⟨Nat.toDigits_ne_nil,fun c hc => Numeral.isDigit_toDigits hc,?_⟩
  intro hzero
  rw [Numeral.toDigits_head hzero]
  rfl

/-- Digits in front of something else are cut off. -/
theorem cut_digits {ds t : List Char} (digits : ∀ c ∈ ds, c.isDigit = true)
    (stop : ∀ c ∈ t.head?, c.isDigit = false) :
    (ds ++ t).takeWhile Char.isDigit = ds ∧ (ds ++ t).dropWhile Char.isDigit = t := by
  rw [List.takeWhile_append_of_pos digits,List.dropWhile_append_of_pos digits]
  cases t with
  | nil => simp
  | cons c t => simp [stop c rfl]

section Parts
variable {w f t : List Char} (negative : Bool) {exponent : Option Int}

theorem Leading.shape (hw : Leading w) : ¬ (w = [] ∨ (w.head? = some '0' ∧ w.length ≠ 1)) := by
  rintro (hnil | ⟨hhead,hlong⟩)
  · exact hw.1 hnil
  · exact hlong (hw.2.2 hhead)

theorem unsign_leading (hw : Leading w) (t : List Char) :
    unsign '-' (if negative then '-' :: (w ++ t) else w ++ t) = (negative,w ++ t) := by
  obtain ⟨hne,hdigits,-⟩ := hw
  cases negative with
  | true => rfl
  | false =>
    cases w with
    | nil => exact absurd rfl hne
    | cons c w =>
      have hsign : c ≠ '-' := by
        rintro rfl
        exact absurd (hdigits '-' List.mem_cons_self) (by decide)
      simp [unsign,hsign]

theorem parts?_fraction (hw : Leading w) (hf : f ≠ []) (digits : ∀ c ∈ f, c.isDigit = true)
    (stop : ∀ c ∈ t.head?, c.isDigit = false) (hexponent : exponent? t = some exponent) :
    parts? (if negative then '-' :: (w ++ '.' :: (f ++ t)) else w ++ '.' :: (f ++ t)) =
      some ⟨negative,w,some f,exponent⟩ := by
  have hcut := cut_digits (t := '.' :: (f ++ t)) hw.2.1 (by simp)
  have hfraction := cut_digits digits stop
  simp only [parts?,unsign_leading negative hw,hcut.1,hcut.2,hfraction.1,hfraction.2,
    if_neg hw.shape,if_neg hf,hexponent]
  rfl

theorem parts?_bare (hw : Leading w) (stop : ∀ c ∈ t.head?, c.isDigit = false ∧ c ≠ '.')
    (hexponent : exponent? t = some exponent) :
    parts? (if negative then '-' :: (w ++ t) else w ++ t) = some ⟨negative,w,none,exponent⟩ := by
  have hcut := cut_digits (t := t) hw.2.1 fun c hc => (stop c hc).1
  simp only [parts?,unsign_leading negative hw,hcut.1,hcut.2,if_neg hw.shape]
  split
  · exact absurd rfl (stop '.' rfl).2
  · rw [hexponent]
    rfl

end Parts

/-- The decimal of a whole number is read as that number. -/
theorem read?_whole (w : Whole) : read? (text (.whole w)) = some (.whole w) := by
  have hvalue : Nat.ofDigitChars 10 (Nat.toDigits 10 w.val.natAbs) 0 = w.val.natAbs :=
    Nat.ofDigitChars_toDigits (by decide) (by decide)
  have hparts := parts?_bare (t := []) (decide (w.val < 0)) (leading_toDigits w.val.natAbs) nofun
    rfl
  rw [List.append_nil] at hparts
  have htext : text (.whole w) = if decide (w.val < 0) then '-' :: Nat.toDigits 10 w.val.natAbs
      else Nat.toDigits 10 w.val.natAbs := by simp only [text,Numeral.decimal,decide_eq_true_eq]
  have hwhole : Parts.whole? ⟨decide (w.val < 0),Nat.toDigits 10 w.val.natAbs,none,none⟩ =
      some w := by
    by_cases hneg : w.val < 0
    · have habs : -(w.val.natAbs : Int) = w.val := by omega
      have hne : w.val.natAbs ≠ 0 := by omega
      simp only [Parts.whole?,hvalue,decide_eq_true hneg,if_true,if_neg hne,habs,Whole.ofInt?_val]
    · have habs : (w.val.natAbs : Int) = w.val := by omega
      simp only [Parts.whole?,hvalue,decide_eq_false hneg,Bool.false_eq_true,if_false,habs,
        Whole.ofInt?_val]
  rw [read?,htext,hparts,Option.bind_some]
  simp only [hwhole]

end Number

def Number.Plain (c : Char) : Prop := c.isDigit = true ∨ c ∈ ['-','+','.','e']

namespace Binary64
open Number (Plain)

theorem isDigit_shortest {x : Binary64} {c : Char} (h : c ∈ x.shortest.1) : c.isDigit = true := by
  unfold shortest at h
  dsimp only at h
  have hkept := (List.dropWhile_sublist _).mem (List.mem_reverse.mp h)
  exact Numeral.isDigit_toDigits (List.mem_reverse.mp hkept)

theorem layout_plain {ds : List Char} (digits : ∀ c ∈ ds, c.isDigit = true) (e : Int) :
    ∀ c ∈ layout ds e, Plain c := by
  have hdigits : ∀ c ∈ ds, Plain c := fun c hc => Or.inl (digits c hc)
  have htake : ∀ n, ∀ c ∈ ds.take n, Plain c := fun n c hc => hdigits c (List.mem_of_mem_take hc)
  have hdrop : ∀ n, ∀ c ∈ ds.drop n, Plain c := fun n c hc => hdigits c (List.mem_of_mem_drop hc)
  have hzero : Plain '0' := Or.inl rfl
  have hzeros : ∀ n, ∀ c ∈ List.replicate n '0', Plain c := by
    intro n c hc
    rw [List.eq_of_mem_replicate hc]
    exact hzero
  have hexponent : ∀ c ∈ Nat.toDigits 10 e.natAbs, Plain c :=
    fun c hc => Or.inl (Numeral.isDigit_toDigits hc)
  have hpoint : Plain '.' := Or.inr (by decide)
  have hletter : Plain 'e' := Or.inr (by decide)
  have hminus : Plain '-' := Or.inr (by decide)
  have hplus : Plain '+' := Or.inr (by decide)
  unfold layout
  split
  · split
    · simp only [List.cons_append,List.forall_mem_cons,List.forall_mem_append]
      exact ⟨hzero,hpoint,hzeros _,hdigits⟩
    · dsimp only
      split
      · simp only [List.forall_mem_cons,List.forall_mem_append]
        exact ⟨⟨hdigits,hzeros _⟩,hpoint,hzero,fun c hc => nomatch hc⟩
      · simp only [List.forall_mem_cons,List.forall_mem_append]
        exact ⟨htake _,hpoint,hdrop _⟩
  · simp only [List.forall_mem_cons,List.forall_mem_append]
    refine ⟨?_,hletter,?_,hexponent⟩
    · split
      · exact hdigits
      · simp only [List.forall_mem_cons,List.forall_mem_append]
        exact ⟨htake _,hpoint,hdrop _⟩
    · split
      · exact hminus
      · exact hplus

theorem layout_ne_nil (ds : List Char) (e : Int) : layout ds e ≠ [] := by
  unfold layout
  split
  · split
    · exact List.cons_ne_nil _ _
    · dsimp only
      split <;> simp
  · simp

def unsigned (x : Binary64) : List Char :=
  if x.mantissa = 0 then ['0','.','0']
  else layout x.shortest.1 (x.shortest.2 + x.shortest.1.length - 1)

theorem text_eq (x : Binary64) :
    x.text = if x.negative then '-' :: x.unsigned else x.unsigned := rfl

theorem unsigned_plain (x : Binary64) : ∀ c ∈ x.unsigned, Plain c := by
  unfold unsigned
  split
  · simp [Plain]
  · exact layout_plain (fun c hc => isDigit_shortest hc) _

theorem unsigned_ne_nil (x : Binary64) : x.unsigned ≠ [] := by
  unfold unsigned
  split
  · exact List.cons_ne_nil _ _
  · exact layout_ne_nil _ _

end Binary64

namespace Number

def unsigned : Number → List Char
  | .whole w => Nat.toDigits 10 w.val.natAbs
  | .real x => x.unsigned

theorem text_eq (n : Number) : n.text = n.unsigned ∨ n.text = '-' :: n.unsigned := by
  cases n with
  | whole w =>
    by_cases h : w.val < 0
    · exact Or.inr (if_pos h)
    · exact Or.inl (if_neg h)
  | real x =>
    cases h : x.negative with
    | true => exact Or.inr (x.text_eq.trans (if_pos h))
    | false => exact Or.inl (x.text_eq.trans (if_neg (by simp [h])))

theorem unsigned_plain (n : Number) : ∀ c ∈ n.unsigned, Plain c := by
  cases n with
  | whole w => exact fun c hc => Or.inl (Numeral.isDigit_toDigits hc)
  | real x => exact x.unsigned_plain

theorem unsigned_ne_nil (n : Number) : n.unsigned ≠ [] := by
  cases n with
  | whole w => exact Nat.toDigits_ne_nil
  | real x => exact x.unsigned_ne_nil

theorem text_plain (n : Number) : ∀ c ∈ n.text, Plain c := by
  rcases n.text_eq with h | h
  · rw [h]
    exact n.unsigned_plain
  · rw [h,List.forall_mem_cons]
    exact ⟨Or.inr (by decide),n.unsigned_plain⟩

theorem text_ne_nil (n : Number) : n.text ≠ [] := by
  rcases n.text_eq with h | h
  · rw [h]
    exact n.unsigned_ne_nil
  · rw [h]
    exact List.cons_ne_nil _ _

theorem Plain.least {c : Char} (h : Plain c) : 0x20 ≤ c.toNat := by
  rcases h with h | h
  · simp only [Char.isDigit,Bool.and_eq_true,decide_eq_true_eq] at h
    exact Nat.le_trans (by decide) h.1
  · simp only [List.mem_cons,List.not_mem_nil,or_false] at h
    rcases h with rfl | rfl | rfl | rfl <;> decide

end Number
end GridWorker
