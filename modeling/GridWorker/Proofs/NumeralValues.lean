import Mathlib.Data.List.Induction
import Mathlib.Data.Nat.Digits.Defs
import GridWorker.Text.Numeral

/-! # What a numeral denotes

The digits of a numeral are read in base ten, the last of them for the units, whatever
zeros stand first; a sign stands in front of all digits or nowhere. Each reader finds the
number that a numeral denotes, and the readers of words find it where it fits.
-/
namespace GridWorker.Numeral

def value (ds : List Char) : Nat :=
  Nat.ofDigits 10 (ds.reverse.map fun c => c.toNat - '0'.toNat)

def Digits (ds : List Char) : Prop := ds ≠ [] ∧ ∀ c ∈ ds, c.isDigit = true

/-- The grammar of numerals, each with the number that it denotes. -/
inductive Denotes : List Char → Int → Prop
  | plain {ds : List Char} (digits : Digits ds) : Denotes ds (value ds)
  | plus {ds : List Char} (digits : Digits ds) : Denotes ('+' :: ds) (value ds)
  | minus {ds : List Char} (digits : Digits ds) : Denotes ('-' :: ds) (-(value ds : Int))

theorem ofDigitChars_eq_value (ds : List Char) : Nat.ofDigitChars 10 ds 0 = value ds := by
  induction ds using List.reverseRecOn with
  | nil => rfl
  | append_singleton ds c ih =>
    have hvalue : value (ds ++ [c]) = c.toNat - '0'.toNat + 10 * value ds := by
      rw [value,List.reverse_append,List.reverse_singleton,List.singleton_append,List.map_cons,
        Nat.ofDigits_cons]
      rfl
    rw [Nat.ofDigitChars_append,ih,Nat.ofDigitChars_cons,Nat.ofDigitChars_nil,hvalue,Nat.add_comm]

theorem Digits.not_mem {ds : List Char} (h : Digits ds) {c : Char} (hc : c.isDigit = false) :
    c ∉ ds := by
  intro hm
  exact Bool.false_ne_true (hc.symm.trans (h.2 c hm))

theorem digits?_eq_some_iff {ds : List Char} {n : Nat} :
    digits? ds = some n ↔ Digits ds ∧ n = value ds := by
  by_cases h : ds ≠ [] ∧ ds.all Char.isDigit
  · have hdigits : Digits ds := ⟨h.1,List.all_eq_true.mp h.2⟩
    rw [digits?,if_pos h,ofDigitChars_eq_value,Option.some_inj]
    exact ⟨fun hn => ⟨hdigits,hn.symm⟩,fun hn => hn.2.symm⟩
  · rw [digits?,if_neg h]
    constructor
    · intro hn
      cases hn
    · rintro ⟨hdigits,-⟩
      exact absurd ⟨hdigits.1,List.all_eq_true.mpr hdigits.2⟩ h

theorem Digits.read {ds : List Char} (h : Digits ds) : digits? ds = some (value ds) :=
  digits?_eq_some_iff.mpr ⟨h,rfl⟩

theorem digits_toDigits (n : Nat) : Digits (Nat.toDigits 10 n) :=
  ⟨Nat.toDigits_ne_nil,fun _ => Nat.isDigit_of_mem_toDigits (by decide) (by decide)⟩

theorem value_toDigits (n : Nat) : value (Nat.toDigits 10 n) = n := by
  rw [← ofDigitChars_eq_value,Nat.ofDigitChars_toDigits (by decide) (by decide)]

theorem natural?_of_digits {ds : List Char} (h : Digits ds) : natural? ds = some (value ds) := by
  have hsign : '+' ∉ ds := h.not_mem rfl
  unfold natural?
  split
  · exact absurd List.mem_cons_self hsign
  · exact h.read

theorem natural?_sound {cs : List Char} {n : Nat} (h : natural? cs = some n) :
    Denotes cs n ∧ '-' ∉ cs := by
  unfold natural? at h
  split at h
  · obtain ⟨hdigits,rfl⟩ := digits?_eq_some_iff.mp h
    refine ⟨.plus hdigits,?_⟩
    intro hm
    cases hm with
    | tail _ hm => exact hdigits.not_mem rfl hm
  · obtain ⟨hdigits,rfl⟩ := digits?_eq_some_iff.mp h
    exact ⟨.plain hdigits,hdigits.not_mem rfl⟩

theorem natural?_complete {cs : List Char} {i : Int} (h : Denotes cs i) (hsign : '-' ∉ cs) :
    natural? cs = some i.toNat := by
  cases h with
  | plain digits => exact natural?_of_digits digits
  | plus digits => exact digits.read
  | minus digits => exact absurd List.mem_cons_self hsign

theorem integer?_sound {cs : List Char} {i : Int} (h : integer? cs = some i) : Denotes cs i := by
  unfold integer? at h
  split at h
  · obtain ⟨n,hn,rfl⟩ := Option.map_eq_some_iff.mp h
    obtain ⟨m,hm,hn⟩ := Option.bind_eq_some_iff.mp hn
    obtain rfl := Option.some.inj hn
    obtain ⟨hdigits,rfl⟩ := digits?_eq_some_iff.mp hm
    exact .minus hdigits
  · obtain ⟨n,hn,rfl⟩ := Option.map_eq_some_iff.mp h
    exact (natural?_sound hn).1

theorem integer?_complete {cs : List Char} {i : Int} (h : Denotes cs i) :
    integer? cs = some i := by
  cases h with
  | plain digits =>
    have hsign : '-' ∉ cs := digits.not_mem rfl
    unfold integer?
    split
    · exact absurd List.mem_cons_self hsign
    · rw [natural?_of_digits digits]
      rfl
  | plus digits => simp [integer?,natural?,digits.read]
  | minus digits => simp [integer?,digits.read]

/-- A numeral denotes one number. -/
theorem Denotes.unique {cs : List Char} {i j : Int} (hi : Denotes cs i) (hj : Denotes cs j) :
    i = j :=
  Option.some.inj ((integer?_complete hi).symm.trans (integer?_complete hj))

theorem int64?_eq_some_iff {s : String} {d : Int64} :
    int64? s = some d ↔ Denotes s.toList d.toInt := by
  constructor
  · intro h
    obtain ⟨i,hi,hd⟩ := Option.bind_eq_some_iff.mp h
    split at hd
    · rename_i hfits
      obtain rfl := Option.some.inj hd
      rw [Int64.toInt_ofInt_of_le hfits.1 hfits.2]
      exact integer?_sound hi
    · cases hd
  · intro h
    have hfits : -0x8000000000000000 ≤ d.toInt ∧ d.toInt < 0x8000000000000000 :=
      ⟨d.le_toInt,d.toInt_lt⟩
    rw [int64?,integer?_complete h,Option.bind_some,if_pos hfits,Int64.ofInt_toInt]

theorem Denotes.exists_int64? {s : String} {v : Int} (h : Denotes s.toList v)
    (least : -0x8000000000000000 ≤ v) (most : v < 0x8000000000000000) :
    ∃ d, int64? s = some d ∧ d.toInt = v := by
  have hvalue : (Int64.ofInt v).toInt = v := Int64.toInt_ofInt_of_le least most
  refine ⟨Int64.ofInt v,int64?_eq_some_iff.mpr ?_,hvalue⟩
  rwa [hvalue]

theorem uint64?_eq_some_iff {s : String} {n : UInt64} :
    uint64? s = some n ↔ Denotes s.toList n.toNat ∧ '-' ∉ s.toList := by
  constructor
  · intro h
    obtain ⟨m,hm,hn⟩ := Option.bind_eq_some_iff.mp h
    split at hn
    · rename_i hfits
      obtain rfl := Option.some.inj hn
      rw [UInt64.toNat_ofNat_of_lt' hfits]
      exact natural?_sound hm
    · cases hn
  · rintro ⟨h,hsign⟩
    have hread : natural? s.toList = some n.toNat := natural?_complete h hsign
    rw [uint64?,hread,Option.bind_some,if_pos n.toNat_lt,UInt64.ofNat_toNat]

end GridWorker.Numeral
