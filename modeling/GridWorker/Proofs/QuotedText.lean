import GridWorker.Json.Token

/-! # What stands between quotes

A character is written as itself, as an escape by a letter or as an escape by a number, and
in each form it is read as itself. No form has a control character in it, and none has a quote
or a backslash but behind a backslash, so that the scanner stays inside the quotes until the
quote that ends them.
-/
namespace GridWorker.Quoted

inductive Form (c : Char) : List Char → Prop
  | letter {l : Char} (escape : letterEscape? l = some c) : Form c ['\\',l]
  | numbered (control : c.toNat < 0x20) : Form c
      ['\\','u','0','0',hexDigit (c.toNat / 16),hexDigit (c.toNat % 16)]
  | plain (quote : c ≠ '"') (backslash : c ≠ '\\') (least : 0x20 ≤ c.toNat) : Form c [c]

theorem escapeChar_form (c : Char) : Form c (escapeChar c) := by
  unfold escapeChar
  split
  · subst_vars
    exact .letter rfl
  split
  · subst_vars
    exact .letter rfl
  split
  · subst_vars
    exact .letter rfl
  split
  · subst_vars
    exact .letter rfl
  split
  · subst_vars
    exact .letter rfl
  split
  · subst_vars
    exact .letter rfl
  split
  · subst_vars
    exact .letter rfl
  split
  · rename_i h
    exact .numbered h
  · rename_i hquote hbackslash _ _ _ _ _ hleast
    exact .plain hquote hbackslash (Nat.le_of_not_lt hleast)

theorem hexValue?_hexDigit : ∀ n < 16, hexValue? (hexDigit n) = some n := by decide

theorem hexDigit_plain : ∀ n < 16, 0x20 ≤ (hexDigit n).toNat ∧ hexDigit n ≠ '"' ∧
    hexDigit n ≠ '\\' := by decide

theorem letterEscape?_least {l c : Char} (h : letterEscape? l = some c) : 0x20 ≤ l.toNat := by
  unfold letterEscape? at h
  split at h <;> first | decide | cases h

section Unescape
variable {c : Char} {cs : List Char}

theorem unescape?_letter {l : Char} (h : letterEscape? l = some c) (rest : List Char) :
    unescape? ('\\' :: l :: rest) = (unescape? rest).map (c :: ·) := by
  have hletter : l ≠ 'u' := by
    rintro rfl
    cases h
  rw [unescape?]
  · rw [h]
  · intro x y z w more heq
    exact absurd heq hletter

theorem unescape?_numbered (h : c.toNat < 0x20) (rest : List Char) :
    unescape? ('\\' :: 'u' :: '0' :: '0' :: hexDigit (c.toNat / 16) :: hexDigit (c.toNat % 16) ::
      rest) = (unescape? rest).map (c :: ·) := by
  have hhigh := hexValue?_hexDigit (c.toNat / 16) (by omega)
  have hlow := hexValue?_hexDigit (c.toNat % 16) (by omega)
  have hzero : hexValue? '0' = some 0 := rfl
  have hvalue : hexValue4? '0' '0' (hexDigit (c.toNat / 16)) (hexDigit (c.toNat % 16)) =
      some c.toNat := by
    simp only [hexValue4?,hhigh,hlow,hzero,Option.bind_eq_bind,Option.bind_some,Option.pure_def]
    congr 1
    omega
  have htrail : isTrail c.toNat = false := decide_eq_false (by omega)
  have hlead : isLead c.toNat = false := decide_eq_false (by omega)
  simp only [unescape?,hvalue,htrail,hlead,Bool.false_eq_true,if_false,Char.ofNat_toNat]

theorem unescape?_plain (quote : c ≠ '"') (backslash : c ≠ '\\') (least : 0x20 ≤ c.toNat)
    (rest : List Char) : unescape? (c :: rest) = (unescape? rest).map (c :: ·) := by
  have hraw : ¬ (c = '\\' ∨ c = '"' ∨ c.toNat < 0x20) := by
    rintro (h | h | h)
    · exact backslash h
    · exact quote h
    · omega
  rw [unescape?]
  · exact if_neg hraw
  · intro x y z w more h
    exact absurd h backslash
  · intro l more h
    exact absurd h backslash

/-- A written character is read as itself, whatever follows it. -/
theorem Form.unescape? (form : Form c cs) (rest : List Char) :
    unescape? (cs ++ rest) = (Quoted.unescape? rest).map (c :: ·) := by
  cases form with
  | letter escape => exact unescape?_letter escape rest
  | numbered control => exact unescape?_numbered control rest
  | plain quote backslash least => exact unescape?_plain quote backslash least rest

theorem unescape?_escape (cs : List Char) : Quoted.unescape? (escape cs) = some cs := by
  induction cs with
  | nil => rfl
  | cons c cs ih =>
    rw [escape,List.flatMap_cons,(escapeChar_form c).unescape?]
    exact congrArg (Option.map (c :: ·)) ih

end Unescape

theorem Form.least {c : Char} {cs : List Char} (form : Form c cs) :
    ∀ d ∈ cs, 0x20 ≤ d.toNat := by
  cases form with
  | letter escape =>
    intro d hd
    simp only [List.mem_cons,List.not_mem_nil,or_false] at hd
    rcases hd with rfl | rfl
    · decide
    · exact letterEscape?_least escape
  | numbered control =>
    have hhigh := (hexDigit_plain (c.toNat / 16) (by omega)).1
    have hlow := (hexDigit_plain (c.toNat % 16) (by omega)).1
    simpa using ⟨hhigh,hlow⟩
  | plain quote backslash least =>
    intro d hd
    rw [List.mem_singleton.mp hd]
    exact least

/-- No control character stands between the quotes. -/
theorem escape_least {cs : List Char} {d : Char} (h : d ∈ escape cs) : 0x20 ≤ d.toNat := by
  obtain ⟨c,-,hd⟩ := List.mem_flatMap.mp h
  exact (escapeChar_form c).least d hd

end Quoted

namespace Token.Scanner
open Quoted
variable {found : List Token} (read : List Char)

theorem step_quoted {c : Char} (quote : c ≠ '"') (backslash : c ≠ '\\') :
    step ⟨.quoted read false,found⟩ c = some ⟨.quoted (c :: read) false,found⟩ := by
  simp [step,quote,backslash]

theorem foldlM_quoted {cs : List Char} (h : ∀ c ∈ cs, c ≠ '"' ∧ c ≠ '\\') :
    cs.foldlM step ⟨.quoted read false,found⟩ =
      some ⟨.quoted (cs.reverse ++ read) false,found⟩ := by
  induction cs generalizing read with
  | nil => rfl
  | cons c cs ih =>
    obtain ⟨hquote,hbackslash⟩ := h c List.mem_cons_self
    rw [List.foldlM_cons,step_quoted read hquote hbackslash]
    have hrest := ih (c :: read) fun d hd => h d (List.mem_cons_of_mem _ hd)
    simpa using hrest

theorem foldlM_form {c : Char} {cs : List Char} (form : Form c cs) :
    cs.foldlM step ⟨.quoted read false,found⟩ =
      some ⟨.quoted (cs.reverse ++ read) false,found⟩ := by
  cases form with
  | letter escape => rfl
  | numbered control =>
    have hhigh := (hexDigit_plain (c.toNat / 16) (by omega)).2
    have hlow := (hexDigit_plain (c.toNat % 16) (by omega)).2
    have hdigits : ∀ d ∈ ['0','0',hexDigit (c.toNat / 16),hexDigit (c.toNat % 16)],
        d ≠ '"' ∧ d ≠ '\\' := by simp [hhigh,hlow]
    exact foldlM_quoted ('u' :: '\\' :: read) hdigits
  | plain quote backslash => exact foldlM_quoted read (by simp [quote,backslash])

/-- The scanner takes in the writing of characters without leaving the quotes. -/
theorem foldlM_escape (cs : List Char) : (escape cs).foldlM step ⟨.quoted read false,found⟩ =
    some ⟨.quoted ((escape cs).reverse ++ read) false,found⟩ := by
  induction cs generalizing read with
  | nil => rfl
  | cons c cs ih =>
    have hsplit : escape (c :: cs) = escapeChar c ++ escape cs := List.flatMap_cons
    rw [hsplit,List.foldlM_append,foldlM_form read (escapeChar_form c)]
    have hrest := ih ((escapeChar c).reverse ++ read)
    simpa using hrest

end Token.Scanner
end GridWorker
