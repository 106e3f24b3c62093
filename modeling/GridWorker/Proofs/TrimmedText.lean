import Mathlib.Data.List.DropRight
import Mathlib.Data.List.Forall2
import GridWorker.Text.Blank

/-! # Texts without the white space at their ends

Trimming leaves exactly one text, which neither begins nor ends with white space. It takes no
notice of the case of ASCII letters, and what it leaves inside a text is every character that is
no white space and all white space between such characters.
-/
namespace GridWorker

/-! ## White space at the ends -/

namespace Blank

def WhiteSpace (c : Char) : Prop :=
  0x09 ≤ c.toNat ∧ c.toNat ≤ 0x0D ∨ c.toNat = 0x20 ∨ c.toNat = 0x85 ∨ c.toNat = 0xA0 ∨
    c.toNat = 0x1680 ∨ 0x2000 ≤ c.toNat ∧ c.toNat ≤ 0x200A ∨ c.toNat = 0x2028 ∨
    c.toNat = 0x2029 ∨ c.toNat = 0x202F ∨ c.toNat = 0x205F ∨ c.toNat = 0x3000

theorem isBlank_iff {c : Char} : isBlank c = true ↔ WhiteSpace c := by
  simp only [isBlank,codePoints,List.contains_iff_mem,List.mem_cons,List.not_mem_nil,or_false,
    WhiteSpace]
  omega

instance (c : Char) : Decidable (WhiteSpace c) := decidable_of_iff _ isBlank_iff

/-- The second text is what is left of the first without the white space at its two ends. -/
structure Trims (cs core : List Char) : Prop where
  framed : ∃ before after, cs = before ++ core ++ after ∧ (∀ c ∈ before, WhiteSpace c) ∧
    ∀ c ∈ after, WhiteSpace c
  first : ∀ c ∈ core.head?, ¬ WhiteSpace c
  last : ∀ c ∈ core.getLast?, ¬ WhiteSpace c

theorem trim_eq (cs : List Char) : trim cs = (cs.dropWhile isBlank).rdropWhile isBlank := rfl

theorem trims_trim (cs : List Char) : Trims cs (trim cs) := by
  have hright : trim cs ++ (cs.dropWhile isBlank).rtakeWhile isBlank = cs.dropWhile isBlank :=
    List.rdropWhile_append_rtakeWhile
  constructor
  case framed =>
    refine ⟨cs.takeWhile isBlank,(cs.dropWhile isBlank).rtakeWhile isBlank,?_,?_,?_⟩
    · rw [List.append_assoc,hright,List.takeWhile_append_dropWhile]
    · exact fun c hc => isBlank_iff.mp (List.mem_takeWhile_imp hc)
    · exact fun c hc => isBlank_iff.mp (List.mem_rtakeWhile_imp hc)
  case first =>
    intro c hc hspace
    have hhead : (cs.dropWhile isBlank).head? = some c := by
      rw [← hright,List.head?_append,Option.mem_def.mp hc]
      rfl
    have hnot := List.head?_dropWhile_not isBlank cs
    rw [hhead] at hnot
    exact Bool.false_ne_true (hnot.symm.trans (isBlank_iff.mpr hspace))
  case last =>
    intro c hc hspace
    obtain ⟨hne,rfl⟩ := List.mem_getLast?_eq_getLast hc
    exact List.rdropWhile_last_not isBlank _ hne (isBlank_iff.mpr hspace)

section Ends
variable {left right : List Char}

theorem dropWhile_blank (h : ∀ c ∈ left, WhiteSpace c) :
    (left ++ right).dropWhile isBlank = right.dropWhile isBlank :=
  List.dropWhile_append_of_pos fun c hc => isBlank_iff.mpr (h c hc)

theorem rdropWhile_blank (h : ∀ c ∈ right, WhiteSpace c) :
    (left ++ right).rdropWhile isBlank = left.rdropWhile isBlank := by
  rw [List.rdropWhile,List.reverse_append,
    dropWhile_blank fun c hc => h c (List.mem_reverse.mp hc)]
  rfl

theorem dropWhile_unlike (h : ∃ c ∈ left, ¬ WhiteSpace c) :
    (left ++ right).dropWhile isBlank = left.dropWhile isBlank ++ right := by
  obtain ⟨c,hc,hspace⟩ := h
  rw [List.dropWhile_append,if_neg]
  intro hempty
  exact hspace (isBlank_iff.mp (List.dropWhile_eq_nil_iff.mp (List.isEmpty_iff.mp hempty) c hc))

theorem rdropWhile_unlike (h : ∃ c ∈ right, ¬ WhiteSpace c) :
    (left ++ right).rdropWhile isBlank = left ++ right.rdropWhile isBlank := by
  obtain ⟨c,hc,hspace⟩ := h
  rw [List.rdropWhile,List.reverse_append,dropWhile_unlike ⟨c,List.mem_reverse.mpr hc,hspace⟩,
    List.reverse_append,List.reverse_reverse]
  rfl

end Ends

/-- Only one text is left without the white space. -/
theorem Trims.trim_eq {cs core : List Char} (h : Trims cs core) : trim cs = core := by
  obtain ⟨before,after,rfl,hbefore,hafter⟩ := h.framed
  rw [Blank.trim_eq,List.append_assoc,dropWhile_blank hbefore]
  cases core with
  | nil =>
    rw [List.nil_append,
      List.dropWhile_eq_nil_iff.mpr fun c hc => isBlank_iff.mpr (hafter c hc)]
    rfl
  | cons x rest =>
    have hx : ¬ isBlank x = true := fun hx => h.first x rfl (isBlank_iff.mp hx)
    rw [List.cons_append,List.dropWhile_cons_of_neg hx,← List.cons_append,
      rdropWhile_blank hafter,List.rdropWhile_eq_self_iff]
    exact fun hne hlast =>
      h.last _ (List.getLast?_eq_some_getLast hne) (isBlank_iff.mp hlast)

theorem trim_eq_iff {cs core : List Char} : trim cs = core ↔ Trims cs core :=
  ⟨fun h => h ▸ trims_trim cs,Trims.trim_eq⟩

theorem trim_padded {before cs after : List Char} (hbefore : ∀ c ∈ before, WhiteSpace c)
    (hafter : ∀ c ∈ after, WhiteSpace c) : trim (before ++ cs ++ after) = trim cs := by
  obtain ⟨left,right,hcs,hleft,hright⟩ := (trims_trim cs).framed
  have hframe : before ++ cs ++ after = (before ++ left) ++ trim cs ++ (right ++ after) := by
    nth_rewrite 1 [hcs]
    simp only [List.append_assoc]
  refine trim_eq_iff.mpr ⟨⟨_,_,hframe,?_,?_⟩,(trims_trim cs).first,(trims_trim cs).last⟩
  · exact fun c hc => (List.mem_append.mp hc).elim (hbefore c) (hleft c)
  · exact fun c hc => (List.mem_append.mp hc).elim (hright c) (hafter c)

theorem mem_trim {cs : List Char} {c : Char} (hc : c ∈ cs) (h : ¬ WhiteSpace c) : c ∈ trim cs := by
  obtain ⟨before,after,hcs,hbefore,hafter⟩ := (trims_trim cs).framed
  rw [hcs] at hc
  simp only [List.mem_append] at hc
  rcases hc with (hc | hc) | hc
  · exact absurd (hbefore c hc) h
  · exact hc
  · exact absurd (hafter c hc) h

/-- White space stays where other characters stand on both sides of it. -/
theorem mem_trim_between {left right : List Char} (c : Char) (hleft : ∃ x ∈ left, ¬ WhiteSpace x)
    (hright : ∃ x ∈ right, ¬ WhiteSpace x) : c ∈ trim (left ++ c :: right) := by
  obtain ⟨x,hx,hspace⟩ := hright
  rw [trim_eq,dropWhile_unlike hleft,List.append_cons,rdropWhile_unlike ⟨x,hx,hspace⟩]
  exact List.mem_append_left _ List.mem_concat_self

end Blank

/-! ## The case of ASCII letters -/

theorem isUpper_iff {c : Char} : c.isUpper = true ↔ 65 ≤ c.toNat ∧ c.toNat ≤ 90 :=
  decide_eq_true_iff.trans (and_congr UInt32.le_iff_toNat_le UInt32.le_iff_toNat_le)

theorem isLower_iff {c : Char} : c.isLower = true ↔ 97 ≤ c.toNat ∧ c.toNat ≤ 122 := by
  change (decide (c.val ≥ 'a'.val) && decide (c.val ≤ 'z'.val)) = true ↔ _
  rw [Bool.and_eq_true,decide_eq_true_iff,decide_eq_true_iff]
  exact and_congr UInt32.le_iff_toNat_le UInt32.le_iff_toNat_le

theorem isAlphanum_iff {c : Char} : c.isAlphanum = true ↔
    (65 ≤ c.toNat ∧ c.toNat ≤ 90 ∨ 97 ≤ c.toNat ∧ c.toNat ≤ 122) ∨
      48 ≤ c.toNat ∧ c.toNat ≤ 57 := by
  change (c.isUpper || c.isLower || c.isDigit) = true ↔ _
  rw [Bool.or_eq_true,Bool.or_eq_true,isUpper_iff,isLower_iff,Char.isDigit_iff_toNat]
  rfl

theorem toNat_toLower (c : Char) :
    c.toLower.toNat = if c.isUpper then c.toNat + 32 else c.toNat := by
  by_cases hupper : c.isUpper = true
  · have hrange := isUpper_iff.mp hupper
    have hlower : c.toLower.toNat = (c.val + 32).toNat :=
      congrArg Char.toNat (dif_pos (of_decide_eq_true hupper))
    rw [if_pos hupper,hlower,UInt32.toNat_add]
    exact Nat.mod_eq_of_lt (by change c.toNat + 32 < 2 ^ 32; omega)
  · rw [if_neg hupper]
    exact congrArg Char.toNat (dif_neg fun h => hupper (decide_eq_true h))

theorem isAlphanum_toLower (c : Char) : c.toLower.isAlphanum = c.isAlphanum := by
  rw [Bool.eq_iff_iff,isAlphanum_iff,isAlphanum_iff,toNat_toLower]
  split
  · rename_i hupper
    rw [isUpper_iff] at hupper
    omega
  · rfl

theorem Blank.isBlank_toLower (c : Char) : isBlank c.toLower = isBlank c := by
  rw [Bool.eq_iff_iff,isBlank_iff,isBlank_iff,WhiteSpace,toNat_toLower]
  split
  · rename_i hupper
    rw [isUpper_iff] at hupper
    unfold WhiteSpace
    omega
  · rfl

theorem Blank.trim_map_toLower (cs : List Char) :
    trim (cs.map Char.toLower) = (trim cs).map Char.toLower := by
  have hblank : isBlank ∘ Char.toLower = isBlank := funext isBlank_toLower
  rw [trim_eq,trim_eq,List.dropWhile_map,hblank,List.rdropWhile,List.rdropWhile,
    ← List.map_reverse,List.dropWhile_map,hblank,List.map_reverse]

def SameLetter (c d : Char) : Prop :=
  c = d ∨ c.isUpper = true ∧ d.toNat = c.toNat + 32 ∨ d.isUpper = true ∧ c.toNat = d.toNat + 32

theorem sameLetter_iff {c d : Char} : SameLetter c d ↔ c.toLower = d.toLower := by
  simp only [SameLetter,← Char.toNat_inj,toNat_toLower,isUpper_iff]
  split <;> split <;> omega

theorem forall₂_sameLetter_iff {cs ds : List Char} :
    List.Forall₂ SameLetter cs ds ↔ cs.map Char.toLower = ds.map Char.toLower := by
  rw [← List.forall₂_eq_eq_eq,List.forall₂_map_left_iff,List.forall₂_map_right_iff]
  exact ⟨.imp fun _ _ => sameLetter_iff.mp,.imp fun _ _ => sameLetter_iff.mpr⟩

end GridWorker
