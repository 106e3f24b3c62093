import GridWorker.Proofs.TrimmedText
import GridWorker.Settings

/-! # Which values are flags

A value stands for a flag if it is one of eight words, but for white space at its two ends and
for the case of ASCII letters. Settings are loaded from two variables in order, and a value that
is no flag ends the loading. So padding and case make no difference, no other variable does, and
no other value is accepted.
-/
namespace GridWorker

/-! ## Words for yes and no -/

namespace Flag

/-- What is left of the value without the white space at its two ends is one of the words, but
for the case of ASCII letters. -/
def Spells (words : List String) (raw : String) : Prop :=
  ∃ core word, Blank.Trims raw.toList core ∧ word ∈ words ∧
    List.Forall₂ SameLetter core word.toList

def TrueLike : String → Prop := Spells ["1","true","yes","on"]

def FalseLike : String → Prop := Spells ["0","false","no","off"]

/-- The second value is the first with white space around it and letters in another case. -/
def Respelled (raw raw' : String) : Prop :=
  ∃ before cs after, raw'.toList = before ++ cs ++ after ∧ (∀ c ∈ before, Blank.WhiteSpace c) ∧
    (∀ c ∈ after, Blank.WhiteSpace c) ∧ List.Forall₂ SameLetter raw.toList cs

/-- A value with nothing but white space, with white space between other characters, or with a
character that is neither white space nor an ASCII letter or digit. -/
inductive Foreign (raw : String) : Prop
  | blank (only : ∀ c ∈ raw.toList, Blank.WhiteSpace c)
  | parted {left right : List Char} {c : Char} (split : raw.toList = left ++ c :: right)
      (space : Blank.WhiteSpace c) (before : ∃ x ∈ left, ¬ Blank.WhiteSpace x)
      (after : ∃ x ∈ right, ¬ Blank.WhiteSpace x)
  | unlike {c : Char} (mem : c ∈ raw.toList) (mark : ¬ Blank.WhiteSpace c)
      (strange : c.isAlphanum = false)

def wordOf (raw : String) : String := String.ofList ((Blank.trim raw.toList).map Char.toLower)

theorem spells_iff {words : List String}
    (lower : ∀ word ∈ words, word.toList.map Char.toLower = word.toList) {raw : String} :
    Spells words raw ↔ wordOf raw ∈ words := by
  constructor
  · rintro ⟨core,word,htrims,hmem,hcase⟩
    rw [forall₂_sameLetter_iff,lower word hmem] at hcase
    rw [wordOf,htrims.trim_eq,hcase,String.ofList_toList]
    exact hmem
  · intro hmem
    refine ⟨_,_,Blank.trims_trim raw.toList,hmem,?_⟩
    rw [forall₂_sameLetter_iff,lower _ hmem,wordOf,String.toList_ofList]

theorem trueLike_iff {raw : String} : TrueLike raw ↔ wordOf raw ∈ trueWords :=
  spells_iff (by decide)

theorem falseLike_iff {raw : String} : FalseLike raw ↔ wordOf raw ∈ falseWords :=
  spells_iff (by decide)

theorem falseWords_apart : ∀ word ∈ falseWords, word ∉ trueWords := by decide

theorem read?_eq (raw : String) : read? raw =
    if wordOf raw ∈ trueWords then some true
    else if wordOf raw ∈ falseWords then some false else none := rfl

theorem read?_eq_true_iff {raw : String} : read? raw = some true ↔ TrueLike raw := by
  rw [trueLike_iff,read?_eq]
  split
  · rename_i htrue
    exact ⟨fun _ => htrue,fun _ => rfl⟩
  · rename_i htrue
    refine ⟨?_,fun h => absurd h htrue⟩
    split <;> exact nofun

theorem read?_eq_false_iff {raw : String} : read? raw = some false ↔ FalseLike raw := by
  rw [falseLike_iff,read?_eq]
  split
  · rename_i htrue
    exact ⟨nofun,fun hfalse => absurd htrue (falseWords_apart _ hfalse)⟩
  · split
    · rename_i hfalse
      exact ⟨fun _ => hfalse,fun _ => rfl⟩
    · rename_i hfalse
      exact ⟨nofun,fun h => absurd h hfalse⟩

theorem read?_eq_none_iff {raw : String} :
    read? raw = none ↔ ¬ TrueLike raw ∧ ¬ FalseLike raw := by
  rw [← read?_eq_true_iff,← read?_eq_false_iff]
  cases h : read? raw with
  | none => simp
  | some b => cases b <;> simp

theorem read?_congr {raw raw' : String} (h : wordOf raw' = wordOf raw) :
    read? raw' = read? raw := by
  rw [read?_eq,read?_eq,h]

theorem Respelled.wordOf_eq {raw raw' : String} (h : Respelled raw raw') :
    wordOf raw' = wordOf raw := by
  obtain ⟨before,cs,after,hraw',hbefore,hafter,hcase⟩ := h
  rw [wordOf,hraw',Blank.trim_padded hbefore hafter,← Blank.trim_map_toLower,
    ← forall₂_sameLetter_iff.mp hcase,Blank.trim_map_toLower,wordOf]

theorem words_alphanum : ∀ word ∈ trueWords ++ falseWords, word ≠ "" ∧
    word.toList.all Char.isAlphanum = true := by decide

theorem Foreign.not_word {raw : String} (h : Foreign raw) :
    wordOf raw ∉ trueWords ++ falseWords := by
  intro hmem
  obtain ⟨hne,hall⟩ := words_alphanum _ hmem
  rw [wordOf,String.toList_ofList,List.all_eq_true] at hall
  have hplain : ∀ c ∈ Blank.trim raw.toList, c.isAlphanum = true := by
    intro c hc
    rw [← isAlphanum_toLower]
    exact hall _ (List.mem_map_of_mem hc)
  cases h with
  | blank only =>
    have htrim : Blank.trim raw.toList = [] :=
      Blank.trim_eq_iff.mpr ⟨⟨raw.toList,[],by simp,only,by simp⟩,by simp,by simp⟩
    rw [wordOf,htrim] at hne
    exact hne rfl
  | @parted left right c split space before after =>
    have hc := hplain c (split ▸ Blank.mem_trim_between c before after)
    rw [isAlphanum_iff] at hc
    unfold Blank.WhiteSpace at space
    omega
  | unlike mem mark strange =>
    exact Bool.false_ne_true (strange.symm.trans (hplain _ (Blank.mem_trim mem mark)))

end Flag

/-! ## Loading the settings -/

namespace Setting

/-- The flag of a variable, which is on where the variable is unset. -/
inductive Means : Option String → Bool → Prop
  | unset : Means none true
  | on {raw : String} (word : Flag.TrueLike raw) : Means (some raw) true
  | off {raw : String} (word : Flag.FalseLike raw) : Means (some raw) false

def Refused (value : Option String) : Prop :=
  ∃ raw, value = some raw ∧ ¬ Flag.TrueLike raw ∧ ¬ Flag.FalseLike raw

variable {s : Setting} {value : Option String}

theorem flag_eq_ok_iff {b : Bool} : s.flag value = .ok b ↔ Means value b := by
  constructor
  · intro h
    cases value with
    | none =>
      obtain rfl := Except.ok.inj h
      exact .unset
    | some raw =>
      simp only [flag] at h
      split at h
      · rename_i b' hread
        obtain rfl := Except.ok.inj h
        cases b' with
        | true => exact .on (Flag.read?_eq_true_iff.mp hread)
        | false => exact .off (Flag.read?_eq_false_iff.mp hread)
      · cases h
  · intro h
    cases h with
    | unset => rfl
    | on word => simp only [flag,Flag.read?_eq_true_iff.mpr word]
    | off word => simp only [flag,Flag.read?_eq_false_iff.mpr word]

theorem flag_eq_error_iff {f : SettingFault} :
    s.flag value = .error f ↔ Refused value ∧ f = ⟨s⟩ := by
  constructor
  · intro h
    cases value with
    | none => cases h
    | some raw =>
      simp only [flag] at h
      split at h
      · cases h
      · rename_i hread
        exact ⟨⟨raw,rfl,Flag.read?_eq_none_iff.mp hread⟩,(Except.error.inj h).symm⟩
  · rintro ⟨⟨raw,rfl,hnot⟩,rfl⟩
    simp only [flag,Flag.read?_eq_none_iff.mpr hnot]

theorem flag_congr {value' : Option String} (h : Option.Rel Flag.Respelled value value') :
    s.flag value' = s.flag value := by
  cases h with
  | none => rfl
  | some h => simp only [flag,Flag.read?_congr h.wordOf_eq]

theorem refused_of_foreign {raw : String} (h : Flag.Foreign raw) : Refused (some raw) := by
  have hword := h.not_word
  rw [List.mem_append,not_or,← Flag.trueLike_iff,← Flag.falseLike_iff] at hword
  exact ⟨raw,rfl,hword⟩

end Setting

namespace Settings
open Setting

/-- What loading from a table comes to, with the text of a fault, and the variables that are
asked for, in order. -/
inductive Loads (lookup : String → Option String) : Except String Settings → List String → Prop
  | firstRefused (first : Refused (lookup "MOCK_COMPUTE_LOG_EVENT")) :
      Loads lookup (.error "MOCK_COMPUTE_LOG_EVENT must be a boolean (true/false)")
        ["MOCK_COMPUTE_LOG_EVENT"]
  | secondRefused {logEvent : Bool} (first : Means (lookup "MOCK_COMPUTE_LOG_EVENT") logEvent)
      (second : Refused (lookup "MOCK_COMPUTE_ENFORCE_DEADLINE")) :
      Loads lookup (.error "MOCK_COMPUTE_ENFORCE_DEADLINE must be a boolean (true/false)")
        ["MOCK_COMPUTE_LOG_EVENT","MOCK_COMPUTE_ENFORCE_DEADLINE"]
  | loaded {logEvent enforceDeadline : Bool}
      (first : Means (lookup "MOCK_COMPUTE_LOG_EVENT") logEvent)
      (second : Means (lookup "MOCK_COMPUTE_ENFORCE_DEADLINE") enforceDeadline) :
      Loads lookup (.ok ⟨logEvent,enforceDeadline⟩)
        ["MOCK_COMPUTE_LOG_EVENT","MOCK_COMPUTE_ENFORCE_DEADLINE"]

variable (lookup : String → Option String)

theorem traced_of_error {f : SettingFault}
    (first : Setting.logEvent.flag (lookup Setting.logEvent.variable) = .error f) :
    traced lookup = (.error f,[Setting.logEvent.variable]) := by
  simp only [traced,load,bind_pure_comp,bind_map_left,first,StateT.run_map,StateT.run_modify,
    List.nil_append,map_pure]
  rfl

theorem traced_of_ok {b : Bool}
    (first : Setting.logEvent.flag (lookup Setting.logEvent.variable) = .ok b) :
    traced lookup =
      ((Setting.enforceDeadline.flag (lookup Setting.enforceDeadline.variable)).map (⟨b,·⟩),
        [Setting.logEvent.variable,Setting.enforceDeadline.variable]) := by
  simp only [traced,load,bind_pure_comp,bind_map_left,first,StateT.run_bind,StateT.run_modify,
    List.nil_append]
  cases Setting.enforceDeadline.flag (lookup Setting.enforceDeadline.variable) <;> rfl

theorem ofLookup_eq_traced : ofLookup lookup = (traced lookup).1 := by
  cases hfirst : Setting.logEvent.flag (lookup Setting.logEvent.variable) with
  | error f =>
    rw [traced_of_error lookup hfirst]
    simp only [ofLookup,load,pure_bind,hfirst]
    rfl
  | ok b =>
    rw [traced_of_ok lookup hfirst]
    simp only [ofLookup,load,pure_bind,hfirst]
    cases Setting.enforceDeadline.flag (lookup Setting.enforceDeadline.variable) <;> rfl

theorem traced_congr {lookup' : String → Option String}
    (same : ∀ s : Setting, s.flag (lookup' s.variable) = s.flag (lookup s.variable)) :
    traced lookup' = traced lookup := by
  cases hfirst : Setting.logEvent.flag (lookup Setting.logEvent.variable) with
  | error f =>
    rw [traced_of_error lookup hfirst,traced_of_error lookup' ((same .logEvent).trans hfirst)]
  | ok b =>
    rw [traced_of_ok lookup hfirst,traced_of_ok lookup' ((same .logEvent).trans hfirst),
      same .enforceDeadline]

theorem traced_loads :
    Loads lookup ((traced lookup).1.mapError SettingFault.message) (traced lookup).2 := by
  cases hfirst : Setting.logEvent.flag (lookup Setting.logEvent.variable) with
  | error f =>
    rw [traced_of_error lookup hfirst]
    obtain ⟨hrefused,rfl⟩ := flag_eq_error_iff.mp hfirst
    exact .firstRefused hrefused
  | ok logEvent =>
    rw [traced_of_ok lookup hfirst]
    cases hsecond : Setting.enforceDeadline.flag (lookup Setting.enforceDeadline.variable) with
    | error f =>
      obtain ⟨hrefused,rfl⟩ := flag_eq_error_iff.mp hsecond
      exact .secondRefused (flag_eq_ok_iff.mp hfirst) hrefused
    | ok enforceDeadline =>
      exact .loaded (flag_eq_ok_iff.mp hfirst) (flag_eq_ok_iff.mp hsecond)

variable {lookup}

theorem Loads.traced_eq {outcome : Except String Settings} {asked : List String}
    (h : Loads lookup outcome asked) :
    (traced lookup).1.mapError SettingFault.message = outcome ∧ (traced lookup).2 = asked := by
  cases h with
  | firstRefused first =>
    rw [traced_of_error lookup (flag_eq_error_iff.mpr ⟨first,rfl⟩)]
    exact ⟨rfl,rfl⟩
  | secondRefused first second =>
    have hsecond : Setting.enforceDeadline.flag (lookup Setting.enforceDeadline.variable) =
        .error ⟨.enforceDeadline⟩ := flag_eq_error_iff.mpr ⟨second,rfl⟩
    rw [traced_of_ok lookup (flag_eq_ok_iff.mpr first),hsecond]
    exact ⟨rfl,rfl⟩
  | loaded first second =>
    have hsecond : Setting.enforceDeadline.flag (lookup Setting.enforceDeadline.variable) =
        .ok _ := flag_eq_ok_iff.mpr second
    rw [traced_of_ok lookup (flag_eq_ok_iff.mpr first),hsecond]
    exact ⟨rfl,rfl⟩

theorem refused_of_refused {s : Setting} (h : Refused (lookup s.variable)) :
    ∃ f, ofLookup lookup = .error f := by
  rw [ofLookup_eq_traced]
  cases hfirst : Setting.logEvent.flag (lookup Setting.logEvent.variable) with
  | error f => exact ⟨f,by rw [traced_of_error lookup hfirst]⟩
  | ok b =>
    cases s with
    | logEvent => cases hfirst.symm.trans (flag_eq_error_iff.mpr ⟨h,rfl⟩)
    | enforceDeadline =>
      rw [traced_of_ok lookup hfirst,flag_eq_error_iff.mpr ⟨h,rfl⟩]
      exact ⟨_,rfl⟩

end Settings

open Settings

/-- Loading asks for the two variables in order and stops at the first that is set to no flag,
with an error that names it; otherwise it has both flags, each on where its variable is unset.
No other variable matters, nor do white space around a value and the case of its ASCII letters.
A value with nothing but white space, with white space inside it, or with a character that is
neither white space nor an ASCII letter or digit is always refused. -/
theorem flags_are_read_exactly (lookup : String → Option String) :
    (∀ outcome asked, (traced lookup).1.mapError SettingFault.message = outcome ∧
      (traced lookup).2 = asked ↔ Loads lookup outcome asked) ∧
    ofLookup lookup = (traced lookup).1 ∧
    (∀ lookup', (∀ s : Setting, lookup' s.variable = lookup s.variable) →
      traced lookup' = traced lookup) ∧
    (∀ lookup', (∀ s : Setting, Option.Rel Flag.Respelled (lookup s.variable)
      (lookup' s.variable)) → traced lookup' = traced lookup) ∧
    (∀ (s : Setting) raw, lookup s.variable = some raw → Flag.Foreign raw →
      ∃ f, ofLookup lookup = .error f) := by
  refine ⟨?_,ofLookup_eq_traced lookup,?_,?_,?_⟩
  · intro outcome asked
    refine ⟨?_,Loads.traced_eq⟩
    rintro ⟨rfl,rfl⟩
    exact traced_loads lookup
  · intro lookup' same
    exact traced_congr lookup fun s => congrArg s.flag (same s)
  · intro lookup' alike
    exact traced_congr lookup fun s => Setting.flag_congr (alike s)
  · intro s raw hraw foreign
    have hrefused : Setting.Refused (lookup s.variable) := hraw ▸ Setting.refused_of_foreign foreign
    exact refused_of_refused hrefused

/-- A padded and capitalised word is read as the word; a long s or a zero-width space makes the
value no flag. -/
theorem long_s_is_no_letter :
    let table (first second : Option String) : String → Option String := fun name =>
      if name = "MOCK_COMPUTE_LOG_EVENT" then first
      else if name = "MOCK_COMPUTE_ENFORCE_DEADLINE" then second else some name
    let plain := table (some "off") none
    let padded := table (some "\u3000oFF\n") none
    Flag.Respelled "off" "\u3000oFF\n" ∧ traced padded = traced plain ∧
    Flag.Foreign "fal\u017fe" ∧ Flag.Foreign "\u200byes" ∧
    (∃ f, ofLookup (table (some "fal\u017fe") none) = .error f) ∧
    ∃ f, ofLookup (table none (some "\u200byes")) = .error f := by
  intro table plain padded
  have hspelled : Flag.Respelled "off" "\u3000oFF\n" := by
    refine ⟨['\u3000'],['o','F','F'],['\n'],rfl,List.forall_mem_singleton.mpr (by decide),
      List.forall_mem_singleton.mpr (by decide),?_⟩
    exact forall₂_sameLetter_iff.mpr (by decide)
  have hlong : Flag.Foreign "fal\u017fe" :=
    .unlike (c := '\u017f') (by decide) (by decide) (by decide)
  have hwidth : Flag.Foreign "\u200byes" :=
    .unlike (c := '\u200b') (by decide) (by decide) (by decide)
  refine ⟨hspelled,?_,hlong,hwidth,?_,?_⟩
  · refine (flags_are_read_exactly plain).2.2.2.1 padded fun s => ?_
    cases s with
    | logEvent => exact .some hspelled
    | enforceDeadline => exact .none
  · exact (flags_are_read_exactly _).2.2.2.2 .logEvent _ rfl hlong
  · exact (flags_are_read_exactly _).2.2.2.2 .enforceDeadline _ rfl hwidth

end GridWorker
