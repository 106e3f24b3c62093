import Mathlib.Data.List.Chain
import GridWorker.Proofs.NumberText
import GridWorker.Proofs.QuotedText

/-! # Tokens as they are written

Words end where something that is no word begins. The tokens of a text in which no two words
touch are therefore scanned back one by one, if its numbers are read as themselves; whole
numbers are.
-/
namespace GridWorker.Token

/-- Words are the tokens that do not show their own end. -/
def isWord : Token → Bool
  | .null => true
  | .bool _ => true
  | .number _ => true
  | _ => false

def Separated (ts : List Token) : Prop := ts.IsChain fun t u => ¬ (t.isWord ∧ u.isWord)

/-- The token is no number that is read as another one. -/
def Rereads : Token → Prop
  | .number n => Number.read? n.text = some n
  | _ => True

namespace Scanner

theorem endsWord_iff {c : Char} : endsWord c = true ↔
    c ∈ ['"',' ','\t','\n','\r','[',']','{','}',':',','] := by
  have hmark : (ofMark? c).isSome = true ↔ c ∈ ['[',']','{','}',':',','] := by
    unfold ofMark?
    split <;> simp_all
  simp only [endsWord,isBlank,Bool.or_eq_true,hmark,decide_eq_true_eq,List.mem_cons]
  simp only [or_assoc]

theorem endsWord_plain {c : Char} (h : Number.Plain c) : endsWord c = false := by
  rw [← Bool.not_eq_true,endsWord_iff]
  intro hc
  have hends : ∀ d ∈ ['"',' ','\t','\n','\r','[',']','{','}',':',','],
      d.isDigit = false ∧ d ∉ ['-','+','.','e'] := by simp
  rcases h with h | h
  · exact Bool.false_ne_true ((hends c hc).1.symm.trans h)
  · exact (hends c hc).2 h

variable {found : List Token} {c : Char}

theorem fresh_of_word (h : endsWord c = false) : fresh found c = ⟨.word [c],found⟩ := by
  simp only [endsWord,Bool.or_eq_false_iff,decide_eq_false_iff_not] at h
  obtain ⟨⟨hquote,hblank⟩,hmark⟩ := h
  rw [fresh,if_neg hquote,hblank]
  cases hc : ofMark? c with
  | none => rfl
  | some t => simp [hc] at hmark

theorem foldlM_word {read cs : List Char} (h : ∀ c ∈ cs, endsWord c = false) :
    cs.foldlM step ⟨.word read,found⟩ = some ⟨.word (cs.reverse ++ read),found⟩ := by
  induction cs generalizing read with
  | nil => rfl
  | cons c cs ih =>
    have hc := h c List.mem_cons_self
    have hstep : step ⟨.word read,found⟩ c = some ⟨.word (c :: read),found⟩ := by
      simp [step,hc]
    rw [List.foldlM_cons,hstep]
    simpa using ih fun d hd => h d (List.mem_cons_of_mem _ hd)

/-- The scanner has found these tokens, the last of which may be a word that has not ended. -/
inductive Settled : Scanner → List Token → Prop
  | between (found : List Token) : Settled ⟨.between,found⟩ found
  | word {read : List Char} {t : Token} (found : List Token)
      (word : ofWord? read.reverse = some t) : Settled ⟨.word read,found⟩ (t :: found)

variable {s : Scanner}

theorem Settled.finish (h : Settled s found) : s.finish = some found.reverse := by
  cases h with
  | between => rfl
  | word found word => simp [Scanner.finish,endWord?,word]

/-- What ends a word is met as if nothing stood before it. -/
theorem Settled.step (h : Settled s found) (ends : endsWord c = true) :
    s.step c = some (fresh found c) := by
  cases h with
  | between => rfl
  | word found word => simp [Scanner.step,ends,endWord?,word]

end Scanner

open Scanner

theorem text_word {t : Token} (word : t.isWord = true) :
    t.text ≠ [] ∧ ∀ c ∈ t.text, endsWord c = false := by
  cases t with
  | null => exact ⟨List.cons_ne_nil _ _,by simp [text,endsWord,isBlank,ofMark?]⟩
  | bool b => cases b <;> exact ⟨List.cons_ne_nil _ _,by simp [text,endsWord,isBlank,ofMark?]⟩
  | number n => exact ⟨n.text_ne_nil,fun c hc => endsWord_plain (n.text_plain c hc)⟩
  | _ => cases word

theorem ofWord?_text {t : Token} (word : t.isWord = true) (rereads : t.Rereads) :
    ofWord? t.text = some t := by
  cases t with
  | null => rfl
  | bool b => cases b <;> rfl
  | number n =>
    have hread : Number.read? n.text = some n := rereads
    have hliteral : ∀ cs, Number.read? cs = none → n.text ≠ cs := by
      rintro cs hcs rfl
      cases hcs.symm.trans hread
    have hnull := hliteral ['n','u','l','l'] rfl
    have htrue := hliteral ['t','r','u','e'] rfl
    have hfalse := hliteral ['f','a','l','s','e'] rfl
    change ofWord? n.text = some (.number n)
    unfold ofWord?
    split
    · exact absurd ‹_› hnull
    · exact absurd ‹_› htrue
    · exact absurd ‹_› hfalse
    · rw [hread]
      rfl
  | _ => cases word

/-- A word is taken in up to its end, which is still to come. -/
theorem foldlM_text_word {t : Token} (word : t.isWord = true) (rereads : t.Rereads)
    (found : List Token) : ∃ s, t.text.foldlM step ⟨.between,found⟩ = some s ∧
      Settled s (t :: found) := by
  obtain ⟨hne,hword⟩ := text_word word
  cases ht : t.text with
  | nil => exact absurd ht hne
  | cons c cs =>
    -- the first character opens the word, the others are put before what was read of it
    rw [ht] at hword
    have hfirst : step ⟨.between,found⟩ c = some ⟨.word [c],found⟩ :=
      congrArg some (fresh_of_word (hword c List.mem_cons_self))
    refine ⟨⟨.word (cs.reverse ++ [c]),found⟩,?_,?_⟩
    · rw [List.foldlM_cons,hfirst]
      exact foldlM_word fun d hd => hword d (List.mem_cons_of_mem _ hd)
    · apply Settled.word
      rw [← ofWord?_text word rereads,ht]
      simp

/-- What is no word ends the word before it, and itself. -/
theorem foldlM_text {t : Token} (mark : t.isWord = false) {s : Scanner} {found : List Token}
    (settled : Settled s found) : t.text.foldlM step s = some ⟨.between,t :: found⟩ := by
  cases t with
  | null => cases mark
  | bool b => cases mark
  | number n => cases mark
  | string a =>
    have hopen : s.step '"' = some ⟨.quoted [] false,found⟩ := settled.step rfl
    have hclose : step ⟨.quoted ((Quoted.escape a.toList).reverse ++ []) false,found⟩ '"' =
        some ⟨.between,.string a :: found⟩ := by
      simp [step,Quoted.unescape?_escape]
    simp only [text,List.cons_append,List.foldlM_cons,List.foldlM_append,hopen,List.foldlM_nil]
    simp only [Option.bind_eq_bind,Option.bind_some,foldlM_escape,hclose]
    rfl
  | _ => exact (congrArg (· >>= pure) (settled.step rfl))

/-- Tokens are found one after the other, a word needing nothing unfinished before it. -/
theorem foldlM_flatMap_text {ts : List Token} (separated : Separated ts)
    (rereads : ∀ t ∈ ts, t.Rereads) {s : Scanner} {found : List Token} (settled : Settled s found)
    (ready : ∀ t ∈ ts.head?, t.isWord = true → s = ⟨.between,found⟩) :
    ∃ s', (ts.flatMap text).foldlM step s = some s' ∧ Settled s' (ts.reverse ++ found) := by
  induction ts generalizing s found with
  | nil => exact ⟨s,rfl,settled⟩
  | cons t ts ih =>
    obtain ⟨hnext,hrest⟩ := List.isChain_cons.mp separated
    have hread := rereads t List.mem_cons_self
    have hreads : ∀ u ∈ ts, u.Rereads := fun u hu => rereads u (List.mem_cons_of_mem _ hu)
    rw [List.flatMap_cons,List.foldlM_append,List.reverse_cons,List.append_assoc]
    -- after a word the scanner waits for its end, which the next token, no word, brings
    cases hword : t.isWord with
    | true =>
      obtain rfl := ready t rfl hword
      obtain ⟨s',hs',hsettled⟩ := foldlM_text_word hword hread found
      rw [hs']
      refine ih hrest hreads hsettled ?_
      intro u hu hu'
      exact absurd ⟨hword,hu'⟩ (hnext u hu)
    | false =>
      rw [foldlM_text hword settled]
      exact ih hrest hreads (.between (t :: found)) fun _ _ _ => rfl

theorem foldlM_blanks {cs : List Char} (blank : ∀ c ∈ cs, isBlank c = true) {s : Scanner}
    {found : List Token} (settled : Settled s found) :
    ∃ s', cs.foldlM step s = some s' ∧ Settled s' found := by
  induction cs generalizing s with
  | nil => exact ⟨s,rfl,settled⟩
  | cons c cs ih =>
    have hc := blank c List.mem_cons_self
    have hends : endsWord c = true := by simp [endsWord,hc]
    have hfresh : fresh found c = ⟨.between,found⟩ := by
      have hquote : c ≠ '"' := by
        rintro rfl
        cases hc
      simp [fresh,hquote,hc]
    rw [List.foldlM_cons,settled.step hends,hfresh]
    exact ih (fun d hd => blank d (List.mem_cons_of_mem _ hd)) (.between found)

/-- Tokens are scanned back from their text, blanks at its end being skipped. -/
theorem scan?_text {ts : List Token} (separated : Separated ts) (rereads : ∀ t ∈ ts, t.Rereads)
    {cs : List Char} (blank : ∀ c ∈ cs, isBlank c = true) :
    scan? (ts.flatMap text ++ cs) = some ts := by
  obtain ⟨s,hs,hsettled⟩ := foldlM_flatMap_text separated rereads (.between []) fun _ _ _ => rfl
  obtain ⟨s',hs',hsettled'⟩ := foldlM_blanks blank hsettled
  have hrun : (ts.flatMap text ++ cs).foldlM step start = some s' := by
    rw [List.foldlM_append]
    exact (congrArg (· >>= _) hs).trans hs'
  rw [scan?,hrun,Option.bind_some,hsettled'.finish]
  simp

theorem Separated.cons {t : Token} {ts : List Token} (mark : t.isWord = false)
    (h : Separated ts) : Separated (t :: ts) := by
  refine List.isChain_cons.mpr ⟨?_,h⟩
  intro u _ hwords
  exact absurd (mark.symm.trans hwords.1) Bool.false_ne_true

theorem Separated.append {t : Token} {ts us : List Token} (hts : Separated ts)
    (mark : t.isWord = false) (hus : Separated us) : Separated (ts ++ t :: us) := by
  refine List.isChain_append.mpr ⟨hts,hus.cons mark,?_⟩
  rintro u _ v hv hwords
  obtain rfl := Option.some.inj hv
  exact absurd (mark.symm.trans hwords.2) Bool.false_ne_true

end GridWorker.Token
