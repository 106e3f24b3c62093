import GridWorker.Proofs.JsonText
import GridWorker.Proofs.ShortestDecimals

/-! # Texts determine values

The text of a token ends where the next token begins: a mark and a quoted text show their own
end, and a word goes on up to something that is no word. Tokens that stand for one value are in
turn no beginning of the tokens of another. So different values are never written alike,
whatever numbers they hold and however deep they are.
-/
namespace GridWorker

namespace Quoted
variable {c d : Char} {cs ds x y : List Char}

/-- No form of a character is the beginning of a form of another. -/
theorem Form.cancel (hc : Form c cs) (hd : Form d ds) (h : cs ++ x = ds ++ y) :
    c = d ∧ x = y := by
  cases hc with
  | @letter l hl =>
    cases hd with
    | @letter m hm =>
      obtain ⟨rfl,rfl⟩ : l = m ∧ x = y := by simpa using h
      exact ⟨Option.some.inj (hl.symm.trans hm),rfl⟩
    | numbered hm =>
      obtain ⟨rfl,-⟩ : l = 'u' ∧ _ := by simpa using h
      cases hl
    | plain _ hbackslash =>
      obtain ⟨rfl,-⟩ : '\\' = d ∧ _ := by simpa using h
      exact absurd rfl hbackslash
  | numbered hl =>
    cases hd with
    | @letter m hm =>
      obtain ⟨rfl,-⟩ : 'u' = m ∧ _ := by simpa using h
      cases hm
    | numbered hm =>
      obtain ⟨hhigh,hlow,rfl⟩ : hexDigit (c.toNat / 16) = hexDigit (d.toNat / 16) ∧
          hexDigit (c.toNat % 16) = hexDigit (d.toNat % 16) ∧ x = y := by simpa using h
      have hvalue : ∀ {m n}, m < 16 → n < 16 → hexDigit m = hexDigit n → m = n := by
        intro m n hm hn heq
        have hread := hexValue?_hexDigit m hm
        rw [heq,hexValue?_hexDigit n hn] at hread
        exact (Option.some.inj hread).symm
      have hfront := hvalue (by omega) (by omega) hhigh
      have hback := hvalue (by omega) (by omega) hlow
      exact ⟨Char.toNat_inj.mp (by omega),rfl⟩
    | plain _ hbackslash =>
      obtain ⟨rfl,-⟩ : '\\' = d ∧ _ := by simpa using h
      exact absurd rfl hbackslash
  | plain _ hbackslash =>
    cases hd with
    | letter =>
      obtain ⟨rfl,-⟩ : c = '\\' ∧ _ := by simpa using h
      exact absurd rfl hbackslash
    | numbered =>
      obtain ⟨rfl,-⟩ : c = '\\' ∧ _ := by simpa using h
      exact absurd rfl hbackslash
    | plain => simpa using h

theorem Form.head_ne_quote (hc : Form c cs) (x : List Char) : ∀ y, cs ++ x ≠ '"' :: y := by
  intro y h
  cases hc with
  | letter =>
    obtain ⟨hquote,-⟩ := List.cons.inj h
    cases hquote
  | numbered =>
    obtain ⟨hquote,-⟩ := List.cons.inj h
    cases hquote
  | plain quote => exact quote (List.cons.inj h).1

/-- A quoted text ends at the first quote that stands for itself. -/
theorem escape_cancel (h : escape cs ++ '"' :: x = escape ds ++ '"' :: y) : cs = ds ∧ x = y := by
  induction cs generalizing ds with
  | nil =>
    cases ds with
    | nil => exact ⟨rfl,(List.cons.inj h).2⟩
    | cons d ds =>
      rw [escape,escape,List.flatMap_cons,List.append_assoc] at h
      exact absurd h.symm ((escapeChar_form d).head_ne_quote _ _)
  | cons c cs ih =>
    cases ds with
    | nil =>
      rw [escape,escape,List.flatMap_cons,List.append_assoc] at h
      exact absurd h ((escapeChar_form c).head_ne_quote _ _)
    | cons d ds =>
      simp only [escape,List.flatMap_cons,List.append_assoc] at h
      obtain ⟨rfl,hrest⟩ := (escapeChar_form c).cancel (escapeChar_form d) h
      obtain ⟨rfl,rfl⟩ := ih hrest
      exact ⟨rfl,rfl⟩

end Quoted

namespace Token
open Scanner
variable {t u : Token} {x y : List Char}

theorem text_mark (mark : t.isWord = false) :
    (∃ s, t = .string s) ∨ ∃ c, t.text = [c] ∧ ofMark? c = some t := by
  cases t with
  | null => cases mark
  | bool b => cases mark
  | number n => cases mark
  | string s => exact Or.inl ⟨s,rfl⟩
  | _ => exact Or.inr ⟨_,rfl,rfl⟩

theorem text_head (mark : t.isWord = false) : ∃ c cs, t.text = c :: cs ∧ endsWord c = true := by
  rcases text_mark mark with ⟨s,rfl⟩ | ⟨c,hc,hmark⟩
  · exact ⟨_,_,rfl,rfl⟩
  · exact ⟨c,[],hc,by simp [endsWord,hmark]⟩

/-- Words that are written alike are equal. -/
theorem text_word_injective (ht : t.isWord = true) (hu : u.isWord = true)
    (h : t.text = u.text) : t = u := by
  have hnumber : ∀ (n : Number) (b : Token) (c : Char) (cs : List Char),
      b.text = c :: cs → ¬ Number.Plain c → n.text ≠ b.text := by
    intro n b c cs hb hc heq
    refine hc (n.text_plain c ?_)
    rw [heq,hb]
    exact List.mem_cons_self
  have hnull := fun n => hnumber n .null 'n' _ rfl (by simp [Number.Plain])
  have htrue := fun n => hnumber n (.bool true) 't' _ rfl (by simp [Number.Plain])
  have hfalse := fun n => hnumber n (.bool false) 'f' _ rfl (by simp [Number.Plain])
  cases t with
  | null =>
    cases u with
    | null => rfl
    | bool b => cases b <;> cases h
    | number n => exact absurd h.symm (hnull n)
    | _ => cases hu
  | bool b =>
    cases u with
    | null => cases b <;> cases h
    | bool b' => cases b <;> cases b' <;> first | rfl | cases h
    | number n =>
      cases b with
      | true => exact absurd h.symm (htrue n)
      | false => exact absurd h.symm (hfalse n)
    | _ => cases hu
  | number m =>
    cases u with
    | null => exact absurd h (hnull m)
    | bool b =>
      cases b with
      | true => exact absurd h (htrue m)
      | false => exact absurd h (hfalse m)
    | number n => exact congrArg Token.number (Number.text_injective h)
    | _ => cases hu
  | _ => cases ht

theorem text_mark_cancel (ht : t.isWord = false) (hu : u.isWord = false)
    (h : t.text ++ x = u.text ++ y) : t = u ∧ x = y := by
  rcases text_mark ht with ⟨a,rfl⟩ | ⟨c,hc,hmark⟩
  · rcases text_mark hu with ⟨b,rfl⟩ | ⟨d,hd,hmark⟩
    · simp only [text,List.cons_append,List.append_assoc,List.nil_append] at h
      obtain ⟨hab,hxy⟩ := Quoted.escape_cancel (List.cons.inj h).2
      exact ⟨congrArg Token.string (String.toList_injective hab),hxy⟩
    · rw [hd] at h
      obtain ⟨rfl,-⟩ := List.cons.inj h
      cases hmark
  · rcases text_mark hu with ⟨b,rfl⟩ | ⟨d,hd,hmark'⟩
    · rw [hc] at h
      obtain ⟨rfl,-⟩ := List.cons.inj h
      cases hmark
    · rw [hc,hd] at h
      obtain ⟨rfl,hxy⟩ := List.cons.inj h
      exact ⟨Option.some.inj (hmark.symm.trans hmark'),hxy⟩

/-- A word is all that comes before something that is no word. -/
theorem takeWhile_word (ht : t.isWord = true) (hx : ∀ c ∈ x.head?, endsWord c = true) :
    (t.text ++ x).takeWhile (fun c => !endsWord c) = t.text := by
  have hword : ∀ c ∈ t.text, (!endsWord c) = true := by
    intro c hc
    rw [(text_word ht).2 c hc]
    rfl
  rw [List.takeWhile_append_of_pos hword]
  cases x with
  | nil => simp
  | cons c x => simp [hx c rfl]

theorem Separated.ends {ts : List Token} (h : Separated (t :: ts)) (ht : t.isWord = true) :
    ∀ c ∈ (ts.flatMap text).head?, endsWord c = true := by
  cases ts with
  | nil => nofun
  | cons u us =>
    have hu : u.isWord = false := by
      have hnext := (List.isChain_cons.mp h).1 u rfl
      simpa [ht] using hnext
    obtain ⟨c,cs,hcs,hc⟩ := text_head hu
    rw [List.flatMap_cons,hcs]
    intro d hd
    rwa [← Option.some.inj hd]

theorem text_ne_nil (t : Token) : t.text ≠ [] := by
  cases ht : t.isWord with
  | true => exact (text_word ht).1
  | false =>
    obtain ⟨c,cs,hcs,-⟩ := text_head ht
    rw [hcs]
    exact List.cons_ne_nil c cs

theorem word_ne_mark (ht : t.isWord = true) (hu : u.isWord = false) :
    t.text ++ x ≠ u.text ++ y := by
  intro h
  obtain ⟨c,cs,hcs,hc⟩ := text_head hu
  obtain ⟨hne,hword⟩ := text_word ht
  cases htext : t.text with
  | nil => exact hne htext
  | cons d ds =>
    rw [htext,hcs] at h
    obtain ⟨rfl,-⟩ := List.cons.inj h
    have hd := hword d (htext ▸ List.mem_cons_self)
    exact absurd (hc.symm.trans hd) (by decide)

/-- Tokens of which no two words touch are determined by their text. -/
theorem flatMap_text_injective {ts us : List Token} (hts : Separated ts) (hus : Separated us)
    (h : ts.flatMap text = us.flatMap text) : ts = us := by
  induction ts generalizing us with
  | nil =>
    cases us with
    | nil => rfl
    | cons u us => exact absurd (List.append_eq_nil_iff.mp h.symm).1 u.text_ne_nil
  | cons t ts ih =>
    cases us with
    | nil => exact absurd (List.append_eq_nil_iff.mp h).1 t.text_ne_nil
    | cons u us =>
      rw [List.flatMap_cons,List.flatMap_cons] at h
      -- words are cut at the first character that ends one, which is why none may touch another
      have hfirst : t = u ∧ ts.flatMap text = us.flatMap text := by
        cases ht : t.isWord with
        | true =>
          cases hu : u.isWord with
          | true =>
            have hcut := congrArg (List.takeWhile fun c => !endsWord c) h
            rw [takeWhile_word ht (hts.ends ht),takeWhile_word hu (hus.ends hu)] at hcut
            obtain rfl := text_word_injective ht hu hcut
            exact ⟨rfl,List.append_cancel_left h⟩
          | false => exact absurd h (word_ne_mark ht hu)
        | false =>
          cases hu : u.isWord with
          | true => exact absurd h.symm (word_ne_mark hu ht)
          | false => exact text_mark_cancel ht hu h
      obtain ⟨rfl,hrest⟩ := hfirst
      rw [ih (List.isChain_cons.mp hts).2 (List.isChain_cons.mp hus).2 hrest]

end Token

namespace Json

mutual
/-- The tokens of a value are no beginning of the tokens of another. -/
theorem tokens_cancel : ∀ (v w : Json) {x y : List Token}, v.tokens ++ x = w.tokens ++ y →
    v = w ∧ x = y
  | .null, w, x, y, h => by
    cases w with
    | null => exact ⟨rfl,(List.cons.inj h).2⟩
    | _ => cases (List.cons.inj h).1
  | .bool b, w, x, y, h => by
    cases w with
    | bool b' =>
      obtain ⟨hb,hxy⟩ := List.cons.inj h
      exact ⟨congrArg Json.bool (Token.bool.inj hb),hxy⟩
    | _ => cases (List.cons.inj h).1
  | .number m, w, x, y, h => by
    cases w with
    | number n =>
      obtain ⟨hn,hxy⟩ := List.cons.inj h
      exact ⟨congrArg Json.number (Token.number.inj hn),hxy⟩
    | _ => cases (List.cons.inj h).1
  | .string a, w, x, y, h => by
    cases w with
    | string b =>
      obtain ⟨hb,hxy⟩ := List.cons.inj h
      exact ⟨congrArg Json.string (Token.string.inj hb),hxy⟩
    | _ => cases (List.cons.inj h).1
  | .array items, w, x, y, h => by
    cases w with
    | array items' =>
      simp only [tokens,List.cons_append,List.append_assoc,List.nil_append] at h
      obtain ⟨hitems,hxy⟩ := tokensOfItems_cancel items items' (List.cons.inj h).2
      exact ⟨congrArg Json.array hitems,hxy⟩
    | _ => cases (List.cons.inj h).1
  | .object ms, w, x, y, h => by
    cases w with
    | object ms' =>
      simp only [tokens,List.cons_append,List.append_assoc,List.nil_append] at h
      obtain ⟨hms,hxy⟩ := tokensOfMembers_cancel ms ms' (List.cons.inj h).2
      exact ⟨congrArg Json.object hms,hxy⟩
    | _ => cases (List.cons.inj h).1
theorem tokensOfItems_cancel : ∀ (items items' : List Json) {x y : List Token},
    tokensOfItems items ++ .endArray :: x = tokensOfItems items' ++ .endArray :: y →
      items = items' ∧ x = y
  | [], [], _, _, h => ⟨rfl,(List.cons.inj h).2⟩
  | [], w :: rest, x, y, h => by
    obtain ⟨t,ts,hts,ht⟩ := Reader.tokensOfItems_head (List.cons_ne_nil w rest)
    rw [hts] at h
    exact absurd (List.cons.inj h).1.symm ht
  | v :: rest, [], x, y, h => by
    obtain ⟨t,ts,hts,ht⟩ := Reader.tokensOfItems_head (List.cons_ne_nil v rest)
    rw [hts] at h
    exact absurd (List.cons.inj h).1 ht
  | [v], [w], x, y, h => by
    obtain ⟨rfl,hxy⟩ := tokens_cancel v w h
    exact ⟨rfl,(List.cons.inj hxy).2⟩
  | [v], w :: w' :: rest', x, y, h => by
    simp only [tokensOfItems,List.append_assoc] at h
    cases (List.cons.inj (tokens_cancel v w h).2).1
  | v :: v' :: rest, [w], x, y, h => by
    simp only [tokensOfItems,List.append_assoc] at h
    cases (List.cons.inj (tokens_cancel v w h).2).1
  | v :: v' :: rest, w :: w' :: rest', x, y, h => by
    simp only [tokensOfItems,List.append_assoc] at h
    obtain ⟨rfl,hrest⟩ := tokens_cancel v w h
    obtain ⟨hitems,hxy⟩ := tokensOfItems_cancel (v' :: rest) (w' :: rest') (List.cons.inj hrest).2
    exact ⟨congrArg (v :: ·) hitems,hxy⟩
theorem tokensOfMembers_cancel : ∀ (ms ms' : List (String × Json)) {x y : List Token},
    tokensOfMembers ms ++ .endObject :: x = tokensOfMembers ms' ++ .endObject :: y →
      ms = ms' ∧ x = y
  | [], [], _, _, h => ⟨rfl,(List.cons.inj h).2⟩
  | [], m :: rest, x, y, h => by
    obtain ⟨k,ts,hts⟩ := Reader.tokensOfMembers_head (List.cons_ne_nil m rest)
    rw [hts] at h
    cases (List.cons.inj h).1
  | m :: rest, [], x, y, h => by
    obtain ⟨k,ts,hts⟩ := Reader.tokensOfMembers_head (List.cons_ne_nil m rest)
    rw [hts] at h
    cases (List.cons.inj h).1
  | [(k,v)], [(l,w)], x, y, h => by
    obtain ⟨hkey,h⟩ := List.cons.inj h
    obtain ⟨rfl,hxy⟩ := tokens_cancel v w (List.cons.inj h).2
    exact ⟨congrArg (fun k => [(k,v)]) (Token.string.inj hkey),(List.cons.inj hxy).2⟩
  | [(k,v)], (l,w) :: m' :: rest', x, y, h => by
    simp only [tokensOfMembers,List.cons_append,List.append_assoc] at h
    have hvalue := (List.cons.inj (List.cons.inj h).2).2
    cases (List.cons.inj (tokens_cancel v w hvalue).2).1
  | (k,v) :: m :: rest, [(l,w)], x, y, h => by
    simp only [tokensOfMembers,List.cons_append,List.append_assoc] at h
    have hvalue := (List.cons.inj (List.cons.inj h).2).2
    cases (List.cons.inj (tokens_cancel v w hvalue).2).1
  | (k,v) :: m :: rest, (l,w) :: m' :: rest', x, y, h => by
    simp only [tokensOfMembers,List.cons_append,List.append_assoc] at h
    obtain ⟨hkey,h⟩ := List.cons.inj h
    obtain ⟨rfl,hrest⟩ := tokens_cancel v w (List.cons.inj h).2
    obtain ⟨hms,hxy⟩ := tokensOfMembers_cancel (m :: rest) (m' :: rest') (List.cons.inj hrest).2
    exact ⟨congrArg₂ (fun k ms => (k,v) :: ms) (Token.string.inj hkey) hms,hxy⟩
end

theorem tokens_injective : Function.Injective tokens := by
  intro v w h
  refine (tokens_cancel v w (x := []) (y := []) ?_).1
  rw [h]

/-- Different values are never written alike. -/
theorem text_injective : Function.Injective text := by
  intro v w h
  have hchars := String.ofList_injective h
  exact tokens_injective
    (Token.flatMap_text_injective v.separated_tokens w.separated_tokens hchars)

end Json
end GridWorker
