import GridWorker.Json.Text
import GridWorker.Proofs.MemberOrder
import GridWorker.Proofs.TokenText

/-! # Reading what is written

A text is read as the value that it was written from, with the members of every object put in
order; a value whose objects are in order is read as itself. The numbers must be read as
themselves, as whole numbers are, and no more arrays and objects may stand inside one another
than the reader holds open.
-/
namespace GridWorker.Json

mutual
/-- The value with the members of every object in key order, the last of several with one key. -/
def canonical : Json → Json
  | .array items => .array (canonicalItems items)
  | .object members => .record (canonicalMembers members)
  | v => v
def canonicalItems : List Json → List Json
  | [] => []
  | v :: rest => canonical v :: canonicalItems rest
def canonicalMembers : List (String × Json) → List (String × Json)
  | [] => []
  | (k,v) :: rest => (k,canonical v) :: canonicalMembers rest
end

mutual
/-- A value whose objects are in order is canonical. -/
theorem canonical_of_sorted : ∀ {v : Json}, v.Sorted → v.canonical = v
  | .null, _ => rfl
  | .bool _, _ => rfl
  | .number _, _ => rfl
  | .string _, _ => rfl
  | .array _, h => congrArg Json.array (canonicalItems_of_sorted h)
  | .object _, h => by
    have hmembers := canonicalMembers_of_sorted h.2
    have horder : Members.Ascending _ := h.1
    rw [canonical,hmembers,record,horder.sorted_eq]
theorem canonicalItems_of_sorted : ∀ {items : List Json}, SortedItems items →
    canonicalItems items = items
  | [], _ => rfl
  | _ :: _, h => congrArg₂ List.cons (canonical_of_sorted h.1) (canonicalItems_of_sorted h.2)
theorem canonicalMembers_of_sorted : ∀ {ms : List (String × Json)}, SortedMembers ms →
    canonicalMembers ms = ms
  | [], _ => rfl
  | (k,_) :: _, h => congrArg₂ (fun v rest => (k,v) :: rest) (canonical_of_sorted h.1)
      (canonicalMembers_of_sorted h.2)
end

mutual
/-- No two words stand side by side in the tokens of a value. -/
theorem separated_tokens : ∀ v : Json, Token.Separated v.tokens
  | .null => List.isChain_singleton _
  | .bool _ => List.isChain_singleton _
  | .number _ => List.isChain_singleton _
  | .string _ => List.isChain_singleton _
  | .array items => ((separated_tokensOfItems items).append rfl List.isChain_nil).cons rfl
  | .object members => ((separated_tokensOfMembers members).append rfl List.isChain_nil).cons rfl
theorem separated_tokensOfItems : ∀ items : List Json, Token.Separated (tokensOfItems items)
  | [] => List.isChain_nil
  | [v] => separated_tokens v
  | v :: w :: rest => (separated_tokens v).append rfl (separated_tokensOfItems (w :: rest))
theorem separated_tokensOfMembers :
    ∀ ms : List (String × Json), Token.Separated (tokensOfMembers ms)
  | [] => List.isChain_nil
  | [(_,v)] => ((separated_tokens v).cons rfl).cons rfl
  | (_,v) :: m :: rest =>
    (((separated_tokens v).append rfl (separated_tokensOfMembers (m :: rest))).cons rfl).cons rfl
end

mutual
/-- Where there is no floating-point number, every number is read as itself. -/
theorem rereads_tokens : ∀ {v : Json}, v.RealFree → ∀ t ∈ v.tokens, t.Rereads
  | .null, _ => by simp [tokens,Token.Rereads]
  | .bool _, _ => by simp [tokens,Token.Rereads]
  | .number n, free => by
    cases n with
    | whole w =>
      intro t h
      rw [List.mem_singleton.mp h]
      exact Number.read?_whole w
    | real x => exact free.elim
  | .string _, _ => by simp [tokens,Token.Rereads]
  | .array items, free => by
    intro t h
    simp only [tokens,List.cons_append,List.mem_cons,List.mem_append,List.not_mem_nil,or_false] at h
    rcases h with rfl | h | rfl
    · trivial
    · exact rereads_tokensOfItems free t h
    · trivial
  | .object members, free => by
    intro t h
    simp only [tokens,List.cons_append,List.mem_cons,List.mem_append,List.not_mem_nil,or_false] at h
    rcases h with rfl | h | rfl
    · trivial
    · exact rereads_tokensOfMembers free t h
    · trivial
theorem rereads_tokensOfItems : ∀ {items : List Json}, RealFreeItems items →
    ∀ t ∈ tokensOfItems items, t.Rereads
  | [], _, _, h => nomatch h
  | [_], free, t, h => rereads_tokens free.1 t h
  | _ :: _ :: _, free, t, h => by
    rcases List.mem_append.mp h with h | h
    · exact rereads_tokens free.1 t h
    · rcases List.mem_cons.mp h with rfl | h
      · trivial
      · exact rereads_tokensOfItems free.2 t h
theorem rereads_tokensOfMembers : ∀ {ms : List (String × Json)}, RealFreeMembers ms →
    ∀ t ∈ tokensOfMembers ms, t.Rereads
  | [], _, _, h => nomatch h
  | [(_,_)], free, t, h => by
    simp only [tokensOfMembers,List.mem_cons] at h
    rcases h with rfl | rfl | h
    · trivial
    · trivial
    · exact rereads_tokens free.1 t h
  | (_,_) :: _ :: _, free, t, h => by
    simp only [tokensOfMembers,List.cons_append,List.mem_cons,List.mem_append] at h
    rcases h with rfl | rfl | h | rfl | h
    · trivial
    · trivial
    · exact rereads_tokens free.1 t h
    · trivial
    · exact rereads_tokensOfMembers free.2 t h
end

namespace Reader

theorem tokens_head (v : Json) : ∃ t ts, v.tokens = t :: ts ∧ t ≠ .endArray := by
  cases v <;> exact ⟨_,_,rfl,nofun⟩

theorem tokensOfItems_head : ∀ {items : List Json}, items ≠ [] →
    ∃ t ts, tokensOfItems items = t :: ts ∧ t ≠ .endArray
  | [], ne => absurd rfl ne
  | [v], _ => tokens_head v
  | v :: w :: rest, _ => by
    obtain ⟨t,ts,hv,ht⟩ := tokens_head v
    exact ⟨t,ts ++ .valueSeparator :: tokensOfItems (w :: rest),by simp [tokensOfItems,hv],ht⟩

theorem tokensOfMembers_head : ∀ {ms : List (String × Json)}, ms ≠ [] →
    ∃ k ts, tokensOfMembers ms = .string k :: ts
  | [], ne => absurd rfl ne
  | [_], _ => ⟨_,_,rfl⟩
  | _ :: _ :: _, _ => ⟨_,_,rfl⟩

/-- The first item of an array is read as any other. -/
theorem foldlM_firstItem (frames : List Frame) {t : Token} (ht : t ≠ .endArray) (ts : List Token) :
    (t :: ts).foldlM step ⟨frames,.firstItem⟩ = (t :: ts).foldlM step ⟨frames,.value⟩ := by
  have hstep : step ⟨frames,.firstItem⟩ t = step ⟨frames,.value⟩ t := if_neg ht
  rw [List.foldlM_cons,List.foldlM_cons,hstep]

mutual
/-- The tokens of a value are read as that value in canonical form, whatever is still open. -/
theorem foldlM_tokens : ∀ (v : Json) (frames : List Frame), frames.length + v.depth ≤ maxDepth →
    v.tokens.foldlM step ⟨frames,.value⟩ = some ⟨frames,.after v.canonical⟩
  | .null, _, _ => rfl
  | .bool _, _, _ => rfl
  | .number _, _, _ => rfl
  | .string _, _, _ => rfl
  | .array items, frames, fits => by
    simp only [depth] at fits
    have hroom : frames.length < maxDepth := by omega
    have hopen : step ⟨frames,.value⟩ .beginArray = some ⟨.array [] :: frames,.firstItem⟩ :=
      if_pos hroom
    rw [tokens,List.cons_append,List.foldlM_cons,hopen]
    change (tokensOfItems items ++ [Token.endArray]).foldlM step
      ⟨.array [] :: frames,.firstItem⟩ = _
    -- an empty array ends at once; in any other the first token is the one of an item
    by_cases hitems : items = []
    · subst hitems
      rfl
    · obtain ⟨t,ts,hts,ht⟩ := tokensOfItems_head hitems
      have hread := foldlM_items items frames [] hitems (by omega)
      rw [hts] at hread ⊢
      exact (foldlM_firstItem _ ht _).trans hread
  | .object members, frames, fits => by
    simp only [depth] at fits
    have hroom : frames.length < maxDepth := by omega
    have hopen : step ⟨frames,.value⟩ .beginObject = some ⟨frames,.firstName⟩ := if_pos hroom
    rw [tokens,List.cons_append,List.foldlM_cons,hopen]
    change (tokensOfMembers members ++ [Token.endObject]).foldlM step ⟨frames,.firstName⟩ = _
    by_cases hmembers : members = []
    · subst hmembers
      rfl
    · obtain ⟨k,ts,hts⟩ := tokensOfMembers_head hmembers
      have hread := foldlM_members members frames [] hmembers (by omega)
      rw [hts] at hread ⊢
      exact hread
theorem foldlM_items : ∀ (items : List Json) (frames : List Frame) (done : List Json), items ≠ [] →
    frames.length + 1 + depthItems items ≤ maxDepth →
    (tokensOfItems items ++ [Token.endArray]).foldlM step ⟨.array done :: frames,.value⟩ =
      some ⟨frames,.after (.array (done.reverse ++ canonicalItems items))⟩
  | [], _, _, ne, _ => absurd rfl ne
  | [v], frames, done, _, fits => by
    simp only [depthItems] at fits
    have hv := foldlM_tokens v (.array done :: frames) (by simp only [List.length_cons]; omega)
    rw [tokensOfItems,List.foldlM_append,hv]
    simp [step,close?,canonicalItems]
  | v :: w :: rest, frames, done, _, fits => by
    simp only [depthItems] at fits
    have hv := foldlM_tokens v (.array done :: frames) (by simp only [List.length_cons]; omega)
    have hrest := foldlM_items (w :: rest) frames (v.canonical :: done) (List.cons_ne_nil _ _)
      (by simp only [depthItems]; omega)
    have hdone : (v.canonical :: done).reverse ++ canonicalItems (w :: rest) =
        done.reverse ++ canonicalItems (v :: w :: rest) := by simp [canonicalItems]
    rw [tokensOfItems,List.append_assoc,List.foldlM_append,hv,← hdone]
    exact hrest
theorem foldlM_members : ∀ (ms : List (String × Json)) (frames : List Frame) (done : Members),
    ms ≠ [] → frames.length + 1 + depthMembers ms ≤ maxDepth →
    (tokensOfMembers ms ++ [Token.endObject]).foldlM step ⟨frames,.name done⟩ =
      some ⟨frames,.after (.object
        ((canonicalMembers ms).foldl (fun (done : Members) m => done.insert m.1 m.2) done))⟩
  | [], _, _, ne, _ => absurd rfl ne
  | [(k,v)], frames, done, _, fits => by
    simp only [depthMembers] at fits
    have hv := foldlM_tokens v (.object done k :: frames) (by simp only [List.length_cons]; omega)
    change (v.tokens ++ [Token.endObject]).foldlM step ⟨.object done k :: frames,.value⟩ = _
    rw [List.foldlM_append,hv]
    rfl
  | (k,v) :: m :: rest, frames, done, _, fits => by
    simp only [depthMembers] at fits
    have hv := foldlM_tokens v (.object done k :: frames) (by simp only [List.length_cons]; omega)
    have hrest := foldlM_members (m :: rest) frames (done.insert k v.canonical)
      (List.cons_ne_nil _ _) (by simp only [depthMembers]; omega)
    change ((v.tokens ++ .valueSeparator :: tokensOfMembers (m :: rest)) ++
      [Token.endObject]).foldlM step ⟨.object done k :: frames,.value⟩ = _
    rw [List.append_assoc,List.foldlM_append,hv]
    exact hrest
end

end Reader

/-- The tokens of a value are read as that value in canonical form. -/
theorem ofTokens?_tokens {v : Json} (fits : v.depth ≤ maxDepth) :
    ofTokens? v.tokens = some v.canonical := by
  have hread := Reader.foldlM_tokens v [] (by simpa using fits)
  rw [ofTokens?,Reader.start,hread]
  rfl

/-- A text is read as the value that it was written from, in canonical form, whatever blanks
follow. -/
theorem read?_text_append {v : Json} (free : v.RealFree) (fits : v.depth ≤ maxDepth)
    (cs : List Char) (blank : ∀ c ∈ cs, Token.isBlank c = true) :
    read? (v.text ++ String.ofList cs) = some v.canonical := by
  have hscan := Token.scan?_text v.separated_tokens (rereads_tokens free) blank
  rw [read?,text,String.toList_append,String.toList_ofList,String.toList_ofList,hscan,
    Option.bind_some,ofTokens?_tokens fits]

theorem read?_text {v : Json} (free : v.RealFree) (fits : v.depth ≤ maxDepth) :
    read? v.text = some v.canonical := by
  have hread := read?_text_append free fits [] nofun
  rwa [show String.ofList [] = "" from rfl,String.append_empty] at hread

end GridWorker.Json
