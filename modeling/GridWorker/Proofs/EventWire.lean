import GridWorker.Proofs.AcceptedEvents
import GridWorker.Proofs.TextCodes

/-! # Events on the wire

A value that stands for an event is the encoding of that event, and the encoding of an event
stands for it, unless the key of the arguments is among the other members. The same holds of
the text that an event is written in, where no floating-point number occurs in it.
-/
namespace GridWorker

namespace Argument

theorem encoded_iff {v : Json} {a : Argument} : Encoded v a ↔ v = a.toJson := by
  constructor
  · intro h
    cases h with
    | text s => rfl
    | @integer w n same => exact congrArg (fun w => Json.number (.whole w)) (Whole.ext same.symm)
  · rintro rfl
    cases a with
    | text s => exact .text s
    | integer n => exact .integer rfl

theorem ofJson?_toJson (a : Argument) : ofJson? a.toJson = some a :=
  ofJson?_complete (encoded_iff.mpr rfl)

theorem forall₂_encoded_iff {items : List Json} {arguments : List Argument} :
    List.Forall₂ Encoded items arguments ↔ items = arguments.map toJson := by
  have hrel : Encoded = fun v a => v = a.toJson := by
    funext v a
    exact propext encoded_iff
  rw [hrel,← List.forall₂_map_right_iff,List.forall₂_eq_eq_eq]

theorem sortedItems (arguments : List Argument) : Json.SortedItems (arguments.map toJson) := by
  induction arguments with
  | nil => trivial
  | cons a rest ih => cases a <;> exact ⟨trivial,ih⟩

theorem realFreeItems (arguments : List Argument) : Json.RealFreeItems (arguments.map toJson) := by
  induction arguments with
  | nil => trivial
  | cons a rest ih => cases a <;> exact ⟨trivial,ih⟩

/-- A string and an integer are never written alike, whatever their digits. -/
theorem text_ne_integer (s : String) (n : Int64) :
    (text s).toJson.text ≠ (integer n).toJson.text := by
  intro h
  cases Json.text_injective h

end Argument

namespace Event
variable {v : Json} {e : Event}

theorem ofJson?_iff_argumentList : ofJson? v = some e ↔ ∃ members, v = .object members ∧
    members.lookup argumentsKey = some e.argumentList ∧
      e.extra = Members.without argumentsKey members := by
  rw [ofJson?_eq_some_iff]
  constructor
  · rintro ⟨members,items,⟨rfl,hlookup⟩,harguments,hextra⟩
    rw [Argument.forall₂_encoded_iff.mp harguments] at hlookup
    exact ⟨members,rfl,hlookup,hextra⟩
  · rintro ⟨members,rfl,hlookup,hextra⟩
    exact ⟨members,_,⟨rfl,hlookup⟩,Argument.forall₂_encoded_iff.mpr rfl,hextra⟩

theorem extra_of_ofJson? (h : ofJson? v = some e) : argumentsKey ∉ e.extra.map Prod.fst := by
  obtain ⟨members,-,-,hextra⟩ := ofJson?_iff_argumentList.mp h
  rw [← Members.lookup_eq_none_iff,hextra,Members.lookup_without,if_pos rfl]

/-- A value that stands for an event is the encoding of that event. -/
theorem toJson_of_ofJson? (sorted : v.Sorted) (h : ofJson? v = some e) : e.toJson = v := by
  obtain ⟨members,rfl,hlookup,hextra⟩ := ofJson?_iff_argumentList.mp h
  have horder : Members.Ascending members := sorted.1
  have hothers : Members.Ascending e.extra := hextra ▸ horder.without
  refine congrArg Json.object ((Members.ascending_sorted _).ext horder ?_)
  intro key
  rw [Event.members,hothers.lookup_sorted_cons,hextra,Members.lookup_without]
  by_cases hkey : key = argumentsKey
  · rw [if_pos hkey,if_pos hkey,hkey,hlookup]
    rfl
  · rw [if_neg hkey,if_neg hkey,Option.or_none]

/-- The encoding of an event stands for it, unless the key of the arguments is taken. -/
theorem ofJson?_toJson (order : Members.Ascending e.extra)
    (free : argumentsKey ∉ e.extra.map Prod.fst) : ofJson? e.toJson = some e := by
  have hnone := Members.lookup_eq_none_iff.mpr free
  refine ofJson?_iff_argumentList.mpr ⟨_,rfl,?_,?_⟩
  · rw [Event.members,order.lookup_sorted_cons,hnone,if_pos rfl]
    rfl
  · refine order.ext (Members.ascending_sorted _).without ?_
    intro key
    rw [Members.lookup_without,Event.members,order.lookup_sorted_cons]
    by_cases hkey : key = argumentsKey
    · rw [if_pos hkey,hkey,hnone]
    · rw [if_neg hkey,if_neg hkey,Option.or_none]

/-- The text of an event is read as its encoding. -/
theorem read?_written (sorted : (Json.object e.extra).Sorted)
    (free : (Json.object e.extra).RealFree) (fits : e.written.depth ≤ Json.maxDepth) :
    Json.read? e.written.text = some e.toJson := by
  have hfree : e.written.RealFree := ⟨Argument.realFreeItems e.arguments,free⟩
  have hsorted : Json.SortedMembers e.members := ⟨Argument.sortedItems e.arguments,sorted.2⟩
  rw [Json.read?_text hfree fits,written,Json.canonical,Json.canonicalMembers_of_sorted hsorted]
  rfl

theorem nodup_members (order : Members.Ascending e.extra)
    (free : argumentsKey ∉ e.extra.map Prod.fst) : (e.members.map Prod.fst).Nodup :=
  List.nodup_cons.mpr ⟨free,order.imp fun hlt => ne_of_lt hlt⟩

end Event

/-- A value that stands for an event is its encoding, in which no key occurs twice and strings
stay apart from integers. The encoding of an event stands for it exactly if the key of the
arguments is not among its other members, and so does the text that it is written in. -/
theorem events_survive_encoding :
    (∀ (v : Json) (e : Event), v.Sorted → Event.ofJson? v = some e →
      e.toJson = v ∧ "worker_arguments" ∉ e.extra.map Prod.fst ∧
        (e.members.map Prod.fst).Nodup) ∧
    (∀ (s : String) (n : Int64), Argument.ofJson? (.string s) = some (.text s) ∧
      Argument.ofJson? (.ofInt64 n) = some (.integer n) ∧
      (Argument.text s).toJson.text ≠ (Argument.integer n).toJson.text) ∧
    (∀ e : Event, (Json.object e.extra).Sorted →
      (Event.ofJson? e.toJson = some e ↔ "worker_arguments" ∉ e.extra.map Prod.fst)) ∧
    ∀ e : Event, (Json.object e.extra).Sorted → (Json.object e.extra).RealFree →
      e.written.depth ≤ Json.maxDepth →
      ((Json.read? e.written.text).bind Event.ofJson? = some e ↔
        "worker_arguments" ∉ e.extra.map Prod.fst) := by
  have hvalue : ∀ e : Event, (Json.object e.extra).Sorted →
      (Event.ofJson? e.toJson = some e ↔ "worker_arguments" ∉ e.extra.map Prod.fst) :=
    fun e sorted => ⟨Event.extra_of_ofJson?,Event.ofJson?_toJson sorted.1⟩
  refine ⟨?_,?_,hvalue,?_⟩
  · intro v e sorted h
    have hfree := Event.extra_of_ofJson? h
    obtain ⟨members,rfl,-,hextra⟩ := Event.ofJson?_iff_argumentList.mp h
    have horder : Members.Ascending members := sorted.1
    exact ⟨Event.toJson_of_ofJson? sorted h,hfree,
      Event.nodup_members (hextra ▸ horder.without) hfree⟩
  · intro s n
    exact ⟨rfl,Argument.ofJson?_toJson (.integer n),Argument.text_ne_integer s n⟩
  · intro e sorted free fits
    rw [Event.read?_written sorted free fits,Option.bind_some]
    exact hvalue e sorted

/-- Twice the digit seven, beside nested members and a line break. -/
theorem two_sevens_survive_encoding :
    let e : Event := ⟨[.text "7",.integer 7],[("a",.array [.object [("b",.string "\n")]])]⟩
    e.toJson.Sorted ∧ (Json.object e.extra).Sorted ∧ (Json.object e.extra).RealFree ∧
      e.written.depth ≤ Json.maxDepth ∧ Event.ofJson? e.toJson = some e ∧
      (e.members.map Prod.fst).Nodup ∧
      (Json.read? e.written.text).bind Event.ofJson? = some e := by
  intro e
  obtain ⟨hdecoded,-,hvalue,htext⟩ := events_survive_encoding
  have hextra : (Json.object e.extra).Sorted :=
    ⟨List.pairwise_singleton _ _,⟨⟨List.pairwise_singleton _ _,trivial,trivial⟩,trivial⟩,trivial⟩
  have hkey : "worker_arguments" ∉ e.extra.map Prod.fst := by simp [e]
  have hread := (hvalue e hextra).mpr hkey
  have hencoded : e.toJson = .object (e.extra ++ [("worker_arguments",e.argumentList)]) := by
    have hlt : "a" < "worker_arguments" := by decide
    simp only [Event.toJson,Event.members,Event.argumentsKey,Json.record,Members.sorted,
      Members.insert,List.foldl_cons,List.foldl_nil,if_pos hlt,List.cons_append,List.nil_append,e]
  have hsorted : e.toJson.Sorted := by
    rw [hencoded]
    exact ⟨by decide,hextra.2.1,⟨trivial,trivial,trivial⟩,trivial⟩
  have hfree : (Json.object e.extra).RealFree := ⟨⟨⟨trivial,trivial⟩,trivial⟩,trivial⟩
  have hfits : e.written.depth ≤ Json.maxDepth := by decide
  exact ⟨hsorted,hextra,hfree,hfits,hread,(hdecoded e.toJson e hsorted hread).2.2,
    (htext e hextra hfree hfits).mpr hkey⟩

end GridWorker
