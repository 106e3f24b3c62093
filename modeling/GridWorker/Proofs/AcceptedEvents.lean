import GridWorker.Proofs.ListedArguments

/-! # Which values are events

Every JSON value has one verdict: one of five faults, in the order in which they are looked
for, or an event with the listed arguments and the other members. Acceptance finds the
verdict, and it accepts what decoding accepts, apart from events without arguments.
-/
namespace GridWorker

/-- The value is neither a string nor a whole number that 64 signed bits hold. -/
def Argument.Unreadable (v : Json) : Prop :=
  (∀ s, v ≠ .string s) ∧ ∀ w : Whole, v = .number (.whole w) →
    ¬ (-0x8000000000000000 ≤ w.val ∧ w.val ≤ 0x7fffffffffffffff)

theorem Argument.ofJson?_eq_none_iff {v : Json} : ofJson? v = none ↔ Unreadable v := by
  constructor
  · intro h
    refine ⟨?_,?_⟩
    · rintro s rfl
      cases h
    · rintro w rfl ⟨hleast,hmost⟩
      have hfits : w.val < 0x8000000000000000 := by omega
      rw [ofJson?,Whole.toInt64?,if_pos hfits] at h
      cases h
  · rintro ⟨hstring,hnumber⟩
    cases h : ofJson? v with
    | none => rfl
    | some a =>
      cases ofJson?_sound h with
      | text s => exact absurd rfl (hstring s)
      | @integer w n same =>
        have hleast := n.le_toInt
        have hmost := n.toInt_lt
        exact absurd ⟨by omega,by omega⟩ (hnumber w rfl)

theorem Argument.mapM_ofJson?_eq_none_iff {items : List Json} :
    items.mapM ofJson? = none ↔ ∃ item ∈ items, Unreadable item := by
  induction items with
  | nil => simp
  | cons item items ih =>
    have hcons : (item :: items).mapM ofJson? = none ↔
        ofJson? item = none ∨ items.mapM ofJson? = none := by
      rw [List.mapM_cons]
      cases ofJson? item <;> cases items.mapM ofJson? <;> simp
    rw [hcons,ih,ofJson?_eq_none_iff]
    simp only [List.mem_cons,exists_eq_or_imp]

namespace Event

def Holds (v : Json) (found : Option Json) (members : Members) : Prop :=
  v = .object members ∧ members.lookup argumentsKey = found

/-- What becomes of a value: the fault that it has, or the event that it stands for. -/
inductive Verdict (v : Json) : Except EventFault Event → Prop
  | notAnObject (other : ∀ members, v ≠ .object members) : Verdict v (.error .notAnObject)
  | noArguments {members : Members} (held : Holds v none members) :
      Verdict v (.error .noArguments)
  | argumentsNotAList {members : Members} {x : Json} (held : Holds v (some x) members)
      (other : ∀ items, x ≠ .array items) : Verdict v (.error .argumentsNotAList)
  | emptyArguments {members : Members} (held : Holds v (some (.array [])) members) :
      Verdict v (.error .emptyArguments)
  | badArgument {members : Members} {items : List Json} {item : Json}
      (held : Holds v (some (.array items)) members) (mem : item ∈ items)
      (bad : Argument.Unreadable item) : Verdict v (.error .badArgument)
  | accepted {members : Members} {items : List Json} {e : Event}
      (held : Holds v (some (.array items)) members) (nonempty : items ≠ [])
      (arguments : List.Forall₂ Argument.Encoded items e.arguments)
      (extra : e.extra = members.filter fun m => m.1 ≠ argumentsKey) :
      Verdict v (.ok e)

theorem ofJson?_of_holds {v : Json} {items : List Json} {members : Members}
    (held : Holds v (some (.array items)) members) : ofJson? v =
      (items.mapM Argument.ofJson?).map (⟨·,members.filter fun m => m.1 ≠ argumentsKey⟩) := by
  obtain ⟨rfl,hlookup⟩ := held
  simp only [ofJson?,hlookup]
  rfl

theorem ofJson?_eq_some_iff {v : Json} {e : Event} : ofJson? v = some e ↔
    ∃ members items, Holds v (some (.array items)) members ∧
      List.Forall₂ Argument.Encoded items e.arguments ∧
      e.extra = members.filter fun m => m.1 ≠ argumentsKey := by
  constructor
  · intro h
    unfold ofJson? at h
    split at h
    · rename_i members
      split at h
      · rename_i items hlookup
        obtain ⟨arguments,hmap,rfl⟩ := Option.map_eq_some_iff.mp h
        exact ⟨members,items,⟨rfl,hlookup⟩,Argument.mapM_ofJson?_iff.mp hmap,rfl⟩
      · cases h
    · cases h
  · rintro ⟨members,items,held,harguments,hextra⟩
    rw [ofJson?_of_holds held,Argument.mapM_ofJson?_iff.mpr harguments,← hextra]
    rfl

theorem accept_verdict (v : Json) : Verdict v (accept v) := by
  unfold accept
  split
  · rename_i members
    split
    · rename_i hlookup
      exact .noArguments ⟨rfl,hlookup⟩
    · rename_i hlookup
      exact .emptyArguments ⟨rfl,hlookup⟩
    · rename_i item items hlookup
      have held : Holds (.object members) (some (.array (item :: items))) members := ⟨rfl,hlookup⟩
      split
      · rename_i e he
        obtain ⟨members',items',⟨hv,hlookup'⟩,harguments,hextra⟩ := ofJson?_eq_some_iff.mp he
        obtain rfl := Json.object.inj hv
        obtain rfl : item :: items = items' := by simpa using hlookup.symm.trans hlookup'
        exact .accepted held (List.cons_ne_nil item items) harguments hextra
      · rename_i he
        have hmap : (item :: items).mapM Argument.ofJson? = none := by
          rw [ofJson?_of_holds held] at he
          exact Option.map_eq_none_iff.mp he
        obtain ⟨bad,hmem,hbad⟩ := Argument.mapM_ofJson?_eq_none_iff.mp hmap
        exact .badArgument held hmem hbad
    · rename_i x hempty hlist hlookup
      refine .argumentsNotAList ⟨rfl,hlookup⟩ ?_
      rintro (_ | ⟨item,items⟩) rfl
      · exact hempty rfl
      · exact hlist item items rfl
  · rename_i hother
    exact .notAnObject hother

theorem Verdict.accept_eq {v : Json} {a : Except EventFault Event} (h : Verdict v a) :
    accept v = a := by
  cases h with
  | notAnObject other =>
    unfold accept
    split
    · exact absurd rfl (other _)
    · rfl
  | noArguments held =>
    obtain ⟨rfl,hlookup⟩ := held
    simp only [accept,hlookup]
  | @argumentsNotAList members x held other =>
    obtain ⟨rfl,hlookup⟩ := held
    cases x with
    | array items => exact absurd rfl (other items)
    | _ => simp only [accept,hlookup]
  | emptyArguments held =>
    obtain ⟨rfl,hlookup⟩ := held
    simp only [accept,hlookup]
  | @badArgument members items item held mem bad =>
    have hmap := Argument.mapM_ofJson?_eq_none_iff.mpr ⟨item,mem,bad⟩
    have hread := ofJson?_of_holds held
    rw [hmap,Option.map_none] at hread
    obtain ⟨rfl,hlookup⟩ := held
    cases items with
    | nil => cases mem
    | cons item' items => simp only [accept,hlookup,hread]
  | @accepted members items e held nonempty arguments extra =>
    have hread := ofJson?_eq_some_iff.mpr ⟨members,items,held,arguments,extra⟩
    obtain ⟨rfl,hlookup⟩ := held
    cases items with
    | nil => exact absurd rfl nonempty
    | cons item items => simp only [accept,hlookup,hread]

theorem accept_eq_iff {v : Json} {a : Except EventFault Event} : accept v = a ↔ Verdict v a :=
  ⟨fun h => h ▸ accept_verdict v,Verdict.accept_eq⟩

end Event

theorem EventFault.message_injective {f g : EventFault} (h : f.message = g.message) : f = g := by
  cases f <;> cases g <;> first | rfl | exact absurd h (by decide)

namespace Event

def read (v : Json) : Except String Event := (accept v).mapError EventFault.message

section Read
variable {v : Json}

theorem read_eq_error_iff (f : EventFault) :
    read v = .error f.message ↔ Verdict v (.error f) := by
  rw [← accept_eq_iff,read]
  cases accept v with
  | ok e => simp [Except.mapError]
  | error g =>
    simp only [Except.mapError,Except.error.injEq]
    exact ⟨EventFault.message_injective,congrArg _⟩

theorem read_eq_ok_iff {e : Event} : read v = .ok e ↔ Verdict v (.ok e) := by
  rw [← accept_eq_iff,read]
  cases accept v with
  | ok e' => simp [Except.mapError]
  | error g => simp [Except.mapError]

theorem read_notAnObject_iff : read v = .error "Worker event must be a JSON object" ↔
    ∀ members, v ≠ .object members := by
  apply (read_eq_error_iff .notAnObject).trans
  constructor
  · intro h
    cases h with
    | notAnObject other => exact other
  · exact .notAnObject

theorem read_noArguments_iff : read v = .error "Worker event is missing 'worker_arguments'" ↔
    ∃ members, Holds v none members := by
  apply (read_eq_error_iff .noArguments).trans
  constructor
  · intro h
    cases h with
    | noArguments held => exact ⟨_,held⟩
  · rintro ⟨members,held⟩
    exact .noArguments held

theorem read_argumentsNotAList_iff : read v = .error "'worker_arguments' must be a list" ↔
    ∃ members x, Holds v (some x) members ∧ ∀ items, x ≠ .array items := by
  apply (read_eq_error_iff .argumentsNotAList).trans
  constructor
  · intro h
    cases h with
    | argumentsNotAList held other => exact ⟨_,_,held,other⟩
  · rintro ⟨members,x,held,other⟩
    exact .argumentsNotAList held other

theorem read_emptyArguments_iff :
    read v = .error "'worker_arguments' must contain at least one argument" ↔
      ∃ members, Holds v (some (.array [])) members := by
  apply (read_eq_error_iff .emptyArguments).trans
  constructor
  · intro h
    cases h with
    | emptyArguments held => exact ⟨_,held⟩
  · rintro ⟨members,held⟩
    exact .emptyArguments held

theorem read_badArgument_iff : read v = .error
      "Malformed worker event: data did not match any variant of untagged enum WorkerArgument" ↔
    ∃ members items, Holds v (some (.array items)) members ∧
      ∃ item ∈ items, Argument.Unreadable item := by
  apply (read_eq_error_iff .badArgument).trans
  constructor
  · intro h
    cases h with
    | badArgument held mem bad => exact ⟨_,_,held,_,mem,bad⟩
  · rintro ⟨members,items,held,item,mem,bad⟩
    exact .badArgument held mem bad

theorem read_ok_iff {e : Event} : read v = .ok e ↔
    ∃ members items, Holds v (some (.array items)) members ∧ items ≠ [] ∧
      List.Forall₂ Argument.Encoded items e.arguments ∧
      e.extra = members.filter fun m => m.1 ≠ argumentsKey := by
  apply read_eq_ok_iff.trans
  constructor
  · intro h
    cases h with
    | accepted held nonempty arguments extra => exact ⟨_,_,held,nonempty,arguments,extra⟩
  · rintro ⟨members,items,held,nonempty,arguments,extra⟩
    exact .accepted held nonempty arguments extra

/-- Decoding accepts the same values, and those without arguments besides. -/
theorem read_ok_iff_decoded {e : Event} :
    read v = .ok e ↔ ofJson? v = some e ∧ e.arguments ≠ [] := by
  rw [read_ok_iff,ofJson?_eq_some_iff]
  constructor
  · rintro ⟨members,items,held,hitems,harguments,hextra⟩
    refine ⟨⟨members,items,held,harguments,hextra⟩,?_⟩
    intro hnil
    rw [hnil,List.forall₂_nil_right_iff] at harguments
    exact hitems harguments
  · rintro ⟨⟨members,items,held,harguments,hextra⟩,hnonempty⟩
    refine ⟨members,items,held,?_,harguments,hextra⟩
    rintro rfl
    exact hnonempty (List.forall₂_nil_left_iff.mp harguments)

end Read
end Event

open Event

/-- A value is refused with just the text of its first fault, and accepted as just the event
that lists its arguments and keeps its other members. Decoding accepts the same values, with
the same events, and those without arguments besides. -/
theorem events_accepted_exactly (v : Json) :
    (read v = .error "Worker event must be a JSON object" ↔ ∀ members, v ≠ .object members) ∧
    (read v = .error "Worker event is missing 'worker_arguments'" ↔
      ∃ members, v = .object members ∧ members.lookup "worker_arguments" = none) ∧
    (read v = .error "'worker_arguments' must be a list" ↔
      ∃ members x, (v = .object members ∧ members.lookup "worker_arguments" = some x) ∧
        ∀ items, x ≠ .array items) ∧
    (read v = .error "'worker_arguments' must contain at least one argument" ↔
      ∃ members, v = .object members ∧ members.lookup "worker_arguments" = some (.array [])) ∧
    (read v = .error
        "Malformed worker event: data did not match any variant of untagged enum WorkerArgument" ↔
      ∃ members items, (v = .object members ∧
          members.lookup "worker_arguments" = some (.array items)) ∧
        ∃ item ∈ items, (∀ s, item ≠ .string s) ∧ ∀ w : Whole, item = .number (.whole w) →
          ¬ (-0x8000000000000000 ≤ w.val ∧ w.val ≤ 0x7fffffffffffffff)) ∧
    (∀ e, read v = .ok e ↔ ∃ members items, (v = .object members ∧
          members.lookup "worker_arguments" = some (.array items)) ∧ items ≠ [] ∧
        List.Forall₂ Argument.Encoded items e.arguments ∧
        e.extra = members.filter fun m => m.1 ≠ "worker_arguments") ∧
    (∀ e, read v = .ok e ↔ Event.ofJson? v = some e ∧ e.arguments ≠ []) :=
  ⟨read_notAnObject_iff,read_noArguments_iff,read_argumentsNotAList_iff,read_emptyArguments_iff,
    read_badArgument_iff,fun _ => read_ok_iff,fun _ => read_ok_iff_decoded⟩

end GridWorker
