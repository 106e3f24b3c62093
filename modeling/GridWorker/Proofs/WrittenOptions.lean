import GridWorker.Proofs.ChainsAndTables
import GridWorker.Task.CommandLine

/-! # Options as they are written

An option is written in one argument, with its value after an equals sign, or in two. However
the options of a line are written, reading them comes down to settling them one after the
other; and a line that is read is one of options, each given once, that nothing but a separator
follows.
-/
namespace GridWorker

/-! ## Arguments -/

namespace Argv
variable {cs vs : List Char}

theorem splitValue_plain (h : '=' ∉ cs) : splitValue cs = (cs,none) := by
  induction cs with
  | nil => rfl
  | cons c cs ih =>
    have hcs := List.not_mem_of_not_mem_cons h
    rw [splitValue,if_neg (List.ne_of_not_mem_cons h).symm,ih hcs]

theorem splitValue_append (h : '=' ∉ cs) : splitValue (cs ++ '=' :: vs) = (cs,some vs) := by
  induction cs with
  | nil => rfl
  | cons c cs ih =>
    have hcs := List.not_mem_of_not_mem_cons h
    rw [List.cons_append,splitValue,if_neg (List.ne_of_not_mem_cons h).symm,ih hcs]

/-- The parts of a text make it up. -/
theorem splitValue_join (cs : List Char) :
    (splitValue cs).1 ++ ((splitValue cs).2.elim [] fun vs => '=' :: vs) = cs := by
  induction cs with
  | nil => rfl
  | cons c cs ih =>
    rw [splitValue]
    by_cases hc : c = '='
    · rw [if_pos hc,hc]
      rfl
    · rw [if_neg hc]
      exact congrArg (c :: ·) ih

theorem ofString_plain_iff {s : String} :
    ofString s = .plain ↔ s = "-" ∨ s.toList.head? ≠ some '-' := by
  have hdash : s = "-" ↔ s.toList = ['-'] := String.toList_inj.symm
  rw [hdash,ofString]
  generalize s.toList = cs
  split
  · simp
  · simp
  · simp
  · rename_i h
    simp only [true_iff]
    rcases cs with - | ⟨c,- | ⟨d,rest⟩⟩
    · simp
    · by_cases hc : c = '-' <;> simp [hc]
    · refine Or.inr fun hc => ?_
      obtain rfl : c = '-' := Option.some.inj hc
      exact h d rest rfl

/-- The text of an argument that is an option. -/
theorem eq_of_ofString_long {s : String} {name : List Char} {value : Option (List Char)}
    (h : ofString s = .long name value) : s = match value with
      | none => "--" ++ String.ofList name
      | some v => "--" ++ String.ofList name ++ "=" ++ String.ofList v := by
  unfold ofString at h
  split at h
  · cases h
  · rename_i cs _ hs
    injection h with hname hvalue
    have hjoin := splitValue_join cs
    rw [hname,hvalue] at hjoin
    rw [← String.toList_inj,hs,← hjoin]
    cases value <;> simp
  · cases h
  · cases h

theorem eq_of_ofString_separator {s : String} (h : ofString s = .separator) : s = "--" := by
  unfold ofString at h
  split at h
  · rename_i hs
    exact String.toList_inj.mp hs
  · cases h
  · cases h
  · cases h

theorem ofString_long {s : String} {cs : List Char} (hs : s.toList = '-' :: '-' :: cs)
    (more : cs ≠ []) : ofString s = .long (splitValue cs).1 (splitValue cs).2 := by
  unfold ofString
  rw [hs]
  cases cs with
  | nil => exact absurd rfl more
  | cons c cs => rfl

theorem ofString_name {name : String} (named : name ≠ "") (plain : '=' ∉ name.toList) :
    ofString ("--" ++ name) = .long name.toList none := by
  have hs : ("--" ++ name).toList = '-' :: '-' :: name.toList := String.toList_append
  rw [ofString_long hs fun h => named (String.toList_inj.mp h),splitValue_plain plain]

theorem ofString_attached {name : String} (plain : '=' ∉ name.toList) (value : String) :
    ofString ("--" ++ name ++ "=" ++ value) = .long name.toList (some value.toList) := by
  have hs : ("--" ++ name ++ "=" ++ value).toList =
      '-' :: '-' :: (name.toList ++ '=' :: value.toList) := by
    simp
  rw [ofString_long hs (by simp),splitValue_append plain]

end Argv

/-! ## Lines of options -/

/-- A name that an argument can hold as a whole, and that asks for no page. -/
structure OptionRule.Plain (rule : OptionRule) : Prop where
  named : rule.name ≠ ""
  whole : '=' ∉ rule.name.toList
  other : rule.name ≠ "help"

namespace Options

inductive Written (name value : String) : List String → Prop
  | attached : Written name value ["--" ++ name ++ "=" ++ value]
  | separate (bare : value = "-" ∨ value.toList.head? ≠ some '-') :
      Written name value ["--" ++ name,value]

inductive Line : List (String × String) → List String → Prop
  | nil : Line [] []
  | cons {name value : String} {args rest : List String} {given : List (String × String)}
      (first : Written name value args) (later : Line given rest) :
      Line ((name,value) :: given) (args ++ rest)

def Accepted (rules : List OptionRule) (p : String × String) : Prop :=
  ∃ rule, rules.find? (·.name = p.1) = some rule ∧ rule.accepts p.2 = true

def settleAll (rules : List OptionRule) (given : List (String × String)) (o : Options) :
    Except UsageFault Options :=
  given.foldlM (fun o p => o.settle rules p.1 p.2) o

variable {rules : List OptionRule} {t : Topic} {o o' : Options} {name value : String}
variable {args tokens : List String} {given : List (String × String)} {p : String × String}

theorem Line.single (written : Written name value args) : Line [(name,value)] args := by
  have hline := Line.cons written .nil
  rwa [List.append_nil] at hline

theorem Line.concat (h : Line given args) (last : Written name value tokens) :
    Line (given ++ [(name,value)]) (args ++ tokens) := by
  induction h with
  | nil => exact .single last
  | cons first later ih =>
    rw [List.append_assoc]
    exact .cons first ih

theorem Accepted.known (h : Accepted rules p) : rules.any (·.name = p.1) = true := by
  obtain ⟨rule,hrule,-⟩ := h
  have hname := List.find?_some hrule
  exact List.any_eq_true.mpr ⟨rule,List.mem_of_find?_eq_some hrule,hname⟩

theorem settle_of_accepted (h : Accepted rules p) : o.settle rules p.1 p.2 =
    if p.1 ∈ o.settled.map Prod.fst then .error .conflict
    else .ok { o with settled := o.settled ++ [p] } := by
  obtain ⟨rule,hrule,haccepts⟩ := h
  simp only [settle,lookup_isSome_iff,hrule,haccepts]
  rfl

theorem settle_eq_ok (h : o.settle rules name value = .ok o') :
    o' = { o with settled := o.settled ++ [(name,value)] } ∧ Accepted rules (name,value) ∧
      name ∉ o.settled.map Prod.fst := by
  rw [settle] at h
  split at h
  · cases h
  · rename_i hfresh
    rw [lookup_isSome_iff] at hfresh
    split at h
    · cases h
    · rename_i rule hrule
      split at h
      · rename_i haccepts
        injection h with ho
        exact ⟨ho.symm,⟨rule,hrule,haccepts⟩,hfresh⟩
      · cases h

theorem resolve_eq_ok (h : o.resolve rules = .ok o') :
    o'.pending = none ∧ o'.separated = o.separated := by
  rw [resolve] at h
  split at h
  · rename_i hpending
    injection h with ho
    exact ho ▸ ⟨hpending,rfl⟩
  · cases h
  · obtain ⟨rfl,-,-⟩ := settle_eq_ok h
    exact ⟨rfl,rfl⟩

/-! ### Reading what is written -/

theorem step_value {settled : List (String × String)}
    (bare : value = "-" ∨ value.toList.head? ≠ some '-') :
    step rules t ⟨settled,some (name,none),false⟩ value =
      .ok ⟨settled,some (name,some value),false⟩ := by
  simp only [step,Argv.ofString_plain_iff.mpr bare]
  rfl

section Known
variable (plain : ∀ rule ∈ rules, rule.Plain)
include plain

theorem plain_of_known (known : rules.any (·.name = name) = true) :
    name ≠ "" ∧ '=' ∉ name.toList ∧ name ≠ "help" := by
  obtain ⟨rule,hrule,hname⟩ := List.any_eq_true.mp known
  obtain rfl : rule.name = name := of_decide_eq_true hname
  exact ⟨(plain rule hrule).named,(plain rule hrule).whole,(plain rule hrule).other⟩

theorem step_name (reading : o.separated = false) (known : rules.any (·.name = name) = true) :
    o.step rules t ("--" ++ name) = (do
      let o ← o.resolve rules
      .ok { o with pending := some (name,none) }) := by
  obtain ⟨hnamed,hwhole,hother⟩ := plain_of_known plain known
  simp only [step,reading,Argv.ofString_name hnamed hwhole,String.ofList_toList,known,if_neg hother]
  rfl

theorem step_attached (reading : o.separated = false)
    (known : rules.any (·.name = name) = true) :
    o.step rules t ("--" ++ name ++ "=" ++ value) = (do
      let o ← o.resolve rules
      o.settle rules name value) := by
  obtain ⟨-,hwhole,hother⟩ := plain_of_known plain known
  simp only [step,reading,Argv.ofString_attached hwhole,String.ofList_toList,known,if_neg hother]
  rfl

/-- Options that are written out are settled one after the other, after the one met last. -/
theorem foldlM_line (h : Line given args) (known : ∀ p ∈ given, rules.any (·.name = p.1) = true)
    (reading : o.separated = false) :
    (do
      let o ← args.foldlM (step rules t) o
      o.resolve rules) = (do
      let o ← o.resolve rules
      settleAll rules given o) := by
  induction h generalizing o with
  | nil => exact (bind_pure (o.resolve rules)).symm
  | @cons name value args rest given first later ih =>
    have hknown := known _ List.mem_cons_self
    have hrest := fun o => @ih o fun p hp => known p (List.mem_cons_of_mem _ hp)
    cases first with
    | attached =>
      simp only [List.cons_append,List.nil_append,List.foldlM_cons,bind_assoc,
        step_attached plain reading hknown]
      refine bind_congr_ok fun ⟨settled,pending,separated⟩ hfirst => ?_
      refine bind_congr_ok fun second hsecond => ?_
      obtain ⟨rfl,hsame⟩ := resolve_eq_ok hfirst
      obtain rfl : separated = false := hsame.trans reading
      obtain ⟨rfl,-,-⟩ := settle_eq_ok hsecond
      exact hrest ⟨settled ++ [(name,value)],none,false⟩ rfl
    | separate bare =>
      -- The value stays unchecked until the next option is met, or the line ends.
      simp only [List.cons_append,List.nil_append,List.foldlM_cons,bind_assoc,
        step_name plain reading hknown]
      refine bind_congr_ok fun ⟨settled,pending,separated⟩ hfirst => ?_
      obtain ⟨rfl,hsame⟩ := resolve_eq_ok hfirst
      obtain rfl : separated = false := hsame.trans reading
      change (do
        let o ← step rules t ⟨settled,some (name,none),false⟩ value
        let o ← rest.foldlM (step rules t) o
        o.resolve rules) = _
      rw [step_value bare]
      exact hrest ⟨settled,some (name,some value),false⟩ rfl

end Known

/-- Accepted options are settled as long as no name occurs twice. -/
theorem settleAll_of_accepted (accepted : ∀ p ∈ given, Accepted rules p)
    (fresh : (o.settled.map Prod.fst).Nodup) :
    settleAll rules given o = if ((o.settled ++ given).map Prod.fst).Nodup then
      .ok { o with settled := o.settled ++ given } else .error .conflict := by
  induction given generalizing o with
  | nil =>
    rw [List.append_nil,if_pos fresh]
    rfl
  | cons p rest ih =>
    have hrest := fun q hq => accepted q (List.mem_cons_of_mem p hq)
    rw [settleAll,List.foldlM_cons,settle_of_accepted (accepted p List.mem_cons_self)]
    by_cases hp : p.1 ∈ o.settled.map Prod.fst
    · have hrepeat : ¬ ((o.settled ++ p :: rest).map Prod.fst).Nodup := by
        rw [List.map_append,List.map_cons,List.nodup_append]
        exact fun h => h.2.2 p.1 hp p.1 List.mem_cons_self rfl
      rw [if_pos hp,if_neg hrepeat]
      rfl
    · have hlater := ih (o := { o with settled := o.settled ++ [p] }) hrest
        (names_nodup_concat fresh hp)
      rw [if_neg hp]
      simp only [List.append_assoc,List.singleton_append] at hlater
      exact hlater

/-- Accepted options are read, however they are written, unless one is given twice. -/
theorem read_line (plain : ∀ rule ∈ rules, rule.Plain) (h : Line given args)
    (accepted : ∀ p ∈ given, Accepted rules p) :
    read rules t args =
      if (given.map Prod.fst).Nodup then .ok given else .error .conflict := by
  have hline := foldlM_line (t := t) (o := start) plain h (fun p hp => (accepted p hp).known) rfl
  have hsettled : settleAll rules given start = if (given.map Prod.fst).Nodup then
      .ok ⟨given,none,false⟩ else .error .conflict :=
    settleAll_of_accepted accepted List.nodup_nil
  rw [read,← bind_assoc,hline]
  change (do
    let o ← settleAll rules given start
    return o.settled) = _
  rw [hsettled]
  split <;> rfl

/-! ### What has been written -/

theorem help_ne_ok : o.help rules t ≠ .ok o' := by
  rw [help]
  cases o.resolve rules <;> nofun

def Checked (rules : List OptionRule) (given : List (String × String)) : Prop :=
  (given.map Prod.fst).Nodup ∧ ∀ p ∈ given, Accepted rules p

theorem Checked.concat (h : Checked rules given) (accepted : Accepted rules p)
    (fresh : p.1 ∉ given.map Prod.fst) : Checked rules (given ++ [p]) := by
  refine ⟨names_nodup_concat h.1 fresh,fun q hq => ?_⟩
  rcases List.mem_append.mp hq with hq | hq
  · exact h.2 q hq
  · exact List.mem_singleton.mp hq ▸ accepted

/-- What the arguments read so far say of the options. -/
inductive Reached (rules : List OptionRule) : List String → Options → Prop
  | settled {given : List (String × String)} {args : List String} (line : Line given args)
      (checked : Checked rules given) : Reached rules args ⟨given,none,false⟩
  | named {given : List (String × String)} {args : List String} (line : Line given args)
      (checked : Checked rules given) (name : String) :
      Reached rules (args ++ ["--" ++ name]) ⟨given,some (name,none),false⟩
  | valued {given : List (String × String)} {args : List String} {name value : String}
      (line : Line (given ++ [(name,value)]) args) (checked : Checked rules given) :
      Reached rules args ⟨given,some (name,some value),false⟩
  | separated {args : List String} {o : Options} (h : Reached rules args o)
      (reading : o.separated = false) : Reached rules (args ++ ["--"]) { o with separated := true }

/-- What is settled at last is what was written, before a separator or without one. -/
theorem Reached.resolve {passed : Bool} (h : Reached rules args o) (reading : o.separated = false)
    (resolved : { o with separated := passed }.resolve rules = .ok o') :
    ∃ given, o' = ⟨given,none,passed⟩ ∧ Line given args ∧ Checked rules given := by
  cases h with
  | @settled given args line checked =>
    obtain rfl : _ = o' := Except.ok.inj resolved
    exact ⟨given,rfl,line,checked⟩
  | named line checked name => cases resolved
  | @valued given args name value line checked =>
    obtain ⟨rfl,haccepted,hfresh⟩ := settle_eq_ok resolved
    exact ⟨_,rfl,line,checked.concat haccepted hfresh⟩
  | separated h _ => cases reading

/-- An argument that is no option is the value of the one met last. -/
theorem Reached.take {arg : String} (h : Reached rules args o)
    (hpending : o.pending = some (name,none)) (reading : o.separated = false)
    (bare : arg = "-" ∨ arg.toList.head? ≠ some '-') :
    Reached rules (args ++ [arg]) ⟨o.settled,some (name,some arg),false⟩ := by
  cases h with
  | settled line checked => cases hpending
  | @named given args line checked met =>
    obtain ⟨rfl,-⟩ := Prod.mk.inj (Option.some.inj hpending)
    rw [List.append_assoc]
    exact .valued (line.concat (.separate bare)) checked
  | valued line checked => cases hpending
  | separated h _ => cases reading

/-- An option is met after those before it have been settled. -/
theorem Reached.meet {arg : String} {letters : List Char} {value : Option (List Char)}
    (h : Reached rules args o) (reading : o.separated = false)
    (shape : Argv.ofString arg = .long letters value)
    (stepped : (do
      let o ← o.resolve rules
      match value with
      | some value => o.settle rules (String.ofList letters) (String.ofList value)
      | none => .ok { o with pending := some (String.ofList letters,none) }) = .ok o') :
    Reached rules (args ++ [arg]) o' := by
  rw [Argv.eq_of_ofString_long shape]
  obtain ⟨first,hresolve,stepped⟩ := bind_eq_ok stepped
  obtain ⟨given,rfl,hline,hchecked⟩ := h.resolve reading hresolve
  rw [reading] at stepped
  cases value with
  | none =>
    obtain rfl := Except.ok.inj stepped
    exact .named hline hchecked _
  | some value =>
    obtain ⟨rfl,haccepted,hfresh⟩ := settle_eq_ok stepped
    exact .settled (hline.concat .attached) (hchecked.concat haccepted hfresh)

/-- One more argument that is read. -/
theorem Reached.step {arg : String} (h : Reached rules args o)
    (stepped : o.step rules t arg = .ok o') : Reached rules (args ++ [arg]) o' := by
  rw [Options.step] at stepped
  cases hreading : o.separated with
  | true =>
    rw [hreading] at stepped
    cases stepped
  | false =>
    rw [hreading,if_neg Bool.false_ne_true] at stepped
    split at stepped
    · rename_i hsep
      obtain rfl := Argv.eq_of_ofString_separator hsep
      obtain rfl := Except.ok.inj stepped
      exact .separated h hreading
    · split at stepped
      · exact absurd stepped help_ne_ok
      · cases stepped
    · rename_i hplain
      split at stepped
      · rename_i name hpending
        obtain rfl := Except.ok.inj stepped
        exact h.take hpending hreading (Argv.ofString_plain_iff.mp hplain)
      · cases stepped
    · rename_i letters value hlong
      dsimp only at stepped
      split at stepped
      · split at stepped
        · cases stepped
        · exact absurd stepped help_ne_ok
      · split at stepped
        · exact h.meet hreading hlong stepped
        · cases stepped

theorem Reached.foldlM {rest : List String} (h : Reached rules args o)
    (run : rest.foldlM (Options.step rules t) o = .ok o') : Reached rules (args ++ rest) o' := by
  induction rest generalizing args o with
  | nil =>
    obtain rfl := Except.ok.inj run
    rwa [List.append_nil]
  | cons arg rest ih =>
    rw [List.foldlM_cons] at run
    obtain ⟨next,hstep,hrest⟩ := bind_eq_ok run
    have hnext := ih (h.step hstep) hrest
    rwa [List.append_assoc,List.singleton_append] at hnext

theorem Reached.finish (h : Reached rules args o) (resolved : o.resolve rules = .ok o') :
    ∃ tokens tail, args = tokens ++ tail ∧ (tail = [] ∨ tail = ["--"]) ∧
      Line o'.settled tokens ∧ Checked rules o'.settled := by
  cases hpassed : o.separated with
  | false =>
    obtain ⟨given,rfl,hline,hchecked⟩ := h.resolve hpassed resolved
    exact ⟨args,[],(List.append_nil args).symm,Or.inl rfl,hline,hchecked⟩
  | true =>
    cases h with
    | @separated args o h reading =>
      obtain ⟨given,rfl,hline,hchecked⟩ := h.resolve reading resolved
      exact ⟨args,_,rfl,Or.inr rfl,hline,hchecked⟩
    | _ => cases hpassed

/-- Arguments that are read write the options read, each accepted and given once; nothing but a
separator follows. -/
theorem read_eq_ok (h : read rules t args = .ok given) : ∃ tokens tail, args = tokens ++ tail ∧
    (tail = [] ∨ tail = ["--"]) ∧ Line given tokens ∧ Checked rules given := by
  obtain ⟨o,hrun,h⟩ := bind_eq_ok h
  obtain ⟨o',hresolve,h⟩ := bind_eq_ok h
  obtain rfl := Except.ok.inj h
  exact (Reached.foldlM (.settled .nil ⟨List.nodup_nil,nofun⟩) hrun).finish hresolve

end Options
end GridWorker
