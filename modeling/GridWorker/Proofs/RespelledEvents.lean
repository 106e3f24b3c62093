import Mathlib.Logic.Relation
import GridWorker.Proofs.AnsweredRequests
import GridWorker.Proofs.NumberText
import GridWorker.Proofs.PlanFaults

/-! # Events that ask alike

An integer asks for what the text of its decimal asks for. A numeral may be given a `+` or more
zeros, a negative delay may be any other, and behind the arguments that are read, as beside them
in the event, anything may stand: an event that is answered is answered alike after any number of
such changes.
-/
namespace GridWorker

namespace Numeral

/-- The decimal of an integer is a numeral of it. -/
theorem denotes_decimal (i : Int) : Denotes (decimal i) i := by
  unfold decimal
  split
  · rename_i negative
    have hvalue := Denotes.minus (digits_toDigits i.natAbs)
    rwa [value_toDigits,Int.ofNat_natAbs_of_nonpos (Int.le_of_lt negative),Int.neg_neg] at hvalue
  · rename_i positive
    have hvalue := Denotes.plain (digits_toDigits i.natAbs)
    rwa [value_toDigits,Int.natAbs_of_nonneg (Int.not_lt.mp positive)] at hvalue

/-- Zeros in front of digits do not count. -/
theorem value_zeros_append (k : Nat) (ds : List Char) :
    value (List.replicate k '0' ++ ds) = value ds := by
  rw [← ofDigitChars_eq_value,← ofDigitChars_eq_value,Nat.ofDigitChars_append,
    Nat.ofDigitChars_replicate_zero,Nat.mul_zero]

variable {cs cs' ds : List Char}

theorem Digits.zeros_append (digits : Digits ds) (k : Nat) :
    Digits (List.replicate k '0' ++ ds) := by
  refine ⟨List.append_ne_nil_of_right_ne_nil _ digits.1,?_⟩
  intro c hc
  rcases List.mem_append.mp hc with hzero | hdigit
  · rw [List.eq_of_mem_replicate hzero]
    rfl
  · exact digits.2 c hdigit

/-- The same numeral, with `+` where it had no sign or with more zeros in front of its digits. -/
inductive Respelled : List Char → List Char → Prop
  | plus {ds : List Char} (digits : Digits ds) : Respelled ds ('+' :: ds)
  | zeros {sign ds : List Char} (optional : sign = [] ∨ sign = ['+'] ∨ sign = ['-'])
      (digits : Digits ds) (k : Nat) : Respelled (sign ++ ds) (sign ++ (List.replicate k '0' ++ ds))

theorem Respelled.denotes {v : Int} (h : Respelled cs cs') (value : Denotes cs v) :
    Denotes cs' v := by
  cases h with
  | plus digits => exact (Denotes.plain digits).unique value ▸ .plus digits
  | @zeros sign ds optional digits k =>
    have hzeros := digits.zeros_append k
    rcases optional with rfl | rfl | rfl
    · have hplain := Denotes.plain hzeros
      rw [value_zeros_append] at hplain
      exact (Denotes.plain digits).unique value ▸ hplain
    · have hplus := Denotes.plus hzeros
      rw [value_zeros_append] at hplus
      exact (Denotes.plus digits).unique value ▸ hplus
    · have hminus := Denotes.minus hzeros
      rw [value_zeros_append] at hminus
      exact (Denotes.minus digits).unique value ▸ hminus

theorem Respelled.minus_mem (h : Respelled cs cs') (minus : '-' ∈ cs') : '-' ∈ cs := by
  cases h with
  | plus digits =>
    cases minus with
    | tail _ hm => exact hm
  | @zeros sign ds optional digits k =>
    rcases List.mem_append.mp minus with hsign | hrest
    · exact List.mem_append_left ds hsign
    · exact absurd hrest ((digits.zeros_append k).not_mem rfl)

end Numeral

namespace Argument

theorem integer_denotes (n : Int64) : (integer n).Denotes n.toInt := by
  rw [Denotes,asText,String.toList_ofList]
  exact Numeral.denotes_decimal n.toInt

/-- An argument as it was, or an integer replaced by the text of its decimal. -/
inductive Spelled : Argument → Argument → Prop
  | same (a : Argument) : Spelled a a
  | decimal (n : Int64) : Spelled (.integer n) (.text (String.ofList (Numeral.decimal n.toInt)))

theorem Spelled.asText_eq {a b : Argument} (h : Spelled a b) : b.asText = a.asText := by
  cases h <;> rfl

theorem map_asText_of_spelled {xs ys : List Argument} (h : List.Forall₂ Spelled xs ys) :
    ys.map asText = xs.map asText := by
  induction h with
  | nil => rfl
  | cons head _ ih => rw [List.map_cons,List.map_cons,head.asText_eq,ih]

section Respelled
variable {a : Argument} {cs : List Char} (h : Numeral.Respelled a.asText.toList cs)
include h

theorem Denotes.respelled {v : Int} (value : a.Denotes v) :
    (text (String.ofList cs)).Denotes v := by
  rw [Denotes,asText,String.toList_ofList]
  exact h.denotes value

theorem Counts.respelled {n : Nat} (value : a.Counts n) : (text (String.ofList cs)).Counts n := by
  refine ⟨Denotes.respelled h value.1,?_⟩
  rw [asText,String.toList_ofList]
  exact fun minus => value.2 (h.minus_mem minus)

end Respelled
end Argument

namespace Workload

/-- Of the arguments only their texts are read. -/
theorem limit_congr_text {xs ys : List Argument} {l : Limit}
    (same : ys.map Argument.asText = xs.map Argument.asText) : limit ys l = limit xs l := by
  have htext : ys[l.index]?.map Argument.asText = xs[l.index]?.map Argument.asText := by
    rw [← List.getElem?_map,same,List.getElem?_map]
  unfold limit
  cases hx : xs[l.index]? <;> cases hy : ys[l.index]? <;> simp_all

theorem plan_congr_text {xs ys : List Argument}
    (same : ys.map Argument.asText = xs.map Argument.asText) : plan ys = plan xs := by
  have htext : ys[0]?.map Argument.asText = xs[0]?.map Argument.asText := by
    rw [← List.getElem?_map,same,List.getElem?_map]
  have hram : limit ys .ram = limit xs .ram := limit_congr_text same
  have hiterations : limit ys .iterations = limit xs .iterations := limit_congr_text same
  unfold plan
  cases hx : xs[0]? <;> cases hy : ys[0]? <;> simp_all

def reads : Workload → Nat
  | .sleep _ => 1
  | .compute _ _ => 3

/-- What may change about arguments that ask for a workload: the spelling of a numeral that is
read, the delay of a computation, and everything behind the arguments that are read. -/
inductive Changed : Workload → List Argument → List Argument → Prop
  | respelled {w : Workload} {xs : List Argument} {i : Nat} {a : Argument} {cs : List Char}
      (read : i < w.reads) (given : xs[i]? = some a)
      (spelling : Numeral.Respelled a.asText.toList cs) :
      Changed w xs (xs.set i (.text (String.ofList cs)))
  | delay {r k : UInt64} {xs : List Argument} {other : Argument} (negative : other.Negative) :
      Changed (.compute r k) xs (xs.set 0 other)
  | surplus {w : Workload} {xs : List Argument} (more : List Argument) :
      Changed w xs (xs.take w.reads ++ more)

theorem Changed.asked {w : Workload} {xs ys : List Argument} (h : Changed w xs ys)
    (asked : Asked xs w) : Asked ys w := by
  cases asked with
  | sleep value fits =>
    cases h with
    | respelled read given spelling =>
      obtain rfl := Nat.lt_one_iff.mp read
      obtain rfl := Option.some.inj given
      exact .sleep (value.respelled spelling) fits
    | surplus more => exact .sleep value fits
  | compute value negative fits ramValue ramLeast ramMost iterationsValue iterationsMost =>
    cases h with
    | @respelled _ _ i _ _ read given spelling =>
      -- The place decides whether the delay or one of the limits is spelled anew.
      match i with
      | 0 =>
        obtain rfl := Option.some.inj given
        exact .compute (value.respelled spelling) negative fits ramValue ramLeast ramMost
          iterationsValue iterationsMost
      | 1 =>
        obtain rfl := Option.some.inj given
        exact .compute value negative fits (ramValue.respelled spelling) ramLeast ramMost
          iterationsValue iterationsMost
      | 2 =>
        obtain rfl := Option.some.inj given
        exact .compute value negative fits ramValue ramLeast ramMost
          (iterationsValue.respelled spelling) iterationsMost
      | i + 3 => exact absurd read (Nat.not_lt_of_le (Nat.le_add_left 3 i))
    | delay other =>
      obtain ⟨v,hv,hneg⟩ := other
      exact .compute hv hneg v.le_toInt ramValue ramLeast ramMost iterationsValue iterationsMost
    | surplus more =>
      exact .compute value negative fits ramValue ramLeast ramMost iterationsValue iterationsMost

end Workload

namespace Event

theorem Lists.unique {v : Json} {xs ys : List Argument} (hx : Lists v xs) (hy : Lists v ys) :
    xs = ys := by
  obtain ⟨e,he,rfl⟩ := accept_complete hx
  obtain ⟨e',he',rfl⟩ := accept_complete hy
  rw [Except.ok.inj (he.symm.trans he')]

/-- What may change about an event that asks for a workload: its arguments, as long as they go on
asking for it, and its other members. -/
inductive Changed (w : Workload) : Json → Json → Prop
  | arguments {v v' : Json} {xs ys : List Argument} (before : Lists v xs) (change : w.Changed xs ys)
      (after : Lists v' ys) : Changed w v v'
  | others {members members' : Members}
      (same : members'.lookup argumentsKey = members.lookup argumentsKey) :
      Changed w (.object members) (.object members')

theorem Changed.asks {w : Workload} {v v' : Json} (h : Changed w v v') (asks : Asks v w) :
    Asks v' w := by
  obtain ⟨xs,hlists,hasked⟩ := asks
  cases h with
  | arguments before change after =>
    obtain rfl := hlists.unique before
    exact ⟨_,after,change.asked hasked⟩
  | others same =>
    obtain ⟨members,items,hv,hlookup,hitems,hencoded⟩ := hlists
    obtain rfl := Json.object.inj hv
    exact ⟨xs,⟨_,items,rfl,same.trans hlookup,hitems,hencoded⟩,hasked⟩

theorem asks_of_changes {w : Workload} {v v' : Json}
    (changes : Relation.ReflTransGen (Changed w) v v') (asks : Asks v w) : Asks v' w := by
  induction changes with
  | refl => exact asks
  | tail _ change ih => exact change.asks ih

end Event

namespace Request

def withEvent (r : Request) (v : Json) : Request := { r with event := v }

variable {r : Request} {v : Json} {w : Workload}

/-- Events that ask for the same workload are answered alike, on any two clocks. -/
theorem handle_withEvent (clock clock' : Timeline) (suspend : Answer) (c : Counter)
    (fits : r.overflows = false) (plan : r.workload = .ok w)
    (plan' : (r.withEvent v).workload = .ok w) :
    let h := r.handle clock suspend c
    let h' := (r.withEvent v).handle clock' suspend c
    (∃ result check, h.outcome = .response (.of result clock.total check) ∧
      h'.outcome = .response (.of result clock'.total check)) ∧
    h'.counter = h.counter ∧ h'.asked = h.asked := by
  have fits' : (r.withEvent v).overflows = false := fits
  cases w with
  | sleep ms =>
    cases hanswer : suspend (.ofMillis ms.toNat) r.budget with
    | ok u =>
      rw [handle_sleep_ok fits plan hanswer,handle_sleep_ok fits' plan' hanswer]
      exact ⟨⟨_,_,rfl,rfl⟩,rfl,rfl⟩
    | error i =>
      rw [handle_sleep_error fits plan hanswer,handle_sleep_error fits' plan' hanswer]
      exact ⟨⟨_,_,rfl,rfl⟩,rfl,rfl⟩
  | compute ram iterations =>
    rw [handle_compute fits plan,handle_compute fits' plan']
    exact ⟨⟨_,_,rfl,rfl⟩,rfl,rfl⟩

end Request

open Request

/-- Arguments are planned alike, faults and their texts included, when integers are replaced by
their decimals, which are read as those integers. An event that is answered keeps its workload
under any number of changes to the spelling of the numerals that are read, to the sign and size of
a negative delay, to what is behind the arguments that are read and to its other members; the
answers agree but for the time, and so do the counter and what the suspender is asked. -/
theorem spelling_and_surplus_are_ignored :
    (∀ n : Int64, Numeral.int64? (String.ofList (Numeral.decimal n.toInt)) = some n) ∧
    (∀ xs ys, List.Forall₂ Argument.Spelled xs ys → Workload.read ys = Workload.read xs) ∧
    (∀ (r : Request) (v : Json) (w : Workload) (response : Response) (clock clock' : Timeline)
      (suspend : Answer) (c : Counter),
      let h := r.handle clock suspend c
      let h' := (r.withEvent v).handle clock' suspend c
      h.outcome = .response response → r.workload = .ok w →
      Relation.ReflTransGen (Event.Changed w) r.event v →
      (r.withEvent v).workload = .ok w ∧
      (∃ response', h'.outcome = .response response' ∧ response'.result = response.result ∧
        response'.check = response.check) ∧
      h'.counter = h.counter ∧ h'.asked = h.asked) := by
  refine ⟨fun n => Numeral.int64?_eq_some_iff.mpr (Argument.integer_denotes n),?_,?_⟩
  · intro xs ys hspelled
    have hplan := Workload.plan_congr_text (Argument.map_asText_of_spelled hspelled)
    rw [Workload.read,Workload.read,hplan]
  · intro r v w response clock clock' suspend c h h' answered plan changes
    have fits : r.overflows = false := by
      cases hfull : r.overflows with
      | false => rfl
      | true => cases (congrArg Handled.outcome (handle_full hfull)).symm.trans answered
    have plan' : (r.withEvent v).workload = .ok w :=
      workload_eq_ok_iff.mpr (Event.asks_of_changes changes (workload_eq_ok_iff.mp plan))
    obtain ⟨⟨result,check,hresponse,hresponse'⟩,hcounter,hasked⟩ :=
      handle_withEvent clock clock' suspend c fits plan plan'
    obtain rfl := Outcome.response.inj (hresponse.symm.trans answered)
    exact ⟨plan',⟨_,hresponse',rfl,rfl⟩,hcounter,hasked⟩

/-- Another negative delay, the least there is, then zeros that make a limit longer than any word,
then a member more. -/
theorem padded_computation_is_answered_alike :
    let event : List Json → Json := fun items => .object [("worker_arguments",.array items)]
    let limit := "+00000000000000000000008"
    let v : Json := .object [("task",.null),
      ("worker_arguments",.array [.ofInt64 Int64.minValue,.string limit,.string "0"])]
    let r : Request := ⟨event [.string "-1",.string "+8",.string "0"],"a",none,true⟩
    let h := r.handle (.ofElapsed .zero) (fun _ _ => .ok ()) .zero
    let h' := (r.withEvent v).handle (.ofElapsed ⟨5000000⟩) (fun _ _ => .ok ()) .zero
    List.Forall₂ Argument.Spelled [.integer Int64.minValue] [.text "-9223372036854775808"] ∧
    Workload.read [.text "-9223372036854775808"] = Workload.read [.integer Int64.minValue] ∧
    h.outcome = .response (.of .success .zero "123") ∧ r.workload = .ok (.compute 8 0) ∧
    Relation.ReflTransGen (Event.Changed (.compute 8 0)) r.event v ∧
    (r.withEvent v).workload = .ok (.compute 8 0) ∧
    (∃ response', h'.outcome = .response response' ∧ response'.result = .success ∧
      response'.check = "123") ∧
    h'.counter = h.counter ∧ h'.asked = h.asked := by
  intro event limit v r h h'
  obtain ⟨-,hread,hchanged⟩ := spelling_and_surplus_are_ignored
  have hspelled : List.Forall₂ Argument.Spelled [.integer Int64.minValue]
      [.text "-9223372036854775808"] := .cons (.decimal Int64.minValue) .nil
  have hplan : r.workload = .ok (.compute 8 0) := by decide +kernel
  have hanswered : h.outcome = .response (.of .success .zero "123") := by decide +kernel
  let given : List Argument := [.text "-1",.text "+8",.text "0"]
  let delayed : List Argument := [.integer Int64.minValue,.text "+8",.text "0"]
  let padded : List Argument := [.integer Int64.minValue,.text limit,.text "0"]
  have hdelay : Workload.Changed (.compute 8 0) given delayed :=
    .delay ⟨Int64.minValue,Argument.integer_denotes _,by decide⟩
  have hzeros : Workload.Changed (.compute 8 0) delayed padded :=
    .respelled (i := 1) (by decide) rfl
      (@Numeral.Respelled.zeros ['+'] ['8'] (Or.inr (Or.inl rfl)) (Numeral.digits_toDigits 8) 22)
  have hgiven : Event.Lists r.event given :=
    ⟨_,_,rfl,rfl,nofun,.cons (.text _) (.cons (.text _) (.cons (.text _) .nil))⟩
  have hdelayed : Event.Lists (event [.ofInt64 Int64.minValue,.string "+8",.string "0"]) delayed :=
    ⟨_,_,rfl,rfl,nofun,.cons (.integer rfl) (.cons (.text _) (.cons (.text _) .nil))⟩
  have hpadded : Event.Lists (event [.ofInt64 Int64.minValue,.string limit,.string "0"]) padded :=
    ⟨_,_,rfl,rfl,nofun,.cons (.integer rfl) (.cons (.text _) (.cons (.text _) .nil))⟩
  have hchanges : Relation.ReflTransGen (Event.Changed (.compute 8 0)) r.event v :=
    .head (.arguments hgiven hdelay hdelayed)
      (.head (.arguments hdelayed hzeros hpadded) (.single (.others rfl)))
  obtain ⟨hplan',hresponse',hcounter,hasked⟩ := hchanged r v (.compute 8 0) _ (.ofElapsed .zero)
    (.ofElapsed ⟨5000000⟩) (fun _ _ => .ok ()) .zero hanswered hplan hchanges
  exact ⟨hspelled,hread _ _ hspelled,hanswered,hplan,hchanges,hplan',hresponse',hcounter,hasked⟩

end GridWorker
