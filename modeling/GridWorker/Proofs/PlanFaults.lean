import GridWorker.Proofs.ListedArguments
import GridWorker.Proofs.PlannedWorkloads

/-! # The first fault of arguments

Arguments that ask for no workload have one fault, the first that is met when they are read
from front to back. An argument is reached when those before it are in order, and once it is
reached its fault depends on nothing else. Different faults have different texts, whatever
text they quote, so the text of a refusal tells its fault.
-/
namespace GridWorker

def Argument.Negative (a : Argument) : Prop := ∃ v : Int64, a.Denotes v.toInt ∧ v.toInt < 0

theorem Argument.Counts.unique {a : Argument} {m n : UInt64} (hm : a.Counts m.toNat)
    (hn : a.Counts n.toNat) : m = n := by
  have hsame := hm.1.unique hn.1
  exact UInt64.toNat_inj.mp (by omega)

namespace Limit

/-- The faults of a limit, given what stands in its place. -/
inductive Faulty (l : Limit) (found : Option Argument) : PlanFault → Prop
  | missing (absent : found = none) : Faulty l found (.missing l)
  | malformed {a : Argument} (given : found = some a) (unread : ∀ n : UInt64, ¬ a.Counts n.toNat) :
      Faulty l found (.malformed l a.asText)
  | tooSmall {a : Argument} {n : UInt64} (given : found = some a) (value : a.Counts n.toNat)
      (below : n.toNat < l.least) : Faulty l found (.tooSmall l)
  | tooLarge {a : Argument} {n : UInt64} (given : found = some a) (value : a.Counts n.toNat)
      (above : l.most < n.toNat) : Faulty l found (.tooLarge l)

theorem least_le_most (l : Limit) : l.least ≤ l.most := by
  cases l <;> decide

end Limit

namespace Workload

theorem limit_eq_error_iff {arguments : List Argument} {l : Limit} {f : PlanFault} :
    limit arguments l = .error f ↔ l.Faulty arguments[l.index]? f := by
  constructor
  · intro h
    cases ha : arguments[l.index]? with
    | none =>
      simp only [limit,ha,Except.error.injEq] at h
      subst h
      exact .missing rfl
    | some a =>
      cases hn : Numeral.uint64? a.asText with
      | none =>
        simp only [limit,ha,hn,Except.error.injEq] at h
        subst h
        refine .malformed rfl ?_
        intro n hvalue
        cases hn.symm.trans (Numeral.uint64?_eq_some_iff.mpr hvalue)
      | some n =>
        have hvalue : a.Counts n.toNat := Numeral.uint64?_eq_some_iff.mp hn
        by_cases hleast : n.toNat < l.least
        · simp only [limit,ha,hn,hleast,if_true,Except.error.injEq] at h
          subst h
          exact .tooSmall rfl hvalue hleast
        · by_cases hmost : l.most < n.toNat
          · simp only [limit,ha,hn,hleast,hmost,if_true,if_false,Except.error.injEq] at h
            subst h
            exact .tooLarge rfl hvalue hmost
          · simp [limit,ha,hn,hleast,hmost] at h
  · intro h
    cases h with
    | missing absent => simp only [limit,absent]
    | @malformed a given unread =>
      cases hn : Numeral.uint64? a.asText with
      | none => simp only [limit,given,hn]
      | some n => exact absurd (Numeral.uint64?_eq_some_iff.mp hn) (unread n)
    | @tooSmall a n given value below =>
      have hn : Numeral.uint64? a.asText = some n := Numeral.uint64?_eq_some_iff.mpr value
      simp only [limit,given,hn,below,if_true]
    | @tooLarge a n given value above =>
      have hn : Numeral.uint64? a.asText = some n := Numeral.uint64?_eq_some_iff.mpr value
      have hleast : ¬ n.toNat < l.least := by
        have hle := l.least_le_most
        omega
      simp only [limit,given,hn,hleast,above,if_true,if_false]

/-- The arguments before the one of a limit are in order and call for it. -/
def Reaches (arguments : List Argument) : Limit → Prop
  | .ram => ∃ delay, arguments[0]? = some delay ∧ delay.Negative
  | .iterations => (∃ delay, arguments[0]? = some delay ∧ delay.Negative) ∧
      ∃ ram, arguments[1]? = some ram ∧
        ∃ r : UInt64, ram.Counts r.toNat ∧ 1 ≤ r.toNat ∧ r.toNat ≤ 8

/-- The first fault of arguments. -/
inductive Faulty (arguments : List Argument) : PlanFault → Prop
  | noDelay (empty : arguments = []) : Faulty arguments .noDelay
  | badDelay {delay : Argument} (given : arguments[0]? = some delay)
      (unread : ∀ v : Int64, ¬ delay.Denotes v.toInt) : Faulty arguments (.badDelay delay.asText)
  | badLimit {l : Limit} {f : PlanFault} (reached : Reaches arguments l)
      (fault : l.Faulty arguments[l.index]? f) : Faulty arguments f

theorem plan_of_negative {arguments : List Argument} {delay : Argument}
    (given : arguments[0]? = some delay) (negative : delay.Negative) :
    plan arguments = (limit arguments .ram).bind fun r =>
      (limit arguments .iterations).bind fun k => .ok (.compute r k) := by
  obtain ⟨v,hvalue,hneg⟩ := negative
  cases arguments with
  | nil => cases given
  | cons first rest =>
    obtain rfl := Option.some.inj given
    exact plan_of_neg (Numeral.int64?_eq_some_iff.mpr hvalue) (by omega)

theorem faulty_of_plan {arguments : List Argument} {f : PlanFault}
    (h : plan arguments = .error f) : Faulty arguments f := by
  cases arguments with
  | nil =>
    obtain rfl := Except.error.inj h
    exact .noDelay rfl
  | cons delay rest =>
    cases hd : Numeral.int64? delay.asText with
    | none =>
      simp only [plan,List.getElem?_cons_zero,hd,Except.error.injEq] at h
      subst h
      refine .badDelay rfl ?_
      intro v hvalue
      cases hd.symm.trans (Numeral.int64?_eq_some_iff.mpr hvalue)
    | some d =>
      by_cases h0 : 0 ≤ d.toInt
      · cases (plan_of_nonneg hd h0).symm.trans h
      · have negative : delay.Negative := ⟨d,Numeral.int64?_eq_some_iff.mp hd,by omega⟩
        have reached : Reaches (delay :: rest) .ram := ⟨delay,rfl,negative⟩
        rw [plan_of_neg hd h0] at h
        cases hr : limit (delay :: rest) .ram with
        | error g =>
          simp only [hr,Except.bind,Except.error.injEq] at h
          subst h
          exact .badLimit reached (limit_eq_error_iff.mp hr)
        | ok r =>
          cases hk : limit (delay :: rest) .iterations with
          | error g =>
            simp only [hr,hk,Except.bind,Except.error.injEq] at h
            subst h
            obtain ⟨ram,hram,hvalue,hleast,hmost⟩ := limit_sound hr
            have reached : Reaches (delay :: rest) .iterations :=
              ⟨reached,ram,hram,r,hvalue,hleast,hmost⟩
            exact .badLimit reached (limit_eq_error_iff.mp hk)
          | ok k => simp [hr,hk,Except.bind] at h

theorem plan_of_faulty {arguments : List Argument} {f : PlanFault} (h : Faulty arguments f) :
    plan arguments = .error f := by
  cases h with
  | noDelay empty =>
    subst empty
    rfl
  | @badDelay delay given unread =>
    cases hd : Numeral.int64? delay.asText with
    | none => simp only [plan,given,hd]
    | some d => exact absurd (Numeral.int64?_eq_some_iff.mp hd) (unread d)
  | @badLimit l f reached fault =>
    have hfault := limit_eq_error_iff.mpr fault
    cases l with
    | ram =>
      obtain ⟨delay,given,negative⟩ := reached
      rw [plan_of_negative given negative,hfault]
      rfl
    | iterations =>
      obtain ⟨⟨delay,given,negative⟩,ram,hram,r,hvalue,hleast,hmost⟩ := reached
      have hr : limit arguments .ram = .ok r := limit_complete hram hvalue hleast hmost
      rw [plan_of_negative given negative,hr,hfault]
      rfl

theorem plan_eq_error_iff {arguments : List Argument} {f : PlanFault} :
    plan arguments = .error f ↔ Faulty arguments f := ⟨faulty_of_plan,plan_of_faulty⟩

end Workload

namespace PlanFault

def kind : PlanFault → PlanFault
  | .badDelay _ => .badDelay ""
  | .malformed l _ => .malformed l ""
  | f => f

def quoted : PlanFault → String
  | .badDelay raw => raw
  | .malformed _ raw => raw
  | _ => ""

def opening : PlanFault → String
  | .badDelay _ => "Forced delay '"
  | .malformed l _ => l.label ++ " must be a non-negative integer, got '"
  | f => f.message

def closing : PlanFault → String
  | .badDelay _ => "' must be an integer number of milliseconds"
  | .malformed _ _ => "'"
  | _ => ""

theorem message_eq (f : PlanFault) : f.message = f.opening ++ f.quoted ++ f.closing := by
  cases f with
  | badDelay raw => rfl
  | malformed l raw => rfl
  | _ => exact (String.append_empty.trans String.append_empty).symm

theorem opening_kind (f : PlanFault) : f.kind.opening = f.opening := by
  cases f <;> rfl

theorem closing_kind (f : PlanFault) : f.kind.closing = f.closing := by
  cases f <;> rfl

theorem eq_of_kind {f g : PlanFault} (kind : f.kind = g.kind) (quoted : f.quoted = g.quoted) :
    f = g := by
  cases f <;> cases g <;> simp_all [PlanFault.kind,PlanFault.quoted]

def kinds : List PlanFault :=
  [.noDelay,.badDelay ""] ++ [Limit.ram,Limit.iterations].flatMap fun l =>
    [.missing l,.malformed l "",.tooSmall l,.tooLarge l]

theorem kind_mem (f : PlanFault) : f.kind ∈ kinds := by
  cases f with
  | noDelay => decide
  | badDelay raw => exact List.mem_cons_of_mem _ List.mem_cons_self
  | malformed l raw =>
    change PlanFault.malformed l "" ∈ kinds
    cases l <;> decide
  | missing l => cases l <;> decide
  | tooSmall l => cases l <;> decide
  | tooLarge l => cases l <;> decide

/-- No message opens as one of another kind does. -/
theorem kinds_apart : ∀ f ∈ kinds, ∀ g ∈ kinds,
    f.opening.toList <+: g.opening.toList → f = g := by
  decide +kernel

/-- Different faults have different texts. -/
theorem message_injective {f g : PlanFault} (h : f.message = g.message) : f = g := by
  have htext : f.opening.toList ++ (f.quoted.toList ++ f.closing.toList) =
      g.opening.toList ++ (g.quoted.toList ++ g.closing.toList) := by
    rw [message_eq,message_eq] at h
    simpa only [String.toList_append,List.append_assoc] using congrArg String.toList h
  have hkind : f.kind = g.kind := by
    rw [← opening_kind f,← opening_kind g] at htext
    rcases List.append_eq_append_iff.mp htext with ⟨more,hmore,-⟩ | ⟨more,hmore,-⟩
    · exact kinds_apart _ f.kind_mem _ g.kind_mem ⟨more,hmore.symm⟩
    · exact (kinds_apart _ g.kind_mem _ f.kind_mem ⟨more,hmore.symm⟩).symm
  refine eq_of_kind hkind ?_
  rw [← opening_kind f,← opening_kind g,← closing_kind f,← closing_kind g,hkind] at htext
  exact String.toList_inj.mp (List.append_cancel_right (List.append_cancel_left htext))

end PlanFault

namespace Workload

def read (arguments : List Argument) : Except String Workload :=
  (plan arguments).mapError PlanFault.message

section Read
variable {arguments : List Argument}

theorem read_eq_error_iff (f : PlanFault) :
    read arguments = .error f.message ↔ Faulty arguments f := by
  rw [← plan_eq_error_iff,read]
  cases plan arguments with
  | ok w => simp [Except.mapError]
  | error g =>
    simp only [Except.mapError,Except.error.injEq]
    exact ⟨PlanFault.message_injective,congrArg _⟩

theorem read_eq_ok_iff {w : Workload} : read arguments = .ok w ↔ Asked arguments w := by
  rw [← plan_eq_ok_iff,read]
  cases plan arguments with
  | ok w' => simp [Except.mapError]
  | error g => simp [Except.mapError]

theorem read_noDelay_iff : read arguments = .error PlanFault.noDelay.message ↔ arguments = [] := by
  rw [read_eq_error_iff]
  constructor
  · intro h
    cases h with
    | noDelay empty => exact empty
    | badLimit reached fault => cases fault
  · exact .noDelay

theorem read_badDelay_iff {raw : String} :
    read arguments = .error (PlanFault.badDelay raw).message ↔
      ∃ delay, arguments[0]? = some delay ∧ delay.asText = raw ∧
        ∀ v : Int64, ¬ delay.Denotes v.toInt := by
  rw [read_eq_error_iff]
  constructor
  · intro h
    cases h with
    | badDelay given unread => exact ⟨_,given,rfl,unread⟩
    | badLimit reached fault => cases fault
  · rintro ⟨delay,given,rfl,unread⟩
    exact .badDelay given unread

variable (l : Limit)

theorem read_missing_iff : read arguments = .error (PlanFault.missing l).message ↔
    Reaches arguments l ∧ arguments[l.index]? = none := by
  rw [read_eq_error_iff]
  constructor
  · intro h
    cases h with
    | badLimit reached fault =>
      cases fault with
      | missing absent => exact ⟨reached,absent⟩
  · rintro ⟨reached,absent⟩
    exact .badLimit reached (.missing absent)

theorem read_malformed_iff {raw : String} :
    read arguments = .error (PlanFault.malformed l raw).message ↔ Reaches arguments l ∧
      ∃ a, arguments[l.index]? = some a ∧ a.asText = raw ∧ ∀ n : UInt64, ¬ a.Counts n.toNat := by
  rw [read_eq_error_iff]
  constructor
  · intro h
    cases h with
    | badLimit reached fault =>
      cases fault with
      | malformed given unread => exact ⟨reached,_,given,rfl,unread⟩
  · rintro ⟨reached,a,given,rfl,unread⟩
    exact .badLimit reached (.malformed given unread)

theorem read_tooSmall_iff : read arguments = .error (PlanFault.tooSmall l).message ↔
    Reaches arguments l ∧ ∃ a, arguments[l.index]? = some a ∧
      ∃ n : UInt64, a.Counts n.toNat ∧ n.toNat < l.least := by
  rw [read_eq_error_iff]
  constructor
  · intro h
    cases h with
    | badLimit reached fault =>
      cases fault with
      | tooSmall given value below => exact ⟨reached,_,given,_,value,below⟩
  · rintro ⟨reached,a,given,n,value,below⟩
    exact .badLimit reached (.tooSmall given value below)

theorem read_tooLarge_iff : read arguments = .error (PlanFault.tooLarge l).message ↔
    Reaches arguments l ∧ ∃ a, arguments[l.index]? = some a ∧
      ∃ n : UInt64, a.Counts n.toNat ∧ l.most < n.toNat := by
  rw [read_eq_error_iff]
  constructor
  · intro h
    cases h with
    | badLimit reached fault =>
      cases fault with
      | tooLarge given value above => exact ⟨reached,_,given,_,value,above⟩
  · rintro ⟨reached,a,given,n,value,above⟩
    exact .badLimit reached (.tooLarge given value above)

theorem read_sleep_iff {ms : UInt64} : read arguments = .ok (.sleep ms) ↔
    ∃ delay, arguments[0]? = some delay ∧ delay.Denotes ms.toNat ∧
      ms.toNat ≤ 0x7fffffffffffffff := by
  rw [read_eq_ok_iff]
  constructor
  · intro h
    cases h with
    | sleep value fits => exact ⟨_,rfl,value,Nat.le_of_lt_succ fits⟩
  · rintro ⟨delay,given,value,fits⟩
    cases arguments with
    | nil => cases given
    | cons first rest =>
      obtain rfl := Option.some.inj given
      exact .sleep value (Nat.lt_succ_of_le fits)

theorem read_compute_iff {r k : UInt64} : read arguments = .ok (.compute r k) ↔
    Reaches arguments .ram ∧
    (∃ ram, arguments[1]? = some ram ∧ ram.Counts r.toNat ∧ 1 ≤ r.toNat ∧ r.toNat ≤ 8) ∧
    ∃ iterations, arguments[2]? = some iterations ∧ iterations.Counts k.toNat ∧
      k.toNat ≤ 1000 := by
  rw [read_eq_ok_iff]
  constructor
  · intro h
    cases h with
    | compute value negative fits ramValue ramLeast ramMost iterationsValue iterationsMost =>
      obtain ⟨v,hread,rfl⟩ := value.exists_int64? fits (by omega)
      exact ⟨⟨_,rfl,v,Numeral.int64?_eq_some_iff.mp hread,negative⟩,
        ⟨_,rfl,ramValue,ramLeast,ramMost⟩,_,rfl,iterationsValue,iterationsMost⟩
  · rintro ⟨⟨delay,given,negative⟩,⟨ram,hram,ramValue,ramLeast,ramMost⟩,iterations,hiterations,
      iterationsValue,iterationsMost⟩
    have hr : limit arguments .ram = .ok r := limit_complete hram ramValue ramLeast ramMost
    have hk : limit arguments .iterations = .ok k :=
      limit_complete hiterations iterationsValue (Nat.zero_le _) iterationsMost
    rw [← plan_eq_ok_iff,plan_of_negative given negative,hr,hk]
    rfl

end Read

theorem limit_congr {xs ys : List Argument} {l : Limit} (same : xs[l.index]? = ys[l.index]?) :
    limit xs l = limit ys l := by
  simp only [limit,same]

/-- Three arguments are read at most. -/
theorem plan_congr {xs ys : List Argument} (same : ∀ i < 3, xs[i]? = ys[i]?) :
    plan xs = plan ys := by
  have hdelay : xs[0]? = ys[0]? := same 0 (by decide)
  have hram : limit xs .ram = limit ys .ram := limit_congr (same 1 (by decide))
  have hiterations : limit xs .iterations = limit ys .iterations :=
    limit_congr (same 2 (by decide))
  simp only [plan,hdelay,hram,hiterations]

theorem plan_take (arguments : List Argument) : plan (arguments.take 3) = plan arguments :=
  plan_congr fun _ hi => List.getElem?_take_of_lt hi

end Workload

theorem Event.arguments_ne_nil {v : Json} {e : Event} (h : accept v = .ok e) :
    e.arguments ≠ [] := by
  obtain ⟨members,items,-,-,hitems,hencoded⟩ := accept_sound h
  intro hnil
  rw [hnil,List.forall₂_nil_right_iff] at hencoded
  exact hitems hencoded

open Workload

/-- Planning answers with the first fault that is met when the arguments are read from front to
back, each fault by its own text, and otherwise with the workload that they ask for. An accepted
event has a delay, and nothing beyond the third argument is read. -/
theorem first_fault_is_named (arguments : List Argument) :
    (read arguments = .error "Forced delay argument is required" ↔ arguments = []) ∧
    (∀ raw, read arguments =
        .error ("Forced delay '" ++ raw ++ "' must be an integer number of milliseconds") ↔
      ∃ delay, arguments[0]? = some delay ∧ delay.asText = raw ∧
        ∀ v : Int64, ¬ delay.Denotes v.toInt) ∧
    (∀ ms, read arguments = .ok (.sleep ms) ↔
      ∃ delay, arguments[0]? = some delay ∧ delay.Denotes ms.toNat ∧
        ms.toNat ≤ 0x7fffffffffffffff) ∧
    (read arguments =
        .error "Argument 1 (ram_limit_gb) is required when the forced delay is negative" ↔
      Reaches arguments .ram ∧ arguments[1]? = none) ∧
    (∀ raw, read arguments = .error
        ("Argument 1 (ram_limit_gb) must be a non-negative integer, got '" ++ raw ++ "'") ↔
      Reaches arguments .ram ∧ ∃ ram, arguments[1]? = some ram ∧ ram.asText = raw ∧
        ∀ n : UInt64, ¬ ram.Counts n.toNat) ∧
    (read arguments = .error "ram_limit_gb must be a positive integer" ↔
      Reaches arguments .ram ∧ ∃ ram, arguments[1]? = some ram ∧ ram.Counts 0) ∧
    (read arguments = .error "ram_limit_gb must be at most 8" ↔
      Reaches arguments .ram ∧ ∃ ram, arguments[1]? = some ram ∧
        ∃ n : UInt64, ram.Counts n.toNat ∧ 8 < n.toNat) ∧
    (read arguments =
        .error "Argument 2 (iter_limit_millions) is required when the forced delay is negative" ↔
      Reaches arguments .iterations ∧ arguments[2]? = none) ∧
    (∀ raw, read arguments = .error
        ("Argument 2 (iter_limit_millions) must be a non-negative integer, got '" ++ raw ++ "'") ↔
      Reaches arguments .iterations ∧ ∃ iterations, arguments[2]? = some iterations ∧
        iterations.asText = raw ∧ ∀ n : UInt64, ¬ iterations.Counts n.toNat) ∧
    (read arguments = .error "iter_limit_millions must be at most 1000" ↔
      Reaches arguments .iterations ∧ ∃ iterations, arguments[2]? = some iterations ∧
        ∃ n : UInt64, iterations.Counts n.toNat ∧ 1000 < n.toNat) ∧
    (∀ r k, read arguments = .ok (.compute r k) ↔ Reaches arguments .ram ∧
      (∃ ram, arguments[1]? = some ram ∧ ram.Counts r.toNat ∧ 1 ≤ r.toNat ∧ r.toNat ≤ 8) ∧
      ∃ iterations, arguments[2]? = some iterations ∧ iterations.Counts k.toNat ∧
        k.toNat ≤ 1000) ∧
    read (arguments.take 3) = read arguments ∧
    (∀ v e, Event.accept v = .ok e →
      read e.arguments ≠ .error "Forced delay argument is required") := by
  refine ⟨read_noDelay_iff,fun _ => read_badDelay_iff,fun _ => read_sleep_iff,
    read_missing_iff .ram,fun _ => read_malformed_iff .ram,?_,read_tooLarge_iff .ram,
    read_missing_iff .iterations,fun _ => read_malformed_iff .iterations,
    read_tooLarge_iff .iterations,fun _ _ => read_compute_iff,?_,?_⟩
  · have hzero : ∀ a : Argument,
        (∃ n : UInt64, a.Counts n.toNat ∧ n.toNat < Limit.ram.least) ↔ a.Counts 0 := by
      intro a
      constructor
      · rintro ⟨n,hvalue,hbelow⟩
        rwa [Nat.lt_one_iff.mp hbelow] at hvalue
      · intro hvalue
        exact ⟨0,hvalue,Nat.zero_lt_one⟩
    refine (read_tooSmall_iff .ram).trans ?_
    simp only [hzero]
    rfl
  · exact congrArg (Except.mapError PlanFault.message) (plan_take arguments)
  · intro v e haccept hread
    exact Event.arguments_ne_nil haccept (read_noDelay_iff.mp hread)

/-- An accepted event whose second argument has a sign and zeros too many, but no third one. -/
theorem missing_third_argument_is_named :
    let v : Json := .object [("worker_arguments",.array [.string "-0007",.string "+008"])]
    let e : Event := ⟨[.text "-0007",.text "+008"],[]⟩
    Event.accept v = .ok e ∧ read e.arguments ≠ .error "Forced delay argument is required" ∧
      read e.arguments = .error
        "Argument 2 (iter_limit_millions) is required when the forced delay is negative" := by
  intro v e
  have haccept : Event.accept v = .ok e := rfl
  obtain ⟨-,-,-,-,-,-,-,hmissing,-,-,-,-,hdelay⟩ := first_fault_is_named e.arguments
  have hreached : Reaches e.arguments .iterations := by
    refine ⟨⟨_,rfl,-7,?_,by decide⟩,_,rfl,8,?_,by decide⟩
    · exact Numeral.int64?_eq_some_iff.mp (by decide)
    · exact Numeral.uint64?_eq_some_iff.mp (by decide)
  exact ⟨haccept,hdelay v e haccept,hmissing.mpr ⟨hreached,rfl⟩⟩

end GridWorker
