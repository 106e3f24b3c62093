import GridWorker.Workload
import GridWorker.Proofs.NumeralValues

/-! # What arguments ask for

Arguments ask for a sleep or a computation by the numbers that they denote, and what
stands behind the arguments that are read is of no account. A workload is planned exactly
when it is asked for.
-/
namespace GridWorker

def Argument.Denotes (a : Argument) (v : Int) : Prop := Numeral.Denotes a.asText.toList v

/-- The argument is a numeral of this number, without `-`. -/
def Argument.Counts (a : Argument) (n : Nat) : Prop := a.Denotes n ∧ '-' ∉ a.asText.toList

inductive Workload.Asked : List Argument → Workload → Prop
  | sleep {delay : Argument} {rest : List Argument} {ms : UInt64} (value : delay.Denotes ms.toNat)
      (fits : ms.toNat < 0x8000000000000000) : Asked (delay :: rest) (.sleep ms)
  | compute {delay ram iterations : Argument} {rest : List Argument} {v : Int} {r k : UInt64}
      (value : delay.Denotes v) (negative : v < 0) (fits : -0x8000000000000000 ≤ v)
      (ramValue : ram.Counts r.toNat) (ramLeast : 1 ≤ r.toNat) (ramMost : r.toNat ≤ 8)
      (iterationsValue : iterations.Counts k.toNat) (iterationsMost : k.toNat ≤ 1000) :
      Asked (delay :: ram :: iterations :: rest) (.compute r k)

namespace Workload

theorem limit_sound {arguments : List Argument} {l : Limit} {n : UInt64}
    (h : limit arguments l = .ok n) : ∃ a, arguments[l.index]? = some a ∧ a.Counts n.toNat ∧
      l.least ≤ n.toNat ∧ n.toNat ≤ l.most := by
  cases ha : arguments[l.index]? with
  | none => simp [limit,ha] at h
  | some a =>
    cases hn : Numeral.uint64? a.asText with
    | none => simp [limit,ha,hn] at h
    | some m =>
      by_cases hleast : m.toNat < l.least
      · simp [limit,ha,hn,hleast] at h
      · by_cases hmost : l.most < m.toNat
        · simp [limit,ha,hn,hleast,hmost] at h
        · simp only [limit,ha,hn,hleast,hmost,if_false,Except.ok.injEq] at h
          subst h
          exact ⟨a,rfl,Numeral.uint64?_eq_some_iff.mp hn,Nat.le_of_not_lt hleast,
            Nat.le_of_not_lt hmost⟩

theorem limit_complete {arguments : List Argument} {l : Limit} {n : UInt64} {a : Argument}
    (ha : arguments[l.index]? = some a) (hn : a.Counts n.toNat) (hleast : l.least ≤ n.toNat)
    (hmost : n.toNat ≤ l.most) : limit arguments l = .ok n := by
  have hread : Numeral.uint64? a.asText = some n := Numeral.uint64?_eq_some_iff.mpr hn
  simp only [limit,ha,hread,Nat.not_lt_of_le hleast,Nat.not_lt_of_le hmost,if_false]

/-- A delay from zero on plans a sleep. -/
theorem plan_of_nonneg {delay : Argument} {rest : List Argument} {d : Int64}
    (hd : Numeral.int64? delay.asText = some d) (h0 : 0 ≤ d.toInt) :
    plan (delay :: rest) = .ok (.sleep (UInt64.ofNat d.toInt.toNat)) := by
  simp only [plan,List.getElem?_cons_zero,hd,if_pos h0]

/-- A delay below zero plans what the two limits say, the first fault first. -/
theorem plan_of_neg {delay : Argument} {rest : List Argument} {d : Int64}
    (hd : Numeral.int64? delay.asText = some d) (h0 : ¬ 0 ≤ d.toInt) :
    plan (delay :: rest) = (limit (delay :: rest) .ram).bind fun r =>
      (limit (delay :: rest) .iterations).bind fun k => .ok (.compute r k) := by
  simp only [plan,List.getElem?_cons_zero,hd,if_neg h0]
  rfl

theorem asked_of_limits {delay : Argument} {rest : List Argument} {v : Int} {r k : UInt64}
    (value : delay.Denotes v) (negative : v < 0) (fits : -0x8000000000000000 ≤ v)
    (hr : limit (delay :: rest) .ram = .ok r) (hk : limit (delay :: rest) .iterations = .ok k) :
    Asked (delay :: rest) (.compute r k) := by
  obtain ⟨ram,hram,ramValue,ramLeast,ramMost⟩ := limit_sound hr
  obtain ⟨iterations,hiterations,iterationsValue,-,iterationsMost⟩ := limit_sound hk
  cases rest with
  | nil => cases hram
  | cons a rest =>
    obtain rfl := Option.some.inj hram
    cases rest with
    | nil => cases hiterations
    | cons b rest =>
      obtain rfl := Option.some.inj hiterations
      exact .compute value negative fits ramValue ramLeast ramMost iterationsValue iterationsMost

theorem plan_sound {arguments : List Argument} {w : Workload} (h : plan arguments = .ok w) :
    Asked arguments w := by
  cases arguments with
  | nil => cases h
  | cons delay rest =>
    cases hd : Numeral.int64? delay.asText with
    | none => simp [plan,hd] at h
    | some d =>
      have hvalue : delay.Denotes d.toInt := Numeral.int64?_eq_some_iff.mp hd
      by_cases h0 : 0 ≤ d.toInt
      · -- a delay that is not negative fits the unsigned word of the workload
        have hmost := d.toInt_lt
        have hword : (UInt64.ofNat d.toInt.toNat).toNat = d.toInt.toNat :=
          UInt64.toNat_ofNat_of_lt' (by simp only [UInt64.size]; omega)
        rw [plan_of_nonneg hd h0] at h
        obtain rfl := Except.ok.inj h
        refine .sleep ?_ (by omega)
        rwa [hword,Int.toNat_of_nonneg h0]
      · rw [plan_of_neg hd h0] at h
        cases hr : limit (delay :: rest) .ram with
        | error f => simp [hr,Except.bind] at h
        | ok r =>
          cases hk : limit (delay :: rest) .iterations with
          | error f => simp [hr,hk,Except.bind] at h
          | ok k =>
            simp only [hr,hk,Except.bind,Except.ok.injEq] at h
            subst h
            exact asked_of_limits hvalue (by omega) d.le_toInt hr hk

theorem plan_complete {arguments : List Argument} {w : Workload} (h : Asked arguments w) :
    plan arguments = .ok w := by
  cases h with
  | @sleep delay rest ms value fits =>
    obtain ⟨d,hd,hvalue⟩ := value.exists_int64? (by omega) (by omega)
    have h0 : 0 ≤ d.toInt := by omega
    rw [plan_of_nonneg hd h0,hvalue,Int.toNat_natCast,UInt64.ofNat_toNat]
  | @compute delay ram iterations rest v r k value negative fits ramValue ramLeast ramMost
      iterationsValue iterationsMost =>
    obtain ⟨d,hd,hvalue⟩ := value.exists_int64? fits (by omega)
    have h0 : ¬ 0 ≤ d.toInt := by omega
    have hr : limit (delay :: ram :: iterations :: rest) .ram = .ok r :=
      limit_complete rfl ramValue ramLeast ramMost
    have hk : limit (delay :: ram :: iterations :: rest) .iterations = .ok k :=
      limit_complete rfl iterationsValue (Nat.zero_le _) iterationsMost
    rw [plan_of_neg hd h0,hr,hk]
    rfl

theorem plan_eq_ok_iff {arguments : List Argument} {w : Workload} :
    plan arguments = .ok w ↔ Asked arguments w := ⟨plan_sound,plan_complete⟩

end Workload
end GridWorker
