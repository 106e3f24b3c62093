import Mathlib.Data.List.Forall2
import GridWorker.Event

/-! # The arguments that a value lists

A JSON value lists arguments when it is an object whose key `worker_arguments` holds one
item or more, each a string or a whole number that 64 signed bits hold. These are the
values that are accepted as events, with these arguments.
-/
namespace GridWorker

namespace Argument

inductive Encoded : Json → Argument → Prop
  | text (s : String) : Encoded (.string s) (.text s)
  | integer {w : Whole} {n : Int64} (same : n.toInt = w.val) :
      Encoded (.number (.whole w)) (.integer n)

theorem ofJson?_sound {v : Json} {a : Argument} (h : ofJson? v = some a) : Encoded v a := by
  cases v with
  | string s =>
    obtain rfl := Option.some.inj h
    exact .text s
  | number x =>
    cases x with
    | whole w =>
      obtain ⟨n,hn,rfl⟩ := Option.map_eq_some_iff.mp h
      unfold Whole.toInt64? at hn
      split at hn
      · rename_i hmost
        obtain rfl := Option.some.inj hn
        exact .integer (Int64.toInt_ofInt_of_le w.min_le hmost)
      · cases hn
    | real x => cases h
  | null => cases h
  | bool b => cases h
  | array items => cases h
  | object members => cases h

theorem ofJson?_complete {v : Json} {a : Argument} (h : Encoded v a) : ofJson? v = some a := by
  cases h with
  | text s => rfl
  | @integer w n same =>
    have hmost : w.val < 0x8000000000000000 := same ▸ n.toInt_lt
    rw [ofJson?,Whole.toInt64?,if_pos hmost,← same,Int64.ofInt_toInt]
    rfl

theorem mapM_ofJson?_iff {items : List Json} {arguments : List Argument} :
    items.mapM ofJson? = some arguments ↔ List.Forall₂ Encoded items arguments := by
  constructor
  · intro h
    induction items generalizing arguments with
    | nil =>
      obtain rfl := Option.some.inj h
      exact .nil
    | cons item items ih =>
      rw [List.mapM_cons] at h
      obtain ⟨a,ha,h⟩ := Option.bind_eq_some_iff.mp h
      obtain ⟨rest,hrest,h⟩ := Option.bind_eq_some_iff.mp h
      obtain rfl := Option.some.inj h
      exact .cons (ofJson?_sound ha) (ih hrest)
  · intro h
    induction h with
    | nil => rfl
    | cons ha _ ih =>
      rw [List.mapM_cons,ofJson?_complete ha,ih]
      rfl

end Argument

namespace Event

/-- The value is an object that lists these arguments, one or more. -/
def Lists (v : Json) (arguments : List Argument) : Prop :=
  ∃ members items, v = .object members ∧ members.lookup argumentsKey = some (.array items) ∧
    items ≠ [] ∧ List.Forall₂ Argument.Encoded items arguments

theorem accept_sound {v : Json} {e : Event} (h : accept v = .ok e) : Lists v e.arguments := by
  unfold accept at h
  split at h
  · rename_i members
    split at h
    · cases h
    · cases h
    · rename_i item items hlookup
      cases he : ofJson? (.object members) with
      | none => simp [he] at h
      | some e' =>
        simp only [he,Except.ok.injEq] at h
        subst h
        simp only [ofJson?,hlookup] at he
        obtain ⟨arguments,hmap,rfl⟩ := Option.map_eq_some_iff.mp he
        exact ⟨members,item :: items,rfl,hlookup,List.cons_ne_nil _ _,
          Argument.mapM_ofJson?_iff.mp hmap⟩
    · cases h
  · cases h

theorem accept_complete {v : Json} {arguments : List Argument} (h : Lists v arguments) :
    ∃ e, accept v = .ok e ∧ e.arguments = arguments := by
  obtain ⟨members,items,rfl,hlookup,hitems,harguments⟩ := h
  cases items with
  | nil => exact absurd rfl hitems
  | cons item items =>
    have hmap := Argument.mapM_ofJson?_iff.mpr harguments
    have he : ofJson? (.object members) =
        some ⟨arguments,Members.without argumentsKey members⟩ := by
      simp only [ofJson?,hlookup,hmap,Option.map_some]
    refine ⟨⟨arguments,Members.without argumentsKey members⟩,?_,rfl⟩
    simp only [accept,hlookup,he]

end Event
end GridWorker
