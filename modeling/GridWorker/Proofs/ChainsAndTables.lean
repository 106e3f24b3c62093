/-! # Chains and tables

Steps that may fail, taken one after the other, and tables in which a value is looked up by its
name.
-/
namespace GridWorker

section Chain
variable {ε α β : Type} {x : Except ε α}

/-- Two steps in a row succeed when each of them does. -/
theorem bind_eq_ok {f : α → Except ε β} {b : β} (h : (x >>= f) = .ok b) :
    ∃ a, x = .ok a ∧ f a = .ok b := by
  cases x with
  | error e => contradiction
  | ok a => exact ⟨a,rfl,h⟩

/-- What follows a step matters only where the step succeeds. -/
theorem bind_congr_ok {f g : α → Except ε β} (h : ∀ a, x = .ok a → f a = g a) :
    x >>= f = x >>= g := by
  cases x with
  | error e => rfl
  | ok a => exact h a rfl

/-- A step that changes a state is followed by the next one in the state that it leaves. -/
theorem run_then {ε σ : Type} (x y : ExceptT ε (StateM σ) Unit) (s : σ) :
    (x >>= fun _ => y).run.run s =
      match x.run.run s with
      | (.ok (),s') => y.run.run s'
      | (.error e,s') => (.error e,s') := by
  rw [ExceptT.run_bind,StateT.run_bind]
  rcases x.run.run s with ⟨e | _,s'⟩ <;> rfl

end Chain

section Table
variable {β : Type} {ps : List (String × β)} {name : String} {value : β}

theorem mem_of_lookup (h : ps.lookup name = some value) : (name,value) ∈ ps := by
  obtain ⟨_,_,rfl,_⟩ := List.lookup_eq_some_iff.mp h
  exact List.mem_append_right _ List.mem_cons_self

theorem lookup_isSome_iff : (ps.lookup name).isSome = true ↔ name ∈ ps.map Prod.fst := by
  rw [List.lookup_isSome_iff,List.mem_map]
  simp only [beq_iff_eq,@eq_comm _ name]

/-- A table stays without repeats when a new name is added. -/
theorem names_nodup_concat {p : String × β} (h : (ps.map Prod.fst).Nodup)
    (fresh : p.1 ∉ ps.map Prod.fst) : ((ps ++ [p]).map Prod.fst).Nodup := by
  rw [List.map_append,List.map_singleton,List.nodup_append]
  refine ⟨h,List.pairwise_singleton _ _,?_⟩
  rintro a ha b hb rfl
  exact fresh (List.mem_singleton.mp hb ▸ ha)

end Table
end GridWorker
