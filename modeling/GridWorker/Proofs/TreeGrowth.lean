import GridWorker.FileTree
import GridWorker.Proofs.ChainsAndTables

/-! # How file trees change

Making directories only adds directories at places where nothing was, also when it fails half
way. Writing a file changes one place, which is no directory. Both keep every directory, so a
path that leads somewhere still leads there afterwards.
-/
namespace GridWorker
namespace FileTree

/-! ## Nodes and places -/

theorem lookup_filter_ne (nodes : List (Place × Node)) (p q : Place) (other : q ≠ p) :
    (nodes.filter (·.1 ≠ p)).lookup q = nodes.lookup q := by
  induction nodes with
  | nil => rfl
  | cons node nodes ih =>
    by_cases hp : node.1 = p
    · have hq : (q == node.1) = false := beq_false_of_ne (hp ▸ other)
      rw [List.filter_cons_of_neg (by simpa using hp),ih,List.lookup_cons,hq]
    · rw [List.filter_cons_of_pos (by simpa using hp),List.lookup_cons,List.lookup_cons,ih]

section Put
variable (t : FileTree) {p : Place} (n : Node)

theorem get?_put_self (below : p ≠ []) : (t.put p n).get? p = some n := by
  rw [get?,if_neg below,put,List.lookup_cons,beq_self_eq_true]

theorem get?_put_of_ne {q : Place} (other : q ≠ p) : (t.put p n).get? q = t.get? q := by
  have hq : (q == p) = false := beq_false_of_ne other
  rw [get?,get?,put,List.lookup_cons,hq]
  exact congrArg (ite (q = []) (some Node.directory) ·) (lookup_filter_ne t.nodes p q other)

end Put

/-- A later tree has every directory of an earlier one, and the same working directory. -/
structure Keeps (t t' : FileTree) : Prop where
  working : t'.working = t.working
  directories : ∀ q, t.get? q = some .directory → t'.get? q = some .directory

/-- A later tree differs from an earlier one in directories only, at places where nothing was. -/
structure Grown (t t' : FileTree) : Prop where
  working : t'.working = t.working
  nodes : ∀ q, t'.get? q = t.get? q ∨ t.get? q = none ∧ t'.get? q = some .directory

namespace Grown
variable {t t' t'' : FileTree}

theorem refl (t : FileTree) : t.Grown t := ⟨rfl,fun _ => .inl rfl⟩

theorem trans (h : t.Grown t') (h' : t'.Grown t'') : t.Grown t'' where
  working := h'.working.trans h.working
  nodes := by
    intro q
    rcases h.nodes q with hsame | ⟨hnone,hnew⟩
    · rw [← hsame]
      exact h'.nodes q
    · rcases h'.nodes q with hsame | ⟨hnone',-⟩
      · exact .inr ⟨hnone,hsame.trans hnew⟩
      · rw [hnew] at hnone'
        contradiction

theorem put (t : FileTree) {p : Place} (below : p ≠ []) (free : t.get? p = none) :
    t.Grown (t.put p .directory) where
  working := rfl
  nodes := by
    intro q
    by_cases hq : q = p
    · subst hq
      exact .inr ⟨free,t.get?_put_self .directory below⟩
    · exact .inl (t.get?_put_of_ne .directory hq)

/-- What was there is still there. -/
theorem kept (h : t.Grown t') {q : Place} {n : Node} (there : t.get? q = some n) :
    t'.get? q = some n := by
  rcases h.nodes q with hsame | ⟨hnone,-⟩
  · rw [hsame,there]
  · rw [there] at hnone
    contradiction

theorem keeps (h : t.Grown t') : t.Keeps t' := ⟨h.working,fun _ => h.kept⟩

end Grown

/-! ## Making directories -/

/-- A directory is made under a name that is free. -/
theorem makeDirectory_ok {t t' : FileTree} {path : FilePath}
    (made : t.makeDirectory path = .ok t') :
    ∃ parent name slash, t.locate path = .ok (.named parent name slash) ∧
      t.get? (parent ++ [name]) = none ∧ t' = t.put (parent ++ [name]) .directory := by
  rw [makeDirectory] at made
  obtain ⟨_ | ⟨parent,name,slash⟩,hspot,made⟩ := bind_eq_ok made
  · contradiction
  · dsimp only at made
    split at made
    · contradiction
    · split at made
      · contradiction
      · next free =>
        injection made with hmade
        exact ⟨parent,name,slash,hspot,free,hmade.symm⟩

theorem makeDirectory_grown {t t' : FileTree} {path : FilePath}
    (made : t.makeDirectory path = .ok t') : t.Grown t' := by
  obtain ⟨parent,name,-,-,free,rfl⟩ := makeDirectory_ok made
  exact .put t (List.append_ne_nil_of_right_ne_nil parent (List.cons_ne_nil name [])) free

theorem ensure_grown (t : FileTree) (path : FilePath) : t.Grown (t.ensure path).2 := by
  rw [ensure]
  split
  · next made => exact makeDirectory_grown made
  · exact .refl t

theorem makeAll_grown (t : FileTree) (paths : List FilePath) : t.Grown (t.makeAll paths).2 := by
  induction paths with
  | nil => exact .refl t
  | cons p above ih =>
    rw [makeAll]
    split
    · rcases hmade : t.makeAll above with ⟨f | _,t'⟩ <;> rw [hmade] at ih
      · exact ih
      · exact ih.trans (ensure_grown t' p)
    · exact ensure_grown t p

theorem makeDirectories_grown (t : FileTree) (path : String) :
    t.Grown (t.makeDirectories path).2 := by
  rw [makeDirectories]
  split
  · exact .refl t
  · split
    · exact .refl t
    · exact makeAll_grown t _

/-! ## Paths that lead somewhere -/

namespace Keeps
variable {t t' : FileTree} (h : t.Keeps t')
include h

theorem walk {p q : Place} {segments : List String} (leads : t.walk p segments = .ok q) :
    t'.walk p segments = .ok q := by
  induction segments generalizing p with
  | nil => exact leads
  | cons s rest ih =>
    rw [FileTree.walk] at leads ⊢
    by_cases hdot : s = "."
    · rw [if_pos hdot] at leads ⊢
      exact ih leads
    rw [if_neg hdot] at leads ⊢
    by_cases hup : s = ".."
    · rw [if_pos hup] at leads ⊢
      exact ih leads
    rw [if_neg hup] at leads ⊢
    by_cases hlong : maxName < s.utf8ByteSize
    · rw [if_pos hlong] at leads
      contradiction
    rw [if_neg hlong] at leads ⊢
    rcases hnode : t.get? (p ++ [s]) with _ | (_ | _) <;> rw [hnode] at leads
    · contradiction
    · rw [h.directories _ hnode]
      exact ih leads
    · contradiction

theorem start (absolute : Bool) : t'.start absolute = t.start absolute := by
  rw [FileTree.start,FileTree.start,h.working]

theorem locate {path : FilePath} {spot : Spot} (leads : t.locate path = .ok spot) :
    t'.locate path = .ok spot := by
  rw [FileTree.locate] at leads ⊢
  rw [h.start]
  cases hlast : path.segments.getLast? with
  | none =>
    rw [hlast] at leads
    exact leads
  | some last =>
    rw [hlast] at leads
    obtain ⟨parent,hparent,hspot⟩ := bind_eq_ok leads
    simp only [h.walk hparent]
    exact hspot

end Keeps

/-- A file that is written where no directory is leaves every directory. -/
theorem put_file_keeps (t : FileTree) {p : Place} (content : Bytes)
    (free : t.get? p ≠ some .directory) : t.Keeps (t.put p (.file content)) where
  working := rfl
  directories := by
    intro q hq
    have hother : q ≠ p := by
      rintro rfl
      exact free hq
    rw [t.get?_put_of_ne _ hother,hq]

end FileTree
end GridWorker
