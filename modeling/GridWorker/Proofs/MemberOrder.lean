import Mathlib.Data.String.Basic
import GridWorker.Proofs.ChainsAndTables
import GridWorker.Proofs.MemberLookup

/-! # Members in key order

Members whose keys ascend are determined by what is found under each key. Inserting keeps
them in order, so that sorting puts any members in order, and members in order stay as they
are. This makes the order of the writing and of the reading of objects irrelevant.
-/
namespace GridWorker.Members

def Ascending (ms : Members) : Prop := (ms.map Prod.fst).Pairwise (· < ·)

variable {ms ns : Members} {key k : String} {value : Json}

theorem ascending_cons {m : String × Json} :
    Ascending (m :: ms) ↔ (∀ n ∈ ms, m.1 < n.1) ∧ Ascending ms := by
  simp only [Ascending,List.map_cons,List.pairwise_cons,List.mem_map,forall_exists_index,and_imp,
    forall_apply_eq_imp_iff₂]

theorem lookup_eq_none_iff : ms.lookup key = none ↔ key ∉ ms.map Prod.fst := by
  rw [List.lookup_eq_none_iff]
  constructor
  · intro h hkey
    obtain ⟨m,hm,rfl⟩ := List.mem_map.mp hkey
    simpa using h m hm
  · intro h m hm
    have hne : key ≠ m.1 := by
      rintro rfl
      exact h (List.mem_map_of_mem hm)
    simpa using hne

/-- What is found under a key is the one member with that key. -/
theorem Ascending.lookup_eq_some_iff (h : Ascending ms) :
    ms.lookup key = some value ↔ (key,value) ∈ ms := by
  refine ⟨mem_of_lookup,?_⟩
  induction ms with
  | nil => intro hm; cases hm
  | cons m rest ih =>
    obtain ⟨hfirst,hrest⟩ := ascending_cons.mp h
    intro hm
    rw [lookup_cons]
    rcases List.mem_cons.mp hm with rfl | hm
    · exact if_pos rfl
    · rw [if_neg (ne_of_gt (hfirst _ hm))]
      exact ih hrest hm

theorem Ascending.nodup (h : Ascending ms) : ms.Nodup :=
  (List.pairwise_map.mp h).imp fun hlt heq => absurd (congrArg Prod.fst heq) (ne_of_lt hlt)

/-- Members in order are determined by what is found under each key. -/
theorem Ascending.ext (hms : Ascending ms) (hns : Ascending ns)
    (same : ∀ key, ms.lookup key = ns.lookup key) : ms = ns := by
  have hperm : ms.Perm ns := by
    rw [List.perm_ext_iff_of_nodup hms.nodup hns.nodup]
    rintro ⟨key,value⟩
    rw [← hms.lookup_eq_some_iff,← hns.lookup_eq_some_iff,same]
  have hunique : ∀ m n : String × Json, m ∈ ms → n ∈ ns → m.1 < n.1 → n.1 < m.1 → m = n :=
    fun m n _ _ hlt hgt => absurd hgt (lt_asymm hlt)
  exact hperm.eq_of_pairwise hunique (List.pairwise_map.mp hms) (List.pairwise_map.mp hns)

theorem mem_insert {m : String × Json} (h : m ∈ insert key value ms) :
    m = (key,value) ∨ m ∈ ms := by
  induction ms with
  | nil => exact Or.inl (List.mem_singleton.mp h)
  | cons n rest ih =>
    unfold insert at h
    split at h
    · exact List.mem_cons.mp h
    · split at h
      · rcases List.mem_cons.mp h with rfl | h
        · exact Or.inl rfl
        · exact Or.inr (List.mem_cons_of_mem _ h)
      · rcases List.mem_cons.mp h with rfl | h
        · exact Or.inr List.mem_cons_self
        · exact (ih h).imp_right (List.mem_cons_of_mem _)

theorem Ascending.insert (h : Ascending ms) : Ascending (insert key value ms) := by
  induction ms with
  | nil => exact List.pairwise_singleton _ _
  | cons m rest ih =>
    obtain ⟨hfirst,hrest⟩ := ascending_cons.mp h
    unfold Members.insert
    split
    · rename_i hlt
      refine ascending_cons.mpr ⟨?_,h⟩
      intro n hn
      rcases List.mem_cons.mp hn with rfl | hn
      · exact hlt
      · exact lt_trans hlt (hfirst n hn)
    · rename_i hle
      split
      · rename_i heq
        subst heq
        exact ascending_cons.mpr ⟨hfirst,hrest⟩
      · rename_i hne
        have hgt : m.1 < key := lt_of_le_of_ne (not_lt.mp hle) (Ne.symm hne)
        refine ascending_cons.mpr ⟨?_,ih hrest⟩
        intro n hn
        rcases mem_insert hn with rfl | hn
        · exact hgt
        · exact hfirst n hn

theorem ascending_sorted (ms : Members) : Ascending ms.sorted := by
  suffices h : ∀ done, Ascending done →
      Ascending (ms.foldl (fun done m => done.insert m.1 m.2) done) from h [] List.Pairwise.nil
  induction ms with
  | nil => exact fun done h => h
  | cons m rest ih => exact fun done h => ih _ h.insert

theorem Ascending.lookup_reverse (h : Ascending ms) (key : String) :
    ms.reverse.lookup key = ms.lookup key := by
  induction ms with
  | nil => rfl
  | cons m rest ih =>
    obtain ⟨hfirst,hrest⟩ := ascending_cons.mp h
    rw [List.reverse_cons,List.lookup_append,ih hrest,lookup_cons,lookup_cons]
    by_cases hk : key = m.1
    · have hnone : rest.lookup key = none := by
        refine lookup_eq_none_iff.mpr fun hmem => ?_
        obtain ⟨n,hn,heq⟩ := List.mem_map.mp hmem
        exact absurd (heq.trans hk) (ne_of_gt (hfirst n hn))
      simp [hk,hk ▸ hnone]
    · simp [hk]

/-- Members in order stay as they are. -/
theorem Ascending.sorted_eq (h : Ascending ms) : ms.sorted = ms :=
  (ascending_sorted ms).ext h fun key => by rw [lookup_sorted,h.lookup_reverse]

/-- In members sorted after one of them was put in front, the others are found first. -/
theorem Ascending.lookup_sorted_cons (h : Ascending ms) (key k : String) (value : Json) :
    (sorted ((key,value) :: ms)).lookup k =
      (ms.lookup k).or (if k = key then some value else none) := by
  rw [lookup_sorted,List.reverse_cons,List.lookup_append,h.lookup_reverse,lookup_cons,
    List.lookup_nil]

theorem Ascending.filter (h : Ascending ms) (p : String × Json → Bool) :
    Ascending (ms.filter p) :=
  List.Pairwise.sublist (List.filter_sublist.map _) h

theorem Ascending.without (h : Ascending ms) : Ascending (Members.without key ms) :=
  h.filter _

theorem lookup_without (key k : String) (ms : Members) :
    (without key ms).lookup k = if k = key then none else ms.lookup k := by
  induction ms with
  | nil => exact (ite_self none).symm
  | cons m rest ih =>
    by_cases hm : m.1 = key
    · have hrest : without key (m :: rest) = without key rest := by simp [without,hm]
      rw [hrest,ih,lookup_cons,hm]
      by_cases hk : k = key <;> simp [hk]
    · have hrest : without key (m :: rest) = m :: without key rest := by simp [without,hm]
      rw [hrest,lookup_cons,lookup_cons,ih]
      by_cases hk : k = m.1
      · simp [hk,hm]
      · simp only [if_neg hk]

end GridWorker.Members
