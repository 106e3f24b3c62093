import GridWorker.Log

/-! # Looking up members

Putting a member in its place changes what is found under its key and nothing else,
whether or not the members stand in order. What is found in sorted members is
therefore the last of the members with that key. The details of a log record are read
through their keys.
-/
namespace GridWorker

theorem Members.lookup_cons (key k : String) (value : Json) (ms : Members) :
    List.lookup k ((key,value) :: ms) = if k = key then some value else ms.lookup k := by
  by_cases hk : k = key
  · simp [hk]
  · rw [List.lookup_cons,beq_false_of_ne hk,if_neg hk]

/-- Insertion changes exactly one key. No order of the members is assumed. -/
theorem Members.lookup_insert (key k : String) (value : Json) (ms : Members) :
    (Members.insert key value ms).lookup k = if k = key then some value else ms.lookup k := by
  induction ms with
  | nil => exact Members.lookup_cons key k value []
  | cons m rest ih =>
    rcases m with ⟨k',v⟩
    by_cases hlt : key < k'
    · simp only [Members.insert,if_pos hlt,Members.lookup_cons]
    · by_cases heq : key = k'
      · subst k'
        by_cases hk : k = key <;> simp [Members.insert,Members.lookup_cons,hk]
      · simp only [Members.insert,if_neg hlt,if_neg heq,Members.lookup_cons,ih]
        by_cases hk : k = k'
        · simp [hk,Ne.symm heq]
        · simp only [if_neg hk]

theorem Members.lookup_foldl_insert (ms done : Members) (k : String) :
    (ms.foldl (fun done m => done.insert m.1 m.2) done).lookup k =
      (ms.reverse.lookup k).or (done.lookup k) := by
  induction ms generalizing done with
  | nil => simp
  | cons m rest ih =>
    rw [List.foldl_cons,ih,Members.lookup_insert,List.reverse_cons,List.lookup_append,
      Members.lookup_cons]
    by_cases hk : k = m.1 <;> cases rest.reverse.lookup k <;> simp [hk]

/-- Of several members with one key the last is found. -/
@[simp] theorem Members.lookup_sorted (ms : Members) (k : String) :
    ms.sorted.lookup k = ms.reverse.lookup k := by
  simp [Members.sorted,Members.lookup_foldl_insert]

namespace LogRecord

def detail? (r : LogRecord) (key : String) : Option Json :=
  match r.details with
  | .object ms => ms.lookup key
  | _ => none

/-- The details of a record made of members are read through the members as given. -/
theorem detail?_record (component event : String) (level : Level) (ms : Members) (key : String) :
    detail? ⟨component,event,level,.record ms⟩ key = ms.reverse.lookup key := by
  simp [detail?,Json.record]

end LogRecord
end GridWorker
