import GridWorker.Log
import GridWorker.Proofs.TextCodes

/-! # Log lines

No control character stands in the text of a value, so the newline at the end of a line is the
only one in it, and a log cut at its newlines falls into its records. A line is the text of one
object and of no other value, whatever the details hold.
-/
namespace GridWorker

theorem Token.text_least {t : Token} : ∀ c ∈ t.text, 0x20 ≤ c.toNat := by
  cases t with
  | bool b => cases b <;> simp [text]
  | number n => exact fun c hc => (n.text_plain c hc).least
  | string s =>
    simp only [text,List.cons_append,List.forall_mem_cons,List.forall_mem_append]
    exact ⟨by decide,fun c hc => Quoted.escape_least hc,by simp⟩
  | _ => simp [text]

/-- No control character stands in the text of a value. -/
theorem Json.text_least {v : Json} : ∀ c ∈ v.text.toList, 0x20 ≤ c.toNat := by
  intro c hc
  rw [text,String.toList_ofList] at hc
  obtain ⟨t,-,ht⟩ := List.mem_flatMap.mp hc
  exact t.text_least c ht

namespace LogRecord
variable {r s : LogRecord} {timestamp timestamp' : String}

def members (r : LogRecord) (timestamp : String) : Members :=
  [("component",.string r.component),("details",r.details),("event",.string r.event)] ++
    (if r.level = .error then [("level",.string "error")] else []) ++
      [("timestamp",.string timestamp)]

theorem toJson_eq (r : LogRecord) (timestamp : String) :
    r.toJson timestamp = .object (r.members timestamp) := by
  cases hlevel : r.level with
  | info =>
    simp only [toJson,members,hlevel,reduceCtorEq,if_false,List.append_nil,List.cons_append,
      List.nil_append,Json.record,Members.sorted,Members.insert,List.foldl_cons,List.foldl_nil,
      String.reduceLT,String.reduceEq,if_true]
  | error =>
    simp only [toJson,members,hlevel,if_true,List.cons_append,List.nil_append,Json.record,
      Members.sorted,Members.insert,List.foldl_cons,List.foldl_nil,String.reduceLT,String.reduceEq,
      if_false]

theorem members_inj (h : r.members timestamp = s.members timestamp') :
    r = s ∧ timestamp = timestamp' := by
  obtain ⟨component,event,level,details⟩ := r
  obtain ⟨component',event',level',details'⟩ := s
  -- the levels agree because the members of an error are one more
  cases level <;> cases level' <;> simp_all [members]

theorem ascending_members (r : LogRecord) (timestamp : String) :
    Members.Ascending (r.members timestamp) := by
  have hkeys : (r.members timestamp).map Prod.fst = ["component","details","event"] ++
      (if r.level = .error then ["level"] else []) ++ ["timestamp"] := by
    unfold members
    split <;> rfl
  rw [Members.Ascending,hkeys]
  split <;> decide

/-- The line of a record is the text of this one value. -/
theorem line_eq_iff {v : Json} :
    r.line timestamp = v.text ++ "\n" ↔ v = .object (r.members timestamp) := by
  rw [line,toJson_eq]
  constructor
  · intro h
    have hchars := congrArg String.toList h
    rw [String.toList_append,String.toList_append] at hchars
    exact Json.text_injective (String.toList_injective (List.append_cancel_right hchars)).symm
  · rintro rfl
    rfl

theorem line_inj (h : r.line timestamp = s.line timestamp') : r = s ∧ timestamp = timestamp' := by
  have hvalue : s.toJson timestamp' = .object (r.members timestamp) := line_eq_iff.mp h
  rw [toJson_eq] at hvalue
  obtain ⟨rfl,rfl⟩ := members_inj (Json.object.inj hvalue)
  exact ⟨rfl,rfl⟩

/-- The line of a record is read as the record, details and all. -/
theorem read?_line (sorted : r.details.Sorted) (free : r.details.RealFree)
    (fits : r.details.depth < Json.maxDepth) (timestamp : String) :
    Json.read? (r.line timestamp) = some (.object (r.members timestamp)) := by
  have hsorted : Json.SortedMembers (r.members timestamp) := by
    unfold members
    split
    · exact ⟨trivial,sorted,trivial,trivial,trivial,trivial⟩
    · exact ⟨trivial,sorted,trivial,trivial,trivial⟩
  have hfree : Json.RealFreeMembers (r.members timestamp) := by
    unfold members
    split
    · exact ⟨trivial,free,trivial,trivial,trivial,trivial⟩
    · exact ⟨trivial,free,trivial,trivial,trivial⟩
  have hdepth : Json.depthMembers (r.members timestamp) = r.details.depth := by
    unfold members
    split <;> simp [Json.depthMembers,Json.depth]
  have hfits : (Json.object (r.members timestamp)).depth ≤ Json.maxDepth := by
    rw [Json.depth,hdepth]
    exact fits
  have hcanonical := Json.canonical_of_sorted (v := .object (r.members timestamp))
    ⟨ascending_members r timestamp,hsorted⟩
  have hread := Json.read?_text_append (v := .object (r.members timestamp)) hfree hfits ['\n']
    (by simp [Token.isBlank])
  rw [hcanonical] at hread
  rw [line,toJson_eq]
  exact hread

def log : List (LogRecord × String) → String
  | [] => ""
  | (r,timestamp) :: rest => r.line timestamp ++ log rest

/-- A log cut at its newlines falls into its records. -/
theorem splitOn_log (rs : List (LogRecord × String)) : (log rs).toList.splitOn '\n' =
    rs.map (fun r => (r.1.toJson r.2).text.toList) ++ [[]] := by
  induction rs with
  | nil => rfl
  | cons r rest ih =>
    have hnewline : '\n' ∉ (r.1.toJson r.2).text.toList :=
      fun h => absurd (Json.text_least _ h) (by decide)
    have hchars : (log (r :: rest)).toList =
        (r.1.toJson r.2).text.toList ++ '\n' :: (log rest).toList := by
      simp [log,line]
    rw [hchars,List.splitOn_append_cons_self_of_not_mem hnewline,ih]
    rfl

theorem log_injective : Function.Injective log := by
  intro rs ss h
  have hpieces := congrArg (fun text : String => text.toList.splitOn '\n') h
  simp only [splitOn_log] at hpieces
  have hrecord : Function.Injective fun r : LogRecord × String => (r.1.toJson r.2).text.toList := by
    intro r s hrs
    obtain ⟨hr,ht⟩ := line_inj (congrArg (· ++ "\n") (String.toList_injective hrs))
    exact Prod.ext hr ht
  exact List.map_injective_iff.mpr hrecord (List.append_cancel_right hpieces)

end LogRecord

/-- The line of a record has no control character before the newline that ends it, and it is
read as an object with the parts of the record and with a level exactly if there was an error.
It is the text of no other value, so that different records have different lines, and a log is
cut at its newlines into exactly the records that were written. -/
theorem log_lines_are_unforgeable :
    (∀ (r : LogRecord) (timestamp : String), ∃ body, r.line timestamp = body ++ "\n" ∧
      ∀ c ∈ body.toList, 0x20 ≤ c.toNat) ∧
    (∀ (r : LogRecord) (timestamp : String), r.details.Sorted → r.details.RealFree →
      r.details.depth < Json.maxDepth →
      Json.read? (r.line timestamp) = some (.object (r.members timestamp))) ∧
    (∀ (r : LogRecord) (timestamp : String) (v : Json),
      r.line timestamp = v.text ++ "\n" ↔ v = .object (r.members timestamp)) ∧
    (∀ (r s : LogRecord) (timestamp timestamp' : String),
      r.line timestamp = s.line timestamp' → r = s ∧ timestamp = timestamp') ∧
    (∀ rs : List (LogRecord × String), (LogRecord.log rs).toList.splitOn '\n' =
      rs.map (fun r => (r.1.toJson r.2).text.toList) ++ [[]]) ∧
    Function.Injective LogRecord.log :=
  ⟨fun r timestamp => ⟨(r.toJson timestamp).text,rfl,Json.text_least⟩,
    fun _ timestamp sorted free fits => LogRecord.read?_line sorted free fits timestamp,
    fun _ _ _ => LogRecord.line_eq_iff,fun _ _ _ _ => LogRecord.line_inj,
    LogRecord.splitOn_log,LogRecord.log_injective⟩

/-- Details with a line break, a text that looks like a record, and the keys of a record. -/
theorem forged_level_stays_in_details :
    let details : Json := .object [("event",.string "\n\x7b\"level\":\"error\"\x7d\n"),
      ("level",.string "error")]
    let r : LogRecord := ⟨"worker_handler","invocation_received",.info,details⟩
    details.Sorted ∧ details.RealFree ∧ details.depth < Json.maxDepth ∧
      Json.read? (r.line "now") = some (.object [("component",.string "worker_handler"),
        ("details",details),("event",.string "invocation_received"),
        ("timestamp",.string "now")]) ∧
      ∀ s : LogRecord, r.line "now" = s.line "now" → s.level = .info := by
  intro details r
  obtain ⟨-,hread,-,hline,-⟩ := log_lines_are_unforgeable
  have hsorted : details.Sorted := ⟨by decide,trivial,trivial,trivial⟩
  have hfree : details.RealFree := ⟨trivial,trivial,trivial⟩
  have hfits : details.depth < Json.maxDepth := by decide
  refine ⟨hsorted,hfree,hfits,hread r "now" hsorted hfree hfits,?_⟩
  intro s hs
  rw [← (hline r s "now" "now" hs).1]

end GridWorker
