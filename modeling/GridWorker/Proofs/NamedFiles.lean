import GridWorker.Proofs.TreeGrowth

/-! # Files and the paths that name them

A path names a place, and both reading and writing go to that place. The path of a name in a
directory names the place below the one that the directory's own path leads to, however that
path is spelled.
-/
namespace GridWorker
namespace FilePath

/-! ## Joined paths -/

theorem pieces_ne_nil (cs : List Char) : pieces cs ≠ [] := by
  cases cs with
  | nil => exact List.cons_ne_nil _ _
  | cons c cs =>
    rw [pieces]
    split
    · exact List.cons_ne_nil _ _
    · split <;> exact List.cons_ne_nil _ _

theorem pieces_append (front back : List Char) :
    pieces (front ++ '/' :: back) = pieces front ++ pieces back := by
  induction front with
  | nil => rfl
  | cons c front ih =>
    rw [List.cons_append,pieces,pieces,ih]
    split
    · rfl
    · obtain ⟨p,ps,hpieces⟩ := List.exists_cons_of_ne_nil (pieces_ne_nil front)
      rw [hpieces]
      rfl

theorem pieces_plain (cs : List Char) (plain : '/' ∉ cs) : pieces cs = [cs] := by
  induction cs with
  | nil => rfl
  | cons c cs ih =>
    have hc : c ≠ '/' := fun h => plain (h ▸ List.mem_cons_self)
    rw [pieces,if_neg hc,ih fun h => plain (List.mem_cons_of_mem c h)]

structure Plain (name : String) : Prop where
  nonempty : name.toList ≠ []
  slashless : '/' ∉ name.toList
  proper : name ≠ "." ∧ name ≠ ".."

def names (cs : List Char) : List String := ((pieces cs).filter (· ≠ [])).map String.ofList

theorem names_append (front back : List Char) :
    names (front ++ '/' :: back) = names front ++ names back := by
  rw [names,pieces_append,List.filter_append,List.map_append,names,names]

section Join
variable {name : String} (plain : Plain name)
include plain

theorem names_plain : names name.toList = [name] := by
  rw [names,pieces_plain _ plain.slashless,
    List.filter_cons_of_pos (by simpa using plain.nonempty),List.filter_nil,List.map_cons,
    String.ofList_toList,List.map_nil]

theorem ends_plain (front : List Char) : ¬ (front ++ name.toList).getLast? = some '/' := by
  intro h
  rw [List.getLast?_append,List.getLast?_eq_some_getLast plain.nonempty,Option.some_or] at h
  injection h with hlast
  exact plain.slashless (hlast ▸ List.getLast_mem plain.nonempty)

theorem ofString_slash {front : List Char} {s : String}
    (hs : s.toList = front ++ '/' :: name.toList) :
    ofString s = ⟨(front ++ ['/']).head? = some '/',names front ++ [name],false⟩ := by
  have hsplit : front ++ '/' :: name.toList = (front ++ ['/']) ++ name.toList := by
    rw [List.append_assoc,List.singleton_append]
  have hlast := ends_plain plain (front ++ ['/'])
  have hhead : (front ++ ['/'] ++ name.toList).head? = (front ++ ['/']).head? := by
    cases front <;> rfl
  have hnames : names s.toList = names front ++ [name] := by
    rw [hs,names_append,names_plain plain]
  rw [ofString,← names,hnames,hs,hsplit,hhead,decide_eq_false hlast]

/-- A joined path has the segments of the directory, then the name. -/
theorem ofString_join (dir : String) : ofString (join dir name) =
    ⟨(ofString dir).absolute,(ofString dir).segments ++ [name],false⟩ := by
  rw [join]
  by_cases hempty : dir = ""
  · have hlast : ¬ name.toList.getLast? = some '/' := ends_plain plain []
    have hhead : ¬ name.toList.head? = some '/' :=
      fun h => plain.slashless (List.mem_of_head? h)
    subst hempty
    rw [if_pos rfl,ofString,← names,names_plain plain,decide_eq_false hhead,
      decide_eq_false hlast]
    rfl
  rw [if_neg hempty]
  by_cases hended : dir.toList.getLast? = some '/'
  · obtain ⟨front,hfront⟩ := List.getLast?_eq_some_iff.mp hended
    have hnames : names dir.toList = names front := by
      rw [hfront,names_append]
      exact List.append_nil _
    have hjoined : (dir ++ name).toList = front ++ '/' :: name.toList := by
      rw [String.toList_append,hfront,List.append_assoc,List.singleton_append]
    rw [if_pos hended,ofString_slash plain hjoined,ofString,← names,hnames,hfront]
  · have hjoined : (dir ++ "/" ++ name).toList = dir.toList ++ '/' :: name.toList := by
      rw [String.toList_append,String.toList_append,List.append_assoc]
      rfl
    have hhead : (dir.toList ++ ['/']).head? = dir.toList.head? := by
      cases hdir : dir.toList with
      | nil => exact absurd (String.toList_eq_nil_iff.mp hdir) hempty
      | cons c cs => rfl
    rw [if_neg hended,ofString_slash plain hjoined,hhead]
    rfl

end Join
end FilePath

namespace FileTree

/-! ## Named places -/

structure Sound (path : String) : Prop where
  unbroken : '\x00' ∉ path.toList
  short : path.utf8ByteSize ≤ maxPath

theorem check_eq_ok {path : String} : check path = .ok () ↔ Sound path := by
  have hnul : path.toList.contains '\x00' = true ↔ '\x00' ∈ path.toList := List.contains_iff_mem
  constructor
  · intro h
    rw [check] at h
    split at h
    · contradiction
    next unbroken =>
    split at h
    · contradiction
    next short => exact ⟨mt hnul.mpr unbroken,Nat.le_of_not_lt short⟩
  · intro h
    rw [check,if_neg (mt hnul.mp h.unbroken),if_neg (Nat.not_lt.mpr h.short)]

/-- A path names the place of a file, whatever is there. -/
inductive Names (t : FileTree) (path : String) : Place → Prop
  | intro {parent : Place} {name : String} (sound : check path = .ok ())
      (located : t.locate (.ofString path) = .ok (.named parent name false))
      (short : name.utf8ByteSize ≤ maxName) : Names t path (parent ++ [name])

namespace Names
variable {t t' : FileTree} {path : String} {p q : Place}

theorem ne_nil (h : t.Names path p) : p ≠ [] := by
  cases h with
  | intro sound located short => exact List.append_ne_nil_of_right_ne_nil _ (List.cons_ne_nil _ _)

theorem keeps (h : t.Names path p) (kept : t.Keeps t') : t'.Names path p := by
  cases h with
  | intro sound located short => exact .intro sound (kept.locate located) short

end Names

/-- The place that a path leads to when all of it must be directories. -/
def reach (t : FileTree) (dir : String) : Except FileFault Place :=
  let path := FilePath.ofString dir
  t.walk (t.start path.absolute) path.segments

/-- A name in a directory names the place below the one that the directory leads to. -/
theorem names_join_iff {t : FileTree} (dir : String) {name : String}
    (plain : FilePath.Plain name) (short : name.utf8ByteSize ≤ maxName) {p : Place} :
    t.Names (FilePath.join dir name) p ↔
      Sound (FilePath.join dir name) ∧
        ∃ parent, t.reach dir = .ok parent ∧ p = parent ++ [name] := by
  have hlocate : t.locate (.ofString (FilePath.join dir name)) = (do
      let parent ← t.reach dir
      return .named parent name false) := by
    rw [FilePath.ofString_join plain,locate]
    simp only [List.getLast?_concat,List.dropLast_concat,if_neg plain.proper.1,
      if_neg plain.proper.2]
    rfl
  constructor
  · rintro ⟨sound,located,-⟩
    rw [hlocate] at located
    obtain ⟨parent,hreach,hspot⟩ := bind_eq_ok located
    injection hspot with hspot
    injection hspot with hparent hname
    exact ⟨check_eq_ok.mp sound,parent,hreach,by rw [hparent,hname]⟩
  · rintro ⟨sound,parent,hreach,rfl⟩
    refine .intro (check_eq_ok.mpr sound) ?_ short
    rw [hlocate,hreach]
    rfl

section Access
variable {t : FileTree} {path : String}

/-- Reading a file gives the content at the place that its path names. -/
theorem read_eq_ok {content : Bytes} :
    t.read path = .ok content ↔ ∃ p, t.Names path p ∧ t.get? p = some (.file content) := by
  constructor
  · intro h
    rw [read] at h
    obtain ⟨_,hcheck,h⟩ := bind_eq_ok h
    obtain ⟨_ | ⟨parent,name,slash⟩,hspot,h⟩ := bind_eq_ok h
    · contradiction
    dsimp only at h
    split at h
    · contradiction
    next short =>
    rcases hnode : t.get? (parent ++ [name]) with _ | (_ | there) <;> rw [hnode] at h
    · contradiction
    · contradiction
    cases slash with
    | true => contradiction
    | false =>
      injection h with hcontent
      exact ⟨_,.intro hcheck hspot (Nat.le_of_not_lt short),hcontent ▸ hnode⟩
  · rintro ⟨p,⟨sound,located,short⟩,hnode⟩
    rw [read,sound,located]
    simp only [bind,Except.bind,if_neg (Nat.not_lt.mpr short),hnode,Bool.false_eq_true,if_false]

/-- A path is writable where it names a place that is no directory. -/
theorem writable_eq_ok {p : Place} :
    t.writable path = .ok p ↔ t.Names path p ∧ t.get? p ≠ some .directory := by
  constructor
  · intro h
    rw [writable] at h
    obtain ⟨_,hcheck,h⟩ := bind_eq_ok h
    obtain ⟨_ | ⟨parent,name,slash⟩,hspot,h⟩ := bind_eq_ok h
    · contradiction
    cases slash with
    | true => contradiction
    | false =>
      simp only [Bool.false_eq_true,if_false] at h
      split at h
      · contradiction
      next short =>
      split at h
      · contradiction
      next free =>
      injection h with hp
      subst hp
      exact ⟨.intro hcheck hspot (Nat.le_of_not_lt short),free⟩
  · rintro ⟨⟨sound,located,short⟩,free⟩
    rw [writable,sound,located]
    simp only [bind,Except.bind,Bool.false_eq_true,if_false,if_neg (Nat.not_lt.mpr short)]

end Access
end FileTree
end GridWorker
