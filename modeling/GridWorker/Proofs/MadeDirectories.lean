import GridWorker.Proofs.NamedFiles

/-! # When directories can be made

The names of a path lead through places, one for each of them. The directories of a path can be
made when no name is too long and no file stands at one of these places. Then all of them are
directories afterwards, and every other place is as it was.
-/
namespace GridWorker
namespace FileTree

/-! ## Walking -/

section Next
variable (p : Place)

theorem next_dot : next p "." = p := rfl

theorem next_up : next p ".." = p.dropLast := rfl

theorem next_name {s : String} (proper : s ≠ "." ∧ s ≠ "..") : next p s = p ++ [s] := by
  rw [next,if_neg proper.1,if_neg proper.2]

end Next

/-- The places that the names among some segments lead to. -/
def through : Place → List String → List Place
  | _,[] => []
  | p,s :: rest =>
    if s = "." ∨ s = ".." then through (next p s) rest else next p s :: through (next p s) rest

theorem through_name (p : Place) {s : String} (proper : s ≠ "." ∧ s ≠ "..") (rest : List String) :
    through p (s :: rest) = (p ++ [s]) :: through (p ++ [s]) rest := by
  rw [through,if_neg (not_or.mpr proper),next_name p proper]

theorem through_append (p : Place) (front back : List String) :
    through p (front ++ back) = through p front ++ through (front.foldl next p) back := by
  induction front generalizing p with
  | nil => rfl
  | cons s front ih =>
    rw [List.cons_append,through,through,List.foldl_cons,ih]
    split <;> rfl

/-- A segment `.` leads nowhere. -/
theorem through_filter (p : Place) (segments : List String) :
    through p (segments.filter (· ≠ ".")) = through p segments := by
  induction segments generalizing p with
  | nil => rfl
  | cons s rest ih =>
    by_cases hdot : s = "."
    · rw [List.filter_cons_of_neg (by simpa using hdot),ih,hdot,through,if_pos (Or.inl rfl),
        next_dot]
    · rw [List.filter_cons_of_pos (by simpa using hdot),through,through,ih]

variable {t : FileTree} {p q : Place} {segments : List String}

/-- A walk ends where the segments lead, if they lead through directories only. -/
theorem walk_eq_ok : t.walk p segments = .ok q ↔
    (∀ s ∈ segments, s.utf8ByteSize ≤ maxName) ∧
      (∀ d ∈ through p segments, t.get? d = some .directory) ∧ segments.foldl next p = q := by
  have hdots : ".".utf8ByteSize ≤ maxName ∧ "..".utf8ByteSize ≤ maxName := by decide
  induction segments generalizing p with
  | nil => simp [walk,through]
  | cons s rest ih =>
    rw [walk,List.foldl_cons,List.forall_mem_cons]
    by_cases hdot : s = "."
    · subst hdot
      rw [if_pos rfl,through,if_pos (Or.inl rfl),next_dot]
      simp only [ih,hdots.1,true_and]
    rw [if_neg hdot]
    by_cases hup : s = ".."
    · subst hup
      rw [if_pos rfl,through,if_pos (Or.inr rfl),next_up]
      simp only [ih,hdots.2,true_and]
    rw [if_neg hup,through_name p ⟨hdot,hup⟩,next_name p ⟨hdot,hup⟩,List.forall_mem_cons]
    by_cases hlong : maxName < s.utf8ByteSize
    · simp [hlong,Nat.not_le.mpr hlong]
    · rcases hnode : t.get? (p ++ [s]) with _ | (_ | content)
      · simp [hlong]
      · simp [hlong,ih,Nat.le_of_not_lt hlong]
      · simp [hlong]

/-- No name is too long, and no file stands where a directory is needed. -/
structure Passable (t : FileTree) (p : Place) (segments : List String) : Prop where
  short : ∀ s ∈ segments, s.utf8ByteSize ≤ maxName
  clear : ∀ q ∈ through p segments, ∀ content, t.get? q ≠ some (.file content)

theorem passable_nil (t : FileTree) (p : Place) : t.Passable p [] := ⟨nofun,nofun⟩

/-- A walk that is stopped by more than a missing directory is not passable. -/
theorem walk_error {f : FileFault} (h : t.walk p segments = .error f) :
    f = .notFound ∨ ¬ t.Passable p segments := by
  induction segments generalizing p with
  | nil => contradiction
  | cons s rest ih =>
    have hrest : ∀ p', (t.Passable p (s :: rest) → t.Passable p' rest) →
        t.walk p' rest = .error f → f = .notFound ∨ ¬ t.Passable p (s :: rest) :=
      fun p' hpass hwalk => (ih hwalk).imp_right (mt hpass)
    rw [walk] at h
    by_cases hdot : s = "."
    · subst hdot
      rw [if_pos rfl] at h
      exact hrest p (fun hp => ⟨fun s hs => hp.short s (List.mem_cons_of_mem _ hs),hp.clear⟩) h
    rw [if_neg hdot] at h
    by_cases hup : s = ".."
    · subst hup
      rw [if_pos rfl] at h
      exact hrest _ (fun hp => ⟨fun s hs => hp.short s (List.mem_cons_of_mem _ hs),hp.clear⟩) h
    rw [if_neg hup] at h
    have hthrough := through_name p ⟨hdot,hup⟩ rest
    by_cases hlong : maxName < s.utf8ByteSize
    · exact .inr fun hp => absurd (hp.short s List.mem_cons_self) (Nat.not_le.mpr hlong)
    rw [if_neg hlong] at h
    rcases hnode : t.get? (p ++ [s]) with _ | (_ | content) <;> rw [hnode] at h
    · injection h with hf
      exact .inl hf.symm
    · refine hrest _ (fun hp => ⟨fun s hs => hp.short s (List.mem_cons_of_mem _ hs),?_⟩) h
      intro q hq
      exact hp.clear q (hthrough ▸ List.mem_cons_of_mem _ hq)
    · exact .inr fun hp => hp.clear _ (hthrough ▸ List.mem_cons_self) content hnode

theorem passable_append {front back : List String} : t.Passable p (front ++ back) ↔
    t.Passable p front ∧ t.Passable (front.foldl next p) back := by
  have hthrough := through_append p front back
  constructor
  · intro h
    refine ⟨⟨fun s hs => h.short s (List.mem_append_left _ hs),fun q hq => h.clear q ?_⟩,
      ⟨fun s hs => h.short s (List.mem_append_right _ hs),fun q hq => h.clear q ?_⟩⟩
    · exact hthrough ▸ List.mem_append_left _ hq
    · exact hthrough ▸ List.mem_append_right _ hq
  · rintro ⟨hfront,hback⟩
    refine ⟨fun s hs => ?_,fun q hq => ?_⟩
    · exact (List.mem_append.mp hs).elim (hfront.short s) (hback.short s)
    · rw [hthrough] at hq
      exact (List.mem_append.mp hq).elim (hfront.clear q) (hback.clear q)

theorem passable_singleton {s : String} (proper : s ≠ "." ∧ s ≠ "..") : t.Passable p [s] ↔
    s.utf8ByteSize ≤ maxName ∧ ∀ content, t.get? (p ++ [s]) ≠ some (.file content) := by
  have hplace : through p [s] = [p ++ [s]] := through_name p proper []
  constructor
  · intro h
    exact ⟨h.short s List.mem_cons_self,h.clear _ (hplace ▸ List.mem_singleton_self _)⟩
  · rintro ⟨short,clear⟩
    refine ⟨fun _ hs => List.mem_singleton.mp hs ▸ short,fun q hq => ?_⟩
    rw [hplace] at hq
    exact List.mem_singleton.mp hq ▸ clear

theorem passable_of_walk (h : t.walk p segments = .ok q) : t.Passable p segments := by
  obtain ⟨hshort,hthere,-⟩ := walk_eq_ok.mp h
  refine ⟨hshort,fun d hd content hfile => ?_⟩
  rw [hthere d hd] at hfile
  injection hfile with hnode
  contradiction

/-! ## Making -/

/-- Some places are directories in a later tree, and every other place is as it was. -/
structure Laid (t t' : FileTree) (places : List Place) : Prop where
  working : t'.working = t.working
  there : ∀ q ∈ places, t'.get? q = some .directory
  others : ∀ q, q ∉ places → t'.get? q = t.get? q

namespace Laid
variable {t' t'' : FileTree} {places more : List Place}

theorem refl (there : ∀ q ∈ places, t.get? q = some .directory) : t.Laid t places :=
  ⟨rfl,there,fun _ _ => rfl⟩

theorem trans (h : t.Laid t' places) (h' : t'.Laid t'' more) : t.Laid t'' (places ++ more) where
  working := h'.working.trans h.working
  there := by
    intro q hq
    by_cases hmore : q ∈ more
    · exact h'.there q hmore
    · rw [h'.others q hmore]
      exact h.there q ((List.mem_append.mp hq).resolve_right hmore)
  others := by
    intro q hq
    obtain ⟨hplaces,hmore⟩ := not_or.mp (mt List.mem_append.mpr hq)
    exact (h'.others q hmore).trans (h.others q hplaces)

theorem start (h : t.Laid t' places) (absolute : Bool) :
    t'.start absolute = t.start absolute := by
  rw [FileTree.start,FileTree.start,h.working]

theorem directory (h : t.Laid t' places) (there : t.get? q = some .directory) :
    t'.get? q = some .directory := by
  by_cases hq : q ∈ places
  · exact h.there q hq
  · rw [h.others q hq,there]

/-- Where no file has been overlaid, the later tree has the same files. -/
theorem file_iff (h : t.Laid t' places)
    (clear : ∀ q ∈ places, ∀ content, t.get? q ≠ some (.file content)) {content : Bytes} :
    t'.get? q = some (.file content) ↔ t.get? q = some (.file content) := by
  by_cases hq : q ∈ places
  · rw [h.there q hq]
    exact ⟨nofun,fun hfile => absurd hfile (clear q hq content)⟩
  · rw [h.others q hq]

theorem passable_iff (h : t.Laid t' places)
    (clear : ∀ q ∈ places, ∀ content, t.get? q ≠ some (.file content)) (p : Place)
    (segments : List String) : t'.Passable p segments ↔ t.Passable p segments :=
  ⟨fun hp => ⟨hp.short,fun q hq content => mt (h.file_iff clear).mpr (hp.clear q hq content)⟩,
    fun hp => ⟨hp.short,fun q hq content => mt (h.file_iff clear).mp (hp.clear q hq content)⟩⟩

end Laid

/-- Directories are made at some places where that is possible, and else something fails. -/
structure Makes (t : FileTree) (possible : Prop) (places : List Place)
    (r : Except FileFault Unit × FileTree) : Prop where
  made : possible → r.1 = .ok () ∧ t.Laid r.2 places
  blocked : ¬ possible → ∃ f, r.1 = .error f

namespace Makes
variable {possible possible' : Prop} {places : List Place}

theorem of_iff {r : Except FileFault Unit × FileTree} (h : t.Makes possible places r)
    (same : possible' ↔ possible) : t.Makes possible' places r :=
  ⟨fun hp => h.made (same.mp hp),fun hp => h.blocked (mt same.mpr hp)⟩

theorem nothing (h : possible) : t.Makes possible [] (.ok (),t) :=
  ⟨fun _ => ⟨rfl,.refl nofun⟩,fun hp => absurd h hp⟩

end Makes

section Ensure
variable {path : FilePath}

theorem ensure_directory (located : t.locate path = .ok (.directory q)) :
    t.makeDirectory path = .error .alreadyExists ∧ t.ensure path = (.ok (),t) := by
  have hmake : t.makeDirectory path = .error .alreadyExists := by
    rw [makeDirectory,located]
    rfl
  refine ⟨hmake,?_⟩
  rw [ensure,hmake,isDirectory,located]
  rfl

/-- A directory is made under a name, unless the name is too long or a file has it. -/
theorem ensure_named {parent : Place} {name : String} {slash : Bool}
    (located : t.locate path = .ok (.named parent name slash)) :
    t.makeDirectory path ≠ .error .notFound ∧
      t.Makes (name.utf8ByteSize ≤ maxName ∧
          ∀ content, t.get? (parent ++ [name]) ≠ some (.file content))
        [parent ++ [name]] (t.ensure path) := by
  have hdirectory : t.isDirectory path = (decide (name.utf8ByteSize ≤ maxName) &&
      decide (t.get? (parent ++ [name]) = some .directory)) := by
    rw [isDirectory,located]
  by_cases hlong : maxName < name.utf8ByteSize
  · have hmake : t.makeDirectory path = .error .nameTooLong := by
      rw [makeDirectory,located]
      exact if_pos hlong
    rw [ensure,hmake,hdirectory,decide_eq_false (Nat.not_le.mpr hlong)]
    exact ⟨by simp,fun hp => absurd hp.1 (Nat.not_le.mpr hlong),fun _ => ⟨_,rfl⟩⟩
  have hshort := Nat.le_of_not_lt hlong
  rw [decide_eq_true hshort] at hdirectory
  rcases hnode : t.get? (parent ++ [name]) with _ | n
  · have hmake : t.makeDirectory path = .ok (t.put (parent ++ [name]) .directory) := by
      rw [makeDirectory,located]
      refine (if_neg hlong).trans ?_
      rw [hnode]
    rw [ensure,hmake]
    refine ⟨by simp,fun _ => ⟨rfl,rfl,fun q hq => ?_,fun q hq => ?_⟩,fun hp => absurd ?_ hp⟩
    · rw [List.mem_singleton.mp hq]
      exact t.get?_put_self _ (List.append_ne_nil_of_right_ne_nil _ (List.cons_ne_nil _ _))
    · exact t.get?_put_of_ne _ (mt List.mem_singleton.mpr hq)
    · exact ⟨hshort,fun content => (Option.some_ne_none _).symm⟩
  · have hmake : t.makeDirectory path = .error .alreadyExists := by
      rw [makeDirectory,located]
      refine (if_neg hlong).trans ?_
      rw [hnode]
    rw [ensure,hmake,hdirectory,hnode]
    cases n with
    | directory =>
      refine ⟨by simp,fun _ => ⟨rfl,.refl fun q hq => ?_⟩,fun hp => absurd ?_ hp⟩
      · rw [List.mem_singleton.mp hq,hnode]
      · exact ⟨hshort,fun content hfile => Node.noConfusion (Option.some.inj hfile)⟩
    | file content =>
      exact ⟨by simp,fun hp => absurd rfl (hp.2 content),fun _ => ⟨_,rfl⟩⟩

end Ensure

section Reached
variable {path : FilePath} {front : List String} {last : String}
  (hsegments : path.segments = front ++ [last])
include hsegments

theorem locate_concat : t.locate path = (do
    let parent ← t.walk (t.start path.absolute) front
    if last = "." then return .directory parent
    else if last = ".." then return .directory parent.dropLast
    else return .named parent last path.trailingSlash) := by
  rw [locate,hsegments]
  simp only [List.getLast?_concat,List.dropLast_concat]

theorem ensure_of_error {f : FileFault} (h : t.walk (t.start path.absolute) front = .error f) :
    t.makeDirectory path = .error f ∧ t.ensure path = (.error f,t) := by
  have hlocate := locate_concat (t := t) hsegments
  rw [h] at hlocate
  have hmake : t.makeDirectory path = .error f := by
    rw [makeDirectory,hlocate]
    rfl
  refine ⟨hmake,?_⟩
  rw [ensure,hmake,isDirectory,hlocate]
  rfl

/-- One directory is made below a directory, or what is there is found to be one. -/
theorem ensure_reached {parent : Place} (h : t.walk (t.start path.absolute) front = .ok parent) :
    t.makeDirectory path ≠ .error .notFound ∧
      t.Makes (t.Passable parent [last]) (through parent [last]) (t.ensure path) := by
  have hlocate := locate_concat (t := t) hsegments
  rw [h] at hlocate
  simp only [bind,Except.bind] at hlocate
  by_cases hproper : last ≠ "." ∧ last ≠ ".."
  · rw [if_neg hproper.1,if_neg hproper.2] at hlocate
    obtain ⟨hmake,hmakes⟩ := ensure_named hlocate
    rw [through_name parent hproper]
    exact ⟨hmake,hmakes.of_iff (passable_singleton hproper)⟩
  · have hdots : last = "." ∨ last = ".." :=
      (Decidable.not_and_iff_not_or_not.mp hproper).imp Decidable.not_not.mp Decidable.not_not.mp
    have hthrough : through parent [last] = [] := if_pos hdots
    obtain ⟨q,hq⟩ : ∃ q, t.locate path = .ok (.directory q) := by
      rcases hdots with rfl | rfl
      · exact ⟨parent,hlocate⟩
      · exact ⟨parent.dropLast,hlocate⟩
    obtain ⟨hmake,hensure⟩ := ensure_directory hq
    have hpassable : t.Passable parent [last] := by
      refine ⟨fun s hs => ?_,fun q hq => ?_⟩
      · rcases hdots with rfl | rfl <;> rw [List.mem_singleton.mp hs] <;> decide
      · rw [hthrough] at hq
        contradiction
    rw [hmake,hensure,hthrough]
    exact ⟨nofun,.nothing hpassable⟩

end Reached

/-! ## Making all -/

section Step
variable {path : FilePath} {above : List FilePath} {front l : List String} {last : String}
  {possible : Prop} {places : List Place}

theorem makeAll_eq_ensure (h : t.makeDirectory path ≠ .error .notFound) :
    t.makeAll (path :: above) = t.ensure path := by
  rw [makeAll]
  split
  · next hmissing => exact absurd hmissing h
  · rfl

/-- A directory is made, and where the way to it is missing, what is above it before. It is
enough to know what comes of it once the way there is laid. -/
theorem makeAll_step (hsegments : path.segments = l ++ [last])
    (habove : t.Makes (t.Passable (t.start path.absolute) front)
      (through (t.start path.absolute) front) (t.makeAll above))
    (hway : through (t.start path.absolute) front ⊆ through (t.start path.absolute) l)
    (hfront : t.Passable (t.start path.absolute) l → t.Passable (t.start path.absolute) front)
    (hpossible : possible → t.Passable (t.start path.absolute) l)
    (hafter : ∀ t', t.Passable (t.start path.absolute) front →
      t.Laid t' (through (t.start path.absolute) front) →
        t.Makes possible places (t'.ensure path)) :
    t.Makes possible places (t.makeAll (path :: above)) := by
  cases hwalk : t.walk (t.start path.absolute) l with
  | ok parent =>
    obtain ⟨-,hthere,-⟩ := walk_eq_ok.mp hwalk
    rw [makeAll_eq_ensure (ensure_reached hsegments hwalk).1]
    exact hafter t (hfront (passable_of_walk hwalk)) (.refl fun q hq => hthere q (hway hq))
  | error f =>
    obtain ⟨hmake,hensure⟩ := ensure_of_error hsegments hwalk
    by_cases hmissing : f = .notFound
    · subst hmissing
      rw [makeAll,hmake]
      dsimp only
      rcases hall : t.makeAll above with ⟨r,t'⟩
      rw [hall] at habove
      by_cases hp : t.Passable (t.start path.absolute) front
      · obtain ⟨hok,hlaid⟩ := habove.made hp
        obtain rfl : r = .ok () := hok
        exact hafter t' hp hlaid
      · obtain ⟨f,hf⟩ := habove.blocked hp
        obtain rfl : r = .error f := hf
        exact ⟨fun h => absurd (hfront (hpossible h)) hp,fun _ => ⟨f,rfl⟩⟩
    · -- Something else than a missing directory stops the walk, and nothing above helps.
      have hblocked := (walk_error hwalk).resolve_left hmissing
      rw [makeAll_eq_ensure (by rw [hmake]; exact fun h => hmissing (Except.error.inj h)),hensure]
      exact ⟨fun h => absurd (hpossible h) hblocked,fun _ => ⟨f,rfl⟩⟩

/-- Below a way that has been laid, a directory is made where the whole way can be. -/
theorem ensure_after {t' : FileTree} (hsegments : path.segments = l ++ [last])
    (passable : t.Passable (t.start path.absolute) l)
    (laid : t.Laid t' (through (t.start path.absolute) l)) :
    t.Makes (t.Passable (t.start path.absolute) (l ++ [last]))
      (through (t.start path.absolute) (l ++ [last])) (t'.ensure path) := by
  have hwalk : t'.walk (t'.start path.absolute) l =
      .ok (l.foldl next (t.start path.absolute)) := by
    rw [laid.start]
    exact walk_eq_ok.mpr ⟨passable.short,laid.there,rfl⟩
  obtain ⟨-,hmakes⟩ := ensure_reached hsegments hwalk
  have hsame := laid.passable_iff passable.clear (l.foldl next (t.start path.absolute)) [last]
  rw [through_append]
  constructor
  · intro hp
    obtain ⟨hok,hlaid⟩ := hmakes.made (hsame.mpr (passable_append.mp hp).2)
    exact ⟨hok,laid.trans hlaid⟩
  · intro hp
    exact hmakes.blocked fun hlast => hp (passable_append.mpr ⟨passable,hsame.mp hlast⟩)

end Step

open FilePath in
theorem makeAll_upward (t : FileTree) (absolute : Bool) (rs : List String) :
    t.Makes (t.Passable (t.start absolute) rs.reverse) (through (t.start absolute) rs.reverse)
      (t.makeAll (upward absolute rs)) := by
  induction rs with
  | nil =>
    have hmade : t.makeAll (upward absolute []) = (.ok (),t) := by
      cases absolute with
      | false => rfl
      | true =>
        have hlocate : t.locate ⟨true,[],false⟩ = .ok (.directory []) := rfl
        obtain ⟨hmake,hensure⟩ := ensure_directory hlocate
        exact (makeAll_eq_ensure (by simp [hmake])).trans hensure
    rw [hmade]
    exact .nothing (t.passable_nil _)
  | cons last rest ih =>
    -- The paths above are those of the segments before the last, which `ih` is about.
    have hsegments : (⟨absolute,(last :: rest).reverse,false⟩ : FilePath).segments =
        rest.reverse ++ [last] := List.reverse_cons
    rw [List.reverse_cons]
    exact makeAll_step hsegments ih (List.Subset.refl _) id
      (fun hp => (passable_append.mp hp).1) (fun _ => ensure_after hsegments)

/-! ## Paths -/

section Components
variable (path : FilePath)

/-- The components leave out segments `.` only. -/
theorem components_eq : ∃ front back, path.segments = front ++ back ∧
    path.components = front ++ back.filter (· ≠ ".") := by
  cases habsolute : path.absolute with
  | true => exact ⟨[],path.segments,rfl,by rw [FilePath.components,if_pos habsolute]; rfl⟩
  | false =>
    refine ⟨path.segments.take 1,path.segments.drop 1,(List.take_append_drop 1 _).symm,?_⟩
    rw [FilePath.components,habsolute]
    rfl

theorem through_components (p : Place) :
    through p path.components = through p path.segments := by
  obtain ⟨front,back,hsegments,hcomponents⟩ := components_eq path
  rw [hsegments,hcomponents,through_append,through_append,through_filter]

theorem passable_components (t : FileTree) (p : Place) :
    t.Passable p path.components ↔ t.Passable p path.segments := by
  have hdot : ".".utf8ByteSize ≤ maxName := by decide
  have hthrough := through_components path p
  obtain ⟨front,back,hsegments,hcomponents⟩ := components_eq path
  constructor
  · intro h
    refine ⟨fun s hs => ?_,fun q hq => h.clear q (hthrough ▸ hq)⟩
    by_cases hs' : s = "."
    · exact hs' ▸ hdot
    · apply h.short
      rw [hsegments] at hs
      rw [hcomponents]
      simpa [hs'] using hs
  · intro h
    refine ⟨fun s hs => h.short s ?_,fun q hq => h.clear q (hthrough ▸ hq)⟩
    rw [hcomponents] at hs
    rw [hsegments]
    exact (List.mem_append.mp hs).elim (List.mem_append_left _)
      fun hs => List.mem_append_right _ (List.mem_filter.mp hs).1

theorem makeAll_above (t : FileTree) :
    t.Makes (t.Passable (t.start path.absolute) path.components.dropLast)
      (through (t.start path.absolute) path.components.dropLast) (t.makeAll path.above) := by
  have hupward := makeAll_upward t path.absolute path.components.dropLast.reverse
  rw [List.reverse_reverse] at hupward
  rcases List.eq_nil_or_concat path.components with hnil | ⟨front,last,hconcat⟩
  · have habove : path.above = [] := by
      rw [FilePath.above,hnil]
      cases path.absolute <;> rfl
    rw [habove,hnil]
    exact .nothing (t.passable_nil _)
  · have habove : path.above = FilePath.upward path.absolute path.components.dropLast.reverse := by
      rw [FilePath.above,hconcat,List.concat_eq_append,List.reverse_concat,List.dropLast_concat]
      rfl
    rwa [habove]

end Components

def places (t : FileTree) (path : String) : List Place :=
  through (t.start (FilePath.ofString path).absolute) (FilePath.ofString path).segments

/-- The directories of a path can be made. A path that ends in `.` makes only those above its
last name, which must be there already. -/
structure Creatable (t : FileTree) (path : String) : Prop where
  sound : Sound path
  passable : t.Passable (t.start (FilePath.ofString path).absolute)
    (FilePath.ofString path).segments
  ending : (FilePath.ofString path).segments.getLast? = some "." → ∀ q ∈ t.places path,
    q ∈ through (t.start (FilePath.ofString path).absolute)
        (FilePath.ofString path).components.dropLast ∨
      t.get? q = some .directory

theorem through_concat_dot (p : Place) (l : List String) :
    through p (l ++ ["."]) = through p l := by
  rw [through_append]
  exact List.append_nil _

theorem passable_concat_dot : t.Passable p (segments ++ ["."]) ↔ t.Passable p segments := by
  refine ⟨fun h => (passable_append.mp h).1,fun h => passable_append.mpr ⟨h,fun s hs => ?_,nofun⟩⟩
  rw [List.mem_singleton.mp hs]
  decide

theorem passable_dropLast (h : t.Passable p segments) : t.Passable p segments.dropLast := by
  rcases List.eq_nil_or_concat segments with rfl | ⟨front,last,rfl⟩
  · exact h
  · rw [List.concat_eq_append] at h ⊢
    rw [List.dropLast_concat]
    exact (passable_append.mp h).1

theorem through_dropLast (p : Place) (segments : List String) :
    through p segments.dropLast ⊆ through p segments := by
  rcases List.eq_nil_or_concat segments with rfl | ⟨front,last,rfl⟩
  · exact List.Subset.refl _
  · rw [List.concat_eq_append,List.dropLast_concat,through_append]
    exact List.subset_append_left _ _

/-- A path that ends in `.` makes nothing itself: the whole way to it must have been laid, or must
have been there before. -/
theorem ensure_dot {path : FilePath} {l front : List String} {t' : FileTree}
    (hsegments : path.segments = l ++ ["."])
    (hway : through (t.start path.absolute) front ⊆ through (t.start path.absolute) l)
    (passable : t.Passable (t.start path.absolute) front)
    (laid : t.Laid t' (through (t.start path.absolute) front)) :
    t.Makes (t.Passable (t.start path.absolute) l ∧ ∀ q ∈ through (t.start path.absolute) l,
        q ∈ through (t.start path.absolute) front ∨ t.get? q = some .directory)
      (through (t.start path.absolute) l) (t'.ensure path) := by
  have hpassable := laid.passable_iff passable.clear (t.start path.absolute) l
  cases hwalk : t'.walk (t'.start path.absolute) l with
  | ok parent =>
    have hlocate := locate_concat (t := t') hsegments
    rw [hwalk] at hlocate
    rw [laid.start] at hwalk
    obtain ⟨-,hthere,-⟩ := walk_eq_ok.mp hwalk
    rw [(ensure_directory hlocate).2]
    refine ⟨fun _ => ⟨rfl,laid.working,hthere,fun q hq => laid.others q (mt (@hway q) hq)⟩,?_⟩
    refine fun hp => absurd ⟨hpassable.mp (passable_of_walk hwalk),fun q hq => ?_⟩ hp
    by_cases hfront : q ∈ through (t.start path.absolute) front
    · exact .inl hfront
    · exact .inr ((laid.others q hfront).symm.trans (hthere q hq))
  | error f =>
    rw [(ensure_of_error hsegments hwalk).2]
    refine ⟨fun ⟨hp,hthere⟩ => ?_,fun _ => ⟨f,rfl⟩⟩
    have hwalks : t'.walk (t'.start path.absolute) l =
        .ok (l.foldl next (t.start path.absolute)) := by
      rw [laid.start]
      exact walk_eq_ok.mpr ⟨hp.short,fun q hq =>
        (hthere q hq).elim (laid.there q) laid.directory,rfl⟩
    rw [hwalks] at hwalk
    contradiction

/-- A relative path that is not empty has a segment. -/
theorem segments_ne_nil {path : String} (nonempty : path ≠ "")
    (relative : (FilePath.ofString path).absolute = false) :
    (FilePath.ofString path).segments ≠ [] := by
  have hsegments : (FilePath.ofString path).segments = FilePath.names path.toList := rfl
  rw [hsegments,FilePath.names]
  cases hchars : path.toList with
  | nil => exact absurd (String.toList_eq_nil_iff.mp hchars) nonempty
  | cons c cs =>
    have hc : c ≠ '/' := by
      rintro rfl
      rw [FilePath.ofString,hchars] at relative
      contradiction
    obtain ⟨piece,more,hpieces⟩ := List.exists_cons_of_ne_nil (FilePath.pieces_ne_nil cs)
    rw [FilePath.pieces,if_neg hc,hpieces]
    exact List.cons_ne_nil _ _

theorem components_concat {path : FilePath} {l : List String} {last : String}
    (hsegments : path.segments = l ++ [last]) (proper : last ≠ ".") :
    path.components.dropLast = FilePath.components ⟨path.absolute,l,false⟩ := by
  have hkeeps : [last].filter (· ≠ ".") = [last] :=
    List.filter_cons_of_pos (by simpa using proper)
  rw [FilePath.components,FilePath.components,hsegments]
  cases path.absolute with
  | true =>
    simp only [if_true,List.filter_append,hkeeps,List.dropLast_concat]
  | false =>
    cases l with
    | nil => rfl
    | cons s l =>
      have hsplit : (s :: l ++ [last]).take 1 ++ ((s :: l ++ [last]).drop 1).filter (· ≠ ".") =
          ([s] ++ l.filter (· ≠ ".")) ++ [last] := by
        simp only [List.cons_append,List.take_succ_cons,List.take_zero,List.drop_succ_cons,
          List.drop_zero,List.filter_append,hkeeps,List.nil_append]
      simp only [Bool.false_eq_true,if_false,hsplit,List.dropLast_concat]
      rfl

section Top
variable {path : String} {l : List String}
  (sound : Sound path)
include sound

theorem makes_root (nonempty : path ≠ "") (hnil : (FilePath.ofString path).segments = []) :
    t.Makes (t.Creatable path) (t.places path)
      (t.makeAll (.ofString path :: (FilePath.ofString path).above)) := by
  have habsolute : (FilePath.ofString path).absolute = true := by
    cases h : (FilePath.ofString path).absolute with
    | true => rfl
    | false => exact absurd hnil (segments_ne_nil nonempty h)
  have hlocate : t.locate (.ofString path) = .ok (.directory []) := by
    rw [locate,hnil,habsolute]
    rfl
  have hcreatable : t.Creatable path := by
    refine ⟨sound,hnil ▸ t.passable_nil _,fun hdot => ?_⟩
    rw [hnil] at hdot
    contradiction
  obtain ⟨hmake,hensure⟩ := ensure_directory hlocate
  rw [makeAll_eq_ensure (by simp [hmake]),hensure,places,hnil]
  exact .nothing hcreatable

theorem makes_named {last : String} (hsegments : (FilePath.ofString path).segments = l ++ [last])
    (proper : last ≠ ".") : t.Makes (t.Creatable path) (t.places path)
      (t.makeAll (.ofString path :: (FilePath.ofString path).above)) := by
  have habove := makeAll_above (.ofString path) t
  have hthrough := through_components ⟨(FilePath.ofString path).absolute,l,false⟩
    (t.start (FilePath.ofString path).absolute)
  have hpassable := passable_components ⟨(FilePath.ofString path).absolute,l,false⟩ t
    (t.start (FilePath.ofString path).absolute)
  have hfront := components_concat hsegments proper
  dsimp only at hthrough hpassable
  rw [hfront,hthrough] at habove
  have hmakes := makeAll_step hsegments (habove.of_iff hpassable.symm) (List.Subset.refl _) id
    (fun hp => (passable_append.mp hp).1) (fun _ => ensure_after hsegments)
  rw [places,hsegments]
  refine hmakes.of_iff ⟨fun hp => hsegments ▸ hp.passable,fun hp => ⟨sound,hsegments ▸ hp,?_⟩⟩
  rw [hsegments,List.getLast?_concat]
  exact fun hdot => absurd (Option.some.inj hdot) proper

theorem makes_dot (hsegments : (FilePath.ofString path).segments = l ++ ["."]) :
    t.Makes (t.Creatable path) (t.places path)
      (t.makeAll (.ofString path :: (FilePath.ofString path).above)) := by
  have hthrough := through_components (.ofString path) (t.start (FilePath.ofString path).absolute)
  have hpassable := passable_components (.ofString path) t
    (t.start (FilePath.ofString path).absolute)
  rw [hsegments,through_concat_dot] at hthrough
  rw [hsegments,passable_concat_dot] at hpassable
  have hway : through (t.start (FilePath.ofString path).absolute)
      (FilePath.ofString path).components.dropLast ⊆
        through (t.start (FilePath.ofString path).absolute) l := by
    rw [← hthrough]
    exact through_dropLast _ _
  have hmakes := makeAll_step hsegments (makeAll_above (.ofString path) t) hway
    (fun hp => passable_dropLast (hpassable.mpr hp)) And.left
    (fun _ => ensure_dot hsegments hway)
  have hplaces : t.places path = through (t.start (FilePath.ofString path).absolute) l := by
    rw [places,hsegments,through_concat_dot]
  rw [hplaces]
  refine hmakes.of_iff ⟨fun hp => ⟨?_,?_⟩,fun ⟨hp,hending⟩ => ⟨sound,?_,fun _ => ?_⟩⟩
  · exact passable_concat_dot.mp (hsegments ▸ hp.passable)
  · rw [← hplaces]
    exact hp.ending (by rw [hsegments,List.getLast?_concat])
  · rw [hsegments]
    exact passable_concat_dot.mpr hp
  · rwa [hplaces]

end Top

/-- Making the directories of a path succeeds where that is possible, makes exactly the
directories that the path leads through, and fails elsewhere. -/
theorem makeDirectories_makes (t : FileTree) (path : String) :
    t.Makes (t.Creatable path) (t.places path) (t.makeDirectories path) := by
  rw [makeDirectories]
  split
  · next hempty =>
    subst hempty
    exact .nothing ⟨⟨by decide,by decide⟩,t.passable_nil _,fun hdot => absurd hdot (by decide)⟩
  next hnonempty =>
  cases hcheck : check path with
  | error f =>
    refine ⟨fun hp => ?_,fun _ => ⟨f,rfl⟩⟩
    rw [check_eq_ok.mpr hp.sound] at hcheck
    contradiction
  | ok _ =>
    have hsound := check_eq_ok.mp hcheck
    rcases List.eq_nil_or_concat (FilePath.ofString path).segments with hnil | ⟨l,last,hconcat⟩
    · exact makes_root hsound hnonempty hnil
    rw [List.concat_eq_append] at hconcat
    by_cases hdot : last = "."
    · exact makes_dot hsound (hdot ▸ hconcat)
    · exact makes_named hsound hconcat hdot

end FileTree
end GridWorker
