import GridWorker.Proofs.WrittenOptions

/-! # Measurements and packages on the command line

The options of a package come in any order and in either form, and a default need not be
written. A measurement takes one baseline, in either form: with two options it is refused, so
that no baseline is given in vain.
-/
namespace GridWorker
namespace Command
open Options

variable {args tokens : List String} {given : List (String × String)} {p : String × String}
variable {a : Architecture} {outDir : String} {saveBaseline baseline : Option String}

theorem benchRules_plain : ∀ rule ∈ benchRules, rule.Plain := by
  rw [benchRules,List.forall_mem_cons,List.forall_mem_singleton]
  exact ⟨⟨by decide,by decide,by decide⟩,⟨by decide,by decide,by decide⟩⟩

theorem packageRules_plain : ∀ rule ∈ packageRules, rule.Plain := by
  rw [packageRules,List.forall_mem_cons,List.forall_mem_singleton]
  exact ⟨⟨by decide,by decide,by decide⟩,⟨by decide,by decide,by decide⟩⟩

/-! ## Packages -/

/-- The options give this architecture and this directory, each at most once, and leave out
nothing but a default. -/
structure Gives (a : Architecture) (outDir : String) (given : List (String × String)) : Prop where
  only : ∀ p ∈ given, p = ("arch",a.name) ∨ p = ("out-dir",outDir)
  once : given.Nodup
  architecture : a ≠ .x86_64 → ("arch",a.name) ∈ given
  directory : outDir ≠ "target/lambda" → ("out-dir",outDir) ∈ given

theorem ofName?_name (a : Architecture) : Architecture.ofName? a.name = some a := by
  cases a <;> rfl

theorem accepted_package (named : outDir ≠ "")
    (h : p = ("arch",a.name) ∨ p = ("out-dir",outDir)) : Accepted packageRules p := by
  rcases h with rfl | rfl
  · exact ⟨archRule,rfl,congrArg Option.isSome (ofName?_name a)⟩
  · exact ⟨outDirRule,rfl,decide_eq_true named⟩

theorem Gives.names_nodup (h : Gives a outDir given) : (given.map Prod.fst).Nodup := by
  refine List.pairwise_map.mpr (h.once.imp_of_mem fun {p q} hp hq hne => ?_)
  rcases h.only p hp with rfl | rfl <;> rcases h.only q hq with rfl | rfl
  · exact absurd rfl hne
  · exact (by decide : "arch" ≠ "out-dir")
  · exact (by decide : "out-dir" ≠ "arch")
  · exact absurd rfl hne

/-- An option that is given in no other way is found, or left out. -/
theorem lookup_cases {name value : String} {omitted : Prop} [Decidable omitted]
    (only : ∀ v, (name,v) ∈ given → v = value) (written : ¬ omitted → (name,value) ∈ given) :
    given.lookup name = some value ∨ given.lookup name = none ∧ omitted := by
  cases hlook : given.lookup name with
  | some v => exact Or.inl (congrArg some (only v (mem_of_lookup hlook)))
  | none =>
    refine Or.inr ⟨rfl,Decidable.byContradiction fun hother => ?_⟩
    have hname := List.mem_map_of_mem (f := Prod.fst) (written hother)
    rw [← lookup_isSome_iff,hlook] at hname
    cases hname

theorem Gives.lookup_arch (h : Gives a outDir given) :
    ((given.lookup "arch").bind Architecture.ofName?).getD .x86_64 = a := by
  have honly : ∀ v, ("arch",v) ∈ given → v = a.name := by
    intro v hv
    rcases h.only _ hv with hv | hv
    · exact (Prod.mk.inj hv).2
    · exact absurd (Prod.mk.inj hv).1 (by decide)
  rcases lookup_cases honly h.architecture with hlook | ⟨hlook,rfl⟩ <;> rw [hlook]
  · exact congrArg (Option.getD · .x86_64) (ofName?_name a)
  · rfl

theorem Gives.lookup_outDir (h : Gives a outDir given) :
    (given.lookup "out-dir").getD "target/lambda" = outDir := by
  have honly : ∀ v, ("out-dir",v) ∈ given → v = outDir := by
    intro v hv
    rcases h.only _ hv with hv | hv
    · exact absurd (Prod.mk.inj hv).1 (by decide)
    · exact (Prod.mk.inj hv).2
  rcases lookup_cases honly h.directory with hlook | ⟨hlook,rfl⟩ <;> rw [hlook] <;> rfl

theorem parse_package (named : outDir ≠ "") (h : Gives a outDir given) (line : Line given args) :
    parse ("package" :: args) = .ok (.package a outDir) := by
  have hread : read packageRules .package args = .ok given := by
    rw [read_line packageRules_plain line fun p hp => accepted_package named (h.only p hp),
      if_pos h.names_nodup]
  change parsePackage args = _
  rw [parsePackage,hread]
  change Except.ok (package (((given.lookup "arch").bind Architecture.ofName?).getD .x86_64)
    ((given.lookup "out-dir").getD "target/lambda")) = _
  rw [h.lookup_arch,h.lookup_outDir]

/-! ## Measurements -/

def GivesBaseline (p : String × String) : Prop := p.1 = "save-baseline" ∨ p.1 = "baseline"

theorem accepted_bench_iff : Accepted benchRules p ↔ GivesBaseline p := by
  obtain ⟨name,value⟩ := p
  constructor
  · rintro ⟨rule,hrule,-⟩
    have hfound := List.find?_some hrule
    have hname : rule.name = name := of_decide_eq_true hfound
    have hmem := List.mem_of_find?_eq_some hrule
    rw [benchRules,List.mem_cons,List.mem_singleton] at hmem
    rcases hmem with rfl | rfl
    · exact Or.inl hname.symm
    · exact Or.inr hname.symm
  · rintro (h | h) <;> obtain rfl : name = _ := h
    · exact ⟨saveBaselineRule,rfl,rfl⟩
    · exact ⟨baselineRule,rfl,rfl⟩

theorem parseBench_of_read (h : read benchRules .bench args = .ok given) :
    parseBench args = match given.lookup "save-baseline",given.lookup "baseline" with
      | some _,some _ => .error .conflict
      | saveBaseline,baseline => .ok (.bench saveBaseline baseline) := by
  rw [parseBench,h]
  rfl

theorem parseBench_of_error {f : UsageFault} (h : read benchRules .bench args = .error f) :
    parseBench args = .error f := by
  rw [parseBench,h]
  rfl

/-- With two options that differ in name, both baselines are given. -/
theorem both_given {q : String × String} {rest : List (String × String)}
    (names : ((p :: q :: rest).map Prod.fst).Nodup)
    (baselines : ∀ x ∈ p :: q :: rest, GivesBaseline x) :
    (∃ name, (p :: q :: rest).lookup "save-baseline" = some name) ∧
      ∃ name, (p :: q :: rest).lookup "baseline" = some name := by
  have hne : p.1 ≠ q.1 := fun h =>
    (List.nodup_cons.mp names).1 (h ▸ List.mem_cons_self)
  have hp := baselines p List.mem_cons_self
  have hq := baselines q (List.mem_cons_of_mem _ List.mem_cons_self)
  simp only [← Option.isSome_iff_exists,lookup_isSome_iff,List.map_cons,List.mem_cons]
  rcases hp with hp | hp <;> rcases hq with hq | hq
  · exact absurd (hp.trans hq.symm) hne
  · exact ⟨Or.inl hp.symm,Or.inr (Or.inl hq.symm)⟩
  · exact ⟨Or.inr (Or.inl hq.symm),Or.inl hp.symm⟩
  · exact absurd (hp.trans hq.symm) hne

theorem read_bench_one {name value : String} (baseline : GivesBaseline (name,value))
    (written : Written name value args) :
    read benchRules .bench args = .ok [(name,value)] := by
  have haccepted : ∀ x ∈ [(name,value)], Accepted benchRules x :=
    List.forall_mem_singleton.mpr (accepted_bench_iff.mpr baseline)
  have hread := read_line (t := .bench) benchRules_plain (.single written) haccepted
  exact hread.trans (if_pos (List.pairwise_singleton _ _))

theorem parse_bench_many (line : Line given args) (baselines : ∀ x ∈ given, GivesBaseline x)
    (many : 2 ≤ given.length) : parse ("bench" :: args) = .error .conflict := by
  have haccepted := fun x hx => accepted_bench_iff.mpr (baselines x hx)
  have hread := read_line (t := .bench) benchRules_plain line haccepted
  change parseBench args = _
  by_cases hnames : (given.map Prod.fst).Nodup
  · rw [if_pos hnames] at hread
    match given, many with
    | p :: q :: rest, _ =>
      obtain ⟨⟨save,hsave⟩,⟨name,hname⟩⟩ := both_given hnames baselines
      rw [parseBench_of_read hread,hsave,hname]
  · rw [if_neg hnames] at hread
    exact parseBench_of_error hread

/-- What the options of a measurement mean. -/
inductive Means : List (String × String) → Option String → Option String → Prop
  | nothing : Means [] none none
  | saved (value : String) : Means [("save-baseline",value)] (some value) none
  | compared (value : String) : Means [("baseline",value)] none (some value)

theorem parseBench_eq_ok (h : parseBench args = .ok (.bench saveBaseline baseline)) :
    ∃ given, read benchRules .bench args = .ok given ∧ Means given saveBaseline baseline := by
  cases hread : read benchRules .bench args with
  | error f =>
    rw [parseBench_of_error hread] at h
    cases h
  | ok given =>
    obtain ⟨-,-,-,-,-,hnames,haccepted⟩ := read_eq_ok hread
    have hbaselines := fun x hx => accepted_bench_iff.mp (haccepted x hx)
    rw [parseBench_of_read hread] at h
    refine ⟨given,rfl,?_⟩
    match given with
    | [] =>
      injection Except.ok.inj h with hsave hbaseline
      rw [← hsave,← hbaseline]
      exact .nothing
    | [(name,value)] =>
      rcases hbaselines _ List.mem_cons_self with hname | hname <;>
        obtain rfl : name = _ := hname <;>
        injection Except.ok.inj h with hsave hbaseline <;>
        rw [← hsave,← hbaseline]
      · exact .saved value
      · exact .compared value
    | p :: q :: rest =>
      obtain ⟨⟨save,hsave⟩,⟨name,hname⟩⟩ := both_given hnames hbaselines
      rw [hsave,hname] at h
      cases h

theorem eq_of_ofName?_bench {name : String} (h : Topic.ofName? name = some .bench) :
    name = "bench" := by
  unfold Topic.ofName? at h
  split at h
  · cases h
  · rfl
  · cases h
  · cases h
  · cases h
  · cases h

theorem parse_eq_bench (h : parse args = .ok (.bench saveBaseline baseline)) :
    ∃ rest, args = "bench" :: rest ∧ parseBench rest = .ok (.bench saveBaseline baseline) := by
  cases args with
  | nil => cases h
  | cons arg rest =>
    unfold parse at h
    dsimp only at h
    split at h
    · unfold parseNamed at h
      split at h
      · obtain ⟨_,-,h⟩ := bind_eq_ok h
        cases h
      · rename_i htopic
        rw [eq_of_ofName?_bench htopic]
        exact ⟨rest,rfl,h⟩
      · obtain ⟨_,-,h⟩ := bind_eq_ok h
        cases h
      · obtain ⟨_,-,h⟩ := bind_eq_ok h
        cases h
      · cases h
      · cases h
    · cases h
    · cases h
    · cases h

end Command

open Command Options

/-- However the options of a package are written, in any order and form and with defaults left
out, they name the same package. A measurement with one baseline has just that one, and with
more than one option it is refused. So no command line has both baselines, and the one that is
written is passed on as it is. -/
theorem option_forms_are_read_alike :
    (∀ (a : Architecture) (outDir : String) (given : List (String × String)) (args : List String),
      outDir ≠ "" → Gives a outDir given → Line given args →
        parse ("package" :: args) = .ok (.package a outDir)) ∧
    (∀ (name : String) (args : List String),
      (Written "save-baseline" name args →
        parse ("bench" :: args) = .ok (.bench (some name) none)) ∧
      (Written "baseline" name args →
        parse ("bench" :: args) = .ok (.bench none (some name)))) ∧
    (∀ (given : List (String × String)) (args : List String), Line given args →
      (∀ p ∈ given, p.1 = "save-baseline" ∨ p.1 = "baseline") → 2 ≤ given.length →
        parse ("bench" :: args) = .error .conflict) ∧
    ∀ (args : List String) (saveBaseline baseline : Option String),
      parse args = .ok (.bench saveBaseline baseline) →
        (saveBaseline = none ∨ baseline = none) ∧
        ∃ given tokens tail, args = "bench" :: tokens ++ tail ∧ (tail = [] ∨ tail = ["--"]) ∧
          Line given tokens ∧ Means given saveBaseline baseline ∧
          ∀ p ∈ given, (Command.bench saveBaseline baseline).builds =
            [⟨["bench","-p","mock_compute_core","--bench","computation","--",
              "--" ++ p.1,p.2]⟩] := by
  refine ⟨?_,?_,?_,?_⟩
  · intro a outDir given args named gives line
    exact parse_package named gives line
  · intro name args
    constructor <;> intro written
    · have hread := read_bench_one (Or.inl rfl) written
      exact parseBench_of_read hread
    · have hread := read_bench_one (Or.inr rfl) written
      exact parseBench_of_read hread
  · intro given args line baselines many
    exact parse_bench_many line baselines many
  · intro args saveBaseline baseline h
    obtain ⟨rest,rfl,hbench⟩ := parse_eq_bench h
    obtain ⟨given,hread,hmeans⟩ := parseBench_eq_ok hbench
    obtain ⟨tokens,tail,rfl,htail,hline,-⟩ := read_eq_ok hread
    refine ⟨?_,given,tokens,tail,rfl,htail,hline,hmeans,?_⟩
    · cases hmeans with
      | nothing => exact Or.inl rfl
      | saved value => exact Or.inr rfl
      | compared value => exact Or.inl rfl
    · intro p hp
      cases hmeans with
      | nothing => cases hp
      | saved value =>
        rw [List.mem_singleton.mp hp]
        rfl
      | compared value =>
        rw [List.mem_singleton.mp hp]
        rfl

/-- The default architecture may be named or not; a name with an equals sign and a dash is still
one of two baselines. -/
theorem mixed_forms_are_read :
    parse ["package","--out-dir","a b","--arch=x86_64"] = .ok (.package .x86_64 "a b") ∧
    parse ["package","--out-dir=a b"] = .ok (.package .x86_64 "a b") ∧
    parse ["bench","--baseline","a b","--save-baseline=-x=y"] = .error .conflict := by
  obtain ⟨hpackage,-,hbench,-⟩ := option_forms_are_read_alike
  refine ⟨?_,?_,?_⟩
  · refine hpackage .x86_64 "a b" [("out-dir","a b"),("arch","x86_64")] _ (by decide) ?_
      (.cons (.separate (Or.inr (by decide))) (.cons .attached .nil))
    exact ⟨by decide,by decide,by decide,by decide⟩
  · refine hpackage .x86_64 "a b" [("out-dir","a b")] _ (by decide) ?_ (.cons .attached .nil)
    exact ⟨by decide,by decide,by decide,by decide⟩
  · exact hbench [("baseline","a b"),("save-baseline","-x=y")] _
      (.cons (.separate (Or.inr (by decide))) (.cons .attached .nil)) (by decide) (by decide)

end GridWorker
