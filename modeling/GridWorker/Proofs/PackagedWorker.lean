import GridWorker.Proofs.ArchiveLibrary
import GridWorker.Proofs.MadeDirectories
import GridWorker.Task.Package

/-! # What packaging leaves behind

Packaging runs one build command. Nothing is touched before the build has succeeded and the
binary has been read; then the directories on the way to the output directory are made; and at
the end one file is written, the archive, which holds the binary and nothing else. What is
found in the tree at the start decides how far it comes, and a failure leaves no trace of the
stages after it. The archive is written by a library that can be relied on.
-/
namespace GridWorker
namespace Package
open FileTree

theorem archiveName_plain (a : Architecture) : FilePath.Plain (archiveName a) := by
  cases a with
  | x86_64 => exact ⟨by decide,by decide,by decide⟩
  | arm64 => exact ⟨by decide,by decide,by decide⟩

theorem archiveName_short (a : Architecture) : (archiveName a).utf8ByteSize ≤ maxName := by
  cases a <;> decide

structure Built (t : FileTree) (a : Architecture) (binary : Bytes) : Prop where
  target : t.get? (t.working ++ ["target"]) = some .directory
  triple : t.get? (t.working ++ ["target",a.triple]) = some .directory
  release : t.get? (t.working ++ ["target",a.triple,"release"]) = some .directory
  binary : t.get? (t.working ++ ["target",a.triple,"release","mock_compute_lambda"]) =
    some (.file binary)

def archivePlace (t : FileTree) (a : Architecture) (outDir : String) : Place :=
  t.place (.ofString outDir) ++ [archiveName a]

/-- The archive can be opened in the output directory: no directory stands at its place, nor
is one made there. -/
structure Openable (t : FileTree) (a : Architecture) (outDir : String) : Prop where
  sound : Sound (archivePath a outDir)
  apart : archivePlace t a outDir ∉ t.places outDir
  free : t.get? (archivePlace t a outDir) ≠ some .directory

/-- The output directory has been made, and the archive of the binary is in it. Nothing else
has changed, and nothing has been removed. -/
structure Delivered (z : ZipLibrary) (a : Architecture) (outDir : String) (binary : Bytes)
    (t t' : FileTree) : Prop where
  working : t'.working = t.working
  archived : ∃ bytes, t'.get? (archivePlace t a outDir) = some (.file bytes) ∧
    t'.read (archivePath a outDir) = .ok bytes ∧
    z.members? bytes = some [⟨"bootstrap",0o755,binary⟩]
  created : ∀ q ∈ t.places outDir, t'.get? q = some .directory
  others : ∀ q, q ≠ archivePlace t a outDir → q ∉ t.places outDir → t'.get? q = t.get? q
  kept : ∀ q n, q ≠ archivePlace t a outDir → t.get? q = some n → t'.get? q = some n
  built : Built t' a binary

/-- How packaging ends: the first stage that cannot be done decides it, and the tree has what
the stages before it left. -/
inductive Course (z : ZipLibrary) (a : Architecture) (outDir : String) (t : FileTree)
    (launch : Launch) : Except TaskFault (Option String) → FileTree → Prop
  | unbuilt {f : BuildFault} (failed : launch ≠ .exited (.code 0)) :
      Course z a outDir t launch (.error (.build f)) t
  | unread {f : FileFault} (passed : launch = .exited (.code 0))
      (missing : ∀ binary, ¬ Built t a binary) :
      Course z a outDir t launch (.error (.read (binaryPath a) f)) t
  | uncreated {binary : Bytes} {f : FileFault} {t' : FileTree}
      (passed : launch = .exited (.code 0)) (built : Built t a binary)
      (blocked : ¬ t.Creatable outDir) (grown : t.Grown t') :
      Course z a outDir t launch (.error (.create outDir f)) t'
  | unopened {binary : Bytes} {f : FileFault} {t' : FileTree}
      (passed : launch = .exited (.code 0)) (built : Built t a binary)
      (creatable : t.Creatable outDir) (blocked : ¬ Openable t a outDir)
      (grown : t.Grown t') (laid : t.Laid t' (t.places outDir)) :
      Course z a outDir t launch (.error (.write (archivePath a outDir) f.message)) t'
  | packaged {binary : Bytes} {t' : FileTree}
      (passed : launch = .exited (.code 0)) (built : Built t a binary)
      (creatable : t.Creatable outDir) (openable : Openable t a outDir)
      (delivered : Delivered z a outDir binary t t') :
      Course z a outDir t launch (.ok (some (archivePath a outDir))) t'

/-! ## The stages -/

section Binary
variable {t : FileTree} {a : Architecture} {binary : Bytes}

theorem workerPackage_plain : FilePath.Plain Command.workerPackage :=
  ⟨by decide,by decide,by decide⟩

theorem reach_release {parent : Place} :
    t.reach (FilePath.join (FilePath.join "target" a.triple) "release") = .ok parent ↔
      (t.get? (t.working ++ ["target"]) = some .directory ∧
        t.get? (t.working ++ ["target",a.triple]) = some .directory ∧
        t.get? (t.working ++ ["target",a.triple,"release"]) = some .directory) ∧
      t.working ++ ["target",a.triple,"release"] = parent := by
  have hpath : FilePath.ofString (FilePath.join (FilePath.join "target" a.triple) "release") =
      ⟨false,["target",a.triple,"release"],false⟩ := by
    cases a <;> rfl
  have hshort : ∀ s ∈ ["target",a.triple,"release"], s.utf8ByteSize ≤ maxName := by
    cases a <;> decide
  have hthrough : through t.working ["target",a.triple,"release"] =
      [t.working ++ ["target"],t.working ++ ["target",a.triple],
        t.working ++ ["target",a.triple,"release"]] := by
    cases a <;> simp [through,next,Architecture.triple]
  have hplace : ["target",a.triple,"release"].foldl next t.working =
      t.working ++ ["target",a.triple,"release"] := by
    cases a <;> simp [next,Architecture.triple]
  rw [reach,hpath]
  change t.walk t.working _ = _ ↔ _
  rw [walk_eq_ok,hthrough,hplace]
  refine (and_iff_right hshort).trans ?_
  simp only [List.forall_mem_cons,List.not_mem_nil,false_imp_iff,implies_true,and_true]

/-- Reading the binary finds what the build has left. -/
theorem read_binaryPath : t.read (binaryPath a) = .ok binary ↔ Built t a binary := by
  have hnames (p : Place) := names_join_iff (t := t) (p := p)
    (FilePath.join (FilePath.join "target" a.triple) "release") workerPackage_plain (by decide)
  have hsound : Sound (binaryPath a) := by
    cases a <;> exact ⟨by decide,by decide⟩
  rw [read_eq_ok]
  constructor
  · rintro ⟨p,hp,hfile⟩
    obtain ⟨-,parent,hreach,rfl⟩ := (hnames p).mp hp
    obtain ⟨⟨htarget,htriple,hrelease⟩,rfl⟩ := reach_release.mp hreach
    rw [List.append_assoc] at hfile
    exact ⟨htarget,htriple,hrelease,hfile⟩
  · intro h
    have hreach := reach_release.mpr ⟨⟨h.target,h.triple,h.release⟩,rfl⟩
    refine ⟨_,(hnames _).mpr ⟨hsound,_,hreach,rfl⟩,?_⟩
    rw [List.append_assoc]
    exact h.binary

end Binary

section Archive
variable {z : ZipLibrary} {a : Architecture} {outDir : String} {t made : FileTree}
  {binary : Bytes}

/-- The place at which the archive is opened, once the output directory has been made. -/
theorem writable_iff (creatable : t.Creatable outDir) (laid : t.Laid made (t.places outDir))
    {place : Place} : made.writable (archivePath a outDir) = .ok place ↔
      Openable t a outDir ∧ place = archivePlace t a outDir := by
  have hreach : made.reach outDir = .ok (t.place (.ofString outDir)) := by
    rw [reach,laid.start]
    exact walk_eq_ok.mpr ⟨creatable.passable.short,laid.there,rfl⟩
  rw [writable_eq_ok,archivePath,names_join_iff outDir (archiveName_plain a) (archiveName_short a)]
  constructor
  · rintro ⟨⟨sound,parent,hparent,rfl⟩,hfree⟩
    obtain rfl := Except.ok.inj (hreach.symm.trans hparent)
    have hapart : archivePlace t a outDir ∉ t.places outDir :=
      fun hplace => hfree (laid.there _ hplace)
    exact ⟨⟨sound,hapart,laid.others _ hapart ▸ hfree⟩,rfl⟩
  · rintro ⟨⟨sound,hapart,hfree⟩,rfl⟩
    exact ⟨⟨sound,_,hreach,rfl⟩,(laid.others _ hapart).symm ▸ hfree⟩

/-- A reliable library writes the archive of a binary below 4 GiB. -/
theorem bootstrap_outcome (reliable : z.Reliable) (small : binary.length < 0x100000000) :
    ∃ bytes, z.outcome (bootstrap z binary) = (.ok (),bytes) ∧
      z.members? bytes = some [⟨"bootstrap",0o755,binary⟩] := by
  have hstore : bootstrap z binary = z.store [⟨entryName,⟨.deflated,0o755⟩,binary⟩] := by
    change (z.add _ >>= fun _ => z.finish) = (z.add _ >>= fun _ => pure ()) >>= fun _ => z.finish
    simp only [bind_assoc,pure_bind]
  have hfits : ZipLibrary.Fits [⟨entryName,⟨.deflated,0o755⟩,binary⟩] := by
    refine ⟨List.pairwise_singleton _ _,fun f hf => ?_,(by decide : 1 < 0x10000)⟩
    rw [List.mem_singleton.mp hf]
    exact (by decide : "bootstrap".utf8ByteSize < 0x10000)
  have haccepts := reliable.accepts _ hfits small
  rcases houtcome : z.outcome (bootstrap z binary) with ⟨r,bytes⟩
  rw [← hstore,houtcome] at haccepts
  obtain rfl : r = .ok () := haccepts
  exact ⟨bytes,rfl,reliable.holds _ bytes hfits (hstore ▸ houtcome)⟩

theorem archiveName_ne (a : Architecture) : archiveName a ≠ "mock_compute_lambda" := by
  cases a <;> decide

/-- A tree that keeps everything but the place of the archive keeps the binary. -/
theorem Built.keeps (built : Built t a binary) (openable : Openable t a outDir)
    {t' : FileTree} (working : t'.working = t.working)
    (kept : ∀ q n, q ≠ archivePlace t a outDir → t.get? q = some n → t'.get? q = some n) :
    Built t' a binary := by
  have hdirectory {q : Place} (hq : t.get? q = some .directory) : t'.get? q = some .directory :=
    kept q .directory (fun h => openable.free (h ▸ hq)) hq
  have hapart : t.working ++ ["target",a.triple,"release","mock_compute_lambda"] ≠
      archivePlace t a outDir := by
    intro h
    have hlast := congrArg List.getLast? h
    rw [archivePlace,List.getLast?_concat,List.getLast?_append] at hlast
    exact archiveName_ne a (Option.some.inj hlast).symm
  refine ⟨?_,?_,?_,?_⟩ <;> rw [working]
  · exact hdirectory built.target
  · exact hdirectory built.triple
  · exact hdirectory built.release
  · exact kept _ _ hapart built.binary

/-- Writing the archive into the tree in which the output directory has been made leaves all
else, the binary included. -/
theorem delivered_put (built : Built t a binary) (openable : Openable t a outDir)
    (creatable : t.Creatable outDir) (grown : t.Grown made) (laid : t.Laid made (t.places outDir))
    {bytes : Bytes} (members : z.members? bytes = some [⟨"bootstrap",0o755,binary⟩]) :
    Delivered z a outDir binary t (made.put (archivePlace t a outDir) (.file bytes)) := by
  have hwritable := (writable_iff creatable laid).mpr ⟨openable,rfl⟩
  obtain ⟨hnames,hfree⟩ := writable_eq_ok.mp hwritable
  have hkeeps := made.put_file_keeps bytes hfree
  have hself := made.get?_put_self (.file bytes) hnames.ne_nil
  have hother {q : Place} (hq : q ≠ archivePlace t a outDir) :=
    made.get?_put_of_ne (.file bytes) hq
  have hkept : ∀ q n, q ≠ archivePlace t a outDir → t.get? q = some n →
      (made.put (archivePlace t a outDir) (.file bytes)).get? q = some n := by
    intro q n hq hthere
    rw [hother hq]
    exact grown.kept hthere
  constructor
  case working => exact laid.working
  case archived => exact ⟨bytes,hself,read_eq_ok.mpr ⟨_,hnames.keeps hkeeps,hself⟩,members⟩
  case created => exact fun q hq => hkeeps.directories q (laid.there q hq)
  case others => exact fun q hq hplaces => (hother hq).trans (laid.others q hplaces)
  case kept => exact hkept
  case built => exact built.keeps openable laid.working hkept

/-- The stages after a build that succeeded. -/
theorem assemble_course (reliable : z.Reliable)
    (small : ∀ binary, Built t a binary → binary.length < 0x100000000) :
    Course z a outDir t (.exited (.code 0)) ((assemble z a outDir t).1.map some)
      (assemble z a outDir t).2 := by
  unfold assemble
  cases hread : t.read (binaryPath a) with
  | error f =>
    refine .unread rfl fun binary hbuilt => ?_
    rw [read_binaryPath.mpr hbuilt] at hread
    contradiction
  | ok binary =>
    have hbuilt := read_binaryPath.mp hread
    have hgrown := makeDirectories_grown t outDir
    have hmakes := makeDirectories_makes t outDir
    rcases hmade : t.makeDirectories outDir with ⟨r,made⟩
    rw [hmade] at hgrown hmakes
    by_cases hcreatable : t.Creatable outDir
    · obtain ⟨hok,hlaid⟩ := hmakes.made hcreatable
      obtain rfl : r = .ok () := hok
      obtain ⟨bytes,hbytes,hmembers⟩ := bootstrap_outcome reliable (small binary hbuilt)
      simp only [writeArchive,write,hbytes]
      cases hplace : made.writable (archivePath a outDir) with
      | error f =>
        refine .unopened rfl hbuilt hcreatable (fun hopenable => ?_) hgrown hlaid
        rw [(writable_iff hcreatable hlaid).mpr ⟨hopenable,rfl⟩] at hplace
        contradiction
      | ok place =>
        obtain ⟨hopenable,rfl⟩ := (writable_iff hcreatable hlaid).mp hplace
        exact .packaged rfl hbuilt hcreatable hopenable
          (delivered_put hbuilt hopenable hcreatable hgrown hlaid hmembers)
    · obtain ⟨f,hf⟩ := hmakes.blocked hcreatable
      obtain rfl : r = .error f := hf
      exact .uncreated rfl hbuilt hcreatable hgrown

end Archive

end Package

/-! ## The build -/

namespace BuildRun

theorem attempt_passable {c : BuildCommand} (passable : c.passable = true) (l : Launch) :
    attempt c l = match l with
      | .unavailable => ⟨[c],[],.error .unavailable⟩
      | .exited s => ⟨[c],[c],if s = .code 0 then .ok () else .error (.status c s)⟩ := by
  unfold attempt
  rw [passable]
  rfl

/-- A single command is the whole run. -/
theorem ofCommands_singleton (launches : List Launch) (c : BuildCommand) :
    ofCommands launches [c] = attempt c (launches.headD (.exited (.code 0))) := by
  rw [ofCommands]
  cases hresult : (attempt c (launches.headD (.exited (.code 0)))).result with
  | error f => rfl
  | ok _ =>
    simp only [ofCommands,List.append_nil]
    rw [← hresult]

end BuildRun

namespace Package

theorem releaseBuild_passable (a : Architecture) : (Command.releaseBuild a).passable = true := by
  cases a <;> decide

section Run
variable (z : ZipLibrary) (a : Architecture) (outDir : String) (t : FileTree)
  (launches : List Launch)

theorem ofCommand_unbuilt {f : BuildFault}
    (failed : (BuildRun.ofCommands launches [Command.releaseBuild a]).result = .error f) :
    TaskRun.ofCommand launches t (.package a outDir) z =
      ⟨BuildRun.ofCommands launches [Command.releaseBuild a],.error (.build f),t⟩ := by
  unfold TaskRun.ofCommand
  simp only [TaskRun.ofBuilds,Command.builds,failed]

theorem ofCommand_built
    (passed : (BuildRun.ofCommands launches [Command.releaseBuild a]).result = .ok ()) :
    TaskRun.ofCommand launches t (.package a outDir) z =
      ⟨BuildRun.ofCommands launches [Command.releaseBuild a],
        (assemble z a outDir t).1.map some,(assemble z a outDir t).2⟩ := by
  unfold TaskRun.ofCommand
  simp only [TaskRun.ofBuilds,Command.builds,passed]

/-- Packaging starts the build tool once, and then takes the course that the outcome of the
build, the binary, and the places of the output directory and of the archive decide. -/
theorem packaging_writes_one_archive (reliable : z.Reliable)
    (small : ∀ binary, Built t a binary → binary.length < 0x100000000) :
    let launch := launches.headD (.exited (.code 0))
    let r := TaskRun.ofCommand launches t (.package a outDir) z
    r.builds.announced = [Command.releaseBuild a] ∧
      r.builds.started = (if launch = .unavailable then [] else [Command.releaseBuild a]) ∧
      Course z a outDir t launch r.result r.tree := by
  dsimp only
  have hrun := BuildRun.ofCommands_singleton launches (Command.releaseBuild a)
  rw [BuildRun.attempt_passable (releaseBuild_passable a)] at hrun
  rcases hlaunch : launches.headD (.exited (.code 0)) with s | _ <;> rw [hlaunch] at hrun
  · by_cases hs : s = .code 0
    · subst hs
      rw [ofCommand_built z a outDir t launches (by rw [hrun]; rfl),hrun]
      refine ⟨rfl,rfl,?_⟩
      dsimp only
      exact assemble_course reliable small
    · rw [ofCommand_unbuilt z a outDir t launches (by rw [hrun]; exact if_neg hs),hrun]
      refine ⟨rfl,rfl,.unbuilt fun h => hs ?_⟩
      injection h
  · rw [ofCommand_unbuilt z a outDir t launches (by rw [hrun]),hrun]
    exact ⟨rfl,rfl,.unbuilt (by decide)⟩

end Run

section Ends
variable {z : ZipLibrary} {a : Architecture} {outDir : String} {t t' : FileTree}
  {r : Except TaskFault (Option String)} {binary : Bytes}

theorem Built.unique {binary' : Bytes} (h : Built t a binary) (h' : Built t a binary') :
    binary' = binary := by
  have hfile := h'.binary.symm.trans h.binary
  injection hfile with hfile
  injection hfile

/-- Where everything can be done, the archive is delivered. -/
theorem Course.delivered (h : Course z a outDir t (.exited (.code 0)) r t')
    (built : Built t a binary) (creatable : t.Creatable outDir)
    (openable : Openable t a outDir) :
    r = .ok (some (archivePath a outDir)) ∧ Delivered z a outDir binary t t' := by
  cases h with
  | unbuilt failed => exact absurd rfl failed
  | unread passed missing => exact absurd built (missing binary)
  | uncreated passed built blocked grown => exact absurd creatable blocked
  | unopened passed built creatable blocked grown laid => exact absurd openable blocked
  | packaged passed built' creatable openable delivered =>
    exact ⟨rfl,built.unique built' ▸ delivered⟩

end Ends

def builtBinary : Bytes :=
  [0x7F,0x45,0x4C,0x46] ++ (List.range 36).map UInt8.ofNat

def builtTree : FileTree where
  nodes := [(["w"],.directory),(["w","target"],.directory),
    (["w","target","aarch64-unknown-linux-gnu"],.directory),
    (["w","target","aarch64-unknown-linux-gnu","release"],.directory),
    (["w","target","aarch64-unknown-linux-gnu","release","mock_compute_lambda"],
      .file builtBinary)]
  working := ["w"]

theorem builtTree_built : Built builtTree .arm64 builtBinary := ⟨rfl,rfl,rfl,rfl⟩

theorem builtTree_creatable : builtTree.Creatable "out/zips" := by
  have hplaces : builtTree.places "out/zips" = [["w","out"],["w","out","zips"]] := rfl
  refine ⟨⟨by decide,by decide⟩,⟨by decide,fun q hq content => ?_⟩,by decide⟩
  change q ∈ builtTree.places "out/zips" at hq
  have hfree : ∀ q ∈ builtTree.places "out/zips", builtTree.get? q = none := by
    rw [hplaces]
    decide
  rw [hfree q hq]
  nofun

theorem builtTree_openable : Openable builtTree .arm64 "out/zips" :=
  ⟨⟨by decide,by decide⟩,by decide,by decide⟩

/-- The output directory is made, with the one above it, and the archive is written. -/
theorem packaging_of_builtTree :
    ZipLibrary.plain.Reliable ∧
      (∀ binary, Built builtTree .arm64 binary → binary.length < 0x100000000) ∧
      let r := TaskRun.ofCommand [] builtTree (.package .arm64 "out/zips") .plain
      r.builds.announced = [Command.releaseBuild .arm64] ∧
        r.builds.started = [Command.releaseBuild .arm64] ∧
        r.result = .ok (some "out/zips/mock_compute-arm64.zip") ∧
        Delivered .plain .arm64 "out/zips" builtBinary builtTree r.tree := by
  have hsmall : ∀ binary, Built builtTree .arm64 binary → binary.length < 0x100000000 := by
    intro binary h
    rw [builtTree_built.unique h]
    decide
  obtain ⟨hannounced,hstarted,hcourse⟩ := packaging_writes_one_archive .plain .arm64 "out/zips"
    builtTree [] ZipLibrary.plain_reliable hsmall
  obtain ⟨hresult,hdelivered⟩ :=
    hcourse.delivered builtTree_built builtTree_creatable builtTree_openable
  have hpath : archivePath .arm64 "out/zips" = "out/zips/mock_compute-arm64.zip" := by decide
  rw [hpath] at hresult
  exact ⟨ZipLibrary.plain_reliable,hsmall,hannounced,hstarted,hresult,hdelivered⟩

/-- A file stands in the way of the output directory. -/
example : (assemble .plain .arm64 "out/zips" (builtTree.put ["w","out"] (.file []))).1 =
    .error (.create "out/zips" .notADirectory) := rfl

end Package
end GridWorker
