import GridWorker.Proofs.PackagedWorker
import GridWorker.Task.Runner

/-! # Sequences of build commands

Testing, measuring and checking everything are sequences of build commands. They are carried
out one by one: a command is announced, the build tool is started with it, and the first
command that does not exit with zero ends the sequence. What has been announced and started by
then is a prefix of the sequence, and the last line names the command at its end.
-/
namespace GridWorker

inductive BuildMove where
  | announce (c : BuildCommand)
  | start (c : BuildCommand)
deriving DecidableEq

namespace BuildMove

def announced? : BuildMove → Option BuildCommand
  | .announce c => some c
  | .start _ => none

def started? : BuildMove → Option BuildCommand
  | .announce _ => none
  | .start c => some c

end BuildMove

/-! ## Stages -/

/-- The moves made so far, and what comes of the starts that follow. -/
structure Workshop where
  moves : List BuildMove
  launches : List Launch

abbrev Building := ExceptT BuildFault (StateM Workshop)

namespace Building

def move (m : BuildMove) : Building Unit := modify fun w => { w with moves := w.moves ++ [m] }

def nextLaunch : Building Launch :=
  modifyGet fun w => (w.launches.headD (.exited (.code 0)),{ w with launches := w.launches.tail })

def await (c : BuildCommand) : Launch → Building Unit
  | .unavailable => throw .unavailable
  | .exited s => do
    move (.start c)
    if s = .code 0 then return else throw (.status c s)

def execute (c : BuildCommand) : Building Unit := do
  move (.announce c)
  if c.passable then await c (← nextLaunch) else throw .nulByte

theorem execute_refused {c : BuildCommand} (nul : c.passable = false) (w : Workshop) :
    (execute c).run.run w = (.error .nulByte,⟨w.moves ++ [.announce c],w.launches⟩) := by
  rw [execute,nul]
  rfl

theorem execute_passable {c : BuildCommand} (passable : c.passable = true) (w : Workshop) :
    (execute c).run.run w = (await c (w.launches.headD (.exited (.code 0)))).run.run
      ⟨w.moves ++ [.announce c],w.launches.tail⟩ := by
  rw [execute,passable]
  rfl

theorem await_exited (c : BuildCommand) (s : ExitStatus) (w : Workshop) :
    (await c (.exited s)).run.run w =
      (if s = .code 0 then .ok () else .error (.status c s),
        ⟨w.moves ++ [.start c],w.launches⟩) := by
  by_cases hs : s = .code 0
  · subst hs
    rfl
  · simp only [await,if_neg hs]
    rfl

def tests : Building Unit := do
  execute ⟨["test","-p",Command.corePackage]⟩
  execute ⟨["test","-p",Command.workerPackage]⟩

def measurement (saveBaseline baseline : Option String) : Building Unit :=
  execute ⟨["bench","-p",Command.corePackage,"--bench","computation"] ++
    Command.baselineArguments saveBaseline baseline⟩

def fullCheck : Building Unit := do
  execute ⟨["fmt","--all","--","--check"]⟩
  execute ⟨["clippy","--all-targets","--","-D","warnings"]⟩
  tests

end Building

def Command.stages : Command → Building Unit
  | .test => Building.tests
  | .bench saveBaseline baseline => Building.measurement saveBaseline baseline
  | .ci => Building.fullCheck
  | .package a _ => Building.execute (releaseBuild a)

theorem Command.stages_eq (c : Command) : c.stages = c.builds.forM Building.execute := by
  cases c with
  | test => simp [stages,builds,testBuilds,Building.tests]
  | bench saveBaseline baseline => simp [stages,builds,Building.measurement]
  | ci => simp [stages,builds,testBuilds,Building.fullCheck,Building.tests]
  | package a outDir => simp [stages,builds]

/-! ## How a sequence goes -/

/-- What comes of one command, given what comes of starting the tool: the moves, and whether
the sequence goes on. -/
inductive BuildCommand.Attempt (c : BuildCommand) :
    Launch → List BuildMove → Except BuildFault Unit → Prop
  | refused {l : Launch} (nul : c.passable = false) :
      c.Attempt l [.announce c] (.error .nulByte)
  | missing (passable : c.passable = true) :
      c.Attempt .unavailable [.announce c] (.error .unavailable)
  | failed {s : ExitStatus} (passable : c.passable = true) (nonzero : s ≠ .code 0) :
      c.Attempt (.exited s) [.announce c,.start c] (.error (.status c s))
  | passed (passable : c.passable = true) :
      c.Attempt (.exited (.code 0)) [.announce c,.start c] (.ok ())

def BuildCommand.Passes (c : BuildCommand) (l : Launch) : Prop :=
  c.passable = true ∧ l = .exited (.code 0)

def Launch.ofIndex (launches : List Launch) (i : Nat) : Launch :=
  launches.getD i (.exited (.code 0))

theorem Launch.ofIndex_zero (launches : List Launch) :
    ofIndex launches 0 = launches.headD (.exited (.code 0)) := by
  cases launches <;> rfl

theorem Launch.ofIndex_succ (launches : List Launch) (i : Nat) :
    ofIndex launches (i + 1) = ofIndex launches.tail i := by
  cases launches <;> rfl

/-- The text of the fault names the command and the status that it exited with, or says that
the command could not be executed. -/
def BuildFault.Blames (f : BuildFault) (c : BuildCommand) (l : Launch) : Prop :=
  (∃ s, l = .exited s ∧ s ≠ .code 0 ∧ f.message =
    "`cargo " ++ String.intercalate " " c.arguments ++ "` exited with " ++ s.message) ∨
  (c.passable = false ∨ l = .unavailable) ∧ ∃ why, f.message = "failed to execute cargo: " ++ why

namespace BuildCommand.Attempt
variable {c : BuildCommand} {l : Launch} {moves : List BuildMove}

theorem passes (h : c.Attempt l moves (.ok ())) :
    c.Passes l ∧ moves = [.announce c,.start c] := by
  cases h with
  | passed passable => exact ⟨⟨passable,rfl⟩,rfl⟩

theorem announced {r : Except BuildFault Unit} (h : c.Attempt l moves r) :
    moves.filterMap BuildMove.announced? = [c] := by
  cases h <;> rfl

theorem blames {f : BuildFault} (h : c.Attempt l moves (.error f)) : f.Blames c l := by
  cases h with
  | refused nul => exact Or.inr ⟨Or.inl nul,"nul byte found in provided data",rfl⟩
  | missing passable => exact Or.inr ⟨Or.inr rfl,"No such file or directory (os error 2)",rfl⟩
  | @failed s passable nonzero =>
    refine Or.inl ⟨s,rfl,nonzero,?_⟩
    rw [BuildFault.message,text,← String.append_assoc]
    rfl

end BuildCommand.Attempt

namespace BuildRun
open BuildCommand

def AllPass (launches : List Launch) (commands : List BuildCommand) : Prop :=
  ∀ (i : Nat) (c : BuildCommand), commands[i]? = some c → c.Passes (Launch.ofIndex launches i)

def passedMoves (commands : List BuildCommand) : List BuildMove :=
  commands.flatMap fun c => [.announce c,.start c]

theorem announced_passedMoves (commands : List BuildCommand) :
    (passedMoves commands).filterMap BuildMove.announced? = commands := by
  induction commands with
  | nil => rfl
  | cons c rest ih => exact congrArg (c :: ·) ih

/-- How a sequence goes: all its commands pass, or one is the first that does not. -/
inductive Course (launches : List Launch) (commands : List BuildCommand) :
    List BuildMove → Except BuildFault Unit → Prop
  | finished (passed : AllPass launches commands) :
      Course launches commands (passedMoves commands) (.ok ())
  | stopped {before after : List BuildCommand} {c : BuildCommand} {moves : List BuildMove}
      {f : BuildFault} (cut : commands = before ++ c :: after) (passed : AllPass launches before)
      (attempt : c.Attempt (Launch.ofIndex launches before.length) moves (.error f)) :
      Course launches commands (passedMoves before ++ moves) (.error f)

section Sequence
variable {launches : List Launch} {c : BuildCommand} {rest : List BuildCommand}
variable {moves : List BuildMove} {r : Except BuildFault Unit}

theorem AllPass.cons (head : c.Passes (launches.headD (.exited (.code 0))))
    (h : AllPass launches.tail rest) : AllPass launches (c :: rest) := by
  intro i b hb
  cases i with
  | zero =>
    obtain rfl : c = b := Option.some.inj hb
    rwa [Launch.ofIndex_zero]
  | succ i =>
    rw [Launch.ofIndex_succ]
    exact h i b hb

theorem Course.cons (head : c.Passes (launches.headD (.exited (.code 0))))
    (h : Course launches.tail rest moves r) :
    Course launches (c :: rest) ([.announce c,.start c] ++ moves) r := by
  cases h with
  | finished passed => exact .finished (passed.cons head)
  | @stopped before after b moves f cut passed attempt =>
    have hcut : c :: rest = (c :: before) ++ b :: after := congrArg (c :: ·) cut
    rw [← List.append_assoc]
    refine .stopped hcut (passed.cons head) ?_
    rwa [List.length_cons,Launch.ofIndex_succ]

theorem Course.head {f : BuildFault}
    (attempt : c.Attempt (launches.headD (.exited (.code 0))) moves (.error f)) :
    Course launches (c :: rest) moves (.error f) := by
  have hcut : c :: rest = [] ++ c :: rest := rfl
  rw [← Launch.ofIndex_zero] at attempt
  exact .stopped hcut nofun attempt

/-- A sequence succeeds if and only if each of its commands passes. -/
theorem Course.ok_iff {commands : List BuildCommand} (h : Course launches commands moves r) :
    r = .ok () ↔ AllPass launches commands := by
  cases h with
  | finished passed => exact ⟨fun _ => passed,fun _ => rfl⟩
  | @stopped before after c moves f cut passed attempt =>
    refine ⟨nofun,fun all => ?_⟩
    obtain ⟨hpassable,hzero⟩ := all before.length c (by simp [cut])
    rw [hzero] at attempt
    cases attempt with
    | refused nul => exact absurd (nul.symm.trans hpassable) Bool.false_ne_true
    | failed passable nonzero => exact absurd rfl nonzero

/-- The fault is about the last command announced, and those announced are a prefix. -/
theorem Course.blames {commands : List BuildCommand} {f : BuildFault}
    (h : Course launches commands moves (.error f)) :
    ∃ before b after, commands = before ++ b :: after ∧
      moves.filterMap BuildMove.announced? = before ++ [b] ∧
      f.Blames b (Launch.ofIndex launches before.length) := by
  cases h with
  | @stopped before after c moves f cut passed attempt =>
    refine ⟨before,c,after,cut,?_,attempt.blames⟩
    rw [List.filterMap_append,announced_passedMoves,attempt.announced]

end Sequence

theorem attempt_spec (c : BuildCommand) (l : Launch) :
    ∃ moves, c.Attempt l moves (attempt c l).result ∧
      (attempt c l).announced = moves.filterMap BuildMove.announced? ∧
      (attempt c l).started = moves.filterMap BuildMove.started? := by
  cases hpassable : c.passable with
  | false =>
    have hattempt : attempt c l = ⟨[c],[],.error .nulByte⟩ := by
      unfold attempt
      rw [hpassable]
      rfl
    rw [hattempt]
    exact ⟨_,.refused hpassable,rfl,rfl⟩
  | true =>
    rw [attempt_passable hpassable]
    cases l with
    | unavailable => exact ⟨_,.missing hpassable,rfl,rfl⟩
    | exited s =>
      by_cases hs : s = .code 0
      · subst hs
        exact ⟨_,.passed hpassable,rfl,rfl⟩
      · dsimp only
        rw [if_neg hs]
        exact ⟨_,.failed hpassable hs,rfl,rfl⟩

/-- A command is executed as it is attempted. -/
theorem execute_run {c : BuildCommand} {w : Workshop} {moves : List BuildMove}
    {r : Except BuildFault Unit} (h : c.Attempt (w.launches.headD (.exited (.code 0))) moves r) :
    ∃ launches, (Building.execute c).run.run w = (r,⟨w.moves ++ moves,launches⟩) ∧
      (r = .ok () → launches = w.launches.tail) := by
  generalize hl : w.launches.headD (.exited (.code 0)) = l at h
  cases h with
  | refused nul => exact ⟨_,Building.execute_refused nul w,nofun⟩
  | missing passable =>
    rw [Building.execute_passable passable,hl]
    exact ⟨_,rfl,nofun⟩
  | failed passable nonzero =>
    rw [Building.execute_passable passable,hl,Building.await_exited,if_neg nonzero,
      List.append_assoc]
    exact ⟨_,rfl,nofun⟩
  | passed passable =>
    rw [Building.execute_passable passable,hl,Building.await_exited,List.append_assoc]
    exact ⟨_,rfl,fun _ => rfl⟩

section Cons
variable {launches : List Launch} {c : BuildCommand} {rest : List BuildCommand}

theorem ofCommands_of_error {f : BuildFault}
    (h : (attempt c (launches.headD (.exited (.code 0)))).result = .error f) :
    ofCommands launches (c :: rest) = attempt c (launches.headD (.exited (.code 0))) := by
  rw [ofCommands,h]

theorem ofCommands_of_ok
    (h : (attempt c (launches.headD (.exited (.code 0)))).result = .ok ()) :
    ofCommands launches (c :: rest) =
      ⟨(attempt c (launches.headD (.exited (.code 0)))).announced ++
          (ofCommands launches.tail rest).announced,
        (attempt c (launches.headD (.exited (.code 0)))).started ++
          (ofCommands launches.tail rest).started,
        (ofCommands launches.tail rest).result⟩ := by
  rw [ofCommands,h]

end Cons

/-- A sequence of commands is executed as it is run, and takes its course. -/
theorem forM_execute (commands : List BuildCommand) (w : Workshop) :
    ∃ moves launches, Course w.launches commands moves (ofCommands w.launches commands).result ∧
      (ofCommands w.launches commands).announced = moves.filterMap BuildMove.announced? ∧
      (ofCommands w.launches commands).started = moves.filterMap BuildMove.started? ∧
      (commands.forM Building.execute).run.run w =
        ((ofCommands w.launches commands).result,⟨w.moves ++ moves,launches⟩) := by
  induction commands generalizing w with
  | nil =>
    refine ⟨[],w.launches,.finished nofun,rfl,rfl,?_⟩
    rw [List.append_nil]
    rfl
  | cons c rest ih =>
    obtain ⟨moves,hattempt,hannounced,hstarted⟩ :=
      attempt_spec c (w.launches.headD (.exited (.code 0)))
    obtain ⟨launches,hrun,htail⟩ := execute_run hattempt
    have hcons := run_then (Building.execute c) (rest.forM Building.execute) w
    change ((c :: rest).forM Building.execute).run.run w = _ at hcons
    rw [hrun] at hcons
    cases hresult : (attempt c (w.launches.headD (.exited (.code 0)))).result with
    | error f =>
      rw [hresult] at hattempt hcons
      rw [ofCommands_of_error hresult]
      exact ⟨moves,launches,hresult ▸ .head hattempt,hannounced,hstarted,hresult ▸ hcons⟩
    | ok u =>
      rw [hresult] at hattempt hcons htail
      obtain ⟨hpasses,rfl⟩ := hattempt.passes
      obtain rfl := htail rfl
      obtain ⟨later,left,hcourse,hannounced',hstarted',hlater⟩ := ih ⟨_,w.launches.tail⟩
      rw [ofCommands_of_ok hresult]
      refine ⟨_,left,.cons hpasses hcourse,?_,?_,?_⟩
      · rw [List.filterMap_append,hannounced,hannounced']
      · rw [List.filterMap_append,hstarted,hstarted']
      · rw [hcons,← List.append_assoc]
        exact hlater

end BuildRun

/-! ## Tasks -/

inductive Command.Lists : Command → List BuildCommand → Prop
  | tests : Lists .test
      [⟨["test","-p","mock_compute_core"]⟩,⟨["test","-p","mock_compute_lambda"]⟩]
  | fullCheck {tests : List BuildCommand} (h : Lists .test tests) : Lists .ci
      (⟨["fmt","--all","--","--check"]⟩ ::
        ⟨["clippy","--all-targets","--","-D","warnings"]⟩ :: tests)
  | measurement : Lists (.bench none none)
      [⟨["bench","-p","mock_compute_core","--bench","computation"]⟩]
  | saved (name : String) (baseline : Option String) : Lists (.bench (some name) baseline)
      [⟨["bench","-p","mock_compute_core","--bench","computation","--","--save-baseline",name]⟩]
  | compared (name : String) : Lists (.bench none (some name))
      [⟨["bench","-p","mock_compute_core","--bench","computation","--","--baseline",name]⟩]

section Tasks
variable {c : Command} (unpackaged : ∀ a outDir, c ≠ .package a outDir)
include unpackaged

theorem Command.lists_builds : c.Lists c.builds := by
  cases c with
  | test => exact .tests
  | bench saveBaseline baseline =>
    cases saveBaseline with
    | some name => exact .saved name baseline
    | none =>
      cases baseline with
      | some name => exact .compared name
      | none => exact .measurement
  | ci => exact .fullCheck .tests
  | package a outDir => exact absurd rfl (unpackaged a outDir)

theorem TaskRun.ofCommand_unpackaged (launches : List Launch) (t : FileTree) :
    ofCommand launches t c = ofBuilds launches t c.builds := by
  cases c with
  | package a outDir => exact absurd rfl (unpackaged a outDir)
  | _ => rfl

/-- The end of a task without a package: no line follows its commands where they succeed, and
one with the fault where they fail. -/
theorem Finished.run_unpackaged (launches : List Launch) (t : FileTree) {args : List String}
    (parsed : Command.parse args = .ok c) :
    let r := BuildRun.ofCommands launches c.builds
    (r.result = .ok () → run launches t args = ⟨0,"",r.printed,r.started,t⟩) ∧
    ∀ f, r.result = .error f →
      run launches t args = ⟨1,"",r.printed ++ ("xtask: " ++ f.message ++ "\n"),r.started,t⟩ := by
  intro r
  have hrun : run launches t args = ofTask c (.ofBuilds launches t c.builds) := by
    rw [run,parsed,← TaskRun.ofCommand_unpackaged unpackaged]
  have hlast : lastLine c (.ok none) = "" := by
    cases c <;> rfl
  refine ⟨fun h => ?_,fun f h => ?_⟩
  · change (BuildRun.ofCommands launches c.builds).result = .ok () at h
    simp only [hrun,ofTask,TaskRun.ofBuilds,h,hlast,String.append_empty,r]
  · change (BuildRun.ofCommands launches c.builds).result = .error f at h
    simp only [hrun,ofTask,TaskRun.ofBuilds,h,r]
    rfl

end Tasks

open BuildRun

/-- A task that makes no package carries out its commands in order, each after its line has been
printed, up to the first that does not exit with zero. It succeeds if and only if all of them
do, and its fault names the last one and its status, or says that it could not be started. The
process ends with 0 and prints nothing more, or with 1 and one line with the fault. -/
theorem tasks_stop_at_first_failure {c : Command} (unpackaged : ∀ a outDir, c ≠ .package a outDir)
    (launches : List Launch) (t : FileTree) :
    ∃ commands moves left, c.Lists commands ∧
      let r := (TaskRun.ofCommand launches t c).builds
      c.stages.run.run ⟨[],launches⟩ = (r.result,⟨moves,left⟩) ∧
      Course launches commands moves r.result ∧
      r.announced = moves.filterMap BuildMove.announced? ∧
      r.started = moves.filterMap BuildMove.started? ∧
      TaskRun.ofCommand launches t c = ⟨r,(match r.result with
        | .ok () => .ok none
        | .error f => .error (.build f)),t⟩ ∧
      (r.result = .ok () ↔ AllPass launches commands) ∧
      (∀ f, r.result = .error f → ∃ before b after, commands = before ++ b :: after ∧
        r.announced = before ++ [b] ∧ f.Blames b (Launch.ofIndex launches before.length)) ∧
      ∀ args, Command.parse args = .ok c →
        let printed := String.join (r.announced.map BuildCommand.announcement)
        (r.result = .ok () →
          Finished.run launches t args = ⟨0,"",printed,r.started,t⟩) ∧
        ∀ f, r.result = .error f → Finished.run launches t args =
          ⟨1,"",printed ++ ("xtask: " ++ f.message ++ "\n"),r.started,t⟩ := by
  obtain ⟨moves,left,hcourse,hannounced,hstarted,hstages⟩ := forM_execute c.builds ⟨[],launches⟩
  rw [← c.stages_eq] at hstages
  refine ⟨c.builds,moves,left,Command.lists_builds unpackaged,?_⟩
  rw [TaskRun.ofCommand_unpackaged unpackaged]
  refine ⟨hstages,hcourse,hannounced,hstarted,rfl,hcourse.ok_iff,?_,?_⟩
  · intro f hf
    have hfault : Course launches c.builds moves (.error f) := hf ▸ hcourse
    obtain ⟨before,b,after,hcut,hlast,hblames⟩ := hfault.blames
    exact ⟨before,b,after,hcut,hannounced.trans hlast,hblames⟩
  · intro args parsed
    exact Finished.run_unpackaged unpackaged launches t parsed

/-- A killed linter keeps the full check from the tests; a measurement that cannot be started is
announced all the same. -/
theorem full_check_ends_with_its_linter :
    let formatted : BuildCommand := ⟨["fmt","--all","--","--check"]⟩
    let linted : BuildCommand := ⟨["clippy","--all-targets","--","-D","warnings"]⟩
    let t : FileTree := ⟨[],[]⟩
    Finished.run [.exited (.code 0),.exited (.signal 9)] t ["ci"] =
      ⟨1,"","+ cargo fmt --all -- --check\n+ cargo clippy --all-targets -- -D warnings\n" ++
        "xtask: `cargo clippy --all-targets -- -D warnings` exited with signal: 9 (SIGKILL)\n",
        [formatted,linted],t⟩ ∧
    Finished.run [.unavailable] t ["bench","--baseline=a b"] =
      ⟨1,"","+ cargo bench -p mock_compute_core --bench computation -- --baseline a b\n" ++
        "xtask: failed to execute cargo: No such file or directory (os error 2)\n",[],t⟩ := by
  intro formatted linted t
  obtain ⟨-,-,-,-,-,-,-,-,-,-,-,hci⟩ :=
    tasks_stop_at_first_failure (c := .ci) nofun [.exited (.code 0),.exited (.signal 9)] t
  obtain ⟨-,-,-,-,-,-,-,-,-,-,-,hbench⟩ :=
    tasks_stop_at_first_failure (c := .bench none (some "a b")) nofun [.unavailable] t
  constructor
  · exact (hci ["ci"] rfl).2 (.status linted (.signal 9)) rfl
  · exact (hbench ["bench","--baseline=a b"] rfl).2 .unavailable rfl

end GridWorker
