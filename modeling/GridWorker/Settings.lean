import GridWorker.Duration
import GridWorker.Text.Blank

/-! # Settings

Two flags are read from named variables, one after the other. A flag is a word for
yes or no, without regard to the blanks around it and to the case of ASCII letters;
an unset variable leaves its flag on, and any other value refuses the settings
before the next variable is asked for. A variable whose bytes are no well-formed
UTF-8 counts as unset.
-/
namespace GridWorker

structure Settings where
  logEvent : Bool
  enforceDeadline : Bool
deriving DecidableEq

inductive Setting where
  | logEvent
  | enforceDeadline
deriving DecidableEq

def Setting.variable : Setting → String
  | .logEvent => "MOCK_COMPUTE_LOG_EVENT"
  | .enforceDeadline => "MOCK_COMPUTE_ENFORCE_DEADLINE"

structure SettingFault where
  setting : Setting
deriving DecidableEq

def SettingFault.message (f : SettingFault) : String :=
  f.setting.variable ++ " must be a boolean (true/false)"

namespace Flag

def trueWords : List String := ["1", "true", "yes", "on"]

def falseWords : List String := ["0", "false", "no", "off"]

/-- The flag that a text stands for. Only ASCII letters have their case removed. -/
def read? (s : String) : Option Bool :=
  let word := String.ofList ((Blank.trim s.toList).map Char.toLower)
  if word ∈ trueWords then some true
  else if word ∈ falseWords then some false
  else none

end Flag

def Setting.flag (s : Setting) : Option String → Except SettingFault Bool
  | none => .ok true
  | some raw =>
    match Flag.read? raw with
    | some b => .ok b
    | none => .error ⟨s⟩

namespace Settings

def standard : Settings := ⟨true, true⟩

def load {m : Type → Type} [Monad m] (ask : String → m (Option String)) :
    m (Except SettingFault Settings) := do
  match Setting.logEvent.flag (← ask Setting.logEvent.variable) with
  | .error f => return .error f
  | .ok logEvent =>
    match Setting.enforceDeadline.flag (← ask Setting.enforceDeadline.variable) with
    | .error f => return .error f
    | .ok enforceDeadline => return .ok ⟨logEvent, enforceDeadline⟩

def ofLookup (lookup : String → Option String) : Except SettingFault Settings :=
  Id.run (load fun name => pure (lookup name))

/-- The settings of a table, with the variables asked for in order. -/
def traced (lookup : String → Option String) :
    Except SettingFault Settings × List String :=
  (load (m := StateM (List String)) fun name => do
    modify (· ++ [name])
    return lookup name).run []

def ofEnvironment (environment : String → Option ByteArray) : Except SettingFault Settings :=
  ofLookup fun name => (environment name).bind String.fromUTF8?

end Settings

/-- The time left before a deadline, both in milliseconds since the epoch; a deadline
of zero means that there is none, and a clock before the epoch reads zero. -/
def remaining? (deadline : UInt64) (now : Int64) : Option Duration :=
  if deadline = 0 then none else some (.ofMillis (deadline.toNat - now.toInt.toNat))

/-- The budget of an invocation: the time left, where the deadline is enforced. -/
def Settings.budget? (s : Settings) (deadline : UInt64) (now : Int64) : Option Duration :=
  if s.enforceDeadline then remaining? deadline now else none

end GridWorker
