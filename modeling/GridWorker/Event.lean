import GridWorker.Json.Text

/-! # Worker events

An event is a JSON object whose key `worker_arguments` holds the arguments of the
invocation; its other members are kept beside them. An argument is a string or a
signed 64-bit integer, and the two stay distinct. Decoding alone allows an empty
list of arguments; accepting an event does not, and says what is wrong with one
that it refuses.
-/
namespace GridWorker

inductive Argument where
  | text (s : String)
  | integer (n : Int64)
deriving DecidableEq

namespace Argument

/-- The argument as it is read: a string itself, an integer by its decimal. -/
def asText : Argument → String
  | .text s => s
  | .integer n => String.ofList (Numeral.decimal n.toInt)

def ofJson? : Json → Option Argument
  | .string s => some (.text s)
  | .number (.whole n) => n.toInt64?.map .integer
  | _ => none

def toJson : Argument → Json
  | .text s => .string s
  | .integer n => .ofInt64 n

end Argument

structure Event where
  arguments : List Argument
  extra : Members

inductive EventFault where
  | notAnObject
  | noArguments
  | argumentsNotAList
  | emptyArguments
  | badArgument
deriving DecidableEq

def Event.argumentsKey : String := "worker_arguments"

def EventFault.message : EventFault → String
  | .notAnObject => "Worker event must be a JSON object"
  | .noArguments => "Worker event is missing '" ++ Event.argumentsKey ++ "'"
  | .argumentsNotAList => "'" ++ Event.argumentsKey ++ "' must be a list"
  | .emptyArguments => "'" ++ Event.argumentsKey ++ "' must contain at least one argument"
  | .badArgument =>
    "Malformed worker event: data did not match any variant of untagged enum WorkerArgument"

namespace Event

/-- The event that a value decodes to, an empty list of arguments included. -/
def ofJson? : Json → Option Event
  | .object members =>
    match members.lookup argumentsKey with
    | some (.array items) =>
      (items.mapM Argument.ofJson?).map (⟨·, Members.without argumentsKey members⟩)
    | _ => none
  | _ => none

/-- Accepts an event, or gives the first fault in the order of the checks. -/
def accept (v : Json) : Except EventFault Event :=
  match v with
  | .object members =>
    match members.lookup argumentsKey with
    | none => .error .noArguments
    | some (.array []) => .error .emptyArguments
    | some (.array (_ :: _)) =>
      match ofJson? v with
      | some e => .ok e
      | none => .error .badArgument
    | some _ => .error .argumentsNotAList
  | _ => .error .notAnObject

def argumentList (e : Event) : Json := .array (e.arguments.map Argument.toJson)

def members (e : Event) : Members := (argumentsKey, e.argumentList) :: e.extra

def written (e : Event) : Json := .object e.members

def toJson (e : Event) : Json := .record e.members

def argument? (e : Event) (i : Nat) : Option String := e.arguments[i]?.map Argument.asText

end Event
end GridWorker
