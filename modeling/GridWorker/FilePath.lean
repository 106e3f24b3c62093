/-! # Path texts

A path is a text of segments between slashes. Empty segments mean nothing, `.` is the
directory reached so far and `..` the one above it; a leading slash starts at the root.
The ancestors of a path leave out one segment after the other, from the end, where a
segment `.` counts only as the first of a relative path.
-/
namespace GridWorker

structure FilePath where
  absolute : Bool
  segments : List String
  trailingSlash : Bool
deriving DecidableEq

namespace FilePath

/-- The pieces of a text between slashes, empty ones included. -/
def pieces : List Char → List (List Char)
  | [] => [[]]
  | c :: cs =>
    if c = '/' then [] :: pieces cs
    else match pieces cs with
      | [] => [[c]]
      | p :: ps => (c :: p) :: ps

def ofString (s : String) : FilePath where
  absolute := s.toList.head? = some '/'
  segments := ((pieces s.toList).filter (· ≠ [])).map String.ofList
  trailingSlash := s.toList.getLast? = some '/'

/-- The segments that count when a path is shortened. -/
def components (p : FilePath) : List String :=
  if p.absolute then p.segments.filter (· ≠ ".")
  else p.segments.take 1 ++ (p.segments.drop 1).filter (· ≠ ".")

/-- The paths of these segments, which are given last first, and of the directories above
them, down to one segment of a relative path and to the root of an absolute one. -/
def upward (absolute : Bool) : List String → List FilePath
  | [] => if absolute then [⟨true, [], false⟩] else []
  | s :: rest => ⟨absolute, (s :: rest).reverse, false⟩ :: upward absolute rest

def above (p : FilePath) : List FilePath := (upward p.absolute p.components.reverse).tail

def join (dir name : String) : String :=
  if dir = "" then name
  else if dir.toList.getLast? = some '/' then dir ++ name
  else dir ++ "/" ++ name

end FilePath
end GridWorker
