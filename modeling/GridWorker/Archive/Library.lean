import GridWorker.Archive.LittleEndian

/-! # Libraries for zip archives

An archive is written in a session: files are started and filled one after the other, and at
the end the archive is finished. Every step can fail; what was written before stays. The same
library lists the members of an archive.
-/
namespace GridWorker

inductive Method where
  | stored
  | deflated
deriving DecidableEq

structure FileOptions where
  method : Method
  permissions : Nat

structure ZipFile where
  name : String
  options : FileOptions
  content : Bytes

structure ZipMember where
  name : String
  permissions : Nat
  content : Bytes
deriving DecidableEq

/-- Only the nine permission bits of a file are kept. -/
def ZipFile.member (f : ZipFile) : ZipMember :=
  ⟨f.name, f.options.permissions % 0o1000, f.content⟩

/-- A library's writer, which starts out as `new` and has written `bytes` when it is closed,
and its reader. -/
structure ZipLibrary where
  Writer : Type
  new : Writer
  startFile : String → FileOptions → ExceptT String (StateM Writer) Unit
  write : Bytes → ExceptT String (StateM Writer) Unit
  finish : ExceptT String (StateM Writer) Unit
  bytes : Writer → Bytes
  members? : Bytes → Option (List ZipMember)

namespace ZipLibrary
variable (z : ZipLibrary)

abbrev Session := ExceptT String (StateM z.Writer)

def add (f : ZipFile) : z.Session Unit := do
  z.startFile f.name f.options
  z.write f.content

/-- How a session with a new writer ends, and what has been written. -/
def outcome (s : z.Session Unit) : Except String Unit × Bytes :=
  let (r, w) := s.run.run z.new
  (r, z.bytes w)

end ZipLibrary
end GridWorker
