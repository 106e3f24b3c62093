import GridWorker.Archive.Basic

/-! # A library without compression

The entries are kept in memory, the one started last first, and written as a whole. A file
that is too long for its records is refused, and so are too many files. Tasks are run with
this library where no other is given.
-/
namespace GridWorker.ZipLibrary

abbrev PlainSession := ExceptT String (StateM (List Entry))

def plainStart (name : String) (options : FileOptions) : PlainSession Unit := do
  if 0x10000 ≤ name.utf8ByteSize then throw "Invalid file name"
  else modify fun es =>
    ⟨name, 0o100000 + options.permissions % 0o1000, options.method, .first, []⟩ :: es

def plainWrite (bs : Bytes) : PlainSession Unit := do
  match ← get with
  | [] => throw "No file has been started"
  | e :: rest =>
    if 0x100000000 ≤ e.content.length + bs.length then throw "Large file option has not been set"
    else set ({ e with content := e.content ++ bs } :: rest)

def plainFinish : PlainSession Unit := do
  if 0x10000 ≤ (← get).length then throw "Too many files"

def plain : ZipLibrary where
  Writer := List Entry
  new := []
  startFile := plainStart
  write := plainWrite
  finish := plainFinish
  bytes es := Archive.toBytes ⟨es.reverse, []⟩
  members? bs := (Archive.ofBytes? bs).map fun a =>
    a.entries.map fun e => ⟨e.name, e.mode % 0o1000, e.content⟩

end GridWorker.ZipLibrary
