import GridWorker.Archive.Crc32
import GridWorker.Archive.Deflate
import GridWorker.Archive.Library

/-! # Zip archives

An archive is a list of entries and a comment. It is written as one local record for
each entry, then a directory with one record for each entry, then an end record. It
is read from front to back, and refused unless the three parts agree with one another
and with the checksums of the contents.
-/
namespace GridWorker

namespace Method

def name : Method → String
  | .stored => "Stored"
  | .deflated => "Deflated"

def code : Method → Nat
  | .stored => 0
  | .deflated => 8

def ofCode? : Nat → Option Method
  | 0 => some .stored
  | 8 => some .deflated
  | _ => none

def pack : Method → Bytes → Bytes
  | .stored, bs => bs
  | .deflated, bs => Deflate.encode bs

/-- The content at the front, whose packed size the record states, and what follows. -/
def unpack? : Method → Nat → Bytes → Option (Bytes × Bytes)
  | .stored, size, bs => LittleEndian.bytes? size bs
  | .deflated, _, bs => Deflate.decode? bs

end Method

/-- A date and a time of day to two seconds, as two words of packed bits. -/
structure Stamp where
  date : Nat
  time : Nat
deriving DecidableEq

namespace Stamp

def first : Stamp := ⟨0x21, 0⟩

def parts (s : Stamp) : List Nat :=
  [1980 + s.date / 512, s.date / 32 % 16, s.date % 32,
    s.time / 2048, s.time / 32 % 64, s.time % 32 * 2]

end Stamp

structure Entry where
  name : String
  mode : Nat
  method : Method
  modified : Stamp
  content : Bytes
deriving DecidableEq

namespace Entry

def checksum (e : Entry) : Nat := (Crc32.checksum e.content).toNat

def nameBytes (e : Entry) : Bytes := e.name.toUTF8.toList

def packed (e : Entry) : Bytes := e.method.pack e.content

end Entry

structure Archive where
  entries : List Entry
  comment : Bytes
deriving DecidableEq

namespace Archive
open LittleEndian

def localMark : Nat := 0x04034B50

def directoryMark : Nat := 0x02014B50

def endMark : Nat := 0x06054B50

def needed : Nat := 20

/-- The version of the format and the system, Unix, of the writer. -/
def madeBy : Nat := 3 * 256 + 46

def localRecord (e : Entry) : Bytes :=
  record [(4, localMark), (2, needed), (2, 0), (2, e.method.code), (2, e.modified.time),
    (2, e.modified.date), (4, e.checksum), (4, e.packed.length), (4, e.content.length),
    (2, e.nameBytes.length), (2, 0)] ++ e.nameBytes ++ e.packed

/-- The record of an entry in the directory; its local record starts at `offset`. -/
def directoryRecord (offset : Nat) (e : Entry) : Bytes :=
  record [(4, directoryMark), (2, madeBy), (2, needed), (2, 0), (2, e.method.code),
    (2, e.modified.time), (2, e.modified.date), (4, e.checksum), (4, e.packed.length),
    (4, e.content.length), (2, e.nameBytes.length), (2, 0), (2, 0), (2, 0), (2, 0),
    (4, e.mode * 0x10000), (4, offset)] ++ e.nameBytes

def directory : Nat → List Entry → Bytes
  | _, [] => []
  | offset, e :: rest =>
    directoryRecord offset e ++ directory (offset + (localRecord e).length) rest

def endRecord (count size offset : Nat) (comment : Bytes) : Bytes :=
  record [(4, endMark), (2, 0), (2, 0), (2, count), (2, count), (4, size), (4, offset),
    (2, comment.length)] ++ comment

def toBytes (a : Archive) : Bytes :=
  let contents := a.entries.flatMap localRecord
  let listing := directory 0 a.entries
  contents ++ listing ++ endRecord a.entries.length listing.length contents.length a.comment

def name? (bs : Bytes) : Option String := String.fromUTF8? ⟨bs.toArray⟩

/-- One local record; the mode is not known yet. -/
def local? (bs : Bytes) : Option (Entry × Bytes) := do
  let (fields, bs) ← fields? [4, 2, 2, 2, 2, 2, 4, 4, 4, 2, 2] bs
  match fields with
  | [mark, _, _, code, time, date, checksum, packed, size, nameLength, extraLength] =>
    if mark ≠ localMark then none
    let method ← Method.ofCode? code
    let (name, bs) ← bytes? nameLength bs
    let name ← name? name
    let (_, bs) ← bytes? extraLength bs
    let (content, bs) ← method.unpack? packed bs
    let e : Entry := ⟨name, 0, method, ⟨date, time⟩, content⟩
    if e.checksum ≠ checksum ∨ content.length % UInt32.size ≠ size then none
    return (e, bs)
  | _ => none

/-- One record of the directory: a name, a checksum and a mode. -/
def listed? (bs : Bytes) : Option ((String × Nat × Nat) × Bytes) := do
  let (fields, bs) ← fields? [4, 2, 2, 2, 2, 2, 2, 4, 4, 4, 2, 2, 2, 2, 2, 4, 4] bs
  match fields with
  | [mark, _, _, _, _, _, _, checksum, _, _, nameLength, extraLength, commentLength, _, _,
      external, _] =>
    if mark ≠ directoryMark then none
    let (name, bs) ← bytes? nameLength bs
    let name ← name? name
    let (_, bs) ← bytes? (extraLength + commentLength) bs
    return ((name, checksum, external / 0x10000), bs)
  | _ => none

def many {α : Type} (one? : Bytes → Option (α × Bytes)) : Nat → Bytes → List α × Bytes
  | 0, bs => ([], bs)
  | steps + 1, bs =>
    match one? bs with
    | none => ([], bs)
    | some (a, bs) =>
      let (as, bs) := many one? steps bs
      (a :: as, bs)

/-- The end record, which must be the last, as a count and a comment. -/
def end? (bs : Bytes) : Option (Nat × Bytes) := do
  let (fields, bs) ← fields? [4, 2, 2, 2, 2, 4, 4, 2] bs
  match fields with
  | [mark, _, _, _, count, _, _, commentLength] =>
    if mark ≠ endMark ∨ bs.length ≠ commentLength then none
    return (count, bs)
  | _ => none

/-- An entry with the mode that the directory lists, if the two records agree. -/
def join? (e : Entry) (listed : String × Nat × Nat) : Option Entry :=
  if e.name = listed.1 ∧ e.checksum = listed.2.1 then some { e with mode := listed.2.2 } else none

def ofBytes? (bs : Bytes) : Option Archive := do
  let (entries, rest) := many local? bs.length bs
  let (listed, rest) := many listed? rest.length rest
  let (count, comment) ← end? rest
  if entries.length ≠ count ∨ listed.length ≠ count then none
  return ⟨← (entries.zip listed).mapM fun p => join? p.1 p.2, comment⟩

end Archive
end GridWorker
