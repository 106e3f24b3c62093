import GridWorker.Json.Token

/-! # JSON text

A value is written through its tokens, without blanks. A text is read through its
tokens too, by a reader that keeps the arrays and objects still open on a stack:
members are put in key order, the last of several with one key stays, and no more
than 127 arrays and objects may be open at once. Nothing but the value may stand
in the text.
-/
namespace GridWorker.Json

mutual
def tokens : Json → List Token
  | .null => [.null]
  | .bool b => [.bool b]
  | .number n => [.number n]
  | .string s => [.string s]
  | .array items => .beginArray :: tokensOfItems items ++ [.endArray]
  | .object members => .beginObject :: tokensOfMembers members ++ [.endObject]
def tokensOfItems : List Json → List Token
  | [] => []
  | [v] => tokens v
  | v :: w :: rest => tokens v ++ .valueSeparator :: tokensOfItems (w :: rest)
def tokensOfMembers : List (String × Json) → List Token
  | [] => []
  | [(k, v)] => .string k :: .nameSeparator :: tokens v
  | (k, v) :: m :: rest =>
    .string k :: .nameSeparator :: tokens v ++ .valueSeparator :: tokensOfMembers (m :: rest)
end

def text (v : Json) : String := String.ofList (v.tokens.flatMap Token.text)

/-- How many arrays and objects may be open at once. -/
def maxDepth : Nat := 127

/-- An array with its items so far, the last one first, or an object with its
members so far and the key whose value is awaited. -/
inductive Frame where
  | array (items : List Json)
  | object (members : Members) (key : String)

/-- What may come next: a value; an item or the end of an array just begun; a key
or the end of an object just begun; a key; the separator after a key; or, after a
complete value, a separator, an end or nothing. -/
inductive Stage where
  | value
  | firstItem
  | firstName
  | name (members : Members)
  | separator (members : Members) (key : String)
  | after (v : Json)

structure Reader where
  frames : List Frame
  stage : Stage

namespace Reader

def start : Reader := ⟨[], .value⟩

def begin? (frames : List Frame) : Token → Option Reader
  | .null => some ⟨frames, .after .null⟩
  | .bool b => some ⟨frames, .after (.bool b)⟩
  | .number n => some ⟨frames, .after (.number n)⟩
  | .string s => some ⟨frames, .after (.string s)⟩
  | .beginArray => if frames.length < maxDepth then some ⟨.array [] :: frames, .firstItem⟩ else none
  | .beginObject => if frames.length < maxDepth then some ⟨frames, .firstName⟩ else none
  | _ => none

def close? (v : Json) : List Frame → Token → Option Reader
  | .array items :: frames, .valueSeparator => some ⟨.array (v :: items) :: frames, .value⟩
  | .array items :: frames, .endArray => some ⟨frames, .after (.array (v :: items).reverse)⟩
  | .object members key :: frames, .valueSeparator => some ⟨frames, .name (members.insert key v)⟩
  | .object members key :: frames, .endObject =>
    some ⟨frames, .after (.object (members.insert key v))⟩
  | _, _ => none

def step (r : Reader) (t : Token) : Option Reader :=
  match r.stage with
  | .value => begin? r.frames t
  | .firstItem =>
    if t = .endArray then
      match r.frames with
      | .array items :: frames => some ⟨frames, .after (.array items.reverse)⟩
      | _ => none
    else begin? r.frames t
  | .firstName =>
    match t with
    | .string key => some ⟨r.frames, .separator [] key⟩
    | .endObject => some ⟨r.frames, .after (.object [])⟩
    | _ => none
  | .name members =>
    match t with
    | .string key => some ⟨r.frames, .separator members key⟩
    | _ => none
  | .separator members key =>
    if t = .nameSeparator then some ⟨.object members key :: r.frames, .value⟩ else none
  | .after v => close? v r.frames t

def finish : Reader → Option Json
  | ⟨[], .after v⟩ => some v
  | _ => none

end Reader

def ofTokens? (ts : List Token) : Option Json :=
  (ts.foldlM Reader.step Reader.start).bind Reader.finish

def read? (s : String) : Option Json := (Token.scan? s.toList).bind ofTokens?

end GridWorker.Json
