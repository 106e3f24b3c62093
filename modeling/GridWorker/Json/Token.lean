import GridWorker.Json.Number
import GridWorker.Json.Quoted

/-! # JSON tokens

A text is cut into tokens by one pass over its characters. The scanner is between
tokens, inside a word or inside quotes; a word is a literal or a number and ends
at the next blank, quote or structural character. Every token has one compact
text, and a written sequence of tokens scans back to itself wherever no two words
touch.
-/
namespace GridWorker

inductive Token where
  | beginArray
  | endArray
  | beginObject
  | endObject
  | nameSeparator
  | valueSeparator
  | null
  | bool (b : Bool)
  | number (n : Number)
  | string (s : String)
deriving DecidableEq

namespace Token

def text : Token → List Char
  | .beginArray => ['[']
  | .endArray => [']']
  | .beginObject => ['{']
  | .endObject => ['}']
  | .nameSeparator => [':']
  | .valueSeparator => [',']
  | .null => ['n', 'u', 'l', 'l']
  | .bool true => ['t', 'r', 'u', 'e']
  | .bool false => ['f', 'a', 'l', 's', 'e']
  | .number n => n.text
  | .string s => '"' :: Quoted.escape s.toList ++ ['"']

def ofWord? : List Char → Option Token
  | ['n', 'u', 'l', 'l'] => some .null
  | ['t', 'r', 'u', 'e'] => some (.bool true)
  | ['f', 'a', 'l', 's', 'e'] => some (.bool false)
  | cs => (Number.read? cs).map .number

def ofMark? : Char → Option Token
  | '[' => some .beginArray
  | ']' => some .endArray
  | '{' => some .beginObject
  | '}' => some .endObject
  | ':' => some .nameSeparator
  | ',' => some .valueSeparator
  | _ => none

def isBlank (c : Char) : Bool := c = ' ' ∨ c = '\t' ∨ c = '\n' ∨ c = '\r'

/-- Where the scanner is; what it has read of the current token is reversed. -/
inductive Mode where
  | between
  | word (read : List Char)
  | quoted (read : List Char) (escaped : Bool)

structure Scanner where
  mode : Mode
  found : List Token

namespace Scanner

def start : Scanner := ⟨.between, []⟩

def endWord? (found : List Token) (read : List Char) : Option (List Token) :=
  (ofWord? read.reverse).map (· :: found)

def fresh (found : List Token) (c : Char) : Scanner :=
  if c = '"' then ⟨.quoted [] false, found⟩
  else if isBlank c then ⟨.between, found⟩
  else match ofMark? c with
    | some t => ⟨.between, t :: found⟩
    | none => ⟨.word [c], found⟩

def endsWord (c : Char) : Bool := c = '"' || isBlank c || (ofMark? c).isSome

def step (s : Scanner) (c : Char) : Option Scanner :=
  match s.mode with
  | .between => some (fresh s.found c)
  | .word read =>
    if endsWord c then (endWord? s.found read).map (fresh · c)
    else some ⟨.word (c :: read), s.found⟩
  | .quoted read true => some ⟨.quoted (c :: read) false, s.found⟩
  | .quoted read false =>
    if c = '"' then
      (Quoted.unescape? read.reverse).map fun cs =>
        ⟨.between, .string (String.ofList cs) :: s.found⟩
    else some ⟨.quoted (c :: read) (c = '\\'), s.found⟩

def finish (s : Scanner) : Option (List Token) :=
  match s.mode with
  | .between => some s.found.reverse
  | .word read => (endWord? s.found read).map List.reverse
  | .quoted _ _ => none

end Scanner

/-- The tokens of a text, or `none` where some part of it is no token. -/
def scan? (cs : List Char) : Option (List Token) :=
  (cs.foldlM Scanner.step Scanner.start).bind Scanner.finish

end Token
end GridWorker
