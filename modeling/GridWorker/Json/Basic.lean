import GridWorker.Json.Binary64

/-! # JSON values

A number is a whole number that 64 bits hold or a binary floating-point number;
the two are never confused, even where they are equal. An object is a list of
members in the order in which they are written. A value is `Sorted` when every
object in it lists its keys in strictly ascending code-point order, so that no
key occurs twice; reading a text produces sorted values only.
-/
namespace GridWorker

/-- A whole number that fits in 64 bits, signed or unsigned. -/
structure Whole where
  val : Int
  min_le : -0x8000000000000000 ≤ val
  lt_max : val < 0x10000000000000000
deriving DecidableEq

namespace Whole

def ofInt? (i : Int) : Option Whole :=
  if h : -0x8000000000000000 ≤ i ∧ i < 0x10000000000000000 then some ⟨i, h.1, h.2⟩ else none

def ofUInt64 (n : UInt64) : Whole where
  val := n.toNat
  min_le := by omega
  lt_max := by have := n.toNat_lt; omega

def ofInt64 (n : Int64) : Whole where
  val := n.toInt
  min_le := n.le_toInt
  lt_max := by have := n.toInt_lt; omega

def toUInt64? (w : Whole) : Option UInt64 :=
  if 0 ≤ w.val then some (UInt64.ofNat w.val.toNat) else none

def toInt64? (w : Whole) : Option Int64 :=
  if w.val < 0x8000000000000000 then some (Int64.ofInt w.val) else none

end Whole

inductive Number where
  | whole (n : Whole)
  | real (x : Binary64)
deriving DecidableEq

inductive Json where
  | null
  | bool (b : Bool)
  | number (n : Number)
  | string (s : String)
  | array (items : List Json)
  | object (members : List (String × Json))
deriving Inhabited

abbrev Members := List (String × Json)

/-- Puts a member in its place by key, replacing one with the same key. -/
def Members.insert (key : String) (value : Json) : Members → Members
  | [] => [(key, value)]
  | (k, v) :: rest =>
    if key < k then (key, value) :: (k, v) :: rest
    else if key = k then (key, value) :: rest
    else (k, v) :: Members.insert key value rest

/-- Members sorted by key; of several with one key the last stays. -/
def Members.sorted (ms : Members) : Members :=
  ms.foldl (fun done m => done.insert m.1 m.2) []

def Members.without (key : String) (ms : Members) : Members :=
  ms.filter (·.1 ≠ key)

namespace Json

def ofUInt64 (n : UInt64) : Json := .number (.whole (.ofUInt64 n))

def ofInt64 (n : Int64) : Json := .number (.whole (.ofInt64 n))

def record (ms : Members) : Json := .object ms.sorted

def ofOption {α : Type} (f : α → Json) : Option α → Json
  | none => .null
  | some a => f a

mutual
/-- Every object in the value has strictly ascending keys. -/
def Sorted : Json → Prop
  | .array items => SortedItems items
  | .object members => (members.map Prod.fst).Pairwise (· < ·) ∧ SortedMembers members
  | _ => True
def SortedItems : List Json → Prop
  | [] => True
  | v :: rest => Sorted v ∧ SortedItems rest
def SortedMembers : List (String × Json) → Prop
  | [] => True
  | (_, v) :: rest => Sorted v ∧ SortedMembers rest
end

mutual
def RealFree : Json → Prop
  | .number (.real _) => False
  | .array items => RealFreeItems items
  | .object members => RealFreeMembers members
  | _ => True
def RealFreeItems : List Json → Prop
  | [] => True
  | v :: rest => RealFree v ∧ RealFreeItems rest
def RealFreeMembers : List (String × Json) → Prop
  | [] => True
  | (_, v) :: rest => RealFree v ∧ RealFreeMembers rest
end

mutual
/-- How many arrays and objects stand inside one another at the deepest place. -/
def depth : Json → Nat
  | .array items => depthItems items + 1
  | .object members => depthMembers members + 1
  | _ => 0
def depthItems : List Json → Nat
  | [] => 0
  | v :: rest => max (depth v) (depthItems rest)
def depthMembers : List (String × Json) → Nat
  | [] => 0
  | (_, v) :: rest => max (depth v) (depthMembers rest)
end

end Json
end GridWorker
