import Mathlib.Data.List.Forall2

/-! # Well-formed UTF-8

The byte sequences that stand for one character, and the texts made of them. Bytes are read as a
text exactly if they are such sequences one after the other, and then as their characters.
-/
namespace GridWorker.Utf8

def Within (b : UInt8) (least most : Nat) : Prop := least ≤ b.toNat ∧ b.toNat ≤ most

end GridWorker.Utf8
