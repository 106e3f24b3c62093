import GridWorker.Archive.Basic

/-! # Reading packed contents

Fields and packed contents are read back from the front of any bytes that begin with them,
and what follows is left. A field keeps its number modulo what its width can hold, and a
content of any length is read back from a stream of blocks, of which all but the last are full.
-/
namespace GridWorker
namespace LittleEndian

@[simp] theorem length_encode (width n : Nat) : (encode width n).length = width := by
  induction width generalizing n with
  | zero => rfl
  | succ width ih => rw [encode,List.length_cons,ih]

theorem decode_encode (width n : Nat) : decode (encode width n) = n % Nat.pow 256 width := by
  induction width generalizing n with
  | zero => exact (Nat.mod_one n).symm
  | succ width ih =>
    have hpow : Nat.pow 256 (width + 1) = 256 * Nat.pow 256 width := Nat.pow_succ'
    have hbyte : (UInt8.ofNat n).toNat = n % 256 := UInt8.toNat_ofNat'
    rw [encode,decode,ih,hbyte,hpow,Nat.mod_mul]

/-- A number that two bytes can hold is kept. -/
theorem mod_two_bytes {n : Nat} (fits : n < 0x10000) : n % Nat.pow 256 2 = n :=
  Nat.mod_eq_of_lt fits

theorem bytes?_append (bs rest : Bytes) : bytes? bs.length (bs ++ rest) = some (bs,rest) := by
  rw [bytes?,List.take_left,List.drop_left,if_pos rfl]

/-- Reading fields takes the first field off the front, and then the others. -/
theorem fields?_cons (width n : Nat) (widths : List Nat) (rest : Bytes) :
    fields? (width :: widths) (encode width n ++ rest) =
      (fields? widths rest).map fun r => (n % Nat.pow 256 width :: r.1,r.2) := by
  have hfront : bytes? width (encode width n ++ rest) = some (encode width n,rest) := by
    have happend := bytes?_append (encode width n) rest
    rwa [length_encode] at happend
  rw [fields?,hfront]
  cases hrest : fields? widths rest with
  | none => simp [hrest]
  | some r => simp [hrest,decode_encode]

theorem fields?_record (fields : List (Nat × Nat)) (rest : Bytes) :
    fields? (fields.map Prod.fst) (record fields ++ rest) =
      some (fields.map fun f => f.2 % Nat.pow 256 f.1,rest) := by
  induction fields with
  | nil => rfl
  | cons f fields ih =>
    have hrecord : record (f :: fields) ++ rest = encode f.1 f.2 ++ (record fields ++ rest) := by
      rw [record,List.flatMap_cons,List.append_assoc,record]
    rw [hrecord,List.map_cons,fields?_cons,ih,List.map_cons,Option.map_some]

@[simp] theorem length_record_nil : (record []).length = 0 := rfl

@[simp] theorem length_record_cons (f : Nat × Nat) (fields : List (Nat × Nat)) :
    (record (f :: fields)).length = f.1 + (record fields).length := by
  rw [record,List.flatMap_cons,List.length_append,length_encode,record]

end LittleEndian

namespace Deflate
open LittleEndian

theorem block_length (final : Bool) (bs : Bytes) : (block final bs).length = 5 + bs.length := by
  rw [block,List.length_append]
  simp only [length_record_cons,length_record_nil,Nat.reduceAdd]

/-- One step reads one block, and goes on unless the block is final. -/
theorem decodeBlocks?_block (steps : Nat) (final : Bool) (bs rest : Bytes)
    (fits : bs.length ≤ blockMax) :
    decodeBlocks? (steps + 1) (block final bs ++ rest) =
      if final then some (bs,rest)
      else (decodeBlocks? steps rest).map fun r => (bs ++ r.1,r.2) := by
  have hfields := fields?_record
    [(1,if final then 1 else 0),(2,bs.length),(2,blockMax - bs.length)] (bs ++ rest)
  have hmax : blockMax = 65535 := rfl
  have hlength := mod_two_bytes (by omega : bs.length < 0x10000)
  have hcomplement := mod_two_bytes (by omega : blockMax - bs.length < 0x10000)
  have hagree : ¬ bs.length + (blockMax - bs.length) ≠ blockMax := by omega
  simp only [List.map_cons,List.map_nil,hlength,hcomplement] at hfields
  rw [decodeBlocks?,block,List.append_assoc,hfields]
  cases final with
  | true => simp [hagree,bytes?_append]
  | false =>
    cases hrest : decodeBlocks? steps rest with
    | none => simp [bytes?_append,hrest]
    | some r => simp [hagree,bytes?_append,hrest]

theorem decodeBlocks?_encode (bs rest : Bytes) (steps : Nat)
    (enough : (encode bs).length ≤ steps) :
    decodeBlocks? steps (encode bs ++ rest) = some (bs,rest) := by
  induction bs using encode.induct generalizing steps with
  | case1 bs hshort =>
    rw [encode,if_pos hshort] at enough ⊢
    rw [block_length] at enough
    obtain ⟨steps,rfl⟩ : ∃ k, steps = k + 1 := ⟨steps - 1,by omega⟩
    rw [decodeBlocks?_block _ _ _ _ hshort,if_pos rfl]
  | case2 bs hlong ih =>
    rw [encode,if_neg hlong] at enough ⊢
    rw [List.length_append,block_length] at enough
    obtain ⟨steps,rfl⟩ : ∃ k, steps = k + 1 := ⟨steps - 1,by omega⟩
    have hrest := ih steps (by omega)
    rw [List.append_assoc,decodeBlocks?_block _ _ _ _ (List.length_take_le _ _),hrest]
    simp only [Bool.false_eq_true,if_false,Option.map_some,List.take_append_drop]

/-- A stream is read back, and what follows it is left. -/
theorem decode?_encode (bs rest : Bytes) : decode? (encode bs ++ rest) = some (bs,rest) :=
  decodeBlocks?_encode bs rest _ (by rw [List.length_append]; omega)

end Deflate

namespace Method
open LittleEndian

theorem ofCode?_code (m : Method) : ofCode? m.code = some m := by
  cases m <;> rfl

theorem code_mod (m : Method) : m.code % Nat.pow 256 2 = m.code := by
  cases m <;> rfl

/-- A content is read back from the size that a field of four bytes can state. Only stored bytes
are counted; a stream ends by itself. -/
theorem unpack?_pack (m : Method) (bs rest : Bytes) (fits : bs.length < 0x100000000) :
    m.unpack? ((m.pack bs).length % Nat.pow 256 4) (m.pack bs ++ rest) = some (bs,rest) := by
  cases m with
  | stored =>
    have hsize : bs.length % Nat.pow 256 4 = bs.length := Nat.mod_eq_of_lt fits
    change bytes? (bs.length % Nat.pow 256 4) (bs ++ rest) = _
    rw [hsize,bytes?_append]
  | deflated => exact Deflate.decode?_encode bs rest

end Method
end GridWorker
