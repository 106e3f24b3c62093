import GridWorker.Archive.LittleEndian

/-! # Deflate streams of stored blocks

A stream is a sequence of blocks of at most 65535 bytes, of which only the last is
marked as final; a block states its length twice, plainly and complemented. Reading
stops after the final block and leaves what follows. Compressed blocks are refused.
-/
namespace GridWorker.Deflate

def blockMax : Nat := 65535

def block (final : Bool) (bs : Bytes) : Bytes :=
  LittleEndian.record [(1, if final then 1 else 0), (2, bs.length), (2, blockMax - bs.length)] ++ bs

def encode (bs : Bytes) : Bytes :=
  if bs.length ≤ blockMax then block true bs
  else block false (bs.take blockMax) ++ encode (bs.drop blockMax)
termination_by bs.length
decreasing_by simp [blockMax] at *; omega

/-- The blocks of a stream and what follows it; a block takes at least one step. -/
def decodeBlocks? : Nat → Bytes → Option (Bytes × Bytes)
  | 0, _ => none
  | steps + 1, bs => do
    let (fields, bs) ← LittleEndian.fields? [1, 2, 2] bs
    match fields with
    | [kind, length, complement] =>
      if length + complement ≠ blockMax then none
      else
        let (body, bs) ← LittleEndian.bytes? length bs
        if kind = 1 then return (body, bs)
        else if kind = 0 then
          let (more, bs) ← decodeBlocks? steps bs
          return (body ++ more, bs)
        else none
    | _ => none

def decode? (bs : Bytes) : Option (Bytes × Bytes) := decodeBlocks? bs.length bs

end GridWorker.Deflate
