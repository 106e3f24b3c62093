import GridWorker.Archive.LittleEndian

/-! # CRC-32

The cyclic redundancy check with the reflected polynomial `0xEDB88320`, one bit at a
time, from an all-ones register that is complemented at the end.
-/
namespace GridWorker.Crc32

def shift (c : UInt32) : UInt32 :=
  if c &&& 1 = 1 then (c >>> 1) ^^^ 0xEDB88320 else c >>> 1

def update (c : UInt32) (b : UInt8) : UInt32 := Nat.repeat shift 8 (c ^^^ b.toUInt32)

def checksum (bs : Bytes) : UInt32 := bs.foldl update 0xFFFFFFFF ^^^ 0xFFFFFFFF

end GridWorker.Crc32
