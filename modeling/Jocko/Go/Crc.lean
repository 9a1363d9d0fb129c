import Jocko.Go.Bytes

namespace Jocko.Go

/-- One bit of the division by the reversed IEEE polynomial. -/
def crcBit (c : UInt32) : UInt32 :=
  if c &&& 1 = 1 then (c >>> 1) ^^^ 0xEDB88320 else c >>> 1

def crcByte (c : UInt32) (byte : UInt8) : UInt32 :=
  crcBit (crcBit (crcBit (crcBit (crcBit (crcBit (crcBit (crcBit (c ^^^ byte.toUInt32))))))))

/-- `crc32.ChecksumIEEE` -/
def checksumIEEE (p : Bytes) : UInt32 := p.foldl crcByte 0xFFFFFFFF ^^^ 0xFFFFFFFF

example : checksumIEEE [49, 50, 51, 52, 53, 54, 55, 56, 57] = 0xCBF43926 := by
  decide +kernel

end Jocko.Go
