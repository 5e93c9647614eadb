/-!
# The checksum of gzip members

The 32-bit cyclic redundancy check with the reflected polynomial `0xEDB88320`.
-/

namespace Uplink.Gzip

def crcStep (r : UInt32) : UInt32 :=
  if r &&& 1 = 1 then (r >>> 1) ^^^ 0xEDB88320 else r >>> 1

/-- Take a byte into the remainder. -/
def crcByte (r : UInt32) (b : UInt8) : UInt32 :=
  crcStep <| crcStep <| crcStep <| crcStep <| crcStep <| crcStep <| crcStep <| crcStep <|
    r ^^^ b.toUInt32

def crc (bs : List UInt8) : UInt32 :=
  bs.foldl crcByte 0xFFFFFFFF ^^^ 0xFFFFFFFF

end Uplink.Gzip
