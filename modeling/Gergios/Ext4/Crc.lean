import Gergios.Ext4.Layout

/-!
# Checksums
-/

namespace Gergios.Ext4

def crc32cPoly : UInt32 := 0x82F63B78

def crcBits (poly : UInt32) : Nat → UInt32 → UInt32
  | 0, crc => crc
  | j + 1, crc => crcBits poly j (if crc &&& 1 ≠ 0 then (crc >>> 1) ^^^ poly else crc >>> 1)

def crcTable (poly i : UInt32) : UInt32 := crcBits poly 8 i

def crc32cLe (initial : UInt32) (data : List UInt8) : UInt32 :=
  data.foldl (fun crc byte =>
    (crc >>> 8) ^^^ crcTable crc32cPoly ((crc ^^^ byte.toUInt32) &&& 0xFF))
    initial

end Gergios.Ext4
