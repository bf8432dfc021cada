import OxideTerm.Lib.Bytes

/-!
# Check values

The two cyclic redundancy checks of the modem protocols, one byte after the other.
-/

namespace OxideTerm.Modem

open OxideTerm.Lib (Bytes)

/-- One of the eight rounds for a byte. -/
def crc16Shift (crc : UInt16) : UInt16 :=
  if crc &&& 0x8000 ≠ 0 then (crc <<< 1) ^^^ 0x1021 else crc <<< 1

def crc16XmodemUpdate (crc : UInt16) (byte : UInt8) : UInt16 :=
  Nat.iterate crc16Shift 8 (crc ^^^ (byte.toUInt16 <<< 8))

def crc16Xmodem (bytes : Bytes) : UInt16 := bytes.foldl crc16XmodemUpdate 0

/-- One of the eight rounds for a byte. -/
def crc32Shift (crc : UInt32) : UInt32 :=
  if crc &&& 1 ≠ 0 then (crc >>> 1) ^^^ 0xedb88320 else crc >>> 1

def crc32IeeeUpdate (crc : UInt32) (byte : UInt8) : UInt32 :=
  Nat.iterate crc32Shift 8 (crc ^^^ byte.toUInt32)

def crc32Ieee (bytes : Bytes) : UInt32 := ~~~ bytes.foldl crc32IeeeUpdate 0xffffffff

end OxideTerm.Modem
