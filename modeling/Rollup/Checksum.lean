import Rollup.Bytes

/-!
The CRC-32 of IEEE 802.3: the reflected polynomial 0xEDB88320, a register that starts with all
bits set, and a final complement.
-/

namespace Rollup.Checksum

/-- One bit of the division: the low bit leaves the register. -/
def shiftOut (register : UInt32) : UInt32 :=
  if register &&& 1 == 1 then (register >>> 1) ^^^ 0xEDB88320 else register >>> 1

def absorb (register : UInt32) (byte : UInt8) : UInt32 :=
  let r := register ^^^ byte.toUInt32
  shiftOut (shiftOut (shiftOut (shiftOut (shiftOut (shiftOut (shiftOut (shiftOut r)))))))

def divide (register : UInt32) (bytes : Bytes) : UInt32 := bytes.foldl absorb register

def crc32 (bytes : Bytes) : UInt32 := divide 0xFFFFFFFF bytes ^^^ 0xFFFFFFFF

theorem divide_append (register : UInt32) (a b : Bytes) :
    divide register (a ++ b) = divide (divide register a) b := by
  simp [divide]

/-- The check value that the standard gives for the text `123456789`. -/
theorem crc32_check :
    crc32 [0x31, 0x32, 0x33, 0x34, 0x35, 0x36, 0x37, 0x38, 0x39] = 0xCBF43926 := by
  decide +kernel

end Rollup.Checksum
