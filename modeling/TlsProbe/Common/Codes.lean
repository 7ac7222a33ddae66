import Mathlib.Data.UInt

namespace TlsProbe

-- GREASE values have the form `0x?A?A`.
def isGrease (value : UInt16) : Bool :=
  let hi := (value >>> 8).toUInt8
  let lo := (value &&& 0xff).toUInt8
  hi == lo && hi &&& 0x0f == 0x0a

end TlsProbe
