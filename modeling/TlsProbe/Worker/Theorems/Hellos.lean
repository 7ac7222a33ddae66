import TlsProbe.Parser.Theorems.RoundTrip
import TlsProbe.Worker.Theorems.Pending

namespace TlsProbe

-- All of a record, in a capture of its own or put together from segments.
def Record.whole (head : RawTlsCapture) (bytes : List UInt8) (fragmented : Bool) : Record :=
  if fragmented then .assembled ⟨head, bytes, false⟩ else .own head

section Whole

variable {head : RawTlsCapture} {bytes : List UInt8} {fragmented : Bool} {env : Env} {pass : Pass}
variable {analysis : TlsAnalysis} {t : Tracking}

namespace Record

end Record

end Whole
end TlsProbe
