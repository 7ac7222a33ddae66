import TlsProbe.Ebpf.Theorems.Transport
import TlsProbe.Process.Theorems.Provenance

open Std

namespace TlsProbe.Ebpf

open Process (Endian)

variable {endian : Endian} {n : Nat} {s : State n} {event : Event n} {events : List (Event n)}
variable {ev : RawTlsCapture} {key : ConnKey} {info : Process.ConnInfo}

end TlsProbe.Ebpf
