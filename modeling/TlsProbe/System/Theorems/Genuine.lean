import TlsProbe.System.Theorems.Report
import TlsProbe.Worker.Theorems.Slices

open Stream
open scoped UInt32.CommRing

namespace TlsProbe.System

open Classifier (Arrival Flow.Sound flowKey)

variable {endian : Process.Endian} {n : Nat} {s : Ebpf.Shared} {events : List (Ebpf.Event n)}
variable {a : Arrival} {k : FlowKey} {stream : UInt32 → UInt8}

-- What the packet carries is what the stream has from its sequence number on.
structure Conforms (stream : UInt32 → UInt8) (a : Arrival) : Prop where
  sound : Flow.Sound a
  slice : IsSlice stream a.pkt.seqNumber a.pkt.rest

end TlsProbe.System
