import TlsProbe.Ebpf.Theorems.Attribution
import TlsProbe.System.Theorems.Genuine

namespace TlsProbe

variable {env : Env} {capture : RawTlsCapture} {event : CaptureEvent} {payload : List UInt8}

-- The event names the connection and the process of the capture.
structure CaptureEvent.Names (event : CaptureEvent) (capture : RawTlsCapture) : Prop where
  src     : event.src = capture.srcAddrStr ++ ":" ++ toString capture.srcPort.toNat
  dst     : event.dst = capture.dstAddrStr ++ ":" ++ toString capture.dstPort.toNat
  process : (event.processName, event.pid) = processAttribution capture

theorem names_analyze : (analyzeCaptureWithPayload env capture payload).Names capture := by
  unfold analyzeCaptureWithPayload
  split
  case isTrue  => split <;> exact ⟨rfl, rfl, rfl⟩
  case isFalse => split <;> exact ⟨rfl, rfl, rfl⟩

theorem names_enrich {negotiation certificate} (h : event.Names capture) :
    (enrichWithCgroup env (event.attach negotiation certificate) capture).Names capture := by
  unfold enrichWithCgroup
  split <;> exact ⟨h.src, h.dst, h.process⟩

theorem Record.names {record : Record} : (record.event env).Names record.head := by
  cases record
  case own       => exact names_analyze
  case assembled => exact ⟨names_analyze.src, names_analyze.dst, names_analyze.process⟩

theorem Record.Tells.names {record : Record} (h : record.Tells env event) :
    event.Names record.head := by
  cases h
  case own    => exact names_enrich Record.names
  case walked => exact names_enrich ⟨rfl, rfl, rfl⟩

end TlsProbe

namespace TlsProbe.System

variable {endian : Process.Endian} {n : Nat}

end TlsProbe.System
