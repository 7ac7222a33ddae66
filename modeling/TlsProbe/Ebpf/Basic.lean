import TlsProbe.Ebpf.Layout

open Std

namespace TlsProbe.Ebpf

open Classifier (Kernel ReasmMap RecordStart Segment)

-- The first entry of the maps that each CPU has its own copy of.
structure Cpu where
  scratch      : RawTlsCapture
  ringbufDrops : UInt64

structure State (n : Nat) where
  maps     : Process.Maps
  reasmMap : ReasmMap
  cpus     : Fin n → Cpu

-- A call of the classifier for a packet. Besides the packet, it depends on what the memory of an
-- event has in the padding, what a load that fails leaves behind, and whether the ring buffer has no
-- room.
structure Call where
  pkt       : Packet
  isEgress  : Bool
  ktimeNs   : UInt64
  filler    : Nat → UInt8
  clobbered : Vector UInt8 rawPayloadSize
  full      : Bool

inductive Event (n : Nat)
  | process (event : Process.Event)
  | dropsReasm (key : ReasmKey)
  | packet (cpu : Fin n) (call : Call)

-- The bytes that are handed to `output`, which may not take them.
structure Submission where
  bytes : List UInt8
  full  : Bool

def kernelOf (maps : Process.Maps) (ktimeNs : UInt64) : Kernel where
  ktimeNs  := ktimeNs
  connInfo := fun key => maps.connMap[key]?.map (·.toConnInfo)

section Scratch

-- The bytes behind those that are copied are left as they are.
def overwrite {n : Nat} (bytes : List UInt8) (old : Vector UInt8 n) : Vector UInt8 n :=
  .ofFn fun i => bytes.getD i (old.get i)

def loadPayload (event : RawTlsCapture) (call : Call) (seg : Segment) : RawTlsCapture :=
  let copyLen := min (Classifier.payloadAvail call.pkt seg) rawPayloadSize
  if 1 ≤ copyLen then
    match call.pkt.loadBytes copyLen seg.tlsStart with
    | some bytes => { event with
      payload    := overwrite bytes.toList event.payload
      payloadLen := .ofNat copyLen }
    | none => { event with payload := call.clobbered }
  else
    event

def setInfo (event : RawTlsCapture) (info : Option ConnInfo) : RawTlsCapture :=
  let event := { event with pid := 0, comm := .replicate 16 0, cgroupId := 0 }
  match info with
  | some info => { event with pid := info.pid, comm := info.comm, cgroupId := info.cgroupId }
  | none      => event

-- Turns the event of a packet that arrives to the side of the host.
def swapEnds (event : RawTlsCapture) : RawTlsCapture :=
  { event with
    srcAddr := event.dstAddr
    dstAddr := event.srcAddr
    srcPort := event.dstPort
    dstPort := event.srcPort
  }

def addFlag (event : RawTlsCapture) (flag : UInt8) : RawTlsCapture :=
  { event with flags := event.flags ||| flag }

-- The event is written to the buffer that holds the last one.
def writeEvent (scratch : RawTlsCapture) (kernel : Kernel) (call : Call) (seg : Segment)
    (rec : RecordStart) (isContinuation : Bool) : RawTlsCapture :=
  let isAlert := Classifier.contentType rec = Classifier.tlsContentAlert
  let event := { scratch with
    timestampNs   := kernel.ktimeNs
    cgroupId      := 0
    handshakeType := if isContinuation || isAlert then 0 else Classifier.handshakeType rec
    recordVersion := if isContinuation then 0 else Classifier.recordVersion rec
    isIpv6        := if seg.isIpv6 then 1 else 0
    flags         := if call.isEgress then 0 else flagIngress
  }
  let event := if isAlert then addFlag event flagAlert else event
  let event := { event with
    contentType := Classifier.contentType rec
    srcAddr     := seg.srcAddr
    dstAddr     := seg.dstAddr
    srcPort     := seg.srcPort
    dstPort     := seg.dstPort
  }
  let event := if call.isEgress then event else swapEnds event
  let event := { event with tcpSeq := Classifier.tcpSeq call.pkt seg, payloadLen := 0 }
  let event := loadPayload event call seg
  let event := setInfo event (kernel.connInfo (Classifier.checkKey seg call.isEgress))
  if isContinuation then
    addFlag event flagContinuation
  else if Classifier.isFragmented call.pkt seg rec then
    addFlag event flagFragment
  else
    event

end Scratch

namespace State

variable {n : Nat}

def setCpu (s : State n) (cpu : Fin n) (c : Cpu) : State n :=
  { s with cpus := Function.update s.cpus cpu c }

-- The event is sent, and counted as lost if the ring buffer has no room for it.
def submit (endian : Process.Endian) (s : State n) (cpu : Fin n) (call : Call)
    (event : RawTlsCapture) : State n × List Submission :=
  let drops := (s.cpus cpu).ringbufDrops
  (s.setCpu cpu ⟨event, if call.full then drops + 1 else drops⟩,
    [⟨eventBytes endian call.filler event, call.full⟩])

-- `try_capture_tls`, with the buffer that the event is written to.
def capture (endian : Process.Endian) (s : State n) (cpu : Fin n) (call : Call) :
    State n × List Submission :=
  match Classifier.segment call.pkt with
  | none     => (s, [])
  | some seg =>
    let key := Classifier.reasmKey seg call.isEgress
    let isContinuation := s.reasmMap.contains key
    match call.pkt.loadBytes 6 seg.tlsStart with
    | none     => (s, [])
    | some rec =>
      if isContinuation || Classifier.startsRecord rec then
        let payloadAvail := Classifier.payloadAvail call.pkt seg
        let event := writeEvent (s.cpus cpu).scratch (kernelOf s.maps call.ktimeNs) call seg rec
          isContinuation
        let reasmMap :=
          if isContinuation then
            Classifier.continueReassembly s.reasmMap key payloadAvail
          else
            Classifier.startReassembly s.reasmMap key
              (Classifier.recordLen rec + Classifier.tlsRecordHdrLen) payloadAvail
        submit endian { s with reasmMap } cpu call event
      else
        (s, [])

-- `sum_kernel_drops`
def sumKernelDrops (s : State n) : UInt64 :=
  ((List.finRange n).map fun cpu => (s.cpus cpu).ringbufDrops).sum

end State

def machine (endian : Process.Endian) (n : Nat) : Machine (State n) (Event n) Submission where
  step s
    | .process event   => ({ s with maps := ((Process.machine endian).step s.maps event).1 }, [])
    | .dropsReasm key  => ({ s with reasmMap := s.reasmMap.erase key }, [])
    | .packet cpu call => s.capture endian cpu call

-- The items of the ring buffer, in the order in which they get there.
def items (submissions : List Submission) : List (List UInt8) :=
  (submissions.filter fun sub => !sub.full).map (·.bytes)

-- The maps, which all CPUs share.
structure Shared where
  maps     : Process.Maps
  reasmMap : ReasmMap

def State.shared {n : Nat} (s : State n) : Shared where
  maps     := s.maps
  reasmMap := s.reasmMap

-- What the programs are for: each packet has the event that the classifier makes of it, no matter
-- which CPU it is on, what was written to its buffer before, and what is in between the fields.
def spec (endian : Process.Endian) (n : Nat) :
    Machine Shared (Event n) (RawTlsCapture × Bool) where
  step s
    | .process event  => ({ s with maps := ((Process.machine endian).step s.maps event).1 }, [])
    | .dropsReasm key => ({ s with reasmMap := s.reasmMap.erase key }, [])
    | .packet _ call  =>
      let (reasmMap, event) := Classifier.tryCaptureTls s.reasmMap (kernelOf s.maps call.ktimeNs)
        call.pkt call.isEgress
      ({ s with reasmMap }, event.toList.map fun event => (event, call.full))

end TlsProbe.Ebpf
