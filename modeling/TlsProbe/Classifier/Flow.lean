import TlsProbe.Classifier.Frame

namespace TlsProbe.Classifier

-- The connection and direction of a packet, if it is one of TCP.
def Arrival.flow (a : Arrival) : Option ReasmKey :=
  if a.pkt.isTcp then some (reasmKey (tcpSegment a.pkt) a.isEgress) else none

-- The packets of the flow `key`, and its events.
def own (key : ReasmKey) (as : List Arrival) : List Arrival :=
  as.filter fun a => a.flow = some key

def eventKey (ev : RawTlsCapture) : ReasmKey where
  conn := ev.connKey
  dir  := if ev.isIngress then 1 else 0

def ownEvents (key : ReasmKey) (events : List RawTlsCapture) : List RawTlsCapture :=
  events.filter fun ev => eventKey ev = key

-- The entry of a single flow. The classifier keeps one of these for every flow.
namespace Flow

def continued (state : ReasmState) (payloadAvail : Nat) : Option ReasmState :=
  let newRemaining := saturatingSub state.remaining (UInt32.ofNat payloadAvail)
  if newRemaining = 0 ∨ state.segmentsLeft = 0 then
    none
  else
    some ⟨newRemaining, state.segmentsLeft - 1⟩

def started (total payloadAvail : Nat) : Option ReasmState :=
  if payloadAvail < total then
    some ⟨UInt32.ofNat (total - payloadAvail), maxReasmSegments - 1⟩
  else
    none

def step (pending : Option ReasmState) (a : Arrival) : Option ReasmState × List RawTlsCapture :=
  match segment a.pkt with
  | none     => (pending, [])
  | some seg =>
    match a.pkt.loadBytes 6 seg.tlsStart with
    | none     => (pending, [])
    | some rec =>
      match pending with
      | some state => (continued state (payloadAvail a.pkt seg),
          [captureEvent a.kernel a.pkt seg rec a.isEgress true])
      | none       =>
        if startsRecord rec then
          (started (recordLen rec + tlsRecordHdrLen) (payloadAvail a.pkt seg),
            [captureEvent a.kernel a.pkt seg rec a.isEgress false])
        else
          (none, [])

def machine : Machine (Option ReasmState) Arrival RawTlsCapture where
  step := step

-- A well-formed packet that the kernel lets the classifier read.
structure Sound (a : Arrival) : Prop where
  wellFormed : a.pkt.WellFormed
  readable   : a.pkt.Readable

-- The first bytes of the payload, and the events of a packet that continues a record or starts one.
def recordStart (a : Arrival) : RecordStart :=
  a.pkt.field 6 a.pkt.tcpData

def event (a : Arrival) (isContinuation : Bool) : RawTlsCapture :=
  captureEvent a.kernel a.pkt (tcpSegment a.pkt) (recordStart a) a.isEgress isContinuation

-- The length of the record that starts with the payload, as its header says.
def announced (a : Arrival) : Nat :=
  recordLen (recordStart a) + tlsRecordHdrLen

-- The packet is long enough to be looked at.
def Long (a : Arrival) : Prop :=
  6 ≤ a.pkt.rest.length

instance : DecidablePred Long :=
  fun a => inferInstanceAs <| Decidable <| 6 ≤ a.pkt.rest.length

end Flow
end TlsProbe.Classifier
