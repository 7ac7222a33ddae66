import TlsProbe.Correlator.Basic

open Std

namespace TlsProbe

-- The correlation of a single connection. A correlator runs one of these for every key.
namespace Conn

inductive Event
  | clientHello (hello : ParsedClientHello) (nowNs : UInt64)
  | serverHello (hello : ParsedServerHello)
  | alert
  | certificateRequest
  | clientCertificate
  | sweep (nowNs : UInt64)
  | evict

def step (ttlNs : UInt64) (entry : Option PendingEntry) :
    Event → Option PendingEntry × List Negotiation
  | .clientHello hello nowNs => (some (hello.summary nowNs, nowNs), [])
  | .serverHello hello =>
    match entry with
    | some (summary, insertionNs) =>
      let negotiation := summary.buildNegotiation hello
      if summary.mtlsRequested then
        (some ({ summary with postShNegotiation := some negotiation }, insertionNs), [negotiation])
      else
        (none, [negotiation])
    | none => (none, [])
  | .alert =>
    match entry with
    | some (summary, _) => (none, [summary.failedNegotiation])
    | none              => (none, [])
  | .certificateRequest =>
    (entry.map fun (summary, insertionNs) =>
      ({ summary with mtlsRequested := true }, insertionNs), [])
  | .clientCertificate =>
    match entry with
    | some (summary, insertionNs) =>
      match summary.postShNegotiation with
      | some negotiation => (none, [{ negotiation with mtls := true }])
      | none             => (some ({ summary with mtls := true }, insertionNs), [])
    | none => (none, [])
  | .sweep nowNs => (entry.filter fun (_, insertionNs) => nowNs - insertionNs < ttlNs, [])
  | .evict => (none, [])

def machine (ttlNs : UInt64) : Machine (Option PendingEntry) Event Negotiation where
  step := step ttlNs

end Conn

namespace Correlator

-- The key whose entry a call evicts for lack of room.
def evictedBy (c : Correlator) : Event → Option ConnKey
  | .clientHello _ (.clientHello ..) _ iter => c.keyToEvict iter
  | _                                       => none

-- What a call is for the connection `k`, its evictions apart.
def ownEvent (k : ConnKey) : Event → Option Conn.Event
  | .clientHello key (.clientHello _ hello) nowNs _ =>
    if key = k then some <| .clientHello hello nowNs else none
  | .serverHello key (.serverHello _ hello) => if key = k then some <| .serverHello hello else none
  | .alert key _ _           => if key = k then some .alert else none
  | .certificateRequest key  => if key = k then some .certificateRequest else none
  | .clientCertificate key   => if key = k then some .clientCertificate else none
  | .sweep nowNs             => some <| .sweep nowNs
  | .clientHello _ (.serverHello ..) _ _ | .serverHello _ (.clientHello ..) => none

-- What a call amounts to for the connection `k`.
def connEvents (k : ConnKey) (c : Correlator) (ev : Event) : List Conn.Event :=
  (if c.evictedBy ev = some k then [.evict] else []) ++ (ownEvent k ev).toList

-- The entry of the connection `k` when a call gets to it.
def survivor (k : ConnKey) (c : Correlator) (ev : Event) : Option PendingEntry :=
  if c.evictedBy ev = some k then none else c.pending[k]?

def resultsOf (k : ConnKey) (results : List (ConnKey × Negotiation)) : List Negotiation :=
  results.filterMap fun (key, negotiation) => if key = k then some negotiation else none

end Correlator
end TlsProbe
