import TlsProbe.Event.Basic
import TlsProbe.Parser.Indexed

namespace TlsProbe

def maxRecordsToWalk : Nat := 4

structure ExtractedRecord where
  version   : UInt16
  body      : List UInt8
  truncated : Bool
  deriving DecidableEq, Repr

-- The loop of `walk_records`: `count` records are still to be walked.
def walkFrom (count : Nat) (rest : List UInt8) : List ExtractedRecord :=
  match count, rest with
  | count + 1, contentType :: v₁ :: v₂ :: l₁ :: l₂ :: rest =>
    let recordLen := (u16FromBeBytes l₁ l₂).toNat
    let truncated := decide (rest.length < recordLen)
    let body := rest.take recordLen
    if contentType ≠ 0x16 then
      []
    else
      let record :=
        if body.head? = some 0x0b ∨ body.head? = some 0x0d then
          [{ version := u16FromBeBytes v₁ v₂, body := body, truncated := truncated }]
        else
          []
      record ++ if truncated then [] else walkFrom count (rest.drop recordLen)
  | _, _ => []

def walkRecords (payload : List UInt8) : List ExtractedRecord :=
  match payload with
  | _ :: _ :: _ :: l₁ :: l₂ :: b :: rest =>
    walkFrom maxRecordsToWalk ((b :: rest).drop (u16FromBeBytes l₁ l₂).toNat)
  | _ => []

namespace Indexed

open Checked

def recordHeaderLen : Nat := 5

-- The filter of the walk: a record that is not kept is not pushed.
def kept (contentType : UInt8) (record : ExtractedRecord) : Checked (List ExtractedRecord) := do
  if contentType = 0x16 ∧ record.body ≠ [] then
    let handshakeType ← u8At record.body 0
    if handshakeType = 0x0b ∨ handshakeType = 0x0d then
      return [record]
    else
      return []
  else
    return []

-- `walk_records` with an offset that moves over the payload, as in the source.
def walkRecords (fuel : Nat) (payload : List UInt8) : Checked (List ExtractedRecord) := do
  if payload.length < recordHeaderLen + 1 then
    return []
  let firstRecordLen := (← u16At payload 3).toNat
  loop body fuel (recordHeaderLen + firstRecordLen, 0, [])
where
  body : Nat × Nat × List ExtractedRecord →
      Checked (Turn (Nat × Nat × List ExtractedRecord) (List ExtractedRecord))
    | (offset, recordCount, records) => do
      if offset + recordHeaderLen ≤ payload.length ∧ recordCount < maxRecordsToWalk then
        let contentType ← u8At payload offset
        let version ← u16At payload (offset + 1)
        let recordLen := (← u16At payload (offset + 3)).toNat
        let bodyStart := offset + recordHeaderLen
        let bodyEnd := bodyStart + recordLen
        let truncated := decide (payload.length < bodyEnd)
        let body ← slice payload bodyStart (bif truncated then payload.length else bodyEnd)
        let records :=
          records ++ (← kept contentType { version := version, body := body, truncated := truncated })
        if contentType ≠ 0x16 then
          return .done records
        if truncated then
          return .done records
        return .next (bodyEnd, recordCount + 1, records)
      else
        return .done records

end Indexed

namespace ExtractedRecord

def handshakeType (record : ExtractedRecord) : UInt8 :=
  record.body.head?.getD 0x00

def handshakeTypeName (record : ExtractedRecord) : String :=
  if record.handshakeType = 0x0b then "Certificate"
  else if record.handshakeType = 0x0d then "CertificateRequest"
  else "Unknown"

end ExtractedRecord

def synthesizeEventFromWalkedRecord (env : Env) (originalCapture : RawTlsCapture)
    (record : ExtractedRecord) : CaptureEvent :=
  { baseEvent env originalCapture (tlsVersionName record.version) record.handshakeTypeName with
    truncated := some record.truncated
  }

end TlsProbe
