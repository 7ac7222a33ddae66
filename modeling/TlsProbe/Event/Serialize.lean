import TlsProbe.Event.Basic
import TlsProbe.Lib.Json

namespace TlsProbe

-- The objects that the derived serializers write: the fields in their order of declaration, less
-- those that are skipped. An absent value is written as `null` if its field is not skipped.

def idNameFields (id : UInt16) (name : String) : List (String × Option Json) := [
  ("id",   some <| .num id.toNat),
  ("name", some <| .str name)
]

def CipherSuiteInfo.toJson (info : CipherSuiteInfo) : Json :=
  .object <| idNameFields info.id info.name

def KeyExchangeInfo.toJson (info : KeyExchangeInfo) : Json :=
  .object <| idNameFields info.id info.name

def SignatureAlgorithmInfo.toJson (info : SignatureAlgorithmInfo) : Json :=
  .object <| idNameFields info.id info.name

def SelectedGroup.toJson (group : SelectedGroup) : Json :=
  .object <| idNameFields group.id group.name

def OfferedGroup.toJson (group : OfferedGroup) : Json :=
  .object <| idNameFields group.id group.name

def Resumption.fields (resumption : Resumption) : List (String × Option Json) := [
  ("psk_offered",            some <| .bool resumption.pskOffered),
  ("early_data_offered",     some <| .bool resumption.earlyDataOffered),
  ("psk_selected",           some <| .bool resumption.pskSelected),
  ("session_ticket_offered", some <| .bool resumption.sessionTicketOffered)
]

def Resumption.toJson (resumption : Resumption) : Json :=
  .object resumption.fields

def Certificate.fields (certificate : Certificate) : List (String × Option Json) := [
  ("not_before",           some <| .str certificate.notBefore),
  ("not_after",            some <| .str certificate.notAfter),
  ("expired",              some <| .bool certificate.expired),
  ("public_key_algorithm", some <| .str certificate.publicKeyAlgorithm),
  ("public_key_bits",      some <| .num certificate.publicKeyBits.toNat),
  ("signature_algorithm",  some <| .str certificate.signatureAlgorithm),
  ("self_signed",          some <| .bool certificate.selfSigned),
  ("subject_cn",           some <| .nullable .str certificate.subjectCn),
  ("issuer_cn",            some <| .nullable .str certificate.issuerCn),
  ("san_count",            some <| .num certificate.sanCount.toNat)
]

def Certificate.toJson (certificate : Certificate) : Json :=
  .object certificate.fields

namespace Negotiation

-- `skip_serializing_if = "Vec::is_empty"`
def offeredGroupsJson (negotiation : Negotiation) : Option Json :=
  if negotiation.clientOfferedGroups = [] then
    none
  else
    some <| .arr (negotiation.clientOfferedGroups.map (·.toJson))

def fields (negotiation : Negotiation) : List (String × Option Json) := [
  ("outcome",               some <| .str negotiation.outcome),
  ("client_max_version",    some <| .str negotiation.clientMaxVersion),
  ("selected_group",        negotiation.selectedGroup.map (·.toJson)),
  ("client_offered_groups", negotiation.offeredGroupsJson),
  ("client_sni",            some <| .nullable .str negotiation.clientSni),
  ("psk_selected",          some <| .bool negotiation.pskSelected),
  ("early_data_offered",    some <| .bool negotiation.earlyDataOffered),
  ("mtls_requested",        some <| .bool negotiation.mtlsRequested),
  ("mtls",                  some <| .bool negotiation.mtls)
]

def toJson (negotiation : Negotiation) : Json :=
  .object negotiation.fields

end Negotiation

namespace CaptureEvent

def fields (event : CaptureEvent) : List (String × Option Json) := [
  ("schema_version",            some <| .str event.schemaVersion),
  ("timestamp",                 some <| .str event.timestamp),
  ("timestamp_ns",              some <| .num event.timestampNs.toNat),
  ("src",                       some <| .str event.src),
  ("dst",                       some <| .str event.dst),
  ("tls_version",               some <| .str event.tlsVersion),
  ("handshake_type",            some <| .str event.handshakeType),
  ("cipher_suites",             some <| .arr (event.cipherSuites.map (·.toJson))),
  ("key_exchange_groups",       some <| .arr (event.keyExchangeGroups.map (·.toJson))),
  ("signature_algorithms",      some <| .arr (event.signatureAlgorithms.map (·.toJson))),
  ("signature_algorithms_cert", event.signatureAlgorithmsCert.map fun infos =>
    .arr (infos.map (·.toJson))),
  ("key_share_group",           some <| .nullable (·.toJson) event.keyShareGroup),
  ("sni",                       some <| .nullable .str event.sni),
  ("process_name",              some <| .nullable .str event.processName),
  ("pid",                       some <| .nullable (fun pid => .num pid.toNat) event.pid),
  ("reassembled",               event.reassembled.map .bool),
  ("truncated",                 event.truncated.map .bool),
  ("alert_level",               event.alertLevel.map .str),
  ("alert_description",         event.alertDescription.map .str),
  ("negotiation",               event.negotiation.map (·.toJson)),
  ("resumption",                event.resumption.map (·.toJson)),
  ("cgroup_id",                 event.cgroupId.map fun cgroupId => .num cgroupId.toNat),
  ("container_id",              event.containerId.map .str),
  ("pod_uid",                   event.podUid.map .str),
  ("ja4",                       event.ja4.map .str),
  ("certificate",               event.certificate.map (·.toJson))
]

def toJson (event : CaptureEvent) : Json :=
  .object event.fields

end CaptureEvent
end TlsProbe
