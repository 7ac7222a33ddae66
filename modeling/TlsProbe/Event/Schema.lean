import TlsProbe.Event.Serialize

namespace TlsProbe

-- The committed schema, `specs/capture-event.schema.json`.
namespace Schemas

-- The definitions `CipherSuiteInfo`, `KeyExchangeInfo`, `OfferedGroup`, `SelectedGroup` and
-- `SignatureAlgorithmInfo` are all the same.
def idName : Schema :=
  .object ["id", "name"] [
    ("id",   .uint 16),
    ("name", .string)
  ]

def resumption : Schema :=
  .object ["early_data_offered", "psk_offered", "psk_selected", "session_ticket_offered"] [
    ("early_data_offered",     .boolean),
    ("psk_offered",            .boolean),
    ("psk_selected",           .boolean),
    ("session_ticket_offered", .boolean)
  ]

def certificate : Schema :=
  .object ["expired", "not_after", "not_before", "public_key_algorithm", "public_key_bits",
      "san_count", "self_signed", "signature_algorithm"] [
    ("expired",              .boolean),
    ("issuer_cn",            .nullable .string),
    ("not_after",            .string),
    ("not_before",           .string),
    ("public_key_algorithm", .string),
    ("public_key_bits",      .uint 16),
    ("san_count",            .uint 16),
    ("self_signed",          .boolean),
    ("signature_algorithm",  .string),
    ("subject_cn",           .nullable .string)
  ]

def negotiation : Schema :=
  .object ["client_max_version", "client_offered_groups", "early_data_offered", "mtls",
      "mtls_requested", "outcome", "psk_selected"] [
    ("client_max_version",    .string),
    ("client_offered_groups", .array idName),
    ("client_sni",            .nullable .string),
    ("early_data_offered",    .boolean),
    ("mtls",                  .boolean),
    ("mtls_requested",        .boolean),
    ("outcome",               .string),
    ("psk_selected",          .boolean),
    ("selected_group",        .nullable idName)
  ]

def captureEvent : Schema :=
  .object ["cipher_suites", "dst", "handshake_type", "key_exchange_groups", "schema_version",
      "signature_algorithms", "src", "timestamp", "timestamp_ns", "tls_version"] [
    ("alert_description",         .nullable .string),
    ("alert_level",               .nullable .string),
    ("certificate",               .nullable certificate),
    ("cgroup_id",                 .nullable (.uint 64)),
    ("cipher_suites",             .array idName),
    ("container_id",              .nullable .string),
    ("dst",                       .string),
    ("handshake_type",            .string),
    ("ja4",                       .nullable .string),
    ("key_exchange_groups",       .array idName),
    ("key_share_group",           .nullable idName),
    ("negotiation",               .nullable negotiation),
    ("pid",                       .nullable (.uint 32)),
    ("pod_uid",                   .nullable .string),
    ("process_name",              .nullable .string),
    ("reassembled",               .nullable .boolean),
    ("resumption",                .nullable resumption),
    ("schema_version",            .string),
    ("signature_algorithms",      .array idName),
    ("signature_algorithms_cert", .nullable (.array idName)),
    ("sni",                       .nullable .string),
    ("src",                       .string),
    ("timestamp",                 .string),
    ("timestamp_ns",              .uint 64),
    ("tls_version",               .string),
    ("truncated",                 .nullable .boolean)
  ]

end Schemas

section Nested

theorem idName_valid {id : UInt16} {name : String} :
    Schemas.idName (.object <| idNameFields id name) := by
  rw [Schemas.idName, Schema.object_object (by simp [idNameFields])]
  simp [idNameFields, List.lookup_cons]

@[simp]
theorem CipherSuiteInfo.valid {info : CipherSuiteInfo} : Schemas.idName info.toJson :=
  idName_valid

@[simp]
theorem KeyExchangeInfo.valid {info : KeyExchangeInfo} : Schemas.idName info.toJson :=
  idName_valid

@[simp]
theorem SignatureAlgorithmInfo.valid {info : SignatureAlgorithmInfo} : Schemas.idName info.toJson :=
  idName_valid

@[simp]
theorem SelectedGroup.valid {group : SelectedGroup} : Schemas.idName group.toJson :=
  idName_valid

@[simp]
theorem OfferedGroup.valid {group : OfferedGroup} : Schemas.idName group.toJson :=
  idName_valid

@[simp]
theorem Resumption.valid {resumption : Resumption} : Schemas.resumption resumption.toJson := by
  rw [Schemas.resumption, Resumption.toJson, Schema.object_object (by simp [Resumption.fields])]
  constructor <;> simp [Resumption.fields, List.lookup_cons]

@[simp]
theorem Certificate.valid {certificate : Certificate} :
    Schemas.certificate certificate.toJson := by
  rw [Schemas.certificate, Certificate.toJson,
    Schema.object_object (by simp [Certificate.fields])]
  constructor <;> simp [Certificate.fields, List.lookup_cons]

-- The list of groups is required, but an empty one is skipped.
theorem Negotiation.valid_iff {negotiation : Negotiation} :
    Schemas.negotiation negotiation.toJson ↔ negotiation.clientOfferedGroups ≠ [] := by
  rw [Schemas.negotiation, Negotiation.toJson,
    Schema.object_object (by simp [Negotiation.fields])]
  by_cases hg : negotiation.clientOfferedGroups = []
  all_goals
    simp [Negotiation.fields, Negotiation.offeredGroupsJson, List.lookup_cons, hg]

end Nested

theorem CaptureEvent.valid_iff {event : CaptureEvent} :
    Schemas.captureEvent event.toJson ↔
      ∀ negotiation ∈ event.negotiation, negotiation.clientOfferedGroups ≠ [] := by
  have hs : (event.signatureAlgorithmsCert.map fun infos =>
      Json.arr (infos.map (·.toJson))).all (Schema.nullable (.array Schemas.idName)) :=
    Schema.all_map fun infos => Schema.nullable_of <| Schema.array_map fun _ => idName_valid
  have hn : (event.negotiation.map (·.toJson)).all (Schema.nullable Schemas.negotiation) ↔
      ∀ negotiation ∈ event.negotiation, negotiation.clientOfferedGroups ≠ [] := by
    have hn (negotiation : Negotiation) :
        Schema.nullable Schemas.negotiation negotiation.toJson ↔
          negotiation.clientOfferedGroups ≠ [] :=
      Schema.nullable_object.trans Negotiation.valid_iff
    cases event.negotiation <;> simp [hn]
  rw [Schemas.captureEvent, CaptureEvent.toJson,
    Schema.object_object (by simp [CaptureEvent.fields]),
    and_iff_right (by simp [CaptureEvent.fields, List.lookup_cons]), ←hn]
  simp [CaptureEvent.fields, List.lookup_cons, hs]

-- What the schema and its descriptions say of the object for an event.
structure Conforms (json : Json) : Prop where
  schema      : Schemas.captureEvent json
  resumption  : ∀ resumption ∈ json.member "resumption",
    ∃ flag ∈ ["psk_offered", "early_data_offered", "psk_selected", "session_ticket_offered"],
      resumption.member flag = some (.bool true)
  alert       : ∀ name ∈ ["alert_level", "alert_description"], (json.member name).isSome →
    json.member "handshake_type" = some (.str "Alert")
  ja4         : (json.member "ja4").isSome →
    json.member "handshake_type" = some (.str "ClientHello")
  certificate : (json.member "certificate").isSome →
    json.member "handshake_type" = some (.str "Certificate")

def Resumption.anyFlag (resumption : Resumption) : Bool :=
  resumption.pskOffered || resumption.earlyDataOffered || resumption.pskSelected ||
    resumption.sessionTicketOffered

theorem Resumption.anyFlag_iff {resumption : Resumption} :
    (∃ flag ∈ ["psk_offered", "early_data_offered", "psk_selected", "session_ticket_offered"],
      resumption.toJson.member flag = some (.bool true)) ↔ resumption.anyFlag := by
  have hm (flag : String) :
      resumption.toJson.member flag = (resumption.fields.lookup flag).join :=
    Json.member_object (by simp [fields])
  simp [hm, fields, List.lookup_cons, anyFlag, or_assoc]

namespace CaptureEvent

-- The same, of the event itself.
structure WellFormed (event : CaptureEvent) : Prop where
  groups      : ∀ negotiation ∈ event.negotiation, negotiation.clientOfferedGroups ≠ []
  resumption  : ∀ resumption ∈ event.resumption, resumption.anyFlag
  alert       : event.alertLevel.isSome ∨ event.alertDescription.isSome →
    event.handshakeType = "Alert"
  ja4         : event.ja4.isSome → event.handshakeType = "ClientHello"
  certificate : event.certificate.isSome → event.handshakeType = "Certificate"

variable {event : CaptureEvent}

theorem conforms_iff : Conforms event.toJson ↔ event.WellFormed := by
  have hm (name : String) : event.toJson.member name = (event.fields.lookup name).join :=
    Json.member_object (by simp [fields])
  have hr : (∀ resumption ∈ event.toJson.member "resumption",
      ∃ flag ∈ ["psk_offered", "early_data_offered", "psk_selected", "session_ticket_offered"],
        resumption.member flag = some (.bool true)) ↔
      ∀ resumption ∈ event.resumption, resumption.anyFlag := by
    simp only [←Resumption.anyFlag_iff, hm]
    simp [fields, List.lookup_cons]
  have ha : (∀ name ∈ ["alert_level", "alert_description"],
      (event.toJson.member name).isSome →
        event.toJson.member "handshake_type" = some (.str "Alert")) ↔
      (event.alertLevel.isSome ∨ event.alertDescription.isSome →
        event.handshakeType = "Alert") := by
    rw [List.forall_mem_cons, List.forall_mem_singleton]
    simp [hm, fields, List.lookup_cons, or_imp]
  have hj : ((event.toJson.member "ja4").isSome →
      event.toJson.member "handshake_type" = some (.str "ClientHello")) ↔
      (event.ja4.isSome → event.handshakeType = "ClientHello") := by
    simp [hm, fields, List.lookup_cons]
  have hc : ((event.toJson.member "certificate").isSome →
      event.toJson.member "handshake_type" = some (.str "Certificate")) ↔
      (event.certificate.isSome → event.handshakeType = "Certificate") := by
    simp [hm, fields, List.lookup_cons]
  exact ⟨fun h => ⟨valid_iff.mp h.1, hr.mp h.2, ha.mp h.3, hj.mp h.4, hc.mp h.5⟩,
    fun h => ⟨valid_iff.mpr h.1, hr.mpr h.2, ha.mpr h.3, hj.mpr h.4, hc.mpr h.5⟩⟩

end CaptureEvent
end TlsProbe
