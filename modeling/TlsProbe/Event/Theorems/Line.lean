import TlsProbe.Event.Line

open Function (Injective)

namespace TlsProbe

-- Values are told apart by their objects.
section Objects

theorem idNameFields_inj {id id' : UInt16} {name name' : String}
    (h : Json.object (idNameFields id name) = .object (idNameFields id' name')) :
    id = id' ∧ name = name' := by
  have h : idNameFields id name = idNameFields id' name' :=
    Json.object_injective rfl (by simp [idNameFields]) h
  simpa [idNameFields, UInt16.toNat_inj] using h

theorem CipherSuiteInfo.toJson_injective : Injective CipherSuiteInfo.toJson := by
  rintro ⟨⟩ ⟨⟩ h
  obtain ⟨rfl, rfl⟩ := idNameFields_inj h
  rfl

theorem KeyExchangeInfo.toJson_injective : Injective KeyExchangeInfo.toJson := by
  rintro ⟨⟩ ⟨⟩ h
  obtain ⟨rfl, rfl⟩ := idNameFields_inj h
  rfl

theorem SignatureAlgorithmInfo.toJson_injective : Injective SignatureAlgorithmInfo.toJson := by
  rintro ⟨⟩ ⟨⟩ h
  obtain ⟨rfl, rfl⟩ := idNameFields_inj h
  rfl

theorem SelectedGroup.toJson_injective : Injective SelectedGroup.toJson := by
  rintro ⟨⟩ ⟨⟩ h
  obtain ⟨rfl, rfl⟩ := idNameFields_inj h
  rfl

theorem OfferedGroup.toJson_injective : Injective OfferedGroup.toJson := by
  rintro ⟨⟩ ⟨⟩ h
  obtain ⟨rfl, rfl⟩ := idNameFields_inj h
  rfl

theorem Resumption.toJson_injective : Injective Resumption.toJson := by
  intro a b h
  have h : a.fields = b.fields := Json.object_injective rfl (by simp [Resumption.fields]) h
  cases a
  cases b
  simpa [Resumption.fields] using h

theorem str_injective : Injective (Json.nullable .str) :=
  Json.nullable_injective (fun _ _ => Json.str.inj) (by simp)

theorem Certificate.toJson_injective : Injective Certificate.toJson := by
  intro a b h
  have h : a.fields = b.fields := Json.object_injective rfl (by simp [Certificate.fields]) h
  cases a
  cases b
  simpa [Certificate.fields, UInt16.toNat_inj, str_injective.eq_iff] using h

theorem Negotiation.offeredGroupsJson_inj {a b : Negotiation}
    (h : a.offeredGroupsJson = b.offeredGroupsJson) :
    a.clientOfferedGroups = b.clientOfferedGroups := by
  simp only [offeredGroupsJson] at h
  split at h <;> split at h
  case isTrue.isTrue ha hb => rw [ha, hb]
  case isFalse.isFalse =>
    simp only [Option.some.injEq, Json.arr.injEq] at h
    exact List.map_injective_iff.mpr OfferedGroup.toJson_injective h
  all_goals contradiction

theorem Negotiation.toJson_injective : Injective Negotiation.toJson := by
  intro a b h
  have h : a.fields = b.fields := Json.object_injective rfl (by simp [Negotiation.fields]) h
  simp only [Negotiation.fields, List.cons.injEq, Prod.mk.injEq, Option.some.injEq,
    Json.str.injEq, Json.bool.injEq, str_injective.eq_iff, true_and, and_true,
    (Option.map_injective SelectedGroup.toJson_injective).eq_iff] at h
  obtain ⟨h₁, h₂, h₃, h₄, h₅, h₆, h₇, h₈, h₉⟩ := h
  have h₄ := offeredGroupsJson_inj h₄
  cases a
  cases b
  simp_all

theorem infos_injective {α : Type} {toJson : α → Json} (h : Injective toJson) :
    Injective fun infos : List α => Json.arr (infos.map toJson) :=
  fun _ _ he => List.map_injective_iff.mpr h (Json.arr.inj he)

theorem CaptureEvent.toJson_injective : Injective CaptureEvent.toJson := by
  intro a b h
  have h : a.fields = b.fields := Json.object_injective rfl (by simp [CaptureEvent.fields]) h
  have hk : Injective (Json.nullable KeyExchangeInfo.toJson) :=
    Json.nullable_injective KeyExchangeInfo.toJson_injective
      (by simp [KeyExchangeInfo.toJson, Json.object])
  have hp : Injective (Json.nullable fun pid : UInt32 => .num pid.toNat) :=
    Json.nullable_injective
      (fun _ _ he => UInt32.toNat_inj.mp <| Int.natCast_inj.mp <| Json.num.inj he) (by simp)
  have hs : Injective (Option.map Json.str) := Option.map_injective fun _ _ => Json.str.inj
  have hb : Injective (Option.map Json.bool) := Option.map_injective fun _ _ => Json.bool.inj
  have hc : Injective (Option.map fun cgroupId : UInt64 => Json.num cgroupId.toNat) :=
    Option.map_injective
      fun _ _ he => UInt64.toNat_inj.mp <| Int.natCast_inj.mp <| Json.num.inj he
  simp only [CaptureEvent.fields, List.cons.injEq, Prod.mk.injEq, Option.some.injEq,
    Json.str.injEq, Json.num.injEq, Int.natCast_inj, UInt64.toNat_inj, true_and, and_true,
    str_injective.eq_iff, hk.eq_iff, hp.eq_iff, hs.eq_iff, hb.eq_iff, hc.eq_iff,
    (infos_injective CipherSuiteInfo.toJson_injective).eq_iff,
    (infos_injective KeyExchangeInfo.toJson_injective).eq_iff,
    (infos_injective SignatureAlgorithmInfo.toJson_injective).eq_iff,
    (Option.map_injective <| infos_injective SignatureAlgorithmInfo.toJson_injective).eq_iff,
    (Option.map_injective Negotiation.toJson_injective).eq_iff,
    (Option.map_injective Resumption.toJson_injective).eq_iff,
    (Option.map_injective Certificate.toJson_injective).eq_iff] at h
  cases a
  cases b
  simp_all

end Objects

section Lines

variable {events : List CaptureEvent} {bytes : List UInt8}

def eventText (event : CaptureEvent) : List UInt8 :=
  event.toJson.bytes serdeJson

theorem eventText_injective : Injective eventText :=
  Json.bytes_injective.comp CaptureEvent.toJson_injective

-- However much has been written of the lines of some events, the complete lines are those of the
-- first events, and of no others.
theorem cut_readable (h : bytes <+: events.flatMap eventLine) :
    (bytes.splitOn 0x0a).dropLast = (events.take (bytes.count 0x0a)).map eventText ∧
    ∀ events', (bytes.splitOn 0x0a).dropLast = events'.map eventText →
      events' = events.take (bytes.count 0x0a) := by
  have hs : (bytes.splitOn 0x0a).dropLast = (events.take (bytes.count 0x0a)).map eventText :=
    Code.splitOn_of_prefix (fun _ => Json.not_mem_bytes) h
  refine ⟨hs, fun events' he => ?_⟩
  exact List.map_injective_iff.mpr eventText_injective (he.symm.trans hs)

-- The event of a handshake record of which nothing could be parsed.
def bareEvent : CaptureEvent :=
  let env : Env := {
    timestamp           := ""
    sha256              := id
    parseDerCertificate := fun _ => none
    resolveCgroupId     := fun _ => (none, none)
  }
  buildFallbackAnalysis env default

-- Of two lines, all but the last byte has been written.
theorem cut_readable_bare :
    let bytes := ([bareEvent, bareEvent].flatMap eventLine).dropLast
    (bytes.splitOn 0x0a).dropLast = ([bareEvent, bareEvent].take (bytes.count 0x0a)).map eventText ∧
    ∀ events', (bytes.splitOn 0x0a).dropLast = events'.map eventText →
      events' = [bareEvent, bareEvent].take (bytes.count 0x0a) :=
  cut_readable (List.dropLast_prefix _)

end Lines

end TlsProbe
