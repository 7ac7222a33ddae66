import TlsProbe.Correlator.Basic
import TlsProbe.Event.Ja4
import TlsProbe.Parser.Hello

namespace TlsProbe

variable {hello : ParsedClientHello} {recordVersion version : UInt16} {nowNs : UInt64}

instance lawfulOrderMax_uint16 : Std.LawfulOrderMax UInt16 := by
  have hd (v w : UInt16) : max v w = if v ≤ w then w else v := rfl
  refine .of_max_le_iff (fun u v w => ?_) (fun v w => ?_)
  · rw [hd]
    split <;> grind
  · rw [hd]
    split
    case isTrue  => exact .inr rfl
    case isFalse => exact .inl rfl

-- The version in which a JA4 string begins.
def Ja4.ja4Version (hello : ParsedClientHello) : UInt16 :=
  if hello.supportedVersions = [] then
    hello.legacyVersion
  else
    ((hello.supportedVersions.filter (!isGrease ·)).max?).getD hello.legacyVersion

theorem Ja4.ja4VersionString_eq : ja4VersionString hello =
    if ja4Version hello = 0x0304 then "13"
    else if ja4Version hello = 0x0303 then "12"
    else if ja4Version hello = 0x0302 then "11"
    else if ja4Version hello = 0x0301 then "10"
    else "00" :=
  rfl

namespace ParsedClientHello

def offeredVersions (hello : ParsedClientHello) : List UInt16 :=
  hello.supportedVersions.filter (!isGrease ·)

-- The largest version that a client offers.
def largestVersion (hello : ParsedClientHello) : UInt16 :=
  hello.offeredVersions.max?.getD hello.legacyVersion

-- What the event, the negotiation and the JA4 string report is the same version.
structure VersionsAgree (recordVersion : UInt16) (hello : ParsedClientHello) (nowNs : UInt64) :
    Prop where
  event       : (TlsAnalysis.clientHello recordVersion hello).effectiveVersion =
    hello.largestVersion
  negotiation : (hello.summary nowNs).maxVersion = hello.largestVersion
  ja4         : Ja4.ja4Version hello = hello.largestVersion

-- The first entry of the list is a version, and no other version in it is larger. If there are no
-- versions in it, the entry happens to be the legacy version.
def LargestFirst (hello : ParsedClientHello) : Prop :=
  ∀ first ∈ hello.supportedVersions.head?,
    if hello.offeredVersions = [] then
      first = hello.legacyVersion
    else
      isGrease first = false ∧ ∀ version ∈ hello.offeredVersions, version ≤ first

theorem ja4Version_eq : Ja4.ja4Version hello = hello.largestVersion := by
  rw [Ja4.ja4Version, largestVersion, offeredVersions]
  split
  case isTrue h  => simp [h]
  case isFalse h => rfl

theorem largestVersion_eq_iff (h : hello.offeredVersions ≠ []) : hello.largestVersion = version ↔
    version ∈ hello.offeredVersions ∧ ∀ v ∈ hello.offeredVersions, v ≤ version := by
  obtain ⟨m, hm⟩ := Option.isSome_iff_exists.mp (List.isSome_max?_iff.mpr h)
  rw [largestVersion, hm, Option.getD_some, ←List.max?_eq_some_iff, hm, Option.some.injEq]

-- The first entry is the one that an event reports.
theorem event_iff : (TlsAnalysis.clientHello recordVersion hello).effectiveVersion =
    hello.largestVersion ↔ hello.LargestFirst := by
  rw [TlsAnalysis.effectiveVersion, LargestFirst]
  cases hs : hello.supportedVersions
  case nil             => simp [largestVersion, offeredVersions, hs]
  case cons first rest =>
    by_cases ho : hello.offeredVersions = []
    case pos => simp [largestVersion, ho]
    case neg =>
      have hm : first ∈ hello.offeredVersions ↔ isGrease first = false := by
        simp [offeredVersions, hs]
      simp [ho, eq_comm (a := first), largestVersion_eq_iff ho, hm]

theorem maxVersion_eq (h : hello.LargestFirst) : hello.maxVersion = hello.largestVersion := by
  rw [maxVersion]
  cases hs : hello.supportedVersions
  case nil             => simp [largestVersion, offeredVersions, hs]
  case cons first rest =>
    have hf := h first (by simp [hs])
    split at hf
    case isTrue ho =>
      have hn : (first :: rest).find? (!isGrease ·) = none := by
        rw [←hs, ←List.head?_filter]
        exact List.head?_eq_none_iff.mpr ho
      simp [hn, largestVersion, ho]
    case isFalse ho =>
      have hm : first ∈ hello.offeredVersions := by simp [offeredVersions, hs, hf.1]
      rw [List.find?_cons_of_pos (by simp [hf.1]), Option.getD_some]
      exact ((largestVersion_eq_iff ho).mpr ⟨hm, hf.2⟩).symm

theorem versionsAgree_iff : hello.VersionsAgree recordVersion nowNs ↔ hello.LargestFirst := by
  constructor
  case mp  => exact fun h => event_iff.mp h.event
  case mpr => exact fun h => ⟨event_iff.mpr h, maxVersion_eq h, ja4Version_eq⟩

-- A ClientHello that supports TLS 1.3, behind a GREASE value.
def greaseFirst : List UInt8 :=
  [0x16, 0x03, 0x01, 0x00, 0x38, 0x01, 0x00, 0x00, 0x34, 0x03, 0x03] ++ List.replicate 32 0 ++
  [0x00, 0x00, 0x02, 0x13, 0x01, 0x01, 0x00, 0x00, 0x09] ++
  [0x00, 0x2b, 0x00, 0x05, 0x04, 0x0a, 0x0a, 0x03, 0x04]

def clientHello? : TlsAnalysis → Option ParsedClientHello
  | .clientHello _ hello => hello
  | .serverHello ..      => none

theorem greaseFirst_not_agree : ∃ recordVersion hello,
    parseTlsPayload greaseFirst true = .ok (.clientHello recordVersion hello) ∧
      ∀ nowNs, ¬hello.VersionsAgree recordVersion nowNs := by
  have hp : ((parseTlsPayload greaseFirst true).toOption.bind clientHello?).map
      supportedVersions = some [0x0a0a, 0x0304] := by
    decide +kernel
  cases ha : parseTlsPayload greaseFirst true <;> simp only [ha, Except.toOption] at hp
  case error => contradiction
  case ok analysis =>
    cases analysis
    case serverHello => contradiction
    case clientHello recordVersion hello =>
      have hs : hello.supportedVersions = [0x0a0a, 0x0304] := Option.some.inj hp
      refine ⟨recordVersion, hello, rfl, fun nowNs h => ?_⟩
      have hm := h.event
      simp only [largestVersion, offeredVersions, TlsAnalysis.effectiveVersion, hs] at hm
      change (0x0a0a : UInt16) = 0x0304 at hm
      contradiction

end ParsedClientHello
end TlsProbe
