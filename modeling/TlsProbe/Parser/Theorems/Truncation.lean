import TlsProbe.Parser.Theorems.Locality
import TlsProbe.Parser.Theorems.RoundTrip

namespace TlsProbe

open Reader

section Blocks

variable {block x : List UInt8}

theorem parseExtensions_prefix : parseExtensions block <+: parseExtensions (block ++ x) := by
  induction block using parseExtensions.induct
  case case1 t₁ t₂ l₁ l₂ rest extLen h hi =>
    have hx : extLen ≤ (rest ++ x).length := by simp; omega
    simp only [List.cons_append, parseExtensions]
    rw [if_pos h, if_pos hx, List.take_append_of_le_length h, List.drop_append_of_le_length h]
    exact List.prefix_cons_inj _ |>.mpr hi
  case case2 h =>
    rw [parseExtensions, if_neg h]
    exact List.nil_prefix
  case case3 h =>
    rw [parseExtensions.eq_def]
    split
    case h_1 => exact absurd rfl (h _ _ _ _ _)
    case h_2 => exact List.nil_prefix

theorem extensionIds_prefix : extensionIds block <+: extensionIds (block ++ x) := by
  induction block using extensionIds.induct generalizing x
  case case1 t₁ t₂ l₁ l₂ rest hi =>
    simp only [List.cons_append, extensionIds]
    rw [List.drop_append]
    exact List.prefix_cons_inj _ |>.mpr hi
  case case2 h =>
    rw [extensionIds.eq_def]
    split
    case h_1 => exact absurd rfl (h _ _ _ _ _)
    case h_2 => exact List.nil_prefix

-- A block that is cut off starts the block that is not.
theorem extensionBlock_append :
    ∃ y, extensionBlock (block ++ x) = extensionBlock block ++ y := by
  match block with
  | []               => exact ⟨_, rfl⟩
  | [_]              => exact ⟨_, rfl⟩
  | hi :: lo :: rest =>
    simp only [extensionBlock, List.cons_append, List.take_append]
    exact ⟨_, rfl⟩

end Blocks

-- A field that extensions of the type `t` set, after the first extensions and after all of them.
theorem foldl_prefix {H α : Type} {step : H → Extension → H} {π : H → α} (t : ExtensionType)
    (get : Extension → α) (hs : ∀ h e, π (step h e) = if e.extType = t then get e else π h)
    {exts exts' : List Extension} (hp : exts <+: exts')
    (hd : (exts'.map (·.extType)).Nodup) (h h' : H) :
    π (exts.foldl step h) = π h ∨ π (exts.foldl step h) = π (exts'.foldl step h') := by
  let f (e : Extension) : Option α := if e.extType = t then some (get e) else none
  have hf (h : H) (e : Extension) : π (step h e) = (f e).getD (π h) := by
    rw [hs]
    simp only [f]
    split <;> rfl
  have hk (e : Extension) (he : f e ≠ none) : e.extType = t := by
    by_contra hne
    exact he (if_neg hne)
  have hd₁ : (exts.map (·.extType)).Nodup := hd.sublist (hp.map _).sublist
  rw [foldl_findSome? (·.extType) t hf hk hd, foldl_findSome? (·.extType) t hf hk hd₁]
  obtain ⟨rest, rfl⟩ := hp
  rw [List.findSome?_append]
  cases exts.findSome? f
  case none   => exact .inl rfl
  case some a => exact .inr rfl

theorem parseHello_append {H : Type} {fields : Parser H} {withExtensions : H → List UInt8 → H}
    {P : H → Prop} (he : Extends fields) (hr : Returns P fields) {q : List UInt8} {hello : H}
    (hq : parseHello fields withExtensions q = .ok hello) (x : List UInt8) :
    ∃ fixed block y, P fixed ∧ hello = withExtensions fixed block ∧
      parseHello fields withExtensions (q ++ x) = .ok (withExtensions fixed (block ++ y)) := by
  unfold parseHello at hq
  split_ifs at hq with hl
  cases hf : fields q helloStart <;> simp only [hf] at hq
  case error => contradiction
  case ok read =>
    obtain ⟨fixed, offset⟩ := read
    obtain ⟨y, hy⟩ := @extensionBlock_append (q.drop offset) (x.drop (offset - q.length))
    refine ⟨fixed, extensionBlock (q.drop offset), y, hr _ _ _ _ hf, (Except.ok.inj hq).symm, ?_⟩
    rw [parseHello, if_neg (by rw [List.length_append]; omega), he _ _ _ _ hf x]
    simp only [List.drop_append, hy]

namespace ParsedClientHello

-- What the parser returns for a hello that is cut off (`q`), compared with the whole one (`p`).
structure TruncationOf (q p : ParsedClientHello) : Prop where
  legacyVersion      : q.legacyVersion = p.legacyVersion
  random             : q.random = p.random
  sessionId          : q.sessionId = p.sessionId
  cipherSuites       : q.cipherSuites = p.cipherSuites
  compressionMethods : q.compressionMethods = p.compressionMethods
  extensions         : q.extensions <+: p.extensions
  extensionIds       : q.extensionIds <+: p.extensionIds
  derived            : (p.extensions.map (·.extType)).Nodup →
    (q.supportedVersions = [] ∨ q.supportedVersions = p.supportedVersions) ∧
    (q.supportedGroups = [] ∨ q.supportedGroups = p.supportedGroups) ∧
    (q.signatureAlgorithms = [] ∨ q.signatureAlgorithms = p.signatureAlgorithms) ∧
    (q.signatureAlgorithmsCert = [] ∨ q.signatureAlgorithmsCert = p.signatureAlgorithmsCert) ∧
    (q.keyShareGroups = [] ∨ q.keyShareGroups = p.keyShareGroups) ∧
    (q.sni = none ∨ q.sni = p.sni) ∧
    (q.alpn = [] ∨ q.alpn = p.alpn) ∧
    (q.pskOffered = false ∨ q.pskOffered = p.pskOffered) ∧
    (q.earlyDataOffered = false ∨ q.earlyDataOffered = p.earlyDataOffered) ∧
    (q.pskKeyExchangeModesOffered = false ∨
      q.pskKeyExchangeModesOffered = p.pskKeyExchangeModesOffered) ∧
    (q.sessionTicketOffered = false ∨ q.sessionTicketOffered = p.sessionTicketOffered)

-- No field is set that comes from the extensions.
def Bare (hello : ParsedClientHello) : Prop :=
  hello = { hello with
    supportedVersions          := []
    supportedGroups            := []
    signatureAlgorithms        := []
    signatureAlgorithmsCert    := []
    keyShareGroups             := []
    sni                        := none
    alpn                       := []
    pskOffered                 := false
    earlyDataOffered           := false
    pskKeyExchangeModesOffered := false
    sessionTicketOffered       := false
  }

theorem fields_bare : Returns Bare fields := by
  repeat refine .bind fun _ => ?_
  exact .pure rfl

-- The fixed part of a hello is not touched by its extensions.
def fixedPart (hello : ParsedClientHello) :=
  (hello.legacyVersion, hello.random, hello.sessionId, hello.cipherSuites, hello.compressionMethods)

theorem withExtensions_fixedPart (hello : ParsedClientHello) (block : List UInt8) :
    (hello.withExtensions block).fixedPart = hello.fixedPart := by
  have hs (h : ParsedClientHello) (e : Extension) : (h.withExtension e).fixedPart = h.fixedPart := by
    unfold withExtension
    split <;> rfl
  exact foldl_same hs _

-- A field that extensions of the type `t` set.
theorem withExtensions_prefix {α : Type} {π : ParsedClientHello → α} (t : ExtensionType)
    (get : Extension → α) (hs : ∀ h e, π (withExtension h e) = if e.extType = t then get e else π h)
    {fixed : ParsedClientHello} {block y : List UInt8}
    (hd : ((parseExtensions (block ++ y)).map (·.extType)).Nodup) {d : α}
    (h₀ : ∀ ids exts, π { fixed with extensionIds := ids, extensions := exts } = d) :
    π (fixed.withExtensions block) = d ∨
      π (fixed.withExtensions block) = π (fixed.withExtensions (block ++ y)) := by
  rw [←h₀ (TlsProbe.extensionIds block) (parseExtensions block)]
  exact foldl_prefix t get hs parseExtensions_prefix hd _ _

theorem withExtensions_truncationOf {fixed : ParsedClientHello} (hb : fixed.Bare)
    (block y : List UInt8) :
    (fixed.withExtensions block).TruncationOf (fixed.withExtensions (block ++ y)) := by
  have hx (block : List UInt8) : (fixed.withExtensions block).extensions = parseExtensions block ∧
      (fixed.withExtensions block).extensionIds = TlsProbe.extensionIds block :=
    foldl_withExtension _ _
  have hf : (fixed.withExtensions block).fixedPart =
      (fixed.withExtensions (block ++ y)).fixedPart := by
    rw [withExtensions_fixedPart, withExtensions_fixedPart]
  simp only [fixedPart, Prod.mk.injEq] at hf
  obtain ⟨hv, hr, hi, hc, hm⟩ := hf
  refine ⟨hv, hr, hi, hc, hm, ?_, ?_, ?_⟩
  · rw [(hx _).1, (hx _).1]
    exact parseExtensions_prefix
  · rw [(hx _).2, (hx _).2]
    exact extensionIds_prefix
  · intro hd
    rw [(hx _).1] at hd
    rw [hb]
    refine ⟨
      withExtensions_prefix .supportedVersions (extractSupportedVersions · true) ?_ hd fun _ _ => rfl,
      withExtensions_prefix .supportedGroups extractSupportedGroups ?_ hd fun _ _ => rfl,
      withExtensions_prefix .signatureAlgorithms extractSignatureAlgorithms ?_ hd fun _ _ => rfl,
      withExtensions_prefix .signatureAlgorithmsCert extractSignatureAlgorithmsCert ?_ hd
        fun _ _ => rfl,
      withExtensions_prefix .keyShare (extractKeyShareGroups · true) ?_ hd fun _ _ => rfl,
      withExtensions_prefix .serverName extractSni ?_ hd fun _ _ => rfl,
      withExtensions_prefix .applicationLayerProtocolNegotiation extractAlpn ?_ hd fun _ _ => rfl,
      withExtensions_prefix .preSharedKey hasPreSharedKey ?_ hd fun _ _ => rfl,
      withExtensions_prefix .earlyData hasEarlyData ?_ hd fun _ _ => rfl,
      withExtensions_prefix .pskKeyExchangeModes hasPskKeyExchangeModes ?_ hd fun _ _ => rfl,
      withExtensions_prefix .sessionTicket hasSessionTicket ?_ hd fun _ _ => rfl⟩
    all_goals
      intro h e
      unfold withExtension
      split <;> simp_all

theorem truncationOf_append {q : List UInt8} {hello : ParsedClientHello}
    (hq : parseClientHello q = .ok hello) (x : List UInt8) :
    ∃ hello', parseClientHello (q ++ x) = .ok hello' ∧ hello.TruncationOf hello' := by
  obtain ⟨fixed, block, y, hb, rfl, hp⟩ := parseHello_append fields_extends fields_bare hq x
  exact ⟨_, hp, withExtensions_truncationOf hb block y⟩

end ParsedClientHello

namespace ParsedServerHello

structure TruncationOf (q p : ParsedServerHello) : Prop where
  legacyVersion     : q.legacyVersion = p.legacyVersion
  random            : q.random = p.random
  sessionId         : q.sessionId = p.sessionId
  cipherSuite       : q.cipherSuite = p.cipherSuite
  compressionMethod : q.compressionMethod = p.compressionMethod
  extensions        : q.extensions <+: p.extensions
  derived           : (p.extensions.map (·.extType)).Nodup →
    (q.negotiatedVersion = none ∨ q.negotiatedVersion = p.negotiatedVersion) ∧
    (q.keyShareGroup = none ∨ q.keyShareGroup = p.keyShareGroup) ∧
    (q.pskSelected = false ∨ q.pskSelected = p.pskSelected)

def Bare (hello : ParsedServerHello) : Prop :=
  hello = { hello with
    negotiatedVersion := none
    keyShareGroup     := none
    pskSelected       := false
  }

theorem fields_bare : Returns Bare fields := by
  repeat refine .bind fun _ => ?_
  exact .pure rfl

def fixedPart (hello : ParsedServerHello) :=
  (hello.legacyVersion, hello.random, hello.sessionId, hello.cipherSuite, hello.compressionMethod)

theorem withExtensions_fixedPart (hello : ParsedServerHello) (block : List UInt8) :
    (hello.withExtensions block).fixedPart = hello.fixedPart := by
  have hs (h : ParsedServerHello) (e : Extension) : (h.withExtension e).fixedPart = h.fixedPart := by
    unfold withExtension
    split <;> rfl
  exact foldl_same hs _

theorem withExtensions_truncationOf {fixed : ParsedServerHello} (hb : fixed.Bare)
    (block y : List UInt8) :
    (fixed.withExtensions block).TruncationOf (fixed.withExtensions (block ++ y)) := by
  have hx (block : List UInt8) : (fixed.withExtensions block).extensions = parseExtensions block :=
    foldl_withExtension _ _
  have hf : (fixed.withExtensions block).fixedPart =
      (fixed.withExtensions (block ++ y)).fixedPart := by
    rw [withExtensions_fixedPart, withExtensions_fixedPart]
  simp only [fixedPart, Prod.mk.injEq] at hf
  obtain ⟨hv, hr, hi, hc, hm⟩ := hf
  refine ⟨hv, hr, hi, hc, hm, ?_, ?_⟩
  · rw [hx, hx]
    exact parseExtensions_prefix
  · intro hd
    rw [hx] at hd
    rw [hb]
    refine ⟨
      foldl_prefix .supportedVersions (fun e => (extractSupportedVersions e false).head?) ?_
        parseExtensions_prefix hd _ _,
      foldl_prefix .keyShare (fun e => (extractKeyShareGroups e false).head?) ?_
        parseExtensions_prefix hd _ _,
      foldl_prefix .preSharedKey isPskSelected ?_ parseExtensions_prefix hd _ _⟩
    all_goals
      intro h e
      unfold withExtension
      split <;> simp_all

theorem truncationOf_append {q : List UInt8} {hello : ParsedServerHello}
    (hq : parseServerHello q = .ok hello) (x : List UInt8) :
    ∃ hello', parseServerHello (q ++ x) = .ok hello' ∧ hello.TruncationOf hello' := by
  obtain ⟨fixed, block, y, hb, rfl, hp⟩ := parseHello_append fields_extends fields_bare hq x
  exact ⟨_, hp, withExtensions_truncationOf hb block y⟩

end ParsedServerHello

namespace TlsAnalysis

inductive TruncationOf : TlsAnalysis → TlsAnalysis → Prop
  | clientHello {recordVersion : UInt16} {q p : ParsedClientHello} (h : q.TruncationOf p) :
      TruncationOf (.clientHello recordVersion q) (.clientHello recordVersion p)
  | serverHello {recordVersion : UInt16} {q p : ParsedServerHello} (h : q.TruncationOf p) :
      TruncationOf (.serverHello recordVersion q) (.serverHello recordVersion p)

end TlsAnalysis

-- A hello that is cut off anywhere reads like the whole one, as far as it reads.
theorem parseTlsPayload_truncated {q p : List UInt8} {isClientHello : Bool} {analysis : TlsAnalysis}
    (hp : q <+: p) (hq : parseTlsPayload q isClientHello = .ok analysis) :
    ∃ analysis', parseTlsPayload p isClientHello = .ok analysis' ∧
      analysis.TruncationOf analysis' := by
  obtain ⟨x, rfl⟩ := hp
  rw [parseTlsPayload_eq] at hq
  cases isClientHello <;>
    simp only [Bool.false_eq_true, if_true, if_false, parseTlsPayload_eq] at hq ⊢
  case true =>
    cases hc : parseClientHello q <;> simp only [hc, Except.map, reduceCtorEq] at hq
    case ok hello =>
      obtain ⟨hello', hp, ht⟩ := ParsedClientHello.truncationOf_append hc x
      obtain rfl := Except.ok.inj hq
      exact ⟨_, by rw [hp, recordVersion_append hc]; rfl, .clientHello ht⟩
  case false =>
    cases hs : parseServerHello q <;> simp only [hs, Except.map, reduceCtorEq] at hq
    case ok hello =>
      obtain ⟨hello', hp, ht⟩ := ParsedServerHello.truncationOf_append hs x
      obtain rfl := Except.ok.inj hq
      exact ⟨_, by rw [hp, recordVersion_append hs]; rfl, .serverHello ht⟩

-- The last extension of the ServerHello is cut off.
theorem parseTlsPayload_truncated_server_hello :
    ∃ analysis analysis', parseTlsPayload (buildServerHello.take 58) false = .ok analysis ∧
      parseTlsPayload buildServerHello false = .ok analysis' ∧
      analysis.TruncationOf analysis' := by
  have ho : (parseTlsPayload (buildServerHello.take 58) false).isOk := by decide +kernel
  cases hq : parseTlsPayload (buildServerHello.take 58) false
  case error => simp [hq, Except.isOk, Except.toBool] at ho
  case ok analysis =>
    obtain ⟨analysis', hp, ht⟩ := parseTlsPayload_truncated (List.take_prefix 58 _) hq
    exact ⟨analysis, analysis', rfl, hp, ht⟩

end TlsProbe
