import TlsProbe.Parser.Encode
import TlsProbe.Parser.Theorems.Fields

namespace TlsProbe

open Reader

namespace Parser

theorem u8_reads (b : UInt8) : Reads u8 [b] b :=
  .read #v[b]

theorem u16_reads (v : UInt16) : Reads u16 (u16ToBeBytes v) v := by
  obtain ⟨hi, lo, he, rfl⟩ := u16ToBeBytes_eq v
  rw [he]
  exact .read #v[hi, lo]

theorem bytes_reads {bs : List UInt8} {k : Nat} (h : bs.length = k) : Reads (bytes k) bs bs := by
  subst h
  exact .read ⟨bs.toArray, by simp⟩

theorem vector8_reads {bs e : List UInt8} (h : bs.length ≤ 255) {α : Type} {a : α}
    {f : List UInt8 → Parser α} (hf : Reads (f bs) e a) :
    Reads (do let n ← u8; let bs ← bytes n.toNat; f bs) (vector8 bs ++ e) a := by
  obtain ⟨n, he, hn⟩ := vector8_eq h
  rw [he]
  exact (u8_reads n).bind <| .bind (bytes_reads hn.symm) hf

theorem vector16_reads {bs e : List UInt8} (h : bs.length ≤ 65535) {α : Type} {a : α}
    {f : List UInt8 → Parser α} (hf : Reads (f bs) e a) :
    Reads (do let n ← u16; let bs ← bytes n.toNat; f bs) (vector16 bs ++ e) a := by
  rw [vector16, List.append_assoc]
  refine .bind (u16_reads _) <| .bind (bytes_reads ?_) hf
  rw [UInt16.toNat_ofNat']
  omega

end Parser

section Lists

theorem codes_length (values : List UInt16) : (codes values).length = 2 * values.length := by
  simp [codes, List.length_flatMap, Nat.mul_comm]

theorem codeList_codes (values : List UInt16) :
    codeList (codes values).length (codes values) = values := by
  induction values
  case nil => rfl
  case cons value values hi =>
    obtain ⟨b₁, b₂, he, hv⟩ := u16ToBeBytes_eq value
    have hc : codes (value :: values) = b₁ :: b₂ :: codes values := by simp [codes, he]
    rw [hc]
    simp only [codeList, List.length_cons, Nat.zero_lt_succ, if_true, hv]
    rw [show (codes values).length + 1 + 1 - 2 = (codes values).length by omega, hi]

theorem keyShares_flatMap {shares : List KeyShareEntry}
    (h : (shares.flatMap KeyShareEntry.encode).length ≤ 65535) :
    keyShares (shares.flatMap KeyShareEntry.encode).length (shares.flatMap KeyShareEntry.encode) =
      shares.map (·.group) := by
  induction shares
  case nil => simp [keyShares]
  case cons share shares hi =>
    rw [List.flatMap_cons] at h ⊢
    generalize shares.flatMap KeyShareEntry.encode = rest at h hi ⊢
    simp only [KeyShareEntry.encode, List.length_append, vector16_length, u16ToBeBytes_length] at h
    obtain ⟨g₁, g₂, hg, hv⟩ := u16ToBeBytes_eq share.group
    obtain ⟨k₁, k₂, hk, hn⟩ := @vector16_eq share.key (by omega)
    simp only [KeyShareEntry.encode, hg, hk, List.cons_append, List.nil_append]
    rw [keyShares]
    simp only [hv, hn, List.drop_left, List.length_cons, List.length_append, Nat.zero_lt_succ,
      if_true, List.map_cons]
    rw [show share.key.length + rest.length + 1 + 1 + 1 + 1 - (4 + share.key.length) = rest.length
      by omega, hi (by omega)]

theorem alpnProtocols_flatMap {protocols : List String}
    (h : ∀ protocol ∈ protocols, (utf8Bytes protocol).length ≤ 255) :
    let bytes := protocols.flatMap fun protocol => vector8 (utf8Bytes protocol)
    alpnProtocols bytes.length bytes = protocols := by
  induction protocols
  case nil => simp [alpnProtocols]
  case cons protocol protocols hi =>
    obtain ⟨n, he, hn⟩ := vector8_eq (h protocol (by simp))
    have hi := hi fun p hp => h p (by simp [hp])
    simp only [List.flatMap_cons, he, List.cons_append] at hi ⊢
    generalize protocols.flatMap (fun protocol => vector8 (utf8Bytes protocol)) = rest at hi ⊢
    rw [alpnProtocols]
    simp only [hn, List.length_cons, List.length_append, Nat.zero_lt_succ, true_and,
      Nat.le_add_right, if_true, List.take_left, List.drop_left, fromUtf8Lossy_utf8Bytes]
    rw [show (utf8Bytes protocol).length + rest.length + 1 - (1 + (utf8Bytes protocol).length) =
      rest.length by omega, hi]

end Lists

-- What the extractors get from the bodies of their extensions.
section Bodies

variable {t : ExtensionType}

theorem extractCodes_vector16 {values : List UInt16}
    (h : (vector16 (codes values)).length ≤ 65535) :
    extractCodes ⟨t, vector16 (codes values)⟩ = values := by
  rw [vector16_length] at h
  obtain ⟨hi, lo, he, hn⟩ := @vector16_eq (codes values) (by omega)
  simp only [extractCodes, he, hn, codeList_codes]

theorem extractSupportedVersions_vector8 {versions : List UInt16} (h : versions.length ≤ 127) :
    extractSupportedVersions ⟨t, vector8 (codes versions)⟩ true = versions := by
  obtain ⟨n, he, hn⟩ := @vector8_eq (codes versions) (by rw [codes_length]; omega)
  simp only [extractSupportedVersions, if_true, he, hn, codeList_codes]

theorem extractKeyShareGroups_vector16 {shares : List KeyShareEntry}
    (h : (vector16 (shares.flatMap (·.encode))).length ≤ 65535) :
    extractKeyShareGroups ⟨t, vector16 (shares.flatMap (·.encode))⟩ true =
      shares.map (·.group) := by
  rw [vector16_length] at h
  obtain ⟨hi, lo, he, hn⟩ := @vector16_eq (shares.flatMap (·.encode)) (by omega)
  simp only [extractKeyShareGroups, if_true, he, hn, keyShares_flatMap (Nat.le_of_add_right_le h)]

theorem extractSni_vector16 {host : String}
    (h : (vector16 (0 :: vector16 (utf8Bytes host))).length ≤ 65535) :
    extractSni ⟨t, vector16 (0 :: vector16 (utf8Bytes host))⟩ = some host := by
  simp only [vector16_length, List.length_cons] at h
  obtain ⟨n₁, n₂, hn, hl⟩ := @vector16_eq (utf8Bytes host) (by omega)
  obtain ⟨l₁, l₂, he, _⟩ := @vector16_eq (0 :: vector16 (utf8Bytes host)) (by simp; omega)
  rw [he, hn]
  simp [extractSni, hl, fromUtf8_utf8Bytes]

theorem extractAlpn_vector16 {protocols : List String}
    (hp : ∀ protocol ∈ protocols, (utf8Bytes protocol).length ≤ 255)
    (h : (vector16 (protocols.flatMap fun p => vector8 (utf8Bytes p))).length ≤ 65535) :
    extractAlpn ⟨t, vector16 (protocols.flatMap fun p => vector8 (utf8Bytes p))⟩ =
      protocols := by
  rw [vector16_length] at h
  obtain ⟨hi, lo, he, hn⟩ :=
    @vector16_eq (protocols.flatMap fun p => vector8 (utf8Bytes p)) (by omega)
  simp only [extractAlpn, he, hn, alpnProtocols_flatMap hp]

end Bodies

section Extensions

theorem parseExtensions_append {id : UInt16} {body : List UInt8} (h : body.length ≤ 65535)
    (rest : List UInt8) : parseExtensions (u16ToBeBytes id ++ vector16 body ++ rest) =
      ⟨.ofU16 id, body⟩ :: parseExtensions rest := by
  obtain ⟨t₁, t₂, hi, ht⟩ := u16ToBeBytes_eq id
  obtain ⟨l₁, l₂, he, hl⟩ := vector16_eq h
  simp only [hi, he, List.cons_append, List.nil_append]
  rw [parseExtensions]
  simp [ht, hl]

theorem extensionIds_append {id : UInt16} {body : List UInt8} (h : body.length ≤ 65535)
    (rest : List UInt8) : extensionIds (u16ToBeBytes id ++ vector16 body ++ rest) =
      id :: extensionIds rest := by
  obtain ⟨t₁, t₂, hi, ht⟩ := u16ToBeBytes_eq id
  obtain ⟨l₁, l₂, he, hl⟩ := vector16_eq h
  simp only [hi, he, List.cons_append, List.nil_append]
  rw [extensionIds]
  simp [ht, hl]

theorem extensionBlock_extensionField {E : Type} {encode : E → List UInt8}
    {exts : Option (List E)} (h : ((exts.getD []).flatMap encode).length ≤ 65535) :
    extensionBlock (extensionField encode exts) = (exts.getD []).flatMap encode := by
  cases exts
  case none => rfl
  case some exts =>
    rw [Option.getD_some] at h ⊢
    obtain ⟨hi, lo, he, hl⟩ := vector16_eq h
    simp only [extensionField, he, extensionBlock, hl, List.take_length]

theorem parseExtensions_flatMap {E : Type} {id : E → UInt16} {body : E → List UInt8}
    {exts : List E} (h : ∀ e ∈ exts, (body e).length ≤ 65535) :
    parseExtensions (exts.flatMap fun e => u16ToBeBytes (id e) ++ vector16 (body e)) =
      exts.map fun e => ⟨.ofU16 (id e), body e⟩ := by
  induction exts
  case nil => simp [parseExtensions]
  case cons e exts hi =>
    rw [List.flatMap_cons, parseExtensions_append (h e (by simp)),
      hi fun e he => h e (by simp [he]), List.map_cons]

theorem extensionIds_flatMap {E : Type} {id : E → UInt16} {body : E → List UInt8}
    {exts : List E} (h : ∀ e ∈ exts, (body e).length ≤ 65535) :
    extensionIds (exts.flatMap fun e => u16ToBeBytes (id e) ++ vector16 (body e)) =
      exts.map id := by
  induction exts
  case nil => simp [extensionIds]
  case cons e exts hi =>
    rw [List.flatMap_cons, extensionIds_append (h e (by simp)),
      hi fun e he => h e (by simp [he]), List.map_cons]

end Extensions

namespace ExtensionType

def toU16 : ExtensionType → UInt16
  | serverName                          => 0x0000
  | applicationLayerProtocolNegotiation => 0x0010
  | supportedGroups                     => 0x000a
  | signatureAlgorithms                 => 0x000d
  | sessionTicket                       => 0x0023
  | earlyData                           => 0x002a
  | supportedVersions                   => 0x002b
  | pskKeyExchangeModes                 => 0x002d
  | preSharedKey                        => 0x0029
  | signatureAlgorithmsCert             => 0x0032
  | keyShare                            => 0x0033
  | unknown id                          => id

theorem toU16_ofU16 (v : UInt16) : (ofU16 v).toU16 = v := by
  have hc (c : UInt16) : (if v = c then c else v) = v := by grind
  simp only [ofU16, apply_ite toU16]
  simp only [toU16, hc]

end ExtensionType

namespace ClientExtension

theorem ofU16_id {ext : ClientExtension} (h : ext.WellFormed) : .ofU16 ext.id = ext.extType := by
  cases ext
  case unknown => exact h
  all_goals rfl

theorem withExtension_extension {ext : ClientExtension} (hw : ext.WellFormed)
    (hb : ext.body.length ≤ 65535) (hello : ParsedClientHello) :
    hello.withExtension ext.extension = ext.set hello := by
  cases ext
  case serverName       => exact congrArg ({ hello with sni := · }) (extractSni_vector16 hb)
  case alpn             => exact congrArg ({ hello with alpn := · }) (extractAlpn_vector16 hw hb)
  case supportedGroups  =>
    exact congrArg ({ hello with supportedGroups := · }) (extractCodes_vector16 hb)
  case signatureAlgorithms =>
    exact congrArg ({ hello with signatureAlgorithms := · }) (extractCodes_vector16 hb)
  case signatureAlgorithmsCert =>
    exact congrArg ({ hello with signatureAlgorithmsCert := · }) (extractCodes_vector16 hb)
  case supportedVersions =>
    exact congrArg ({ hello with supportedVersions := · }) (extractSupportedVersions_vector8 hw)
  case keyShare =>
    exact congrArg ({ hello with keyShareGroups := · }) (extractKeyShareGroups_vector16 hb)
  all_goals rfl

end ClientExtension

namespace ServerExtension

theorem ofU16_id (ext : ServerExtension) : .ofU16 ext.id = ext.extType := by
  cases ext <;> rfl

theorem withExtension_extension {ext : ServerExtension} (hw : ext.WellFormed)
    (hello : ParsedServerHello) : hello.withExtension ext.extension = ext.set hello := by
  cases ext
  case supportedVersions selected =>
    obtain ⟨hi, lo, he, hv⟩ := u16ToBeBytes_eq selected
    simp [ParsedServerHello.withExtension, extension, extType, body, set, extractSupportedVersions,
      he, hv]
  case keyShare group key =>
    obtain ⟨hi, lo, he, hv⟩ := u16ToBeBytes_eq group
    cases key
    all_goals
      simp [ParsedServerHello.withExtension, extension, extType, body, set, extractKeyShareGroups,
        he, hv]
  case preSharedKey => rfl
  case other id data =>
    have hi := ExtensionType.toU16_ofU16 id
    simp only [ParsedServerHello.withExtension, extension, extType, set]
    split
    case h_1 ht => exact absurd (ht ▸ hi).symm hw.1
    case h_2 ht => exact absurd (ht ▸ hi).symm hw.2.1
    case h_3 ht => exact absurd (ht ▸ hi).symm hw.2.2
    case h_4    => rfl

end ServerExtension

-- What a fold makes of a field that each item sets, or leaves.
section Folds

variable {S E α κ : Type} {step : S → E → S} {items : List E}

theorem foldl_findSome? {π : S → α} {f : E → Option α} (key : E → κ) (k : κ)
    (hs : ∀ s e, π (step s e) = (f e).getD (π s)) (hk : ∀ e, f e ≠ none → key e = k)
    (hn : (items.map key).Nodup) (s : S) :
    π (items.foldl step s) = (items.findSome? f).getD (π s) := by
  induction items generalizing s
  case nil => rfl
  case cons e items hi =>
    rw [List.map_cons, List.nodup_cons] at hn
    rw [List.foldl_cons, hi hn.2, hs, List.findSome?_cons]
    cases he : f e
    case none => rfl
    case some a =>
      have hf : items.findSome? f = none := by
        rw [List.findSome?_eq_none_iff]
        intro e' he'
        by_contra hne
        have hke : key e = key e' := (hk e (by simp [he])).trans (hk e' hne).symm
        exact hn.1 (hke ▸ List.mem_map_of_mem he')
      simp [hf]

-- The same for a field that is an option itself.
theorem foldl_findSome?_or {π : S → Option α} {f : E → Option α} (key : E → κ) (k : κ)
    (hs : ∀ s e, π (step s e) = (f e).or (π s)) (hk : ∀ e, f e ≠ none → key e = k)
    (hn : (items.map key).Nodup) (s : S) :
    π (items.foldl step s) = (items.findSome? f).or (π s) := by
  have hg (o : Option α) (o' : Option α) : (o.map some).getD o' = o.or o' := by cases o <;> rfl
  rw [←hg, List.map_findSome?]
  exact foldl_findSome? key k (fun s e => (hs s e).trans (hg ..).symm)
    (fun e he => hk e fun hf => he (by simp [hf])) hn s

theorem foldl_any (π : S → Bool) (p : E → Bool) (hs : ∀ s e, π (step s e) = (π s || p e)) (s : S) :
    π (items.foldl step s) = (π s || items.any p) := by
  induction items generalizing s
  case nil => simp
  case cons e items hi => rw [List.foldl_cons, hi, hs, List.any_cons, Bool.or_assoc]

theorem foldl_same {π : S → α} (hs : ∀ s e, π (step s e) = π s) (s : S) :
    π (items.foldl step s) = π s := by
  induction items generalizing s
  case nil          => rfl
  case cons _ _ hi  => rw [List.foldl_cons, hi, hs]

end Folds

attribute [ext] ParsedClientHello ParsedServerHello

namespace ClientHello

variable {hello : ClientHello}

-- What the parser has when it gets to the extensions.
def bare (hello : ClientHello) : ParsedClientHello where
  legacyVersion              := hello.legacyVersion
  random                     := hello.random.toList
  sessionId                  := hello.sessionId
  cipherSuites               := hello.cipherSuites
  compressionMethods         := hello.compressionMethods
  extensions                 := []
  extensionIds               := []
  supportedVersions          := []
  supportedGroups            := []
  signatureAlgorithms        := []
  signatureAlgorithmsCert    := []
  keyShareGroups             := []
  sni                        := none
  alpn                       := []
  pskOffered                 := false
  earlyDataOffered           := false
  pskKeyExchangeModesOffered := false
  sessionTicketOffered       := false

theorem cipherList_codes (values : List UInt16) : cipherList (codes values) = values := by
  induction values
  case nil => rfl
  case cons value values hi =>
    obtain ⟨b₁, b₂, he, hv⟩ := u16ToBeBytes_eq value
    have hc : codes (value :: values) = b₁ :: b₂ :: codes values := by simp [codes, he]
    rw [hc, cipherList, hv, hi]

theorem fields_reads (h : hello.WellFormed) :
    Reads ParsedClientHello.fields hello.fixedPart hello.bare := by
  have hc : (codes hello.cipherSuites).length ≤ 65535 := by
    have := h.cipherSuites
    rw [codes_length]
    omega
  refine .bind (Parser.u16_reads _) <| .bind (Parser.bytes_reads (by simp)) <|
    Parser.vector8_reads h.sessionId <| Parser.vector16_reads hc ?_
  rw [←List.append_nil (vector8 hello.compressionMethods)]
  refine Parser.vector8_reads h.compressionMethods ?_
  rw [cipherList_codes]
  exact .pure

end ClientHello

namespace ClientExtension

variable {hello : ClientHello}

theorem foldl_set_flag (π : ParsedClientHello → Bool) (t : ExtensionType)
    (hs : ∀ s (e : ClientExtension), π (e.set s) = (π s || decide (e.extType = t)))
    {s : ParsedClientHello} (h₀ : π s = false) :
    π (hello.exts.foldl set s) = hello.exts.any (·.extType = t) := by
  rw [foldl_any π _ hs, h₀, Bool.false_or]

theorem foldl_set (h : hello.WellFormed) :
    hello.exts.foldl set { hello.bare with
      extensionIds := hello.exts.map (·.id)
      extensions   := hello.exts.map (·.extension)
    } = hello.parsed := by
  apply ParsedClientHello.ext
  case supportedVersions =>
    exact foldl_findSome? id 0x002b (by intro s e; cases e <;> rfl)
      (by intro e; cases e <;> simp [id]) h.distinct _
  case supportedGroups =>
    exact foldl_findSome? id 0x000a (by intro s e; cases e <;> rfl)
      (by intro e; cases e <;> simp [id]) h.distinct _
  case signatureAlgorithms =>
    exact foldl_findSome? id 0x000d (by intro s e; cases e <;> rfl)
      (by intro e; cases e <;> simp [id]) h.distinct _
  case signatureAlgorithmsCert =>
    exact foldl_findSome? id 0x0032 (by intro s e; cases e <;> rfl)
      (by intro e; cases e <;> simp [id]) h.distinct _
  case keyShareGroups =>
    exact foldl_findSome? id 0x0033 (by intro s e; cases e <;> rfl)
      (by intro e; cases e <;> simp [id]) h.distinct _
  case alpn =>
    exact foldl_findSome? id 0x0010 (by intro s e; cases e <;> rfl)
      (by intro e; cases e <;> simp [id]) h.distinct _
  case sni =>
    refine (foldl_findSome?_or id 0x0000 (by intro s e; cases e <;> rfl)
      (by intro e; cases e <;> simp [id]) h.distinct _).trans Option.or_none
  case pskOffered =>
    exact foldl_set_flag (·.pskOffered) _ (by intro s e; cases e <;> simp [set, extType]) rfl
  case earlyDataOffered =>
    exact foldl_set_flag (·.earlyDataOffered) _ (by intro s e; cases e <;> simp [set, extType]) rfl
  case pskKeyExchangeModesOffered =>
    exact foldl_set_flag (·.pskKeyExchangeModesOffered) _
      (by intro s e; cases e <;> simp [set, extType]) rfl
  case sessionTicketOffered =>
    exact foldl_set_flag (·.sessionTicketOffered) _ (by intro s e; cases e <;> simp [set, extType]) rfl
  all_goals exact foldl_same (by intro s e; cases e <;> rfl) _

end ClientExtension

-- The header of a record that starts with a hello, and what the parsers make of the rest.
section Messages

variable {H : Type} {fields : Parser H} {withExtensions : H → List UInt8 → H}
variable {fixedPart field : List UInt8} {contentType handshakeType : UInt8} {version : UInt16} {a : H}

theorem tlsRecord_handshakeMessage (contentType : UInt8) (version : UInt16) (handshakeType : UInt8)
    (body : List UInt8) : ∃ hi lo rest,
      tlsRecord contentType version (handshakeMessage handshakeType body) =
        (contentType :: hi :: lo :: rest) ++ body ∧
      u16FromBeBytes hi lo = version ∧ rest.length = 6 := by
  obtain ⟨hi, lo, hv, he⟩ := u16ToBeBytes_eq version
  refine ⟨hi, lo, u16ToBeBytes (UInt16.ofNat (handshakeMessage handshakeType body).length) ++
    [handshakeType, UInt8.ofNat (body.length / 65536), UInt8.ofNat (body.length / 256),
      UInt8.ofNat body.length], ?_, he, rfl⟩
  simp [tlsRecord, vector16, hv, handshakeMessage, vector24]

theorem parseHello_message (hf : Reads fields fixedPart a) (hl : 35 ≤ fixedPart.length) :
    parseHello fields withExtensions
        (tlsRecord contentType version (handshakeMessage handshakeType (fixedPart ++ field))) =
      .ok (withExtensions a (extensionBlock field)) := by
  obtain ⟨hi, lo, rest, he, -, hr⟩ :=
    tlsRecord_handshakeMessage contentType version handshakeType (fixedPart ++ field)
  generalize hh : contentType :: hi :: lo :: rest = header at he
  have hs : header.length = helloStart := by simp [←hh, hr, helloStart, tlsRecordHdrLen,
    tlsHandshakeHdrLen]
  have hp := hf header field
  rw [hs, List.append_assoc] at hp
  rw [he, parseHello, if_neg (by simp [hs, tlsRandomLen]; omega), hp]
  simp only
  rw [←List.append_assoc, List.drop_left]

theorem parseTlsPayload_message {body : List UInt8} {isClientHello : Bool} :
    parseTlsPayload (tlsRecord contentType version (handshakeMessage handshakeType body))
        isClientHello =
      if isClientHello then
        (parseClientHello (tlsRecord contentType version (handshakeMessage handshakeType body))).map
          (.clientHello version)
      else
        (parseServerHello (tlsRecord contentType version (handshakeMessage handshakeType body))).map
          (.serverHello version) := by
  obtain ⟨hi, lo, rest, he, hv, hr⟩ :=
    tlsRecord_handshakeMessage contentType version handshakeType body
  rw [he, parseTlsPayload, dif_neg (by simp [hr, tlsRecordHdrLen, tlsHandshakeHdrLen])]
  simp [hv]

theorem flatMap_length_le {E : Type} {encode : E → List UInt8} {exts : Option (List E)}
    (h : (handshakeMessage handshakeType
      (fixedPart ++ extensionField encode exts)).length ≤ 65535) :
    ((exts.getD []).flatMap encode).length ≤ 65535 := by
  cases exts
  case none => simp
  case some exts =>
    simp only [handshakeMessage_length, List.length_append, extensionField, vector16_length] at h
    rw [Option.getD_some]
    omega

theorem body_length_le {E : Type} {id : E → UInt16} {body : E → List UInt8} {exts : List E} {e : E}
    (h : (exts.flatMap fun e => u16ToBeBytes (id e) ++ vector16 (body e)).length ≤ 65535)
    (he : e ∈ exts) : (body e).length ≤ 65535 := by
  have hs := (List.sublist_flatten_of_mem (List.mem_map_of_mem he)).length_le.trans h
  simp only [List.length_append, vector16_length] at hs
  omega

end Messages

namespace ClientHello

variable {hello : ClientHello}

theorem fixedPart_length : 35 ≤ hello.fixedPart.length := by
  have hr : hello.random.toList.length = 32 := Vector.length_toList ..
  simp only [fixedPart, List.length_append, u16ToBeBytes_length, vector8_length]
  omega

theorem withExtensions_encode (h : hello.WellFormed) :
    hello.bare.withExtensions (hello.exts.flatMap (·.encode)) = hello.parsed := by
  have hb : ∀ ext ∈ hello.exts, ext.body.length ≤ 65535 :=
    fun _ => body_length_le (flatMap_length_le h.message)
  have hi : extensionIds (hello.exts.flatMap (·.encode)) = hello.exts.map (·.id) :=
    extensionIds_flatMap hb
  have hp : parseExtensions (hello.exts.flatMap (·.encode)) = hello.exts.map (·.extension) := by
    refine (parseExtensions_flatMap hb).trans <| List.map_congr_left fun ext he => ?_
    rw [ClientExtension.ofU16_id (h.extensions ext he)]
    rfl
  simp only [ParsedClientHello.withExtensions, hi, hp, List.foldl_map]
  rw [List.foldl_ext _ _ _ fun s ext he =>
    ClientExtension.withExtension_extension (h.extensions ext he) (hb ext he) s]
  exact ClientExtension.foldl_set h

theorem parse_message (h : hello.WellFormed) (version : UInt16) :
    parseTlsPayload (tlsRecord 0x16 version hello.message) true =
      .ok (.clientHello version hello.parsed) := by
  have hx : extensionBlock (extensionField ClientExtension.encode hello.extensions) =
      hello.exts.flatMap (·.encode) := extensionBlock_extensionField (flatMap_length_le h.message)
  rw [message, parseTlsPayload_message, if_pos rfl, parseClientHello,
    parseHello_message (fields_reads h) fixedPart_length, hx, withExtensions_encode h]
  rfl

end ClientHello

namespace ServerHello

variable {hello : ServerHello}

def bare (hello : ServerHello) : ParsedServerHello where
  legacyVersion     := hello.legacyVersion
  random            := hello.random.toList
  sessionId         := hello.sessionId
  cipherSuite       := hello.cipherSuite
  compressionMethod := hello.compressionMethod
  extensions        := []
  negotiatedVersion := none
  keyShareGroup     := none
  pskSelected       := false

theorem fields_reads (h : hello.WellFormed) :
    Reads ParsedServerHello.fields hello.fixedPart hello.bare := by
  refine .bind (Parser.u16_reads _) <| .bind (Parser.bytes_reads (by simp)) <|
    Parser.vector8_reads h.sessionId <| .bind (Parser.u16_reads _) ?_
  rw [←List.append_nil [hello.compressionMethod]]
  exact .bind (Parser.u8_reads _) .pure

theorem fixedPart_length : 35 ≤ hello.fixedPart.length := by
  have hr : hello.random.toList.length = 32 := Vector.length_toList ..
  simp only [fixedPart, List.length_append, u16ToBeBytes_length, vector8_length]
  omega

end ServerHello

namespace ServerExtension

theorem foldl_set {hello : ServerHello} (h : hello.WellFormed) :
    hello.exts.foldl set { hello.bare with extensions := hello.exts.map (·.extension) } =
      hello.parsed := by
  apply ParsedServerHello.ext
  case negotiatedVersion =>
    refine (foldl_findSome?_or id 0x002b (by intro s e; cases e <;> rfl)
      (by intro e; cases e <;> simp [id]) h.distinct _).trans Option.or_none
  case keyShareGroup =>
    refine (foldl_findSome?_or id 0x0033 (by intro s e; cases e <;> rfl)
      (by intro e; cases e <;> simp [id]) h.distinct _).trans Option.or_none
  case pskSelected =>
    refine (foldl_any _ _ ?_ _).trans (Bool.false_or _)
    intro s e
    cases e
    all_goals simp [set]
  all_goals exact foldl_same (by intro s e; cases e <;> rfl) _

end ServerExtension

namespace ServerHello

variable {hello : ServerHello}

theorem withExtensions_encode (h : hello.WellFormed) :
    hello.bare.withExtensions (hello.exts.flatMap (·.encode)) = hello.parsed := by
  have hb : ∀ ext ∈ hello.exts, ext.body.length ≤ 65535 :=
    fun _ => body_length_le (flatMap_length_le h.message)
  have hp : parseExtensions (hello.exts.flatMap (·.encode)) = hello.exts.map (·.extension) := by
    refine (parseExtensions_flatMap hb).trans <| List.map_congr_left fun ext _ => ?_
    rw [ServerExtension.ofU16_id]
    rfl
  simp only [ParsedServerHello.withExtensions, hp, List.foldl_map]
  rw [List.foldl_ext _ _ _ fun s ext he =>
    ServerExtension.withExtension_extension (h.extensions ext he) s]
  exact ServerExtension.foldl_set h

theorem parse_message (h : hello.WellFormed) (version : UInt16) :
    parseTlsPayload (tlsRecord 0x16 version hello.message) false =
      .ok (.serverHello version hello.parsed) := by
  have hx : extensionBlock (extensionField ServerExtension.encode hello.extensions) =
      hello.exts.flatMap (·.encode) := extensionBlock_extensionField (flatMap_length_le h.message)
  rw [message, parseTlsPayload_message, if_neg Bool.false_ne_true, parseServerHello,
    parseHello_message (fields_reads h) fixedPart_length, hx, withExtensions_encode h]
  rfl

end ServerHello

-- The parser undoes the encoding of every well-formed hello.
theorem parseTlsPayload_encode (version : UInt16) :
    (∀ hello : { hello : ClientHello // hello.WellFormed },
      parseTlsPayload (tlsRecord 0x16 version hello.val.message) true =
        .ok (.clientHello version hello.val.parsed)) ∧
    (∀ hello : { hello : ServerHello // hello.WellFormed },
      parseTlsPayload (tlsRecord 0x16 version hello.val.message) false =
        .ok (.serverHello version hello.val.parsed)) :=
  ⟨fun hello => hello.val.parse_message hello.property version,
    fun hello => hello.val.parse_message hello.property version⟩

end TlsProbe
