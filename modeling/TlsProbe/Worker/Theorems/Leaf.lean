import TlsProbe.Worker.Theorems.Events

namespace TlsProbe

-- A certificate list of TLS 1.2 in a Certificate message that fits into one record.
structure CertificateRecord where
  version : UInt16
  leaf    : List UInt8
  issuers : List (List UInt8)
  fits    : (handshakeMessage 0x0b (vector24 ((leaf :: issuers).flatMap vector24))).length ≤ 65535

namespace CertificateRecord

def message (certs : CertificateRecord) : List UInt8 :=
  handshakeMessage 0x0b (vector24 ((certs.leaf :: certs.issuers).flatMap vector24))

def encode (certs : CertificateRecord) : List UInt8 :=
  tlsRecord 0x16 certs.version certs.message

-- The length of the encoding up to the end of the first blob.
def leafEnd (certs : CertificateRecord) : Nat :=
  15 + certs.leaf.length

end CertificateRecord

theorem vector24_eq (bytes : List UInt8) (h : bytes.length ≤ 65535) :
    ∃ hi lo, vector24 bytes = 0 :: hi :: lo :: bytes ∧
      hi.toNat * 256 + lo.toNat = bytes.length := by
  refine ⟨UInt8.ofNat (bytes.length / 256), UInt8.ofNat bytes.length, ?_, ?_⟩
  · have h₀ : bytes.length / 65536 = 0 := by omega
    simp [vector24, h₀]
  · simp only [UInt8.toNat_ofNat']
    omega

theorem u24FromBe_mul (hi lo : UInt8) :
    (u24FromBe hi lo 0).toNat = 256 * (hi.toNat * 256 + lo.toNat) := by
  rw [u24FromBe_toNat, UInt8.toNat_zero]
  omega

namespace CertificateRecord

variable {certs : CertificateRecord} {cut : Nat}

theorem message_length_le (certs : CertificateRecord) : certs.message.length ≤ 65535 :=
  certs.fits

-- The message with the bytes of its lengths as variables.
theorem message_eq (certs : CertificateRecord) : ∃ n₁ n₀ c₁ c₀ l₁ l₀ rest,
    certs.message = 0x0b :: 0 :: n₁ :: n₀ :: 0 :: c₁ :: c₀ :: 0 :: l₁ :: l₀ ::
      (certs.leaf ++ rest) ∧
    n₁.toNat * 256 + n₀.toNat = 6 + certs.leaf.length + rest.length ∧
    c₁.toNat * 256 + c₀.toNat = 3 + certs.leaf.length + rest.length ∧
    l₁.toNat * 256 + l₀.toNat = certs.leaf.length := by
  have hf := certs.fits
  obtain ⟨rest, hr⟩ : ∃ rest, certs.issuers.flatMap vector24 = rest := ⟨_, rfl⟩
  simp only [List.flatMap_cons, hr, handshakeMessage_length, vector24_length,
    List.length_append] at hf
  have hll : (vector24 certs.leaf ++ rest).length = 3 + certs.leaf.length + rest.length := by
    simp [Nat.add_comm]
  have hln : (vector24 (vector24 certs.leaf ++ rest)).length =
      6 + certs.leaf.length + rest.length := by
    rw [vector24_length, hll]
    omega
  obtain ⟨l₁, l₀, hl, hl'⟩ := vector24_eq certs.leaf (by omega)
  obtain ⟨c₁, c₀, hc, hc'⟩ := vector24_eq (vector24 certs.leaf ++ rest) (by omega)
  obtain ⟨n₁, n₀, hn, hn'⟩ := vector24_eq (vector24 (vector24 certs.leaf ++ rest)) (by omega)
  refine ⟨n₁, n₀, c₁, c₀, l₁, l₀, rest, ?_, hn'.trans hln, hc'.trans hll, hl'⟩
  rw [message, List.flatMap_cons, hr, handshakeMessage, hn, hc, hl]
  rfl

-- A message that is cut behind its first blob still gives this blob.
theorem leafOf_message (h : 10 + certs.leaf.length ≤ cut) :
    leafOf (certs.message.take cut) = some certs.leaf := by
  obtain ⟨n₁, n₀, c₁, c₀, l₁, l₀, rest, hm, -, hc, hl⟩ := certs.message_eq
  obtain ⟨m, rfl⟩ : ∃ m, cut = m + 10 := ⟨cut - 10, by omega⟩
  have hlist : ¬(u24FromBe 0 c₁ c₀).toNat < 3 := by
    rw [u24FromBe_toNat, UInt8.toNat_zero]
    omega
  have hleaf : (u24FromBe 0 l₁ l₀).toNat = certs.leaf.length := by
    rw [u24FromBe_toNat, UInt8.toNat_zero]
    rw [Nat.zero_mul, Nat.zero_add, hl]
  have hlen : ¬((certs.leaf ++ rest).take m).length < certs.leaf.length := by
    simp only [List.length_take, List.length_append]
    omega
  simp only [hm, leafOf, certPayload, List.take_succ_cons, List.length_cons, List.drop_succ_cons,
    List.drop_zero]
  rw [if_pos (by omega), Option.bind_some, leafDer]
  simp only [hlist, hleaf, hlen, if_false]
  rw [List.take_take, min_eq_left (by omega), List.take_left]

-- Read from the start of the record, the length of the first blob is off by more than the record.
theorem leafOf_encode (extra : List UInt8) (h : certs.leafEnd ≤ cut) :
    leafOf ((certs.encode ++ extra).take cut) ≠ some certs.leaf := by
  obtain ⟨n₁, n₀, c₁, c₀, l₁, l₀, rest, hm, hn, -, -⟩ := certs.message_eq
  obtain ⟨v₁, v₀, hv, -⟩ := u16ToBeBytes_eq certs.version
  obtain ⟨r₁, r₀, hr, -⟩ := vector16_eq certs.fits
  obtain ⟨m, rfl⟩ : ∃ m, cut = m + 15 := ⟨cut - 15, by simp only [leafEnd] at h; omega⟩
  have he : certs.encode = 0x16 :: v₁ :: v₀ :: r₁ :: r₀ :: certs.message := by
    rw [encode, tlsRecord, hv, message, hr]
    rfl
  have hlist : ¬(u24FromBe r₀ 0x0b 0).toNat < 3 := by
    rw [u24FromBe_toNat]
    simp
  have hlen : (u24FromBe n₁ n₀ 0).toNat = 256 * (6 + certs.leaf.length + rest.length) := by
    rw [u24FromBe_mul, hn]
  simp only [he, hm, leafOf, certPayload, List.cons_append, List.take_succ_cons,
    List.length_cons, List.drop_succ_cons, List.drop_zero]
  rw [if_pos (by omega), Option.bind_some, leafDer]
  simp only [hlist, if_false]
  split
  case isTrue => simp
  case isFalse hs =>
    intro hleaf
    have := congrArg List.length <| Option.some.inj hleaf
    simp only [hlen, List.length_take, List.length_cons] at this hs
    omega

end CertificateRecord

section Walk

variable {version : UInt16} {body tail : List UInt8} {count cut : Nat}

-- What the walker makes of one record.
def extracted (version : UInt16) (body : List UInt8) (truncated : Bool) : List ExtractedRecord :=
  if body.head? = some 0x0b ∨ body.head? = some 0x0d then
    [{ version := version, body := body, truncated := truncated }]
  else
    []

theorem walkFrom_record (h : body.length ≤ 65535) :
    walkFrom (count + 1) (tlsRecord 0x16 version body ++ tail) =
      extracted version body false ++ walkFrom count tail := by
  obtain ⟨v₁, v₀, hv, hv'⟩ := u16ToBeBytes_eq version
  obtain ⟨l₁, l₀, hl, hl'⟩ := vector16_eq h
  have hn : ¬body.length + tail.length < body.length := by omega
  simp [tlsRecord, hv, hl, walkFrom, hl', hv', extracted, hn]

-- A record that is cut behind its header is the last one.
theorem walkFrom_cut (h : body.length ≤ 65535) (hc : 5 ≤ cut) (hb : cut < body.length + 5) :
    walkFrom (count + 1) ((tlsRecord 0x16 version body).take cut) =
      extracted version (body.take (cut - 5)) true := by
  obtain ⟨v₁, v₀, hv, hv'⟩ := u16ToBeBytes_eq version
  obtain ⟨l₁, l₀, hl, hl'⟩ := vector16_eq h
  obtain ⟨m, rfl⟩ : ∃ m, cut = m + 5 := ⟨cut - 5, by omega⟩
  have hm : m < body.length := by omega
  simp [tlsRecord, hv, hl, walkFrom, hl', hv', extracted, hm, min_eq_right hm.le, List.take_take]

theorem walkRecords_tail (h : body.length ≤ 65535) (ht : tail ≠ []) {contentType : UInt8} :
    walkRecords (tlsRecord contentType version body ++ tail) = walkFrom maxRecordsToWalk tail := by
  obtain ⟨v₁, v₀, hv, -⟩ := u16ToBeBytes_eq version
  obtain ⟨l₁, l₀, hl, hl'⟩ := vector16_eq h
  have hd : (body ++ tail).drop (u16FromBeBytes l₁ l₀).toNat = tail := by
    rw [hl']
    exact List.drop_left
  obtain ⟨b, rest, hr⟩ : ∃ b rest, body ++ tail = b :: rest :=
    List.exists_cons_of_ne_nil <| by simp [ht]
  simp only [tlsRecord, hv, hl, List.cons_append, List.nil_append, walkRecords, hr]
  rw [←hr, hd]

def encodeRecord (record : UInt16 × List UInt8) : List UInt8 :=
  tlsRecord 0x16 record.1 record.2

def isCertificate (record : ExtractedRecord) : Bool :=
  record.handshakeType = 0x0b

-- Records of other messages do not keep the walker from the certificates behind them.
theorem walkFrom_between {between : List (UInt16 × List UInt8)}
    (h : ∀ record ∈ between, record.2.length ≤ 65535 ∧ record.2.head? ≠ some 0x0b) :
    (walkFrom (count + between.length) (between.flatMap encodeRecord ++ tail)).filter
      isCertificate = (walkFrom count tail).filter isCertificate := by
  induction between
  case nil => rfl
  case cons record between hi =>
    obtain ⟨hl, hh⟩ := h record (by simp)
    have he : (extracted record.1 record.2 false).filter isCertificate = [] := by
      simp only [extracted, hh, false_or]
      split <;> simp_all [isCertificate, ExtractedRecord.handshakeType]
    rw [List.length_cons, ←Nat.add_assoc, List.flatMap_cons, List.append_assoc, encodeRecord,
      walkFrom_record hl, List.filter_append, he, List.nil_append,
      hi fun r hr => h r (List.mem_cons_of_mem _ hr)]

-- The walker finds the message of a certificate record, as far as it is there.
theorem walkFrom_certs {certs : CertificateRecord} (count : Nat) (rest : List UInt8)
    (h : certs.leafEnd ≤ cut) :
    ∃ truncated more, (walkFrom (count + 1) ((certs.encode ++ rest).take cut)).filter
      isCertificate = { version   := certs.version
                        body      := certs.message.take (cut - 5)
                        truncated := truncated } :: more := by
  have h₁₀ : 10 ≤ cut - 5 := by
    simp only [CertificateRecord.leafEnd] at h
    omega
  have hh : (certs.message.take (cut - 5)).head? = some 0x0b := by
    obtain ⟨m, hm⟩ : ∃ m, cut - 5 = m + 1 := ⟨cut - 6, by omega⟩
    rw [hm]
    rfl
  have he (truncated : Bool) :
      (extracted certs.version (certs.message.take (cut - 5)) truncated).filter isCertificate =
        [{ version := certs.version, body := certs.message.take (cut - 5),
           truncated := truncated }] := by
    simp [extracted, hh, isCertificate, ExtractedRecord.handshakeType]
  by_cases hc : cut < certs.encode.length
  case pos =>
    have hl : cut < certs.message.length + 5 := by simpa [CertificateRecord.encode] using hc
    rw [List.take_append_of_le_length hc.le, CertificateRecord.encode,
      walkFrom_cut certs.message_length_le (by omega) hl, he]
    exact ⟨_, _, rfl⟩
  case neg =>
    have hm : certs.message.take (cut - 5) = certs.message :=
      List.take_of_length_le <| by
        simp only [CertificateRecord.encode, tlsRecord_length] at hc
        omega
    obtain ⟨rest', hr⟩ : ∃ rest', (certs.encode ++ rest).take cut = certs.encode ++ rest' :=
      ⟨_, by rw [List.take_append, List.take_of_length_le (by omega)]⟩
    rw [hr, CertificateRecord.encode, walkFrom_record certs.message_length_le,
      List.filter_append]
    rw [hm] at he ⊢
    rw [he]
    exact ⟨_, _, rfl⟩

end Walk

namespace Record

-- What is handed to `parse_der_certificate` when a record is handled.
def handedDer (record : Record) : List (List UInt8) :=
  ((record.walked.filter isCertificate).filterMap fun walked => leafOf walked.body) ++
    if record.message = .certificate then (leafOf record.payload).toList else []

variable {record : Record} {env : Env} {t : Tracking} {pass : Pass}

theorem walked_certificates (walked : List ExtractedRecord) :
    (walked.map (walkedEvent env record.head)).filterMap (·.certificate) =
      ((walked.filter isCertificate).filterMap fun walked => leafOf walked.body).filterMap
        env.parseDerCertificate := by
  rw [List.filterMap_map, List.filterMap_filterMap, List.filterMap_filter]
  refine List.filterMap_congr fun extracted _ => ?_
  by_cases h : extracted.handshakeType = 0x0b
  all_goals simp [walkedEvent, synthesizeEventFromWalkedRecord, baseEvent, isCertificate, h,
    messageCertificate_eq]

theorem suppressed_walked (h : record.suppressed) : record.walked = [] := by
  simp only [suppressed, walked] at h ⊢
  cases hm : record.message <;> simp_all

-- The certificates that are reported are those that the library makes of what it is handed.
theorem events_certificates :
    ((t.handle pass record).events pass.env record).filterMap (·.certificate) =
      if record.suppressed then [] else record.handedDer.filterMap pass.env.parseDerCertificate := by
  rw [Handled.events_eq, List.filterMap_append, walked_certificates, Tracking.handle_walked,
    Tracking.handle_suppressed, handedDer, List.filterMap_append]
  by_cases hs : record.suppressed
  case pos => simp [hs, suppressed_walked hs]
  case neg =>
    have hc : (t.handle pass record).certificate = _ := Tracking.handle_certificate
    rw [if_neg hs, if_neg hs]
    congr 1
    by_cases hm : record.message = .certificate
    case pos =>
      rw [if_pos hm, messageCertificate_eq] at hc
      cases hl : leafOf record.payload <;> simp [List.filterMap_cons, hm, hc, hl]
    case neg => simp [hm, hc]

end Record

-- The ways in which a certificate record gets to the worker.
inductive Path
  | walked
  | own
  | reassembled
  deriving DecidableEq, Repr

-- The record with which a certificate record gets to the worker, cut at `cut`. Whatever the packet
-- holds behind the certificates may follow.
inductive Arrives (certs : CertificateRecord) (cut : Nat) : Path → Record → Prop
  | walked {cap : RawTlsCapture} {analysis : TlsAnalysis} {contentType : UInt8} {version : UInt16}
      {hello rest : List UInt8} {between : List (UInt16 × List UInt8)}
      (message : (Record.own cap).message = .serverHello)
      (parsed : parseTlsPayload cap.payloadSlice false = .ok analysis)
      (tls12 : analysis.effectiveVersion ≤ 0x0303)
      (hello_length : hello.length ≤ 65535)
      (between_length : between.length < maxRecordsToWalk)
      (between_other : ∀ record ∈ between, record.2.length ≤ 65535 ∧ record.2.head? ≠ some 0x0b)
      (payload : cap.payloadSlice = tlsRecord contentType version hello ++
        (between.flatMap encodeRecord ++ (certs.encode ++ rest).take cut)) :
      Arrives certs cut .walked (.own cap)
  | own {cap : RawTlsCapture} {rest : List UInt8}
      (message : (Record.own cap).message = .certificate)
      (payload : cap.payloadSlice = (certs.encode ++ rest).take cut) :
      Arrives certs cut .own (.own cap)
  | reassembled {record : AssembledRecord}
      (message : (Record.assembled record).message = .certificate)
      (payload : record.buffer = certs.encode.take cut) :
      Arrives certs cut .reassembled (.assembled record)

structure Delivery (path : Path) where
  certs   : CertificateRecord
  cut     : Nat
  record  : Record
  leaf_le : certs.leafEnd ≤ cut
  arrives : Arrives certs cut path record

-- Only the path through the walker skips the header of the record before the one of the message.
theorem first_blob_handed_iff {path : Path} (d : Delivery path) :
    d.record.handedDer.head? = some d.certs.leaf ↔ path = .walked := by
  have ⟨certs, cut, record, hl, ha⟩ := d
  cases ha
  case walked cap analysis contentType version hello rest between hm hp hv hh hb ho hpl =>
    obtain ⟨n, hn⟩ : ∃ n, maxRecordsToWalk = n + 1 + between.length := ⟨3 - between.length, by
      simp only [maxRecordsToWalk] at hb ⊢
      omega⟩
    obtain ⟨truncated, more, hc⟩ := walkFrom_certs n rest hl
    have hne : between.flatMap encodeRecord ++ (certs.encode ++ rest).take cut ≠ [] := by
      intro he
      have := congrArg List.length (List.append_eq_nil_iff.mp he).2
      simp [CertificateRecord.encode, CertificateRecord.leafEnd] at this hl
      omega
    have hw : (walkRecords cap.payloadSlice).filter isCertificate =
        ⟨certs.version, certs.message.take (cut - 5), truncated⟩ :: more := by
      rw [hpl, walkRecords_tail hh hne, hn, walkFrom_between ho, hc]
    have hleaf : leafOf (certs.message.take (cut - 5)) = some certs.leaf :=
      CertificateRecord.leafOf_message <| by
        simp only [CertificateRecord.leafEnd] at hl
        omega
    simp [Record.handedDer, Record.walked, hm, Record.payload, hp, Record.trailing, hv, hw, hleaf]
  case own cap rest hm hpl =>
    simpa [Record.handedDer, Record.walked, hm, Record.payload, hpl] using
      CertificateRecord.leafOf_encode rest hl
  case reassembled record hm hpl =>
    have hn := CertificateRecord.leafOf_encode [] hl
    simpa [Record.handedDer, Record.walked, hm, Record.payload, hpl] using hn

def twoBlobs : CertificateRecord where
  version := 0x0303
  leaf    := [0x30, 0x00]
  issuers := [[0x30, 0x01, 0x00]]
  fits    := by decide

def twoBlobsCapture : RawTlsCapture :=
  { makeCapture 0 twoBlobs.encode 0 with handshakeType := 0x0b, contentType := 0x16 }

theorem first_blob_not_handed :
    Arrives twoBlobs twoBlobs.encode.length .own (.own twoBlobsCapture) ∧
    (Record.own twoBlobsCapture).handedDer = [] := by
  have hp : twoBlobsCapture.payloadSlice =
      (twoBlobs.encode ++ []).take twoBlobs.encode.length := by decide +kernel
  exact ⟨.own (by decide +kernel) hp, by decide +kernel⟩

end TlsProbe
