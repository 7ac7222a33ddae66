import TlsProbe.Correlator.Basic

namespace TlsProbe

-- The names in the events. The copies of `tls_version_name` and `key_exchange_name` in tls.rs have
-- the same rows as those of the correlator.

-- The rows of the `match` in `cipher_suite_name`.
def cipherSuiteNames : List (UInt16 × String) := [
  (0x1301, "TLS_AES_128_GCM_SHA256"),
  (0x1302, "TLS_AES_256_GCM_SHA384"),
  (0x1303, "TLS_CHACHA20_POLY1305_SHA256"),
  (0x1304, "TLS_AES_128_CCM_SHA256"),
  (0x1305, "TLS_AES_128_CCM_8_SHA256"),
  (0xc02b, "TLS_ECDHE_ECDSA_WITH_AES_128_GCM_SHA256"),
  (0xc02c, "TLS_ECDHE_ECDSA_WITH_AES_256_GCM_SHA384"),
  (0xc02f, "TLS_ECDHE_RSA_WITH_AES_128_GCM_SHA256"),
  (0xc030, "TLS_ECDHE_RSA_WITH_AES_256_GCM_SHA384"),
  (0xc023, "TLS_ECDHE_ECDSA_WITH_AES_128_CBC_SHA256"),
  (0xc024, "TLS_ECDHE_ECDSA_WITH_AES_256_CBC_SHA384"),
  (0xc027, "TLS_ECDHE_RSA_WITH_AES_128_CBC_SHA256"),
  (0xc028, "TLS_ECDHE_RSA_WITH_AES_256_CBC_SHA384"),
  (0xc009, "TLS_ECDHE_ECDSA_WITH_AES_128_CBC_SHA"),
  (0xc00a, "TLS_ECDHE_ECDSA_WITH_AES_256_CBC_SHA"),
  (0xc013, "TLS_ECDHE_RSA_WITH_AES_128_CBC_SHA"),
  (0xc014, "TLS_ECDHE_RSA_WITH_AES_256_CBC_SHA"),
  (0xcca8, "TLS_ECDHE_RSA_WITH_CHACHA20_POLY1305_SHA256"),
  (0xcca9, "TLS_ECDHE_ECDSA_WITH_CHACHA20_POLY1305_SHA256"),
  (0xc008, "TLS_ECDHE_ECDSA_WITH_3DES_EDE_CBC_SHA"),
  (0xc012, "TLS_ECDHE_RSA_WITH_3DES_EDE_CBC_SHA"),
  (0xc007, "TLS_ECDHE_ECDSA_WITH_RC4_128_SHA"),
  (0xc011, "TLS_ECDHE_RSA_WITH_RC4_128_SHA"),
  (0x009e, "TLS_DHE_RSA_WITH_AES_128_GCM_SHA256"),
  (0x009f, "TLS_DHE_RSA_WITH_AES_256_GCM_SHA384"),
  (0x0067, "TLS_DHE_RSA_WITH_AES_128_CBC_SHA256"),
  (0x006b, "TLS_DHE_RSA_WITH_AES_256_CBC_SHA256"),
  (0x0033, "TLS_DHE_RSA_WITH_AES_128_CBC_SHA"),
  (0x0039, "TLS_DHE_RSA_WITH_AES_256_CBC_SHA"),
  (0xccaa, "TLS_DHE_RSA_WITH_CHACHA20_POLY1305_SHA256"),
  (0x00a2, "TLS_DHE_DSS_WITH_AES_128_GCM_SHA256"),
  (0x00a3, "TLS_DHE_DSS_WITH_AES_256_GCM_SHA384"),
  (0x0040, "TLS_DHE_DSS_WITH_AES_128_CBC_SHA256"),
  (0x006a, "TLS_DHE_DSS_WITH_AES_256_CBC_SHA256"),
  (0x0032, "TLS_DHE_DSS_WITH_AES_128_CBC_SHA"),
  (0x0038, "TLS_DHE_DSS_WITH_AES_256_CBC_SHA"),
  (0x009c, "TLS_RSA_WITH_AES_128_GCM_SHA256"),
  (0x009d, "TLS_RSA_WITH_AES_256_GCM_SHA384"),
  (0x002f, "TLS_RSA_WITH_AES_128_CBC_SHA"),
  (0x0035, "TLS_RSA_WITH_AES_256_CBC_SHA"),
  (0x003c, "TLS_RSA_WITH_AES_128_CBC_SHA256"),
  (0x003d, "TLS_RSA_WITH_AES_256_CBC_SHA256"),
  (0x000a, "TLS_RSA_WITH_3DES_EDE_CBC_SHA"),
  (0x0005, "TLS_RSA_WITH_RC4_128_SHA"),
  (0x0004, "TLS_RSA_WITH_RC4_128_MD5"),
  (0x00ff, "TLS_EMPTY_RENEGOTIATION_INFO_SCSV"),
  (0x5600, "TLS_FALLBACK_SCSV")
]

def cipherSuiteName (id : UInt16) : String :=
  if isGrease id then "GREASE" else (cipherSuiteNames.lookup id).getD "unknown"

-- The rows of the `match` in `signature_algorithm_name`.
def signatureAlgorithmNames : List (UInt16 × String) := [
  (0x0201, "rsa_pkcs1_sha1"),
  (0x0202, "dsa_sha1"),
  (0x0203, "ecdsa_sha1"),
  (0x0301, "rsa_pkcs1_sha224"),
  (0x0302, "dsa_sha224"),
  (0x0303, "ecdsa_sha224"),
  (0x0401, "rsa_pkcs1_sha256"),
  (0x0402, "dsa_sha256"),
  (0x0403, "ecdsa_secp256r1_sha256"),
  (0x0501, "rsa_pkcs1_sha384"),
  (0x0502, "dsa_sha384"),
  (0x0503, "ecdsa_secp384r1_sha384"),
  (0x0601, "rsa_pkcs1_sha512"),
  (0x0602, "dsa_sha512"),
  (0x0603, "ecdsa_secp521r1_sha512"),
  (0x0804, "rsa_pss_rsae_sha256"),
  (0x0805, "rsa_pss_rsae_sha384"),
  (0x0806, "rsa_pss_rsae_sha512"),
  (0x0807, "ed25519"),
  (0x0808, "ed448"),
  (0x0809, "rsa_pss_pss_sha256"),
  (0x080a, "rsa_pss_pss_sha384"),
  (0x080b, "rsa_pss_pss_sha512"),
  (0x081a, "ecdsa_brainpoolP256r1tls13_sha256"),
  (0x081b, "ecdsa_brainpoolP384r1tls13_sha384"),
  (0x081c, "ecdsa_brainpoolP512r1tls13_sha512"),
  (0x0904, "mldsa44"),
  (0x0905, "mldsa65"),
  (0x0906, "mldsa87")
]

def signatureAlgorithmName (id : UInt16) : String :=
  if isGrease id then "GREASE" else (signatureAlgorithmNames.lookup id).getD "unknown"

-- `format!("unknown(\x7b\x7d)", value)`
def unknownName (value : UInt8) : String :=
  "unknown(" ++ toString value.toNat ++ ")"

def alertLevelName (level : UInt8) : String :=
  if level = 1 then "warning"
  else if level = 2 then "fatal"
  else unknownName level

-- The rows of the `match` in `alert_description_name`.
def alertDescriptionNames : List (UInt8 × String) := [
  (0, "close_notify(0)"),
  (10, "unexpected_message(10)"),
  (20, "bad_record_mac(20)"),
  (22, "record_overflow(22)"),
  (40, "handshake_failure(40)"),
  (42, "bad_certificate(42)"),
  (43, "unsupported_certificate(43)"),
  (44, "certificate_revoked(44)"),
  (45, "certificate_expired(45)"),
  (46, "certificate_unknown(46)"),
  (47, "illegal_parameter(47)"),
  (48, "unknown_ca(48)"),
  (49, "access_denied(49)"),
  (50, "decode_error(50)"),
  (51, "decrypt_error(51)"),
  (70, "protocol_version(70)"),
  (71, "insufficient_security(71)"),
  (80, "internal_error(80)"),
  (86, "inappropriate_fallback(86)"),
  (90, "user_canceled(90)"),
  (109, "missing_extension(109)"),
  (110, "unsupported_extension(110)"),
  (112, "unrecognized_name(112)"),
  (113, "bad_certificate_status_response(113)"),
  (115, "unknown_psk_identity(115)"),
  (116, "certificate_required(116)"),
  (120, "no_application_protocol(120)")
]

def alertDescriptionName (description : UInt8) : String :=
  (alertDescriptionNames.lookup description).getD (unknownName description)

def handshakeTypeName (handshakeType : UInt8) : String :=
  if handshakeType = 0x01 then "ClientHello"
  else if handshakeType = 0x02 then "ServerHello"
  else if handshakeType = 0x04 then "NewSessionTicket"
  else if handshakeType = 0x08 then "EncryptedExtensions"
  else if handshakeType = 0x0b then "Certificate"
  else if handshakeType = 0x0d then "CertificateRequest"
  else if handshakeType = 0x0f then "CertificateVerify"
  else if handshakeType = 0x14 then "Finished"
  else "Unknown"

end TlsProbe
