import Tlsn.Lib.Codec

/-!
# TLS base types (`tls-core/src/msgs/base.rs`, `msgs/enums.rs`)

The opaque payloads of the TLS codecs, read as the rest of the input or after a length of one, two
or three bytes, and the protocol enumerations of `enum_builder!`: a table of named values and an
`Unknown` case that keeps any other value. Each enumeration is `Codec.EnumCode` at its own table,
so that one lemma (`Codec.EnumCode.reads`) makes every one of them read only encodings.
-/

namespace Tlsn.Tls

open Codec

/-- `Payload`: the rest of the input. -/
structure Payload where
  bytes : Bytes
  deriving DecidableEq, Repr

/-- `PayloadU8`: bytes after their length as a `u8`. -/
structure PayloadU8 where
  bytes : Bytes
  deriving DecidableEq, Repr

/-- `PayloadU16`: bytes after their length as a `u16`. -/
structure PayloadU16 where
  bytes : Bytes
  deriving DecidableEq, Repr

/-- `PayloadU24`: bytes after their length as a `u24`. -/
structure PayloadU24 where
  bytes : Bytes
  deriving DecidableEq, Repr

namespace Payload

/-- `Payload::read`. -/
def read (r : Bytes) : Option (Payload × Bytes) := (readRest r).map fun p => (⟨p.1⟩, p.2)

/-- `Payload::encode`. -/
def encode (p : Payload) : Bytes := p.bytes

theorem read_reads : ReadsEncoding read encode := readRest_reads.map fun _ => rfl

end Payload

namespace PayloadU8

/-- `PayloadU8::read`. -/
def read (r : Bytes) : Option (PayloadU8 × Bytes) :=
  (readBlock readLenU8 r).map fun p => (⟨p.1⟩, p.2)

/-- `PayloadU8::encode`. -/
def encode (p : PayloadU8) : Bytes := encodeLenU8 p.bytes.length ++ p.bytes

theorem read_reads : ReadsEncoding read encode := readLenU8_reads.block.map fun _ => rfl

end PayloadU8

namespace PayloadU16

/-- `PayloadU16::read`. -/
def read (r : Bytes) : Option (PayloadU16 × Bytes) :=
  (readBlock readLenU16 r).map fun p => (⟨p.1⟩, p.2)

/-- `PayloadU16::encode`. -/
def encode (p : PayloadU16) : Bytes := encodeLenU16 p.bytes.length ++ p.bytes

theorem read_reads : ReadsEncoding read encode := readLenU16_reads.block.map fun _ => rfl

end PayloadU16

namespace PayloadU24

/-- `PayloadU24::read`. -/
def read (r : Bytes) : Option (PayloadU24 × Bytes) :=
  (readBlock readU24 r).map fun p => (⟨p.1⟩, p.2)

/-- `PayloadU24::encode`. -/
def encode (p : PayloadU24) : Bytes := encodeU24 p.bytes.length ++ p.bytes

theorem read_reads : ReadsEncoding read encode := readU24_reads.block.map fun _ => rfl

end PayloadU24

/-! ### Enumerations -/

/-- `NamedGroup`. -/
inductive NamedGroup
  | secp256r1 | secp384r1 | secp521r1 | x25519 | x448
  | ffdhe2048 | ffdhe3072 | ffdhe4096 | ffdhe6144 | ffdhe8192
  | unknown (x : UInt16)
  deriving DecidableEq, Repr

namespace NamedGroup

/-- The table of `enum_builder!` for `NamedGroup`. -/
def code : EnumCode NamedGroup UInt16 where
  table := [(secp256r1, 0x0017), (secp384r1, 0x0018), (secp521r1, 0x0019), (x25519, 0x001d),
    (x448, 0x001e), (ffdhe2048, 0x0100), (ffdhe3072, 0x0101), (ffdhe4096, 0x0102),
    (ffdhe6144, 0x0103), (ffdhe8192, 0x0104)]
  unknown := unknown
  unknownVal? := fun | unknown x => some x | _ => none

theorem code_wellFormed : code.WellFormed := ⟨by decide, fun _ => rfl, by decide⟩

/-- `NamedGroup::read`. -/
def read : Bytes → Option (NamedGroup × Bytes) := code.read readU16

/-- `NamedGroup::encode`. -/
def encode : NamedGroup → Bytes := code.encode encodeU16

theorem read_reads : ReadsEncoding read encode := code.reads code_wellFormed readU16_reads

end NamedGroup

/-- `ECCurveType`. -/
inductive ECCurveType
  | explicitPrime | explicitChar2 | namedCurve
  | unknown (x : UInt8)
  deriving DecidableEq, Repr

namespace ECCurveType

/-- The table of `enum_builder!` for `ECCurveType`. -/
def code : EnumCode ECCurveType UInt8 where
  table := [(explicitPrime, 0x01), (explicitChar2, 0x02), (namedCurve, 0x03)]
  unknown := unknown
  unknownVal? := fun | unknown x => some x | _ => none

theorem code_wellFormed : code.WellFormed := ⟨by decide, fun _ => rfl, by decide⟩

/-- `ECCurveType::read`. -/
def read : Bytes → Option (ECCurveType × Bytes) := code.read readU8

/-- `ECCurveType::encode`. -/
def encode : ECCurveType → Bytes := code.encode encodeU8

theorem read_reads : ReadsEncoding read encode := code.reads code_wellFormed readU8_reads

end ECCurveType

/-- `SignatureScheme`. -/
inductive SignatureScheme
  | rsaPkcs1Sha1 | ecdsaSha1Legacy | rsaPkcs1Sha256 | ecdsaNistp256Sha256 | rsaPkcs1Sha384
  | ecdsaNistp384Sha384 | rsaPkcs1Sha512 | ecdsaNistp521Sha512 | rsaPssSha256 | rsaPssSha384
  | rsaPssSha512 | ed25519 | ed448
  | unknown (x : UInt16)
  deriving DecidableEq, Repr

namespace SignatureScheme

/-- The table of `enum_builder!` for `SignatureScheme`. -/
def code : EnumCode SignatureScheme UInt16 where
  table := [(rsaPkcs1Sha1, 0x0201), (ecdsaSha1Legacy, 0x0203), (rsaPkcs1Sha256, 0x0401),
    (ecdsaNistp256Sha256, 0x0403), (rsaPkcs1Sha384, 0x0501), (ecdsaNistp384Sha384, 0x0503),
    (rsaPkcs1Sha512, 0x0601), (ecdsaNistp521Sha512, 0x0603), (rsaPssSha256, 0x0804),
    (rsaPssSha384, 0x0805), (rsaPssSha512, 0x0806), (ed25519, 0x0807), (ed448, 0x0808)]
  unknown := unknown
  unknownVal? := fun | unknown x => some x | _ => none

theorem code_wellFormed : code.WellFormed := ⟨by decide, fun _ => rfl, by decide⟩

/-- `SignatureScheme::read`. -/
def read : Bytes → Option (SignatureScheme × Bytes) := code.read readU16

/-- `SignatureScheme::encode`. -/
def encode : SignatureScheme → Bytes := code.encode encodeU16

theorem read_reads : ReadsEncoding read encode := code.reads code_wellFormed readU16_reads

end SignatureScheme

/-- `ProtocolVersion`. -/
inductive ProtocolVersion
  | sslv2 | sslv3 | tlsv1_0 | tlsv1_1 | tlsv1_2 | tlsv1_3 | dtlsv1_0 | dtlsv1_2
  | unknown (x : UInt16)
  deriving DecidableEq, Repr

namespace ProtocolVersion

/-- The table of `enum_builder!` for `ProtocolVersion`. -/
def code : EnumCode ProtocolVersion UInt16 where
  table := [(sslv2, 0x0200), (sslv3, 0x0300), (tlsv1_0, 0x0301), (tlsv1_1, 0x0302),
    (tlsv1_2, 0x0303), (tlsv1_3, 0x0304), (dtlsv1_0, 0xFEFF), (dtlsv1_2, 0xFEFD)]
  unknown := unknown
  unknownVal? := fun | unknown x => some x | _ => none

theorem code_wellFormed : code.WellFormed := ⟨by decide, fun _ => rfl, by decide⟩

/-- `ProtocolVersion::get_u16`. -/
def getU16 : ProtocolVersion → UInt16 := code.toVal

/-- `ProtocolVersion::read`. -/
def read : Bytes → Option (ProtocolVersion × Bytes) := code.read readU16

/-- `ProtocolVersion::encode`. -/
def encode : ProtocolVersion → Bytes := code.encode encodeU16

theorem read_reads : ReadsEncoding read encode := code.reads code_wellFormed readU16_reads

end ProtocolVersion

/-- `ContentType`. -/
inductive ContentType
  | changeCipherSpec | alert | handshake | applicationData | heartbeat
  | unknown (x : UInt8)
  deriving DecidableEq, Repr

namespace ContentType

/-- The table of `enum_builder!` for `ContentType`. -/
def code : EnumCode ContentType UInt8 where
  table := [(changeCipherSpec, 0x14), (alert, 0x15), (handshake, 0x16), (applicationData, 0x17),
    (heartbeat, 0x18)]
  unknown := unknown
  unknownVal? := fun | unknown x => some x | _ => none

theorem code_wellFormed : code.WellFormed := ⟨by decide, fun _ => rfl, by decide⟩

/-- `ContentType::get_u8`. -/
def getU8 : ContentType → UInt8 := code.toVal

/-- `ContentType::read`. -/
def read : Bytes → Option (ContentType × Bytes) := code.read readU8

/-- `ContentType::encode`. -/
def encode : ContentType → Bytes := code.encode encodeU8

theorem read_reads : ReadsEncoding read encode := code.reads code_wellFormed readU8_reads

end ContentType

/-- `HandshakeType`. -/
inductive HandshakeType
  | helloRequest | clientHello | serverHello | helloVerifyRequest | newSessionTicket
  | endOfEarlyData | helloRetryRequest | encryptedExtensions | certificate
  | serverKeyExchange | certificateRequest | serverHelloDone | certificateVerify
  | clientKeyExchange | finished | certificateURL | certificateStatus | keyUpdate
  | messageHash
  | unknown (x : UInt8)
  deriving DecidableEq, Repr

namespace HandshakeType

/-- The table of `enum_builder!` for `HandshakeType`. -/
def code : EnumCode HandshakeType UInt8 where
  table := [(helloRequest, 0x00), (clientHello, 0x01), (serverHello, 0x02),
    (helloVerifyRequest, 0x03), (newSessionTicket, 0x04), (endOfEarlyData, 0x05),
    (helloRetryRequest, 0x06), (encryptedExtensions, 0x08), (certificate, 0x0b),
    (serverKeyExchange, 0x0c), (certificateRequest, 0x0d), (serverHelloDone, 0x0e),
    (certificateVerify, 0x0f), (clientKeyExchange, 0x10), (finished, 0x14),
    (certificateURL, 0x15), (certificateStatus, 0x16), (keyUpdate, 0x18), (messageHash, 0xfe)]
  unknown := unknown
  unknownVal? := fun | unknown x => some x | _ => none

theorem code_wellFormed : code.WellFormed := ⟨by decide, fun _ => rfl, by decide⟩

/-- `HandshakeType::get_u8`. -/
def getU8 : HandshakeType → UInt8 := code.toVal

/-- `HandshakeType::read`. -/
def read : Bytes → Option (HandshakeType × Bytes) := code.read readU8

/-- `HandshakeType::encode`. -/
def encode : HandshakeType → Bytes := code.encode encodeU8

theorem read_reads : ReadsEncoding read encode := code.reads code_wellFormed readU8_reads

end HandshakeType

/-- `AlertLevel`. -/
inductive AlertLevel
  | warning | fatal
  | unknown (x : UInt8)
  deriving DecidableEq, Repr

namespace AlertLevel

/-- The table of `enum_builder!` for `AlertLevel`. -/
def code : EnumCode AlertLevel UInt8 where
  table := [(warning, 0x01), (fatal, 0x02)]
  unknown := unknown
  unknownVal? := fun | unknown x => some x | _ => none

theorem code_wellFormed : code.WellFormed := ⟨by decide, fun _ => rfl, by decide⟩

/-- `AlertLevel::get_u8`. -/
def getU8 : AlertLevel → UInt8 := code.toVal

/-- `AlertLevel::read`. -/
def read : Bytes → Option (AlertLevel × Bytes) := code.read readU8

/-- `AlertLevel::encode`. -/
def encode : AlertLevel → Bytes := code.encode encodeU8

theorem read_reads : ReadsEncoding read encode := code.reads code_wellFormed readU8_reads

end AlertLevel

/-- `AlertDescription`. -/
inductive AlertDescription
  | closeNotify | unexpectedMessage | badRecordMac | decryptionFailed | recordOverflow
  | decompressionFailure | handshakeFailure | noCertificate | badCertificate
  | unsupportedCertificate | certificateRevoked | certificateExpired | certificateUnknown
  | illegalParameter | unknownCA | accessDenied | decodeError | decryptError
  | exportRestriction | protocolVersion | insufficientSecurity | internalError
  | inappropriateFallback | userCanceled | noRenegotiation | missingExtension
  | unsupportedExtension | certificateUnobtainable | unrecognisedName
  | badCertificateStatusResponse | badCertificateHashValue | unknownPSKIdentity
  | certificateRequired | noApplicationProtocol
  | unknown (x : UInt8)
  deriving DecidableEq, Repr

namespace AlertDescription

/-- The table of `enum_builder!` for `AlertDescription`. -/
def code : EnumCode AlertDescription UInt8 where
  table := [(closeNotify, 0x00), (unexpectedMessage, 0x0a), (badRecordMac, 0x14),
    (decryptionFailed, 0x15), (recordOverflow, 0x16), (decompressionFailure, 0x1e),
    (handshakeFailure, 0x28), (noCertificate, 0x29), (badCertificate, 0x2a),
    (unsupportedCertificate, 0x2b), (certificateRevoked, 0x2c), (certificateExpired, 0x2d),
    (certificateUnknown, 0x2e), (illegalParameter, 0x2f), (unknownCA, 0x30), (accessDenied, 0x31),
    (decodeError, 0x32), (decryptError, 0x33), (exportRestriction, 0x3c), (protocolVersion, 0x46),
    (insufficientSecurity, 0x47), (internalError, 0x50), (inappropriateFallback, 0x56),
    (userCanceled, 0x5a), (noRenegotiation, 0x64), (missingExtension, 0x6d),
    (unsupportedExtension, 0x6e), (certificateUnobtainable, 0x6f), (unrecognisedName, 0x70),
    (badCertificateStatusResponse, 0x71), (badCertificateHashValue, 0x72),
    (unknownPSKIdentity, 0x73), (certificateRequired, 0x74), (noApplicationProtocol, 0x78)]
  unknown := unknown
  unknownVal? := fun | unknown x => some x | _ => none

theorem code_wellFormed : code.WellFormed := ⟨by decide, fun _ => rfl, by decide⟩

/-- `AlertDescription::get_u8`. -/
def getU8 : AlertDescription → UInt8 := code.toVal

/-- `AlertDescription::read`. -/
def read : Bytes → Option (AlertDescription × Bytes) := code.read readU8

/-- `AlertDescription::encode`. -/
def encode : AlertDescription → Bytes := code.encode encodeU8

theorem read_reads : ReadsEncoding read encode := code.reads code_wellFormed readU8_reads

end AlertDescription

/-- `ExtensionType`. -/
inductive ExtensionType
  | serverName | maxFragmentLength | clientCertificateUrl | trustedCAKeys | truncatedHMAC
  | statusRequest | userMapping | clientAuthz | serverAuthz | certificateType | ellipticCurves
  | ecPointFormats | srp | signatureAlgorithms | useSRTP | heartbeat | alProtocolNegotiation
  | sct | padding | extendedMasterSecret | sessionTicket | preSharedKey | earlyData
  | supportedVersions | cookie | pskKeyExchangeModes | ticketEarlyDataInfo
  | certificateAuthorities | oidFilters | postHandshakeAuth | signatureAlgorithmsCert
  | keyShare | transportParameters | nextProtocolNegotiation | channelId | renegotiationInfo
  | transportParametersDraft
  | unknown (x : UInt16)
  deriving DecidableEq, Repr

namespace ExtensionType

/-- The table of `enum_builder!` for `ExtensionType`. -/
def code : EnumCode ExtensionType UInt16 where
  table := [(serverName, 0x0000), (maxFragmentLength, 0x0001), (clientCertificateUrl, 0x0002),
    (trustedCAKeys, 0x0003), (truncatedHMAC, 0x0004), (statusRequest, 0x0005),
    (userMapping, 0x0006), (clientAuthz, 0x0007), (serverAuthz, 0x0008),
    (certificateType, 0x0009), (ellipticCurves, 0x000a), (ecPointFormats, 0x000b),
    (srp, 0x000c), (signatureAlgorithms, 0x000d), (useSRTP, 0x000e), (heartbeat, 0x000f),
    (alProtocolNegotiation, 0x0010), (sct, 0x0012), (padding, 0x0015),
    (extendedMasterSecret, 0x0017), (sessionTicket, 0x0023), (preSharedKey, 0x0029),
    (earlyData, 0x002a), (supportedVersions, 0x002b), (cookie, 0x002c),
    (pskKeyExchangeModes, 0x002d), (ticketEarlyDataInfo, 0x002e),
    (certificateAuthorities, 0x002f), (oidFilters, 0x0030), (postHandshakeAuth, 0x0031),
    (signatureAlgorithmsCert, 0x0032), (keyShare, 0x0033), (transportParameters, 0x0039),
    (nextProtocolNegotiation, 0x3374), (channelId, 0x754f), (renegotiationInfo, 0xff01),
    (transportParametersDraft, 0xffa5)]
  unknown := unknown
  unknownVal? := fun | unknown x => some x | _ => none

theorem code_wellFormed : code.WellFormed := ⟨by decide, fun _ => rfl, by decide⟩

/-- `ExtensionType::read`. -/
def read : Bytes → Option (ExtensionType × Bytes) := code.read readU16

/-- `ExtensionType::encode`. -/
def encode : ExtensionType → Bytes := code.encode encodeU16

theorem read_reads : ReadsEncoding read encode := code.reads code_wellFormed readU16_reads

end ExtensionType

/-- `ServerNameType`. -/
inductive ServerNameType
  | hostName
  | unknown (x : UInt8)
  deriving DecidableEq, Repr

namespace ServerNameType

/-- The table of `enum_builder!` for `ServerNameType`. -/
def code : EnumCode ServerNameType UInt8 where
  table := [(hostName, 0x00)]
  unknown := unknown
  unknownVal? := fun | unknown x => some x | _ => none

theorem code_wellFormed : code.WellFormed := ⟨by decide, fun _ => rfl, by decide⟩

/-- `ServerNameType::read`. -/
def read : Bytes → Option (ServerNameType × Bytes) := code.read readU8

/-- `ServerNameType::encode`. -/
def encode : ServerNameType → Bytes := code.encode encodeU8

theorem read_reads : ReadsEncoding read encode := code.reads code_wellFormed readU8_reads

end ServerNameType

/-- `Compression`. -/
inductive Compression
  | null | deflate | lsz
  | unknown (x : UInt8)
  deriving DecidableEq, Repr

namespace Compression

/-- The table of `enum_builder!` for `Compression`. -/
def code : EnumCode Compression UInt8 where
  table := [(null, 0x00), (deflate, 0x01), (lsz, 0x40)]
  unknown := unknown
  unknownVal? := fun | unknown x => some x | _ => none

theorem code_wellFormed : code.WellFormed := ⟨by decide, fun _ => rfl, by decide⟩

/-- `Compression::read`. -/
def read : Bytes → Option (Compression × Bytes) := code.read readU8

/-- `Compression::encode`. -/
def encode : Compression → Bytes := code.encode encodeU8

theorem read_reads : ReadsEncoding read encode := code.reads code_wellFormed readU8_reads

end Compression

/-- `ECPointFormat`. -/
inductive ECPointFormat
  | uncompressed | ansiX962CompressedPrime | ansiX962CompressedChar2
  | unknown (x : UInt8)
  deriving DecidableEq, Repr

namespace ECPointFormat

/-- The table of `enum_builder!` for `ECPointFormat`. -/
def code : EnumCode ECPointFormat UInt8 where
  table := [(uncompressed, 0x00), (ansiX962CompressedPrime, 0x01),
    (ansiX962CompressedChar2, 0x02)]
  unknown := unknown
  unknownVal? := fun | unknown x => some x | _ => none

theorem code_wellFormed : code.WellFormed := ⟨by decide, fun _ => rfl, by decide⟩

/-- `ECPointFormat::read`. -/
def read : Bytes → Option (ECPointFormat × Bytes) := code.read readU8

/-- `ECPointFormat::encode`. -/
def encode : ECPointFormat → Bytes := code.encode encodeU8

theorem read_reads : ReadsEncoding read encode := code.reads code_wellFormed readU8_reads

end ECPointFormat

/-- `PSKKeyExchangeMode`. -/
inductive PSKKeyExchangeMode
  | pskKe | pskDheKe
  | unknown (x : UInt8)
  deriving DecidableEq, Repr

namespace PSKKeyExchangeMode

/-- The table of `enum_builder!` for `PSKKeyExchangeMode`. -/
def code : EnumCode PSKKeyExchangeMode UInt8 where
  table := [(pskKe, 0x00), (pskDheKe, 0x01)]
  unknown := unknown
  unknownVal? := fun | unknown x => some x | _ => none

theorem code_wellFormed : code.WellFormed := ⟨by decide, fun _ => rfl, by decide⟩

/-- `PSKKeyExchangeMode::read`. -/
def read : Bytes → Option (PSKKeyExchangeMode × Bytes) := code.read readU8

/-- `PSKKeyExchangeMode::encode`. -/
def encode : PSKKeyExchangeMode → Bytes := code.encode encodeU8

theorem read_reads : ReadsEncoding read encode := code.reads code_wellFormed readU8_reads

end PSKKeyExchangeMode

/-- `KeyUpdateRequest`. -/
inductive KeyUpdateRequest
  | updateNotRequested | updateRequested
  | unknown (x : UInt8)
  deriving DecidableEq, Repr

namespace KeyUpdateRequest

/-- The table of `enum_builder!` for `KeyUpdateRequest`. -/
def code : EnumCode KeyUpdateRequest UInt8 where
  table := [(updateNotRequested, 0x00), (updateRequested, 0x01)]
  unknown := unknown
  unknownVal? := fun | unknown x => some x | _ => none

theorem code_wellFormed : code.WellFormed := ⟨by decide, fun _ => rfl, by decide⟩

/-- `KeyUpdateRequest::read`. -/
def read : Bytes → Option (KeyUpdateRequest × Bytes) := code.read readU8

/-- `KeyUpdateRequest::encode`. -/
def encode : KeyUpdateRequest → Bytes := code.encode encodeU8

theorem read_reads : ReadsEncoding read encode := code.reads code_wellFormed readU8_reads

end KeyUpdateRequest

/-- `CertificateStatusType`. -/
inductive CertificateStatusType
  | ocsp
  | unknown (x : UInt8)
  deriving DecidableEq, Repr

namespace CertificateStatusType

/-- The table of `enum_builder!` for `CertificateStatusType`. -/
def code : EnumCode CertificateStatusType UInt8 where
  table := [(ocsp, 0x01)]
  unknown := unknown
  unknownVal? := fun | unknown x => some x | _ => none

theorem code_wellFormed : code.WellFormed := ⟨by decide, fun _ => rfl, by decide⟩

/-- `CertificateStatusType::read`. -/
def read : Bytes → Option (CertificateStatusType × Bytes) := code.read readU8

/-- `CertificateStatusType::encode`. -/
def encode : CertificateStatusType → Bytes := code.encode encodeU8

theorem read_reads : ReadsEncoding read encode := code.reads code_wellFormed readU8_reads

end CertificateStatusType

/-- `ClientCertificateType`. -/
inductive ClientCertificateType
  | rsaSign | dssSign | rsaFixedDH | dssFixedDH | rsaEphemeralDH | dssEphemeralDH
  | fortezzaDMS | ecdsaSign | rsaFixedECDH | ecdsaFixedECDH
  | unknown (x : UInt8)
  deriving DecidableEq, Repr

namespace ClientCertificateType

/-- The table of `enum_builder!` for `ClientCertificateType`. -/
def code : EnumCode ClientCertificateType UInt8 where
  table := [(rsaSign, 0x01), (dssSign, 0x02), (rsaFixedDH, 0x03), (dssFixedDH, 0x04),
    (rsaEphemeralDH, 0x05), (dssEphemeralDH, 0x06), (fortezzaDMS, 0x14), (ecdsaSign, 0x40),
    (rsaFixedECDH, 0x41), (ecdsaFixedECDH, 0x42)]
  unknown := unknown
  unknownVal? := fun | unknown x => some x | _ => none

theorem code_wellFormed : code.WellFormed := ⟨by decide, fun _ => rfl, by decide⟩

/-- `ClientCertificateType::read`. -/
def read : Bytes → Option (ClientCertificateType × Bytes) := code.read readU8

/-- `ClientCertificateType::encode`. -/
def encode : ClientCertificateType → Bytes := code.encode encodeU8

theorem read_reads : ReadsEncoding read encode := code.reads code_wellFormed readU8_reads

end ClientCertificateType

/-- `CipherSuite`, by its value. Its `enum_builder!` table names several hundred suites, and
`From<u16>` and `get_u16` are inverse on every value (`EnumCode.toVal_ofVal`); no modelled function
reads a suite's name, so a suite is its value here. -/
structure CipherSuite where
  getU16 : UInt16
  deriving DecidableEq, Repr

namespace CipherSuite

/-- `CipherSuite::read`. -/
def read (r : Bytes) : Option (CipherSuite × Bytes) := (readU16 r).map fun p => (⟨p.1⟩, p.2)

/-- `CipherSuite::encode`. -/
def encode (c : CipherSuite) : Bytes := encodeU16 c.getU16

theorem read_reads : ReadsEncoding read encode := readU16_reads.map fun _ => rfl

end CipherSuite

/-- `AlertMessagePayload`. -/
structure AlertMessagePayload where
  level : AlertLevel
  description : AlertDescription
  deriving DecidableEq, Repr

namespace AlertMessagePayload

/-- `AlertMessagePayload::read`. -/
def read (r : Bytes) : Option (AlertMessagePayload × Bytes) := do
  let (level, r) ← AlertLevel.read r
  let (description, r) ← AlertDescription.read r
  some (⟨level, description⟩, r)

/-- `AlertMessagePayload::encode`. -/
def encode (a : AlertMessagePayload) : Bytes :=
  AlertLevel.encode a.level ++ AlertDescription.encode a.description

/-- `Codec::read_bytes`: a read from the start of the bytes, whatever follows it. -/
def readBytes (bytes : Bytes) : Option AlertMessagePayload := (read bytes).map Prod.fst

theorem read_reads : ReadsEncoding read encode := by
  intro bs a rest hr
  obtain ⟨level, r, rfl, hk₁⟩ := AlertLevel.read_reads.bind_eq_some hr
  obtain ⟨description, r', rfl, hk₂⟩ := AlertDescription.read_reads.bind_eq_some hk₁
  simp only [Option.some.injEq, Prod.mk.injEq] at hk₂
  obtain ⟨rfl, rfl⟩ := hk₂
  simp [encode]

end AlertMessagePayload

end Tlsn.Tls
