import Tlsn.Tls.KeyExchange

/-!
# Hello extensions (`tls-core/src/msgs/handshake.rs`)

The session id, the server names, key shares and pre-shared key offers, and the extensions of the
handshake messages: those of a ClientHello, a ServerHello (and EncryptedExtensions), a
HelloRetryRequest, a TLS 1.3 certificate entry, a TLS 1.3 CertificateRequest and a TLS 1.3
NewSessionTicket. Every extension is a type, a `u16` length and a body that its type chooses how to
read (`Codec.readTagged`); a body read under a type is the body of an extension of that type
(`readBody_reads`), so every extension codec reads only encodings (`read_reads`).

The vectors of `declare_u8_vec!` and `declare_u16_vec!` are `Codec.readVec` and `Codec.encodeVec` at
the item's codec. Whether a host name is a DNS name is webpki's `DnsNameRef::try_from_ascii`, a
parameter `isDnsName` here.
-/

namespace Tlsn.Tls.Handshake

open Codec

/-! ### Session ids, server names, key shares and pre-shared keys -/

/-- `SessionID`: at most thirty-two bytes. -/
structure SessionID where
  bytes : Bytes
  length_le : bytes.length ≤ 32

instance : DecidableEq SessionID := fun a b =>
  decidable_of_iff (a.bytes = b.bytes) (by cases a; cases b; simp)

namespace SessionID

/-- `SessionID::read`: a length of at most thirty-two, then that many bytes. -/
def read (r : Bytes) : Option (SessionID × Bytes) :=
  match readLenU8 r with
  | none => none
  | some (len, r) =>
    if hlen : len > 32 then none
    else
      match h : take len r with
      | some (bytes, rest) =>
        some (⟨bytes, by rw [(take_eq_some.1 h).1]; omega⟩, rest)
      | none => none

/-- `SessionID::encode`. -/
def encode (s : SessionID) : Bytes := encodeLenU8 s.bytes.length ++ s.bytes

theorem read_reads : ReadsEncoding read encode := by
  intro bs s rest hr
  unfold read at hr
  split at hr
  · cases hr
  rename_i len r hlen
  split_ifs at hr
  split at hr
  · rename_i bytes r' htake
    simp only [Option.some.injEq, Prod.mk.injEq] at hr
    obtain ⟨rfl, rfl⟩ := hr
    obtain ⟨rfl, rfl⟩ := take_eq_some.1 htake
    rw [readLenU8_reads hlen]
    simp [encode]
  · cases hr

end SessionID

/-- `UnknownExtension`: an extension of a type not read otherwise, its body kept whole. -/
structure UnknownExtension where
  typ : ExtensionType
  payload : Payload
  deriving DecidableEq, Repr

namespace UnknownExtension

/-- `UnknownExtension::read`: the rest of the block. -/
def read (typ : ExtensionType) (r : Bytes) : Option (UnknownExtension × Bytes) :=
  (Payload.read r).map fun p => (⟨typ, p.1⟩, p.2)

/-- `UnknownExtension::encode`. -/
def encode (u : UnknownExtension) : Bytes := u.payload.encode

/-- An unknown extension read under a type has that type and the whole block as its body. -/
theorem read_map {α : Type} {f : UnknownExtension → α} {typ : ExtensionType} {bs : Bytes} {a : α}
    {rest : Bytes} (h : (read typ bs).map (fun p => (f p.1, p.2)) = some (a, rest)) :
    a = f ⟨typ, ⟨bs⟩⟩ ∧ rest = [] := by
  simp only [read, Payload.read, readRest, Option.map_some, Option.some.injEq, Prod.mk.injEq] at h
  exact ⟨h.1.symm, h.2.symm⟩

end UnknownExtension

/-- `ServerNamePayload`: a host name keeps the bytes it was read from, which are what it encodes
to; the `DnsName` stored beside them is not read by the codec and is left out. -/
inductive ServerNamePayload
  | hostName (raw : PayloadU16)
  | unknown (p : Payload)
  deriving DecidableEq, Repr

/-- `ServerName`. -/
structure ServerName where
  typ : ServerNameType
  payload : ServerNamePayload
  deriving DecidableEq, Repr

section DnsName

variable (isDnsName : Bytes → Bool)

/-- `ServerNamePayload::read_hostname`: a name that is not a DNS name is refused. -/
def ServerNamePayload.readHostname (r : Bytes) : Option (ServerNamePayload × Bytes) := do
  let (raw, r) ← PayloadU16.read r
  if isDnsName raw.bytes then some (.hostName raw, r) else none

/-- The payload of `ServerName::read`, read as its type says. -/
def ServerName.readPayload (typ : ServerNameType) (r : Bytes) :
    Option (ServerNamePayload × Bytes) :=
  match typ with
  | .hostName => ServerNamePayload.readHostname isDnsName r
  | _ => (Payload.read r).map fun p => (.unknown p.1, p.2)

/-- `ServerName::read`. -/
def ServerName.read (r : Bytes) : Option (ServerName × Bytes) := do
  let (typ, r) ← ServerNameType.read r
  let (payload, r) ← ServerName.readPayload isDnsName typ r
  some (⟨typ, payload⟩, r)

end DnsName

/-- `ServerNamePayload::encode`. -/
def ServerNamePayload.encode : ServerNamePayload → Bytes
  | .hostName r => r.encode
  | .unknown r => r.encode

/-- `ServerName::encode`. -/
def ServerName.encode (n : ServerName) : Bytes := ServerNameType.encode n.typ ++ n.payload.encode

theorem ServerNamePayload.readHostname_reads (isDnsName : Bytes → Bool) :
    ReadsEncoding (readHostname isDnsName) encode := by
  intro bs p rest hr
  obtain ⟨raw, r, rfl, hk⟩ := PayloadU16.read_reads.bind_eq_some hr
  dsimp only at hk
  split_ifs at hk
  simp only [Option.some.injEq, Prod.mk.injEq] at hk
  obtain ⟨rfl, rfl⟩ := hk
  rfl

theorem ServerName.read_reads (isDnsName : Bytes → Bool) :
    ReadsEncoding (read isDnsName) encode := by
  intro bs n rest hr
  obtain ⟨typ, r, rfl, hk₁⟩ := ServerNameType.read_reads.bind_eq_some hr
  obtain ⟨⟨payload, r'⟩, hp, hk₂⟩ := Option.bind_eq_some_iff.1 hk₁
  simp only [Option.some.injEq, Prod.mk.injEq] at hk₂
  obtain ⟨rfl, rfl⟩ := hk₂
  -- whichever way the payload was read, it is followed by what it left
  have hpay : r = payload.encode ++ r' := by
    unfold readPayload at hp
    split at hp
    · exact ServerNamePayload.readHostname_reads isDnsName hp
    · obtain ⟨p, rfl, hrest⟩ := Payload.read_reads.map_eq_some hp
      exact hrest
  simp [encode, hpay]

/-- `KeyShareEntry`. -/
structure KeyShareEntry where
  group : NamedGroup
  payload : PayloadU16
  deriving DecidableEq, Repr

namespace KeyShareEntry

/-- `KeyShareEntry::read`. -/
def read (r : Bytes) : Option (KeyShareEntry × Bytes) := do
  let (group, r) ← NamedGroup.read r
  let (payload, r) ← PayloadU16.read r
  some (⟨group, payload⟩, r)

/-- `KeyShareEntry::encode`. -/
def encode (e : KeyShareEntry) : Bytes := NamedGroup.encode e.group ++ e.payload.encode

theorem read_reads : ReadsEncoding read encode := by
  intro bs e rest hr
  obtain ⟨group, r, rfl, hk₁⟩ := NamedGroup.read_reads.bind_eq_some hr
  obtain ⟨payload, r', rfl, hk₂⟩ := PayloadU16.read_reads.bind_eq_some hk₁
  simp only [Option.some.injEq, Prod.mk.injEq] at hk₂
  obtain ⟨rfl, rfl⟩ := hk₂
  simp [encode]

end KeyShareEntry

/-- `PresharedKeyIdentity`. -/
structure PresharedKeyIdentity where
  identity : PayloadU16
  obfuscatedTicketAge : UInt32
  deriving DecidableEq, Repr

namespace PresharedKeyIdentity

/-- `PresharedKeyIdentity::read`. -/
def read (r : Bytes) : Option (PresharedKeyIdentity × Bytes) := do
  let (identity, r) ← PayloadU16.read r
  let (obfuscatedTicketAge, r) ← readU32 r
  some (⟨identity, obfuscatedTicketAge⟩, r)

/-- `PresharedKeyIdentity::encode`. -/
def encode (i : PresharedKeyIdentity) : Bytes := i.identity.encode ++ encodeU32 i.obfuscatedTicketAge

theorem read_reads : ReadsEncoding read encode := by
  intro bs i rest hr
  obtain ⟨identity, r, rfl, hk₁⟩ := PayloadU16.read_reads.bind_eq_some hr
  obtain ⟨age, r', rfl, hk₂⟩ := readU32_reads.bind_eq_some hk₁
  simp only [Option.some.injEq, Prod.mk.injEq] at hk₂
  obtain ⟨rfl, rfl⟩ := hk₂
  simp [encode]

end PresharedKeyIdentity

/-- `PresharedKeyOffer`. -/
structure PresharedKeyOffer where
  identities : List PresharedKeyIdentity
  binders : List PayloadU8
  deriving DecidableEq, Repr

namespace PresharedKeyOffer

/-- `PresharedKeyOffer::read`. -/
def read (r : Bytes) : Option (PresharedKeyOffer × Bytes) := do
  let (identities, r) ← readVec readLenU16 PresharedKeyIdentity.read r
  let (binders, r) ← readVec readLenU16 PayloadU8.read r
  some (⟨identities, binders⟩, r)

/-- `PresharedKeyOffer::encode`. -/
def encode (o : PresharedKeyOffer) : Bytes :=
  encodeVec encodeLenU16 PresharedKeyIdentity.encode o.identities ++
    encodeVec encodeLenU16 PayloadU8.encode o.binders

theorem read_reads : ReadsEncoding read encode := by
  intro bs o rest hr
  obtain ⟨identities, r, rfl, hk₁⟩ :=
    (readLenU16_reads.vec PresharedKeyIdentity.read_reads).bind_eq_some hr
  obtain ⟨binders, r', rfl, hk₂⟩ := (readLenU16_reads.vec PayloadU8.read_reads).bind_eq_some hk₁
  simp only [Option.some.injEq, Prod.mk.injEq] at hk₂
  obtain ⟨rfl, rfl⟩ := hk₂
  simp [encode]

end PresharedKeyOffer

/-! ### Certificate status -/

/-- `OCSPCertificateStatusRequest`. -/
structure OCSPCertificateStatusRequest where
  responderIds : List PayloadU16
  extensions : PayloadU16
  deriving DecidableEq, Repr

namespace OCSPCertificateStatusRequest

/-- `OCSPCertificateStatusRequest::read`: the status type has been read by the caller. -/
def read (r : Bytes) : Option (OCSPCertificateStatusRequest × Bytes) := do
  let (responderIds, r) ← readVec readLenU16 PayloadU16.read r
  let (extensions, r) ← PayloadU16.read r
  some (⟨responderIds, extensions⟩, r)

/-- `OCSPCertificateStatusRequest::encode`: the status type, then the request. -/
def encode (o : OCSPCertificateStatusRequest) : Bytes :=
  CertificateStatusType.encode .ocsp ++ encodeVec encodeLenU16 PayloadU16.encode o.responderIds ++
    o.extensions.encode

/-- A request read after its status type is the encoding of the request. -/
theorem read_reads : ReadsEncoding read fun o => (encode o).drop 1 := by
  intro bs o rest hr
  obtain ⟨ids, r, rfl, hk₁⟩ := (readLenU16_reads.vec PayloadU16.read_reads).bind_eq_some hr
  obtain ⟨extensions, r', rfl, hk₂⟩ := PayloadU16.read_reads.bind_eq_some hk₁
  simp only [Option.some.injEq, Prod.mk.injEq] at hk₂
  obtain ⟨rfl, rfl⟩ := hk₂
  simp [encode, CertificateStatusType.encode, EnumCode.encode, encodeU8]

end OCSPCertificateStatusRequest

/-- `CertificateStatusRequest`. -/
inductive CertificateStatusRequest
  | ocsp (r : OCSPCertificateStatusRequest)
  | unknown (typ : CertificateStatusType) (data : Payload)
  deriving DecidableEq, Repr

namespace CertificateStatusRequest

/-- `CertificateStatusRequest::read`. -/
def read (r : Bytes) : Option (CertificateStatusRequest × Bytes) := do
  let (typ, r) ← CertificateStatusType.read r
  match typ with
  | .ocsp => (OCSPCertificateStatusRequest.read r).map fun p => (.ocsp p.1, p.2)
  | _ => (Payload.read r).map fun p => (.unknown typ p.1, p.2)

/-- `CertificateStatusRequest::encode`. -/
def encode : CertificateStatusRequest → Bytes
  | .ocsp r => r.encode
  | .unknown typ payload => CertificateStatusType.encode typ ++ payload.encode

theorem read_reads : ReadsEncoding read encode := by
  intro bs c rest hr
  obtain ⟨typ, r, rfl, hk⟩ := CertificateStatusType.read_reads.bind_eq_some hr
  dsimp only at hk
  split at hk
  · -- the request's encoding starts with the status type read before it
    obtain ⟨o, rfl, rfl⟩ := OCSPCertificateStatusRequest.read_reads.map_eq_some hk
    simp [encode, OCSPCertificateStatusRequest.encode, CertificateStatusType.encode,
      EnumCode.encode, encodeU8]
  · obtain ⟨p, rfl, rfl⟩ := Payload.read_reads.map_eq_some hk
    simp [encode]

end CertificateStatusRequest

/-- `CertificateStatus`. -/
structure CertificateStatus where
  ocspResponse : PayloadU24
  deriving DecidableEq, Repr

namespace CertificateStatus

/-- `CertificateStatus::read`: only an OCSP response is read. -/
def read (r : Bytes) : Option (CertificateStatus × Bytes) := do
  let (typ, r) ← CertificateStatusType.read r
  match typ with
  | .ocsp => (PayloadU24.read r).map fun p => (⟨p.1⟩, p.2)
  | _ => none

/-- `CertificateStatus::encode`. -/
def encode (c : CertificateStatus) : Bytes :=
  CertificateStatusType.encode .ocsp ++ c.ocspResponse.encode

theorem read_reads : ReadsEncoding read encode := by
  intro bs c rest hr
  obtain ⟨typ, r, rfl, hk⟩ := CertificateStatusType.read_reads.bind_eq_some hr
  dsimp only at hk
  split at hk
  · obtain ⟨p, rfl, rfl⟩ := PayloadU24.read_reads.map_eq_some hk
    simp [encode]
  · cases hk

end CertificateStatus

/-! ### ClientHello extensions -/

/-- `ClientSessionTicket`. -/
inductive ClientSessionTicket
  | request
  | offer (p : Payload)
  deriving DecidableEq, Repr

/-- `ClientExtension`. -/
inductive ClientExtension
  | ecPointFormats (r : List ECPointFormat)
  | namedGroups (r : List NamedGroup)
  | signatureAlgorithms (r : List SignatureScheme)
  | serverName (r : List ServerName)
  | sessionTicket (r : ClientSessionTicket)
  | protocols (r : List PayloadU8)
  | supportedVersions (r : List ProtocolVersion)
  | keyShare (r : List KeyShareEntry)
  | presharedKeyModes (r : List PSKKeyExchangeMode)
  | presharedKey (r : PresharedKeyOffer)
  | cookie (r : PayloadU16)
  | extendedMasterSecretRequest
  | certificateStatusRequest (r : CertificateStatusRequest)
  | signedCertificateTimestampRequest
  | transportParameters (r : Bytes)
  | transportParametersDraft (r : Bytes)
  | earlyData
  | unknown (r : UnknownExtension)
  deriving DecidableEq, Repr

namespace ClientExtension

/-- `ClientExtension::get_type`. -/
def getType : ClientExtension → ExtensionType
  | .ecPointFormats _ => .ecPointFormats
  | .namedGroups _ => .ellipticCurves
  | .signatureAlgorithms _ => .signatureAlgorithms
  | .serverName _ => .serverName
  | .sessionTicket _ => .sessionTicket
  | .protocols _ => .alProtocolNegotiation
  | .supportedVersions _ => .supportedVersions
  | .keyShare _ => .keyShare
  | .presharedKeyModes _ => .pskKeyExchangeModes
  | .presharedKey _ => .preSharedKey
  | .cookie _ => .cookie
  | .extendedMasterSecretRequest => .extendedMasterSecret
  | .certificateStatusRequest _ => .statusRequest
  | .signedCertificateTimestampRequest => .sct
  | .transportParameters _ => .transportParameters
  | .transportParametersDraft _ => .transportParametersDraft
  | .earlyData => .earlyData
  | .unknown r => r.typ

/-- The body of `ClientExtension::encode`. -/
def encodeBody : ClientExtension → Bytes
  | .ecPointFormats r => encodeVec encodeLenU8 ECPointFormat.encode r
  | .namedGroups r => encodeVec encodeLenU16 NamedGroup.encode r
  | .signatureAlgorithms r => encodeVec encodeLenU16 SignatureScheme.encode r
  | .serverName r => encodeVec encodeLenU16 ServerName.encode r
  | .sessionTicket .request | .extendedMasterSecretRequest | .signedCertificateTimestampRequest
  | .earlyData => []
  | .sessionTicket (.offer r) => r.encode
  | .protocols r => encodeVec encodeLenU16 PayloadU8.encode r
  | .supportedVersions r => encodeVec encodeLenU8 ProtocolVersion.encode r
  | .keyShare r => encodeVec encodeLenU16 KeyShareEntry.encode r
  | .presharedKeyModes r => encodeVec encodeLenU8 PSKKeyExchangeMode.encode r
  | .presharedKey r => r.encode
  | .cookie r => r.encode
  | .certificateStatusRequest r => r.encode
  | .transportParameters r | .transportParametersDraft r => r
  | .unknown r => r.encode

/-- `ClientExtension::encode`: the type, the body's length as a `u16`, the body. -/
def encode : ClientExtension → Bytes :=
  encodeTagged ExtensionType.encode encodeLenU16 getType encodeBody

section DnsName

variable (isDnsName : Bytes → Bool)

/-- The body of `ClientExtension::read`, chosen by the extension's type; an empty-bodied extension
with a body, and a type not listed, are kept as unknown. -/
def readBody (typ : ExtensionType) (sub : Bytes) : Option (ClientExtension × Bytes) :=
  match typ with
  | .ecPointFormats => (readVec readLenU8 ECPointFormat.read sub).map fun p =>
      (.ecPointFormats p.1, p.2)
  | .ellipticCurves => (readVec readLenU16 NamedGroup.read sub).map fun p =>
      (.namedGroups p.1, p.2)
  | .signatureAlgorithms => (readVec readLenU16 SignatureScheme.read sub).map fun p =>
      (.signatureAlgorithms p.1, p.2)
  | .serverName => (readVec readLenU16 (ServerName.read isDnsName) sub).map fun p =>
      (.serverName p.1, p.2)
  | .sessionTicket =>
    if sub ≠ [] then (Payload.read sub).map fun p => (.sessionTicket (.offer p.1), p.2)
    else some (.sessionTicket .request, sub)
  | .alProtocolNegotiation => (readVec readLenU16 PayloadU8.read sub).map fun p =>
      (.protocols p.1, p.2)
  | .supportedVersions => (readVec readLenU8 ProtocolVersion.read sub).map fun p =>
      (.supportedVersions p.1, p.2)
  | .keyShare => (readVec readLenU16 KeyShareEntry.read sub).map fun p => (.keyShare p.1, p.2)
  | .pskKeyExchangeModes => (readVec readLenU8 PSKKeyExchangeMode.read sub).map fun p =>
      (.presharedKeyModes p.1, p.2)
  | .preSharedKey => (PresharedKeyOffer.read sub).map fun p => (.presharedKey p.1, p.2)
  | .cookie => (PayloadU16.read sub).map fun p => (.cookie p.1, p.2)
  | .extendedMasterSecret =>
    if sub = [] then some (.extendedMasterSecretRequest, sub)
    else (UnknownExtension.read typ sub).map fun p => (.unknown p.1, p.2)
  | .statusRequest => (CertificateStatusRequest.read sub).map fun p =>
      (.certificateStatusRequest p.1, p.2)
  | .sct =>
    if sub = [] then some (.signedCertificateTimestampRequest, sub)
    else (UnknownExtension.read typ sub).map fun p => (.unknown p.1, p.2)
  | .transportParameters => some (.transportParameters sub, [])
  | .transportParametersDraft => some (.transportParametersDraft sub, [])
  | .earlyData =>
    if sub = [] then some (.earlyData, sub)
    else (UnknownExtension.read typ sub).map fun p => (.unknown p.1, p.2)
  | _ => (UnknownExtension.read typ sub).map fun p => (.unknown p.1, p.2)

/-- `ClientExtension::read`: a body with bytes left over is refused. -/
def read : Bytes → Option (ClientExtension × Bytes) :=
  readTagged ExtensionType.read readLenU16 (readBody isDnsName)

theorem readBody_reads : ReadsTagged (readBody isDnsName) getType encodeBody := by
  intro t bs a rest h
  unfold readBody at h
  split at h
  · exact (readLenU8_reads.vec ECPointFormat.read_reads).tagged_map h fun _ => ⟨rfl, rfl, rfl⟩
  · exact (readLenU16_reads.vec NamedGroup.read_reads).tagged_map h fun _ => ⟨rfl, rfl, rfl⟩
  · exact (readLenU16_reads.vec SignatureScheme.read_reads).tagged_map h fun _ => ⟨rfl, rfl, rfl⟩
  · exact (readLenU16_reads.vec (ServerName.read_reads isDnsName)).tagged_map h
      fun _ => ⟨rfl, rfl, rfl⟩
  · split_ifs at h
    · exact Payload.read_reads.tagged_map h fun _ => ⟨rfl, rfl, rfl⟩
    · exact ReadsTagged.of_some h rfl rfl
  · exact (readLenU16_reads.vec PayloadU8.read_reads).tagged_map h fun _ => ⟨rfl, rfl, rfl⟩
  · exact (readLenU8_reads.vec ProtocolVersion.read_reads).tagged_map h fun _ => ⟨rfl, rfl, rfl⟩
  · exact (readLenU16_reads.vec KeyShareEntry.read_reads).tagged_map h fun _ => ⟨rfl, rfl, rfl⟩
  · exact (readLenU8_reads.vec PSKKeyExchangeMode.read_reads).tagged_map h fun _ => ⟨rfl, rfl, rfl⟩
  · exact PresharedKeyOffer.read_reads.tagged_map h fun _ => ⟨rfl, rfl, rfl⟩
  · exact PayloadU16.read_reads.tagged_map h fun _ => ⟨rfl, rfl, rfl⟩
  · split_ifs at h
    · exact ReadsTagged.of_some h rfl rfl
    · obtain ⟨rfl, rfl⟩ := UnknownExtension.read_map h
      exact ⟨rfl, (List.append_nil _).symm⟩
  · exact CertificateStatusRequest.read_reads.tagged_map h fun _ => ⟨rfl, rfl, rfl⟩
  · split_ifs at h
    · exact ReadsTagged.of_some h rfl rfl
    · obtain ⟨rfl, rfl⟩ := UnknownExtension.read_map h
      exact ⟨rfl, (List.append_nil _).symm⟩
  · exact ReadsTagged.of_some h rfl (List.append_nil _).symm
  · exact ReadsTagged.of_some h rfl (List.append_nil _).symm
  · split_ifs at h
    · exact ReadsTagged.of_some h rfl rfl
    · obtain ⟨rfl, rfl⟩ := UnknownExtension.read_map h
      exact ⟨rfl, (List.append_nil _).symm⟩
  · obtain ⟨rfl, rfl⟩ := UnknownExtension.read_map h
    exact ⟨rfl, (List.append_nil _).symm⟩

theorem read_reads : ReadsEncoding (read isDnsName) encode :=
  ExtensionType.read_reads.tagged readLenU16_reads (readBody_reads isDnsName)

end DnsName

end ClientExtension

/-! ### ServerHello and EncryptedExtensions extensions -/

/-- `ServerExtension`. -/
inductive ServerExtension
  | ecPointFormats (r : List ECPointFormat)
  | serverNameAck
  | sessionTicketAck
  | renegotiationInfo (r : PayloadU8)
  | protocols (r : List PayloadU8)
  | keyShare (r : KeyShareEntry)
  | presharedKey (r : UInt16)
  | extendedMasterSecretAck
  | certificateStatusAck
  | signedCertificateTimestamp (r : List PayloadU16)
  | supportedVersions (r : ProtocolVersion)
  | transportParameters (r : Bytes)
  | transportParametersDraft (r : Bytes)
  | earlyData
  | unknown (r : UnknownExtension)
  deriving DecidableEq, Repr

namespace ServerExtension

/-- `ServerExtension::get_type`. -/
def getType : ServerExtension → ExtensionType
  | .ecPointFormats _ => .ecPointFormats
  | .serverNameAck => .serverName
  | .sessionTicketAck => .sessionTicket
  | .renegotiationInfo _ => .renegotiationInfo
  | .protocols _ => .alProtocolNegotiation
  | .keyShare _ => .keyShare
  | .presharedKey _ => .preSharedKey
  | .extendedMasterSecretAck => .extendedMasterSecret
  | .certificateStatusAck => .statusRequest
  | .signedCertificateTimestamp _ => .sct
  | .supportedVersions _ => .supportedVersions
  | .transportParameters _ => .transportParameters
  | .transportParametersDraft _ => .transportParametersDraft
  | .earlyData => .earlyData
  | .unknown r => r.typ

/-- The body of `ServerExtension::encode`. -/
def encodeBody : ServerExtension → Bytes
  | .ecPointFormats r => encodeVec encodeLenU8 ECPointFormat.encode r
  | .serverNameAck | .sessionTicketAck | .extendedMasterSecretAck | .certificateStatusAck
  | .earlyData => []
  | .renegotiationInfo r => r.encode
  | .protocols r => encodeVec encodeLenU16 PayloadU8.encode r
  | .keyShare r => r.encode
  | .presharedKey r => encodeU16 r
  | .signedCertificateTimestamp r => encodeVec encodeLenU16 PayloadU16.encode r
  | .supportedVersions r => ProtocolVersion.encode r
  | .transportParameters r | .transportParametersDraft r => r
  | .unknown r => r.encode

/-- `ServerExtension::encode`. -/
def encode : ServerExtension → Bytes :=
  encodeTagged ExtensionType.encode encodeLenU16 getType encodeBody

/-- The body of `ServerExtension::read`: an acknowledgement has an empty body, which the check for
bytes left after the body enforces. -/
def readBody (typ : ExtensionType) (sub : Bytes) : Option (ServerExtension × Bytes) :=
  match typ with
  | .ecPointFormats => (readVec readLenU8 ECPointFormat.read sub).map fun p =>
      (.ecPointFormats p.1, p.2)
  | .serverName => some (.serverNameAck, sub)
  | .sessionTicket => some (.sessionTicketAck, sub)
  | .statusRequest => some (.certificateStatusAck, sub)
  | .renegotiationInfo => (PayloadU8.read sub).map fun p => (.renegotiationInfo p.1, p.2)
  | .alProtocolNegotiation => (readVec readLenU16 PayloadU8.read sub).map fun p =>
      (.protocols p.1, p.2)
  | .keyShare => (KeyShareEntry.read sub).map fun p => (.keyShare p.1, p.2)
  | .preSharedKey => (readU16 sub).map fun p => (.presharedKey p.1, p.2)
  | .extendedMasterSecret => some (.extendedMasterSecretAck, sub)
  | .sct => (readVec readLenU16 PayloadU16.read sub).map fun p =>
      (.signedCertificateTimestamp p.1, p.2)
  | .supportedVersions => (ProtocolVersion.read sub).map fun p => (.supportedVersions p.1, p.2)
  | .transportParameters => some (.transportParameters sub, [])
  | .transportParametersDraft => some (.transportParametersDraft sub, [])
  | .earlyData => some (.earlyData, sub)
  | _ => (UnknownExtension.read typ sub).map fun p => (.unknown p.1, p.2)

/-- `ServerExtension::read`. -/
def read : Bytes → Option (ServerExtension × Bytes) :=
  readTagged ExtensionType.read readLenU16 readBody

theorem readBody_reads : ReadsTagged readBody getType encodeBody := by
  intro t bs a rest h
  unfold readBody at h
  split at h
  · exact (readLenU8_reads.vec ECPointFormat.read_reads).tagged_map h fun _ => ⟨rfl, rfl, rfl⟩
  · exact ReadsTagged.of_some h rfl rfl
  · exact ReadsTagged.of_some h rfl rfl
  · exact ReadsTagged.of_some h rfl rfl
  · exact PayloadU8.read_reads.tagged_map h fun _ => ⟨rfl, rfl, rfl⟩
  · exact (readLenU16_reads.vec PayloadU8.read_reads).tagged_map h fun _ => ⟨rfl, rfl, rfl⟩
  · exact KeyShareEntry.read_reads.tagged_map h fun _ => ⟨rfl, rfl, rfl⟩
  · exact readU16_reads.tagged_map h fun _ => ⟨rfl, rfl, rfl⟩
  · exact ReadsTagged.of_some h rfl rfl
  · exact (readLenU16_reads.vec PayloadU16.read_reads).tagged_map h fun _ => ⟨rfl, rfl, rfl⟩
  · exact ProtocolVersion.read_reads.tagged_map h fun _ => ⟨rfl, rfl, rfl⟩
  · exact ReadsTagged.of_some h rfl (List.append_nil _).symm
  · exact ReadsTagged.of_some h rfl (List.append_nil _).symm
  · exact ReadsTagged.of_some h rfl rfl
  · obtain ⟨rfl, rfl⟩ := UnknownExtension.read_map h
    exact ⟨rfl, (List.append_nil _).symm⟩

theorem read_reads : ReadsEncoding read encode :=
  ExtensionType.read_reads.tagged readLenU16_reads readBody_reads

end ServerExtension

/-! ### HelloRetryRequest extensions -/

/-- `HelloRetryExtension`. -/
inductive HelloRetryExtension
  | keyShare (r : NamedGroup)
  | cookie (r : PayloadU16)
  | supportedVersions (r : ProtocolVersion)
  | unknown (r : UnknownExtension)
  deriving DecidableEq, Repr

namespace HelloRetryExtension

/-- `HelloRetryExtension::get_type`. -/
def getType : HelloRetryExtension → ExtensionType
  | .keyShare _ => .keyShare
  | .cookie _ => .cookie
  | .supportedVersions _ => .supportedVersions
  | .unknown r => r.typ

/-- The body of `HelloRetryExtension::encode`. -/
def encodeBody : HelloRetryExtension → Bytes
  | .keyShare r => NamedGroup.encode r
  | .cookie r => r.encode
  | .supportedVersions r => ProtocolVersion.encode r
  | .unknown r => r.encode

/-- `HelloRetryExtension::encode`. -/
def encode : HelloRetryExtension → Bytes :=
  encodeTagged ExtensionType.encode encodeLenU16 getType encodeBody

/-- The body of `HelloRetryExtension::read`. -/
def readBody (typ : ExtensionType) (sub : Bytes) : Option (HelloRetryExtension × Bytes) :=
  match typ with
  | .keyShare => (NamedGroup.read sub).map fun p => (.keyShare p.1, p.2)
  | .cookie => (PayloadU16.read sub).map fun p => (.cookie p.1, p.2)
  | .supportedVersions => (ProtocolVersion.read sub).map fun p => (.supportedVersions p.1, p.2)
  | _ => (UnknownExtension.read typ sub).map fun p => (.unknown p.1, p.2)

/-- `HelloRetryExtension::read`. -/
def read : Bytes → Option (HelloRetryExtension × Bytes) :=
  readTagged ExtensionType.read readLenU16 readBody

theorem readBody_reads : ReadsTagged readBody getType encodeBody := by
  intro t bs a rest h
  unfold readBody at h
  split at h
  · exact NamedGroup.read_reads.tagged_map h fun _ => ⟨rfl, rfl, rfl⟩
  · exact PayloadU16.read_reads.tagged_map h fun _ => ⟨rfl, rfl, rfl⟩
  · exact ProtocolVersion.read_reads.tagged_map h fun _ => ⟨rfl, rfl, rfl⟩
  · obtain ⟨rfl, rfl⟩ := UnknownExtension.read_map h
    exact ⟨rfl, (List.append_nil _).symm⟩

theorem read_reads : ReadsEncoding read encode :=
  ExtensionType.read_reads.tagged readLenU16_reads readBody_reads

end HelloRetryExtension

/-! ### TLS 1.3 certificate entry extensions -/

/-- `CertificateExtension`. -/
inductive CertificateExtension
  | certificateStatus (r : CertificateStatus)
  | signedCertificateTimestamp (r : List PayloadU16)
  | unknown (r : UnknownExtension)
  deriving DecidableEq, Repr

namespace CertificateExtension

/-- `CertificateExtension::get_type`. -/
def getType : CertificateExtension → ExtensionType
  | .certificateStatus _ => .statusRequest
  | .signedCertificateTimestamp _ => .sct
  | .unknown r => r.typ

/-- The body of `CertificateExtension::encode`. -/
def encodeBody : CertificateExtension → Bytes
  | .certificateStatus r => r.encode
  | .signedCertificateTimestamp r => encodeVec encodeLenU16 PayloadU16.encode r
  | .unknown r => r.encode

/-- `CertificateExtension::encode`. -/
def encode : CertificateExtension → Bytes :=
  encodeTagged ExtensionType.encode encodeLenU16 getType encodeBody

/-- The body of `CertificateExtension::read`. -/
def readBody (typ : ExtensionType) (sub : Bytes) : Option (CertificateExtension × Bytes) :=
  match typ with
  | .statusRequest => (CertificateStatus.read sub).map fun p => (.certificateStatus p.1, p.2)
  | .sct => (readVec readLenU16 PayloadU16.read sub).map fun p =>
      (.signedCertificateTimestamp p.1, p.2)
  | _ => (UnknownExtension.read typ sub).map fun p => (.unknown p.1, p.2)

/-- `CertificateExtension::read`. -/
def read : Bytes → Option (CertificateExtension × Bytes) :=
  readTagged ExtensionType.read readLenU16 readBody

theorem readBody_reads : ReadsTagged readBody getType encodeBody := by
  intro t bs a rest h
  unfold readBody at h
  split at h
  · exact CertificateStatus.read_reads.tagged_map h fun _ => ⟨rfl, rfl, rfl⟩
  · exact (readLenU16_reads.vec PayloadU16.read_reads).tagged_map h fun _ => ⟨rfl, rfl, rfl⟩
  · obtain ⟨rfl, rfl⟩ := UnknownExtension.read_map h
    exact ⟨rfl, (List.append_nil _).symm⟩

theorem read_reads : ReadsEncoding read encode :=
  ExtensionType.read_reads.tagged readLenU16_reads readBody_reads

end CertificateExtension

/-! ### TLS 1.3 CertificateRequest extensions -/

/-- `CertReqExtension`. -/
inductive CertReqExtension
  | signatureAlgorithms (r : List SignatureScheme)
  | authorityNames (r : List PayloadU16)
  | unknown (r : UnknownExtension)
  deriving DecidableEq, Repr

namespace CertReqExtension

/-- `CertReqExtension::get_type`. -/
def getType : CertReqExtension → ExtensionType
  | .signatureAlgorithms _ => .signatureAlgorithms
  | .authorityNames _ => .certificateAuthorities
  | .unknown r => r.typ

/-- The body of `CertReqExtension::encode`. -/
def encodeBody : CertReqExtension → Bytes
  | .signatureAlgorithms r => encodeVec encodeLenU16 SignatureScheme.encode r
  | .authorityNames r => encodeVec encodeLenU16 PayloadU16.encode r
  | .unknown r => r.encode

/-- `CertReqExtension::encode`. -/
def encode : CertReqExtension → Bytes :=
  encodeTagged ExtensionType.encode encodeLenU16 getType encodeBody

/-- The signature schemes of `CertReqExtension::read`: an empty list is refused. -/
def readSignatureAlgorithms (sub : Bytes) : Option (CertReqExtension × Bytes) := do
  let (schemes, r) ← readVec readLenU16 SignatureScheme.read sub
  if schemes.isEmpty then none else some (.signatureAlgorithms schemes, r)

/-- The body of `CertReqExtension::read`. -/
def readBody (typ : ExtensionType) (sub : Bytes) : Option (CertReqExtension × Bytes) :=
  match typ with
  | .signatureAlgorithms => readSignatureAlgorithms sub
  | .certificateAuthorities => (readVec readLenU16 PayloadU16.read sub).map fun p =>
      (.authorityNames p.1, p.2)
  | _ => (UnknownExtension.read typ sub).map fun p => (.unknown p.1, p.2)

/-- `CertReqExtension::read`. -/
def read : Bytes → Option (CertReqExtension × Bytes) :=
  readTagged ExtensionType.read readLenU16 readBody

theorem readBody_reads : ReadsTagged readBody getType encodeBody := by
  intro t bs a rest h
  unfold readBody at h
  split at h
  · obtain ⟨schemes, r, rfl, hk⟩ :=
      (readLenU16_reads.vec SignatureScheme.read_reads).bind_eq_some h
    dsimp only at hk
    split_ifs at hk
    exact ReadsTagged.of_some hk rfl rfl
  · exact (readLenU16_reads.vec PayloadU16.read_reads).tagged_map h fun _ => ⟨rfl, rfl, rfl⟩
  · obtain ⟨rfl, rfl⟩ := UnknownExtension.read_map h
    exact ⟨rfl, (List.append_nil _).symm⟩

theorem read_reads : ReadsEncoding read encode :=
  ExtensionType.read_reads.tagged readLenU16_reads readBody_reads

end CertReqExtension

/-! ### TLS 1.3 NewSessionTicket extensions -/

/-- `NewSessionTicketExtension`. -/
inductive NewSessionTicketExtension
  | earlyData (r : UInt32)
  | unknown (r : UnknownExtension)
  deriving DecidableEq, Repr

namespace NewSessionTicketExtension

/-- `NewSessionTicketExtension::get_type`. -/
def getType : NewSessionTicketExtension → ExtensionType
  | .earlyData _ => .earlyData
  | .unknown r => r.typ

/-- The body of `NewSessionTicketExtension::encode`. -/
def encodeBody : NewSessionTicketExtension → Bytes
  | .earlyData r => encodeU32 r
  | .unknown r => r.encode

/-- `NewSessionTicketExtension::encode`. -/
def encode : NewSessionTicketExtension → Bytes :=
  encodeTagged ExtensionType.encode encodeLenU16 getType encodeBody

/-- The body of `NewSessionTicketExtension::read`. -/
def readBody (typ : ExtensionType) (sub : Bytes) : Option (NewSessionTicketExtension × Bytes) :=
  match typ with
  | .earlyData => (readU32 sub).map fun p => (.earlyData p.1, p.2)
  | _ => (UnknownExtension.read typ sub).map fun p => (.unknown p.1, p.2)

/-- `NewSessionTicketExtension::read`. -/
def read : Bytes → Option (NewSessionTicketExtension × Bytes) :=
  readTagged ExtensionType.read readLenU16 readBody

theorem readBody_reads : ReadsTagged readBody getType encodeBody := by
  intro t bs a rest h
  unfold readBody at h
  split at h
  · exact readU32_reads.tagged_map h fun _ => ⟨rfl, rfl, rfl⟩
  · obtain ⟨rfl, rfl⟩ := UnknownExtension.read_map h
    exact ⟨rfl, (List.append_nil _).symm⟩

theorem read_reads : ReadsEncoding read encode :=
  ExtensionType.read_reads.tagged readLenU16_reads readBody_reads

end NewSessionTicketExtension

end Tlsn.Tls.Handshake
