import Tlsn.Tls.Extensions

/-!
# Handshake messages (`tls-core/src/msgs/handshake.rs`, `tls-client/src/hash_hs.rs`)

The payloads of the handshake messages and `HandshakeMessagePayload`, a handshake type, a `u24`
length and a body the type (and, for the certificate, certificate request and session ticket
messages, the protocol version) chooses how to read. A ServerHello whose random is the
HelloRetryRequest random is read as a HelloRetryRequest, and encoded again under the ServerHello
type.

Every reader reads only the encoding of what it returned (`HandshakeMessagePayload.readVersion_reads`):
a message read from bytes with none left re-encodes to those bytes. The handshake hash takes the
encoding of each message, not the bytes received (`HandshakeHashBuffer.addMessage`), so the bytes it
hashes are the bytes received (`addMessages_buffer`).
-/

namespace Tlsn.Tls

open Codec

/-- `Certificate::read` (`msgs/base.rs`): the bytes after their length as a `u24`. -/
def Certificate.read (r : Bytes) : Option (Certificate × Bytes) :=
  (readBlock readU24 r).map fun p => (⟨p.1⟩, p.2)

/-- `Certificate::encode`. -/
def Certificate.encode (c : Certificate) : Bytes := encodeU24 c.bytes.length ++ c.bytes

theorem Certificate.read_reads : ReadsEncoding read encode := readU24_reads.block.map fun _ => rfl

/-- `DigitallySignedStruct::read`. -/
def DigitallySignedStruct.read (r : Bytes) : Option (DigitallySignedStruct × Bytes) := do
  let (scheme, r) ← SignatureScheme.read r
  let (sig, r) ← PayloadU16.read r
  some (⟨scheme, sig⟩, r)

/-- `DigitallySignedStruct::encode`. -/
def DigitallySignedStruct.encode (d : DigitallySignedStruct) : Bytes :=
  SignatureScheme.encode d.scheme ++ d.sig.encode

theorem DigitallySignedStruct.read_reads : ReadsEncoding read encode := by
  intro bs d rest hr
  obtain ⟨scheme, r, rfl, hk₁⟩ := SignatureScheme.read_reads.bind_eq_some hr
  obtain ⟨sig, r', rfl, hk₂⟩ := PayloadU16.read_reads.bind_eq_some hk₁
  simp only [Option.some.injEq, Prod.mk.injEq] at hk₂
  obtain ⟨rfl, rfl⟩ := hk₂
  simp [encode]

namespace Handshake

/-! ### Hello messages -/

/-- `HELLO_RETRY_REQUEST_RANDOM`. -/
def helloRetryRequestRandom : Random :=
  ⟨[0xcf, 0x21, 0xad, 0x74, 0xe5, 0x9a, 0x61, 0x11, 0xbe, 0x1d, 0x8c, 0x02, 0x1e, 0x65, 0xb8, 0x91,
    0xc2, 0xa2, 0x11, 0x16, 0x7a, 0xbb, 0x8c, 0x5e, 0x07, 0x9e, 0x09, 0xe2, 0xc8, 0xa8, 0x33, 0x9c],
    rfl⟩

/-- `ZERO_RANDOM`. -/
def zeroRandom : Random := ⟨List.replicate 32 0, rfl⟩

/-- `ClientHelloPayload`. -/
structure ClientHelloPayload where
  clientVersion : ProtocolVersion
  random : Random
  sessionId : SessionID
  cipherSuites : List CipherSuite
  compressionMethods : List Compression
  extensions : List ClientExtension
  deriving DecidableEq

namespace ClientHelloPayload

section DnsName

variable (isDnsName : Bytes → Bool)

/-- The extensions of `ClientHelloPayload::read`: none when no byte is left. -/
def readExtensions (r : Bytes) : Option (List ClientExtension × Bytes) :=
  if r = [] then some ([], r) else readVec readLenU16 (ClientExtension.read isDnsName) r

/-- `ClientHelloPayload::read`: a hello without extensions, or with bytes after them, is refused. -/
def read (r : Bytes) : Option (ClientHelloPayload × Bytes) := do
  let (clientVersion, r) ← ProtocolVersion.read r
  let (random, r) ← Random.read r
  let (sessionId, r) ← SessionID.read r
  let (cipherSuites, r) ← readVec readLenU16 CipherSuite.read r
  let (compressionMethods, r) ← readVec readLenU8 Compression.read r
  let (extensions, r) ← readExtensions isDnsName r
  if r ≠ [] ∨ extensions.isEmpty then none
  else some (⟨clientVersion, random, sessionId, cipherSuites, compressionMethods, extensions⟩, r)

end DnsName

/-- `ClientHelloPayload::encode`: the extensions are written when there are some. -/
def encode (c : ClientHelloPayload) : Bytes :=
  ProtocolVersion.encode c.clientVersion ++ c.random.encode ++ c.sessionId.encode ++
    encodeVec encodeLenU16 CipherSuite.encode c.cipherSuites ++
    encodeVec encodeLenU8 Compression.encode c.compressionMethods ++
    if c.extensions.isEmpty then [] else encodeVec encodeLenU16 ClientExtension.encode c.extensions

/-- Extensions read as a block, when some bytes are left, are the block's encoding. -/
theorem readExtensions_reads (isDnsName : Bytes → Bool) {bs : Bytes}
    {exts : List ClientExtension} {rest : Bytes}
    (h : readExtensions isDnsName bs = some (exts, rest)) (hne : exts ≠ []) :
    bs = encodeVec encodeLenU16 ClientExtension.encode exts ++ rest := by
  unfold readExtensions at h
  split_ifs at h
  · simp only [Option.some.injEq, Prod.mk.injEq] at h
    exact absurd h.1.symm hne
  · exact readLenU16_reads.vec (ClientExtension.read_reads isDnsName) h

theorem read_reads (isDnsName : Bytes → Bool) : ReadsEncoding (read isDnsName) encode := by
  intro bs c rest hr
  obtain ⟨v, r₁, rfl, hk₁⟩ := ProtocolVersion.read_reads.bind_eq_some hr
  obtain ⟨random, r₂, rfl, hk₂⟩ := Random.read_reads.bind_eq_some hk₁
  obtain ⟨sid, r₃, rfl, hk₃⟩ := SessionID.read_reads.bind_eq_some hk₂
  obtain ⟨suites, r₄, rfl, hk₄⟩ := (readLenU16_reads.vec CipherSuite.read_reads).bind_eq_some hk₃
  obtain ⟨comps, r₅, rfl, hk₅⟩ := (readLenU8_reads.vec Compression.read_reads).bind_eq_some hk₄
  obtain ⟨⟨exts, r₆⟩, hexts, hk₆⟩ := Option.bind_eq_some_iff.1 hk₅
  dsimp only at hk₆
  split_ifs at hk₆ with hleft
  simp only [Option.some.injEq, Prod.mk.injEq] at hk₆
  obtain ⟨rfl, rfl⟩ := hk₆
  -- the read ends with a non-empty block of extensions, which the encoder writes
  have ⟨hr₆, hne⟩ : r₆ = [] ∧ exts ≠ [] := by simpa using hleft
  rw [readExtensions_reads isDnsName hexts hne, hr₆]
  simp [encode, List.isEmpty_iff, hne]

end ClientHelloPayload

/-- `HelloRetryRequest`. -/
structure HelloRetryRequest where
  legacyVersion : ProtocolVersion
  sessionId : SessionID
  cipherSuite : CipherSuite
  extensions : List HelloRetryExtension
  deriving DecidableEq

namespace HelloRetryRequest

/-- `HelloRetryRequest::read`: after the version and the random, which the caller has read; only the
null compression is read. -/
def read (r : Bytes) : Option (HelloRetryRequest × Bytes) := do
  let (sessionId, r) ← SessionID.read r
  let (cipherSuite, r) ← CipherSuite.read r
  let (compression, r) ← Compression.read r
  if compression ≠ .null then none
  else
    let (extensions, r) ← readVec readLenU16 HelloRetryExtension.read r
    some (⟨.unknown 0, sessionId, cipherSuite, extensions⟩, r)

/-- `HelloRetryRequest::encode`: the random is the HelloRetryRequest random, the compression null. -/
def encode (h : HelloRetryRequest) : Bytes :=
  ProtocolVersion.encode h.legacyVersion ++ helloRetryRequestRandom.encode ++ h.sessionId.encode ++
    h.cipherSuite.encode ++ Compression.encode .null ++
    encodeVec encodeLenU16 HelloRetryExtension.encode h.extensions

/-- A request read after a version and the HelloRetryRequest random encodes, under that version,
to what was read. -/
theorem read_encode {bs : Bytes} {h : HelloRetryRequest} {rest : Bytes}
    (hr : read bs = some (h, rest)) (version : ProtocolVersion) :
    ProtocolVersion.encode version ++ helloRetryRequestRandom.encode ++ bs =
      encode { h with legacyVersion := version } ++ rest := by
  obtain ⟨sid, r₁, rfl, hk₁⟩ := SessionID.read_reads.bind_eq_some hr
  obtain ⟨suite, r₂, rfl, hk₂⟩ := CipherSuite.read_reads.bind_eq_some hk₁
  obtain ⟨comp, r₃, rfl, hk₃⟩ := Compression.read_reads.bind_eq_some hk₂
  dsimp only at hk₃
  split_ifs at hk₃ with hcomp
  obtain ⟨exts, r₄, rfl, hk₄⟩ :=
    (readLenU16_reads.vec HelloRetryExtension.read_reads).bind_eq_some hk₃
  simp only [Option.some.injEq, Prod.mk.injEq] at hk₄
  obtain ⟨rfl, rfl⟩ := hk₄
  simp only [ne_eq, not_not] at hcomp
  subst hcomp
  simp [encode]

end HelloRetryRequest

/-- `ServerHelloPayload`. -/
structure ServerHelloPayload where
  legacyVersion : ProtocolVersion
  random : Random
  sessionId : SessionID
  cipherSuite : CipherSuite
  compressionMethod : Compression
  extensions : List ServerExtension
  deriving DecidableEq

namespace ServerHelloPayload

/-- `ServerHelloPayload::read`: after the version and the random, which the caller has read and
sets. -/
def read (r : Bytes) : Option (ServerHelloPayload × Bytes) := do
  let (sessionId, r) ← SessionID.read r
  let (cipherSuite, r) ← CipherSuite.read r
  let (compressionMethod, r) ← Compression.read r
  let (extensions, r) ← readVec readLenU16 ServerExtension.read r
  if r ≠ [] then none
  else some (⟨.unknown 0, zeroRandom, sessionId, cipherSuite, compressionMethod, extensions⟩, r)

/-- `ServerHelloPayload::encode`. -/
def encode (s : ServerHelloPayload) : Bytes :=
  ProtocolVersion.encode s.legacyVersion ++ s.random.encode ++ s.sessionId.encode ++
    s.cipherSuite.encode ++ Compression.encode s.compressionMethod ++
    encodeVec encodeLenU16 ServerExtension.encode s.extensions

/-- A hello read after a version and a random encodes, under them, to what was read. -/
theorem read_encode {bs : Bytes} {s : ServerHelloPayload} {rest : Bytes}
    (hr : read bs = some (s, rest)) (version : ProtocolVersion) (random : Random) :
    ProtocolVersion.encode version ++ random.encode ++ bs =
      encode { s with legacyVersion := version, random } ++ rest := by
  obtain ⟨sid, r₁, rfl, hk₁⟩ := SessionID.read_reads.bind_eq_some hr
  obtain ⟨suite, r₂, rfl, hk₂⟩ := CipherSuite.read_reads.bind_eq_some hk₁
  obtain ⟨comp, r₃, rfl, hk₃⟩ := Compression.read_reads.bind_eq_some hk₂
  obtain ⟨exts, r₄, rfl, hk₄⟩ := (readLenU16_reads.vec ServerExtension.read_reads).bind_eq_some hk₃
  dsimp only at hk₄
  split_ifs at hk₄
  simp only [Option.some.injEq, Prod.mk.injEq] at hk₄
  obtain ⟨rfl, rfl⟩ := hk₄
  simp [encode]

end ServerHelloPayload

/-! ### Certificates and key exchange -/

/-- `CertificatePayload::read`: at most `0x10000` bytes of certificates. -/
def readCertificatePayload : Bytes → Option (List Certificate × Bytes) :=
  readVec (readLenAtMost 0x10000 readU24) Certificate.read

/-- `CertificatePayload::encode`. -/
def encodeCertificatePayload : List Certificate → Bytes := encodeVec encodeU24 Certificate.encode

theorem readCertificatePayload_reads :
    ReadsEncoding readCertificatePayload encodeCertificatePayload :=
  (readU24_reads.atMost _).vec Certificate.read_reads

/-- `CertificateEntry`. -/
structure CertificateEntry where
  cert : Certificate
  exts : List CertificateExtension
  deriving DecidableEq, Repr

namespace CertificateEntry

/-- `CertificateEntry::read`. -/
def read (r : Bytes) : Option (CertificateEntry × Bytes) := do
  let (cert, r) ← Certificate.read r
  let (exts, r) ← readVec readLenU16 CertificateExtension.read r
  some (⟨cert, exts⟩, r)

/-- `CertificateEntry::encode`. -/
def encode (e : CertificateEntry) : Bytes :=
  e.cert.encode ++ encodeVec encodeLenU16 CertificateExtension.encode e.exts

theorem read_reads : ReadsEncoding read encode := by
  intro bs e rest hr
  obtain ⟨cert, r, rfl, hk₁⟩ := Certificate.read_reads.bind_eq_some hr
  obtain ⟨exts, r', rfl, hk₂⟩ :=
    (readLenU16_reads.vec CertificateExtension.read_reads).bind_eq_some hk₁
  simp only [Option.some.injEq, Prod.mk.injEq] at hk₂
  obtain ⟨rfl, rfl⟩ := hk₂
  simp [encode]

end CertificateEntry

/-- `CertificatePayloadTLS13`. -/
structure CertificatePayloadTLS13 where
  context : PayloadU8
  entries : List CertificateEntry
  deriving DecidableEq, Repr

namespace CertificatePayloadTLS13

/-- `CertificatePayloadTLS13::read`. -/
def read (r : Bytes) : Option (CertificatePayloadTLS13 × Bytes) := do
  let (context, r) ← PayloadU8.read r
  let (entries, r) ← readVec (readLenAtMost 0x10000 readU24) CertificateEntry.read r
  some (⟨context, entries⟩, r)

/-- `CertificatePayloadTLS13::encode`. -/
def encode (c : CertificatePayloadTLS13) : Bytes :=
  c.context.encode ++ encodeVec encodeU24 CertificateEntry.encode c.entries

theorem read_reads : ReadsEncoding read encode := by
  intro bs c rest hr
  obtain ⟨context, r, rfl, hk₁⟩ := PayloadU8.read_reads.bind_eq_some hr
  obtain ⟨entries, r', rfl, hk₂⟩ :=
    ((readU24_reads.atMost _).vec CertificateEntry.read_reads).bind_eq_some hk₁
  simp only [Option.some.injEq, Prod.mk.injEq] at hk₂
  obtain ⟨rfl, rfl⟩ := hk₂
  simp [encode]

end CertificatePayloadTLS13

/-- `ECDHEServerKeyExchange`. -/
structure ECDHEServerKeyExchange where
  params : ServerECDHParams
  dss : DigitallySignedStruct
  deriving DecidableEq, Repr

/-- `ServerKeyExchangePayload`: read whole, and decoded later for the key exchange in use. -/
inductive ServerKeyExchangePayload
  | ecdhe (x : ECDHEServerKeyExchange)
  | unknown (x : Payload)
  deriving DecidableEq, Repr

namespace ServerKeyExchangePayload

/-- `ServerKeyExchangePayload::read`. -/
def read (r : Bytes) : Option (ServerKeyExchangePayload × Bytes) :=
  (Payload.read r).map fun p => (.unknown p.1, p.2)

/-- `ServerKeyExchangePayload::encode`. -/
def encode : ServerKeyExchangePayload → Bytes
  | .ecdhe x => x.params.encode ++ x.dss.encode
  | .unknown x => x.encode

theorem read_reads : ReadsEncoding read encode := by
  intro bs s rest hr
  obtain ⟨p, rfl, rfl⟩ := Payload.read_reads.map_eq_some hr
  rfl

end ServerKeyExchangePayload

/-! ### Certificate requests and session tickets -/

/-- `CertificateRequestPayload`. -/
structure CertificateRequestPayload where
  certtypes : List ClientCertificateType
  sigschemes : List SignatureScheme
  canames : List PayloadU16
  deriving DecidableEq, Repr

namespace CertificateRequestPayload

/-- `CertificateRequestPayload::read`: a request with no signature scheme is refused. -/
def read (r : Bytes) : Option (CertificateRequestPayload × Bytes) := do
  let (certtypes, r) ← readVec readLenU8 ClientCertificateType.read r
  let (sigschemes, r) ← readVec readLenU16 SignatureScheme.read r
  let (canames, r) ← readVec readLenU16 PayloadU16.read r
  if sigschemes.isEmpty then none else some (⟨certtypes, sigschemes, canames⟩, r)

/-- `CertificateRequestPayload::encode`. -/
def encode (c : CertificateRequestPayload) : Bytes :=
  encodeVec encodeLenU8 ClientCertificateType.encode c.certtypes ++
    encodeVec encodeLenU16 SignatureScheme.encode c.sigschemes ++
    encodeVec encodeLenU16 PayloadU16.encode c.canames

theorem read_reads : ReadsEncoding read encode := by
  intro bs c rest hr
  obtain ⟨certtypes, r₁, rfl, hk₁⟩ :=
    (readLenU8_reads.vec ClientCertificateType.read_reads).bind_eq_some hr
  obtain ⟨sigschemes, r₂, rfl, hk₂⟩ :=
    (readLenU16_reads.vec SignatureScheme.read_reads).bind_eq_some hk₁
  obtain ⟨canames, r₃, rfl, hk₃⟩ := (readLenU16_reads.vec PayloadU16.read_reads).bind_eq_some hk₂
  dsimp only at hk₃
  split_ifs at hk₃
  simp only [Option.some.injEq, Prod.mk.injEq] at hk₃
  obtain ⟨rfl, rfl⟩ := hk₃
  simp [encode]

end CertificateRequestPayload

/-- `CertificateRequestPayloadTLS13`. -/
structure CertificateRequestPayloadTLS13 where
  context : PayloadU8
  extensions : List CertReqExtension
  deriving DecidableEq, Repr

namespace CertificateRequestPayloadTLS13

/-- `CertificateRequestPayloadTLS13::read`. -/
def read (r : Bytes) : Option (CertificateRequestPayloadTLS13 × Bytes) := do
  let (context, r) ← PayloadU8.read r
  let (extensions, r) ← readVec readLenU16 CertReqExtension.read r
  some (⟨context, extensions⟩, r)

/-- `CertificateRequestPayloadTLS13::encode`. -/
def encode (c : CertificateRequestPayloadTLS13) : Bytes :=
  c.context.encode ++ encodeVec encodeLenU16 CertReqExtension.encode c.extensions

theorem read_reads : ReadsEncoding read encode := by
  intro bs c rest hr
  obtain ⟨context, r, rfl, hk₁⟩ := PayloadU8.read_reads.bind_eq_some hr
  obtain ⟨exts, r', rfl, hk₂⟩ := (readLenU16_reads.vec CertReqExtension.read_reads).bind_eq_some hk₁
  simp only [Option.some.injEq, Prod.mk.injEq] at hk₂
  obtain ⟨rfl, rfl⟩ := hk₂
  simp [encode]

end CertificateRequestPayloadTLS13

/-- `NewSessionTicketPayload`. -/
structure NewSessionTicketPayload where
  lifetimeHint : UInt32
  ticket : PayloadU16
  deriving DecidableEq, Repr

namespace NewSessionTicketPayload

/-- `NewSessionTicketPayload::read`. -/
def read (r : Bytes) : Option (NewSessionTicketPayload × Bytes) := do
  let (lifetimeHint, r) ← readU32 r
  let (ticket, r) ← PayloadU16.read r
  some (⟨lifetimeHint, ticket⟩, r)

/-- `NewSessionTicketPayload::encode`. -/
def encode (n : NewSessionTicketPayload) : Bytes := encodeU32 n.lifetimeHint ++ n.ticket.encode

theorem read_reads : ReadsEncoding read encode := by
  intro bs n rest hr
  obtain ⟨lifetime, r, rfl, hk₁⟩ := readU32_reads.bind_eq_some hr
  obtain ⟨ticket, r', rfl, hk₂⟩ := PayloadU16.read_reads.bind_eq_some hk₁
  simp only [Option.some.injEq, Prod.mk.injEq] at hk₂
  obtain ⟨rfl, rfl⟩ := hk₂
  simp [encode]

end NewSessionTicketPayload

/-- `NewSessionTicketPayloadTLS13`. -/
structure NewSessionTicketPayloadTLS13 where
  lifetime : UInt32
  ageAdd : UInt32
  nonce : PayloadU8
  ticket : PayloadU16
  exts : List NewSessionTicketExtension
  deriving DecidableEq, Repr

namespace NewSessionTicketPayloadTLS13

/-- `NewSessionTicketPayloadTLS13::read`. -/
def read (r : Bytes) : Option (NewSessionTicketPayloadTLS13 × Bytes) := do
  let (lifetime, r) ← readU32 r
  let (ageAdd, r) ← readU32 r
  let (nonce, r) ← PayloadU8.read r
  let (ticket, r) ← PayloadU16.read r
  let (exts, r) ← readVec readLenU16 NewSessionTicketExtension.read r
  some (⟨lifetime, ageAdd, nonce, ticket, exts⟩, r)

/-- `NewSessionTicketPayloadTLS13::encode`. -/
def encode (n : NewSessionTicketPayloadTLS13) : Bytes :=
  encodeU32 n.lifetime ++ encodeU32 n.ageAdd ++ n.nonce.encode ++ n.ticket.encode ++
    encodeVec encodeLenU16 NewSessionTicketExtension.encode n.exts

theorem read_reads : ReadsEncoding read encode := by
  intro bs n rest hr
  obtain ⟨lifetime, r₁, rfl, hk₁⟩ := readU32_reads.bind_eq_some hr
  obtain ⟨ageAdd, r₂, rfl, hk₂⟩ := readU32_reads.bind_eq_some hk₁
  obtain ⟨nonce, r₃, rfl, hk₃⟩ := PayloadU8.read_reads.bind_eq_some hk₂
  obtain ⟨ticket, r₄, rfl, hk₄⟩ := PayloadU16.read_reads.bind_eq_some hk₃
  obtain ⟨exts, r₅, rfl, hk₅⟩ :=
    (readLenU16_reads.vec NewSessionTicketExtension.read_reads).bind_eq_some hk₄
  simp only [Option.some.injEq, Prod.mk.injEq] at hk₅
  obtain ⟨rfl, rfl⟩ := hk₅
  simp [encode]

end NewSessionTicketPayloadTLS13

/-! ### Handshake messages -/

/-- `HandshakePayload`. -/
inductive HandshakePayload
  | helloRequest
  | clientHello (x : ClientHelloPayload)
  | serverHello (x : ServerHelloPayload)
  | helloRetryRequest (x : HelloRetryRequest)
  | certificate (x : List Certificate)
  | certificateTLS13 (x : CertificatePayloadTLS13)
  | serverKeyExchange (x : ServerKeyExchangePayload)
  | certificateRequest (x : CertificateRequestPayload)
  | certificateRequestTLS13 (x : CertificateRequestPayloadTLS13)
  | certificateVerify (x : DigitallySignedStruct)
  | serverHelloDone
  | endOfEarlyData
  | clientKeyExchange (x : Payload)
  | newSessionTicket (x : NewSessionTicketPayload)
  | newSessionTicketTLS13 (x : NewSessionTicketPayloadTLS13)
  | encryptedExtensions (x : List ServerExtension)
  | keyUpdate (x : KeyUpdateRequest)
  | finished (x : Payload)
  | certificateStatus (x : CertificateStatus)
  | messageHash (x : Payload)
  | unknown (x : Payload)
  deriving DecidableEq

/-- `HandshakePayload::encode`. -/
def HandshakePayload.encode : HandshakePayload → Bytes
  | .helloRequest | .serverHelloDone | .endOfEarlyData => []
  | .clientHello x => x.encode
  | .serverHello x => x.encode
  | .helloRetryRequest x => x.encode
  | .certificate x => encodeCertificatePayload x
  | .certificateTLS13 x => x.encode
  | .serverKeyExchange x => x.encode
  | .clientKeyExchange x => x.encode
  | .certificateRequest x => x.encode
  | .certificateRequestTLS13 x => x.encode
  | .certificateVerify x => x.encode
  | .newSessionTicket x => x.encode
  | .newSessionTicketTLS13 x => x.encode
  | .encryptedExtensions x => encodeVec encodeLenU16 ServerExtension.encode x
  | .keyUpdate x => KeyUpdateRequest.encode x
  | .finished x => x.encode
  | .certificateStatus x => x.encode
  | .messageHash x => x.encode
  | .unknown x => x.encode

/-- `HandshakeMessagePayload`. -/
structure HandshakeMessagePayload where
  typ : HandshakeType
  payload : HandshakePayload
  deriving DecidableEq

namespace HandshakeMessagePayload

/-- The type `HandshakeMessagePayload::encode` writes: a HelloRetryRequest goes as a ServerHello. -/
def wireType (m : HandshakeMessagePayload) : HandshakeType :=
  match m.typ with
  | .helloRetryRequest => .serverHello
  | typ => typ

/-- The body of `HandshakeMessagePayload::encode`: the payload's encoding. -/
def encodeBody (m : HandshakeMessagePayload) : Bytes := m.payload.encode

/-- `HandshakeMessagePayload::encode`: the type, the payload's length as a `u24`, the payload. -/
def encode : HandshakeMessagePayload → Bytes :=
  encodeTagged HandshakeType.encode encodeU24 wireType encodeBody

/-- `Codec::get_encoding`. -/
def getEncoding (m : HandshakeMessagePayload) : Bytes := m.encode

/-- A ServerHello body: a HelloRetryRequest when its random is the HelloRetryRequest random. -/
def readServerHello (sub : Bytes) : Option (HandshakeMessagePayload × Bytes) := do
  let (version, r) ← ProtocolVersion.read sub
  let (random, r) ← Random.read r
  if random = helloRetryRequestRandom then
    let (hrr, r) ← HelloRetryRequest.read r
    some (⟨.helloRetryRequest, .helloRetryRequest { hrr with legacyVersion := version }⟩, r)
  else
    let (shp, r) ← ServerHelloPayload.read r
    some (⟨.serverHello, .serverHello { shp with legacyVersion := version, random }⟩, r)

/-- A body of a type not read otherwise: `HandshakePayload::Unknown`, the type kept. -/
def readUnknown (typ : HandshakeType) (sub : Bytes) : Option (HandshakeMessagePayload × Bytes) :=
  (Payload.read sub).map fun p => (⟨typ, .unknown p.1⟩, p.2)

section DnsName

variable (isDnsName : Bytes → Bool)

/-- The body of `HandshakeMessagePayload::read_version`, chosen by the type and the version; the
types that do not appear on the wire are refused. -/
def readBody (vers : ProtocolVersion) (typ : HandshakeType) (sub : Bytes) :
    Option (HandshakeMessagePayload × Bytes) :=
  match typ with
  | .helloRequest => if sub = [] then some (⟨.helloRequest, .helloRequest⟩, sub)
      else readUnknown typ sub
  | .clientHello => (ClientHelloPayload.read isDnsName sub).map fun p =>
      (⟨.clientHello, .clientHello p.1⟩, p.2)
  | .serverHello => readServerHello sub
  | .certificate =>
    if vers = .tlsv1_3 then (CertificatePayloadTLS13.read sub).map fun p =>
      (⟨.certificate, .certificateTLS13 p.1⟩, p.2)
    else (readCertificatePayload sub).map fun p => (⟨.certificate, .certificate p.1⟩, p.2)
  | .serverKeyExchange => (ServerKeyExchangePayload.read sub).map fun p =>
      (⟨.serverKeyExchange, .serverKeyExchange p.1⟩, p.2)
  | .serverHelloDone => if sub ≠ [] then none else some (⟨.serverHelloDone, .serverHelloDone⟩, sub)
  | .clientKeyExchange => (Payload.read sub).map fun p =>
      (⟨.clientKeyExchange, .clientKeyExchange p.1⟩, p.2)
  | .certificateRequest =>
    if vers = .tlsv1_3 then (CertificateRequestPayloadTLS13.read sub).map fun p =>
      (⟨.certificateRequest, .certificateRequestTLS13 p.1⟩, p.2)
    else (CertificateRequestPayload.read sub).map fun p =>
      (⟨.certificateRequest, .certificateRequest p.1⟩, p.2)
  | .certificateVerify => (DigitallySignedStruct.read sub).map fun p =>
      (⟨.certificateVerify, .certificateVerify p.1⟩, p.2)
  | .newSessionTicket =>
    if vers = .tlsv1_3 then (NewSessionTicketPayloadTLS13.read sub).map fun p =>
      (⟨.newSessionTicket, .newSessionTicketTLS13 p.1⟩, p.2)
    else (NewSessionTicketPayload.read sub).map fun p =>
      (⟨.newSessionTicket, .newSessionTicket p.1⟩, p.2)
  | .encryptedExtensions => (readVec readLenU16 ServerExtension.read sub).map fun p =>
      (⟨.encryptedExtensions, .encryptedExtensions p.1⟩, p.2)
  | .keyUpdate => (KeyUpdateRequest.read sub).map fun p => (⟨.keyUpdate, .keyUpdate p.1⟩, p.2)
  | .endOfEarlyData => if sub ≠ [] then none else some (⟨.endOfEarlyData, .endOfEarlyData⟩, sub)
  | .finished => (Payload.read sub).map fun p => (⟨.finished, .finished p.1⟩, p.2)
  | .certificateStatus => (CertificateStatus.read sub).map fun p =>
      (⟨.certificateStatus, .certificateStatus p.1⟩, p.2)
  | .messageHash => none
  | .helloRetryRequest => none
  | _ => readUnknown typ sub

/-- `HandshakeMessagePayload::read_version`: a body with bytes left over is refused. -/
def readVersion (vers : ProtocolVersion) : Bytes → Option (HandshakeMessagePayload × Bytes) :=
  readTagged HandshakeType.read readU24 (readBody isDnsName vers)

/-- `HandshakeMessagePayload::read`: as a TLS 1.2 message. -/
def read : Bytes → Option (HandshakeMessagePayload × Bytes) := readVersion isDnsName .tlsv1_2

end DnsName

/-- A ServerHello body is the payload of a message sent under the ServerHello type. -/
theorem readServerHello_reads {bs : Bytes} {m : HandshakeMessagePayload} {rest : Bytes}
    (h : readServerHello bs = some (m, rest)) :
    m.wireType = .serverHello ∧ bs = m.encodeBody ++ rest := by
  obtain ⟨version, r₁, rfl, hk₁⟩ := ProtocolVersion.read_reads.bind_eq_some h
  obtain ⟨random, r₂, rfl, hk₂⟩ := Random.read_reads.bind_eq_some hk₁
  dsimp only at hk₂
  split_ifs at hk₂ with hrandom
  · -- the HelloRetryRequest random is the one the request encodes
    obtain ⟨⟨hrr, r₃⟩, hhrr, hk₃⟩ := Option.bind_eq_some_iff.1 hk₂
    simp only [Option.some.injEq, Prod.mk.injEq] at hk₃
    obtain ⟨rfl, rfl⟩ := hk₃
    subst hrandom
    refine ⟨rfl, ?_⟩
    simpa [encodeBody, HandshakePayload.encode, List.append_assoc] using
      HelloRetryRequest.read_encode hhrr version
  · obtain ⟨⟨shp, r₃⟩, hshp, hk₃⟩ := Option.bind_eq_some_iff.1 hk₂
    simp only [Option.some.injEq, Prod.mk.injEq] at hk₃
    obtain ⟨rfl, rfl⟩ := hk₃
    refine ⟨rfl, ?_⟩
    simpa [encodeBody, HandshakePayload.encode, List.append_assoc] using
      ServerHelloPayload.read_encode hshp version random

/-- A body of another type is that type's unknown payload. -/
theorem readUnknown_reads {typ : HandshakeType} (htyp : typ ≠ .helloRetryRequest) {bs : Bytes}
    {m : HandshakeMessagePayload} {rest : Bytes} (h : readUnknown typ bs = some (m, rest)) :
    m.wireType = typ ∧ bs = m.encodeBody ++ rest := by
  refine Payload.read_reads.tagged_map h fun _ => ⟨?_, rfl, rfl⟩
  cases typ <;> first | rfl | exact absurd rfl htyp

theorem readBody_reads (isDnsName : Bytes → Bool) (vers : ProtocolVersion) :
    ReadsTagged (readBody isDnsName vers) wireType encodeBody := by
  intro t bs m rest h
  unfold readBody at h
  split at h
  · split_ifs at h
    · exact ReadsTagged.of_some h rfl rfl
    · exact readUnknown_reads (by decide) h
  · exact (ClientHelloPayload.read_reads isDnsName).tagged_map h fun _ => ⟨rfl, rfl, rfl⟩
  · exact readServerHello_reads h
  · split_ifs at h
    · exact CertificatePayloadTLS13.read_reads.tagged_map h fun _ => ⟨rfl, rfl, rfl⟩
    · exact readCertificatePayload_reads.tagged_map h fun _ => ⟨rfl, rfl, rfl⟩
  · exact ServerKeyExchangePayload.read_reads.tagged_map h fun _ => ⟨rfl, rfl, rfl⟩
  · split_ifs at h
    exact ReadsTagged.of_some h rfl rfl
  · exact Payload.read_reads.tagged_map h fun _ => ⟨rfl, rfl, rfl⟩
  · split_ifs at h
    · exact CertificateRequestPayloadTLS13.read_reads.tagged_map h fun _ => ⟨rfl, rfl, rfl⟩
    · exact CertificateRequestPayload.read_reads.tagged_map h fun _ => ⟨rfl, rfl, rfl⟩
  · exact DigitallySignedStruct.read_reads.tagged_map h fun _ => ⟨rfl, rfl, rfl⟩
  · split_ifs at h
    · exact NewSessionTicketPayloadTLS13.read_reads.tagged_map h fun _ => ⟨rfl, rfl, rfl⟩
    · exact NewSessionTicketPayload.read_reads.tagged_map h fun _ => ⟨rfl, rfl, rfl⟩
  · exact (readLenU16_reads.vec ServerExtension.read_reads).tagged_map h
      fun _ => ⟨rfl, rfl, rfl⟩
  · exact KeyUpdateRequest.read_reads.tagged_map h fun _ => ⟨rfl, rfl, rfl⟩
  · split_ifs at h
    exact ReadsTagged.of_some h rfl rfl
  · exact Payload.read_reads.tagged_map h fun _ => ⟨rfl, rfl, rfl⟩
  · exact CertificateStatus.read_reads.tagged_map h fun _ => ⟨rfl, rfl, rfl⟩
  · cases h
  · cases h
  · -- every other type is read as an unknown payload, and none of them is a HelloRetryRequest
    exact readUnknown_reads ‹t = .helloRetryRequest → False› h

/-- Every handshake message read consumed the encoding of the message, in every version. -/
theorem readVersion_reads (isDnsName : Bytes → Bool) (vers : ProtocolVersion) :
    ReadsEncoding (readVersion isDnsName vers) encode :=
  HandshakeType.read_reads.tagged readU24_reads (readBody_reads isDnsName vers)

/-- A handshake message is read from its type, its length and its body only, whatever follows. -/
theorem readVersion_extends (isDnsName : Bytes → Bool) (vers : ProtocolVersion) :
    Extends (readVersion isDnsName vers) :=
  readTagged_extends (HandshakeType.code.read_extends readU8_extends) readU24_extends _

/-- A message read with no byte left encodes to the bytes it was read from. -/
theorem getEncoding_of_readVersion {isDnsName : Bytes → Bool} {vers : ProtocolVersion} {b : Bytes}
    {m : HandshakeMessagePayload} (h : readVersion isDnsName vers b = some (m, [])) :
    m.getEncoding = b := by
  simpa [getEncoding] using (readVersion_reads isDnsName vers h).symm

/-- **Canonical handshake codec.** A handshake message read, in any protocol version, from bytes
with no byte left encodes to those bytes, and is read again from its encoding as a message with the
same encoding. -/
theorem handshake_codec_canonical (isDnsName : Bytes → Bool) (vers : ProtocolVersion) {b : Bytes}
    {m : HandshakeMessagePayload} (h : readVersion isDnsName vers b = some (m, [])) :
    m.getEncoding = b ∧
      ∃ m', readVersion isDnsName vers m.getEncoding = some (m', []) ∧
        m'.getEncoding = m.getEncoding := by
  have hb : m.getEncoding = b := getEncoding_of_readVersion h
  subst hb
  exact ⟨rfl, m, h, rfl⟩

theorem handshake_codec_canonical_finished :
    readVersion (fun _ => true) .tlsv1_2 [0x14, 0, 0, 3, 1, 2, 3] =
        some (⟨.finished, .finished ⟨[1, 2, 3]⟩⟩, []) ∧
      getEncoding ⟨.finished, .finished ⟨[1, 2, 3]⟩⟩ = [0x14, 0, 0, 3, 1, 2, 3] :=
  have h : readVersion (fun _ => true) .tlsv1_2 [0x14, 0, 0, 3, 1, 2, 3] =
      some (⟨.finished, .finished ⟨[1, 2, 3]⟩⟩, []) := by decide
  ⟨h, (handshake_codec_canonical (fun _ => true) .tlsv1_2 h).1⟩

end HandshakeMessagePayload

/-! ### The handshake hash -/

/-- `MessagePayload` (`msgs/message.rs`). -/
inductive MessagePayload
  | alert (x : AlertMessagePayload)
  | handshake (x : HandshakeMessagePayload)
  | changeCipherSpec
  | applicationData (x : Payload)

/-- `Message`. -/
structure Message where
  version : ProtocolVersion
  payload : MessagePayload

/-- `HandshakeHashBuffer`: the handshake messages, buffered until the hash function is known. -/
structure HandshakeHashBuffer where
  buffer : Bytes
  clientAuthEnabled : Bool

/-- `HandshakeHash`: the running hash, modelled by the bytes it has taken in, and the buffer kept
for client authentication. -/
structure HandshakeHash where
  ctx : Bytes
  clientAuth : Option Bytes

namespace HandshakeHashBuffer

/-- `HandshakeHashBuffer::new`. -/
def new : HandshakeHashBuffer := ⟨[], false⟩

/-- `HandshakeHashBuffer::add_message`: the encoding of a handshake message, not the bytes it was
read from. -/
def addMessage (h : HandshakeHashBuffer) (m : Message) : HandshakeHashBuffer :=
  match m.payload with
  | .handshake hs => { h with buffer := h.buffer ++ hs.getEncoding }
  | _ => h

/-- `HandshakeHashBuffer::start_hash`. -/
def startHash (h : HandshakeHashBuffer) : HandshakeHash :=
  ⟨h.buffer, if h.clientAuthEnabled then some h.buffer else none⟩

end HandshakeHashBuffer

namespace HandshakeHash

/-- `HandshakeHash::update_raw`. -/
def updateRaw (h : HandshakeHash) (buf : Bytes) : HandshakeHash :=
  ⟨h.ctx ++ buf, h.clientAuth.map (· ++ buf)⟩

/-- `HandshakeHash::add_message`. -/
def addMessage (h : HandshakeHash) (m : Message) : HandshakeHash :=
  match m.payload with
  | .handshake hs => h.updateRaw hs.getEncoding
  | _ => h

end HandshakeHash

section Received

variable (isDnsName : Bytes → Bool) (vers : ProtocolVersion)

/-- Handshake messages, each read from its bytes with no byte left. -/
def ReadFromWire (received : List (Bytes × Message)) : Prop :=
  ∀ p ∈ received, ∃ hs, p.2.payload = .handshake hs ∧
    HandshakeMessagePayload.readVersion isDnsName vers p.1 = some (hs, [])

/-- **The buffer holds the bytes received**: buffering handshake messages read from the wire adds,
in order, the bytes they were read from. -/
theorem addMessages_buffer (received : List (Bytes × Message))
    (hwire : ReadFromWire isDnsName vers received) (h : HandshakeHashBuffer) :
    (received.foldl (fun h p => h.addMessage p.2) h).buffer =
      h.buffer ++ (received.map Prod.fst).flatten := by
  induction received generalizing h with
  | nil => simp
  | cons p ps ih =>
    obtain ⟨hs, hm, hread⟩ := hwire p (List.mem_cons_self ..)
    have hp : (h.addMessage p.2).buffer = h.buffer ++ p.1 := by
      simp only [HandshakeHashBuffer.addMessage, hm]
      rw [HandshakeMessagePayload.getEncoding_of_readVersion hread]
    rw [List.foldl_cons, ih (fun q hq => hwire q (List.mem_cons_of_mem _ hq)), hp]
    simp

/-- The running hash likewise takes in, after what it started from, the bytes received. -/
theorem addMessages_ctx (received : List (Bytes × Message))
    (hwire : ReadFromWire isDnsName vers received) (h : HandshakeHash) :
    (received.foldl (fun h p => h.addMessage p.2) h).ctx =
      h.ctx ++ (received.map Prod.fst).flatten := by
  induction received generalizing h with
  | nil => simp
  | cons p ps ih =>
    obtain ⟨hs, hm, hread⟩ := hwire p (List.mem_cons_self ..)
    have hp : (h.addMessage p.2).ctx = h.ctx ++ p.1 := by
      simp only [HandshakeHash.addMessage, hm]
      rw [HandshakeMessagePayload.getEncoding_of_readVersion hread]
      rfl
    rw [List.foldl_cons, ih (fun q hq => hwire q (List.mem_cons_of_mem _ hq)), hp]
    simp

end Received

end Handshake

end Tlsn.Tls
