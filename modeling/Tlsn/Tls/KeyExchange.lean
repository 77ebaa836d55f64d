import Tlsn.Tls.Base
import Tlsn.Lib.Outcome

/-!
# Server key exchange and handshake data (`tls-core`)

The ECDHE parameters a TLS 1.2 server signs (`ServerECDHParams`, `msgs/handshake.rs`) and their
decoding from the signed bytes (`decode_ecdh_params`, `suites/tls12.rs`); the ephemeral public key
(`key.rs`); and the data of a handshake that a prover commits to and later opens
(`HandshakeData`, `handshake.rs`), with its verification against a certificate verifier.

The certificate verifier (`ServerCertVerifier`, backed by webpki) is a parameter: a check of the
certificate chain for a server name at a time, and a check of a TLS 1.2 signature by a certificate.
`tls_core::Error` is kept as its text, which is all that the session verification keeps of it.
-/

namespace Tlsn.Tls

open Codec

/-- `Random`: thirty-two bytes. -/
structure Random where
  bytes : Bytes
  length_eq : bytes.length = 32

instance : DecidableEq Random := fun a b =>
  decidable_of_iff (a.bytes = b.bytes) (by cases a; cases b; simp)

namespace Random

/-- `Random::read`. -/
def read (r : Bytes) : Option (Random × Bytes) :=
  match h : take 32 r with
  | some (bytes, rest) => some (⟨bytes, (take_eq_some.1 h).1⟩, rest)
  | none => none

/-- `Random::encode`. -/
def encode (x : Random) : Bytes := x.bytes

theorem read_reads : ReadsEncoding read encode := by
  intro bs x rest hr
  unfold read at hr
  split at hr
  · rename_i bytes r htake
    simp only [Option.some.injEq, Prod.mk.injEq] at hr
    obtain ⟨rfl, rfl⟩ := hr
    exact (take_eq_some.1 htake).2
  · cases hr

end Random

/-- `Certificate`: the DER bytes of a certificate. -/
structure Certificate where
  bytes : Bytes
  deriving DecidableEq, Repr

/-- `PublicKey`: a server's ephemeral key and its group. -/
structure PublicKey where
  group : NamedGroup
  key : Bytes
  deriving DecidableEq, Repr

/-- `PublicKey::new`. -/
def PublicKey.new (group : NamedGroup) (key : Bytes) : PublicKey := ⟨group, key⟩

/-! ### ECDHE parameters -/

/-- `ECParameters`. -/
structure ECParameters where
  curveType : ECCurveType
  namedGroup : NamedGroup
  deriving DecidableEq, Repr

namespace ECParameters

/-- `ECParameters::read`: only named curves are read. -/
def read (r : Bytes) : Option (ECParameters × Bytes) := do
  let (ct, r) ← ECCurveType.read r
  if ct ≠ .namedCurve then none
  else
    let (grp, r) ← NamedGroup.read r
    some (⟨ct, grp⟩, r)

/-- `ECParameters::encode`. -/
def encode (p : ECParameters) : Bytes :=
  ECCurveType.encode p.curveType ++ NamedGroup.encode p.namedGroup

theorem read_reads : ReadsEncoding read encode := by
  intro bs p rest hr
  obtain ⟨ct, r, rfl, hk₁⟩ := ECCurveType.read_reads.bind_eq_some hr
  dsimp only at hk₁
  split_ifs at hk₁ with hct
  obtain ⟨grp, r', rfl, hk₂⟩ := NamedGroup.read_reads.bind_eq_some hk₁
  simp only [Option.some.injEq, Prod.mk.injEq] at hk₂
  obtain ⟨rfl, rfl⟩ := hk₂
  simp [encode]

end ECParameters

/-- `ServerECDHParams`. -/
structure ServerECDHParams where
  curveParams : ECParameters
  «public» : PayloadU8
  deriving DecidableEq, Repr

namespace ServerECDHParams

/-- `ServerECDHParams::new`. -/
def new (namedGroup : NamedGroup) (pubkey : Bytes) : ServerECDHParams :=
  ⟨⟨.namedCurve, namedGroup⟩, ⟨pubkey⟩⟩

/-- `ServerECDHParams::read`. -/
def read (r : Bytes) : Option (ServerECDHParams × Bytes) := do
  let (cp, r) ← ECParameters.read r
  let (pb, r) ← PayloadU8.read r
  some (⟨cp, pb⟩, r)

/-- `ServerECDHParams::encode`. -/
def encode (p : ServerECDHParams) : Bytes := p.curveParams.encode ++ p.«public».encode

theorem read_reads : ReadsEncoding read encode := by
  intro bs p rest hr
  obtain ⟨cp, r, rfl, hk₁⟩ := ECParameters.read_reads.bind_eq_some hr
  obtain ⟨pb, r', rfl, hk₂⟩ := PayloadU8.read_reads.bind_eq_some hk₁
  simp only [Option.some.injEq, Prod.mk.injEq] at hk₂
  obtain ⟨rfl, rfl⟩ := hk₂
  simp [encode]

end ServerECDHParams

/-- `decode_ecdh_params::<ServerECDHParams>`: the parameters, read with no byte left. -/
def decodeEcdhParams (kxParams : Bytes) : Option ServerECDHParams :=
  readAll ServerECDHParams.read kxParams

/-- Decoded parameters are the encoding of the signed bytes: a public key read from them is the one
the server signed. -/
theorem decodeEcdhParams_encode {kxParams : Bytes} {p : ServerECDHParams}
    (h : decodeEcdhParams kxParams = some p) : kxParams = p.encode :=
  ServerECDHParams.read_reads.all h

/-- `DigitallySignedStruct`. -/
structure DigitallySignedStruct where
  scheme : SignatureScheme
  sig : PayloadU16
  deriving DecidableEq, Repr

/-! ### Handshake data -/

/-- `ServerCertDetails`. -/
structure ServerCertDetails where
  certChain : List Certificate
  ocspResponse : Bytes
  scts : Option (List PayloadU16)
  deriving DecidableEq

/-- `ServerKxDetails`: the signed parameters, as bytes, and their signature. -/
structure ServerKxDetails where
  kxParams : Bytes
  kxSig : DigitallySignedStruct
  deriving DecidableEq

/-- `HandshakeData`. -/
structure HandshakeData where
  serverCertDetails : ServerCertDetails
  serverKxDetails : ServerKxDetails
  clientRandom : Random
  serverRandom : Random
  deriving DecidableEq

/-- `dns::ServerName`: a name that webpki accepts as a DNS name. -/
inductive ServerName
  | dnsName (name : String)
  deriving DecidableEq, Repr

/-- `ServerName::try_from`, with webpki's check of a DNS name as `isDnsName`. -/
def ServerName.tryFrom (isDnsName : String → Bool) (s : String) : Except String ServerName :=
  if isDnsName s then .ok (.dnsName s) else .error "invalid dns name"

/-- `ServerCertVerifier`: the checks that `HandshakeData::verify` asks of it, each with the text
of its error. -/
structure ServerCertVerifier where
  /-- `verify_server_cert(end_entity, intermediates, server_name, scts, ocsp_response, now)`. -/
  verifyServerCert : Certificate → List Certificate → ServerName → List Bytes → Bytes → UInt64 →
    Except String Unit
  /-- `verify_tls12_signature(message, cert, dss)`. -/
  verifyTls12Signature : Bytes → Certificate → DigitallySignedStruct → Except String Unit

namespace HandshakeData

/-- The message the server signs in its key exchange: `client_random || server_random ||
kx_params`. -/
def signedMessage (d : HandshakeData) : Bytes :=
  d.clientRandom.bytes ++ d.serverRandom.bytes ++ d.serverKxDetails.kxParams

/-- `HandshakeData::verify`: the certificate chain is valid for the server name at the time, and
its end entity signed the key exchange parameters. -/
def verify (d : HandshakeData) (verifier : ServerCertVerifier) (time : UInt64)
    (serverName : ServerName) : Except String Unit :=
  match d.serverCertDetails.certChain with
  | [] => .error "peer sent no certificates"
  | endEntity :: intermediates => do
    verifier.verifyServerCert endEntity intermediates serverName
      ((d.serverCertDetails.scts.getD []).map PayloadU16.bytes) d.serverCertDetails.ocspResponse
      time
    verifier.verifyTls12Signature d.signedMessage endEntity d.serverKxDetails.kxSig

/-- What `HandshakeData::verify` establishes: a certificate chain that the verifier accepts for the
server name at the time, whose end entity's signature over the key exchange it accepts. -/
def Verified (d : HandshakeData) (verifier : ServerCertVerifier) (time : UInt64)
    (serverName : ServerName) : Prop :=
  ∃ endEntity intermediates, d.serverCertDetails.certChain = endEntity :: intermediates ∧
    verifier.verifyServerCert endEntity intermediates serverName
      ((d.serverCertDetails.scts.getD []).map PayloadU16.bytes) d.serverCertDetails.ocspResponse
      time = .ok () ∧
    verifier.verifyTls12Signature d.signedMessage endEntity d.serverKxDetails.kxSig = .ok ()

theorem verify_eq_ok {d : HandshakeData} {verifier : ServerCertVerifier} {time : UInt64}
    {serverName : ServerName} :
    d.verify verifier time serverName = .ok () ↔ d.Verified verifier time serverName := by
  unfold verify Verified
  split
  · rename_i hchain
    simp [hchain]
  · rename_i endEntity intermediates hchain
    simp [hchain]

end HandshakeData

end Tlsn.Tls
