import Tlsn.Core.Session
import Tlsn.Tls.Handshake

/-!
# Session proofs (`tlsn-core/src/proof/session.rs`, `session/handshake.rs`)

A session proof is the notary's signed header and the prover's opening of its commitment to the
handshake data. `SessionProof::verify` checks the notary's signature and then
`SessionInfo::verify`; the verifier of a live session (`Verifier::finalize`) calls
`SessionInfo::verify` alone, on the summary of the session it took part in.

`HandshakeSummary::verify` is the check that the key exchange parameters the server signed carry
the ephemeral key the notary used in the key exchange. Neither entry point calls it:
`SessionInfo::verify` never reads the summary's key (`SessionInfo.verify_serverPublicKey`), so a
prover can open a commitment to the signed handshake of another session. With the check added,
the opened data binds the key (`SessionInfo.binds_of_verify`).

What the code calls outside this repository is a parameter (`SessionPrimitives`): webpki's check of
a DNS name, `Decommitment::verify`, the serialisation of the header and the notary's signature
check. Errors of external crates are kept as their text.
-/

namespace Tlsn

open Codec

/-- `mpz_core::commit::Decommitment`: data and the nonce it was committed with. -/
structure Decommitment (Nonce D : Type) where
  nonce : Nonce
  data : D
  deriving DecidableEq

/-- What session verification calls outside this repository. -/
structure SessionPrimitives (S R H Nonce Sig NK : Type) where
  /-- `webpki::DnsNameRef::try_from_ascii_str` accepts the text. -/
  isDnsName : String → Bool
  /-- `Decommitment::verify`. -/
  decommitmentVerify : Decommitment Nonce Tls.HandshakeData → H → Except String Unit
  /-- `SessionHeader::to_bytes`. -/
  headerBytes : SessionHeader S R Tls.PublicKey H → Bytes
  /-- `Signature::verify(msg, notary_public_key)`. -/
  signatureVerify : Sig → Bytes → NK → Except String Unit

section

variable {S R H Nonce Sig NK : Type}

/-- The documented behaviour of `Decommitment::verify`: it succeeds exactly when the data and the
nonce hash to the commitment. -/
def DecommitmentOpens (prim : SessionPrimitives S R H Nonce Sig NK)
    (hash : Decommitment Nonce Tls.HandshakeData → H) : Prop :=
  ∀ d h, prim.decommitmentVerify d h = .ok () ↔ hash d = h

/-- `HandshakeVerifyError`. -/
inductive HandshakeVerifyError
  | commitment
  | kxParams
  | serverEphemKey
  deriving DecidableEq, Repr

/-- The opened handshake data carries the summary's key: its signed key exchange parameters decode,
and their public key is the one the notary signed. -/
def BindsKey (summary : HandshakeSummary Tls.PublicKey H) (d : Tls.HandshakeData) : Prop :=
  ∃ params, Tls.decodeEcdhParams d.serverKxDetails.kxParams = some params ∧
    Tls.PublicKey.new params.curveParams.namedGroup params.«public».bytes = summary.serverPublicKey

/-- `HandshakeSummary::verify`: the handshake data opens the summary's commitment, and the key
exchange parameters it holds carry the summary's ephemeral key. -/
def HandshakeSummary.verify (prim : SessionPrimitives S R H Nonce Sig NK)
    (summary : HandshakeSummary Tls.PublicKey H) (data : Decommitment Nonce Tls.HandshakeData) :
    Except HandshakeVerifyError Unit := do
  (prim.decommitmentVerify data summary.handshakeCommitment).mapError fun _ => .commitment
  match Tls.decodeEcdhParams data.data.serverKxDetails.kxParams with
  | none => .error .kxParams
  | some ecdhParams =>
    let serverPublicKey :=
      Tls.PublicKey.new ecdhParams.curveParams.namedGroup ecdhParams.«public».bytes
    -- the ephemeral key must match the one which the notary signed
    if serverPublicKey ≠ summary.serverPublicKey then .error .serverEphemKey else .ok ()

theorem HandshakeSummary.verify_eq_ok {prim : SessionPrimitives S R H Nonce Sig NK}
    {summary : HandshakeSummary Tls.PublicKey H} {data : Decommitment Nonce Tls.HandshakeData} :
    summary.verify prim data = .ok () ↔
      prim.decommitmentVerify data summary.handshakeCommitment = .ok () ∧
        BindsKey summary data.data := by
  unfold verify BindsKey
  simp only [Except.bind_unit_eq_ok, Except.mapError_eq_ok]
  apply and_congr_right
  intro _
  split
  · rename_i hdec
    simp [hdec]
  · rename_i params hdec
    simp [hdec]

/-- `tlsn_core::ServerName`. -/
inductive ServerName
  | dns (name : String)
  deriving DecidableEq, Repr

/-- `ServerName::as_ref`. -/
def ServerName.asRef : ServerName → String
  | .dns name => name

/-- `SessionInfo`: the server's name and the opening of the handshake commitment. -/
structure SessionInfo (Nonce : Type) where
  serverName : ServerName
  handshakeDecommitment : Decommitment Nonce Tls.HandshakeData
  deriving DecidableEq

/-- `SessionProofError`. -/
inductive SessionProofError
  | missingNotarySignature
  | invalidSignature (e : String)
  | invalidServerName (e : String)
  | invalidHandshake (e : String)
  | invalidServerCertificate (e : String)
  deriving DecidableEq, Repr

/-- `SessionInfo::verify`: the server name is a DNS name, the decommitment opens the summary's
commitment, and the opened handshake data verifies for the server name at the summary's time. -/
def SessionInfo.verify (prim : SessionPrimitives S R H Nonce Sig NK) (info : SessionInfo Nonce)
    (summary : HandshakeSummary Tls.PublicKey H) (certVerifier : Tls.ServerCertVerifier) :
    Except SessionProofError Unit := do
  let serverName ← (Tls.ServerName.tryFrom prim.isDnsName info.serverName.asRef).mapError
    .invalidServerName
  (prim.decommitmentVerify info.handshakeDecommitment summary.handshakeCommitment).mapError
    .invalidHandshake
  (info.handshakeDecommitment.data.verify certVerifier summary.time serverName).mapError
    .invalidServerCertificate

theorem SessionInfo.verify_eq_ok {prim : SessionPrimitives S R H Nonce Sig NK}
    {info : SessionInfo Nonce} {summary : HandshakeSummary Tls.PublicKey H}
    {certVerifier : Tls.ServerCertVerifier} :
    info.verify prim summary certVerifier = .ok () ↔
      prim.isDnsName info.serverName.asRef = true ∧
      prim.decommitmentVerify info.handshakeDecommitment summary.handshakeCommitment = .ok () ∧
      info.handshakeDecommitment.data.Verified certVerifier summary.time
        (.dnsName info.serverName.asRef) := by
  unfold verify Tls.ServerName.tryFrom
  cases prim.isDnsName info.serverName.asRef with
  | false => simp
  | true => simp [← Tls.HandshakeData.verify_eq_ok]

/-- `SessionInfo::verify` never reads the summary's ephemeral key: it accepts the same openings
whatever key the notary signed. -/
theorem SessionInfo.verify_serverPublicKey (prim : SessionPrimitives S R H Nonce Sig NK)
    (info : SessionInfo Nonce) (summary : HandshakeSummary Tls.PublicKey H)
    (certVerifier : Tls.ServerCertVerifier) (key : Tls.PublicKey) :
    info.verify prim { summary with serverPublicKey := key } certVerifier =
      info.verify prim summary certVerifier := rfl

/-- With `HandshakeSummary::verify` added to `SessionInfo::verify`, the opened handshake data is the
committed one, its certificate chain and key exchange signature verify, and it carries the key the
notary signed. -/
theorem SessionInfo.binds_of_verify {prim : SessionPrimitives S R H Nonce Sig NK}
    {hash : Decommitment Nonce Tls.HandshakeData → H} (hopens : DecommitmentOpens prim hash)
    {info : SessionInfo Nonce} {summary : HandshakeSummary Tls.PublicKey H}
    {certVerifier : Tls.ServerCertVerifier}
    (hinfo : info.verify prim summary certVerifier = .ok ())
    (hsummary : summary.verify prim info.handshakeDecommitment = .ok ()) :
    hash info.handshakeDecommitment = summary.handshakeCommitment ∧
      info.handshakeDecommitment.data.Verified certVerifier summary.time
        (.dnsName info.serverName.asRef) ∧
      BindsKey summary info.handshakeDecommitment.data := by
  obtain ⟨-, hdec, hverified⟩ := SessionInfo.verify_eq_ok.1 hinfo
  exact ⟨(hopens _ _).1 hdec, hverified, (HandshakeSummary.verify_eq_ok.1 hsummary).2⟩

/-- `SessionProof`: the header, the notary's signature of it if any, and the session info. -/
structure SessionProof (S R H Nonce Sig : Type) where
  header : SessionHeader S R Tls.PublicKey H
  signature : Option Sig
  sessionInfo : SessionInfo Nonce

/-- `SessionProof::verify`: the notary signed the header, and the session info verifies against the
header's handshake summary. -/
def SessionProof.verify (prim : SessionPrimitives S R H Nonce Sig NK)
    (p : SessionProof S R H Nonce Sig) (notaryPublicKey : NK)
    (certVerifier : Tls.ServerCertVerifier) : Except SessionProofError Unit :=
  match p.signature with
  | none => .error .missingNotarySignature
  | some signature => do
    (prim.signatureVerify signature (prim.headerBytes p.header) notaryPublicKey).mapError
      .invalidSignature
    p.sessionInfo.verify prim p.header.handshakeSummary certVerifier

theorem SessionProof.verify_eq_ok {prim : SessionPrimitives S R H Nonce Sig NK}
    {p : SessionProof S R H Nonce Sig} {notaryPublicKey : NK}
    {certVerifier : Tls.ServerCertVerifier} :
    p.verify prim notaryPublicKey certVerifier = .ok () ↔
      (∃ signature, p.signature = some signature ∧
        prim.signatureVerify signature (prim.headerBytes p.header) notaryPublicKey = .ok ()) ∧
      p.sessionInfo.verify prim p.header.handshakeSummary certVerifier = .ok () := by
  unfold verify
  split
  · rename_i hsig
    simp [hsig]
  · rename_i signature hsig
    simp [hsig]

/-- `Verifier::finalize`: the session info the prover sent, checked against the summary of the
session the verifier took part in, with the ephemeral key of its own key exchange. -/
def finalize (prim : SessionPrimitives S R H Nonce Sig NK) (certVerifier : Tls.ServerCertVerifier)
    (startTime : UInt64) (serverEphemeralKey : Tls.PublicKey) (handshakeCommitment : H)
    (sessionInfo : SessionInfo Nonce) : Except SessionProofError (SessionInfo Nonce) := do
  let handshakeSummary : HandshakeSummary Tls.PublicKey H :=
    ⟨startTime, serverEphemeralKey, handshakeCommitment⟩
  sessionInfo.verify prim handshakeSummary certVerifier
  pure sessionInfo

/-! ### An opening of another session's handshake -/

/-- Primitives of an idealised session: every name is a DNS name, a commitment is the decommitment
itself, so that it binds the data and the nonce completely, and the notary's signature of a message
is the message. -/
def idealSessionPrimitives :
    SessionPrimitives Unit Unit (Decommitment Bytes Tls.HandshakeData) Bytes Bytes Unit where
  isDnsName _ := true
  decommitmentVerify d h := if d = h then .ok () else .error "invalid decommitment"
  headerBytes _ := []
  signatureVerify sig msg _ := if sig = msg then .ok () else .error "invalid signature"

theorem idealSessionPrimitives_opens : DecommitmentOpens idealSessionPrimitives id := by
  intro d h
  by_cases hdh : d = h <;> simp [idealSessionPrimitives, hdh]

/-- A certificate verifier that trusts one certificate for every name and time, and takes the
signature of a message by it to be the message itself. -/
def trustingVerifier (trusted : Tls.Certificate) : Tls.ServerCertVerifier where
  verifyServerCert endEntity _ _ _ _ _ :=
    if endEntity = trusted then .ok () else .error "invalid peer certificate: UnknownIssuer"
  verifyTls12Signature message cert dss :=
    if cert = trusted ∧ dss.sig.bytes = message then .ok ()
    else .error "invalid peer certificate signature"

/-- The handshake of a session with the ephemeral key `[4]` on secp256r1, signed by the trusted
certificate `[1]`. -/
def signedHandshake : Tls.HandshakeData :=
  let kxParams := (Tls.ServerECDHParams.new .secp256r1 [4]).encode
  { serverCertDetails := ⟨[⟨[1]⟩], [], none⟩
    serverKxDetails :=
      ⟨kxParams, ⟨.ecdsaNistp256Sha256,
        ⟨Tls.Handshake.zeroRandom.bytes ++ Tls.Handshake.zeroRandom.bytes ++ kxParams⟩⟩⟩
    clientRandom := Tls.Handshake.zeroRandom
    serverRandom := Tls.Handshake.zeroRandom }

/-- The opening of a commitment to `signedHandshake`. -/
def signedOpening : Decommitment Bytes Tls.HandshakeData := ⟨[0], signedHandshake⟩

/-- A proof of a session whose key exchange used the key `[5]`, opening `signedHandshake`. -/
def unboundProof : SessionProof Unit Unit (Decommitment Bytes Tls.HandshakeData) Bytes Bytes :=
  { header := ⟨(), (), 0, 0, ⟨0, Tls.PublicKey.new .secp256r1 [5], signedOpening⟩⟩
    signature := some []
    sessionInfo := ⟨.dns "example.com", signedOpening⟩ }

theorem sessionProof_verify_accepts_unbound_key :
    DecommitmentOpens idealSessionPrimitives id ∧
    unboundProof.verify idealSessionPrimitives () (trustingVerifier ⟨[1]⟩) = .ok () ∧
    finalize idealSessionPrimitives (trustingVerifier ⟨[1]⟩) 0 (Tls.PublicKey.new .secp256r1 [5])
      signedOpening unboundProof.sessionInfo = .ok unboundProof.sessionInfo ∧
    ¬ BindsKey unboundProof.header.handshakeSummary
      unboundProof.sessionInfo.handshakeDecommitment.data := by
  refine ⟨idealSessionPrimitives_opens, by decide, by decide, ?_⟩
  intro hbinds
  -- with the key bound, `HandshakeSummary::verify` would accept; it rejects the key `[4]`
  have hopen : idealSessionPrimitives.decommitmentVerify signedOpening signedOpening = .ok () :=
    (idealSessionPrimitives_opens _ _).2 rfl
  have hok := HandshakeSummary.verify_eq_ok.2 ⟨hopen, hbinds⟩
  have herr : unboundProof.header.handshakeSummary.verify idealSessionPrimitives
      unboundProof.sessionInfo.handshakeDecommitment = .error .serverEphemKey := by decide
  rw [herr] at hok
  cases hok

end

end Tlsn
