import Tlsn.Core.Transcript

/-!
# Session headers (`tlsn-core/src/session/header.rs`, `session/handshake.rs`)

The header the notary signs: the seed of the encoder, the Merkle root of the prover's
commitments, the lengths of the two transcripts and the handshake summary, which holds the time,
the server's ephemeral public key and the prover's commitment to the handshake data.

The types of the seed `S`, of the Merkle root `R`, of a public key `K` and of a hash `H` are
parameters, as is the check of a decommitment against a hash (`Decommitment::verify`).
-/

namespace Tlsn

/-- `HandshakeSummary`. -/
structure HandshakeSummary (K H : Type) where
  time : UInt64
  serverPublicKey : K
  handshakeCommitment : H
  deriving DecidableEq

/-- `SessionHeader`. -/
structure SessionHeader (S R K H : Type) where
  encoderSeed : S
  merkleRoot : R
  sentLen : ℕ
  recvLen : ℕ
  handshakeSummary : HandshakeSummary K H
  deriving DecidableEq

/-- `SessionHeaderVerifyError`. -/
inductive SessionHeaderVerifyError
  | inconsistentHeader
  deriving DecidableEq, Repr

namespace SessionHeader

variable {S R K H D : Type}

/-- The length of the transcript of a direction: `sent_len()` or `recv_len()`. -/
def transcriptLen (header : SessionHeader S R K H) : Direction → ℕ
  | .sent => header.sentLen
  | .received => header.recvLen

/-- The header of two transcripts gives each direction the length of its transcript. -/
theorem transcriptLen_of_lengths (seed : S) (root : R) (tx rx : List UInt8)
    (summary : HandshakeSummary K H) (d : Direction) :
    (⟨seed, root, tx.length, rx.length, summary⟩ : SessionHeader S R K H).transcriptLen d =
      ((⟨tx, rx⟩ : ByDirection (List UInt8)).get d).length := by
  cases d <;> rfl

/-- `SessionHeader::time`. -/
def time (header : SessionHeader S R K H) : UInt64 := header.handshakeSummary.time

/-- `u64::abs_diff`. -/
def absDiff (a b : UInt64) : UInt64 := if a < b then b - a else a - b

/-- `SessionHeader::verify`: the header agrees with the prover's view of the session, the time
within five minutes. -/
def verify [DecidableEq S] [DecidableEq R] [DecidableEq K]
    (decommitmentVerify : D → H → Bool) (header : SessionHeader S R K H) (time : UInt64)
    (serverPublicKey : K) (root : R) (encoderSeed : S) (handshakeDataDecommitment : D) :
    Except SessionHeaderVerifyError Unit :=
  let okTime := absDiff header.handshakeSummary.time time ≤ 300
  let okRoot := header.merkleRoot = root
  let okEncoderSeed := header.encoderSeed = encoderSeed
  let okHandshakeData :=
    decommitmentVerify handshakeDataDecommitment header.handshakeSummary.handshakeCommitment
  let okServerPublicKey := header.handshakeSummary.serverPublicKey = serverPublicKey
  if okTime ∧ okRoot ∧ okEncoderSeed ∧ okHandshakeData = true ∧ okServerPublicKey then .ok ()
  else .error .inconsistentHeader

end SessionHeader

end Tlsn
