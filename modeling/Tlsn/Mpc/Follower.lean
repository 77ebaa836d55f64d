import Tlsn.Mpc.RecordLayer
import Tlsn.Tls.KeyExchange

/-!
# The MPC-TLS follower (`tls-mpc/src/follower.rs`, `msg.rs`)

The follower is an actor that handles the messages the leader sends it (`MpcTlsMessage`), one at a
time, in the order of the channel. Its state moves through the handshake (`Init`, `Ke`, `Cf`,
`Sf`) to `Active`, where it takes part in encrypting and decrypting application data, and to
`Closed`; two flags record that the server closed the connection and that the leader committed to
the transcript. A handler that fails stops the actor (`try_or_stop`), and so does
`close_connection`.

The follower's key exchange, PRF and AEADs are parameters (`Components`): the behaviour of the
other party and of the MPC engines behind them is arbitrary, and every statement here is for every
behaviour. The key exchange and the PRF are asked at most once per run, so their answers are
functions of the question; the AEADs are asked many times and answer from their call history.
-/

namespace Tlsn.Mpc

open Codec Tls

/-- `[u8; 12]`: the verify data of a Finished message. -/
structure VerifyData where
  bytes : Bytes
  length_eq : bytes.length = 12

instance : DecidableEq VerifyData := fun a b =>
  decidable_of_iff (a.bytes = b.bytes) (by cases a; cases b; simp)

/-- `HandshakeMessagePayload { typ: Finished, payload: Finished(vd) }.encode()`: the type, the
length as a `u24` and the verify data. -/
def finishedPayload (vd : VerifyData) : Bytes :=
  HandshakeType.encode .finished ++ encodeU24 vd.bytes.length ++ vd.bytes

@[simp] theorem length_finishedPayload (vd : VerifyData) : (finishedPayload vd).length = 16 := by
  simp [finishedPayload, HandshakeType.encode, EnumCode.encode, encodeU8, encodeU24, vd.length_eq]

/-- `MpcTlsMessage`: the messages of the leader to the follower. -/
inductive MpcTlsMessage
  | computeKeyExchange (handshakeCommitment : Option Bytes) (serverRandom : Bytes)
  | clientFinishedVd (handshakeHash : Bytes)
  | encryptClientFinished
  | encryptAlert (msg : Bytes)
  | serverFinishedVd (handshakeHash : Bytes)
  | decryptServerFinished (ciphertext : Bytes)
  | decryptAlert (ciphertext : Bytes)
  | commitMessage (msg : Bytes)
  | encryptMessage (len : ℕ)
  | decryptMessage
  | closeConnection
  | commit
  deriving DecidableEq, Repr

/-- The follower's key exchange (`Box<dyn KeyExchange>`): whether it computes the pre-master
secret, and the server's key it then holds (`server_key`, as the SEC1 encoding of the point). -/
structure KeyExchange where
  computePms : Except String Unit
  serverKey : Option Bytes

/-- A party's PRF (`Box<dyn Prf>`): the session keys from the server random, and the verify data of
the client's and the server's Finished from the handshake hash. -/
structure Prf where
  computeSessionKeys : Bytes → Except String Unit
  computeClientFinishedVd : Bytes → Except String VerifyData
  computeServerFinishedVd : Bytes → Except String VerifyData

/-- The follower's MPC components (`build_components`). -/
structure Components where
  ke : KeyExchange
  prf : Prf
  encrypter : Aead
  decrypter : Aead

namespace Follower

/-- `Ke`. -/
structure Ke where
  handshakeCommitment : Option Bytes
  serverKey : PublicKey
  deriving DecidableEq

/-- `Cf`. -/
structure Cf where
  handshakeCommitment : Option Bytes
  serverKey : PublicKey
  clientFinished : VerifyData
  deriving DecidableEq

/-- `Sf`. -/
structure Sf where
  handshakeCommitment : Option Bytes
  serverKey : PublicKey
  serverFinished : Option VerifyData
  deriving DecidableEq

/-- `Active`: the records the leader committed to and the follower has not decrypted yet. -/
structure Active where
  handshakeCommitment : Option Bytes
  serverKey : PublicKey
  buffer : List OpaqueMessage
  deriving DecidableEq

/-- `Closed`. -/
structure Closed where
  handshakeCommitment : Option Bytes
  serverKey : PublicKey
  deriving DecidableEq

/-- `State`. -/
inductive State
  | init
  | ke (s : Ke)
  | cf (s : Cf)
  | sf (s : Sf)
  | active (s : Active)
  | closed (s : Closed)
  | error
  deriving DecidableEq

namespace State

/-- The error of `EnumTryAsInner` when the state is not the one expected. -/
def stateError (expected : String) : MpcTlsError := .new .state s!"expected state {expected}"

/-- `try_into_init`. -/
def tryIntoInit : State → Outcome MpcTlsError Unit
  | init => .ok ()
  | _ => .err (stateError "Init")

/-- `try_into_ke`. -/
def tryIntoKe : State → Outcome MpcTlsError Ke
  | ke s => .ok s
  | _ => .err (stateError "Ke")

/-- `try_into_cf`. -/
def tryIntoCf : State → Outcome MpcTlsError Cf
  | cf s => .ok s
  | _ => .err (stateError "Cf")

/-- `try_into_sf`, and `try_as_sf_mut`. -/
def tryIntoSf : State → Outcome MpcTlsError Sf
  | sf s => .ok s
  | _ => .err (stateError "Sf")

/-- `try_into_active`, and `try_as_active`. -/
def tryIntoActive : State → Outcome MpcTlsError Active
  | active s => .ok s
  | _ => .err (stateError "Active")

@[simp] theorem tryIntoInit_eq_ok {s : State} {u : Unit} : s.tryIntoInit = .ok u ↔ s = init := by
  cases s <;> simp [tryIntoInit]

@[simp] theorem tryIntoKe_eq_ok {s : State} {k : Ke} : s.tryIntoKe = .ok k ↔ s = ke k := by
  cases s <;> simp [tryIntoKe]

@[simp] theorem tryIntoCf_eq_ok {s : State} {c : Cf} : s.tryIntoCf = .ok c ↔ s = cf c := by
  cases s <;> simp [tryIntoCf]

@[simp] theorem tryIntoSf_eq_ok {s : State} {c : Sf} : s.tryIntoSf = .ok c ↔ s = sf c := by
  cases s <;> simp [tryIntoSf]

@[simp] theorem tryIntoActive_eq_ok {s : State} {a : Active} :
    s.tryIntoActive = .ok a ↔ s = active a := by
  cases s <;> simp [tryIntoActive]

/-- The buffer of committed records, empty outside `Active`. -/
def buffer : State → List OpaqueMessage
  | active s => s.buffer
  | _ => []

end State

end Follower

open Follower

/-- `MpcTlsFollower`: the state of the follower actor. The configuration and the components are
parameters of its handlers. -/
structure MpcTlsFollower where
  state : Follower.State
  encrypter : Encrypter
  decrypter : Decrypter
  /-- Whether the server has sent a CloseNotify alert. -/
  closeNotify : Bool
  /-- Whether the leader has committed to the transcript. -/
  committed : Bool

namespace MpcTlsFollower

/-- `MpcTlsFollower::new`, its AEADs set up. -/
def new (config : MpcTlsCommonConfig) : MpcTlsFollower where
  state := .init
  encrypter := .new ⟨[]⟩ config.txConfig.id config.txConfig.opaqueId
  decrypter := .new ⟨[]⟩ config.rxConfig.id config.rxConfig.opaqueId
  closeNotify := false
  committed := false

section Handlers

variable (overflowChecks : Bool) (config : MpcTlsCommonConfig) (C : Components)

/-- `check_transcript_length`. -/
def checkTranscriptLength (f : MpcTlsFollower) (direction : Direction) (len : ℕ) :
    Outcome MpcTlsError Unit :=
  Mpc.checkTranscriptLength config f.encrypter f.decrypter direction len

/-- `is_accepting_messages`: no record is committed or encrypted once the server has closed the
connection or the leader has committed to the transcript. -/
def isAcceptingMessages (f : MpcTlsFollower) : Outcome MpcTlsError Unit :=
  if f.closeNotify then
    .err (.new .peerMisbehaved "attempted to commit a message after receiving CloseNotify")
  else if f.committed then
    .err (.new .peerMisbehaved "attempted to commit a new message after committing transcript")
  else .ok ()

/-- `compute_key_exchange`. -/
def computeKeyExchange (f : MpcTlsFollower) (handshakeCommitment : Option Bytes)
    (serverRandom : Bytes) : Outcome MpcTlsError MpcTlsFollower := do
  f.state.tryIntoInit
  if config.handshakeCommit && handshakeCommitment.isNone then
    .err (.new .peerMisbehaved "handshake commitment missing")
  else
    Outcome.ofExcept MpcTlsError.ofKeyExchangeError C.ke.computePms
    -- `server_key().expect(..)`: a key exchange that computed the secret holds the server's key
    let serverKey ← Outcome.ofOption C.ke.serverKey
    Outcome.ofExcept MpcTlsError.ofPrfError (C.prf.computeSessionKeys serverRandom)
    let encrypter ← f.encrypter.start C.encrypter
    let decrypter ← f.decrypter.start C.decrypter
    pure { f with
      state := .ke ⟨handshakeCommitment, PublicKey.new .secp256r1 serverKey⟩
      encrypter, decrypter }

/-- `client_finished_vd`. -/
def clientFinishedVd (f : MpcTlsFollower) (handshakeHash : Bytes) :
    Outcome MpcTlsError MpcTlsFollower := do
  let s ← f.state.tryIntoKe
  let clientFinished ← Outcome.ofExcept MpcTlsError.ofPrfError
    (C.prf.computeClientFinishedVd handshakeHash)
  pure { f with state := .cf ⟨s.handshakeCommitment, s.serverKey, clientFinished⟩ }

/-- `server_finished_vd`: the server's Finished, decrypted before, must be the verify data of the
handshake hash. -/
def serverFinishedVd (f : MpcTlsFollower) (handshakeHash : Bytes) :
    Outcome MpcTlsError MpcTlsFollower := do
  let s ← f.state.tryIntoSf
  let expected ← Outcome.ofExcept MpcTlsError.ofPrfError
    (C.prf.computeServerFinishedVd handshakeHash)
  match s.serverFinished with
  | none => .err (.new .state "server finished is not set")
  | some serverFinished =>
    if serverFinished ≠ expected then .err (.new .prf "server finished does not match")
    else pure { f with state := .active ⟨s.handshakeCommitment, s.serverKey, []⟩ }

/-- `encrypt_client_finished`. -/
def encryptClientFinished (f : MpcTlsFollower) : Outcome MpcTlsError MpcTlsFollower := do
  let s ← f.state.tryIntoCf
  let (_, encrypter) ← f.encrypter.encryptPublic C.encrypter
    ⟨.handshake, .tlsv1_2, finishedPayload s.clientFinished⟩
  pure { f with encrypter, state := .sf ⟨s.handshakeCommitment, s.serverKey, none⟩ }

/-- `encrypt_alert`: the leader may only send a CloseNotify. -/
def encryptAlert (f : MpcTlsFollower) (msg : Bytes) : Outcome MpcTlsError MpcTlsFollower := do
  f.isAcceptingMessages
  match AlertMessagePayload.readBytes msg with
  | none => .err (.new .peerMisbehaved "invalid alert message")
  | some alert =>
    if alert.description ≠ .closeNotify then
      .err (.new .peerMisbehaved "attempted to send an alert other than CloseNotify")
    else do
      let (_, encrypter) ← f.encrypter.encryptPublic C.encrypter ⟨.alert, .tlsv1_2, msg⟩
      pure { f with encrypter }

/-- `encrypt_message`: a record of application data of `len` bytes that the leader supplies. -/
def encryptMessage (f : MpcTlsFollower) (len : ℕ) : Outcome MpcTlsError MpcTlsFollower := do
  f.isAcceptingMessages
  f.checkTranscriptLength config .sent len
  let _ ← f.state.tryIntoActive
  let encrypter ← f.encrypter.encryptBlind C.encrypter .applicationData .tlsv1_2 len
  pure { f with encrypter }

/-- `commit_message`: the leader commits to a record of application data it received. -/
def commitMessage (f : MpcTlsFollower) (payload : Bytes) : Outcome MpcTlsError MpcTlsFollower := do
  f.isAcceptingMessages
  f.checkTranscriptLength config .recv payload.length
  let s ← f.state.tryIntoActive
  pure { f with
    state := .active { s with buffer := s.buffer ++ [⟨.applicationData, .tlsv1_2, payload⟩] } }

/-- `decrypt_server_finished`: the Finished message of sixteen bytes, of which the last twelve are
the verify data. -/
def decryptServerFinished (f : MpcTlsFollower) (msg : Bytes) :
    Outcome MpcTlsError MpcTlsFollower := do
  let s ← f.state.tryIntoSf
  let (plain, decrypter) ← f.decrypter.decryptPublic C.decrypter overflowChecks
    ⟨.handshake, .tlsv1_2, msg⟩
  if h : plain.payload.length ≠ 16 then
    .err (.new .decrypt "server finished message is not 16 bytes")
  else
    let sf : VerifyData := ⟨plain.payload.drop 4, by simp only [ne_eq, not_not] at h; simp [h]⟩
    pure { f with decrypter, state := .sf { s with serverFinished := some sf } }

/-- `decrypt_alert`: the server may only close the connection. -/
def decryptAlert (f : MpcTlsFollower) (msg : Bytes) : Outcome MpcTlsError MpcTlsFollower := do
  let _ ← f.state.tryIntoActive
  let (alert, decrypter) ← f.decrypter.decryptPublic C.decrypter overflowChecks
    ⟨.alert, .tlsv1_2, msg⟩
  match AlertMessagePayload.readBytes alert.payload with
  | none => .err (.other "server sent an invalid alert")
  | some alert =>
    if alert.description ≠ .closeNotify then .err (.new .peerMisbehaved "server sent a fatal alert")
    else pure { f with decrypter, closeNotify := true }

/-- `decrypt_message`: the oldest committed record, decrypted blind before the commitment and
verified after it, when the leader knows the key. -/
def decryptMessage (f : MpcTlsFollower) : Outcome MpcTlsError MpcTlsFollower := do
  let s ← f.state.tryIntoActive
  match s.buffer with
  | [] =>
    .err (.new .peerMisbehaved "attempted to decrypt message when no messages are committed")
  | msg :: buffer =>
    let decrypter ← if f.committed then f.decrypter.verifyPlaintext C.decrypter overflowChecks msg
      else f.decrypter.decryptBlind C.decrypter overflowChecks msg
    pure { f with decrypter, state := .active { s with buffer } }

/-- `close_connection`. -/
def closeConnection (f : MpcTlsFollower) : Outcome MpcTlsError MpcTlsFollower := do
  let s ← f.state.tryIntoActive
  if s.buffer ≠ [] then
    .err (.new .peerMisbehaved "attempted to close connection without decrypting all messages")
  else pure { f with state := .closed ⟨s.handshakeCommitment, s.serverKey⟩ }

/-- `commit`: the AEAD key is revealed to the leader only if records remain to be decrypted. -/
def commit (f : MpcTlsFollower) : Outcome MpcTlsError MpcTlsFollower := do
  let s ← f.state.tryIntoActive
  let f := { f with committed := true }
  if s.buffer ≠ [] then do
    let decrypter ← f.decrypter.decodeKeyBlind C.decrypter
    pure { f with decrypter }
  else pure f

/-- The handler of each message. -/
def handle (f : MpcTlsFollower) : MpcTlsMessage → Outcome MpcTlsError MpcTlsFollower
  | .computeKeyExchange handshakeCommitment serverRandom =>
    f.computeKeyExchange config C handshakeCommitment serverRandom
  | .clientFinishedVd handshakeHash => f.clientFinishedVd C handshakeHash
  | .encryptClientFinished => f.encryptClientFinished C
  | .encryptAlert msg => f.encryptAlert C msg
  | .serverFinishedVd handshakeHash => f.serverFinishedVd C handshakeHash
  | .decryptServerFinished ciphertext => f.decryptServerFinished overflowChecks C ciphertext
  | .decryptAlert ciphertext => f.decryptAlert overflowChecks C ciphertext
  | .commitMessage msg => f.commitMessage config msg
  | .encryptMessage len => f.encryptMessage config C len
  | .decryptMessage => f.decryptMessage overflowChecks C
  | .closeConnection => f.closeConnection
  | .commit => f.commit C

/-- `ludi::run` of the follower on the messages of its mailbox, in order: a handler that fails
stops the actor with its error (`try_or_stop`), and `close_connection` stops it, so that the
messages after it are never handled. -/
def run : MpcTlsFollower → List MpcTlsMessage → Outcome MpcTlsError MpcTlsFollower
  | f, [] => .ok f
  | f, m :: ms => do
    let f ← f.handle overflowChecks config C m
    match m with
    | .closeConnection => pure f
    | _ => run f ms

end Handlers

/-! ### What each handler does

One inversion lemma per handler: a successful call says which state it ran in, what it checked,
and the follower it returns, as an update of the one before. Every statement about runs of the
follower reads the handlers through these. -/

section Inversion

variable {overflowChecks : Bool} {config : MpcTlsCommonConfig} {C : Components}
  {f f' : MpcTlsFollower}

theorem isAcceptingMessages_eq_ok {u : Unit} :
    f.isAcceptingMessages = .ok u ↔ f.closeNotify = false ∧ f.committed = false := by
  unfold isAcceptingMessages
  cases f.closeNotify <;> cases f.committed <;> simp

theorem computeKeyExchange_eq_ok {hc : Option Bytes} {sr : Bytes}
    (h : f.computeKeyExchange config C hc sr = .ok f') :
    f.state = .init ∧ ∃ serverKey, C.ke.serverKey = some serverKey ∧
      f' = { f with
        state := .ke ⟨hc, PublicKey.new .secp256r1 serverKey⟩
        encrypter := { f.encrypter with aead := ⟨f.encrypter.aead.calls ++ [.start]⟩ }
        decrypter := { f.decrypter with aead := ⟨f.decrypter.aead.calls ++ [.start]⟩ } } := by
  unfold computeKeyExchange at h
  obtain ⟨⟨⟩, hinit, h⟩ := Outcome.bind_eq_ok.1 h
  refine ⟨State.tryIntoInit_eq_ok.1 hinit, ?_⟩
  split_ifs at h with hcommit
  obtain ⟨⟨⟩, -, h⟩ := Outcome.bind_eq_ok.1 h
  obtain ⟨serverKey, hkey, h⟩ := Outcome.bind_eq_ok.1 h
  obtain ⟨⟨⟩, -, h⟩ := Outcome.bind_eq_ok.1 h
  obtain ⟨encrypter, henc, h⟩ := Outcome.bind_eq_ok.1 h
  obtain ⟨decrypter, hdec, h⟩ := Outcome.bind_eq_ok.1 h
  refine ⟨serverKey, Outcome.ofOption_eq_ok.1 hkey, ?_⟩
  rw [Encrypter.start_eq_ok C.encrypter henc, Decrypter.start_eq_ok C.decrypter hdec] at h
  exact (Outcome.ok.inj h).symm

theorem clientFinishedVd_eq_ok {hash : Bytes} (h : f.clientFinishedVd C hash = .ok f') :
    ∃ s vd, f.state = .ke s ∧ C.prf.computeClientFinishedVd hash = .ok vd ∧
      f' = { f with state := .cf ⟨s.handshakeCommitment, s.serverKey, vd⟩ } := by
  unfold clientFinishedVd at h
  obtain ⟨s, hs, h⟩ := Outcome.bind_eq_ok.1 h
  obtain ⟨vd, hvd, h⟩ := Outcome.bind_eq_ok.1 h
  exact ⟨s, vd, State.tryIntoKe_eq_ok.1 hs, Outcome.ofExcept_eq_ok.1 hvd, (Outcome.ok.inj h).symm⟩

theorem serverFinishedVd_eq_ok {hash : Bytes} (h : f.serverFinishedVd C hash = .ok f') :
    ∃ s v, f.state = .sf s ∧ s.serverFinished = some v ∧
      C.prf.computeServerFinishedVd hash = .ok v ∧
      f' = { f with state := .active ⟨s.handshakeCommitment, s.serverKey, []⟩ } := by
  unfold serverFinishedVd at h
  obtain ⟨s, hs, h⟩ := Outcome.bind_eq_ok.1 h
  obtain ⟨expected, hexp, h⟩ := Outcome.bind_eq_ok.1 h
  -- the only way on is a server Finished that was set, and that matches
  cases hsf : s.serverFinished with
  | none => simp [hsf] at h
  | some v =>
    simp only [hsf, ne_eq, ite_not] at h
    split_ifs at h with hv
    exact ⟨s, v, State.tryIntoSf_eq_ok.1 hs, hsf, hv ▸ Outcome.ofExcept_eq_ok.1 hexp,
      (Outcome.ok.inj h).symm⟩

theorem encryptClientFinished_eq_ok (h : f.encryptClientFinished C = .ok f') :
    ∃ s, f.state = .cf s ∧
      f' = { f with
        encrypter := f.encrypter.recorded .handshake 16
          (.apply .encryptPublic (encodeU64 (UInt64.ofNat f.encrypter.seq))
            (finishedPayload s.clientFinished) (makeTls12Aad f.encrypter.seq .handshake .tlsv1_2 16))
        state := .sf ⟨s.handshakeCommitment, s.serverKey, none⟩ } := by
  unfold encryptClientFinished at h
  obtain ⟨s, hs, h⟩ := Outcome.bind_eq_ok.1 h
  obtain ⟨⟨out, encrypter⟩, henc, h⟩ := Outcome.bind_eq_ok.1 h
  have he := Encrypter.encryptWith_eq_ok C.encrypter henc
  simp only [length_finishedPayload] at he
  refine ⟨s, State.tryIntoCf_eq_ok.1 hs, ?_⟩
  rw [← he]
  exact (Outcome.ok.inj h).symm

theorem encryptAlert_eq_ok {msg : Bytes} (h : f.encryptAlert C msg = .ok f') :
    f.closeNotify = false ∧ f.committed = false ∧
      (∃ alert, AlertMessagePayload.readBytes msg = some alert ∧
        alert.description = .closeNotify) ∧
      f' = { f with
        encrypter := f.encrypter.recorded .alert msg.length
          (.apply .encryptPublic (encodeU64 (UInt64.ofNat f.encrypter.seq)) msg
            (makeTls12Aad f.encrypter.seq .alert .tlsv1_2 msg.length)) } := by
  unfold encryptAlert at h
  obtain ⟨⟨⟩, hacc, h⟩ := Outcome.bind_eq_ok.1 h
  obtain ⟨hclose, hcommitted⟩ := isAcceptingMessages_eq_ok.1 hacc
  refine ⟨hclose, hcommitted, ?_⟩
  cases halert : AlertMessagePayload.readBytes msg with
  | none => simp [halert] at h
  | some alert =>
    simp only [halert, ne_eq, ite_not] at h
    split_ifs at h with hdesc
    obtain ⟨⟨out, encrypter⟩, henc, h⟩ := Outcome.bind_eq_ok.1 h
    refine ⟨⟨alert, rfl, hdesc⟩, ?_⟩
    rw [← Encrypter.encryptWith_eq_ok C.encrypter henc]
    exact (Outcome.ok.inj h).symm

theorem encryptMessage_eq_ok {len : ℕ} (h : f.encryptMessage config C len = .ok f') :
    f.closeNotify = false ∧ f.committed = false ∧
      f.encrypter.sentBytes + len ≤ config.txConfig.maxSize ∧ (∃ s, f.state = .active s) ∧
      f' = { f with
        encrypter := f.encrypter.recorded .applicationData len
          (.encryptBlind (encodeU64 (UInt64.ofNat f.encrypter.seq)) len
            (makeTls12Aad f.encrypter.seq .applicationData .tlsv1_2 len)) } := by
  unfold encryptMessage at h
  obtain ⟨⟨⟩, hacc, h⟩ := Outcome.bind_eq_ok.1 h
  obtain ⟨⟨⟩, hlen, h⟩ := Outcome.bind_eq_ok.1 h
  obtain ⟨s, hs, h⟩ := Outcome.bind_eq_ok.1 h
  obtain ⟨encrypter, henc, h⟩ := Outcome.bind_eq_ok.1 h
  obtain ⟨hclose, hcommitted⟩ := isAcceptingMessages_eq_ok.1 hacc
  refine ⟨hclose, hcommitted, checkTranscriptLength_sent_eq_ok.1 hlen,
    ⟨s, State.tryIntoActive_eq_ok.1 hs⟩, ?_⟩
  rw [← Encrypter.encryptBlind_eq_ok C.encrypter henc]
  exact (Outcome.ok.inj h).symm

theorem commitMessage_eq_ok {payload : Bytes} (h : f.commitMessage config payload = .ok f') :
    f.closeNotify = false ∧ f.committed = false ∧
      f.decrypter.recvBytes + payload.length ≤ config.rxConfig.maxSize ∧
      ∃ s, f.state = .active s ∧
        f' = { f with
          state := .active { s with buffer := s.buffer ++ [⟨.applicationData, .tlsv1_2, payload⟩] } } := by
  unfold commitMessage at h
  obtain ⟨⟨⟩, hacc, h⟩ := Outcome.bind_eq_ok.1 h
  obtain ⟨⟨⟩, hlen, h⟩ := Outcome.bind_eq_ok.1 h
  obtain ⟨s, hs, h⟩ := Outcome.bind_eq_ok.1 h
  obtain ⟨hclose, hcommitted⟩ := isAcceptingMessages_eq_ok.1 hacc
  exact ⟨hclose, hcommitted, checkTranscriptLength_recv_eq_ok.1 hlen, s,
    State.tryIntoActive_eq_ok.1 hs, (Outcome.ok.inj h).symm⟩

/-- The record of the server's Finished, as the follower rebuilds it from the ciphertext. -/
def serverFinishedRecord (ciphertext : Bytes) : OpaqueMessage := ⟨.handshake, .tlsv1_2, ciphertext⟩

/-- The record of an alert of the server, as the follower rebuilds it from the ciphertext. -/
def alertRecord (ciphertext : Bytes) : OpaqueMessage := ⟨.alert, .tlsv1_2, ciphertext⟩

theorem decryptServerFinished_eq_ok {msg : Bytes}
    (h : f.decryptServerFinished overflowChecks C msg = .ok f') :
    ∃ s plaintext v, f.state = .sf s ∧
      C.decrypter.answer (f.decrypter.prepareDecrypt .handshake).aead.calls
        (Decrypter.decryptCall .decryptPublic f.decrypter.seq (serverFinishedRecord msg)) =
          .ok plaintext ∧
      plaintext.length = 16 ∧ v.bytes = plaintext.drop 4 ∧
      f' = { f with
        decrypter := f.decrypter.recorded .decryptPublic (serverFinishedRecord msg)
        state := .sf { s with serverFinished := some v } } := by
  unfold decryptServerFinished at h
  obtain ⟨s, hs, h⟩ := Outcome.bind_eq_ok.1 h
  obtain ⟨⟨plain, decrypter⟩, hdec, h⟩ := Outcome.bind_eq_ok.1 h
  obtain ⟨-, rfl, hans, -⟩ := Decrypter.decryptWith_eq_ok C.decrypter overflowChecks hdec
  dsimp only at h
  split_ifs at h with hlen
  simp only [ne_eq, not_not] at hlen
  exact ⟨s, plain.payload, _, State.tryIntoSf_eq_ok.1 hs, hans, hlen, rfl, (Outcome.ok.inj h).symm⟩

theorem decryptAlert_eq_ok {msg : Bytes} (h : f.decryptAlert overflowChecks C msg = .ok f') :
    (∃ s, f.state = .active s) ∧
      (∃ plaintext alert, C.decrypter.answer (f.decrypter.prepareDecrypt .alert).aead.calls
          (Decrypter.decryptCall .decryptPublic f.decrypter.seq (alertRecord msg)) = .ok plaintext ∧
        AlertMessagePayload.readBytes plaintext = some alert ∧
        alert.description = .closeNotify) ∧
      f' = { f with
        decrypter := f.decrypter.recorded .decryptPublic (alertRecord msg)
        closeNotify := true } := by
  unfold decryptAlert at h
  obtain ⟨s, hs, h⟩ := Outcome.bind_eq_ok.1 h
  obtain ⟨⟨plain, decrypter⟩, hdec, h⟩ := Outcome.bind_eq_ok.1 h
  obtain ⟨-, rfl, hans, -⟩ := Decrypter.decryptWith_eq_ok C.decrypter overflowChecks hdec
  dsimp only at h
  cases halert : AlertMessagePayload.readBytes plain.payload with
  | none => simp [halert] at h
  | some alert =>
    simp only [halert, ne_eq, ite_not] at h
    split_ifs at h with hdesc
    exact ⟨⟨s, State.tryIntoActive_eq_ok.1 hs⟩, ⟨plain.payload, alert, hans, halert, hdesc⟩,
      (Outcome.ok.inj h).symm⟩

/-- An alert record of fewer than 24 bytes from the leader makes an active follower panic, where
`decrypt_alert` was to return an error. -/
theorem decryptAlert_of_lt {s : Follower.Active} {msg : Bytes} (hs : f.state = .active s)
    (h : msg.length < 24) : f.decryptAlert overflowChecks C msg = .panic := by
  have hdec : f.decrypter.decryptPublic C.decrypter overflowChecks ⟨.alert, .tlsv1_2, msg⟩ = .panic :=
    Decrypter.decryptWith_of_lt C.decrypter overflowChecks _ _ f.decrypter h
  simp only [decryptAlert, hs, State.tryIntoActive, Outcome.ok_bind, hdec, Outcome.panic_bind]

/-- The operation by which the follower decrypts a committed record: blind before the leader
committed, a verification of the leader's plaintext after. -/
def decryptOp (committed : Bool) : AeadOp := if committed then .verifyPlaintext else .decryptBlind

theorem decryptMessage_eq_ok (h : f.decryptMessage overflowChecks C = .ok f') :
    ∃ s msg rest, f.state = .active s ∧ s.buffer = msg :: rest ∧
      f' = { f with
        decrypter := f.decrypter.recorded (decryptOp f.committed) msg
        state := .active { s with buffer := rest } } := by
  unfold decryptMessage at h
  obtain ⟨s, hs, h⟩ := Outcome.bind_eq_ok.1 h
  cases hbuf : s.buffer with
  | nil => simp [hbuf] at h
  | cons msg rest =>
    simp only [hbuf] at h
    refine ⟨s, msg, rest, State.tryIntoActive_eq_ok.1 hs, hbuf, ?_⟩
    -- the handler decrypts blind or verifies, as the leader has committed or not
    cases hc : f.committed
    · simp only [hc, Bool.false_eq_true, if_false] at h
      obtain ⟨decrypter, hdec, h⟩ := Outcome.bind_eq_ok.1 h
      rw [(Decrypter.decryptBlind_eq_ok C.decrypter overflowChecks hdec).2] at h
      exact (Outcome.ok.inj h).symm
    · simp only [hc, ↓reduceIte] at h
      obtain ⟨decrypter, hdec, h⟩ := Outcome.bind_eq_ok.1 h
      rw [(Decrypter.verifyPlaintext_eq_ok C.decrypter overflowChecks hdec).2] at h
      exact (Outcome.ok.inj h).symm

theorem closeConnection_eq_ok (h : f.closeConnection = .ok f') :
    ∃ s, f.state = .active s ∧ s.buffer = [] ∧
      f' = { f with state := .closed ⟨s.handshakeCommitment, s.serverKey⟩ } := by
  unfold closeConnection at h
  obtain ⟨s, hs, h⟩ := Outcome.bind_eq_ok.1 h
  split_ifs at h with hbuf
  simp only [ne_eq, not_not] at hbuf
  exact ⟨s, State.tryIntoActive_eq_ok.1 hs, hbuf, (Outcome.ok.inj h).symm⟩

/-- The decrypter after the commitment: the key is revealed to the leader if records remain. -/
def revealKey (d : Decrypter) (buffer : List OpaqueMessage) : Decrypter :=
  if buffer = [] then d else { d with aead := ⟨d.aead.calls ++ [.decodeKeyBlind]⟩ }

theorem commit_eq_ok (h : f.commit C = .ok f') :
    ∃ s, f.state = .active s ∧
      f' = { f with committed := true, decrypter := revealKey f.decrypter s.buffer } := by
  unfold commit at h
  obtain ⟨s, hs, h⟩ := Outcome.bind_eq_ok.1 h
  refine ⟨s, State.tryIntoActive_eq_ok.1 hs, ?_⟩
  by_cases hbuf : s.buffer = []
  · simp only [hbuf, ne_eq, not_true_eq_false, if_false] at h
    simp [revealKey, hbuf, ← Outcome.ok.inj h]
  · simp only [hbuf, ne_eq, not_false_eq_true, if_true] at h
    obtain ⟨decrypter, hdec, h⟩ := Outcome.bind_eq_ok.1 h
    rw [Decrypter.decodeKeyBlind_eq_ok C.decrypter hdec] at h
    simp [revealKey, hbuf, ← Outcome.ok.inj h]

end Inversion

end MpcTlsFollower

end Tlsn.Mpc
