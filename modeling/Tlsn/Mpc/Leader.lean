import Tlsn.Mpc.Follower

/-!
# The MPC-TLS leader (`tls-mpc/src/leader.rs`)

The leader is the party that runs the TLS client: the client calls it through the `Backend`
interface to encrypt and decrypt records, and the leader sends the follower, on their channel, the
message that makes the follower take part in each step. Records the client receives are buffered
(`buffer_incoming`) and taken back one at a time (`next_incoming`), and the leader can defer their
decryption until it commits to the transcript, when the server's AEAD key is revealed to it.

The model starts at the end of the key exchange, with `prepare_encryption`, which sends the
follower the message of the key exchange and moves the leader from `Ke` to `Cf`. The data of the
handshake that the states carry (`MpcTlsData`), and the setters of the backend that fill it in, are
read by no operation after that and are left out, as is the notifier of the backend. The channel is
the list of messages the leader has sent, in order.
-/

namespace Tlsn.Mpc

open Codec Tls

/-- `BackendError` (`tls-backend`), in the variants the leader returns. -/
inductive BackendError
  | internalError (msg : String)
  | encryptionError (msg : String)
  | decryptionError (msg : String)
  deriving DecidableEq, Repr

/-- `From<MpcTlsError> for BackendError`. -/
def BackendError.ofMpcTlsError (e : MpcTlsError) : BackendError := .internalError e.toString

namespace Leader

/-- `State`, without the data of the handshake that its variants carry. -/
inductive State
  | ke | cf | sf | active | closed | error
  deriving DecidableEq, Repr

namespace State

/-- The error of `EnumTryAsInner` when the state is not the one expected. -/
def stateError (expected : String) : MpcTlsError := .new .state s!"expected state {expected}"

/-- `try_into_ke`. -/
def tryIntoKe : State → Outcome MpcTlsError Unit
  | ke => .ok ()
  | _ => .err (stateError "Ke")

/-- `try_into_cf`. -/
def tryIntoCf : State → Outcome MpcTlsError Unit
  | cf => .ok ()
  | _ => .err (stateError "Cf")

/-- `try_into_sf`. -/
def tryIntoSf : State → Outcome MpcTlsError Unit
  | sf => .ok ()
  | _ => .err (stateError "Sf")

/-- `try_into_active`, and `try_as_active`. -/
def tryIntoActive : State → Outcome MpcTlsError Unit
  | active => .ok ()
  | _ => .err (stateError "Active")

@[simp] theorem tryIntoKe_eq_ok {s : State} {u : Unit} : s.tryIntoKe = .ok u ↔ s = ke := by
  cases s <;> simp [tryIntoKe]

@[simp] theorem tryIntoCf_eq_ok {s : State} {u : Unit} : s.tryIntoCf = .ok u ↔ s = cf := by
  cases s <;> simp [tryIntoCf]

@[simp] theorem tryIntoSf_eq_ok {s : State} {u : Unit} : s.tryIntoSf = .ok u ↔ s = sf := by
  cases s <;> simp [tryIntoSf]

@[simp] theorem tryIntoActive_eq_ok {s : State} {u : Unit} :
    s.tryIntoActive = .ok u ↔ s = active := by
  cases s <;> simp [tryIntoActive]

end State

end Leader

open Leader

/-- `MpcTlsLeader`: the state of the leader actor. The configuration and the components are
parameters of its operations. -/
structure MpcTlsLeader where
  state : Leader.State
  /-- The messages sent to the follower, oldest first. -/
  channel : List MpcTlsMessage
  encrypter : Encrypter
  decrypter : Decrypter
  /-- Whether the backend is ready to decrypt messages. -/
  isDecrypting : Bool
  /-- Messages which have been committed but not yet decrypted. -/
  buffer : List OpaqueMessage
  /-- Whether the leader has committed to the transcript. -/
  committed : Bool

namespace MpcTlsLeader

/-- `MpcTlsLeader::new`, its AEADs set up. -/
def new (config : MpcTlsCommonConfig) : MpcTlsLeader where
  state := .ke
  channel := []
  encrypter := .new ⟨[]⟩ config.txConfig.id config.txConfig.opaqueId
  decrypter := .new ⟨[]⟩ config.rxConfig.id config.rxConfig.opaqueId
  isDecrypting := true
  buffer := []
  committed := false

section Operations

variable (overflowChecks : Bool) (config : MpcTlsCommonConfig) (C : Components)

/-- `channel.send`. -/
def send (l : MpcTlsLeader) (m : MpcTlsMessage) : MpcTlsLeader :=
  { l with channel := l.channel ++ [m] }

/-- `Backend::prepare_encryption`: the commitment to the handshake data, if the configuration asks
for one, is computed from the data of `Ke` and is a parameter here. -/
def prepareEncryption (l : MpcTlsLeader) (handshakeCommitment : Option Bytes)
    (serverRandom : Bytes) : Outcome MpcTlsError MpcTlsLeader := do
  l.state.tryIntoKe
  let l := l.send (.computeKeyExchange handshakeCommitment serverRandom)
  Outcome.ofExcept MpcTlsError.ofKeyExchangeError C.ke.computePms
  Outcome.ofExcept MpcTlsError.ofPrfError (C.prf.computeSessionKeys serverRandom)
  let encrypter ← l.encrypter.start C.encrypter
  let decrypter ← l.decrypter.start C.decrypter
  pure { l with encrypter, decrypter, state := .cf }

/-- `check_transcript_length`. -/
def checkTranscriptLength (l : MpcTlsLeader) (direction : Direction) (len : ℕ) :
    Outcome MpcTlsError Unit :=
  Mpc.checkTranscriptLength config l.encrypter l.decrypter direction len

/-- `encrypt_client_finished`. -/
def encryptClientFinished (l : MpcTlsLeader) (msg : PlainMessage) :
    Outcome MpcTlsError (OpaqueMessage × MpcTlsLeader) := do
  l.state.tryIntoCf
  let l := l.send .encryptClientFinished
  let (out, encrypter) ← l.encrypter.encryptPublic C.encrypter msg
  pure (out, { l with encrypter, state := .sf })

/-- `encrypt_alert`: only a CloseNotify is sent. -/
def encryptAlert (l : MpcTlsLeader) (msg : PlainMessage) :
    Outcome MpcTlsError (OpaqueMessage × MpcTlsLeader) :=
  match AlertMessagePayload.readBytes msg.payload with
  | none => .err (.other "attempted to send an alert other than CloseNotify")
  | some alert =>
    if alert.description ≠ .closeNotify then
      .err (.other "attempted to send an alert other than CloseNotify")
    else do
      let l := l.send (.encryptAlert msg.payload)
      let (out, encrypter) ← l.encrypter.encryptPublic C.encrypter msg
      pure (out, { l with encrypter })

/-- `encrypt_application_data`. -/
def encryptApplicationData (l : MpcTlsLeader) (msg : PlainMessage) :
    Outcome MpcTlsError (OpaqueMessage × MpcTlsLeader) := do
  l.state.tryIntoActive
  l.checkTranscriptLength config .sent msg.payload.length
  let l := l.send (.encryptMessage msg.payload.length)
  let (out, encrypter) ← l.encrypter.encryptPrivate C.encrypter msg
  pure (out, { l with encrypter })

/-- `decrypt_server_finished`. -/
def decryptServerFinished (l : MpcTlsLeader) (msg : OpaqueMessage) :
    Outcome MpcTlsError (PlainMessage × MpcTlsLeader) := do
  l.state.tryIntoSf
  let l := l.send (.decryptServerFinished msg.payload)
  let (out, decrypter) ← l.decrypter.decryptPublic C.decrypter overflowChecks msg
  pure (out, { l with decrypter, state := .active })

/-- `decrypt_alert`. -/
def decryptAlert (l : MpcTlsLeader) (msg : OpaqueMessage) :
    Outcome MpcTlsError (PlainMessage × MpcTlsLeader) := do
  l.state.tryIntoActive
  let l := l.send (.decryptAlert msg.payload)
  let (out, decrypter) ← l.decrypter.decryptPublic C.decrypter overflowChecks msg
  pure (out, { l with decrypter })

/-- `decrypt_application_data`: decrypted in MPC before the commitment, and by the leader alone,
proving the plaintext to the follower, after it. -/
def decryptApplicationData (l : MpcTlsLeader) (msg : OpaqueMessage) :
    Outcome MpcTlsError (PlainMessage × MpcTlsLeader) := do
  l.state.tryIntoActive
  l.checkTranscriptLength config .recv msg.payload.length
  let l := l.send .decryptMessage
  if l.committed then do
    let (out, decrypter) ← l.decrypter.provePlaintext C.decrypter overflowChecks msg
    pure (out, { l with decrypter })
  else do
    let (out, decrypter) ← l.decrypter.decryptPrivate C.decrypter overflowChecks msg
    pure (out, { l with decrypter })

/-- `commit`: the AEAD key is revealed to the leader only if records remain to be decrypted. -/
def commit (l : MpcTlsLeader) : Outcome MpcTlsError MpcTlsLeader := do
  l.state.tryIntoActive
  let l := { l.send .commit with committed := true }
  if l.buffer ≠ [] then do
    let decrypter ← l.decrypter.decodeKeyPrivate C.decrypter
    pure { l with decrypter, isDecrypting := true }
  else pure l

/-- `close_connection`: the message is sent before the state is checked. -/
def closeConnection (l : MpcTlsLeader) : Outcome MpcTlsError MpcTlsLeader := do
  let l := l.send .closeConnection
  l.state.tryIntoActive
  pure { l with state := .closed }

/-- `defer_decryption`. -/
def deferDecryption (l : MpcTlsLeader) : MpcTlsLeader :=
  if l.committed then l else { l with isDecrypting := false }

/-- `Backend::get_server_finished_vd`. -/
def getServerFinishedVd (l : MpcTlsLeader) (hash : Bytes) :
    Outcome BackendError (Bytes × MpcTlsLeader) :=
  if hash.length ≠ 32 then
    .err (.ofMpcTlsError (.other "server finished handshake hash is not 32 bytes"))
  else do
    let l := l.send (.serverFinishedVd hash)
    let vd ← Outcome.ofExcept (fun e => .ofMpcTlsError (.ofPrfError e))
      (C.prf.computeServerFinishedVd hash)
    pure (vd.bytes, l)

/-- `Backend::get_client_finished_vd`. -/
def getClientFinishedVd (l : MpcTlsLeader) (hash : Bytes) :
    Outcome BackendError (Bytes × MpcTlsLeader) :=
  if hash.length ≠ 32 then
    .err (.ofMpcTlsError (.other "client finished handshake hash is not 32 bytes"))
  else do
    let l := l.send (.clientFinishedVd hash)
    let vd ← Outcome.ofExcept (fun e => .ofMpcTlsError (.ofPrfError e))
      (C.prf.computeClientFinishedVd hash)
    pure (vd.bytes, l)

/-- `Backend::encrypt`: the client's Finished, application data or an alert. -/
def encrypt (l : MpcTlsLeader) (msg : PlainMessage) :
    Outcome BackendError (OpaqueMessage × MpcTlsLeader) :=
  match msg.typ with
  | .handshake => (l.encryptClientFinished C msg).mapErr .ofMpcTlsError
  | .applicationData => (l.encryptApplicationData config C msg).mapErr .ofMpcTlsError
  | .alert => (l.encryptAlert C msg).mapErr .ofMpcTlsError
  | _ => .err (.encryptionError "unexpected content type")

/-- `Backend::decrypt`: the server's Finished, application data or an alert. -/
def decrypt (l : MpcTlsLeader) (msg : OpaqueMessage) :
    Outcome BackendError (PlainMessage × MpcTlsLeader) :=
  match msg.typ with
  | .handshake => (l.decryptServerFinished overflowChecks C msg).mapErr .ofMpcTlsError
  | .applicationData => (l.decryptApplicationData overflowChecks config C msg).mapErr .ofMpcTlsError
  | .alert => (l.decryptAlert overflowChecks C msg).mapErr .ofMpcTlsError
  | _ => .err (.decryptionError "unexpected content type")

/-- `Backend::buffer_incoming`: a record of application data is committed to with the follower
when it is buffered. -/
def bufferIncoming (l : MpcTlsLeader) (msg : OpaqueMessage) : Outcome BackendError MpcTlsLeader :=
  if l.committed then
    .err (.internalError "cannot buffer messages after committing to transcript")
  else
    let l := if msg.typ = .applicationData then l.send (.commitMessage msg.payload) else l
    .ok { l with buffer := l.buffer ++ [msg] }

/-- `Backend::next_incoming`: nothing while decryption is deferred in `Active`, else the oldest
buffered record. -/
def nextIncoming (l : MpcTlsLeader) : Option OpaqueMessage × MpcTlsLeader :=
  if !l.isDecrypting && l.state = .active then (none, l)
  else
    match l.buffer with
    | [] => (none, l)
    | msg :: buffer => (some msg, { l with buffer })

/-- `Backend::server_closed`. -/
def serverClosed (l : MpcTlsLeader) : Outcome BackendError MpcTlsLeader :=
  (l.commit C).mapErr .ofMpcTlsError

end Operations

end MpcTlsLeader

/-- What the TLS client and the prover ask of the leader once the key exchange is done. -/
inductive LeaderOp
  | getClientFinishedVd (hash : Bytes)
  | getServerFinishedVd (hash : Bytes)
  | encrypt (msg : PlainMessage)
  | bufferIncoming (msg : OpaqueMessage)
  /-- `next_incoming`, and `decrypt` of the record it returns. -/
  | decryptNext
  | deferDecryption
  | commit
  | serverClosed
  | closeConnection

namespace MpcTlsLeader

section Step

variable (overflowChecks : Bool) (config : MpcTlsCommonConfig) (C : Components)

/-- One operation of the leader; an error of the actor itself is returned as the backend's. -/
def step (l : MpcTlsLeader) : LeaderOp → Outcome BackendError MpcTlsLeader
  | .getClientFinishedVd hash => do
    let (_, l) ← l.getClientFinishedVd C hash
    pure l
  | .getServerFinishedVd hash => do
    let (_, l) ← l.getServerFinishedVd C hash
    pure l
  | .encrypt msg => do
    let (_, l) ← l.encrypt config C msg
    pure l
  | .bufferIncoming msg => l.bufferIncoming msg
  | .decryptNext =>
    match l.nextIncoming with
    | (none, l) => .ok l
    | (some msg, l) => do
      let (_, l) ← l.decrypt overflowChecks config C msg
      pure l
  | .deferDecryption => .ok l.deferDecryption
  | .commit => (l.commit C).mapErr .ofMpcTlsError
  | .serverClosed => l.serverClosed C
  | .closeConnection => (l.closeConnection).mapErr .ofMpcTlsError

end Step

/-! ### What each operation does

One inversion lemma per operation of the leader: a successful call gives the leader after it, as an
update of the one before, with the message it sent appended to the channel. -/

section Inversion

variable {overflowChecks : Bool} {config : MpcTlsCommonConfig} {C : Components}
  {l l' : MpcTlsLeader}

@[simp] theorem send_channel (l : MpcTlsLeader) (m : MpcTlsMessage) :
    (l.send m).channel = l.channel ++ [m] := rfl

@[simp] theorem send_buffer (l : MpcTlsLeader) (m : MpcTlsMessage) :
    (l.send m).buffer = l.buffer := rfl

@[simp] theorem send_encrypter (l : MpcTlsLeader) (m : MpcTlsMessage) :
    (l.send m).encrypter = l.encrypter := rfl

@[simp] theorem send_decrypter (l : MpcTlsLeader) (m : MpcTlsMessage) :
    (l.send m).decrypter = l.decrypter := rfl

@[simp] theorem send_committed (l : MpcTlsLeader) (m : MpcTlsMessage) :
    (l.send m).committed = l.committed := rfl

@[simp] theorem deferDecryption_channel (l : MpcTlsLeader) :
    l.deferDecryption.channel = l.channel := by
  unfold deferDecryption
  split_ifs <;> rfl

/-- An operation whose result the step drops: the leader after it is the one it returned. -/
theorem drop_eq_ok {α : Type} {x : Outcome BackendError (α × MpcTlsLeader)}
    (h : (do let (_, l) ← x; pure l) = .ok l') : ∃ a, x = .ok (a, l') := by
  obtain ⟨⟨a, l₁⟩, hx, h⟩ := Outcome.bind_eq_ok.1 h
  exact ⟨a, (Outcome.ok.inj h) ▸ hx⟩

theorem getClientFinishedVd_eq_ok {hash vd : Bytes}
    (h : l.getClientFinishedVd C hash = .ok (vd, l')) : l' = l.send (.clientFinishedVd hash) := by
  unfold getClientFinishedVd at h
  split_ifs at h with hlen
  obtain ⟨v, -, h⟩ := Outcome.bind_eq_ok.1 h
  exact (Prod.mk.inj (Outcome.ok.inj h)).2.symm

theorem getServerFinishedVd_eq_ok {hash vd : Bytes}
    (h : l.getServerFinishedVd C hash = .ok (vd, l')) : l' = l.send (.serverFinishedVd hash) := by
  unfold getServerFinishedVd at h
  split_ifs at h with hlen
  obtain ⟨v, -, h⟩ := Outcome.bind_eq_ok.1 h
  exact (Prod.mk.inj (Outcome.ok.inj h)).2.symm

/-- The encrypter after the record `msg` went through the AEAD by `op`, with the sequence number as
its explicit nonce. -/
def encrypted (e : Encrypter) (op : AeadOp) (msg : PlainMessage) : Encrypter :=
  e.recorded msg.typ msg.payload.length (.apply op (encodeU64 (UInt64.ofNat e.seq)) msg.payload
    (makeTls12Aad e.seq msg.typ msg.version msg.payload.length))

theorem encryptClientFinished_eq_ok {msg : PlainMessage} {out : OpaqueMessage}
    (h : l.encryptClientFinished C msg = .ok (out, l')) :
    l.state = .cf ∧
      l' = { l.send .encryptClientFinished with
        encrypter := encrypted l.encrypter .encryptPublic msg, state := .sf } := by
  unfold encryptClientFinished at h
  obtain ⟨⟨⟩, hs, h⟩ := Outcome.bind_eq_ok.1 h
  obtain ⟨⟨out', encrypter⟩, henc, h⟩ := Outcome.bind_eq_ok.1 h
  rw [Encrypter.encryptWith_eq_ok C.encrypter henc] at h
  exact ⟨State.tryIntoCf_eq_ok.1 hs, (Prod.mk.inj (Outcome.ok.inj h)).2.symm⟩

theorem encryptAlert_eq_ok {msg : PlainMessage} {out : OpaqueMessage}
    (h : l.encryptAlert C msg = .ok (out, l')) :
    (∃ alert, AlertMessagePayload.readBytes msg.payload = some alert ∧
      alert.description = .closeNotify) ∧
      l' = { l.send (.encryptAlert msg.payload) with
        encrypter := encrypted l.encrypter .encryptPublic msg } := by
  unfold encryptAlert at h
  cases halert : AlertMessagePayload.readBytes msg.payload with
  | none => simp [halert] at h
  | some alert =>
    simp only [halert, ne_eq, ite_not] at h
    split_ifs at h with hdesc
    obtain ⟨⟨out', encrypter⟩, henc, h⟩ := Outcome.bind_eq_ok.1 h
    rw [Encrypter.encryptWith_eq_ok C.encrypter henc] at h
    exact ⟨⟨alert, rfl, hdesc⟩, (Prod.mk.inj (Outcome.ok.inj h)).2.symm⟩

theorem encryptApplicationData_eq_ok {msg : PlainMessage} {out : OpaqueMessage}
    (h : l.encryptApplicationData config C msg = .ok (out, l')) :
    l.state = .active ∧ l.encrypter.sentBytes + msg.payload.length ≤ config.txConfig.maxSize ∧
      l' = { l.send (.encryptMessage msg.payload.length) with
        encrypter := encrypted l.encrypter .encryptPrivate msg } := by
  unfold encryptApplicationData at h
  obtain ⟨⟨⟩, hs, h⟩ := Outcome.bind_eq_ok.1 h
  obtain ⟨⟨⟩, hlen, h⟩ := Outcome.bind_eq_ok.1 h
  obtain ⟨⟨out', encrypter⟩, henc, h⟩ := Outcome.bind_eq_ok.1 h
  rw [Encrypter.encryptWith_eq_ok C.encrypter henc] at h
  exact ⟨State.tryIntoActive_eq_ok.1 hs, checkTranscriptLength_sent_eq_ok.1 hlen,
    (Prod.mk.inj (Outcome.ok.inj h)).2.symm⟩

theorem decryptServerFinished_eq_ok {msg : OpaqueMessage} {out : PlainMessage}
    (h : l.decryptServerFinished overflowChecks C msg = .ok (out, l')) :
    l.state = .sf ∧
      l' = { l.send (.decryptServerFinished msg.payload) with
        decrypter := l.decrypter.recorded .decryptPublic msg, state := .active } := by
  unfold decryptServerFinished at h
  obtain ⟨⟨⟩, hs, h⟩ := Outcome.bind_eq_ok.1 h
  obtain ⟨⟨out', decrypter⟩, hdec, h⟩ := Outcome.bind_eq_ok.1 h
  obtain ⟨-, rfl, -⟩ := Decrypter.decryptWith_eq_ok C.decrypter overflowChecks hdec
  exact ⟨State.tryIntoSf_eq_ok.1 hs, (Prod.mk.inj (Outcome.ok.inj h)).2.symm⟩

theorem decryptAlert_eq_ok {msg : OpaqueMessage} {out : PlainMessage}
    (h : l.decryptAlert overflowChecks C msg = .ok (out, l')) :
    l.state = .active ∧
      l' = { l.send (.decryptAlert msg.payload) with
        decrypter := l.decrypter.recorded .decryptPublic msg } := by
  unfold decryptAlert at h
  obtain ⟨⟨⟩, hs, h⟩ := Outcome.bind_eq_ok.1 h
  obtain ⟨⟨out', decrypter⟩, hdec, h⟩ := Outcome.bind_eq_ok.1 h
  obtain ⟨-, rfl, -⟩ := Decrypter.decryptWith_eq_ok C.decrypter overflowChecks hdec
  exact ⟨State.tryIntoActive_eq_ok.1 hs, (Prod.mk.inj (Outcome.ok.inj h)).2.symm⟩

/-- The operation by which the leader decrypts a record of application data: in MPC before the
commitment, alone and proving the plaintext after it. -/
def decryptOp (committed : Bool) : AeadOp :=
  if committed then .provePlaintext else .decryptPrivate

theorem decryptApplicationData_eq_ok {msg : OpaqueMessage} {out : PlainMessage}
    (h : l.decryptApplicationData overflowChecks config C msg = .ok (out, l')) :
    l.state = .active ∧ l.decrypter.recvBytes + msg.payload.length ≤ config.rxConfig.maxSize ∧
      l' = { l.send .decryptMessage with
        decrypter := l.decrypter.recorded (decryptOp l.committed) msg } := by
  unfold decryptApplicationData at h
  obtain ⟨⟨⟩, hs, h⟩ := Outcome.bind_eq_ok.1 h
  obtain ⟨⟨⟩, hlen, h⟩ := Outcome.bind_eq_ok.1 h
  refine ⟨State.tryIntoActive_eq_ok.1 hs, checkTranscriptLength_recv_eq_ok.1 hlen, ?_⟩
  -- the leader decrypts in MPC or proves its plaintext, as it has committed or not
  dsimp only at h
  split at h
  · rename_i hc
    obtain ⟨⟨out', decrypter⟩, hdec, h⟩ := Outcome.bind_eq_ok.1 h
    obtain ⟨-, rfl, -⟩ := Decrypter.decryptWith_eq_ok C.decrypter overflowChecks hdec
    rw [decryptOp, if_pos (show l.committed = true from hc)]
    exact (Prod.mk.inj (Outcome.ok.inj h)).2.symm
  · rename_i hc
    obtain ⟨⟨out', decrypter⟩, hdec, h⟩ := Outcome.bind_eq_ok.1 h
    obtain ⟨-, rfl, -⟩ := Decrypter.decryptWith_eq_ok C.decrypter overflowChecks hdec
    rw [decryptOp, if_neg (show ¬l.committed = true from hc)]
    exact (Prod.mk.inj (Outcome.ok.inj h)).2.symm

/-- The decrypter after the commitment: the key is revealed to the leader if records remain. -/
def revealKey (d : Decrypter) (buffer : List OpaqueMessage) : Decrypter :=
  if buffer = [] then d else { d with aead := ⟨d.aead.calls ++ [.decodeKeyPrivate]⟩ }

theorem commit_eq_ok (h : l.commit C = .ok l') :
    l.state = .active ∧
      l' = { l.send .commit with
        committed := true
        decrypter := revealKey l.decrypter l.buffer
        isDecrypting := if l.buffer = [] then l.isDecrypting else true } := by
  unfold commit at h
  obtain ⟨⟨⟩, hs, h⟩ := Outcome.bind_eq_ok.1 h
  refine ⟨State.tryIntoActive_eq_ok.1 hs, ?_⟩
  by_cases hbuf : l.buffer = []
  · simp only [send, hbuf, ne_eq, not_true_eq_false, ↓reduceIte] at h
    simp [revealKey, hbuf, ← Outcome.ok.inj h, send]
  · simp only [send, hbuf, ne_eq, not_false_eq_true, ↓reduceIte] at h
    obtain ⟨decrypter, hdec, h⟩ := Outcome.bind_eq_ok.1 h
    rw [Decrypter.decodeKeyPrivate_eq_ok C.decrypter hdec] at h
    simp [revealKey, hbuf, ← Outcome.ok.inj h, send]

theorem closeConnection_eq_ok (h : l.closeConnection = .ok l') :
    l.state = .active ∧ l' = { l.send .closeConnection with state := .closed } := by
  unfold closeConnection at h
  obtain ⟨⟨⟩, hs, h⟩ := Outcome.bind_eq_ok.1 h
  exact ⟨State.tryIntoActive_eq_ok.1 hs, (Outcome.ok.inj h).symm⟩

theorem bufferIncoming_eq_ok {msg : OpaqueMessage} (h : l.bufferIncoming msg = .ok l') :
    l.committed = false ∧
      l' = { (if msg.typ = .applicationData then l.send (.commitMessage msg.payload) else l) with
        buffer := l.buffer ++ [msg] } := by
  unfold bufferIncoming at h
  split_ifs at h with hc hty
  · refine ⟨by simpa using hc, ?_⟩
    rw [if_pos hty]
    exact (Outcome.ok.inj h).symm
  · refine ⟨by simpa using hc, ?_⟩
    rw [if_neg hty]
    exact (Outcome.ok.inj h).symm

/-- `next_incoming` returns nothing, or takes the oldest buffered record. -/
theorem nextIncoming_cases (l : MpcTlsLeader) :
    l.nextIncoming = (none, l) ∨
      ∃ msg buffer, l.buffer = msg :: buffer ∧ l.nextIncoming = (some msg, { l with buffer }) := by
  unfold nextIncoming
  split_ifs
  · exact .inl rfl
  · cases hbuf : l.buffer with
    | nil => exact .inl rfl
    | cons msg buffer => exact .inr ⟨msg, buffer, rfl, rfl⟩

end Inversion

/-! ### The leader numbers its records

Every record the leader encrypts or decrypts reaches its AEAD with the explicit nonce and the
additional data of the sequence number at which it is processed: `Encrypter.Numbered` and
`Decrypter.Numbered` hold of the leader's record layer at the end of the key exchange
(`numbered_prepareEncryption`) and after every operation (`Numbered.step`). -/

section Numbered

variable {overflowChecks : Bool} {config : MpcTlsCommonConfig} {C : Components}
  {l l' : MpcTlsLeader}

/-- The leader's record layer numbers its records, in both directions. -/
structure Numbered (l : MpcTlsLeader) : Prop where
  encrypter : l.encrypter.Numbered
  decrypter : l.decrypter.Numbered

theorem numbered_encrypted {e : Encrypter} (h : e.Numbered) (op : AeadOp) (msg : PlainMessage) :
    (encrypted e op msg).Numbered :=
  h.recorded _ _ (Or.inl ⟨op, msg, rfl⟩)

theorem Numbered.encrypt (h : l.Numbered) {msg : PlainMessage} {out : OpaqueMessage}
    (hs : l.encrypt config C msg = .ok (out, l')) : l'.Numbered := by
  unfold MpcTlsLeader.encrypt at hs
  split at hs
  next =>
    obtain ⟨-, rfl⟩ := encryptClientFinished_eq_ok (Outcome.mapErr_eq_ok.1 hs)
    exact ⟨numbered_encrypted h.encrypter _ _, h.decrypter⟩
  next =>
    obtain ⟨-, -, rfl⟩ := encryptApplicationData_eq_ok (Outcome.mapErr_eq_ok.1 hs)
    exact ⟨numbered_encrypted h.encrypter _ _, h.decrypter⟩
  next =>
    obtain ⟨-, rfl⟩ := encryptAlert_eq_ok (Outcome.mapErr_eq_ok.1 hs)
    exact ⟨numbered_encrypted h.encrypter _ _, h.decrypter⟩
  next => cases hs

theorem Numbered.decrypt (h : l.Numbered) {msg : OpaqueMessage} {out : PlainMessage}
    (hs : l.decrypt overflowChecks config C msg = .ok (out, l')) : l'.Numbered := by
  unfold MpcTlsLeader.decrypt at hs
  split at hs
  next =>
    obtain ⟨-, rfl⟩ := decryptServerFinished_eq_ok (Outcome.mapErr_eq_ok.1 hs)
    exact ⟨h.encrypter, h.decrypter.recorded _ _⟩
  next =>
    obtain ⟨-, -, rfl⟩ := decryptApplicationData_eq_ok (Outcome.mapErr_eq_ok.1 hs)
    exact ⟨h.encrypter, h.decrypter.recorded _ _⟩
  next =>
    obtain ⟨-, rfl⟩ := decryptAlert_eq_ok (Outcome.mapErr_eq_ok.1 hs)
    exact ⟨h.encrypter, h.decrypter.recorded _ _⟩
  next => cases hs

theorem Numbered.commit (h : l.Numbered) (hs : l.commit C = .ok l') : l'.Numbered := by
  obtain ⟨-, rfl⟩ := commit_eq_ok hs
  refine ⟨h.encrypter, ?_⟩
  -- the reveal of the key passes no record to the AEAD
  show (revealKey l.decrypter l.buffer).Numbered
  unfold revealKey
  split_ifs
  · exact h.decrypter
  · exact h.decrypter.append_none rfl

/-- **One step.** Every operation of the leader keeps its records numbered. -/
theorem Numbered.step (h : l.Numbered) {op : LeaderOp}
    (hs : l.step overflowChecks config C op = .ok l') : l'.Numbered := by
  cases op with
  | getClientFinishedVd hash =>
    obtain ⟨vd, hs⟩ := drop_eq_ok hs
    obtain rfl := getClientFinishedVd_eq_ok hs
    exact ⟨h.encrypter, h.decrypter⟩
  | getServerFinishedVd hash =>
    obtain ⟨vd, hs⟩ := drop_eq_ok hs
    obtain rfl := getServerFinishedVd_eq_ok hs
    exact ⟨h.encrypter, h.decrypter⟩
  | encrypt msg =>
    obtain ⟨out, hs⟩ := drop_eq_ok hs
    exact h.encrypt hs
  | bufferIncoming msg =>
    obtain ⟨-, rfl⟩ := bufferIncoming_eq_ok hs
    split_ifs
    · exact ⟨h.encrypter, h.decrypter⟩
    · exact ⟨h.encrypter, h.decrypter⟩
  | decryptNext =>
    simp only [MpcTlsLeader.step] at hs
    -- `next_incoming` gives nothing, or the oldest buffered record, which is decrypted
    rcases nextIncoming_cases l with hn | ⟨msg, rest, -, hn⟩
    · rw [hn] at hs
      obtain rfl := Outcome.ok.inj hs
      exact h
    · rw [hn] at hs
      obtain ⟨out, hs⟩ := drop_eq_ok hs
      exact Numbered.decrypt (l := { l with buffer := rest }) ⟨h.encrypter, h.decrypter⟩ hs
  | deferDecryption =>
    obtain rfl := Outcome.ok.inj hs
    unfold deferDecryption
    split_ifs
    · exact h
    · exact ⟨h.encrypter, h.decrypter⟩
  | commit => exact h.commit (Outcome.mapErr_eq_ok.1 hs)
  | serverClosed => exact h.commit (Outcome.mapErr_eq_ok.1 hs)
  | closeConnection =>
    obtain ⟨-, rfl⟩ := closeConnection_eq_ok (Outcome.mapErr_eq_ok.1 hs)
    exact ⟨h.encrypter, h.decrypter⟩

end Numbered

end MpcTlsLeader

end Tlsn.Mpc
