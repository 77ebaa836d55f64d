import Tlsn.Tls.Base
import Tlsn.Lib.Outcome
import Tlsn.Aead.AesGcm

/-!
# The MPC-TLS record layer (`tls-mpc/src/record_layer.rs`)

Each party of MPC-TLS encrypts the records it sends and decrypts those it receives jointly with
the other party, through an `Encrypter` and a `Decrypter`. Both keep the TLS sequence number and
count the bytes of application data; for every record they choose the transcript id of the
stream cipher (application data, or everything else) and pass the explicit nonce and the additional
data of TLS 1.2 (`make_tls12_aad`) to the AEAD.

The AEAD (`Box<dyn aead::Aead>`, a two-party AES-GCM) is a black box here: `AeadBox` is the list of
calls made to it, which stands for its state, and `Aead` is its behaviour, an answer to each call
given the calls before. Every statement about the record layer is for every behaviour. Of
`MpcAesGcm`, the AEAD that MPC-TLS builds, one statement is modelled: a decryption first splits the
tag off its text (`AeadBox.decrypt`, through `Aead.splitTag`). Whether the build has overflow checks
is a parameter of the decrypter: its `payload.0.len() - 16` panics on underflow with them and wraps
without, and a record too short for a tag then panics in that split (`decrypt_short_record_panics`).

Both halves number their records: the `k`-th record given to the AEAD has the additional data of
sequence number `k` and of the record's type, version and length, and the encrypter gives it the
explicit nonce of `k` (`Encrypter.Numbered`, `Decrypter.Numbered`).
`MpcTlsError` keeps the kind and the message of an error (`error.rs`); the source error it boxes is
not kept.
-/

namespace Tlsn.Mpc

open Codec Tls

/-! ### Errors -/

/-- `Kind`: the kind of an MPC-TLS error. -/
inductive Kind
  | state | ctx | io | mpc | keyExchange | prf | encrypt | decrypt | config | peerMisbehaved
  | other
  deriving DecidableEq, Repr

/-- `MpcTlsError`. -/
structure MpcTlsError where
  kind : Kind
  msg : String
  deriving DecidableEq, Repr

/-- `MpcTlsError::new`. -/
def MpcTlsError.new (kind : Kind) (msg : String) : MpcTlsError := ⟨kind, msg⟩

/-- `MpcTlsError::other`. -/
def MpcTlsError.other (msg : String) : MpcTlsError := ⟨.other, msg⟩

/-- `Display for Kind`. -/
def Kind.toString : Kind → String
  | .state => "State"
  | .ctx => "Context"
  | .io => "Io"
  | .mpc => "Mpc"
  | .keyExchange => "KeyExchange"
  | .prf => "Prf"
  | .encrypt => "Encryption"
  | .decrypt => "Decryption"
  | .config => "Config"
  | .peerMisbehaved => "PeerMisbehaved"
  | .other => "Other"

/-- The text of an MPC-TLS error (`#[error(..)]`). -/
def MpcTlsError.toString (e : MpcTlsError) : String :=
  "mpc-tls error: kind " ++ e.kind.toString ++ ", msg: " ++ e.msg

/-- `From<KeyExchangeError> for MpcTlsError`. -/
def MpcTlsError.ofKeyExchangeError (_ : String) : MpcTlsError := ⟨.keyExchange, "key exchange error"⟩

/-- `From<PrfError> for MpcTlsError`. -/
def MpcTlsError.ofPrfError (_ : String) : MpcTlsError := ⟨.prf, "prf error"⟩

/-! ### Records -/

/-- `OpaqueMessage`: a record as sent on the wire, its payload encrypted. -/
structure OpaqueMessage where
  typ : ContentType
  version : ProtocolVersion
  payload : Bytes
  deriving DecidableEq, Repr

/-- `PlainMessage`: a record with its payload in the clear. -/
structure PlainMessage where
  typ : ContentType
  version : ProtocolVersion
  payload : Bytes
  deriving DecidableEq, Repr

/-- `make_tls12_aad` (`tls-core/src/cipher.rs`): the sequence number, the content type, the
version and the length of the plaintext, in thirteen bytes. -/
def makeTls12Aad (seq : ℕ) (typ : ContentType) (vers : ProtocolVersion) (len : ℕ) : Bytes :=
  encodeU64 (UInt64.ofNat seq) ++ [typ.getU8] ++ encodeU16 vers.getU16 ++
    encodeU16 (UInt16.ofNat len)

/-! ### The AEAD -/

/-- The operations of `aead::Aead` on a record whose text both parties, or one of them, supply. -/
inductive AeadOp
  | encryptPrivate | encryptPublic
  | decryptPrivate | decryptBlind | decryptPublic | provePlaintext | verifyPlaintext
  deriving DecidableEq, Repr

/-- A call of `aead::Aead` made by the record layer. -/
inductive AeadCall
  | start
  | setTranscriptId (id : String)
  /-- A record operation with its explicit nonce, its text (a plaintext to encrypt, or a ciphertext
  and its tag to decrypt) and its additional data. -/
  | apply (op : AeadOp) (explicitNonce : Bytes) (text : Bytes) (aad : Bytes)
  /-- `encrypt_blind`: the other party supplies the plaintext, of which only the length is
  known. -/
  | encryptBlind (explicitNonce : Bytes) (len : ℕ) (aad : Bytes)
  | decodeKeyPrivate
  | decodeKeyBlind
  deriving DecidableEq, Repr

namespace AeadCall

/-- The explicit nonce and the additional data of a record operation. -/
def nonceAad : AeadCall → Option (Bytes × Bytes)
  | apply _ explicitNonce _ aad => some (explicitNonce, aad)
  | encryptBlind explicitNonce _ aad => some (explicitNonce, aad)
  | _ => none

@[simp] theorem nonceAad_apply (op : AeadOp) (explicitNonce text aad : Bytes) :
    (apply op explicitNonce text aad).nonceAad = some (explicitNonce, aad) := rfl

@[simp] theorem nonceAad_encryptBlind (explicitNonce : Bytes) (len : ℕ) (aad : Bytes) :
    (encryptBlind explicitNonce len aad).nonceAad = some (explicitNonce, aad) := rfl

@[simp] theorem nonceAad_start : start.nonceAad = none := rfl

@[simp] theorem nonceAad_setTranscriptId (id : String) : (setTranscriptId id).nonceAad = none := rfl

@[simp] theorem nonceAad_decodeKeyPrivate : decodeKeyPrivate.nonceAad = none := rfl

@[simp] theorem nonceAad_decodeKeyBlind : decodeKeyBlind.nonceAad = none := rfl

end AeadCall

/-- The state of an AEAD box: the calls made to it, oldest first. -/
structure AeadBox where
  calls : List AeadCall
  deriving DecidableEq, Repr

/-- The behaviour of an AEAD box: its answer to a call, given the calls before it. Operations that
return nothing answer with no bytes. -/
structure Aead where
  answer : List AeadCall → AeadCall → Except String Bytes

namespace AeadBox

/-- `set_transcript_id`, which cannot fail. -/
def setTranscriptId (b : AeadBox) (id : String) : AeadBox := ⟨b.calls ++ [.setTranscriptId id]⟩

/-- A call that the box answers: the answer, and the box that has made the call. -/
def call (A : Aead) (b : AeadBox) (c : AeadCall) : Except String (Bytes × AeadBox) :=
  (A.answer b.calls c).map fun out => (out, ⟨b.calls ++ [c]⟩)

theorem call_eq_ok {A : Aead} {b b' : AeadBox} {c : AeadCall} {out : Bytes} :
    b.call A c = .ok (out, b') ↔ A.answer b.calls c = .ok out ∧ b' = ⟨b.calls ++ [c]⟩ := by
  unfold call
  cases A.answer b.calls c with
  | error e => simp [Except.map]
  | ok o => simp [Except.map, eq_comm]

/-- A call answered inside a handler: the AEAD answered, and the handler went on with the box that
has made the call. -/
theorem ofExcept_call_bind_eq_ok {β : Type} {g : String → MpcTlsError} {A : Aead} {b : AeadBox}
    {c : AeadCall} {k : Bytes × AeadBox → Outcome MpcTlsError β} {r : β}
    (h : Outcome.ofExcept g (b.call A c) >>= k = .ok r) :
    ∃ out, A.answer b.calls c = .ok out ∧ k (out, ⟨b.calls ++ [c]⟩) = .ok r := by
  obtain ⟨⟨out, b'⟩, hcall, hk⟩ := Outcome.bind_eq_ok.1 h
  rw [Outcome.ofExcept_eq_ok, call_eq_ok] at hcall
  obtain ⟨hans, rfl⟩ := hcall
  exact ⟨out, hans, hk⟩

/-- A decryption by `MpcAesGcm`, the AEAD of MPC-TLS: it splits the tag off the text first
(`Aead.splitTag`, which panics on a text shorter than the tag in every build), and what it does
with the ciphertext and the tag, jointly with the other party, is the box's answer to the call.
The record layer maps an error of either by `g`. -/
def decrypt (A : Aead) (overflowChecks : Bool) (g : String → MpcTlsError) (b : AeadBox)
    (op : AeadOp) (explicitNonce text aad : Bytes) : Outcome MpcTlsError (Bytes × AeadBox) := do
  let _ ← (Aead.splitTag overflowChecks text).mapErr fun e => g e.reason
  Outcome.ofExcept g (b.call A (.apply op explicitNonce text aad))

/-- A text shorter than the tag panics in the split, whatever the box would answer. -/
theorem decrypt_of_lt {A : Aead} (overflowChecks : Bool) (g : String → MpcTlsError) (b : AeadBox)
    (op : AeadOp) (explicitNonce : Bytes) {text : Bytes} (aad : Bytes)
    (h : text.length < Aead.tagLen) : b.decrypt A overflowChecks g op explicitNonce text aad = .panic := by
  unfold decrypt
  rw [Aead.splitTag_of_lt overflowChecks h]
  rfl

/-- A decryption answered inside a handler: the text held a tag, the box answered, and the handler
went on with the box that has made the call. -/
theorem decrypt_bind_eq_ok {β : Type} {A : Aead} {overflowChecks : Bool} {g : String → MpcTlsError}
    {b : AeadBox} {op : AeadOp} {explicitNonce text aad : Bytes}
    {k : Bytes × AeadBox → Outcome MpcTlsError β} {r : β}
    (h : b.decrypt A overflowChecks g op explicitNonce text aad >>= k = .ok r) :
    Aead.tagLen ≤ text.length ∧ ∃ out, A.answer b.calls (.apply op explicitNonce text aad) = .ok out ∧
      k (out, ⟨b.calls ++ [.apply op explicitNonce text aad]⟩) = .ok r := by
  by_cases hlen : text.length < Aead.tagLen
  · rw [decrypt_of_lt overflowChecks g b op explicitNonce aad hlen] at h
    cases h
  · refine ⟨Nat.le_of_not_lt hlen, ?_⟩
    obtain ⟨tag, -, hsplit⟩ := Aead.splitTag_of_le overflowChecks (Nat.le_of_not_lt hlen)
    unfold decrypt at h
    rw [hsplit] at h
    exact ofExcept_call_bind_eq_ok h

/-- The calls of the box that carry a record, oldest first. -/
def records (b : AeadBox) : List AeadCall := b.calls.filter fun c => c.nonceAad.isSome

@[simp] theorem records_mk_nil : (⟨[]⟩ : AeadBox).records = [] := rfl

theorem records_append_none {calls : List AeadCall} {c : AeadCall} (hc : c.nonceAad = none) :
    (⟨calls ++ [c]⟩ : AeadBox).records = (⟨calls⟩ : AeadBox).records := by
  simp [records, hc]

/-- A record call after the switch of the transcript id adds one record. -/
theorem records_append_record {calls : List AeadCall} (id : String) {c : AeadCall}
    (hc : c.nonceAad.isSome) :
    (⟨calls ++ [.setTranscriptId id, c]⟩ : AeadBox).records = (⟨calls⟩ : AeadBox).records ++ [c] := by
  simp [records, List.filter_append, hc]

end AeadBox

/-- A property of the `k`-th element of a list, for every `k`, holds of the list with one element
more when it holds of that element at its position. -/
theorem forall_getElem?_append_singleton {α : Type} {P : ℕ → α → Prop} {l : List α} {a : α}
    (h : ∀ k x, l[k]? = some x → P k x) (ha : P l.length a) :
    ∀ k x, (l ++ [a])[k]? = some x → P k x := by
  intro k x hk
  rcases Nat.lt_or_ge k l.length with hlt | hge
  · rw [List.getElem?_append_left hlt] at hk
    exact h k x hk
  · rw [List.getElem?_append_right hge, List.getElem?_singleton] at hk
    split_ifs at hk with hk0
    obtain rfl := Option.some.inj hk
    rwa [show k = l.length by omega]

/-- The transcript id of a record's plaintext (`prepare_encrypt`, `prepare_decrypt`): the
transcript of application data, or the opaque one for every other content type. -/
def transcriptIdFor (typ : ContentType) (transcriptId opaqueTranscriptId : String) : String :=
  match typ with
  | .applicationData => transcriptId
  | _ => opaqueTranscriptId

/-- The byte count after a record (`record_message`): application data counts, nothing else
does. -/
def countAppData (typ : ContentType) (len : ℕ) (bytes : ℕ) : ℕ :=
  match typ with
  | .applicationData => bytes + len
  | _ => bytes

@[simp] theorem transcriptIdFor_applicationData (transcriptId opaqueTranscriptId : String) :
    transcriptIdFor .applicationData transcriptId opaqueTranscriptId = transcriptId := rfl

theorem transcriptIdFor_of_ne {typ : ContentType} (h : typ ≠ .applicationData)
    (transcriptId opaqueTranscriptId : String) :
    transcriptIdFor typ transcriptId opaqueTranscriptId = opaqueTranscriptId := by
  cases typ <;> simp_all [transcriptIdFor]

@[simp] theorem countAppData_applicationData (len bytes : ℕ) :
    countAppData .applicationData len bytes = bytes + len := rfl

theorem countAppData_of_ne {typ : ContentType} (h : typ ≠ .applicationData) (len bytes : ℕ) :
    countAppData typ len bytes = bytes := by
  cases typ <;> simp_all [countAppData]

/-! ### The encrypter -/

/-- `Encrypter`. -/
structure Encrypter where
  aead : AeadBox
  seq : ℕ
  sentBytes : ℕ
  transcriptId : String
  opaqueTranscriptId : String
  deriving DecidableEq, Repr

namespace Encrypter

/-- `Encrypter::new`. -/
def new (aead : AeadBox) (transcriptId opaqueTranscriptId : String) : Encrypter :=
  ⟨aead, 0, 0, transcriptId, opaqueTranscriptId⟩

variable (A : Aead)

/-- `Encrypter::start`. -/
def start (e : Encrypter) : Outcome MpcTlsError Encrypter := do
  let (_, aead) ← Outcome.ofExcept (fun _ => .new .encrypt "start error") (e.aead.call A .start)
  pure { e with aead }

/-- `Encrypter::prepare_encrypt`. -/
def prepareEncrypt (e : Encrypter) (typ : ContentType) : Encrypter :=
  { e with aead := e.aead.setTranscriptId (transcriptIdFor typ e.transcriptId e.opaqueTranscriptId) }

/-- `Encrypter::record_message`. -/
def recordMessage (e : Encrypter) (typ : ContentType) (len : ℕ) : Encrypter :=
  { e with seq := e.seq + 1, sentBytes := countAppData typ len e.sentBytes }

/-- The encrypter after a record of `len` bytes went through the AEAD by the call `c`. -/
def recorded (e : Encrypter) (typ : ContentType) (len : ℕ) (c : AeadCall) : Encrypter :=
  { e.prepareEncrypt typ with aead := ⟨(e.prepareEncrypt typ).aead.calls ++ [c]⟩ }.recordMessage
    typ len

/-- `encrypt_private` and `encrypt_public`, which differ only in the operation of the AEAD: the
explicit nonce is the sequence number, and the record is the nonce and the ciphertext. -/
def encryptWith (op : AeadOp) (errMsg : String) (e : Encrypter) (msg : PlainMessage) :
    Outcome MpcTlsError (OpaqueMessage × Encrypter) := do
  let e := e.prepareEncrypt msg.typ
  let seq := e.seq
  let len := msg.payload.length
  let explicitNonce := encodeU64 (UInt64.ofNat seq)
  let aad := makeTls12Aad seq msg.typ msg.version len
  let (ciphertext, aead) ← Outcome.ofExcept (fun _ => .new .encrypt errMsg)
    (e.aead.call A (.apply op explicitNonce msg.payload aad))
  pure (⟨msg.typ, msg.version, explicitNonce ++ ciphertext⟩,
    { e with aead }.recordMessage msg.typ len)

/-- `Encrypter::encrypt_private`. -/
def encryptPrivate : Encrypter → PlainMessage → Outcome MpcTlsError (OpaqueMessage × Encrypter) :=
  encryptWith A .encryptPrivate "encrypt_private error"

/-- `Encrypter::encrypt_public`. -/
def encryptPublic : Encrypter → PlainMessage → Outcome MpcTlsError (OpaqueMessage × Encrypter) :=
  encryptWith A .encryptPublic "encrypt_public error"

/-- `Encrypter::encrypt_blind`: the other party supplies the plaintext of `len` bytes. -/
def encryptBlind (e : Encrypter) (typ : ContentType) (version : ProtocolVersion) (len : ℕ) :
    Outcome MpcTlsError Encrypter := do
  let e := e.prepareEncrypt typ
  let seq := e.seq
  let explicitNonce := encodeU64 (UInt64.ofNat seq)
  let aad := makeTls12Aad seq typ version len
  let (_, aead) ← Outcome.ofExcept (fun _ => .new .encrypt "encrypt_blind error")
    (e.aead.call A (.encryptBlind explicitNonce len aad))
  pure ({ e with aead }.recordMessage typ len)

@[simp] theorem prepareEncrypt_seq (e : Encrypter) (typ : ContentType) :
    (e.prepareEncrypt typ).seq = e.seq := rfl

@[simp] theorem recorded_seq (e : Encrypter) (typ : ContentType) (len : ℕ) (c : AeadCall) :
    (e.recorded typ len c).seq = e.seq + 1 := rfl

@[simp] theorem recorded_sentBytes (e : Encrypter) (typ : ContentType) (len : ℕ) (c : AeadCall) :
    (e.recorded typ len c).sentBytes = countAppData typ len e.sentBytes := rfl

@[simp] theorem recorded_calls (e : Encrypter) (typ : ContentType) (len : ℕ) (c : AeadCall) :
    (e.recorded typ len c).aead.calls = e.aead.calls ++
      [.setTranscriptId (transcriptIdFor typ e.transcriptId e.opaqueTranscriptId), c] := by
  simp [recorded, recordMessage, prepareEncrypt, AeadBox.setTranscriptId]

/-- What a successful encryption of a record did: the AEAD answered the call with the nonce and the
additional data of the record, and the encrypter recorded it. -/
theorem encryptWith_eq_ok {op : AeadOp} {errMsg : String} {e e' : Encrypter} {msg : PlainMessage}
    {out : OpaqueMessage} (h : encryptWith A op errMsg e msg = .ok (out, e')) :
    e' = e.recorded msg.typ msg.payload.length (.apply op (encodeU64 (UInt64.ofNat e.seq))
      msg.payload (makeTls12Aad e.seq msg.typ msg.version msg.payload.length)) := by
  unfold encryptWith at h
  obtain ⟨_, -, hk⟩ := AeadBox.ofExcept_call_bind_eq_ok h
  simp only [Outcome.pure_eq, Outcome.ok.injEq, Prod.mk.injEq] at hk
  exact hk.2.symm

theorem start_eq_ok {e e' : Encrypter} (h : start A e = .ok e') :
    e' = { e with aead := ⟨e.aead.calls ++ [.start]⟩ } := by
  unfold start at h
  obtain ⟨_, -, hk⟩ := AeadBox.ofExcept_call_bind_eq_ok h
  simp only [Outcome.pure_eq, Outcome.ok.injEq] at hk
  exact hk.symm

theorem encryptBlind_eq_ok {e e' : Encrypter} {typ : ContentType} {version : ProtocolVersion}
    {len : ℕ} (h : encryptBlind A e typ version len = .ok e') :
    e' = e.recorded typ len (.encryptBlind (encodeU64 (UInt64.ofNat e.seq)) len
      (makeTls12Aad e.seq typ version len)) := by
  unfold encryptBlind at h
  obtain ⟨_, -, hk⟩ := AeadBox.ofExcept_call_bind_eq_ok h
  simp only [Outcome.pure_eq, Outcome.ok.injEq] at hk
  exact hk.symm

/-! #### The numbering of the records

Each record the encrypter gives its AEAD has the explicit nonce and the additional data of the
sequence number at which it is given, and the sequence number counts the records. -/

/-- A call of the AEAD that encrypts a record at sequence number `k`: the record `msg`, with the
explicit nonce of `k` and the additional data of `k` and of the record's type, version and length,
or, blind, a record of `len` bytes that the other party supplies. -/
def EncryptsAt (k : ℕ) (c : AeadCall) : Prop :=
  (∃ (op : AeadOp) (msg : PlainMessage), c = .apply op (encodeU64 (UInt64.ofNat k)) msg.payload
      (makeTls12Aad k msg.typ msg.version msg.payload.length)) ∨
    ∃ typ version len, c = .encryptBlind (encodeU64 (UInt64.ofNat k)) len
      (makeTls12Aad k typ version len)

theorem EncryptsAt.isSome_nonceAad {k : ℕ} {c : AeadCall} (h : EncryptsAt k c) :
    c.nonceAad.isSome := by
  rcases h with ⟨op, msg, rfl⟩ | ⟨typ, version, len, rfl⟩ <;> rfl

/-- An encrypter numbers its records: it has given `seq` records to its AEAD, and the `k`-th was
encrypted at sequence number `k`. -/
structure Numbered (e : Encrypter) : Prop where
  length : e.aead.records.length = e.seq
  encryptsAt : ∀ k c, e.aead.records[k]? = some c → EncryptsAt k c

/-- A record encrypted at the encrypter's sequence number keeps its records numbered. -/
theorem Numbered.recorded {e : Encrypter} (h : e.Numbered) (typ : ContentType) (len : ℕ)
    {c : AeadCall} (hc : EncryptsAt e.seq c) : (e.recorded typ len c).Numbered := by
  have hrec : (e.recorded typ len c).aead.records = e.aead.records ++ [c] := by
    show (⟨(e.recorded typ len c).aead.calls⟩ : AeadBox).records = _
    rw [recorded_calls]
    exact AeadBox.records_append_record _ hc.isSome_nonceAad
  constructor
  · rw [hrec, List.length_append, h.length, recorded_seq, List.length_singleton]
  · rw [hrec]
    exact forall_getElem?_append_singleton h.encryptsAt (h.length ▸ hc)

/-- A call that carries no record keeps the records numbered. -/
theorem Numbered.append_none {e : Encrypter} (h : e.Numbered) {c : AeadCall}
    (hc : c.nonceAad = none) : ({ e with aead := ⟨e.aead.calls ++ [c]⟩ } : Encrypter).Numbered := by
  have hrec : (⟨e.aead.calls ++ [c]⟩ : AeadBox).records = e.aead.records :=
    AeadBox.records_append_none hc
  exact ⟨by rw [hrec, h.length], by rw [hrec]; exact h.encryptsAt⟩

theorem Numbered.start {e e' : Encrypter} (h : e.Numbered) (hs : start A e = .ok e') :
    e'.Numbered := by
  rw [start_eq_ok A hs]
  exact h.append_none rfl

theorem Numbered.encryptWith {op : AeadOp} {errMsg : String} {e e' : Encrypter}
    {msg : PlainMessage} {out : OpaqueMessage} (h : e.Numbered)
    (hs : encryptWith A op errMsg e msg = .ok (out, e')) : e'.Numbered := by
  rw [encryptWith_eq_ok A hs]
  exact h.recorded _ _ (Or.inl ⟨op, msg, rfl⟩)

theorem Numbered.encryptBlind {e e' : Encrypter} {typ : ContentType} {version : ProtocolVersion}
    {len : ℕ} (h : e.Numbered) (hs : encryptBlind A e typ version len = .ok e') : e'.Numbered := by
  rw [encryptBlind_eq_ok A hs]
  exact h.recorded _ _ (Or.inr ⟨typ, version, len, rfl⟩)

end Encrypter

/-! ### The decrypter -/

/-- `Decrypter`. -/
structure Decrypter where
  aead : AeadBox
  seq : ℕ
  recvBytes : ℕ
  transcriptId : String
  opaqueTranscriptId : String
  deriving DecidableEq, Repr

namespace Decrypter

/-- `Decrypter::new`. -/
def new (aead : AeadBox) (transcriptId opaqueTranscriptId : String) : Decrypter :=
  ⟨aead, 0, 0, transcriptId, opaqueTranscriptId⟩

variable (A : Aead) (overflowChecks : Bool)

/-- `Decrypter::start`. -/
def start (d : Decrypter) : Outcome MpcTlsError Decrypter := do
  let (_, aead) ← Outcome.ofExcept (fun _ => .new .decrypt "start error") (d.aead.call A .start)
  pure { d with aead }

/-- `Decrypter::prepare_decrypt`. -/
def prepareDecrypt (d : Decrypter) (typ : ContentType) : Decrypter :=
  { d with aead := d.aead.setTranscriptId (transcriptIdFor typ d.transcriptId d.opaqueTranscriptId) }

/-- `Decrypter::record_message`. -/
def recordMessage (d : Decrypter) (typ : ContentType) (len : ℕ) : Decrypter :=
  { d with seq := d.seq + 1, recvBytes := countAppData typ len d.recvBytes }

/-- The explicit nonce of a record: the first eight bytes of its payload. -/
def explicitNonce (msg : OpaqueMessage) : Bytes := msg.payload.take 8

/-- The ciphertext and tag of a record: its payload after the explicit nonce. -/
def ciphertext (msg : OpaqueMessage) : Bytes := msg.payload.drop 8

/-- The length of a record's plaintext: its payload less the nonce and the sixteen bytes of the
tag. -/
def plaintextLen (msg : OpaqueMessage) : ℕ := msg.payload.length - 24

/-- The call of the AEAD that decrypts `msg` by `op`, at sequence number `seq`. -/
def decryptCall (op : AeadOp) (seq : ℕ) (msg : OpaqueMessage) : AeadCall :=
  .apply op (explicitNonce msg) (ciphertext msg)
    (makeTls12Aad seq msg.typ msg.version (plaintextLen msg))

/-- The decrypter after the record `msg` went through the AEAD by `op`. -/
def recorded (d : Decrypter) (op : AeadOp) (msg : OpaqueMessage) : Decrypter :=
  { d.prepareDecrypt msg.typ with
    aead := ⟨(d.prepareDecrypt msg.typ).aead.calls ++ [decryptCall op d.seq msg]⟩ }.recordMessage
    msg.typ (plaintextLen msg)

/-- `decrypt_private`, `decrypt_public`, `prove_plaintext`, `decrypt_blind` and
`verify_plaintext`, which differ only in the operation of the AEAD (the last two drop the
plaintext). The payload is drained of its eight bytes of explicit nonce, and the length of the
plaintext is what remains less the tag: `payload.0.len() - 16`, a subtraction of `usize`s. -/
def decryptWith (op : AeadOp) (errMsg : String) (d : Decrypter) (msg : OpaqueMessage) :
    Outcome MpcTlsError (PlainMessage × Decrypter) := do
  -- `drain(..8)` panics on a payload shorter than the explicit nonce
  if msg.payload.length < 8 then .panic
  else
    let len ← Outcome.uintSub 64 overflowChecks (msg.payload.length - 8) 16
    let seq := d.seq
    let d := d.prepareDecrypt msg.typ
    let aad := makeTls12Aad seq msg.typ msg.version len
    let (plaintext, aead) ← d.aead.decrypt A overflowChecks (fun _ => .new .decrypt errMsg) op
      (explicitNonce msg) (ciphertext msg) aad
    pure (⟨msg.typ, msg.version, plaintext⟩, { d with aead }.recordMessage msg.typ len)

/-- `Decrypter::decrypt_private`. -/
def decryptPrivate : Decrypter → OpaqueMessage → Outcome MpcTlsError (PlainMessage × Decrypter) :=
  decryptWith A overflowChecks .decryptPrivate "decrypt_private error"

/-- `Decrypter::decrypt_public`. -/
def decryptPublic : Decrypter → OpaqueMessage → Outcome MpcTlsError (PlainMessage × Decrypter) :=
  decryptWith A overflowChecks .decryptPublic "decrypt_public error"

/-- `Decrypter::prove_plaintext`. -/
def provePlaintext : Decrypter → OpaqueMessage → Outcome MpcTlsError (PlainMessage × Decrypter) :=
  decryptWith A overflowChecks .provePlaintext "prove_plaintext error"

/-- `Decrypter::decrypt_blind`. -/
def decryptBlind (d : Decrypter) (msg : OpaqueMessage) : Outcome MpcTlsError Decrypter := do
  let (_, d) ← decryptWith A overflowChecks .decryptBlind "decrypt_blind error" d msg
  pure d

/-- `Decrypter::verify_plaintext`. -/
def verifyPlaintext (d : Decrypter) (msg : OpaqueMessage) : Outcome MpcTlsError Decrypter := do
  let (_, d) ← decryptWith A overflowChecks .verifyPlaintext "verify_plaintext error" d msg
  pure d

/-- `Decrypter::decode_key_private`: the key is revealed to this party. -/
def decodeKeyPrivate (d : Decrypter) : Outcome MpcTlsError Decrypter := do
  let (_, aead) ← Outcome.ofExcept (fun _ => .new .decrypt "error decoding key")
    (d.aead.call A .decodeKeyPrivate)
  pure { d with aead }

/-- `Decrypter::decode_key_blind`: the key is revealed to the other party. -/
def decodeKeyBlind (d : Decrypter) : Outcome MpcTlsError Decrypter := do
  let (_, aead) ← Outcome.ofExcept (fun _ => .new .decrypt "error decoding key")
    (d.aead.call A .decodeKeyBlind)
  pure { d with aead }

theorem start_eq_ok {d d' : Decrypter} (h : start A d = .ok d') :
    d' = { d with aead := ⟨d.aead.calls ++ [.start]⟩ } := by
  unfold start at h
  obtain ⟨_, -, hk⟩ := AeadBox.ofExcept_call_bind_eq_ok h
  simp only [Outcome.pure_eq, Outcome.ok.injEq] at hk
  exact hk.symm

theorem decodeKeyPrivate_eq_ok {d d' : Decrypter} (h : decodeKeyPrivate A d = .ok d') :
    d' = { d with aead := ⟨d.aead.calls ++ [.decodeKeyPrivate]⟩ } := by
  unfold decodeKeyPrivate at h
  obtain ⟨_, -, hk⟩ := AeadBox.ofExcept_call_bind_eq_ok h
  simp only [Outcome.pure_eq, Outcome.ok.injEq] at hk
  exact hk.symm

theorem decodeKeyBlind_eq_ok {d d' : Decrypter} (h : decodeKeyBlind A d = .ok d') :
    d' = { d with aead := ⟨d.aead.calls ++ [.decodeKeyBlind]⟩ } := by
  unfold decodeKeyBlind at h
  obtain ⟨_, -, hk⟩ := AeadBox.ofExcept_call_bind_eq_ok h
  simp only [Outcome.pure_eq, Outcome.ok.injEq] at hk
  exact hk.symm

@[simp] theorem recorded_seq (d : Decrypter) (op : AeadOp) (msg : OpaqueMessage) :
    (d.recorded op msg).seq = d.seq + 1 := rfl

@[simp] theorem recorded_recvBytes (d : Decrypter) (op : AeadOp) (msg : OpaqueMessage) :
    (d.recorded op msg).recvBytes = countAppData msg.typ (plaintextLen msg) d.recvBytes := rfl

@[simp] theorem recorded_calls (d : Decrypter) (op : AeadOp) (msg : OpaqueMessage) :
    (d.recorded op msg).aead.calls = d.aead.calls ++
      [.setTranscriptId (transcriptIdFor msg.typ d.transcriptId d.opaqueTranscriptId),
        decryptCall op d.seq msg] := by
  simp [recorded, recordMessage, prepareDecrypt, AeadBox.setTranscriptId]

/-- What a successful decryption of a record did: the record held a nonce and a tag, so that the
length of the plaintext did not underflow, the AEAD answered the plaintext to the call with the
record's nonce and additional data, and the decrypter recorded it. -/
theorem decryptWith_eq_ok {op : AeadOp} {errMsg : String} {d d' : Decrypter}
    {msg : OpaqueMessage} {out : PlainMessage}
    (h : decryptWith A overflowChecks op errMsg d msg = .ok (out, d')) :
    24 ≤ msg.payload.length ∧ d' = d.recorded op msg ∧
      A.answer (d.prepareDecrypt msg.typ).aead.calls (decryptCall op d.seq msg) = .ok out.payload ∧
      out.typ = msg.typ := by
  unfold decryptWith at h
  split_ifs at h with h8
  obtain ⟨len, hlen, h⟩ := Outcome.bind_eq_ok.1 h
  obtain ⟨htag, plaintext, hans, hk⟩ := AeadBox.decrypt_bind_eq_ok h
  have h24 : 24 ≤ msg.payload.length := by
    simp only [ciphertext, List.length_drop, Aead.tagLen] at htag
    omega
  -- with a tag in the record the subtraction is exact
  have hlen' : len = plaintextLen msg := by
    rw [Outcome.uintSub_of_le (by omega), Outcome.ok.injEq] at hlen
    simp only [plaintextLen]
    omega
  subst hlen'
  simp only [Outcome.pure_eq, Outcome.ok.injEq, Prod.mk.injEq] at hk
  obtain ⟨rfl, rfl⟩ := hk
  exact ⟨h24, rfl, hans, rfl⟩

/-- What a record of fewer than 24 bytes passes to the AEAD is shorter than the tag, and `MpcAesGcm`
panics on it. -/
theorem ciphertext_splitTag_of_lt {msg : OpaqueMessage} (h : msg.payload.length < 24) :
    Aead.splitTag overflowChecks (ciphertext msg) = .panic :=
  Aead.splitTag_of_lt overflowChecks (by simp only [ciphertext, List.length_drop, Aead.tagLen]; omega)

/-- Without overflow checks, the length of the plaintext of a record of eight to 23 bytes wraps to
`2⁶⁴ - (24 - len)`. -/
theorem wrappedLen_of_lt {msg : OpaqueMessage} (h8 : 8 ≤ msg.payload.length)
    (h : msg.payload.length < 24) :
    (Outcome.uintSub 64 false (msg.payload.length - 8) 16 : Outcome MpcTlsError ℕ) =
      .ok (2 ^ 64 - (24 - msg.payload.length)) := by
  rw [Outcome.uintSub_wrapping_of_lt (by omega) (by norm_num)]
  congr 2
  omega

/-- A record of fewer than 24 bytes panics, in every build: `drain(..8)` has no eight bytes of
nonce to take, or what is left is shorter than the tag and `payload.0.len() - 16` underflows. With
overflow checks that panics here; without, the wrapped length goes into the additional data and
the AEAD is called, whose split of the tag panics (`ciphertext_splitTag_of_lt`). -/
theorem decryptWith_of_lt (op : AeadOp) (errMsg : String) (d : Decrypter) {msg : OpaqueMessage}
    (h : msg.payload.length < 24) : decryptWith A overflowChecks op errMsg d msg = .panic := by
  unfold decryptWith
  by_cases h8 : msg.payload.length < 8
  · rw [if_pos h8]
  rw [if_neg h8]
  cases overflowChecks with
  | true => rw [Outcome.uintSub_checked_of_lt (by omega), Outcome.panic_bind]
  | false =>
    rw [wrappedLen_of_lt (by omega) h, Outcome.ok_bind]
    simp only
    rw [AeadBox.decrypt_of_lt false _ _ op _ _ (by simp only [ciphertext, List.length_drop, Aead.tagLen]; omega),
      Outcome.panic_bind]

theorem decryptBlind_eq_ok {d d' : Decrypter} {msg : OpaqueMessage}
    (h : decryptBlind A overflowChecks d msg = .ok d') :
    24 ≤ msg.payload.length ∧ d' = d.recorded .decryptBlind msg := by
  unfold decryptBlind at h
  obtain ⟨⟨out, d''⟩, hd, hk⟩ := Outcome.bind_eq_ok.1 h
  obtain ⟨hlen, rfl, -⟩ := decryptWith_eq_ok A overflowChecks hd
  simp only [Outcome.pure_eq, Outcome.ok.injEq] at hk
  exact ⟨hlen, hk.symm⟩

theorem verifyPlaintext_eq_ok {d d' : Decrypter} {msg : OpaqueMessage}
    (h : verifyPlaintext A overflowChecks d msg = .ok d') :
    24 ≤ msg.payload.length ∧ d' = d.recorded .verifyPlaintext msg := by
  unfold verifyPlaintext at h
  obtain ⟨⟨out, d''⟩, hd, hk⟩ := Outcome.bind_eq_ok.1 h
  obtain ⟨hlen, rfl, -⟩ := decryptWith_eq_ok A overflowChecks hd
  simp only [Outcome.pure_eq, Outcome.ok.injEq] at hk
  exact ⟨hlen, hk.symm⟩

/-! #### The numbering of the records -/

/-- A decrypter numbers its records: it has given `seq` records to its AEAD, and the `k`-th was
decrypted at sequence number `k`, with the record's explicit nonce and the additional data of `k`
and of the record's type, version and length (`decryptCall`). -/
structure Numbered (d : Decrypter) : Prop where
  length : d.aead.records.length = d.seq
  decryptsAt : ∀ k c, d.aead.records[k]? = some c → ∃ op msg, c = decryptCall op k msg

/-- A record decrypted at the decrypter's sequence number keeps its records numbered. -/
theorem Numbered.recorded {d : Decrypter} (h : d.Numbered) (op : AeadOp) (msg : OpaqueMessage) :
    (d.recorded op msg).Numbered := by
  have hrec : (d.recorded op msg).aead.records = d.aead.records ++ [decryptCall op d.seq msg] := by
    show (⟨(d.recorded op msg).aead.calls⟩ : AeadBox).records = _
    rw [recorded_calls]
    exact AeadBox.records_append_record _ rfl
  constructor
  · rw [hrec, List.length_append, h.length, recorded_seq, List.length_singleton]
  · rw [hrec]
    exact forall_getElem?_append_singleton h.decryptsAt ⟨op, msg, by rw [h.length]⟩

/-- A call that carries no record keeps the records numbered. -/
theorem Numbered.append_none {d : Decrypter} (h : d.Numbered) {c : AeadCall}
    (hc : c.nonceAad = none) : ({ d with aead := ⟨d.aead.calls ++ [c]⟩ } : Decrypter).Numbered := by
  have hrec : (⟨d.aead.calls ++ [c]⟩ : AeadBox).records = d.aead.records :=
    AeadBox.records_append_none hc
  exact ⟨by rw [hrec, h.length], by rw [hrec]; exact h.decryptsAt⟩

theorem Numbered.start {d d' : Decrypter} (h : d.Numbered) (hs : start A d = .ok d') :
    d'.Numbered := by
  rw [start_eq_ok A hs]
  exact h.append_none rfl

theorem Numbered.decodeKeyPrivate {d d' : Decrypter} (h : d.Numbered)
    (hs : decodeKeyPrivate A d = .ok d') : d'.Numbered := by
  rw [decodeKeyPrivate_eq_ok A hs]
  exact h.append_none rfl

theorem Numbered.decodeKeyBlind {d d' : Decrypter} (h : d.Numbered)
    (hs : decodeKeyBlind A d = .ok d') : d'.Numbered := by
  rw [decodeKeyBlind_eq_ok A hs]
  exact h.append_none rfl

theorem Numbered.decryptWith {op : AeadOp} {errMsg : String} {d d' : Decrypter}
    {msg : OpaqueMessage} {out : PlainMessage} (h : d.Numbered)
    (hs : decryptWith A overflowChecks op errMsg d msg = .ok (out, d')) : d'.Numbered := by
  obtain ⟨-, rfl, -⟩ := decryptWith_eq_ok A overflowChecks hs
  exact h.recorded op msg

/-- A record of twenty bytes: eight of explicit nonce and twelve, fewer than the sixteen of a
tag. -/
def shortRecord : OpaqueMessage := ⟨.applicationData, .tlsv1_2, List.replicate 20 0⟩

/-- **A short record panics, in either build.** On a record of twenty bytes, `payload.0.len() - 16`
underflows: with overflow checks it panics in the record layer; without them it wraps to
`2⁶⁴ - 4`, and the twelve bytes after the nonce reach `MpcAesGcm`, whose split of the tag panics.
Every decryption of the record layer panics, for every state of the decrypter and every behaviour
of the AEAD. -/
theorem decrypt_short_record_panics (d : Decrypter) :
    (Outcome.uintSub 64 overflowChecks (shortRecord.payload.length - 8) 16 : Outcome MpcTlsError ℕ) =
        (if overflowChecks then .panic else .ok (2 ^ 64 - 4)) ∧
      Aead.splitTag overflowChecks (ciphertext shortRecord) = .panic ∧
      decryptPrivate A overflowChecks d shortRecord = .panic ∧
      decryptBlind A overflowChecks d shortRecord = .panic ∧
      decryptPublic A overflowChecks d shortRecord = .panic ∧
      provePlaintext A overflowChecks d shortRecord = .panic ∧
      verifyPlaintext A overflowChecks d shortRecord = .panic := by
  have h : shortRecord.payload.length < 24 := by decide
  have hsub : (Outcome.uintSub 64 overflowChecks (shortRecord.payload.length - 8) 16 :
      Outcome MpcTlsError ℕ) = (if overflowChecks then .panic else .ok (2 ^ 64 - 4)) := by
    cases overflowChecks with
    | true => exact Outcome.uintSub_checked_of_lt (by decide)
    | false => exact wrappedLen_of_lt (by decide) h
  refine ⟨hsub, ciphertext_splitTag_of_lt overflowChecks h, decryptWith_of_lt A overflowChecks _ _ d h,
    ?_, decryptWith_of_lt A overflowChecks _ _ d h, decryptWith_of_lt A overflowChecks _ _ d h, ?_⟩
  · unfold decryptBlind
    rw [decryptWith_of_lt A overflowChecks _ _ d h]
    rfl
  · unfold verifyPlaintext
    rw [decryptWith_of_lt A overflowChecks _ _ d h]
    rfl

end Decrypter

/-! ### Configuration (`config.rs`) -/

/-- `TranscriptConfig`. -/
structure TranscriptConfig where
  id : String
  opaqueId : String
  maxSize : ℕ
  deriving DecidableEq, Repr

/-- `TranscriptConfig::default_tx`. -/
def TranscriptConfig.defaultTx : TranscriptConfig := ⟨"tx", "opaque_tx", 2 ^ 14⟩

/-- `TranscriptConfig::default_rx`. -/
def TranscriptConfig.defaultRx : TranscriptConfig := ⟨"rx", "opaque_rx", 2 ^ 14⟩

/-- `MpcTlsCommonConfig`, with its defaults (the session id and the number of threads, which no
modelled function reads, are left out). -/
structure MpcTlsCommonConfig where
  txConfig : TranscriptConfig := .defaultTx
  rxConfig : TranscriptConfig := .defaultRx
  handshakeCommit : Bool := true
  deriving DecidableEq, Repr

/-- `Direction`. -/
inductive Direction
  | sent | recv
  deriving DecidableEq, Repr

/-- `check_transcript_length`, the same in the leader and the follower: the bytes counted in the
direction and `len` more must fit the direction's maximum. -/
def checkTranscriptLength (config : MpcTlsCommonConfig) (encrypter : Encrypter)
    (decrypter : Decrypter) (direction : Direction) (len : ℕ) : Outcome MpcTlsError Unit :=
  match direction with
  | .sent =>
    let newLen := encrypter.sentBytes + len
    let maxSize := config.txConfig.maxSize
    if newLen > maxSize then
      .err (.new .config s!"max sent transcript size exceeded: {newLen} > {maxSize}")
    else .ok ()
  | .recv =>
    let newLen := decrypter.recvBytes + len
    let maxSize := config.rxConfig.maxSize
    if newLen > maxSize then
      .err (.new .config s!"max received transcript size exceeded: {newLen} > {maxSize}")
    else .ok ()

@[simp] theorem checkTranscriptLength_sent_eq_ok {config : MpcTlsCommonConfig} {e : Encrypter}
    {d : Decrypter} {len : ℕ} :
    checkTranscriptLength config e d .sent len = .ok () ↔ e.sentBytes + len ≤ config.txConfig.maxSize := by
  simp only [checkTranscriptLength]
  split_ifs with h <;> simp <;> omega

@[simp] theorem checkTranscriptLength_recv_eq_ok {config : MpcTlsCommonConfig} {e : Encrypter}
    {d : Decrypter} {len : ℕ} :
    checkTranscriptLength config e d .recv len = .ok () ↔
      d.recvBytes + len ≤ config.rxConfig.maxSize := by
  simp only [checkTranscriptLength]
  split_ifs with h <;> simp <;> omega

end Tlsn.Mpc
