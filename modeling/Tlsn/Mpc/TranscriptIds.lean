import Tlsn.Mpc.RecordLayer
import Tlsn.Cipher.StreamCipher

/-!
# The transcript ids of the record layer's bytes

Before each record goes through the AEAD, the record layer switches the AEAD's stream cipher to the
record's transcript (`prepare_encrypt`, `prepare_decrypt`): the transcript of application data for
a record of application data, the opaque transcript for any other. The ids the stream cipher then
gives the record's plaintext bytes are those by which the session's commitments later address the
transcript: the `i`-th byte of application data sent must get `tx/i`, the `i`-th received `rx/i`.

`AeadCall.streamCall` is what `MpcAesGcm` asks of its stream cipher for a call of the record layer,
and `plaintextIdsAfter` the ids its stream cipher has handed out, from the state in which
`build_components` leaves it. `Encrypter.Trace` and `Decrypter.Trace` are runs of the record
layer's operations, with each record's type and the ids its bytes were given.

`IdsInv` says that the ids are the transcript's: the counter of the transcript of application data
is the count of its bytes, the records of application data hold its ids from zero, in order, and no
other record holds one of them. Every record kept to its own transcript keeps it (`IdsInv.record`),
but a record of application data decrypted by `decrypt_public`: its bytes are counted in
`recv_bytes` and given no id, so that the ids of the later records no longer match their place in
the transcript (`decryptPublic_skips_rx_ids`). MPC-TLS decrypts publicly only the server's Finished
and its alerts, and for such runs the ids are the transcript's on both sides
(`record_layer_transcript_ids`).
-/

namespace Tlsn.Mpc

open Codec Tls StreamCipher

/-- The call `MpcAesGcm` (`aead/src/aes_gcm/mod.rs`) makes of its stream cipher for a call of the
record layer; a decryption first splits the sixteen bytes of the tag off its text. -/
def AeadCall.streamCall : AeadCall → Option StreamCipher.Call
  | .setTranscriptId id => some (.setTranscriptId id)
  | .apply .encryptPublic _ text _ => some (.encryptPublic text.length)
  | .apply .encryptPrivate _ text _ => some (.encryptPrivate text.length)
  | .apply .decryptPublic _ text _ => some (.decryptPublic (text.length - 16))
  | .apply .decryptPrivate _ text _ => some (.decryptPrivate (text.length - 16))
  | .apply .decryptBlind _ text _ => some (.decryptBlind (text.length - 16))
  | .apply .provePlaintext _ text _ => some (.provePlaintext (text.length - 16))
  | .apply .verifyPlaintext _ text _ => some (.verifyPlaintext (text.length - 16))
  | .encryptBlind _ len _ => some (.encryptBlind len)
  | .start | .decodeKeyPrivate | .decodeKeyBlind => none

@[simp] theorem AeadCall.streamCall_setTranscriptId (id : String) :
    (AeadCall.setTranscriptId id).streamCall = some (.setTranscriptId id) := rfl

/-- The transcripts of a stream cipher as `build_components` leaves them: created under the
transcript id it is built with (`tx` for the encrypter, `rx` for the decrypter), then switched to
the opaque transcript of the configuration. -/
def builtStreamCipher (transcriptId opaqueId : String) : StreamCipher.State :=
  (State.new transcriptId).setTranscriptId opaqueId

/-- The stream cipher of an AEAD after the calls `calls`. -/
def streamCipherAfter (transcriptId opaqueId : String) (calls : List AeadCall) : StreamCipher.State :=
  (builtStreamCipher transcriptId opaqueId).final (calls.filterMap AeadCall.streamCall)

/-- The plaintext ids the stream cipher of an AEAD has handed out over the calls `calls`, in
order. -/
def plaintextIdsAfter (transcriptId opaqueId : String) (calls : List AeadCall) : List NestedId :=
  (builtStreamCipher transcriptId opaqueId).ids (calls.filterMap AeadCall.streamCall)

/-- The plaintext ids the encrypter's stream cipher has handed out. -/
def Encrypter.plaintextIds (e : Encrypter) : List NestedId :=
  plaintextIdsAfter "tx" e.opaqueTranscriptId e.aead.calls

/-- The plaintext ids the decrypter's stream cipher has handed out. -/
def Decrypter.plaintextIds (d : Decrypter) : List NestedId :=
  plaintextIdsAfter "rx" d.opaqueTranscriptId d.aead.calls

/-! ### The stream cipher along the calls -/

section Calls

variable (tid oid : String) (calls : List AeadCall)

theorem wf_streamCipherAfter :
    (streamCipherAfter tid oid calls).Wf :=
  (((State.wf_new tid).setTranscriptId oid).final _)

omit calls in
@[simp] theorem counter_streamCipherAfter_nil (k : String) :
    (streamCipherAfter tid oid []).counter k = 0 := by
  simp [streamCipherAfter, builtStreamCipher, State.counter_setTranscriptId (State.wf_new tid)]

/-- A call that does not reach the stream cipher changes no id and no counter. -/
theorem after_append_none {c : AeadCall} (hc : c.streamCall = none) :
    plaintextIdsAfter tid oid (calls ++ [c]) = plaintextIdsAfter tid oid calls ∧
      streamCipherAfter tid oid (calls ++ [c]) = streamCipherAfter tid oid calls := by
  simp [plaintextIdsAfter, streamCipherAfter, List.filterMap_append, hc]

/-- The stream cipher's calls of a record: the switch, then the record's operation. -/
theorem filterMap_record (t : String) {c : AeadCall} {x : StreamCipher.Call}
    (hc : c.streamCall = some x) :
    (calls ++ [.setTranscriptId t, c]).filterMap AeadCall.streamCall =
      calls.filterMap AeadCall.streamCall ++ [.setTranscriptId t, x] := by
  simp [List.filterMap_append, hc]

/-- A record whose operation extends its transcript `t` by `len`. -/
theorem after_record_extends (t : String) {c : AeadCall} {x : StreamCipher.Call} {len : ℕ}
    (hc : c.streamCall = some x) (hx : x.toOp = some (.take len)) :
    plaintextIdsAfter tid oid (calls ++ [.setTranscriptId t, c]) = plaintextIdsAfter tid oid calls ++
        (List.range len).map (fun i => ⟨t, (streamCipherAfter tid oid calls).counter t + i⟩) ∧
      ∀ k, (streamCipherAfter tid oid (calls ++ [.setTranscriptId t, c])).counter k =
        if k = t then (streamCipherAfter tid oid calls).counter k + len
        else (streamCipherAfter tid oid calls).counter k := by
  have hw := wf_streamCipherAfter tid oid calls
  unfold streamCipherAfter at hw ⊢
  unfold plaintextIdsAfter
  obtain ⟨hids, hcount⟩ := State.record_extends hw t hx
  rw [filterMap_record calls t hc, State.ids_append, State.final_append, hids]
  exact ⟨rfl, hcount⟩

/-- A record whose operation gives no ids (`decrypt_public`). -/
theorem after_record_none (t : String) {c : AeadCall} {x : StreamCipher.Call}
    (hc : c.streamCall = some x) (hx : x.toOp = none) :
    plaintextIdsAfter tid oid (calls ++ [.setTranscriptId t, c]) = plaintextIdsAfter tid oid calls ∧
      ∀ k, (streamCipherAfter tid oid (calls ++ [.setTranscriptId t, c])).counter k =
        (streamCipherAfter tid oid calls).counter k := by
  have hw := wf_streamCipherAfter tid oid calls
  unfold streamCipherAfter at hw ⊢
  unfold plaintextIdsAfter
  obtain ⟨hids, hcount⟩ := State.record_none hw t hx
  rw [filterMap_record calls t hc, State.ids_append, State.final_append, hids, List.append_nil]
  exact ⟨rfl, hcount⟩

end Calls

/-! ### The invariant -/

/-- The ids of a record layer's bytes are its transcript's: the counter of the transcript `id` of
application data is the count `bytes` of its bytes, the records of application data hold, in order,
its ids from zero, and no other record holds one of them. -/
structure IdsInv (tid id oid : String) (calls : List AeadCall) (bytes : ℕ)
    (records : List (ContentType × List NestedId)) : Prop where
  counter : (streamCipherAfter tid oid calls).counter id = bytes
  appData : (records.filter (·.1 = .applicationData)).flatMap (·.2) = (List.range bytes).map (⟨id, ·⟩)
  others : ∀ r ∈ records, r.1 ≠ .applicationData → ∀ n ∈ r.2, n.transcript ≠ id

namespace IdsInv

variable {tid id oid : String} {calls : List AeadCall} {bytes : ℕ}
  {records : List (ContentType × List NestedId)}

theorem init (tid id oid : String) : IdsInv tid id oid [] 0 [] where
  counter := counter_streamCipherAfter_nil tid oid id
  appData := rfl
  others := by simp

theorem append_none (hi : IdsInv tid id oid calls bytes records) {c : AeadCall}
    (hc : c.streamCall = none) : IdsInv tid id oid (calls ++ [c]) bytes records := by
  obtain ⟨-, hs⟩ := after_append_none tid oid calls hc
  exact ⟨hs ▸ hi.counter, hi.appData, hi.others⟩

/-- **A record kept to its transcript.** A record of type `typ` and `len` bytes, put through the
stream cipher under its transcript, is given the next ids of that transcript: those of application
data continue the transcript of application data, and those of any other record are opaque. -/
theorem record (hi : IdsInv tid id oid calls bytes records) (hne : id ≠ oid) (typ : ContentType)
    {c : AeadCall} {x : StreamCipher.Call} {len : ℕ} (hc : c.streamCall = some x)
    (hx : x.toOp = some (.take len)) :
    IdsInv tid id oid (calls ++ [.setTranscriptId (transcriptIdFor typ id oid), c])
      (countAppData typ len bytes)
      (records ++ [(typ, (plaintextIdsAfter tid oid (calls ++
        [.setTranscriptId (transcriptIdFor typ id oid), c])).drop
          (plaintextIdsAfter tid oid calls).length)]) := by
  obtain ⟨hids, hcount⟩ := after_record_extends tid oid calls (transcriptIdFor typ id oid) hc hx
  rw [hids, List.drop_left]
  by_cases hty : typ = .applicationData
  · -- the transcript of application data, whose counter is the count of its bytes
    subst hty
    simp only [transcriptIdFor_applicationData] at hcount ⊢
    refine ⟨?_, ?_, ?_⟩
    · simp [hcount, hi.counter]
    · simp [List.filter_append, hi.appData, hi.counter, List.range_add]
    · intro r hr hty
      rcases List.mem_append.1 hr with hr | hr
      · exact hi.others r hr hty
      · simp_all
  · -- the opaque transcript, which is not that of application data
    simp only [transcriptIdFor_of_ne hty] at hcount ⊢
    rw [countAppData_of_ne hty]
    refine ⟨?_, ?_, ?_⟩
    · rw [hcount, if_neg hne]
      exact hi.counter
    · simp [List.filter_append, hty, hi.appData]
    · intro r hr hty'
      rcases List.mem_append.1 hr with hr | hr
      · exact hi.others r hr hty'
      · simp only [List.mem_singleton] at hr
        subst hr
        simp only [List.mem_map, List.mem_range]
        rintro n ⟨i, -, rfl⟩
        exact Ne.symm hne

/-- A record of a type other than application data that the stream cipher gives no ids. -/
theorem record_none (hi : IdsInv tid id oid calls bytes records) {typ : ContentType}
    (hty : typ ≠ .applicationData) {c : AeadCall} {x : StreamCipher.Call} (len : ℕ) (hc : c.streamCall = some x) (hx : x.toOp = none) :
    IdsInv tid id oid (calls ++ [.setTranscriptId (transcriptIdFor typ id oid), c])
      (countAppData typ len bytes)
      (records ++ [(typ, (plaintextIdsAfter tid oid (calls ++
        [.setTranscriptId (transcriptIdFor typ id oid), c])).drop
          (plaintextIdsAfter tid oid calls).length)]) := by
  obtain ⟨hids, hcount⟩ := after_record_none tid oid calls (transcriptIdFor typ id oid) hc hx
  rw [hids, List.drop_length, countAppData_of_ne hty]
  refine ⟨?_, ?_, ?_⟩
  · rw [hcount]
    exact hi.counter
  · simp [List.filter_append, hty, hi.appData]
  · intro r hr hty'
    rcases List.mem_append.1 hr with hr | hr
    · exact hi.others r hr hty'
    · simp_all

end IdsInv

/-! ### Runs of the record layer -/

/-- A run of the encrypter's operations from `e₀`, each succeeding, with each record's type and the
plaintext ids its bytes were given. -/
inductive Encrypter.Trace (A : Aead) (e₀ : Encrypter) :
    List (ContentType × List NestedId) → Encrypter → Prop
  | nil : Trace A e₀ [] e₀
  | start {τ e e'} : Trace A e₀ τ e → e.start A = .ok e' → Trace A e₀ τ e'
  | encryptPrivate {τ e e' out} (msg : PlainMessage) : Trace A e₀ τ e →
      e.encryptPrivate A msg = .ok (out, e') →
      Trace A e₀ (τ ++ [(msg.typ, e'.plaintextIds.drop e.plaintextIds.length)]) e'
  | encryptPublic {τ e e' out} (msg : PlainMessage) : Trace A e₀ τ e →
      e.encryptPublic A msg = .ok (out, e') →
      Trace A e₀ (τ ++ [(msg.typ, e'.plaintextIds.drop e.plaintextIds.length)]) e'
  | encryptBlind {τ e e'} (typ : ContentType) (version : ProtocolVersion) (len : ℕ) :
      Trace A e₀ τ e → e.encryptBlind A typ version len = .ok e' →
      Trace A e₀ (τ ++ [(typ, e'.plaintextIds.drop e.plaintextIds.length)]) e'

/-- A run of the decrypter's operations from `d₀`, each succeeding, with each record's operation,
its type and the plaintext ids its bytes were given. -/
inductive Decrypter.Trace (A : Aead) (overflowChecks : Bool) (d₀ : Decrypter) :
    List (AeadOp × ContentType × List NestedId) → Decrypter → Prop
  | nil : Trace A overflowChecks d₀ [] d₀
  | start {σ d d'} : Trace A overflowChecks d₀ σ d → d.start A = .ok d' →
      Trace A overflowChecks d₀ σ d'
  | decodeKeyPrivate {σ d d'} : Trace A overflowChecks d₀ σ d → d.decodeKeyPrivate A = .ok d' →
      Trace A overflowChecks d₀ σ d'
  | decodeKeyBlind {σ d d'} : Trace A overflowChecks d₀ σ d → d.decodeKeyBlind A = .ok d' →
      Trace A overflowChecks d₀ σ d'
  | decryptPrivate {σ d d' out} (msg : OpaqueMessage) : Trace A overflowChecks d₀ σ d →
      d.decryptPrivate A overflowChecks msg = .ok (out, d') →
      Trace A overflowChecks d₀
        (σ ++ [(.decryptPrivate, msg.typ, d'.plaintextIds.drop d.plaintextIds.length)]) d'
  | decryptPublic {σ d d' out} (msg : OpaqueMessage) : Trace A overflowChecks d₀ σ d →
      d.decryptPublic A overflowChecks msg = .ok (out, d') →
      Trace A overflowChecks d₀
        (σ ++ [(.decryptPublic, msg.typ, d'.plaintextIds.drop d.plaintextIds.length)]) d'
  | provePlaintext {σ d d' out} (msg : OpaqueMessage) : Trace A overflowChecks d₀ σ d →
      d.provePlaintext A overflowChecks msg = .ok (out, d') →
      Trace A overflowChecks d₀
        (σ ++ [(.provePlaintext, msg.typ, d'.plaintextIds.drop d.plaintextIds.length)]) d'
  | decryptBlind {σ d d'} (msg : OpaqueMessage) : Trace A overflowChecks d₀ σ d →
      d.decryptBlind A overflowChecks msg = .ok d' →
      Trace A overflowChecks d₀
        (σ ++ [(.decryptBlind, msg.typ, d'.plaintextIds.drop d.plaintextIds.length)]) d'
  | verifyPlaintext {σ d d'} (msg : OpaqueMessage) : Trace A overflowChecks d₀ σ d →
      d.verifyPlaintext A overflowChecks msg = .ok d' →
      Trace A overflowChecks d₀
        (σ ++ [(.verifyPlaintext, msg.typ, d'.plaintextIds.drop d.plaintextIds.length)]) d'

section Runs

variable {id oid : String}

/-- An encrypted record keeps the encrypter's ids its transcript's. -/
theorem Encrypter.idsInv_recorded (hne : id ≠ oid) {e : Encrypter} (hid : e.transcriptId = id)
    (hoid : e.opaqueTranscriptId = oid) {τ : List (ContentType × List NestedId)}
    (hi : IdsInv "tx" id oid e.aead.calls e.sentBytes τ) (typ : ContentType) (len : ℕ)
    {c : AeadCall} {x : StreamCipher.Call} (hc : c.streamCall = some x)
    (hx : x.toOp = some (.take len)) :
    (e.recorded typ len c).transcriptId = id ∧ (e.recorded typ len c).opaqueTranscriptId = oid ∧
      IdsInv "tx" id oid (e.recorded typ len c).aead.calls (e.recorded typ len c).sentBytes
        (τ ++ [(typ, (e.recorded typ len c).plaintextIds.drop e.plaintextIds.length)]) := by
  refine ⟨hid, hoid, ?_⟩
  show IdsInv "tx" id oid (e.recorded typ len c).aead.calls (countAppData typ len e.sentBytes)
    (τ ++ [(typ, (plaintextIdsAfter "tx" e.opaqueTranscriptId (e.recorded typ len c).aead.calls).drop
      (plaintextIdsAfter "tx" e.opaqueTranscriptId e.aead.calls).length)])
  rw [Encrypter.recorded_calls, hid, hoid]
  exact hi.record hne typ hc hx

/-- Along every run of the encrypter from a new one, the ids of its bytes are its transcript's. -/
theorem Encrypter.Trace.idsInv {A : Aead} (hne : id ≠ oid) {τ : List (ContentType × List NestedId)}
    {e : Encrypter} (h : Trace A (.new ⟨[]⟩ id oid) τ e) :
    e.transcriptId = id ∧ e.opaqueTranscriptId = oid ∧ IdsInv "tx" id oid e.aead.calls e.sentBytes τ := by
  induction h with
  | nil => exact ⟨rfl, rfl, IdsInv.init _ _ _⟩
  | start _ h ih =>
    obtain ⟨hid, hoid, hi⟩ := ih
    rw [Encrypter.start_eq_ok A h]
    exact ⟨hid, hoid, hi.append_none rfl⟩
  | encryptPrivate msg _ h ih =>
    obtain ⟨hid, hoid, hi⟩ := ih
    rw [Encrypter.encryptWith_eq_ok A h]
    exact Encrypter.idsInv_recorded hne hid hoid hi _ _ rfl rfl
  | encryptPublic msg _ h ih =>
    obtain ⟨hid, hoid, hi⟩ := ih
    rw [Encrypter.encryptWith_eq_ok A h]
    exact Encrypter.idsInv_recorded hne hid hoid hi _ _ rfl rfl
  | encryptBlind typ version len _ h ih =>
    obtain ⟨hid, hoid, hi⟩ := ih
    rw [Encrypter.encryptBlind_eq_ok A h]
    exact Encrypter.idsInv_recorded hne hid hoid hi _ _ rfl rfl

/-- The text of a decryption, less its tag, is the record's plaintext. -/
theorem Decrypter.length_ciphertext_sub (msg : OpaqueMessage) :
    (Decrypter.ciphertext msg).length - 16 = Decrypter.plaintextLen msg := by
  simp only [Decrypter.ciphertext, Decrypter.plaintextLen, List.length_drop]
  omega

/-- A record decrypted with the stream cipher's ids (all operations but `decrypt_public`) keeps the
decrypter's ids its transcript's. -/
theorem Decrypter.idsInv_recorded (hne : id ≠ oid) {d : Decrypter} (hid : d.transcriptId = id)
    (hoid : d.opaqueTranscriptId = oid) {records : List (ContentType × List NestedId)}
    (hi : IdsInv "rx" id oid d.aead.calls d.recvBytes records) (op : AeadOp) (msg : OpaqueMessage)
    {x : StreamCipher.Call} (hc : (Decrypter.decryptCall op d.seq msg).streamCall = some x)
    (hx : x.toOp = some (.take (Decrypter.plaintextLen msg))) :
    (d.recorded op msg).transcriptId = id ∧ (d.recorded op msg).opaqueTranscriptId = oid ∧
      IdsInv "rx" id oid (d.recorded op msg).aead.calls (d.recorded op msg).recvBytes
        (records ++ [(msg.typ, (d.recorded op msg).plaintextIds.drop d.plaintextIds.length)]) := by
  refine ⟨hid, hoid, ?_⟩
  show IdsInv "rx" id oid (d.recorded op msg).aead.calls
    (countAppData msg.typ (Decrypter.plaintextLen msg) d.recvBytes)
    (records ++ [(msg.typ, (plaintextIdsAfter "rx" d.opaqueTranscriptId
      (d.recorded op msg).aead.calls).drop (plaintextIdsAfter "rx" d.opaqueTranscriptId
        d.aead.calls).length)])
  rw [Decrypter.recorded_calls, hid, hoid]
  exact hi.record hne msg.typ hc hx

/-- A record other than application data decrypted by `decrypt_public` keeps the decrypter's ids
its transcript's. -/
theorem Decrypter.idsInv_recorded_public {d : Decrypter} (hid : d.transcriptId = id)
    (hoid : d.opaqueTranscriptId = oid) {records : List (ContentType × List NestedId)}
    (hi : IdsInv "rx" id oid d.aead.calls d.recvBytes records) {msg : OpaqueMessage}
    (hty : msg.typ ≠ .applicationData) :
    (d.recorded .decryptPublic msg).transcriptId = id ∧
      (d.recorded .decryptPublic msg).opaqueTranscriptId = oid ∧
      IdsInv "rx" id oid (d.recorded .decryptPublic msg).aead.calls
        (d.recorded .decryptPublic msg).recvBytes (records ++
          [(msg.typ, (d.recorded .decryptPublic msg).plaintextIds.drop d.plaintextIds.length)]) := by
  refine ⟨hid, hoid, ?_⟩
  show IdsInv "rx" id oid (d.recorded .decryptPublic msg).aead.calls
    (countAppData msg.typ (Decrypter.plaintextLen msg) d.recvBytes)
    (records ++ [(msg.typ, (plaintextIdsAfter "rx" d.opaqueTranscriptId
      (d.recorded .decryptPublic msg).aead.calls).drop (plaintextIdsAfter "rx" d.opaqueTranscriptId
        d.aead.calls).length)])
  rw [Decrypter.recorded_calls, hid, hoid]
  exact hi.record_none hty _ rfl rfl

/-- Along every run of the decrypter from a new one that decrypts publicly no record of application
data, the ids of its bytes are its transcript's. -/
theorem Decrypter.Trace.idsInv {A : Aead} {overflowChecks : Bool} (hne : id ≠ oid)
    {σ : List (AeadOp × ContentType × List NestedId)} {d : Decrypter}
    (h : Trace A overflowChecks (.new ⟨[]⟩ id oid) σ d) :
    (∀ r ∈ σ, r.1 = .decryptPublic → r.2.1 ≠ .applicationData) →
      d.transcriptId = id ∧ d.opaqueTranscriptId = oid ∧
        IdsInv "rx" id oid d.aead.calls d.recvBytes (σ.map Prod.snd) := by
  induction h with
  | nil => exact fun _ => ⟨rfl, rfl, IdsInv.init _ _ _⟩
  | start _ h ih =>
    intro hpub
    obtain ⟨hid, hoid, hi⟩ := ih hpub
    rw [Decrypter.start_eq_ok A h]
    exact ⟨hid, hoid, hi.append_none rfl⟩
  | decodeKeyPrivate _ h ih =>
    intro hpub
    obtain ⟨hid, hoid, hi⟩ := ih hpub
    rw [Decrypter.decodeKeyPrivate_eq_ok A h]
    exact ⟨hid, hoid, hi.append_none rfl⟩
  | decodeKeyBlind _ h ih =>
    intro hpub
    obtain ⟨hid, hoid, hi⟩ := ih hpub
    rw [Decrypter.decodeKeyBlind_eq_ok A h]
    exact ⟨hid, hoid, hi.append_none rfl⟩
  | decryptPrivate msg _ h ih =>
    intro hpub
    obtain ⟨hid, hoid, hi⟩ := ih fun r hr => hpub r (List.mem_append_left _ hr)
    obtain ⟨-, rfl, -⟩ := Decrypter.decryptWith_eq_ok A overflowChecks h
    rw [List.map_append]
    exact Decrypter.idsInv_recorded hne hid hoid hi _ msg rfl
      (by rw [← Decrypter.length_ciphertext_sub]; rfl)
  | decryptPublic msg _ h ih =>
    intro hpub
    obtain ⟨hid, hoid, hi⟩ := ih fun r hr => hpub r (List.mem_append_left _ hr)
    obtain ⟨-, rfl, -⟩ := Decrypter.decryptWith_eq_ok A overflowChecks h
    -- the record decrypted publicly is not one of application data
    have hty : msg.typ ≠ .applicationData := hpub _ (List.mem_append_right _ (List.mem_singleton_self _)) rfl
    rw [List.map_append]
    exact Decrypter.idsInv_recorded_public hid hoid hi hty
  | provePlaintext msg _ h ih =>
    intro hpub
    obtain ⟨hid, hoid, hi⟩ := ih fun r hr => hpub r (List.mem_append_left _ hr)
    obtain ⟨-, rfl, -⟩ := Decrypter.decryptWith_eq_ok A overflowChecks h
    rw [List.map_append]
    exact Decrypter.idsInv_recorded hne hid hoid hi _ msg rfl
      (by rw [← Decrypter.length_ciphertext_sub]; rfl)
  | decryptBlind msg _ h ih =>
    intro hpub
    obtain ⟨hid, hoid, hi⟩ := ih fun r hr => hpub r (List.mem_append_left _ hr)
    obtain ⟨-, rfl⟩ := Decrypter.decryptBlind_eq_ok A overflowChecks h
    rw [List.map_append]
    exact Decrypter.idsInv_recorded hne hid hoid hi _ msg rfl
      (by rw [← Decrypter.length_ciphertext_sub]; rfl)
  | verifyPlaintext msg _ h ih =>
    intro hpub
    obtain ⟨hid, hoid, hi⟩ := ih fun r hr => hpub r (List.mem_append_left _ hr)
    obtain ⟨-, rfl⟩ := Decrypter.verifyPlaintext_eq_ok A overflowChecks h
    rw [List.map_append]
    exact Decrypter.idsInv_recorded hne hid hoid hi _ msg rfl
      (by rw [← Decrypter.length_ciphertext_sub]; rfl)

end Runs

/-! ### The ids of the transcripts -/

/-- **Transcript ids.** For any run of a new encrypter and any run of a new decrypter whose
transcript ids differ from their opaque ones, in which no record of application data is decrypted
publicly: the bytes of the records of application data sent get, in record order, the ids
`tx/0, …, tx/(sent_bytes - 1)`, those received `rx/0, …, rx/(recv_bytes - 1)`, and no byte of
another record gets a `tx` or `rx` id. Beneath it, the contract of `set_transcript_id`: from a new
stream cipher, whatever its calls, the ids under each transcript id `t` are `t/0, t/1, …` up to the
final counter of `t`. -/
theorem record_layer_transcript_ids {A A' : Aead} {overflowChecks : Bool}
    {config : MpcTlsCommonConfig}
    {τ : List (ContentType × List NestedId)} {σ : List (AeadOp × ContentType × List NestedId)}
    {e : Encrypter} {d : Decrypter}
    (htx : config.txConfig.id ≠ config.txConfig.opaqueId)
    (hrx : config.rxConfig.id ≠ config.rxConfig.opaqueId)
    (he : Encrypter.Trace A (.new ⟨[]⟩ config.txConfig.id config.txConfig.opaqueId) τ e)
    (hd : Decrypter.Trace A' overflowChecks (.new ⟨[]⟩ config.rxConfig.id config.rxConfig.opaqueId) σ d)
    (hpub : ∀ r ∈ σ, r.1 = .decryptPublic → r.2.1 ≠ .applicationData) :
    (τ.filter (·.1 = .applicationData)).flatMap (·.2) =
        (List.range e.sentBytes).map (⟨config.txConfig.id, ·⟩) ∧
      (∀ r ∈ τ, r.1 ≠ .applicationData → ∀ n ∈ r.2, n.transcript ≠ config.txConfig.id) ∧
      (σ.filter (·.2.1 = .applicationData)).flatMap (·.2.2) =
        (List.range d.recvBytes).map (⟨config.rxConfig.id, ·⟩) ∧
      (∀ r ∈ σ, r.2.1 ≠ .applicationData → ∀ n ∈ r.2.2, n.transcript ≠ config.rxConfig.id) ∧
      ∀ (transcriptId : String) (calls : List StreamCipher.Call) (t : String),
        ((StreamCipher.State.ids (.new transcriptId) calls).filter (·.transcript = t)).map
            NestedId.counter =
          List.range ((StreamCipher.State.final (.new transcriptId) calls).counter t) := by
  obtain ⟨-, -, hie⟩ := he.idsInv htx
  obtain ⟨-, -, hid⟩ := hd.idsInv hrx hpub
  refine ⟨hie.appData, hie.others, ?_, ?_, StreamCipher.State.ids_filter⟩
  · -- the decrypter's records, read without their operations
    have h := hid.appData
    simpa [List.filter_map, List.flatMap_map, Function.comp_def] using h
  · intro r hr hty
    exact hid.others r.2 (List.mem_map_of_mem hr) hty

/-- An AEAD that answers every call with no bytes. -/
def silentAead : Aead := ⟨fun _ _ => .ok []⟩

theorem record_layer_transcript_ids_session :
    ∃ τ e σ d, Encrypter.Trace silentAead (.new ⟨[]⟩ "tx" "opaque_tx") τ e ∧
      Decrypter.Trace silentAead true (.new ⟨[]⟩ "rx" "opaque_rx") σ d ∧
      (∀ r ∈ σ, r.1 = .decryptPublic → r.2.1 ≠ .applicationData) ∧
      (τ.filter (·.1 = .applicationData)).flatMap (·.2) = (List.range e.sentBytes).map (⟨"tx", ·⟩) ∧
      (∀ r ∈ τ, r.1 ≠ .applicationData → ∀ n ∈ r.2, n.transcript ≠ "tx") ∧
      (σ.filter (·.2.1 = .applicationData)).flatMap (·.2.2) =
        (List.range d.recvBytes).map (⟨"rx", ·⟩) ∧
      (∀ r ∈ σ, r.2.1 ≠ .applicationData → ∀ n ∈ r.2.2, n.transcript ≠ "rx") ∧
      ∀ (transcriptId : String) (calls : List StreamCipher.Call) (t : String),
        ((StreamCipher.State.ids (.new transcriptId) calls).filter (·.transcript = t)).map
            NestedId.counter =
          List.range ((StreamCipher.State.final (.new transcriptId) calls).counter t) := by
  suffices h : ∃ τ e σ d, Encrypter.Trace silentAead (.new ⟨[]⟩ "tx" "opaque_tx") τ e ∧
      Decrypter.Trace silentAead true (.new ⟨[]⟩ "rx" "opaque_rx") σ d ∧
      (∀ r ∈ σ, r.1 = .decryptPublic → r.2.1 ≠ .applicationData) by
    obtain ⟨τ, e, σ, d, he, hd, hpub⟩ := h
    exact ⟨τ, e, σ, d, he, hd, hpub,
      @record_layer_transcript_ids silentAead silentAead true {} τ σ e d (by decide) (by decide) he hd hpub⟩
  -- a Finished message of the client, then three bytes of application data; the server's Finished,
  -- decrypted publicly, then six bytes of application data
  exact ⟨_, _, _, _,
    .encryptPrivate ⟨.applicationData, .tlsv1_2, [1, 2, 3]⟩
      (.encryptPublic ⟨.handshake, .tlsv1_2, List.replicate 16 0⟩ (.start .nil rfl) rfl) rfl,
    .decryptPrivate ⟨.applicationData, .tlsv1_2, List.replicate 30 0⟩
      (.decryptPublic ⟨.handshake, .tlsv1_2, List.replicate 40 0⟩ (.start .nil rfl) rfl) rfl,
    by decide⟩

/-- A decrypter, in either build, that decrypts publicly a record of six bytes of application data
and then privately another: twelve bytes received, six ids. -/
theorem trace_decryptPublic_decryptPrivate (overflowChecks : Bool) :
    ∃ σ d, Decrypter.Trace silentAead overflowChecks (.new ⟨[]⟩ "rx" "opaque_rx") σ d ∧ d.recvBytes = 12 ∧
      (σ.filter (·.2.1 = .applicationData)).flatMap (·.2.2) = (List.range 6).map (⟨"rx", ·⟩) ∧
      (σ.filter (·.2.1 = .applicationData)).flatMap (·.2.2) ≠
        (List.range d.recvBytes).map (⟨"rx", ·⟩) := by
  refine ⟨_, _, .decryptPrivate ⟨.applicationData, .tlsv1_2, List.replicate 30 0⟩
    (.decryptPublic ⟨.applicationData, .tlsv1_2, List.replicate 30 0⟩ (.start .nil rfl) rfl) rfl, ?_⟩
  decide

/-- **`decrypt_public` on application data.** A decrypter that decrypts publicly a record of six
bytes of application data, then privately another, has received twelve bytes of application data,
but the ids of its records of application data are `rx/0, …, rx/5`: the bytes of the first record
have none, and those of the second have the ids of the first. So in a build with overflow checks
and in one without. -/
theorem decryptPublic_skips_rx_ids :
    (∃ σ d, Decrypter.Trace silentAead true (.new ⟨[]⟩ "rx" "opaque_rx") σ d ∧ d.recvBytes = 12 ∧
      (σ.filter (·.2.1 = .applicationData)).flatMap (·.2.2) = (List.range 6).map (⟨"rx", ·⟩) ∧
      (σ.filter (·.2.1 = .applicationData)).flatMap (·.2.2) ≠
        (List.range d.recvBytes).map (⟨"rx", ·⟩)) ∧
    ∃ σ d, Decrypter.Trace silentAead false (.new ⟨[]⟩ "rx" "opaque_rx") σ d ∧ d.recvBytes = 12 ∧
      (σ.filter (·.2.1 = .applicationData)).flatMap (·.2.2) = (List.range 6).map (⟨"rx", ·⟩) ∧
      (σ.filter (·.2.1 = .applicationData)).flatMap (·.2.2) ≠
        (List.range d.recvBytes).map (⟨"rx", ·⟩) :=
  ⟨trace_decryptPublic_decryptPrivate true, trace_decryptPublic_decryptPrivate false⟩

end Tlsn.Mpc
