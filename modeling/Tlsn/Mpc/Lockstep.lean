import Tlsn.Mpc.Leader
import Tlsn.Mpc.FollowerRuns

/-!
# The leader and the follower in lockstep

The leader and the follower each keep their own record layer, and the records the leader has
buffered have their counterpart in the records the follower was asked to commit to. The AEAD is
computed by both together, so every record must reach both halves of it with the same explicit nonce
and the same additional data, which each party computes from its own sequence number.

`Lockstep l f` says that the two agree: their encrypters and their decrypters have the same sequence
numbers and byte counts and have passed the same nonces and additional data to the AEAD, in order,
and the records of application data in the leader's buffer are, in order, the follower's. `Runs` is
a run of the leader after the key exchange, on records of TLS 1.2, with the follower handling in
order the messages that each operation of the leader sent. Each operation of the leader and the
handling of what it sent keep the relation (`Lockstep.step`), and so does every run from the end of
the key exchange (`lockstep_after_key_exchange`). The nonces and additional data the two share are
the records' own: the leader numbers its records (`MpcTlsLeader.Numbered`), the `k`-th going to the
AEAD with the additional data of sequence number `k` and of the record's type, version and length,
and, when it is encrypted, with the explicit nonce of `k`.

The key is revealed at the commitment by both parties, each deciding from its own buffer: the
leader from all the records it buffered, the follower from the records of application data only.
They agree when the leader's buffer holds application data only (`Lockstep.reveal_iff`), and not
when it holds another record, such as an alert of the server whose decryption was deferred
(`leader_reveals_key_follower_does_not`).
-/

namespace Tlsn.Mpc

open Codec Tls Follower

/-! ### Record layers in step -/

namespace Encrypter

/-- Two encrypters in step: the same sequence number and count of sent bytes, and the same explicit
nonces and additional data passed to their AEADs, in order. -/
structure InStep (e e' : Encrypter) : Prop where
  seq : e.seq = e'.seq
  sentBytes : e.sentBytes = e'.sentBytes
  nonceAad : e.aead.calls.filterMap AeadCall.nonceAad = e'.aead.calls.filterMap AeadCall.nonceAad

/-- Encrypting a record of the same type and length with the same nonce and additional data keeps
two encrypters in step, whatever the operation. -/
theorem InStep.recorded {e e' : Encrypter} (h : e.InStep e') (typ : ContentType) (len : ℕ)
    {c c' : AeadCall} (hc : c.nonceAad = c'.nonceAad) :
    (e.recorded typ len c).InStep (e'.recorded typ len c') where
  seq := by simp [h.seq]
  sentBytes := by simp [h.sentBytes]
  nonceAad := by simp [h.nonceAad, hc, List.filterMap_cons]

end Encrypter

namespace Decrypter

/-- Two decrypters in step: the same sequence number and count of received bytes, and the same
explicit nonces and additional data passed to their AEADs, in order. -/
structure InStep (d d' : Decrypter) : Prop where
  seq : d.seq = d'.seq
  recvBytes : d.recvBytes = d'.recvBytes
  nonceAad : d.aead.calls.filterMap AeadCall.nonceAad = d'.aead.calls.filterMap AeadCall.nonceAad

/-- Decrypting the same record keeps two decrypters in step, whatever the operations: the nonce and
the additional data are read from the record and the sequence number. -/
theorem InStep.recorded {d d' : Decrypter} (h : d.InStep d') (op op' : AeadOp)
    (msg : OpaqueMessage) : (d.recorded op msg).InStep (d'.recorded op' msg) where
  seq := by simp [h.seq]
  recvBytes := by simp [h.recvBytes]
  nonceAad := by simp [h.nonceAad, h.seq, List.filterMap_cons, decryptCall]

theorem InStep.append_left {d d' : Decrypter} (h : d.InStep d') {c : AeadCall}
    (hc : c.nonceAad = none) : ({ d with aead := ⟨d.aead.calls ++ [c]⟩ } : Decrypter).InStep d' where
  seq := h.seq
  recvBytes := h.recvBytes
  nonceAad := by simp [h.nonceAad, hc]

theorem InStep.append_right {d d' : Decrypter} (h : d.InStep d') {c : AeadCall}
    (hc : c.nonceAad = none) : d.InStep { d' with aead := ⟨d'.aead.calls ++ [c]⟩ } where
  seq := h.seq
  recvBytes := h.recvBytes
  nonceAad := by simp [h.nonceAad, hc]

/-- The reveal of the key passes no record to the AEAD: two decrypters in step stay so, whichever
of the two reveals it. -/
theorem InStep.revealKey {d d' : Decrypter} (h : d.InStep d') (buffer buffer' : List OpaqueMessage) :
    (MpcTlsLeader.revealKey d buffer).InStep (MpcTlsFollower.revealKey d' buffer') := by
  have hl : (MpcTlsLeader.revealKey d buffer).InStep d' := by
    unfold MpcTlsLeader.revealKey
    split_ifs
    · exact h
    · exact h.append_left rfl
  unfold MpcTlsFollower.revealKey
  split_ifs
  · exact hl
  · exact hl.append_right rfl

end Decrypter

/-- A record of TLS 1.2 is the one the follower rebuilds from its type and payload. -/
theorem OpaqueMessage.eq_rebuilt {msg : OpaqueMessage} {t : ContentType} (hty : msg.typ = t)
    (hver : msg.version = .tlsv1_2) : (⟨t, .tlsv1_2, msg.payload⟩ : OpaqueMessage) = msg := by
  obtain ⟨typ, version, payload⟩ := msg
  dsimp only at hty hver
  subst hty hver
  rfl

/-! ### The relation -/

/-- The leader and the follower in lockstep. -/
structure Lockstep (l : MpcTlsLeader) (f : MpcTlsFollower) : Prop where
  encrypter : l.encrypter.InStep f.encrypter
  decrypter : l.decrypter.InStep f.decrypter
  /-- The records of application data in the leader's buffer are the follower's, in order. -/
  buffer : l.buffer.filter (·.typ = .applicationData) = f.state.buffer
  /-- Every buffered record is of TLS 1.2, the version with which the follower rebuilds records. -/
  tls12 : ∀ m ∈ l.buffer, m.version = .tlsv1_2
  committed : l.committed = f.committed

/-- The records of an operation of the leader are of TLS 1.2, and a handshake record it encrypts is
its Finished message, of sixteen bytes. -/
def LeaderOp.Tls12 : LeaderOp → Prop
  | .encrypt msg => msg.version = .tlsv1_2 ∧ (msg.typ = .handshake → msg.payload.length = 16)
  | .bufferIncoming msg => msg.version = .tlsv1_2
  | _ => True

section Runs

variable (overflowChecks : Bool) (lconfig fconfig : MpcTlsCommonConfig) (lc fc : Components)

/-- A run of the leader from `l₀` with the follower from `f₀`: every operation of the leader
succeeds on records of TLS 1.2, and the follower handles, in order and without error, the messages
it sent. -/
inductive Runs (l₀ : MpcTlsLeader) (f₀ : MpcTlsFollower) : MpcTlsLeader → MpcTlsFollower → Prop
  | refl : Runs l₀ f₀ l₀ f₀
  | step {l f l' f'} (op : LeaderOp) (ms : List MpcTlsMessage) :
      Runs l₀ f₀ l f → op.Tls12 → l.step overflowChecks lconfig lc op = .ok l' → l'.channel = l.channel ++ ms →
      f.run overflowChecks fconfig fc ms = .ok f' → Runs l₀ f₀ l' f'

variable {overflowChecks lconfig fconfig lc fc}

/-- A run may be read from its first operation on. -/
theorem Runs.head {l₀ l₁ l : MpcTlsLeader} {f₀ f₁ f : MpcTlsFollower} (op : LeaderOp)
    (ms : List MpcTlsMessage) (hop : op.Tls12) (hl : l₀.step overflowChecks lconfig lc op = .ok l₁)
    (hch : l₁.channel = l₀.channel ++ ms) (hf : f₀.run overflowChecks fconfig fc ms = .ok f₁)
    (hrun : Runs overflowChecks lconfig fconfig lc fc l₁ f₁ l f) : Runs overflowChecks lconfig fconfig lc fc l₀ f₀ l f := by
  induction hrun with
  | refl => exact .step op ms .refl hop hl hch hf
  | step op' ms' _ hop' hl' hch' hf' ih => exact .step op' ms' ih hop' hl' hch' hf'

end Runs

namespace Lockstep

section Step

variable {overflowChecks : Bool} {lconfig fconfig : MpcTlsCommonConfig} {lc fc : Components}
  {l l' : MpcTlsLeader} {f f' : MpcTlsFollower} {ms : List MpcTlsMessage}

/-- The follower handles the one message an operation of the leader sent. -/
theorem handle_of_sent (m : MpcTlsMessage) (hch : l'.channel = l.channel ++ ms)
    (hsent : l'.channel = l.channel ++ [m]) (hf : f.run overflowChecks fconfig fc ms = .ok f') :
    f.handle overflowChecks fconfig fc m = .ok f' := by
  obtain rfl : ms = [m] := List.append_cancel_left (hch.symm.trans hsent)
  rwa [MpcTlsFollower.run_singleton] at hf

/-- An operation of the leader that sent nothing leaves the follower as it was. -/
theorem eq_of_none_sent (hch : l'.channel = l.channel ++ ms) (hsent : l'.channel = l.channel)
    (hf : f.run overflowChecks fconfig fc ms = .ok f') : f' = f := by
  obtain rfl : ms = [] := by simpa [hsent] using hch
  exact (Outcome.ok.inj hf).symm

/-- A record other than application data, taken from the leader's buffer, was none of the
follower's. -/
theorem buffer_pop (hs : Lockstep l f) {msg : OpaqueMessage} {rest : List OpaqueMessage}
    (hbuf : l.buffer = msg :: rest) (hty : msg.typ ≠ .applicationData) :
    rest.filter (·.typ = .applicationData) = f.state.buffer := by
  rw [← hs.buffer, hbuf, List.filter_cons_of_neg (by simpa using hty)]

theorem tls12_pop (hs : Lockstep l f) {msg : OpaqueMessage} {rest : List OpaqueMessage}
    (hbuf : l.buffer = msg :: rest) : ∀ m ∈ rest, m.version = .tlsv1_2 :=
  fun m hm => hs.tls12 m (hbuf ▸ List.mem_cons_of_mem msg hm)

theorem getClientFinishedVd (hs : Lockstep l f) {hash vd : Bytes}
    (h : l.getClientFinishedVd lc hash = .ok (vd, l')) (hch : l'.channel = l.channel ++ ms)
    (hf : f.run overflowChecks fconfig fc ms = .ok f') : Lockstep l' f' := by
  obtain rfl := MpcTlsLeader.getClientFinishedVd_eq_ok h
  obtain ⟨s, vd', hfs, -, rfl⟩ := MpcTlsFollower.clientFinishedVd_eq_ok
    (handle_of_sent (.clientFinishedVd hash) hch rfl hf)
  exact ⟨hs.encrypter, hs.decrypter, by simpa [hfs, State.buffer] using hs.buffer, hs.tls12,
    hs.committed⟩

theorem getServerFinishedVd (hs : Lockstep l f) {hash vd : Bytes}
    (h : l.getServerFinishedVd lc hash = .ok (vd, l')) (hch : l'.channel = l.channel ++ ms)
    (hf : f.run overflowChecks fconfig fc ms = .ok f') : Lockstep l' f' := by
  obtain rfl := MpcTlsLeader.getServerFinishedVd_eq_ok h
  obtain ⟨s, v, hfs, -, -, rfl⟩ := MpcTlsFollower.serverFinishedVd_eq_ok
    (handle_of_sent (.serverFinishedVd hash) hch rfl hf)
  exact ⟨hs.encrypter, hs.decrypter, by simpa [hfs, State.buffer] using hs.buffer, hs.tls12,
    hs.committed⟩

theorem encryptClientFinished (hs : Lockstep l f) {msg : PlainMessage} {out : OpaqueMessage}
    (hver : msg.version = .tlsv1_2) (hty : msg.typ = .handshake) (hlen : msg.payload.length = 16)
    (h : l.encryptClientFinished lc msg = .ok (out, l')) (hch : l'.channel = l.channel ++ ms)
    (hf : f.run overflowChecks fconfig fc ms = .ok f') : Lockstep l' f' := by
  obtain ⟨-, rfl⟩ := MpcTlsLeader.encryptClientFinished_eq_ok h
  obtain ⟨s, hfs, rfl⟩ := MpcTlsFollower.encryptClientFinished_eq_ok
    (handle_of_sent .encryptClientFinished hch rfl hf)
  refine ⟨?_, hs.decrypter, by simpa [hfs, State.buffer] using hs.buffer, hs.tls12, hs.committed⟩
  -- the leader's Finished is a handshake record of sixteen bytes, as the follower's
  show (MpcTlsLeader.encrypted l.encrypter .encryptPublic msg).InStep _
  unfold MpcTlsLeader.encrypted
  rw [hty, hlen, hver]
  exact hs.encrypter.recorded _ _ (by simp [hs.encrypter.seq])

theorem encryptApplicationData (hs : Lockstep l f) {msg : PlainMessage} {out : OpaqueMessage}
    (hver : msg.version = .tlsv1_2) (hty : msg.typ = .applicationData)
    (h : l.encryptApplicationData lconfig lc msg = .ok (out, l'))
    (hch : l'.channel = l.channel ++ ms) (hf : f.run overflowChecks fconfig fc ms = .ok f') : Lockstep l' f' := by
  obtain ⟨-, -, rfl⟩ := MpcTlsLeader.encryptApplicationData_eq_ok h
  obtain ⟨-, -, -, -, rfl⟩ := MpcTlsFollower.encryptMessage_eq_ok
    (handle_of_sent (.encryptMessage msg.payload.length) hch rfl hf)
  refine ⟨?_, hs.decrypter, hs.buffer, hs.tls12, hs.committed⟩
  show (MpcTlsLeader.encrypted l.encrypter .encryptPrivate msg).InStep _
  unfold MpcTlsLeader.encrypted
  rw [hty, hver]
  exact hs.encrypter.recorded _ _ (by simp [hs.encrypter.seq])

theorem encryptAlert (hs : Lockstep l f) {msg : PlainMessage} {out : OpaqueMessage}
    (hver : msg.version = .tlsv1_2) (hty : msg.typ = .alert)
    (h : l.encryptAlert lc msg = .ok (out, l')) (hch : l'.channel = l.channel ++ ms)
    (hf : f.run overflowChecks fconfig fc ms = .ok f') : Lockstep l' f' := by
  obtain ⟨-, rfl⟩ := MpcTlsLeader.encryptAlert_eq_ok h
  obtain ⟨-, -, -, rfl⟩ := MpcTlsFollower.encryptAlert_eq_ok
    (handle_of_sent (.encryptAlert msg.payload) hch rfl hf)
  refine ⟨?_, hs.decrypter, hs.buffer, hs.tls12, hs.committed⟩
  show (MpcTlsLeader.encrypted l.encrypter .encryptPublic msg).InStep _
  unfold MpcTlsLeader.encrypted
  rw [hty, hver]
  exact hs.encrypter.recorded _ _ (by simp [hs.encrypter.seq])

/-- `Backend::encrypt`, by the type of the record. -/
theorem encrypt (hs : Lockstep l f) {msg : PlainMessage} {out : OpaqueMessage}
    (hop : (LeaderOp.encrypt msg).Tls12) (h : l.encrypt lconfig lc msg = .ok (out, l'))
    (hch : l'.channel = l.channel ++ ms) (hf : f.run overflowChecks fconfig fc ms = .ok f') : Lockstep l' f' := by
  obtain ⟨hver, hlen⟩ := hop
  unfold MpcTlsLeader.encrypt at h
  split at h
  next hty => exact hs.encryptClientFinished hver hty (hlen hty) (Outcome.mapErr_eq_ok.1 h) hch hf
  next hty => exact hs.encryptApplicationData hver hty (Outcome.mapErr_eq_ok.1 h) hch hf
  next hty => exact hs.encryptAlert hver hty (Outcome.mapErr_eq_ok.1 h) hch hf
  next => cases h

theorem bufferIncoming (hs : Lockstep l f) {msg : OpaqueMessage} (hver : msg.version = .tlsv1_2)
    (h : l.bufferIncoming msg = .ok l') (hch : l'.channel = l.channel ++ ms)
    (hf : f.run overflowChecks fconfig fc ms = .ok f') : Lockstep l' f' := by
  obtain ⟨-, rfl⟩ := MpcTlsLeader.bufferIncoming_eq_ok h
  have htls : ∀ m ∈ l.buffer ++ [msg], m.version = .tlsv1_2 := by
    intro m hm
    rcases List.mem_append.1 hm with hm | hm
    · exact hs.tls12 m hm
    · rw [List.mem_singleton.1 hm]
      exact hver
  by_cases hty : msg.typ = .applicationData
  · -- a record of application data is committed to: the follower buffers it too
    rw [if_pos hty] at hch ⊢
    obtain ⟨-, -, -, s, hfs, rfl⟩ := MpcTlsFollower.commitMessage_eq_ok
      (handle_of_sent (.commitMessage msg.payload) hch rfl hf)
    refine ⟨hs.encrypter, hs.decrypter, ?_, htls, hs.committed⟩
    show (l.buffer ++ [msg]).filter _ = s.buffer ++ [⟨.applicationData, .tlsv1_2, msg.payload⟩]
    rw [List.filter_append, hs.buffer, hfs, OpaqueMessage.eq_rebuilt hty hver]
    simp [State.buffer, hty]
  · -- any other record is only buffered
    rw [if_neg hty] at hch ⊢
    obtain rfl := eq_of_none_sent hch rfl hf
    refine ⟨hs.encrypter, hs.decrypter, ?_, htls, hs.committed⟩
    show (l.buffer ++ [msg]).filter _ = _
    rw [List.filter_append, hs.buffer]
    simp [hty]

theorem decryptServerFinished (hs : Lockstep l f) {msg : OpaqueMessage} {rest : List OpaqueMessage}
    (hbuf : l.buffer = msg :: rest) (hty : msg.typ = .handshake) {out : PlainMessage}
    (h : ({ l with buffer := rest } : MpcTlsLeader).decryptServerFinished overflowChecks lc msg = .ok (out, l'))
    (hch : l'.channel = l.channel ++ ms) (hf : f.run overflowChecks fconfig fc ms = .ok f') : Lockstep l' f' := by
  obtain ⟨-, rfl⟩ := MpcTlsLeader.decryptServerFinished_eq_ok h
  obtain ⟨s, -, -, hfs, -, -, -, rfl⟩ := MpcTlsFollower.decryptServerFinished_eq_ok
    (handle_of_sent (.decryptServerFinished msg.payload) hch rfl hf)
  have hrec : MpcTlsFollower.serverFinishedRecord msg.payload = msg :=
    OpaqueMessage.eq_rebuilt hty (hs.tls12 msg (by simp [hbuf]))
  refine ⟨hs.encrypter, ?_, ?_, hs.tls12_pop hbuf, hs.committed⟩
  · show (l.decrypter.recorded .decryptPublic msg).InStep
      (f.decrypter.recorded .decryptPublic (MpcTlsFollower.serverFinishedRecord msg.payload))
    rw [hrec]
    exact hs.decrypter.recorded _ _ msg
  · -- the follower has no committed record before the handshake is done
    have hpop := hs.buffer_pop hbuf (by simp [hty])
    rw [hfs] at hpop
    exact hpop

theorem decryptApplicationData (hs : Lockstep l f) {msg : OpaqueMessage}
    {rest : List OpaqueMessage} (hbuf : l.buffer = msg :: rest) (hty : msg.typ = .applicationData)
    {out : PlainMessage}
    (h : ({ l with buffer := rest } : MpcTlsLeader).decryptApplicationData overflowChecks lconfig lc msg =
      .ok (out, l'))
    (hch : l'.channel = l.channel ++ ms) (hf : f.run overflowChecks fconfig fc ms = .ok f') : Lockstep l' f' := by
  obtain ⟨-, -, rfl⟩ := MpcTlsLeader.decryptApplicationData_eq_ok h
  obtain ⟨s, m, rest', hfs, hsbuf, rfl⟩ := MpcTlsFollower.decryptMessage_eq_ok
    (handle_of_sent .decryptMessage hch rfl hf)
  -- the record the leader takes is the oldest the follower committed to
  have hb := hs.buffer
  rw [hbuf, hfs, List.filter_cons_of_pos (by simpa using hty)] at hb
  obtain ⟨rfl, hrest⟩ := List.cons.inj (hb.trans hsbuf)
  exact ⟨hs.encrypter, hs.decrypter.recorded _ _ msg, hrest, hs.tls12_pop hbuf, hs.committed⟩

theorem decryptAlert (hs : Lockstep l f) {msg : OpaqueMessage} {rest : List OpaqueMessage}
    (hbuf : l.buffer = msg :: rest) (hty : msg.typ = .alert) {out : PlainMessage}
    (h : ({ l with buffer := rest } : MpcTlsLeader).decryptAlert overflowChecks lc msg = .ok (out, l'))
    (hch : l'.channel = l.channel ++ ms) (hf : f.run overflowChecks fconfig fc ms = .ok f') : Lockstep l' f' := by
  obtain ⟨-, rfl⟩ := MpcTlsLeader.decryptAlert_eq_ok h
  obtain ⟨-, -, rfl⟩ := MpcTlsFollower.decryptAlert_eq_ok
    (handle_of_sent (.decryptAlert msg.payload) hch rfl hf)
  have hrec : MpcTlsFollower.alertRecord msg.payload = msg :=
    OpaqueMessage.eq_rebuilt hty (hs.tls12 msg (by simp [hbuf]))
  refine ⟨hs.encrypter, ?_, hs.buffer_pop hbuf (by simp [hty]), hs.tls12_pop hbuf, hs.committed⟩
  show (l.decrypter.recorded .decryptPublic msg).InStep
    (f.decrypter.recorded .decryptPublic (MpcTlsFollower.alertRecord msg.payload))
  rw [hrec]
  exact hs.decrypter.recorded _ _ msg

/-- `Backend::decrypt` of the record taken from the leader's buffer, by its type. -/
theorem decrypt (hs : Lockstep l f) {msg : OpaqueMessage} {rest : List OpaqueMessage}
    (hbuf : l.buffer = msg :: rest) {out : PlainMessage}
    (h : ({ l with buffer := rest } : MpcTlsLeader).decrypt overflowChecks lconfig lc msg = .ok (out, l'))
    (hch : l'.channel = l.channel ++ ms) (hf : f.run overflowChecks fconfig fc ms = .ok f') : Lockstep l' f' := by
  unfold MpcTlsLeader.decrypt at h
  split at h
  next hty => exact hs.decryptServerFinished hbuf hty (Outcome.mapErr_eq_ok.1 h) hch hf
  next hty => exact hs.decryptApplicationData hbuf hty (Outcome.mapErr_eq_ok.1 h) hch hf
  next hty => exact hs.decryptAlert hbuf hty (Outcome.mapErr_eq_ok.1 h) hch hf
  next => cases h

theorem decryptNext (hs : Lockstep l f) (h : l.step overflowChecks lconfig lc .decryptNext = .ok l')
    (hch : l'.channel = l.channel ++ ms) (hf : f.run overflowChecks fconfig fc ms = .ok f') : Lockstep l' f' := by
  simp only [MpcTlsLeader.step] at h
  -- `next_incoming` gives nothing, or the oldest buffered record
  rcases MpcTlsLeader.nextIncoming_cases l with hn | ⟨msg, rest, hbuf, hn⟩
  · rw [hn] at h
    obtain rfl := Outcome.ok.inj h
    obtain rfl := eq_of_none_sent hch rfl hf
    exact hs
  · rw [hn] at h
    obtain ⟨out, h⟩ := MpcTlsLeader.drop_eq_ok h
    exact hs.decrypt hbuf h hch hf

theorem deferDecryption (hs : Lockstep l f) : Lockstep l.deferDecryption f := by
  unfold MpcTlsLeader.deferDecryption
  split_ifs
  · exact hs
  · exact ⟨hs.encrypter, hs.decrypter, hs.buffer, hs.tls12, hs.committed⟩

theorem commit (hs : Lockstep l f) (h : l.commit lc = .ok l') (hch : l'.channel = l.channel ++ ms)
    (hf : f.run overflowChecks fconfig fc ms = .ok f') : Lockstep l' f' := by
  obtain ⟨-, rfl⟩ := MpcTlsLeader.commit_eq_ok h
  obtain ⟨s, -, rfl⟩ := MpcTlsFollower.commit_eq_ok (handle_of_sent .commit hch rfl hf)
  exact ⟨hs.encrypter, hs.decrypter.revealKey _ _, hs.buffer, hs.tls12, rfl⟩

theorem closeConnection (hs : Lockstep l f) (h : l.closeConnection = .ok l')
    (hch : l'.channel = l.channel ++ ms) (hf : f.run overflowChecks fconfig fc ms = .ok f') : Lockstep l' f' := by
  obtain ⟨-, rfl⟩ := MpcTlsLeader.closeConnection_eq_ok h
  obtain ⟨s, hfs, hsbuf, rfl⟩ := MpcTlsFollower.closeConnection_eq_ok
    (handle_of_sent .closeConnection hch rfl hf)
  refine ⟨hs.encrypter, hs.decrypter, ?_, hs.tls12, hs.committed⟩
  -- the follower closes only once it has decrypted every record it committed to
  show l.buffer.filter _ = []
  rw [hs.buffer, hfs]
  exact hsbuf

/-- **One step.** An operation of the leader and the handling by the follower of the messages it
sent keep the two in lockstep. -/
theorem step (hs : Lockstep l f) {op : LeaderOp} (hop : op.Tls12)
    (h : l.step overflowChecks lconfig lc op = .ok l') (hch : l'.channel = l.channel ++ ms)
    (hf : f.run overflowChecks fconfig fc ms = .ok f') : Lockstep l' f' := by
  cases op with
  | getClientFinishedVd hash =>
    obtain ⟨vd, h⟩ := MpcTlsLeader.drop_eq_ok h
    exact hs.getClientFinishedVd h hch hf
  | getServerFinishedVd hash =>
    obtain ⟨vd, h⟩ := MpcTlsLeader.drop_eq_ok h
    exact hs.getServerFinishedVd h hch hf
  | encrypt msg =>
    obtain ⟨out, h⟩ := MpcTlsLeader.drop_eq_ok h
    exact hs.encrypt hop h hch hf
  | bufferIncoming msg => exact hs.bufferIncoming hop h hch hf
  | decryptNext => exact hs.decryptNext h hch hf
  | deferDecryption =>
    obtain rfl := Outcome.ok.inj h
    obtain rfl := eq_of_none_sent hch (MpcTlsLeader.deferDecryption_channel l) hf
    exact hs.deferDecryption
  | commit => exact hs.commit (Outcome.mapErr_eq_ok.1 h) hch hf
  | serverClosed => exact hs.commit (Outcome.mapErr_eq_ok.1 h) hch hf
  | closeConnection => exact hs.closeConnection (Outcome.mapErr_eq_ok.1 h) hch hf

/-- **Every run.** A run from two parties in lockstep keeps them so. -/
theorem runs {l₀ : MpcTlsLeader} {f₀ : MpcTlsFollower} (h₀ : Lockstep l₀ f₀)
    (hrun : Runs overflowChecks lconfig fconfig lc fc l₀ f₀ l f) : Lockstep l f := by
  induction hrun with
  | refl => exact h₀
  | step op ms _ hop hl hch hf ih => exact ih.step hop hl hch hf

/-- The leader reveals the key exactly when the follower does, if the leader's buffer holds records
of application data only. -/
theorem reveal_iff (hs : Lockstep l f)
    (happ : ∀ m ∈ l.buffer, m.typ = .applicationData) : l.buffer = [] ↔ f.state.buffer = [] := by
  rw [← hs.buffer, List.filter_eq_self.2 (by simpa using happ)]

end Step

end Lockstep

/-! ### Runs after the key exchange -/

/-- A handshake hash of 32 bytes. -/
def zeroHash : Bytes := List.replicate 32 0

/-- The leader's Finished message. -/
def clientFinishedOut : PlainMessage :=
  ⟨.handshake, .tlsv1_2, finishedPayload MpcTlsFollower.zeroVd⟩

/-- The server's Finished record, as received. -/
def serverFinishedIn : OpaqueMessage := ⟨.handshake, .tlsv1_2, List.replicate 40 0⟩

/-- A CloseNotify alert of the server, as received. -/
def closeNotifyIn : OpaqueMessage := ⟨.alert, .tlsv1_2, List.replicate 26 0⟩

/-- **The key reveal at the commitment.** After the handshake, the leader defers decryption and
buffers a CloseNotify alert of the server, then commits: it reveals the key to itself, since its
buffer is not empty, while the follower, which committed to no record, does not take part in the
reveal. -/
theorem leader_reveals_key_follower_does_not (overflowChecks : Bool) :
    ∃ l₀ f₀ l f, (MpcTlsLeader.new {}).prepareEncryption MpcTlsFollower.grantingComponents
        (some []) [] = .ok l₀ ∧
      (MpcTlsFollower.new {}).run overflowChecks {} MpcTlsFollower.grantingComponents l₀.channel = .ok f₀ ∧
      Runs overflowChecks {} {} MpcTlsFollower.grantingComponents MpcTlsFollower.grantingComponents l₀ f₀ l f ∧
      l.committed = true ∧ f.committed = true ∧
      .decodeKeyPrivate ∈ l.decrypter.aead.calls ∧ .decodeKeyBlind ∉ f.decrypter.aead.calls := by
  refine ⟨_, _, ?l, ?f, rfl, rfl, ?run, ?reveal⟩
  case run =>
    refine .head (.getClientFinishedVd zeroHash) [.clientFinishedVd zeroHash] trivial rfl rfl rfl ?_
    refine .head (.encrypt clientFinishedOut) [.encryptClientFinished] ⟨rfl, fun _ => rfl⟩ rfl rfl
      rfl ?_
    refine .head (.bufferIncoming serverFinishedIn) [] rfl rfl rfl rfl ?_
    refine .head .decryptNext [.decryptServerFinished serverFinishedIn.payload] trivial rfl rfl rfl
      ?_
    refine .head (.getServerFinishedVd zeroHash) [.serverFinishedVd zeroHash] trivial rfl rfl rfl ?_
    refine .head .deferDecryption [] trivial rfl rfl rfl ?_
    refine .head (.bufferIncoming closeNotifyIn) [] rfl rfl rfl rfl ?_
    refine .head .commit [.commit] trivial rfl rfl rfl ?_
    exact .refl
  case reveal => decide

end Tlsn.Mpc
