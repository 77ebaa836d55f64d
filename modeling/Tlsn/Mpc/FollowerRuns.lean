import Tlsn.Mpc.Follower

/-!
# Runs of the MPC-TLS follower

What holds of the follower after any sequence of messages from the leader, honest or not, that it
handled without error. A run handles its messages up to the first `CloseConnection`
(`handledPrefix`), and every property here is an invariant of the handlers (`run_induction`):

* the bytes of application data it encrypted never exceed the configured maximum
  (`run_sentBytes_le`); the bytes it decrypted can (`follower_recvBytes_exceeds_max`), since
  `commit_message` checks each record against a count that only `decrypt_message` raises;
* it reaches `Active` only through the handshake in order, with a server Finished decrypted and
  matched against the PRF (`StateInv`);
* the flags set by `commit` and by a CloseNotify stay set, and then no record is committed to or
  encrypted (`FlagInv`);
* the AEAD key of the server is revealed to the leader only once the leader committed, and after
  that no record is decrypted blind (`RevealAfterCommit`).
-/

namespace Tlsn.Mpc

open Codec Tls Follower
open scoped List

namespace MpcTlsMessage

/-- The messages whose handlers only succeed in `Active`. -/
def needsActive : MpcTlsMessage → Bool
  | encryptMessage _ | commitMessage _ | decryptMessage | decryptAlert _ | commit
  | closeConnection => true
  | _ => false

/-- The messages that add a record to the transcript: a record of application data committed to,
or encrypted. -/
def addsRecord : MpcTlsMessage → Bool
  | commitMessage _ | encryptMessage _ => true
  | _ => false

end MpcTlsMessage

/-- The messages a run of the follower handles: all of them up to the first `CloseConnection`,
after which the actor has stopped. -/
def handledPrefix : List MpcTlsMessage → List MpcTlsMessage
  | [] => []
  | .closeConnection :: _ => [.closeConnection]
  | m :: ms => m :: handledPrefix ms

theorem handledPrefix_cons_of_ne {m : MpcTlsMessage} (hm : m ≠ .closeConnection)
    (ms : List MpcTlsMessage) : handledPrefix (m :: ms) = m :: handledPrefix ms := by
  cases m <;> first | exact absurd rfl hm | rfl

theorem handledPrefix_of_not_mem {ms : List MpcTlsMessage} (h : .closeConnection ∉ ms) :
    handledPrefix ms = ms := by
  induction ms with
  | nil => rfl
  | cons m ms ih =>
    rw [List.mem_cons, not_or] at h
    rw [handledPrefix_cons_of_ne (Ne.symm h.1), ih h.2]

namespace MpcTlsFollower

section Runs

variable {overflowChecks : Bool} {config : MpcTlsCommonConfig} {C : Components}

theorem run_cons_of_ne {m : MpcTlsMessage} (hm : m ≠ .closeConnection) (f : MpcTlsFollower)
    (ms : List MpcTlsMessage) :
    f.run overflowChecks config C (m :: ms) = f.handle overflowChecks config C m >>= fun f' => f'.run overflowChecks config C ms := by
  cases m <;> first | exact absurd rfl hm | rfl

theorem run_cons_closeConnection (f : MpcTlsFollower) (ms : List MpcTlsMessage) :
    f.run overflowChecks config C (.closeConnection :: ms) = f.closeConnection := by
  simp only [run, handle]
  cases f.closeConnection <;> rfl

/-- A run on one message is its handler. -/
theorem run_singleton (f : MpcTlsFollower) (m : MpcTlsMessage) :
    f.run overflowChecks config C [m] = f.handle overflowChecks config C m := by
  by_cases hm : m = .closeConnection
  · subst hm
    exact run_cons_closeConnection f []
  · rw [run_cons_of_ne hm]
    cases f.handle overflowChecks config C m <;> rfl

/-- A run on messages that do not close the connection, followed by more messages, is the run on
the first and then on the rest. -/
theorem run_append {ms₁ : List MpcTlsMessage} (h : .closeConnection ∉ ms₁) (f : MpcTlsFollower)
    (ms₂ : List MpcTlsMessage) :
    f.run overflowChecks config C (ms₁ ++ ms₂) = f.run overflowChecks config C ms₁ >>= fun f' => f'.run overflowChecks config C ms₂ := by
  induction ms₁ generalizing f with
  | nil => rfl
  | cons m ms ih =>
    rw [List.mem_cons, not_or] at h
    rw [List.cons_append, run_cons_of_ne (Ne.symm h.1), run_cons_of_ne (Ne.symm h.1),
      bind_assoc]
    congr 1
    funext f'
    exact ih h.2 f'

/-- **Run induction.** A property of the handled messages and of the follower that every handler
keeps holds after a run, of the messages it handled. -/
theorem run_induction (P : List MpcTlsMessage → MpcTlsFollower → Prop)
    (hstep : ∀ hist f m f', P hist f → f.handle overflowChecks config C m = .ok f' → P (hist ++ [m]) f')
    {hist : List MpcTlsMessage} {f f' : MpcTlsFollower} {ms : List MpcTlsMessage}
    (hP : P hist f) (hrun : f.run overflowChecks config C ms = .ok f') : P (hist ++ handledPrefix ms) f' := by
  induction ms generalizing hist f with
  | nil =>
    cases hrun
    simpa [handledPrefix] using hP
  | cons m ms ih =>
    by_cases hm : m = .closeConnection
    · -- `close_connection` stops the actor: the run ends with its handler
      subst hm
      rw [run_cons_closeConnection] at hrun
      exact hstep hist f _ f' hP hrun
    · rw [run_cons_of_ne hm] at hrun
      obtain ⟨f₁, h₁, hrest⟩ := Outcome.bind_eq_ok.1 hrun
      have := ih (hstep hist f m f₁ hP h₁) hrest
      rwa [handledPrefix_cons_of_ne hm, ← List.singleton_append, ← List.append_assoc]

/-- A run whose first part does not close the connection handled that part, from the follower it
started with to the one the rest starts with. -/
theorem run_append_eq_ok {ms₁ ms₂ : List MpcTlsMessage} (h : .closeConnection ∉ ms₁)
    {f f' : MpcTlsFollower} (hrun : f.run overflowChecks config C (ms₁ ++ ms₂) = .ok f') :
    ∃ f₁, f.run overflowChecks config C ms₁ = .ok f₁ ∧ f₁.run overflowChecks config C ms₂ = .ok f' := by
  rw [run_append h] at hrun
  exact Outcome.bind_eq_ok.1 hrun

end Runs

/-! ### The bytes sent stay within the maximum -/

section Sent

variable {overflowChecks : Bool} {config : MpcTlsCommonConfig} {C : Components}

/-- Every handler keeps the bytes sent within the maximum: only `encrypt_message` adds
application data, and it checks the new count first. -/
theorem handle_sentBytes_le {f f' : MpcTlsFollower} {m : MpcTlsMessage}
    (h : f.handle overflowChecks config C m = .ok f') (hle : f.encrypter.sentBytes ≤ config.txConfig.maxSize) :
    f'.encrypter.sentBytes ≤ config.txConfig.maxSize := by
  cases m with
  | computeKeyExchange hc sr =>
    obtain ⟨-, _, -, rfl⟩ := computeKeyExchange_eq_ok h
    exact hle
  | clientFinishedVd hash =>
    obtain ⟨_, _, -, -, rfl⟩ := clientFinishedVd_eq_ok h
    exact hle
  | encryptClientFinished =>
    obtain ⟨_, -, rfl⟩ := encryptClientFinished_eq_ok h
    simpa [countAppData] using hle
  | encryptAlert msg =>
    obtain ⟨-, -, -, rfl⟩ := encryptAlert_eq_ok h
    simpa [countAppData] using hle
  | serverFinishedVd hash =>
    obtain ⟨_, _, -, -, -, rfl⟩ := serverFinishedVd_eq_ok h
    exact hle
  | decryptServerFinished msg =>
    obtain ⟨_, _, _, -, -, -, -, rfl⟩ := decryptServerFinished_eq_ok h
    exact hle
  | decryptAlert msg =>
    obtain ⟨-, -, rfl⟩ := decryptAlert_eq_ok h
    exact hle
  | commitMessage payload =>
    obtain ⟨-, -, -, _, -, rfl⟩ := commitMessage_eq_ok h
    exact hle
  | encryptMessage len =>
    obtain ⟨-, -, hlen, -, rfl⟩ := encryptMessage_eq_ok h
    simpa [countAppData] using hlen
  | decryptMessage =>
    obtain ⟨_, _, _, -, -, rfl⟩ := decryptMessage_eq_ok h
    exact hle
  | closeConnection =>
    obtain ⟨_, -, -, rfl⟩ := closeConnection_eq_ok h
    exact hle
  | commit =>
    obtain ⟨_, -, rfl⟩ := commit_eq_ok h
    exact hle

/-- Whatever the leader sends, the follower never encrypts more application data than the
configured maximum. -/
theorem run_sentBytes_le {ms : List MpcTlsMessage} {f : MpcTlsFollower}
    (hrun : (new config).run overflowChecks config C ms = .ok f) :
    f.encrypter.sentBytes ≤ config.txConfig.maxSize :=
  @run_induction overflowChecks config C (fun _ f => f.encrypter.sentBytes ≤ config.txConfig.maxSize)
    (fun _ _ _ _ hle h => handle_sentBytes_le h hle) [] _ _ _ (Nat.zero_le _) hrun

/-- Verify data of twelve zero bytes. -/
def zeroVd : VerifyData := ⟨List.replicate 12 0, rfl⟩

/-- Components that grant every call: the key exchange and the PRF succeed with verify data of
zeros, and the AEADs answer sixteen zero bytes, which is a Finished message whose verify data is
zeros. -/
def grantingComponents : Components where
  ke := ⟨.ok (), some [4]⟩
  prf := ⟨fun _ => .ok (), fun _ => .ok zeroVd, fun _ => .ok zeroVd⟩
  encrypter := ⟨fun _ _ => .ok []⟩
  decrypter := ⟨fun _ _ => .ok (List.replicate 16 0)⟩

/-- The messages of the handshake, as an honest leader sends them. -/
def handshakeMessages : List MpcTlsMessage :=
  [.computeKeyExchange (some []) [], .clientFinishedVd [], .encryptClientFinished,
    .decryptServerFinished (List.replicate 40 0), .serverFinishedVd []]

/-- The default configuration with at most a hundred bytes received. -/
def rxMax100 : MpcTlsCommonConfig := { rxConfig := { TranscriptConfig.defaultRx with maxSize := 100 } }

/-- The received bytes are not bounded in the same way: two records of a hundred bytes committed
one after the other both pass the check against the count of zero bytes decrypted so far, and
decrypting them counts 152 bytes against a maximum of 100. -/
theorem follower_recvBytes_exceeds_max (overflowChecks : Bool) :
    ∃ f, (new rxMax100).run overflowChecks rxMax100 grantingComponents (handshakeMessages ++
      [.commitMessage (List.replicate 100 0), .commitMessage (List.replicate 100 0),
        .decryptMessage, .decryptMessage]) = .ok f ∧
      f.decrypter.recvBytes = 152 ∧ rxMax100.rxConfig.maxSize < f.decrypter.recvBytes :=
  ⟨_, rfl, rfl, by decide⟩

end Sent

/-! ### The handshake comes first -/

/-- The decrypter's AEAD decrypted the server's Finished record `ciphertext`, publicly, to a
message of sixteen bytes whose verify data is `v`: it so answered, at some point of its history,
the call with the record's nonce and ciphertext. -/
def DecryptsTo (C : Components) (ciphertext : Bytes) (v : VerifyData) : Prop :=
  ∃ calls aad plaintext,
    C.decrypter.answer calls (.apply .decryptPublic (ciphertext.take 8) (ciphertext.drop 8) aad) =
      .ok plaintext ∧ plaintext.length = 16 ∧ v.bytes = plaintext.drop 4

/-- The handshake as the follower saw it, in order: the key exchange, the client's Finished
computed and encrypted, the server's Finished decrypted and its verify data matched with the PRF's
for a handshake hash. -/
def HandshakeDone (C : Components) (hist : List MpcTlsMessage) : Prop :=
  ∃ hc sr h₁ ct h₂ v,
    [.computeKeyExchange hc sr, .clientFinishedVd h₁, .encryptClientFinished,
      .decryptServerFinished ct, .serverFinishedVd h₂] <+ hist ∧
    DecryptsTo C ct v ∧ C.prf.computeServerFinishedVd h₂ = .ok v

/-- What the handled messages show about the state the follower is in. -/
def StateInv (C : Components) (hist : List MpcTlsMessage) : State → Prop
  | .init | .error => True
  | .ke _ => ∃ hc sr, [.computeKeyExchange hc sr] <+ hist
  | .cf _ => ∃ hc sr h₁, [.computeKeyExchange hc sr, .clientFinishedVd h₁] <+ hist
  | .sf s => ∃ hc sr h₁,
      [.computeKeyExchange hc sr, .clientFinishedVd h₁, .encryptClientFinished] <+ hist ∧
      ∀ v, s.serverFinished = some v → ∃ ct,
        [.computeKeyExchange hc sr, .clientFinishedVd h₁, .encryptClientFinished,
          .decryptServerFinished ct] <+ hist ∧ DecryptsTo C ct v
  | .active _ | .closed _ => HandshakeDone C hist

theorem HandshakeDone.mono {C : Components} {hist hist' : List MpcTlsMessage}
    (h : HandshakeDone C hist) (hsub : hist <+ hist') : HandshakeDone C hist' := by
  obtain ⟨hc, sr, h₁, ct, h₂, v, hs, hdec, hprf⟩ := h
  exact ⟨hc, sr, h₁, ct, h₂, v, hs.trans hsub, hdec, hprf⟩

theorem StateInv.mono {C : Components} {hist hist' : List MpcTlsMessage} {s : State}
    (h : StateInv C hist s) (hsub : hist <+ hist') : StateInv C hist' s := by
  match s, h with
  | .init, _ | .error, _ => trivial
  | .ke _, ⟨hc, sr, hs⟩ => exact ⟨hc, sr, hs.trans hsub⟩
  | .cf _, ⟨hc, sr, h₁, hs⟩ => exact ⟨hc, sr, h₁, hs.trans hsub⟩
  | .sf _, ⟨hc, sr, h₁, hs, hsf⟩ =>
    refine ⟨hc, sr, h₁, hs.trans hsub, fun v hv => ?_⟩
    obtain ⟨ct, hct, hdec⟩ := hsf v hv
    exact ⟨ct, hct.trans hsub, hdec⟩
  | .active _, h | .closed _, h => exact HandshakeDone.mono h hsub

section Ordering

variable {overflowChecks : Bool} {config : MpcTlsCommonConfig} {C : Components}

/-- Each handler moves the follower along the handshake only by the message of that step. -/
theorem handle_stateInv {hist : List MpcTlsMessage} {f f' : MpcTlsFollower} {m : MpcTlsMessage}
    (h : f.handle overflowChecks config C m = .ok f') (hinv : StateInv C hist f.state) :
    StateInv C (hist ++ [m]) f'.state := by
  have hsub : hist <+ hist ++ [m] := List.sublist_append_left hist [m]
  cases m with
  | computeKeyExchange hc sr =>
    obtain ⟨-, _, -, rfl⟩ := computeKeyExchange_eq_ok h
    exact ⟨hc, sr, List.singleton_sublist.2 (List.mem_append_right hist (List.mem_singleton_self _))⟩
  | clientFinishedVd h₁ =>
    obtain ⟨s, _, hs, -, rfl⟩ := clientFinishedVd_eq_ok h
    rw [hs] at hinv
    obtain ⟨hc, sr, hpre⟩ := hinv
    exact ⟨hc, sr, h₁, hpre.append (List.Sublist.refl [_])⟩
  | encryptClientFinished =>
    obtain ⟨s, hs, rfl⟩ := encryptClientFinished_eq_ok h
    rw [hs] at hinv
    obtain ⟨hc, sr, h₁, hpre⟩ := hinv
    exact ⟨hc, sr, h₁, hpre.append (List.Sublist.refl [_]), fun v hv => by cases hv⟩
  | decryptServerFinished ct =>
    -- the server's Finished is set from this record, and what was seen before stays
    obtain ⟨s, plaintext, v, hs, hans, hlen, hv, rfl⟩ := decryptServerFinished_eq_ok h
    rw [hs] at hinv
    obtain ⟨hc, sr, h₁, hpre, -⟩ := hinv
    refine ⟨hc, sr, h₁, hpre.trans hsub, fun v' hv' => ?_⟩
    cases hv'
    exact ⟨ct, hpre.append (List.Sublist.refl [_]), _, _, plaintext, hans, hlen, hv⟩
  | serverFinishedVd h₂ =>
    obtain ⟨s, v, hs, hsf, hprf, rfl⟩ := serverFinishedVd_eq_ok h
    rw [hs] at hinv
    obtain ⟨hc, sr, h₁, -, hset⟩ := hinv
    obtain ⟨ct, hpre, hdec⟩ := hset v hsf
    exact ⟨hc, sr, h₁, ct, h₂, v, hpre.append (List.Sublist.refl [_]), hdec, hprf⟩
  | encryptAlert msg =>
    obtain ⟨-, -, -, rfl⟩ := encryptAlert_eq_ok h
    exact hinv.mono hsub
  | encryptMessage len =>
    obtain ⟨-, -, -, -, rfl⟩ := encryptMessage_eq_ok h
    exact hinv.mono hsub
  | decryptAlert msg =>
    obtain ⟨-, -, rfl⟩ := decryptAlert_eq_ok h
    exact hinv.mono hsub
  | commit =>
    obtain ⟨_, -, rfl⟩ := commit_eq_ok h
    exact hinv.mono hsub
  | commitMessage payload =>
    obtain ⟨-, -, -, s, hs, rfl⟩ := commitMessage_eq_ok h
    rw [hs] at hinv
    exact HandshakeDone.mono hinv hsub
  | decryptMessage =>
    obtain ⟨s, _, _, hs, -, rfl⟩ := decryptMessage_eq_ok h
    rw [hs] at hinv
    exact HandshakeDone.mono hinv hsub
  | closeConnection =>
    obtain ⟨s, hs, -, rfl⟩ := closeConnection_eq_ok h
    rw [hs] at hinv
    exact HandshakeDone.mono hinv hsub

/-- The handlers of the messages of `needsActive` succeed only in `Active`. -/
theorem handle_active {f f' : MpcTlsFollower} {m : MpcTlsMessage}
    (h : f.handle overflowChecks config C m = .ok f') (hm : m.needsActive = true) : ∃ s, f.state = .active s := by
  cases m with
  | encryptMessage len => exact (encryptMessage_eq_ok h).2.2.2.1
  | commitMessage payload =>
    obtain ⟨-, -, -, s, hs, -⟩ := commitMessage_eq_ok h
    exact ⟨s, hs⟩
  | decryptMessage =>
    obtain ⟨s, _, _, hs, -⟩ := decryptMessage_eq_ok h
    exact ⟨s, hs⟩
  | decryptAlert ct => exact (decryptAlert_eq_ok h).1
  | commit =>
    obtain ⟨s, hs, -⟩ := commit_eq_ok h
    exact ⟨s, hs⟩
  | closeConnection =>
    obtain ⟨s, hs, -⟩ := closeConnection_eq_ok h
    exact ⟨s, hs⟩
  | _ => simp [MpcTlsMessage.needsActive] at hm

/-! ### Commitment and CloseNotify close the transcript -/

/-- Each handler keeps the two flags once set; `commit` sets the first, and an accepted alert of the
server the second. -/
theorem handle_flags {f f' : MpcTlsFollower} {m : MpcTlsMessage}
    (h : f.handle overflowChecks config C m = .ok f') :
    (f.committed = true → f'.committed = true) ∧ (m = .commit → f'.committed = true) ∧
      (f.closeNotify = true → f'.closeNotify = true) ∧
      (∀ ct, m = .decryptAlert ct → f'.closeNotify = true) := by
  cases m with
  | computeKeyExchange hc sr =>
    obtain ⟨-, _, -, rfl⟩ := computeKeyExchange_eq_ok h
    simp
  | clientFinishedVd hash =>
    obtain ⟨_, _, -, -, rfl⟩ := clientFinishedVd_eq_ok h
    simp
  | encryptClientFinished =>
    obtain ⟨_, -, rfl⟩ := encryptClientFinished_eq_ok h
    simp
  | encryptAlert msg =>
    obtain ⟨-, -, -, rfl⟩ := encryptAlert_eq_ok h
    simp
  | serverFinishedVd hash =>
    obtain ⟨_, _, -, -, -, rfl⟩ := serverFinishedVd_eq_ok h
    simp
  | decryptServerFinished msg =>
    obtain ⟨_, _, _, -, -, -, -, rfl⟩ := decryptServerFinished_eq_ok h
    simp
  | decryptAlert msg =>
    obtain ⟨-, -, rfl⟩ := decryptAlert_eq_ok h
    simp
  | commitMessage payload =>
    obtain ⟨-, -, -, _, -, rfl⟩ := commitMessage_eq_ok h
    simp
  | encryptMessage len =>
    obtain ⟨-, -, -, -, rfl⟩ := encryptMessage_eq_ok h
    simp
  | decryptMessage =>
    obtain ⟨_, _, _, -, -, rfl⟩ := decryptMessage_eq_ok h
    simp
  | closeConnection =>
    obtain ⟨_, -, -, rfl⟩ := closeConnection_eq_ok h
    simp
  | commit =>
    obtain ⟨_, -, rfl⟩ := commit_eq_ok h
    simp

/-- What the handled messages show about the flags: the leader committed, or the server's alert was
accepted. -/
def FlagInv (hist : List MpcTlsMessage) (f : MpcTlsFollower) : Prop :=
  (.commit ∈ hist → f.committed = true) ∧
    ((∃ ct, .decryptAlert ct ∈ hist) → f.closeNotify = true)

theorem handle_flagInv {hist : List MpcTlsMessage} {f f' : MpcTlsFollower} {m : MpcTlsMessage}
    (h : f.handle overflowChecks config C m = .ok f') (hinv : FlagInv hist f) : FlagInv (hist ++ [m]) f' := by
  obtain ⟨hc, hset, hn, hnset⟩ := handle_flags h
  constructor
  · intro hmem
    rcases List.mem_append.1 hmem with hold | hnew
    · exact hc (hinv.1 hold)
    · exact hset (List.mem_singleton.1 hnew).symm
  · rintro ⟨ct, hmem⟩
    rcases List.mem_append.1 hmem with hold | hnew
    · exact hn (hinv.2 ⟨ct, hold⟩)
    · exact hnset ct (List.mem_singleton.1 hnew).symm

/-- A record is committed to or encrypted only while neither flag is set. -/
theorem handle_addsRecord {f f' : MpcTlsFollower} {m : MpcTlsMessage}
    (h : f.handle overflowChecks config C m = .ok f') (hm : m.addsRecord = true) :
    f.committed = false ∧ f.closeNotify = false := by
  cases m with
  | commitMessage payload =>
    obtain ⟨hclose, hcommitted, -⟩ := commitMessage_eq_ok h
    exact ⟨hcommitted, hclose⟩
  | encryptMessage len =>
    obtain ⟨hclose, hcommitted, -⟩ := encryptMessage_eq_ok h
    exact ⟨hcommitted, hclose⟩
  | _ => simp [MpcTlsMessage.addsRecord] at hm

/-! ### The key is revealed last -/

/-- The server's key was revealed to the leader (`decode_key_blind`) only once the leader had
committed, and no record was decrypted blind after it. -/
def RevealAfterCommit (f : MpcTlsFollower) : Prop :=
  ∀ l₁ l₂, f.decrypter.aead.calls = l₁ ++ .decodeKeyBlind :: l₂ →
    f.committed = true ∧ ∀ n t a, AeadCall.apply .decryptBlind n t a ∉ l₂

/-- An element of a list that a new part did not add is in the old part. -/
theorem append_eq_append_cons {α : Type} {l new l₁ l₂ : List α} {x : α}
    (h : l ++ new = l₁ ++ x :: l₂) (hx : x ∉ new) : ∃ l₂', l = l₁ ++ x :: l₂' ∧ l₂ = l₂' ++ new := by
  rcases List.append_eq_append_iff.1 h with ⟨a', rfl, hnew⟩ | ⟨c', rfl, hc'⟩
  · exact absurd (hnew ▸ List.mem_append_right a' (List.mem_cons_self ..)) hx
  · cases c' with
    | nil =>
      rw [List.nil_append] at hc'
      exact absurd (hc' ▸ List.mem_cons_self ..) hx
    | cons y c'' =>
      simp only [List.cons_append, List.cons.injEq] at hc'
      obtain ⟨rfl, rfl⟩ := hc'
      exact ⟨c'', rfl, rfl⟩

/-- Calls that do not reveal the key keep `RevealAfterCommit`, if the commitment stays and no
record is decrypted blind once committed. -/
theorem RevealAfterCommit.append {f f' : MpcTlsFollower} {new : List AeadCall}
    (h : RevealAfterCommit f) (hcalls : f'.decrypter.aead.calls = f.decrypter.aead.calls ++ new)
    (hnew : .decodeKeyBlind ∉ new) (hmono : f.committed = true → f'.committed = true)
    (hblind : f.committed = true → ∀ n t a, AeadCall.apply .decryptBlind n t a ∉ new) :
    RevealAfterCommit f' := by
  intro l₁ l₂ heq
  rw [hcalls] at heq
  obtain ⟨l₂', hold, rfl⟩ := append_eq_append_cons heq hnew
  obtain ⟨hc, hno⟩ := h l₁ l₂' hold
  refine ⟨hmono hc, fun n t a hmem => ?_⟩
  rcases List.mem_append.1 hmem with hin | hin
  · exact hno n t a hin
  · exact hblind hc n t a hin

theorem RevealAfterCommit.of_eq {f f' : MpcTlsFollower} (h : RevealAfterCommit f)
    (hcalls : f'.decrypter.aead.calls = f.decrypter.aead.calls)
    (hmono : f.committed = true → f'.committed = true) : RevealAfterCommit f' :=
  h.append (by simpa using hcalls : f'.decrypter.aead.calls = f.decrypter.aead.calls ++ [])
    (by simp) hmono (fun _ => by simp)

/-- Revealing the key once committed keeps `RevealAfterCommit`: nothing comes after it yet. -/
theorem RevealAfterCommit.reveal {f f' : MpcTlsFollower} (h : RevealAfterCommit f)
    (hcalls : f'.decrypter.aead.calls = f.decrypter.aead.calls ++ [.decodeKeyBlind])
    (hc : f'.committed = true) : RevealAfterCommit f' := by
  intro l₁ l₂ heq
  refine ⟨hc, fun n t a hmem => ?_⟩
  rw [hcalls] at heq
  rcases List.eq_nil_or_concat l₂ with rfl | ⟨L, b, rfl⟩
  · simp at hmem
  · -- the revealing call is the last one: the one before it is in the old calls
    rw [List.concat_eq_append] at heq hmem
    rw [← List.cons_append, ← List.append_assoc] at heq
    obtain ⟨hold, hb⟩ := List.append_inj' heq rfl
    rcases List.mem_append.1 hmem with hin | hin
    · exact (h l₁ L hold).2 n t a hin
    · rw [← hb] at hin
      simp at hin

theorem handle_revealAfterCommit {f f' : MpcTlsFollower} {m : MpcTlsMessage}
    (h : f.handle overflowChecks config C m = .ok f') (hinv : RevealAfterCommit f) : RevealAfterCommit f' := by
  cases m with
  | computeKeyExchange hc sr =>
    obtain ⟨-, _, -, rfl⟩ := computeKeyExchange_eq_ok h
    exact hinv.append rfl (by simp) id (fun _ => by simp)
  | clientFinishedVd hash =>
    obtain ⟨_, _, -, -, rfl⟩ := clientFinishedVd_eq_ok h
    exact hinv.of_eq rfl id
  | encryptClientFinished =>
    obtain ⟨_, -, rfl⟩ := encryptClientFinished_eq_ok h
    exact hinv.of_eq rfl id
  | encryptAlert msg =>
    obtain ⟨-, -, -, rfl⟩ := encryptAlert_eq_ok h
    exact hinv.of_eq rfl id
  | serverFinishedVd hash =>
    obtain ⟨_, _, -, -, -, rfl⟩ := serverFinishedVd_eq_ok h
    exact hinv.of_eq rfl id
  | decryptServerFinished msg =>
    obtain ⟨_, _, _, -, -, -, -, rfl⟩ := decryptServerFinished_eq_ok h
    exact hinv.append (Decrypter.recorded_calls _ _ _) (by simp [Decrypter.decryptCall]) id
      (fun _ => by simp [Decrypter.decryptCall])
  | decryptAlert msg =>
    obtain ⟨-, -, rfl⟩ := decryptAlert_eq_ok h
    exact hinv.append (Decrypter.recorded_calls _ _ _) (by simp [Decrypter.decryptCall]) id
      (fun _ => by simp [Decrypter.decryptCall])
  | commitMessage payload =>
    obtain ⟨-, -, -, _, -, rfl⟩ := commitMessage_eq_ok h
    exact hinv.of_eq rfl id
  | encryptMessage len =>
    obtain ⟨-, -, -, -, rfl⟩ := encryptMessage_eq_ok h
    exact hinv.of_eq rfl id
  | decryptMessage =>
    -- once committed, a committed record is verified, never decrypted blind
    obtain ⟨_, msg, _, -, -, rfl⟩ := decryptMessage_eq_ok h
    exact hinv.append (Decrypter.recorded_calls _ _ _) (by simp [Decrypter.decryptCall]) id
      (fun hc => by simp [Decrypter.decryptCall, decryptOp, hc])
  | closeConnection =>
    obtain ⟨_, -, -, rfl⟩ := closeConnection_eq_ok h
    exact hinv.of_eq rfl id
  | commit =>
    obtain ⟨s, -, rfl⟩ := commit_eq_ok h
    by_cases hbuf : s.buffer = []
    · exact hinv.of_eq (by simp [revealKey, hbuf]) (fun _ => rfl)
    · exact hinv.reveal (by simp [revealKey, hbuf]) rfl

end Ordering

/-- **Ordering of the follower's protocol.** In a run of the follower on any messages, handled
without error from its creation, and for any message `m` handled after messages `pre` that do not
close the connection:
* if `m` is one of the messages of `Active`, the handshake was done before it, in order, with a
  server Finished decrypted and matched with the PRF's verify data for a handshake hash;
* after the leader's commitment, and after a CloseNotify of the server, `m` neither commits to nor
  encrypts a record;
* at the end, the server's key was revealed to the leader only once the leader had committed, and
  no record was decrypted blind after it. -/
theorem follower_protocol_ordering {config : MpcTlsCommonConfig} {C : Components}
    {pre post : List MpcTlsMessage} {m : MpcTlsMessage} {f' : MpcTlsFollower}
    (hpre : .closeConnection ∉ pre)
    (hrun : (new config).run overflowChecks config C (pre ++ m :: post) = .ok f') :
    (m.needsActive = true → HandshakeDone C pre) ∧
      (.commit ∈ pre → m.addsRecord = false) ∧
      ((∃ ct, .decryptAlert ct ∈ pre) → m.addsRecord = false) ∧
      RevealAfterCommit f' := by
  obtain ⟨f₁, hrun₁, hrest⟩ := run_append_eq_ok hpre hrun
  -- the follower after `pre` handles `m`
  obtain ⟨f₂, hm⟩ : ∃ f₂, f₁.handle overflowChecks config C m = .ok f₂ := by
    by_cases hclose : m = .closeConnection
    · subst hclose
      exact ⟨f', (run_cons_closeConnection f₁ post).symm.trans hrest⟩
    · rw [run_cons_of_ne hclose] at hrest
      obtain ⟨f₂, h₂, -⟩ := Outcome.bind_eq_ok.1 hrest
      exact ⟨f₂, h₂⟩
  have hstate : StateInv C pre f₁.state := by
    have := @run_induction overflowChecks config C (fun hist f => StateInv C hist f.state)
      (fun _ _ _ _ hinv h => handle_stateInv h hinv) [] (new config) _ _ trivial hrun₁
    rwa [List.nil_append, handledPrefix_of_not_mem hpre] at this
  have hflags : FlagInv pre f₁ := by
    have := @run_induction overflowChecks config C FlagInv (fun _ _ _ _ hinv h => handle_flagInv h hinv) []
      (new config) _ _ (by simp [FlagInv]) hrun₁
    rwa [List.nil_append, handledPrefix_of_not_mem hpre] at this
  have hreveal : RevealAfterCommit f' :=
    @run_induction overflowChecks config C (fun _ f => RevealAfterCommit f)
      (fun _ _ _ _ hinv h => handle_revealAfterCommit h hinv) [] (new config) _ _
      (fun l₁ l₂ h => absurd h (by simp [new, Decrypter.new])) hrun
  refine ⟨fun hact => ?_, fun hc => ?_, fun hcn => ?_, hreveal⟩
  · obtain ⟨s, hs⟩ := handle_active hm hact
    rw [hs] at hstate
    exact hstate
  · by_contra hadd
    have := (handle_addsRecord hm (by simpa using hadd)).1
    simp [hflags.1 hc] at this
  · by_contra hadd
    have := (handle_addsRecord hm (by simpa using hadd)).2
    simp [hflags.2 hcn] at this

/-- The ordering on an honest handshake followed by the leader's commitment. -/
theorem follower_protocol_ordering_handshake :
    .closeConnection ∉ handshakeMessages ∧
      ∃ f', (new {}).run true {} grantingComponents (handshakeMessages ++ [.commit]) = .ok f' ∧
        (MpcTlsMessage.needsActive .commit = true →
          HandshakeDone grantingComponents handshakeMessages) ∧
        (.commit ∈ handshakeMessages → MpcTlsMessage.addsRecord .commit = false) ∧
        ((∃ ct, .decryptAlert ct ∈ handshakeMessages) →
          MpcTlsMessage.addsRecord .commit = false) ∧
        RevealAfterCommit f' := by
  have hpre : MpcTlsMessage.closeConnection ∉ handshakeMessages := by decide
  obtain ⟨f', hrun⟩ : ∃ f', (new {}).run true {} grantingComponents
      (handshakeMessages ++ [.commit]) = .ok f' := ⟨_, rfl⟩
  exact ⟨hpre, f', hrun, follower_protocol_ordering hpre hrun⟩

end MpcTlsFollower

end Tlsn.Mpc
