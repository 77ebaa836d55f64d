import Tlsn.Lib.AssocMap
import Tlsn.Mpc.RecordLayer

/-!
# The notary server's sessions and the transcript limits of its verifiers

A prover first asks the notary server for a session (`initialize`, `POST /session`), giving the
most it will send and receive. The server checks the requested total against its configured
`max_transcript_size`, stores the limits under a fresh session id and returns the id. The prover
then opens the notarization connection with that id (`upgrade_protocol`), which takes the limits
out of the store, and `notary_service` builds the `VerifierConfig` of the notarization from them,
the builder's defaults standing in for an absent limit.

`serve` runs the server over any sequence of requests and returns the configurations of the
verifiers it starts. Over every run the stored limits are those of requests that passed the check
(`StoreAdmitted`), so every verifier started has the limits of an admitted request
(`serve_admitted`). The check counts an absent limit as `0`, while the verifier takes the default
for it: with overflow checks, the limits of a verifier add up to at most the configured maximum
plus the default of one absent limit (`serve_limits_le`), and a request with one limit at the
maximum and the other absent reaches that bound.

Sizes are `usize`s: the configuration and a request carry the bound of their type, and the sums
and products on them overflow as `Outcome.uintOp` says, at `64` bits.
-/

namespace Tlsn

open Outcome

/-! ## Protocol configuration (`tlsn-common/src/config.rs`) -/

namespace Common

/-- `DEFAULT_MAX_SENT_LIMIT`. -/
def defaultMaxSentLimit : ℕ := 1 <<< 12

/-- `DEFAULT_MAX_RECV_LIMIT`. -/
def defaultMaxRecvLimit : ℕ := 1 <<< 14

/-- `EXTRA_OTS`. -/
def extraOts : ℕ := 16384

/-- `OTS_PER_BYTE_SENT`. -/
def otsPerByteSent : ℕ := 8

/-- `OTS_PER_BYTE_RECV`. -/
def otsPerByteRecv : ℕ := 16

@[simp] theorem defaultMaxSentLimit_eq : defaultMaxSentLimit = 4096 := rfl

@[simp] theorem defaultMaxRecvLimit_eq : defaultMaxRecvLimit = 16384 := rfl

/-- `Role`. -/
inductive Role
  | prover
  | verifier
  deriving DecidableEq, Repr

section Estimates

variable {ε : Type} (overflowChecks : Bool)

/-- `EXTRA_OTS + (max_sent_data * OTS_PER_BYTE_SENT) + (max_recv_data * OTS_PER_BYTE_RECV)`, on
`usize`s and from left to right. -/
def otCount (maxSentData maxRecvData : ℕ) : Outcome ε ℕ := do
  let sent ← uintOp 64 overflowChecks (· * ·) maxSentData otsPerByteSent
  let total ← uintOp 64 overflowChecks (· + ·) extraOts sent
  let recv ← uintOp 64 overflowChecks (· * ·) maxRecvData otsPerByteRecv
  uintOp 64 overflowChecks (· + ·) total recv

/-- `ot_send_estimate`: the verifier sends the OTs of every byte. -/
def otSendEstimate (role : Role) (maxSentData maxRecvData : ℕ) : Outcome ε ℕ :=
  match role with
  | .prover => pure extraOts
  | .verifier => otCount overflowChecks maxSentData maxRecvData

/-- `ot_recv_estimate`: the prover receives the OTs of every byte. -/
def otRecvEstimate (role : Role) (maxSentData maxRecvData : ℕ) : Outcome ε ℕ :=
  match role with
  | .prover => otCount overflowChecks maxSentData maxRecvData
  | .verifier => pure extraOts

/-- An estimate that fits is computed exactly: each partial sum and product is at most the total. -/
theorem otCount_of_lt {maxSentData maxRecvData : ℕ}
    (h : extraOts + maxSentData * otsPerByteSent + maxRecvData * otsPerByteRecv < 2 ^ 64) :
    (otCount overflowChecks maxSentData maxRecvData : Outcome ε ℕ) =
      ok (extraOts + maxSentData * otsPerByteSent + maxRecvData * otsPerByteRecv) := by
  have hsent : maxSentData * otsPerByteSent < 2 ^ 64 := by omega
  have htotal : extraOts + maxSentData * otsPerByteSent < 2 ^ 64 := by omega
  have hrecv : maxRecvData * otsPerByteRecv < 2 ^ 64 := by omega
  simp only [otCount, uintOp_of_lt hsent, ok_bind, uintOp_of_lt htotal, uintOp_of_lt hrecv,
    uintOp_of_lt h]

/-- With overflow checks, an estimate too large for a `usize` panics. -/
theorem otCount_checked_of_le {maxSentData maxRecvData : ℕ}
    (h : 2 ^ 64 ≤ extraOts + maxSentData * otsPerByteSent + maxRecvData * otsPerByteRecv) :
    (otCount true maxSentData maxRecvData : Outcome ε ℕ) = panic := by
  unfold otCount
  -- the first operation that overflows panics, and the rest is never reached
  by_cases hsent : maxSentData * otsPerByteSent < 2 ^ 64
  · rw [uintOp_of_lt hsent, ok_bind]
    by_cases htotal : extraOts + maxSentData * otsPerByteSent < 2 ^ 64
    · rw [uintOp_of_lt htotal, ok_bind]
      by_cases hrecv : maxRecvData * otsPerByteRecv < 2 ^ 64
      · rw [uintOp_of_lt hrecv, ok_bind, uintOp_checked_of_le h]
      · rw [uintOp_checked_of_le (Nat.le_of_not_lt hrecv), panic_bind]
    · rw [uintOp_checked_of_le (Nat.le_of_not_lt htotal), panic_bind]
  · rw [uintOp_checked_of_le (Nat.le_of_not_lt hsent), panic_bind]

end Estimates

end Common

/-! ## The verifier's configuration (`tlsn-verifier/src/tls/config.rs`) -/

namespace Verifier

open Common

/-- `VerifierConfig`; the certificate verifier, which nothing here reads, is left out. -/
structure VerifierConfig where
  id : String
  maxSentData : ℕ
  maxRecvData : ℕ
  deriving DecidableEq, Repr

/-- `VerifierConfigBuilder`, as `derive_builder` generates it: the fields set so far. -/
structure VerifierConfigBuilder where
  id? : Option String
  maxSentData? : Option ℕ
  maxRecvData? : Option ℕ
  deriving DecidableEq, Repr

/-- `VerifierConfigBuilderError`. -/
inductive VerifierConfigBuilderError
  | uninitializedField (field : String)
  deriving DecidableEq, Repr

/-- `VerifierConfig::builder`: no field set. -/
def VerifierConfig.builder : VerifierConfigBuilder := ⟨none, none, none⟩

namespace VerifierConfigBuilder

/-- The setter of `id`. -/
def id (b : VerifierConfigBuilder) (value : String) : VerifierConfigBuilder :=
  { b with id? := some value }

/-- The setter of `max_sent_data`. -/
def maxSentData (b : VerifierConfigBuilder) (value : ℕ) : VerifierConfigBuilder :=
  { b with maxSentData? := some value }

/-- The setter of `max_recv_data`. -/
def maxRecvData (b : VerifierConfigBuilder) (value : ℕ) : VerifierConfigBuilder :=
  { b with maxRecvData? := some value }

/-- `build`: the `id` must be set; an unset limit takes its default. -/
def build (b : VerifierConfigBuilder) : Except VerifierConfigBuilderError VerifierConfig :=
  match b.id? with
  | some id =>
    .ok ⟨id, b.maxSentData?.getD defaultMaxSentLimit, b.maxRecvData?.getD defaultMaxRecvLimit⟩
  | none => .error (.uninitializedField "id")

end VerifierConfigBuilder

namespace VerifierConfig

variable {ε : Type} (overflowChecks : Bool)

/-- `ot_sender_setup_count`. -/
def otSenderSetupCount (c : VerifierConfig) : Outcome ε ℕ :=
  otSendEstimate overflowChecks .verifier c.maxSentData c.maxRecvData

/-- `ot_receiver_setup_count`. -/
def otReceiverSetupCount (c : VerifierConfig) : Outcome ε ℕ :=
  otRecvEstimate overflowChecks .verifier c.maxSentData c.maxRecvData

/-- `build_mpc_tls_config`: the limits bound the MPC-TLS transcripts. -/
def buildMpcTlsConfig (c : VerifierConfig) : Mpc.MpcTlsCommonConfig :=
  { txConfig := { Mpc.TranscriptConfig.defaultTx with maxSize := c.maxSentData }
    rxConfig := { Mpc.TranscriptConfig.defaultRx with maxSize := c.maxRecvData }
    handshakeCommit := true }

end VerifierConfig

end Verifier

/-! ## The notary server (`notary/server/src/service.rs`) -/

namespace Notary

open Common Verifier

/-- `ClientType`. -/
inductive ClientType
  | tcp
  | websocket
  deriving DecidableEq, Repr

/-- `NotarizationSessionRequest`, the body of `POST /session`: its limits are `usize`s. -/
structure NotarizationSessionRequest where
  clientType : ClientType
  maxSentData : Option ℕ
  maxRecvData : Option ℕ
  maxSentData_lt : ∀ n ∈ maxSentData, n < 2 ^ 64
  maxRecvData_lt : ∀ n ∈ maxRecvData, n < 2 ^ 64

/-- `NotarizationSessionResponse`. -/
structure NotarizationSessionResponse where
  sessionId : String
  deriving DecidableEq, Repr

/-- `SessionData`; its creation time, which nothing reads, is left out. -/
structure SessionData where
  maxSentData : Option ℕ
  maxRecvData : Option ℕ
  deriving DecidableEq, Repr

/-- `NotarizationProperties`: the global limit is a `usize`. -/
structure NotarizationProperties where
  maxTranscriptSize : ℕ
  maxTranscriptSize_lt : maxTranscriptSize < 2 ^ 64

/-- `NotaryServerError`, with the variants that the modelled handlers return. -/
inductive NotaryServerError
  | notarization (e : VerifierConfigBuilderError)
  | badProverRequest (reason : String)
  deriving DecidableEq, Repr

/-- A request to the server: `POST /session` with its body, parsed or rejected with the rejection's
text, and the fresh `Uuid::new_v4` that the handler draws; or `GET /notarize` with a session id
and a protocol upgrade, over TCP or a websocket alike. -/
inductive Request
  | session (proverSessionId : String) (payload : Except String NotarizationSessionRequest)
  | notarize (sessionId : String)

section Service

variable (overflowChecks : Bool) (props : NotarizationProperties)

/-- `initialize`, the handler of `POST /session`: the requested limits, when any is given, must
add up to at most `max_transcript_size`, an absent one counted as `0`; the limits are then stored
under the new session id. -/
def initializeSession (store : AssocMap String SessionData) (proverSessionId : String)
    (payload : Except String NotarizationSessionRequest) :
    Outcome NotaryServerError (NotarizationSessionResponse × AssocMap String SessionData) := do
  let payload ← match payload with
    | .ok payload => pure payload
    | .error rejection => throw (.badProverRequest rejection)
  if payload.maxSentData.isSome || payload.maxRecvData.isSome then
    let requestedTranscriptSize ← uintOp 64 overflowChecks (· + ·)
      (payload.maxSentData.getD 0) (payload.maxRecvData.getD 0)
    if requestedTranscriptSize > props.maxTranscriptSize then
      throw (.badProverRequest "Max transcript size requested exceeds the maximum threshold")
  pure (⟨proverSessionId⟩,
    (store.insert proverSessionId ⟨payload.maxSentData, payload.maxRecvData⟩).1)

/-- `upgrade_protocol`: the limits stored under the session id, taken out of the store. Both
protocols then run `notary_service` with them. -/
def upgradeProtocol (store : AssocMap String SessionData) (sessionId : String) :
    Except NotaryServerError ((Option ℕ × Option ℕ) × AssocMap String SessionData) :=
  match store.remove sessionId with
  | (store', some data) => .ok ((data.maxSentData, data.maxRecvData), store')
  | (_, none) => .error (.badProverRequest ("Session id " ++ sessionId ++ " does not exist"))

/-- `notary_service`, up to the start of the notarization: the configuration of its verifier. -/
def notaryService (sessionId : String) (maxSentData maxRecvData : Option ℕ) :
    Except NotaryServerError VerifierConfig :=
  let configBuilder := VerifierConfig.builder.id sessionId
  let configBuilder := match maxSentData with
    | some maxSentData => configBuilder.maxSentData maxSentData
    | none => configBuilder
  let configBuilder := match maxRecvData with
    | some maxRecvData => configBuilder.maxRecvData maxRecvData
    | none => configBuilder
  configBuilder.build.mapError .notarization

/-- The server answering one request: the store after it, and the configuration of the verifier
it starts, if any. A request that fails leaves the store as it was. -/
def handle (store : AssocMap String SessionData) :
    Request → AssocMap String SessionData × Option VerifierConfig
  | .session proverSessionId payload =>
    match initializeSession overflowChecks props store proverSessionId payload with
    | .ok (_, store') => (store', none)
    | _ => (store, none)
  | .notarize sessionId =>
    match upgradeProtocol store sessionId with
    | .ok ((maxSentData, maxRecvData), store') =>
      (store', (notaryService sessionId maxSentData maxRecvData).toOption)
    | .error _ => (store, none)

/-- The configurations of the verifiers that the server starts over a sequence of requests. -/
def serve : AssocMap String SessionData → List Request → List VerifierConfig
  | _, [] => []
  | store, r :: rs =>
    (handle overflowChecks props store r).2.toList ++
      serve (handle overflowChecks props store r).1 rs

/-- The limits pass the check of `initialize`: when any is given, their sum as `usize`s, an absent
one counted as `0`, is at most `max_transcript_size`. -/
def Admitted (d : SessionData) : Prop :=
  (d.maxSentData.isSome || d.maxRecvData.isSome) = true →
    ∃ n, (uintOp 64 overflowChecks (· + ·) (d.maxSentData.getD 0) (d.maxRecvData.getD 0) :
      Outcome NotaryServerError ℕ) = ok n ∧ n ≤ props.maxTranscriptSize

/-- Every session in the store holds admitted limits. -/
def StoreAdmitted (store : AssocMap String SessionData) : Prop :=
  ∀ sessionId d, store.get? sessionId = some d → Admitted overflowChecks props d

/-! ### The handlers, one lemma each -/

/-- **What `initialize` accepts.** A session is created exactly for a parsed request with admitted
limits, and stored under the new id. -/
theorem initializeSession_eq_ok {store store' : AssocMap String SessionData}
    {proverSessionId : String} {payload : Except String NotarizationSessionRequest}
    {response : NotarizationSessionResponse} :
    initializeSession overflowChecks props store proverSessionId payload = ok (response, store') ↔
      ∃ p, payload = .ok p ∧ Admitted overflowChecks props ⟨p.maxSentData, p.maxRecvData⟩ ∧
        response = ⟨proverSessionId⟩ ∧
        store' = (store.insert proverSessionId ⟨p.maxSentData, p.maxRecvData⟩).1 := by
  cases payload with
  | error rejection => simp [initializeSession]
  | ok p =>
    simp only [initializeSession, pure_bind, Except.ok.injEq, exists_eq_left', Admitted]
    by_cases hgiven : (p.maxSentData.isSome || p.maxRecvData.isSome) = true
    · -- the check is made: the sum must be computed, and be within the maximum
      rw [if_pos hgiven, bind_eq_ok]
      constructor
      · rintro ⟨n, hn, hok⟩
        have hle : n ≤ props.maxTranscriptSize := by
          by_contra hgt
          rw [if_pos (Nat.lt_of_not_le hgt)] at hok
          cases hok
        rw [if_neg (Nat.not_lt.2 hle)] at hok
        simp only [pure_eq, ok.injEq, Prod.mk.injEq] at hok
        exact ⟨fun _ => ⟨n, hn, hle⟩, hok.1.symm, hok.2.symm⟩
      · rintro ⟨hadm, rfl, rfl⟩
        obtain ⟨n, hn, hle⟩ := hadm hgiven
        exact ⟨n, hn, by rw [if_neg (Nat.not_lt.2 hle)]; rfl⟩
    · rw [if_neg hgiven]
      simp [hgiven, eq_comm]

/-- `upgrade_protocol` starts a notarization exactly for a stored session, and takes it out of the
store. -/
theorem upgradeProtocol_eq_ok {store store' : AssocMap String SessionData} {sessionId : String}
    {limits : Option ℕ × Option ℕ} :
    upgradeProtocol store sessionId = .ok (limits, store') ↔
      ∃ d, store.get? sessionId = some d ∧ limits = (d.maxSentData, d.maxRecvData) ∧
        store' = (store.remove sessionId).1 := by
  unfold upgradeProtocol
  -- `remove` returns what `get?` finds
  have hremove : store.remove sessionId = ((store.remove sessionId).1, store.get? sessionId) := rfl
  cases hd : store.get? sessionId with
  | none =>
    rw [hremove, hd]
    simp
  | some d =>
    rw [hremove, hd]
    simp [eq_comm]

/-- `notary_service` configures the verifier with the given limits, and the defaults for the absent
ones. -/
@[simp] theorem notaryService_eq (sessionId : String) (maxSentData maxRecvData : Option ℕ) :
    notaryService sessionId maxSentData maxRecvData =
      .ok ⟨sessionId, maxSentData.getD defaultMaxSentLimit, maxRecvData.getD defaultMaxRecvLimit⟩ := by
  cases maxSentData <;> cases maxRecvData <;> rfl

/-! ### Runs of the server -/

theorem storeAdmitted_empty : StoreAdmitted overflowChecks props AssocMap.empty := by
  intro sessionId d h
  simp at h

/-- **One request.** The store stays admitted, and a verifier started has the limits of an
admitted session, with the defaults for the absent ones. -/
theorem handle_admitted {store : AssocMap String SessionData}
    (hstore : StoreAdmitted overflowChecks props store) (r : Request) :
    StoreAdmitted overflowChecks props (handle overflowChecks props store r).1 ∧
      ∀ c ∈ (handle overflowChecks props store r).2, ∃ d, Admitted overflowChecks props d ∧
        c.maxSentData = d.maxSentData.getD defaultMaxSentLimit ∧
        c.maxRecvData = d.maxRecvData.getD defaultMaxRecvLimit := by
  cases r with
  | session proverSessionId payload =>
    simp only [handle]
    split
    · -- a new session, with admitted limits, is stored
      rename_i store' hinit
      obtain ⟨p, -, hadm, -, rfl⟩ := (initializeSession_eq_ok overflowChecks props).1 hinit
      refine ⟨fun sessionId d hd => ?_, by simp⟩
      rw [AssocMap.get?_insert] at hd
      split_ifs at hd
      · cases hd
        exact hadm
      · exact hstore sessionId d hd
    · exact ⟨hstore, by simp⟩
  | notarize sessionId =>
    simp only [handle]
    split
    · -- the session is taken out of the store, and its limits configure the verifier
      rename_i maxSentData maxRecvData store' hupgrade
      obtain ⟨d, hd, hlimits, rfl⟩ := upgradeProtocol_eq_ok.1 hupgrade
      simp only [Prod.mk.injEq] at hlimits
      obtain ⟨rfl, rfl⟩ := hlimits
      refine ⟨fun sessionId' d' hd' => ?_, ?_⟩
      · rw [AssocMap.get?_remove] at hd'
        split_ifs at hd'
        exact hstore sessionId' d' hd'
      · intro c hc
        simp only [notaryService_eq, Except.toOption, Option.mem_def, Option.some.injEq] at hc
        subst hc
        exact ⟨d, hstore sessionId d hd, rfl, rfl⟩
    · exact ⟨hstore, by simp⟩

/-- **Every run.** From a store of admitted sessions, every verifier that the server starts has the
limits of an admitted session, with the defaults for the absent ones. -/
theorem serve_admitted (reqs : List Request) :
    ∀ {store : AssocMap String SessionData}, StoreAdmitted overflowChecks props store →
      ∀ c ∈ serve overflowChecks props store reqs, ∃ d, Admitted overflowChecks props d ∧
        c.maxSentData = d.maxSentData.getD defaultMaxSentLimit ∧
        c.maxRecvData = d.maxRecvData.getD defaultMaxRecvLimit := by
  induction reqs with
  | nil => simp [serve]
  | cons r rs ih =>
    intro store hstore c hc
    obtain ⟨hstore', hstarted⟩ := handle_admitted overflowChecks props hstore r
    rw [serve, List.mem_append] at hc
    rcases hc with hc | hc
    · exact hstarted c (by simpa using hc)
    · exact ih hstore' c hc

end Service

/-! ### The limits of the verifiers -/

section Limits

variable (props : NotarizationProperties)

/-- With overflow checks, admitted limits are those whose sum, an absent one counted as `0`, is at
most `max_transcript_size`, when any is given. -/
theorem admitted_checked_iff {d : SessionData} :
    Admitted true props d ↔ ((d.maxSentData.isSome || d.maxRecvData.isSome) = true →
      d.maxSentData.getD 0 + d.maxRecvData.getD 0 ≤ props.maxTranscriptSize) := by
  simp only [Admitted, uintOp_checked_eq_ok]
  constructor
  · rintro h hgiven
    obtain ⟨n, ⟨-, rfl⟩, hle⟩ := h hgiven
    exact hle
  · intro h hgiven
    exact ⟨_, ⟨lt_of_le_of_lt (h hgiven) props.maxTranscriptSize_lt, rfl⟩, h hgiven⟩

/-- Without overflow checks, limits whose sum passes `2 ^ 64` are admitted when what is left of the
sum after the wrap is within the maximum. -/
theorem admitted_wrapping_of_le {maxSentData maxRecvData : ℕ}
    (hwrap : 2 ^ 64 ≤ maxSentData + maxRecvData)
    (hle : (maxSentData + maxRecvData) % 2 ^ 64 ≤ props.maxTranscriptSize) :
    Admitted false props ⟨some maxSentData, some maxRecvData⟩ := by
  intro _
  exact ⟨_, uintOp_wrapping_of_le hwrap, hle⟩

/-- **The limits of a verifier**, with overflow checks: over every run of the server, the limits of
a verifier started add up to at most `max_transcript_size` plus the default received limit, or to
the two defaults. -/
theorem serve_limits_le (reqs : List Request) {c : VerifierConfig}
    (hc : c ∈ serve true props AssocMap.empty reqs) :
    c.maxSentData + c.maxRecvData ≤
      max (props.maxTranscriptSize + defaultMaxRecvLimit) (defaultMaxSentLimit + defaultMaxRecvLimit) := by
  obtain ⟨⟨maxSentData, maxRecvData⟩, hadm, hsent, hrecv⟩ :=
    serve_admitted true props reqs (storeAdmitted_empty true props) c hc
  rw [admitted_checked_iff] at hadm
  rw [hsent, hrecv]
  -- each limit given is within the maximum; each absent one is its default
  cases maxSentData <;> cases maxRecvData <;> simp at hadm ⊢ <;> omega

/-- **The verifiers the server starts**, with overflow checks and a `max_transcript_size` below
`2 ^ 59`: over every run, the limits of every verifier started add up to at most the maximum plus
the default received limit, or to the two defaults, and its OT estimate is computed without
overflow. -/
theorem serve_otSenderSetupCount {ε : Type} (hmax : props.maxTranscriptSize < 2 ^ 59)
    (reqs : List Request) {c : VerifierConfig} (hc : c ∈ serve true props AssocMap.empty reqs) :
    c.maxSentData + c.maxRecvData ≤
        max (props.maxTranscriptSize + defaultMaxRecvLimit) (defaultMaxSentLimit + defaultMaxRecvLimit) ∧
      (c.otSenderSetupCount true : Outcome ε ℕ) =
        ok (extraOts + c.maxSentData * otsPerByteSent + c.maxRecvData * otsPerByteRecv) := by
  have hle := serve_limits_le props reqs hc
  refine ⟨hle, ?_⟩
  apply otCount_of_lt
  simp only [extraOts, otsPerByteSent, otsPerByteRecv, defaultMaxSentLimit_eq,
    defaultMaxRecvLimit_eq] at hle ⊢
  omega

/-- A request that gives the maximum as its sent limit and no received limit passes the check,
which counts the absent limit as `0`. The verifier started for it takes the default received limit,
and its limits add up to more than the maximum, in a build with overflow checks or without. -/
theorem absent_limit_exceeds_max_transcript_size (overflowChecks : Bool)
    (store : AssocMap String SessionData) (clientType : ClientType) (sessionId : String) :
    let request : NotarizationSessionRequest :=
      ⟨clientType, some props.maxTranscriptSize, none,
        by simpa using props.maxTranscriptSize_lt, by simp⟩
    serve overflowChecks props store [.session sessionId (.ok request), .notarize sessionId] =
        [⟨sessionId, props.maxTranscriptSize, defaultMaxRecvLimit⟩] ∧
      props.maxTranscriptSize < props.maxTranscriptSize + defaultMaxRecvLimit := by
  intro request
  -- the check computes `max_transcript_size + 0`
  have hadm : Admitted overflowChecks props ⟨request.maxSentData, request.maxRecvData⟩ := by
    intro _
    have hsum : props.maxTranscriptSize + 0 < 2 ^ 64 := props.maxTranscriptSize_lt
    exact ⟨_, uintOp_of_lt hsum, le_refl _⟩
  have hinit : initializeSession overflowChecks props store sessionId (.ok request) =
      ok (⟨sessionId⟩, (store.insert sessionId ⟨request.maxSentData, request.maxRecvData⟩).1) :=
    (initializeSession_eq_ok overflowChecks props).2 ⟨request, rfl, hadm, rfl, rfl⟩
  have hupgrade : upgradeProtocol
      (store.insert sessionId ⟨request.maxSentData, request.maxRecvData⟩).1 sessionId =
      .ok ((request.maxSentData, request.maxRecvData),
        ((store.insert sessionId ⟨request.maxSentData, request.maxRecvData⟩).1.remove
          sessionId).1) :=
    upgradeProtocol_eq_ok.2 ⟨_, by rw [AssocMap.get?_insert, if_pos rfl], rfl, rfl⟩
  refine ⟨?_, by simp⟩
  simp only [serve, handle, hinit, hupgrade, notaryService_eq]
  rfl

end Limits

/-- A server whose maximum is `20480` bytes. -/
def props20480 : NotarizationProperties := ⟨20480, by norm_num⟩

/-- A session asked for with the limits `100` and `200`, then notarized. -/
def limitRequests : List Request :=
  [.session "s" (.ok ⟨.tcp, some 100, some 200, by simp, by simp⟩), .notarize "s"]

/-- The verifier of that session: its limits add up to `300`, and its OT estimate is
`16384 + 100 · 8 + 200 · 16`. -/
theorem serve_otSenderSetupCount_session :
    props20480.maxTranscriptSize < 2 ^ 59 ∧
      (⟨"s", 100, 200⟩ : VerifierConfig) ∈ serve true props20480 AssocMap.empty limitRequests ∧
      100 + 200 ≤ max (props20480.maxTranscriptSize + defaultMaxRecvLimit)
        (defaultMaxSentLimit + defaultMaxRecvLimit) ∧
      ((⟨"s", 100, 200⟩ : VerifierConfig).otSenderSetupCount true : Outcome Unit ℕ) =
        ok (extraOts + 100 * otsPerByteSent + 200 * otsPerByteRecv) := by
  have hmax : props20480.maxTranscriptSize < 2 ^ 59 := by decide
  have hc : (⟨"s", 100, 200⟩ : VerifierConfig) ∈ serve true props20480 AssocMap.empty limitRequests := by
    decide
  exact ⟨hmax, hc, serve_otSenderSetupCount props20480 hmax limitRequests hc⟩

end Notary

end Tlsn
