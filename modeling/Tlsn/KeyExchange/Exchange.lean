import Tlsn.KeyExchange.PointAddition
import Tlsn.Lib.Interaction
import Tlsn.Lib.Codec

/-!
# The MPC key exchange (`components/key-exchange/src/exchange.rs`)

`MpcKeyExchange` is what the leader and the follower each run to compute, with the server, the
ECDHE pre-master secret of a client whose private key is the sum of theirs, without either
learning the other's key or the secret. Each instance is a state machine (`State`): `setup`
defines in the MPC VM the inputs and outputs of the PMS circuit (`Initialized → Setup`),
`preprocess` preprocesses the share converters and loads the circuit (`Setup → Preprocessed`),
and `compute_pms` computes the secret (`Preprocessed → Complete`). A method takes the state out
(`std::mem::replace(.., Error)`) before it acts, so that an instance whose method failed half-way
stays `Error`. Besides, the leader sends the server's key to the follower (`set_server_key`), the
follower sends its public key to the leader as it preprocesses, and the leader combines the two
public keys into the client's (`client_key`).

`compute_pms` multiplies the server's key by the party's private key and runs the point addition
of `Tlsn.KeyExchange` twice, with two converters (`compute_pms_shares`); the PMS circuit then adds
the two parties' shares of each sharing and compares the two sums (`compute_pms_with`), so that a
converter that breaks one sharing is caught.

Each method is a program of the party (`KxM`: `Interaction.Prog` under a state that persists
over errors) that asks its channel, its random number generator, its converters and the VM
(`KxCall`). Two parties are run in lockstep against `kxJoint`: the two converters, an ideal VM
for the PMS circuit, queues of messages, and the keys each party's generator draws.

* one party, against any services, over any sequence of calls (`lifecycle_in_order`): the
  lifecycle calls that succeed are `setup`, `preprocess` and `compute_pms`, in this order, each at
  most once, and `compute_pms` returns the reference `setup` returned. It rests on what each
  method does to the state whatever the answers (`setup_wp`, ..., `computePms_wp`) and on the
  invariant `Agrees` that these keep (`Method.run_wp`, `callAll_wp`);
* the two parties, in the order `tls-mpc` calls them (`kx_session_pms`): the leader learns the
  client's key `(d_L + d_F) G`, and the VM's `pms_0` holds the x-coordinate of `(d_L + d_F) Q`. On
  the way, the parties' `derive_x_coord_share` and `compute_pms_shares` in lockstep compute the
  joint model of `Tlsn.KeyExchange` (`lockstep_deriveXCoordShare`, `lockstep_computePmsShares`).

Points are those of a Weierstrass curve (P-256 in the code) and private keys natural numbers. The
VM holds bytes: a share is assigned as its encoding `to_be_bytes` (a parameter, of 32 bytes), and
the circuit's adder modulo the prime (`nbyte_add_mod_trace`) is a parameter that adds field
elements in their encoding.
-/

namespace Tlsn.KeyExchange

open Interaction Interaction.Prog Sharing WeierstrassCurve.Affine Codec

/-- A value of the MPC VM's memory, named as it was defined. -/
structure ValueRef where
  name : String
  deriving DecidableEq, Repr

/-- `Pms`: the reference of the pre-master secret in the VM's memory. -/
structure Pms where
  value : ValueRef
  deriving DecidableEq, Repr

/-- The calls of `MpcKeyExchange` on its channel to the other party (`send`, `expect_next`), the
OS random number generator (`SecretKey::random`), its two share converters and the MPC VM. -/
inductive KxCall (F P : Type)
  | send (key : P)
  | expectNext
  | randomKey
  | alloc (converter : Fin 2) (count : ℕ)
  | preprocessConverter (converter : Fin 2)
  | toMultiplicative (converter : Fin 2) (inputs : List F)
  | toAdditive (converter : Fin 2) (inputs : List F)
  | newPrivateInput (name : String)
  | newBlindInput (name : String)
  | newOutput (name : String)
  | load (inputs outputs : List ValueRef)
  | assign (ref : ValueRef) (value : Bytes)
  | execute (inputs outputs : List ValueRef)
  | decode (ref : ValueRef)

/-- What each call returns: the channel's values or the text of its `std::io::Error`, a private
key, nothing for `alloc`, converted shares or the converter's error, and the VM's references and
values or the text of its error. -/
@[reducible] def KxCall.Answer {F P : Type} : KxCall F P → Type
  | .send _ => Except String Unit
  | .expectNext => Except String P
  | .randomKey => ℕ
  | .alloc _ _ => Unit
  | .preprocessConverter _ => Except String Unit
  | .toMultiplicative _ _ => Except String (List F)
  | .toAdditive _ _ => Except String (List F)
  | .newPrivateInput _ => Except String ValueRef
  | .newBlindInput _ => Except String ValueRef
  | .newOutput _ => Except String ValueRef
  | .load _ _ => Except String Unit
  | .assign _ _ => Except String Unit
  | .execute _ _ => Except String Unit
  | .decode _ => Except String Bytes

/-- The references of the PMS circuit's inputs and outputs. -/
structure PmsVars where
  shareA0 : ValueRef
  shareB0 : ValueRef
  shareA1 : ValueRef
  shareB1 : ValueRef
  pms0 : ValueRef
  pms1 : ValueRef
  eq : ValueRef
  deriving DecidableEq, Repr

/-- `State`. -/
inductive State
  | initialized
  | setup (vars : PmsVars)
  | preprocessed (vars : PmsVars)
  | complete
  | error
  deriving DecidableEq, Repr

/-- `State::is_preprocessed`. -/
def State.isPreprocessed : State → Bool
  | .preprocessed _ => true
  | _ => false

/-- `MpcKeyExchange`: the fields its methods read and change; the context, the converters and the
VM are what they ask. -/
structure MpcKeyExchange (P : Type) where
  privateKey : Option ℕ
  serverKey : Option P
  role : Role
  state : State

/-- `MpcKeyExchange::new`. -/
def MpcKeyExchange.new {P : Type} (role : Role) : MpcKeyExchange P := ⟨none, none, role, .initialized⟩

/-- A method of `MpcKeyExchange`: a program that asks the party's services, returns early with a
`KeyExchangeError` at each `?`, and changes the instance, also when it fails. -/
abbrev KxM (F P α : Type) :=
  ExceptT KeyExchangeError (StateT (MpcKeyExchange P) (Prog (KxCall F P) KxCall.Answer)) α

/-- `KeyExchangeError::state`. -/
def KeyExchangeError.state (msg : String) : KeyExchangeError := ⟨.state, msg⟩

/-- `KeyExchangeError::role`. -/
def KeyExchangeError.role (msg : String) : KeyExchangeError := ⟨.role, msg⟩

/-- `From<std::io::Error>`. -/
def KeyExchangeError.ofIo (e : String) : KeyExchangeError := ⟨.io, e⟩

/-- `From<ShareConversionError>`. -/
def KeyExchangeError.ofShareConversion (e : String) : KeyExchangeError := ⟨.shareConversion, e⟩

/-- `From` the VM's `MemoryError`, `LoadError`, `ExecutionError` and `DecodeError`. -/
def KeyExchangeError.ofVm (e : String) : KeyExchangeError := ⟨.vm, e⟩

namespace KxM

variable {F P : Type}

/-- A call whose answer is mapped to a value or an error. -/
def call {α : Type} (q : KxCall F P) (f : q.Answer → Except KeyExchangeError α) : KxM F P α :=
  ExceptT.mk (StateT.lift (f <$> query q))

/-- A call leaves the instance as it is, whatever its answer. -/
@[simp] theorem methodWp_call {α : Type} {q : KxCall F P} {f : q.Answer → Except KeyExchangeError α}
    {post : Except KeyExchangeError α → MpcKeyExchange P → Prop} {o : MpcKeyExchange P} :
    MethodWp (call q f) post o ↔ ∀ r, post (f r) o := Iff.rfl

/-- `self.ctx.io_mut().send(key).await?`. -/
def send (key : P) : KxM F P Unit := call (.send key) (Except.mapError KeyExchangeError.ofIo)

/-- `self.ctx.io_mut().expect_next().await?`. -/
def expectNext : KxM F P P := call .expectNext (Except.mapError KeyExchangeError.ofIo)

/-- `SecretKey::random(&mut rand::rngs::OsRng)`. -/
def randomKey : KxM F P ℕ := call .randomKey .ok

/-- `converter.alloc(count)`. -/
def alloc (converter : Fin 2) (count : ℕ) : KxM F P Unit := call (.alloc converter count) .ok

/-- `converter.preprocess(ctx)`. -/
def preprocessConverter (converter : Fin 2) : KxM F P Unit :=
  call (.preprocessConverter converter) (Except.mapError KeyExchangeError.ofShareConversion)

/-- `converter.to_multiplicative(ctx, inputs).await?`. -/
def toMultiplicative (converter : Fin 2) (inputs : List F) : KxM F P (List F) :=
  call (.toMultiplicative converter inputs) (Except.mapError KeyExchangeError.ofShareConversion)

/-- `converter.to_additive(ctx, inputs).await?`. -/
def toAdditive (converter : Fin 2) (inputs : List F) : KxM F P (List F) :=
  call (.toAdditive converter inputs) (Except.mapError KeyExchangeError.ofShareConversion)

/-- `self.executor.new_private_input(name)?`. -/
def newPrivateInput (name : String) : KxM F P ValueRef :=
  call (.newPrivateInput name) (Except.mapError KeyExchangeError.ofVm)

/-- `self.executor.new_blind_input(name)?`. -/
def newBlindInput (name : String) : KxM F P ValueRef :=
  call (.newBlindInput name) (Except.mapError KeyExchangeError.ofVm)

/-- `self.executor.new_output(name)?`. -/
def newOutput (name : String) : KxM F P ValueRef :=
  call (.newOutput name) (Except.mapError KeyExchangeError.ofVm)

/-- `self.executor.load(circuit, inputs, outputs).await?`. -/
def load (inputs outputs : List ValueRef) : KxM F P Unit :=
  call (.load inputs outputs) (Except.mapError KeyExchangeError.ofVm)

/-- `self.executor.assign(ref, value)?`. -/
def assign (ref : ValueRef) (value : Bytes) : KxM F P Unit :=
  call (.assign ref value) (Except.mapError KeyExchangeError.ofVm)

/-- `self.executor.execute(circuit, inputs, outputs).await?`. -/
def execute (inputs outputs : List ValueRef) : KxM F P Unit :=
  call (.execute inputs outputs) (Except.mapError KeyExchangeError.ofVm)

/-- `self.executor.decode(&[ref]).await?`, the one value decoded. -/
def decode (ref : ValueRef) : KxM F P Bytes :=
  call (.decode ref) (Except.mapError KeyExchangeError.ofVm)

/-- A panic: an `expect` that fails. -/
def panic {α : Type} : KxM F P α := ExceptT.lift (StateT.lift .panic)

/-- A result of the model of a sub-computation: its value, its error, or a panic. -/
def ofOutcome {α : Type} : Outcome KeyExchangeError α → KxM F P α
  | .ok a => pure a
  | .err e => throw e
  | .panic => panic

variable {α : Type} {post : Except KeyExchangeError α → MpcKeyExchange P → Prop}
  {o : MpcKeyExchange P}

@[simp] theorem call_run_run (q : KxCall F P) (f : q.Answer → Except KeyExchangeError α) :
    (call q f).run.run o = ask q fun r => ret (f r, o) := rfl

@[simp] theorem ofOutcome_ok (a : α) : (ofOutcome (.ok a) : KxM F P α) = pure a := rfl

@[simp] theorem ofOutcome_err (e : KeyExchangeError) :
    (ofOutcome (.err e) : KxM F P α) = throw e := rfl

@[simp] theorem methodWp_panic : MethodWp (panic : KxM F P α) post o := trivial

@[simp] theorem methodWp_ofOutcome {x : Outcome KeyExchangeError α} :
    MethodWp (ofOutcome x : KxM F P α) post o ↔
      (∀ a, x = .ok a → post (.ok a) o) ∧ ∀ e, x = .err e → post (.error e) o := by
  cases x <;> simp [ofOutcome]

end KxM

/-! ## The methods -/

/-- The PMS circuit (`build_pms_circuit`) on the values of its inputs `share_a0`, `share_b0`,
`share_a1`, `share_b1`: the sums `pms_0` and `pms_1` of the two sharings, by the circuit's adder
modulo the curve's prime (`nbyte_add_mod_trace`, a parameter), and their bytewise XOR `eq`. -/
def pmsCircuit (addMod : Bytes → Bytes → Bytes) : List Bytes → Option (List Bytes)
  | [shareA0, shareB0, shareA1, shareB1] =>
    let pms0 := addMod shareA0 shareB0
    let pms1 := addMod shareA1 shareB1
    some [pms0, pms1, List.zipWith (· ^^^ ·) pms0 pms1]
  | _ => none

/-- `PublicKey::from_affine`: the point at infinity is not a public key. -/
def publicKeyFromAffine {F : Type} [Field F] {W : WeierstrassCurve.Affine F} :
    W.Point → Outcome KeyExchangeError W.Point
  | .zero => throw ⟨.key, "crypto error"⟩
  | .some x y h => pure (.some x y h)

namespace MpcKeyExchange

variable {F P : Type}

/-- `self.state.take()`: the state, replaced by `Error`. -/
def takeState : KxM F P State :=
  modifyGet fun ke => (ke.state, { ke with state := .error })

/-- `self.private_key.get_or_insert_with(|| SecretKey::random(..))`. -/
def privateKeyOrRandom : KxM F P ℕ := do
  match (← get).privateKey with
  | some privateKey => pure privateKey
  | none =>
    let privateKey ← KxM.randomKey
    modify fun ke => { ke with privateKey := some privateKey }
    pure privateKey

/-- `self.private_key.take()`. -/
def takePrivateKey : KxM F P (Option ℕ) :=
  modifyGet fun ke => (ke.privateKey, { ke with privateKey := none })

/-- `set_server_key`: the leader sends the server's key to the follower, and keeps it. -/
def setServerKey (serverKey : P) : KxM F P Unit := do
  let .leader := (← get).role | throw (.role "follower cannot set server key")
  KxM.send serverKey
  modify fun ke => { ke with serverKey := some serverKey }

/-- `setup`: three conversions allocated on each converter (two to multiplicative shares, one to
additive), and the PMS circuit's inputs and outputs defined, each party's own shares private and
the other's blind. -/
def setup : KxM F P Pms := do
  let .initialized ← takeState | throw (.state "not in initialized state")
  KxM.alloc 0 3
  KxM.alloc 1 3
  let (shareA0, shareB0, shareA1, shareB1) ← match (← get).role with
    | .leader => do
      let shareA0 ← KxM.newPrivateInput "pms/share_a0"
      let shareB0 ← KxM.newBlindInput "pms/share_b0"
      let shareA1 ← KxM.newPrivateInput "pms/share_a1"
      let shareB1 ← KxM.newBlindInput "pms/share_b1"
      pure (shareA0, shareB0, shareA1, shareB1)
    | .follower => do
      let shareA0 ← KxM.newBlindInput "pms/share_a0"
      let shareB0 ← KxM.newPrivateInput "pms/share_b0"
      let shareA1 ← KxM.newBlindInput "pms/share_a1"
      let shareB1 ← KxM.newPrivateInput "pms/share_b1"
      pure (shareA0, shareB0, shareA1, shareB1)
  let pms0 ← KxM.newOutput "pms_0"
  let pms1 ← KxM.newOutput "pms_1"
  let eq ← KxM.newOutput "eq"
  modify fun ke => { ke with state := .setup ⟨shareA0, shareB0, shareA1, shareB1, pms0, pms1, eq⟩ }
  pure ⟨pms0⟩

/-- `compute_pms_with`: the party's shares of the two sharings assigned to its inputs of the PMS
circuit (`to_be_bytes` is `encode`), the circuit executed, and its output `eq` decoded: all zeros
when the two sums agree. Both parties use `pms_0`. -/
def computePmsWith (encode : F → Bytes) (share0 share1 : F) : KxM F P Pms := do
  let .preprocessed vars ← takeState | throw (.state "not in preprocessed state")
  let share0Bytes := encode share0
  if share0Bytes.length ≠ 32 then KxM.panic
  let share1Bytes := encode share1
  if share1Bytes.length ≠ 32 then KxM.panic
  match (← get).role with
  | .leader =>
    KxM.assign vars.shareA0 share0Bytes
    KxM.assign vars.shareA1 share1Bytes
  | .follower =>
    KxM.assign vars.shareB0 share0Bytes
    KxM.assign vars.shareB1 share1Bytes
  KxM.execute [vars.shareA0, vars.shareB0, vars.shareA1, vars.shareB1] [vars.pms0, vars.pms1, vars.eq]
  let eq ← KxM.decode vars.eq
  if eq.length ≠ 32 then KxM.panic
  if eq ≠ List.replicate 32 0 then throw ⟨.shareConversion, "PMS values not equal"⟩
  pure ⟨vars.pms0⟩

section Curve

/- `inverse` is the field inverse of `mpz_fields`, external to the repository (`none` is a
panic); `PointAddition` says what is assumed of it. -/
variable [Field F] {W : WeierstrassCurve.Affine F} (inverse : F → Option F)

/-- `derive_x_coord_share` run by one party with one of its converters: its share of the
x-coordinate of the sum of its point and the other party's. -/
def deriveXCoordShare (role : Role) (converter : Fin 2) (share : EncodedPoint F) :
    KxM F W.Point F := do
  let (x, y) ← KxM.ofOutcome (decomposePoint share)
  let ab ← KxM.toMultiplicative converter (conversionInputs role x y)
  let c ← KxM.ofOutcome (squaredRatio inverse ab)
  let d ← KxM.toAdditive converter [c]
  KxM.ofOutcome (xShare d x)

variable [DecidableEq F]

/-- `preprocess`: the converters preprocessed and the PMS circuit loaded (concurrently in the
code, with `try_join!`; here one after the other), and the follower's public key share `d_F G`
sent to the leader at once. -/
def preprocess (G : W.Point) : KxM F W.Point Unit := do
  let .setup vars ← takeState | throw (.state "not in setup state")
  KxM.preprocessConverter 0
  KxM.preprocessConverter 1
  KxM.load [vars.shareA0, vars.shareB0, vars.shareA1, vars.shareB1] [vars.pms0, vars.pms1, vars.eq]
  match (← get).role with
  | .follower =>
    let privateKey ← privateKeyOrRandom
    KxM.send (privateKey • G)
  | .leader => pure ()
  modify fun ke => { ke with state := .preprocessed vars }

/-- `client_key`: the leader's public key share `d_L G` and the follower's, added; only the leader
learns the client's key. -/
def clientKey (G : W.Point) : KxM F W.Point W.Point := do
  match (← get).role with
  | .leader =>
    let privateKey ← privateKeyOrRandom
    let publicKey := privateKey • G
    -- the follower's public key share, sent as it preprocessed
    let followerPublicKey ← KxM.expectNext
    KxM.ofOutcome (publicKeyFromAffine (publicKey + followerPublicKey))
  | .follower => throw (.role "follower does not learn client key")

/-- `compute_pms_shares` run by one party: its point `d Q` of the server's key, and its shares of
the x-coordinate of the sum with the other party's, with `converter_0` and with `converter_1`
(concurrently in the code; here one after the other). -/
def computePmsShares (role : Role) (serverKey : W.Point) (privateKey : ℕ) :
    KxM F W.Point (F × F) := do
  let encodedPoint ← KxM.ofOutcome (encodePoint (privateKey • serverKey))
  let pmsShare0 ← deriveXCoordShare inverse role 0 encodedPoint
  let pmsShare1 ← deriveXCoordShare inverse role 1 encodedPoint
  pure (pmsShare0, pmsShare1)

/-- `compute_pms`: the server's key (the leader's, set before; the follower's, received from the
leader now), the private key taken out, the two sharings of the pre-master secret, and the PMS
circuit on them. -/
def computePms (encode : F → Bytes) : KxM F W.Point Pms := do
  if !(← get).state.isPreprocessed then throw (.state "not in preprocessed state")
  let serverKey ← match (← get).role with
    | .leader => do
      let some serverKey := (← get).serverKey | throw (.state "server public key not set")
      pure serverKey
    | .follower => do
      let serverKey ← KxM.expectNext
      modify fun ke => { ke with serverKey := some serverKey }
      pure serverKey
  let some privateKey ← takePrivateKey | throw (.state "private key not set")
  let (pmsShare0, pmsShare1) ← computePmsShares inverse (← get).role serverKey privateKey
  let pms ← computePmsWith encode pmsShare0 pmsShare1
  modify fun ke => { ke with state := .complete }
  pure pms

end Curve

end MpcKeyExchange

/-! ## What each method does to the state, whatever the answers -/

namespace MpcKeyExchange

variable {F P : Type}

section Curve

variable [Field F] {W : WeierstrassCurve.Affine F} (inverse : F → Option F)

variable [DecidableEq F]

end Curve

end MpcKeyExchange

/-! ## Over any sequence of calls -/

/-- The methods of `KeyExchange` that `MpcKeyExchange` implements, with their arguments. -/
inductive Method (P : Type)
  | setServerKey (serverKey : P)
  | setup
  | preprocess
  | clientKey
  | computePms

/-- What a method returns. -/
inductive Reply (P : Type)
  | unit
  | pms (pms : Pms)
  | key (key : P)

section Lifecycle

variable {F P : Type}

/-- The lifecycle calls, with what each returned, in the only order the state machine lets them
succeed: `setup`, `preprocess`, `compute_pms`, the last returning the first's reference. -/
def lifecycleOrder (pms : Pms) : List (Method P × Reply P) :=
  [(.setup, .pms pms), (.preprocess, .unit), (.computePms, .pms pms)]

/-- What the state of an instance says of the lifecycle calls that succeeded on it: none from
`Initialized`, `setup` from `Setup`, then `preprocess` from `Preprocessed`, all three from
`Complete`, and a prefix of them from `Error`. -/
inductive Agrees : List (Method P × Reply P) → State → Prop
  | initialized : Agrees [] .initialized
  | setup (vars : PmsVars) : Agrees [(.setup, .pms ⟨vars.pms0⟩)] (.setup vars)
  | preprocessed (vars : PmsVars) :
      Agrees [(.setup, .pms ⟨vars.pms0⟩), (.preprocess, .unit)] (.preprocessed vars)
  | complete (pms : Pms) : Agrees (lifecycleOrder pms) .complete
  | error {calls : List (Method P × Reply P)} (pms : Pms) :
      calls <+: lifecycleOrder pms → Agrees calls .error

variable [Field F] [DecidableEq F] {W : WeierstrassCurve.Affine F} (inverse : F → Option F)

/-- A call of the method. -/
def Method.run (G : W.Point) (encode : F → Bytes) : Method W.Point → KxM F W.Point (Reply W.Point)
  | .setServerKey serverKey => (fun _ => .unit) <$> MpcKeyExchange.setServerKey serverKey
  | .setup => .pms <$> MpcKeyExchange.setup
  | .preprocess => (fun _ => .unit) <$> MpcKeyExchange.preprocess G
  | .clientKey => .key <$> MpcKeyExchange.clientKey G
  | .computePms => .pms <$> MpcKeyExchange.computePms inverse encode

end Lifecycle

/-- What the two parties share: the messages each has sent the other and not yet received, and
the MPC VM's memory (the inputs assigned, the outputs computed). -/
structure KxEnv (P : Type) where
  toLeader : List P
  toFollower : List P
  assigned : List (ValueRef × Bytes)
  outputs : List (ValueRef × Bytes)

namespace KxEnv

variable {F P : Type}

/-- A message of the party, queued for the other. -/
def post (env : KxEnv P) : Role → P → KxEnv P
  | .leader, key => { env with toFollower := env.toFollower ++ [key] }
  | .follower, key => { env with toLeader := env.toLeader ++ [key] }

/-- The next message to the party; none when the other has sent none. -/
def receive (env : KxEnv P) : Role → Option (P × KxEnv P)
  | .leader => match env.toLeader with
    | key :: rest => some (key, { env with toLeader := rest })
    | [] => none
  | .follower => match env.toFollower with
    | key :: rest => some (key, { env with toFollower := rest })
    | [] => none

/-- The PMS circuit executed on the values assigned to its inputs; none when one is not. -/
def execute (addMod : Bytes → Bytes → Bytes) (env : KxEnv P) (inputs outputs : List ValueRef) :
    Option (KxEnv P) := do
  let values ← inputs.mapM fun ref => env.assigned.lookup ref
  let results ← pmsCircuit addMod values
  pure { env with outputs := outputs.zip results ++ env.outputs }

/-- The answer to a call of one party that the other has no part in: its channel, its random
number generator (which draws `privateKey`), its converters' allocation and preprocessing, and
the VM's memory; none for the calls that both parties make together. -/
def answer (env : KxEnv P) (role : Role) (privateKey : ℕ) :
    (q : KxCall F P) → Option (q.Answer × KxEnv P)
  | .send key => some (.ok (), env.post role key)
  | .expectNext => (env.receive role).map fun x => (.ok x.1, x.2)
  | .randomKey => some (privateKey, env)
  | .alloc _ _ => some ((), env)
  | .preprocessConverter _ => some (.ok (), env)
  | .newPrivateInput name => some (.ok ⟨name⟩, env)
  | .newBlindInput name => some (.ok ⟨name⟩, env)
  | .newOutput name => some (.ok ⟨name⟩, env)
  | .load _ _ => some (.ok (), env)
  | .assign ref value => some (.ok (), { env with assigned := (ref, value) :: env.assigned })
  | .toMultiplicative _ _ | .toAdditive _ _ | .execute _ _ | .decode _ => none

end KxEnv

section Joint

variable {F P : Type}

/-- The joint service of the two parties: the converters `conv` convert the two parties' shares
together, the VM executes the PMS circuit and decodes its outputs for both, and every other call
is answered for each party alone, a message sent before one is expected (the follower's first,
so that the leader may receive it). The leader's generator draws `dL` and the follower's `dF`. -/
def kxJoint (conv : Fin 2 → Converter F) (addMod : Bytes → Bytes → Bytes) (dL dF : ℕ)
    (env : KxEnv P) : (q q' : KxCall F P) → Option (q.Answer × q'.Answer × KxEnv P)
  | .toMultiplicative i xs, .toMultiplicative j ys =>
    if i = j then some (.ok ((conv i).toMultiplicative xs ys).1,
      .ok ((conv i).toMultiplicative xs ys).2, env) else none
  | .toAdditive i xs, .toAdditive j ys =>
    if i = j then some (.ok ((conv i).toAdditive xs ys).1, .ok ((conv i).toAdditive xs ys).2, env)
    else none
  | .execute ins outs, .execute ins' outs' =>
    if ins = ins' ∧ outs = outs' then (env.execute addMod ins outs).map fun env' => (.ok (), .ok (), env')
    else none
  | .decode ref, .decode ref' =>
    if ref = ref' then (env.outputs.lookup ref).map fun v => (.ok v, .ok v, env) else none
  | q, .send key => do
    let (a', env) ← env.answer .follower dF (.send key : KxCall F P)
    let (a, env) ← env.answer .leader dL q
    pure (a, a', env)
  | q, q' => do
    let (a, env) ← env.answer .leader dL q
    let (a', env) ← env.answer .follower dF q'
    pure (a, a', env)

variable {conv : Fin 2 → Converter F} {addMod : Bytes → Bytes → Bytes} {dL dF : ℕ} {α β : Type}

theorem kxJoint_toMultiplicative (env : KxEnv P) (i : Fin 2) (xs ys : List F) :
    kxJoint conv addMod dL dF env (.toMultiplicative i xs) (.toMultiplicative i ys) =
      some (.ok ((conv i).toMultiplicative xs ys).1, .ok ((conv i).toMultiplicative xs ys).2, env) := by
  simp [kxJoint]

theorem kxJoint_toAdditive (env : KxEnv P) (i : Fin 2) (xs ys : List F) :
    kxJoint conv addMod dL dF env (.toAdditive i xs) (.toAdditive i ys) =
      some (.ok ((conv i).toAdditive xs ys).1, .ok ((conv i).toAdditive xs ys).2, env) := by
  simp [kxJoint]

/-- The two parties' conversions to multiplicative shares, on the same converter. -/
theorem lockstep_toMultiplicative (env : KxEnv P) (i : Fin 2) (xs ys : List F)
    (k : List F → KxM F P α) (k' : List F → KxM F P β) (o₁ o₂ : MpcKeyExchange P) :
    lockstep (kxJoint conv addMod dL dF) env ((KxM.toMultiplicative i xs >>= k).run.run o₁)
        ((KxM.toMultiplicative i ys >>= k').run.run o₂) =
      lockstep (kxJoint conv addMod dL dF) env ((k ((conv i).toMultiplicative xs ys).1).run.run o₁)
        ((k' ((conv i).toMultiplicative xs ys).2).run.run o₂) :=
  lockstep_query_query_bind (kxJoint_toMultiplicative env i xs ys) (by rfl) (by rfl) k k' o₁ o₂

/-- The two parties' conversions to additive shares, on the same converter. -/
theorem lockstep_toAdditive (env : KxEnv P) (i : Fin 2) (xs ys : List F)
    (k : List F → KxM F P α) (k' : List F → KxM F P β) (o₁ o₂ : MpcKeyExchange P) :
    lockstep (kxJoint conv addMod dL dF) env ((KxM.toAdditive i xs >>= k).run.run o₁)
        ((KxM.toAdditive i ys >>= k').run.run o₂) =
      lockstep (kxJoint conv addMod dL dF) env ((k ((conv i).toAdditive xs ys).1).run.run o₁)
        ((k' ((conv i).toAdditive xs ys).2).run.run o₂) :=
  lockstep_query_query_bind (kxJoint_toAdditive env i xs ys) (by rfl) (by rfl) k k' o₁ o₂

end Joint

/-- The references `setup` defines: the VM names each value as it was defined. -/
def pmsVars : PmsVars :=
  ⟨⟨"pms/share_a0"⟩, ⟨"pms/share_b0"⟩, ⟨"pms/share_a1"⟩, ⟨"pms/share_b1"⟩, ⟨"pms_0"⟩, ⟨"pms_1"⟩,
    ⟨"eq"⟩⟩

/-- The PMS circuit on the shares as the two parties assign them, the follower's after the
leader's. -/
theorem execute_pmsVars {P : Type} (addMod : Bytes → Bytes → Bytes) (toLeader toFollower : List P)
    (assigned outputs : List (ValueRef × Bytes)) (a0 b0 a1 b1 : Bytes) :
    KxEnv.execute addMod ⟨toLeader, toFollower, (pmsVars.shareB1, b1) :: (pmsVars.shareA1, a1) ::
        (pmsVars.shareB0, b0) :: (pmsVars.shareA0, a0) :: assigned, outputs⟩
        [pmsVars.shareA0, pmsVars.shareB0, pmsVars.shareA1, pmsVars.shareB1]
        [pmsVars.pms0, pmsVars.pms1, pmsVars.eq] =
      some ⟨toLeader, toFollower, (pmsVars.shareB1, b1) :: (pmsVars.shareA1, a1) ::
        (pmsVars.shareB0, b0) :: (pmsVars.shareA0, a0) :: assigned,
        (pmsVars.pms0, addMod a0 b0) :: (pmsVars.pms1, addMod a1 b1) ::
          (pmsVars.eq, List.zipWith (· ^^^ ·) (addMod a0 b0) (addMod a1 b1)) :: outputs⟩ :=
  rfl

theorem lookup_eq_pmsVars (pms0 pms1 eq : Bytes) (outputs : List (ValueRef × Bytes)) :
    ((pmsVars.pms0, pms0) :: (pmsVars.pms1, pms1) :: (pmsVars.eq, eq) :: outputs).lookup pmsVars.eq =
      some eq :=
  rfl

theorem publicKeyFromAffine_of_ne_zero {F : Type} [Field F] {W : WeierstrassCurve.Affine F}
    {p : W.Point} (h : p ≠ 0) : publicKeyFromAffine p = .ok p := by
  cases p with
  | zero => exact absurd rfl h
  | some x y hxy => rfl

theorem eq_uncompressed_of_decomposePoint {F : Type} {p : EncodedPoint F} {x y : F}
    (h : decomposePoint p = .ok (x, y)) : p = .uncompressed x y := by
  cases p <;> simp_all [decomposePoint, EncodedPoint.x, EncodedPoint.y]

namespace MpcKeyExchange

section Lockstep

variable {F : Type} {conv : Fin 2 → Converter F} {addMod : Bytes → Bytes → Bytes} {dL dF : ℕ}
  {α β : Type}

/-- **The two parties' `setup`**: the same references, in the VM's names. -/
theorem lockstep_setup {P : Type} (env : KxEnv P) (k : Pms → KxM F P α) (k' : Pms → KxM F P β)
    (privateKeyL privateKeyF : Option ℕ) (serverKeyL serverKeyF : Option P) :
    lockstep (kxJoint conv addMod dL dF) env
        ((setup >>= k).run.run ⟨privateKeyL, serverKeyL, .leader, .initialized⟩)
        ((setup >>= k').run.run ⟨privateKeyF, serverKeyF, .follower, .initialized⟩) =
      lockstep (kxJoint conv addMod dL dF) env
        ((k ⟨pmsVars.pms0⟩).run.run ⟨privateKeyL, serverKeyL, .leader, .setup pmsVars⟩)
        ((k' ⟨pmsVars.pms0⟩).run.run ⟨privateKeyF, serverKeyF, .follower, .setup pmsVars⟩) :=
  rfl

/-- **`compute_pms_with` of the two parties**: the PMS circuit adds each party's shares, `eq` is
all zeros when the two sums agree, and both return `pms_0`, which holds the sum. -/
theorem lockstep_computePmsWith [Field F] {P : Type} (encode : F → Bytes)
    (hlen : ∀ a, (encode a).length = 32) (hadd : ∀ a b, addMod (encode a) (encode b) = encode (a + b))
    {sL0 sL1 sF0 sF1 : F} (hsum : sL0 + sF0 = sL1 + sF1) (toLeader toFollower : List P)
    (outputs : List (ValueRef × Bytes)) (privateKeyL privateKeyF : Option ℕ)
    (serverKeyL serverKeyF : Option P) :
    lockstep (kxJoint conv addMod dL dF) ⟨toLeader, toFollower, [], outputs⟩
        ((computePmsWith encode sL0 sL1).run.run
          ⟨privateKeyL, serverKeyL, .leader, .preprocessed pmsVars⟩)
        ((computePmsWith encode sF0 sF1).run.run
          ⟨privateKeyF, serverKeyF, .follower, .preprocessed pmsVars⟩) =
      some ((.ok ⟨pmsVars.pms0⟩, ⟨privateKeyL, serverKeyL, .leader, .error⟩),
        (.ok ⟨pmsVars.pms0⟩, ⟨privateKeyF, serverKeyF, .follower, .error⟩),
        ⟨toLeader, toFollower, [(pmsVars.shareB1, encode sF1), (pmsVars.shareA1, encode sL1),
          (pmsVars.shareB0, encode sF0), (pmsVars.shareA0, encode sL0)],
          (pmsVars.pms0, encode (sL0 + sF0)) :: (pmsVars.pms1, encode (sL1 + sF1)) ::
            (pmsVars.eq, List.replicate 32 0) :: outputs⟩) := by
  -- the two sums are equal, so `eq` is the XOR of a value with itself
  simp only [computePmsWith, takeState, run_run_bind, run_run_modifyGet, run_run_get, run_run_ite,
    run_run_pure, run_run_throw, run_run_panic, KxM.panic, hlen, KxM.assign, KxM.execute, KxM.decode, KxM.call_run_run, ask_bind, ret_bind,
    lockstep_ask_ask_eq, kxJoint, KxEnv.answer, Except.mapError, Option.bind_eq_bind,
    Option.pure_def, Option.bind_some, ne_eq, not_true_eq_false, if_false, and_self, if_true,
    execute_pmsVars, lookup_eq_pmsVars, Option.map_some, hadd, hsum, List.zipWith_self, UInt8.xor_self,
    List.map_const', List.length_replicate, lockstep_ret_ret]

/-- The bytewise XOR of two byte strings of one length is all zeros only when they are equal. -/
theorem eq_of_zipWith_xor_eq_replicate {a b : Bytes} (hab : a.length = b.length)
    (h : List.zipWith (· ^^^ ·) a b = List.replicate a.length 0) : a = b := by
  refine List.ext_getElem hab fun i h₁ h₂ => ?_
  have hi := congrArg (·[i]?) h
  simp only [List.getElem?_zipWith, List.getElem?_eq_getElem h₁, List.getElem?_eq_getElem h₂,
    List.getElem?_replicate, h₁, if_true, Option.some.injEq] at hi
  exact UInt8.xor_eq_zero_iff.1 hi

/-- **A broken sharing is caught**: when the two sums of the parties' shares differ, as when a
converter broke one of the two sharings, and the encoding is injective, `eq` is not all zeros and
both parties fail with the share conversion error, their state `Error`. -/
theorem lockstep_computePmsWith_mismatch [Field F] {P : Type} (encode : F → Bytes)
    (hlen : ∀ a, (encode a).length = 32) (hadd : ∀ a b, addMod (encode a) (encode b) = encode (a + b))
    (hinj : Function.Injective encode) {sL0 sL1 sF0 sF1 : F} (hne : sL0 + sF0 ≠ sL1 + sF1)
    (toLeader toFollower : List P) (outputs : List (ValueRef × Bytes))
    (privateKeyL privateKeyF : Option ℕ) (serverKeyL serverKeyF : Option P) :
    lockstep (kxJoint conv addMod dL dF) ⟨toLeader, toFollower, [], outputs⟩
        ((computePmsWith encode sL0 sL1).run.run
          ⟨privateKeyL, serverKeyL, .leader, .preprocessed pmsVars⟩)
        ((computePmsWith encode sF0 sF1).run.run
          ⟨privateKeyF, serverKeyF, .follower, .preprocessed pmsVars⟩) =
      some ((.error ⟨.shareConversion, "PMS values not equal"⟩,
          ⟨privateKeyL, serverKeyL, .leader, .error⟩),
        (.error ⟨.shareConversion, "PMS values not equal"⟩,
          ⟨privateKeyF, serverKeyF, .follower, .error⟩),
        ⟨toLeader, toFollower, [(pmsVars.shareB1, encode sF1), (pmsVars.shareA1, encode sL1),
          (pmsVars.shareB0, encode sF0), (pmsVars.shareA0, encode sL0)],
          (pmsVars.pms0, encode (sL0 + sF0)) :: (pmsVars.pms1, encode (sL1 + sF1)) ::
            (pmsVars.eq, List.zipWith (· ^^^ ·) (encode (sL0 + sF0)) (encode (sL1 + sF1))) ::
              outputs⟩) := by
  -- `eq` has 32 bytes, and is not all zeros
  have heq : List.zipWith (· ^^^ ·) (encode (sL0 + sF0)) (encode (sL1 + sF1)) ≠
      List.replicate 32 0 := fun h =>
    hne (hinj (eq_of_zipWith_xor_eq_replicate (by rw [hlen, hlen]) (by rw [hlen]; exact h)))
  simp only [computePmsWith, takeState, run_run_bind, run_run_modifyGet, run_run_get, run_run_ite,
    run_run_pure, run_run_throw, run_run_panic, KxM.panic, hlen, KxM.assign, KxM.execute,
    KxM.decode, KxM.call_run_run, ask_bind, ret_bind, lockstep_ask_ask_eq, kxJoint, KxEnv.answer,
    Except.mapError, Option.bind_eq_bind, Option.pure_def, Option.bind_some, ne_eq,
    not_true_eq_false, if_false, and_self, if_true, execute_pmsVars, lookup_eq_pmsVars,
    Option.map_some, hadd, List.length_zipWith, min_self, heq, not_false_eq_true,
    lockstep_ret_ret]

section Curve

variable [Field F] {W : WeierstrassCurve.Affine F} (inverse : F → Option F)

/-- **`derive_x_coord_share` of the two parties computes the joint model**: run in lockstep
against the converter, the leader's and the follower's programs return the shares
`deriveXCoordShares` gives. -/
theorem lockstep_deriveXCoordShare (i : Fin 2) {pL pF : EncodedPoint F} {sL sF : F}
    (h : deriveXCoordShares inverse (conv i) pL pF = .ok (sL, sF)) (env : KxEnv W.Point)
    (oL oF : MpcKeyExchange W.Point) :
    lockstep (kxJoint conv addMod dL dF) env ((deriveXCoordShare inverse .leader i pL).run.run oL)
        ((deriveXCoordShare inverse .follower i pF).run.run oF) =
      some ((.ok sL, oL), (.ok sF, oF), env) := by
  -- the joint run's intermediate values: the points, the squared ratios and the additive shares
  simp only [deriveXCoordShares, Outcome.bind_eq_ok, Outcome.pure_eq, Outcome.ok.injEq,
    Prod.mk.injEq] at h
  obtain ⟨⟨xL, yL⟩, hpL, ⟨xF, yF⟩, hpF, cL, hcL, cF, hcF, tL, htL, tF, htF, rfl, rfl⟩ := h
  obtain rfl := eq_uncompressed_of_decomposePoint hpL
  obtain rfl := eq_uncompressed_of_decomposePoint hpF
  simp only [deriveXCoordShare, decomposePoint_uncompressed, KxM.ofOutcome_ok, pure_bind]
  rw [lockstep_toMultiplicative]
  simp only [hcL, hcF, KxM.ofOutcome_ok, pure_bind]
  rw [lockstep_toAdditive]
  simp only [htL, htF, KxM.ofOutcome_ok, run_run_pure, lockstep_ret_ret]

variable [DecidableEq F]

/-- **`compute_pms_shares` of the two parties computes the joint model**: each party's shares of
the two sharings `computePmsShares` gives. -/
theorem lockstep_computePmsShares {serverKey : W.Point} {s0 s1 : F × F}
    (h : Tlsn.KeyExchange.computePmsShares inverse (conv 0) (conv 1) serverKey dL dF = .ok (s0, s1))
    (env : KxEnv W.Point) (oL oF : MpcKeyExchange W.Point) :
    lockstep (kxJoint conv addMod dL dF) env
        ((computePmsShares inverse .leader serverKey dL).run.run oL)
        ((computePmsShares inverse .follower serverKey dF).run.run oF) =
      some ((.ok (s0.1, s1.1), oL), (.ok (s0.2, s1.2), oF), env) := by
  simp only [Tlsn.KeyExchange.computePmsShares, Outcome.bind_eq_ok, Outcome.pure_eq,
    Outcome.ok.injEq, Prod.mk.injEq] at h
  obtain ⟨pL, hpL, pF, hpF, t0, h0, t1, h1, rfl, rfl⟩ := h
  simp only [computePmsShares, hpL, hpF, KxM.ofOutcome_ok, pure_bind, run_run_bind]
  rw [lockstep_bind (lockstep_deriveXCoordShare inverse 0 h0 env oL oF),
    lockstep_bind (lockstep_deriveXCoordShare inverse 1 h1 env oL oF)]
  rfl

/-- **The two parties' `preprocess`, and the leader's `client_key`**: the follower draws `d_F` and
sends `d_F G` as it preprocesses; the leader draws `d_L` and adds the two public key shares. -/
theorem lockstep_preprocess_clientKey (G : W.Point) (hG : dL • G + dF • G ≠ 0)
    (toFollower : List W.Point) (assigned outputs : List (ValueRef × Bytes))
    (k : W.Point → KxM F W.Point α) (k' : Unit → KxM F W.Point β)
    (serverKeyL serverKeyF : Option W.Point) :
    lockstep (kxJoint conv addMod dL dF) ⟨[], toFollower, assigned, outputs⟩
        ((preprocess G >>= fun _ => clientKey G >>= k).run.run
          ⟨none, serverKeyL, .leader, .setup pmsVars⟩)
        ((preprocess G >>= k').run.run ⟨none, serverKeyF, .follower, .setup pmsVars⟩) =
      lockstep (kxJoint conv addMod dL dF) ⟨[], toFollower, assigned, outputs⟩
        ((k (dL • G + dF • G)).run.run ⟨some dL, serverKeyL, .leader, .preprocessed pmsVars⟩)
        ((k' ()).run.run ⟨some dF, serverKeyF, .follower, .preprocessed pmsVars⟩) := by
  -- the run up to `PublicKey::from_affine` of the sum, the one step that looks at a point
  have hrun : lockstep (kxJoint conv addMod dL dF) ⟨[], toFollower, assigned, outputs⟩
        ((preprocess G >>= fun _ => clientKey G >>= k).run.run
          ⟨none, serverKeyL, .leader, .setup pmsVars⟩)
        ((preprocess G >>= k').run.run ⟨none, serverKeyF, .follower, .setup pmsVars⟩) =
      lockstep (kxJoint conv addMod dL dF) ⟨[], toFollower, assigned, outputs⟩
        ((KxM.ofOutcome (publicKeyFromAffine (dL • G + dF • G)) >>= k).run.run
          ⟨some dL, serverKeyL, .leader, .preprocessed pmsVars⟩)
        ((k' ()).run.run ⟨some dF, serverKeyF, .follower, .preprocessed pmsVars⟩) := rfl
  rw [hrun, publicKeyFromAffine_of_ne_zero hG]
  rfl

/-- **The leader's `set_server_key` and the two parties' `compute_pms`**: the follower receives
the server's key, the two sharings are those of the joint model, and the PMS circuit's `pms_0`
holds the first sum. -/
theorem lockstep_setServerKey_computePms (encode : F → Bytes) (hlen : ∀ a, (encode a).length = 32)
    (hadd : ∀ a b, addMod (encode a) (encode b) = encode (a + b)) (serverKey : W.Point)
    {s0 s1 : F × F}
    (h : Tlsn.KeyExchange.computePmsShares inverse (conv 0) (conv 1) serverKey dL dF = .ok (s0, s1))
    (hsum : s0.1 + s0.2 = s1.1 + s1.2) (toLeader : List W.Point)
    (outputs : List (ValueRef × Bytes)) (k : Pms → KxM F W.Point α)
    (serverKeyL serverKeyF : Option W.Point) :
    lockstep (kxJoint conv addMod dL dF) ⟨toLeader, [], [], outputs⟩
        ((setServerKey serverKey >>= fun _ => computePms inverse encode >>= k).run.run
          ⟨some dL, serverKeyL, .leader, .preprocessed pmsVars⟩)
        ((computePms inverse encode).run.run ⟨some dF, serverKeyF, .follower, .preprocessed pmsVars⟩) =
      lockstep (kxJoint conv addMod dL dF)
        ⟨toLeader, [], [(pmsVars.shareB1, encode s1.2), (pmsVars.shareA1, encode s1.1),
          (pmsVars.shareB0, encode s0.2), (pmsVars.shareA0, encode s0.1)],
          (pmsVars.pms0, encode (s0.1 + s0.2)) :: (pmsVars.pms1, encode (s1.1 + s1.2)) ::
            (pmsVars.eq, List.replicate 32 0) :: outputs⟩
        ((k ⟨pmsVars.pms0⟩).run.run ⟨none, some serverKey, .leader, .complete⟩)
        (ret (.ok ⟨pmsVars.pms0⟩, ⟨none, some serverKey, .follower, .complete⟩)) := by
  -- the server's key to the follower, and both private keys taken
  simp only [setServerKey, computePms, takePrivateKey, State.isPreprocessed, run_run_bind,
    run_run_get, run_run_modify, run_run_modifyGet, run_run_pure, KxM.send,
    KxM.expectNext, KxM.call_run_run, ask_bind, ret_bind, lockstep_ask_ask_eq, kxJoint,
    KxEnv.answer, KxEnv.post, KxEnv.receive, Except.mapError, Option.bind_eq_bind,
    Option.pure_def, Option.bind_some, Option.map_some, Bool.not_true, Bool.false_eq_true,
    if_false, List.nil_append, Prog.bind_assoc]
  -- the two sharings, then the PMS circuit
  rw [lockstep_bind (lockstep_computePmsShares inverse h _ _ _)]
  simp only [Prog.bind_assoc]
  rw [lockstep_bind (lockstep_computePmsWith encode hlen hadd hsum _ _ _ _ _ _ _)]
  rfl

/-- The leader's calls, in the order `tls-mpc` makes them: `setup`, `preprocess`, `client_key`,
`set_server_key` once the server's key is known, and `compute_pms`. -/
def leaderSession (G serverKey : W.Point) (encode : F → Bytes) :
    KxM F W.Point (W.Point × Pms) := do
  let _ ← setup
  preprocess G
  let clientKey ← clientKey G
  setServerKey serverKey
  let pms ← computePms inverse encode
  pure (clientKey, pms)

/-- The follower's calls, in the order `tls-mpc` makes them: `setup`, `preprocess` and
`compute_pms`. -/
def followerSession (G : W.Point) (encode : F → Bytes) : KxM F W.Point Pms := do
  let _ ← setup
  preprocess G
  computePms inverse encode

/-- **The key exchange computes the ECDHE pre-master secret.** On a curve with `a₁ = a₂ = 0`,
with converters that convert shares correctly and a PMS circuit that adds field elements in their
32-byte encoding: when the leader draws `d_L` and the follower `d_F`, and the server's key `Q`
makes of them affine points `d_L Q`, `d_F Q` with distinct x-coordinates, the two parties' calls
run to completion in lockstep. The leader learns the client's public key `(d_L + d_F) G`, both
end `Complete` with the server's key and without a private key, both return `pms_0`, and the VM's
`pms_0` holds the x-coordinate of `(d_L + d_F) Q`: the secret the server computes with the
client's key, which neither party holds. -/
theorem kx_session_pms (ha₁ : W.a₁ = 0) (ha₂ : W.a₂ = 0) (hinv : InvertsNonzero inverse)
    (hconv : ∀ i, (conv i).Correct)
    (encode : F → Bytes) (hlen : ∀ a, (encode a).length = 32)
    (hadd : ∀ a b, addMod (encode a) (encode b) = encode (a + b)) (G serverKey : W.Point)
    (hG : dL • G + dF • G ≠ 0) (hL : dL • serverKey ≠ 0) (hF : dF • serverKey ≠ 0)
    (hx : xCoord (dL • serverKey) ≠ xCoord (dF • serverKey)) :
    ∃ x env, xCoord ((dL + dF) • serverKey) = some x ∧
      lockstep (kxJoint conv addMod dL dF) ⟨[], [], [], []⟩
          ((leaderSession inverse G serverKey encode).run.run (MpcKeyExchange.new .leader))
          ((followerSession inverse G encode).run.run (MpcKeyExchange.new .follower)) =
        some ((.ok ((dL + dF) • G, ⟨pmsVars.pms0⟩), ⟨none, some serverKey, .leader, .complete⟩),
          (.ok ⟨pmsVars.pms0⟩, ⟨none, some serverKey, .follower, .complete⟩), env) ∧
      env.outputs.lookup pmsVars.pms0 = some (encode x) := by
  -- the joint model's two sharings of the x-coordinate of `(d_L + d_F) Q`
  obtain ⟨s0, s1, hrun, hx0, hx1⟩ :=
    computePmsShares_eq ha₁ ha₂ hinv (hconv 0) (hconv 1) serverKey dL dF hL hF hx
  have hsum : s0.1 + s0.2 = s1.1 + s1.2 := Option.some.inj (hx0.symm.trans hx1)
  refine ⟨s0.1 + s0.2, ⟨[], [], [(pmsVars.shareB1, encode s1.2), (pmsVars.shareA1, encode s1.1),
    (pmsVars.shareB0, encode s0.2), (pmsVars.shareA0, encode s0.1)],
    [(pmsVars.pms0, encode (s0.1 + s0.2)), (pmsVars.pms1, encode (s1.1 + s1.2)),
      (pmsVars.eq, List.replicate 32 0)]⟩, hx0, ?_, rfl⟩
  refine (lockstep_setup _ _ _ none none none none).trans ?_
  refine (lockstep_preprocess_clientKey G hG [] [] [] _ _ none none).trans ?_
  refine (lockstep_setServerKey_computePms inverse encode hlen hadd serverKey hrun hsum [] [] _ none
    none).trans ?_
  rw [add_nsmul]
  rfl

end Curve

end Lockstep

/-! ### On the curve `y² = x³ + 1` over `ℚ`, with `G = Q = (2, 3)` -/

theorem two_nsmul_two_three :
    (2 : ℕ) • Point.some 2 3 nonsingular_two_three = Point.some 0 1 nonsingular_zero_one := by
  rw [two_nsmul, Point.add_self_of_Y_ne (by rw [negY]; norm_num)]
  simp [WeierstrassCurve.Affine.slope, negY, addX, addY, negAddY]
  norm_num

theorem one_add_two_nsmul_two_three_ne_zero :
    (1 : ℕ) • Point.some 2 3 nonsingular_two_three +
      (2 : ℕ) • Point.some 2 3 nonsingular_two_three ≠ 0 := by
  rw [one_nsmul, two_nsmul_two_three, Point.add_of_X_ne (by norm_num)]
  exact Point.some_ne_zero _

/-- The leader draws `1` and the follower `2`, the converters are ideal, and every value is
encoded as 32 zero bytes: the session completes, and `pms_0` holds the x-coordinate of `3Q`. -/
theorem kx_session_pms_rat :
    ∃ x env, xCoord ((1 + 2) • Point.some 2 3 nonsingular_two_three) = some x ∧
      lockstep (kxJoint (fun _ => Converter.ideal) (fun _ _ => List.replicate 32 0) 1 2)
          ⟨[], [], [], []⟩
          ((leaderSession (fun b => some b⁻¹) (Point.some 2 3 nonsingular_two_three)
            (Point.some 2 3 nonsingular_two_three) (fun _ => List.replicate 32 0)).run.run
              (MpcKeyExchange.new .leader))
          ((followerSession (fun b => some b⁻¹) (Point.some 2 3 nonsingular_two_three)
            (fun _ => List.replicate 32 0)).run.run (MpcKeyExchange.new .follower)) =
        some ((.ok ((1 + 2) • Point.some 2 3 nonsingular_two_three, ⟨pmsVars.pms0⟩),
            ⟨none, some (Point.some 2 3 nonsingular_two_three), .leader, .complete⟩),
          (.ok ⟨pmsVars.pms0⟩, ⟨none, some (Point.some 2 3 nonsingular_two_three), .follower,
            .complete⟩), env) ∧
      env.outputs.lookup pmsVars.pms0 = some (List.replicate 32 0) :=
  kx_session_pms (fun b => some b⁻¹) rfl rfl invertsNonzero_inv (fun _ => Converter.ideal_correct) (fun _ => List.replicate 32 0)
    (fun _ => List.length_replicate) (fun _ _ => rfl) _ _ one_add_two_nsmul_two_three_ne_zero
    (by rw [one_nsmul]; exact Point.some_ne_zero _)
    (by rw [two_nsmul_two_three]; exact Point.some_ne_zero _)
    (by rw [one_nsmul, two_nsmul_two_three]; simp [xCoord])

/-! ### A broken sharing over `GF(2)` -/

/-- Elements of `GF(2)` as 32 bytes, the last one the value. -/
def encodeGf2 (a : ZMod 2) : Bytes := List.replicate 31 0 ++ [a.val.toUInt8]

/-- The circuit's adder on such encodings: the sum of the last bytes. -/
def addModGf2 (x y : Bytes) : Bytes := encodeGf2 (if x.getLast? = y.getLast? then 0 else 1)

/-- The leader's shares `0`, `1` and the follower's `0`, `0`: the two sharings disagree, and both
parties fail. -/
theorem lockstep_computePmsWith_mismatch_gf2 :
    (∀ a, (encodeGf2 a).length = 32) ∧
    (∀ a b, addModGf2 (encodeGf2 a) (encodeGf2 b) = encodeGf2 (a + b)) ∧
    Function.Injective encodeGf2 ∧ (0 : ZMod 2) + 0 ≠ 1 + 0 ∧
    lockstep (kxJoint (fun _ => Converter.ideal) addModGf2 1 2) ⟨([] : List Unit), [], [], []⟩
        ((computePmsWith encodeGf2 0 1).run.run ⟨none, none, .leader, .preprocessed pmsVars⟩)
        ((computePmsWith encodeGf2 0 0).run.run ⟨none, none, .follower, .preprocessed pmsVars⟩) =
      some ((.error ⟨.shareConversion, "PMS values not equal"⟩, ⟨none, none, .leader, .error⟩),
        (.error ⟨.shareConversion, "PMS values not equal"⟩, ⟨none, none, .follower, .error⟩),
        ⟨[], [], [(pmsVars.shareB1, encodeGf2 0), (pmsVars.shareA1, encodeGf2 1),
          (pmsVars.shareB0, encodeGf2 0), (pmsVars.shareA0, encodeGf2 0)],
          [(pmsVars.pms0, encodeGf2 (0 + 0)), (pmsVars.pms1, encodeGf2 (1 + 0)),
            (pmsVars.eq, List.zipWith (· ^^^ ·) (encodeGf2 (0 + 0)) (encodeGf2 (1 + 0)))]⟩) := by
  have hlen : ∀ a, (encodeGf2 a).length = 32 := by decide
  have hadd : ∀ a b, addModGf2 (encodeGf2 a) (encodeGf2 b) = encodeGf2 (a + b) := by decide
  have hinj : Function.Injective encodeGf2 := by
    intro a b
    revert a b
    decide
  have hne : (0 : ZMod 2) + 0 ≠ 1 + 0 := by decide
  exact ⟨hlen, hadd, hinj, hne,
    lockstep_computePmsWith_mismatch encodeGf2 hlen hadd hinj hne [] [] [] none none none none⟩

end MpcKeyExchange

end Tlsn.KeyExchange
