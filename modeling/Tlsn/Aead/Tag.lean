import Tlsn.Aead.AesGcm
import Tlsn.UniversalHash.GhashInner
import Tlsn.Cipher.KeyStream
import Tlsn.Lib.Interaction
import Mathlib

/-!
# MPC AES-GCM: the tag (`components/aead/src/aes_gcm/tag.rs`)

The tag of AES-GCM is `E_K(J0) ⊕ GHASH_H(A ‖ 0* ‖ C ‖ 0* ‖ [len A]₆₄ ‖ [len C]₆₄)`, `H = E_K(0¹²⁸)`
(`gcmTag`). Neither party knows `K` or `H`: each holds a share of the key block and of `H`, and

* `compute_tag_share` asks the stream cipher for the party's share of the keystream block of
  counter 1, which is `E_K(J0)`, and its hasher for its share of the GHASH of the data
  `build_ghash_data` builds (the additional data and the ciphertext padded to whole blocks, then
  their lengths in bits); the XOR of the two is the party's share of the tag;
* `compute_tag` sends the share to the other party and adds the share it receives;
* `verify_tag` does the same with a commitment: the leader commits to its share before it sees the
  follower's, and opens the commitment after; the follower checks the opening. Both reject a
  purported tag that differs from the sum of the shares.

Each function is a program of the party (`TagProg`, an `Interaction.Prog` that may fail) that asks
its stream cipher, its hasher and its channel to the other party (`TagCall`). Two parties are run
in lockstep against `tagJoint`: an ideal share of the keystream block (`KeystreamShares`), their
`Ghash` hashers run together as in `Tlsn.UniversalHash` with a correct converter, and two queues of
messages. Then

* `build_ghash_data` gives the blocks of GCM's GHASH input (`specBlocks_buildGhashData`);
* two parties whose hashers are keyed with `H` and that compute a tag together both get the GCM
  tag of the ciphertext under `H` (`lockstep_computeTag`), and stay keyed;
* `verify_tag` accepts on both sides exactly when the purported tag is that tag, and rejects it on
  both sides as `invalid_tag` otherwise (`lockstep_verifyTag`);
* against any leader, the follower accepts only a purported tag that is the sum of its share and a
  share the leader committed to before the follower sent its own (`follower_accepts_committed`).

The commitment is a hash of the nonce and the share, a parameter (`commit`), as is the leader's
nonce. The stream cipher's errors, the hasher's and those of the channel are the services' to
give; the channel carries typed messages, and a message of another type than the one expected is
the channel's error.
-/

namespace Tlsn.Aead

open Interaction Interaction.Prog Codec Sharing Tlsn.Ghash Tlsn.UniversalHash

/-! ### The data GHASH authenticates -/

/-- `(len as u64) * 8`: a product of `u64`s, a panic (`none`) on overflow with overflow checks. -/
def u64BitLen (overflowChecks : Bool) (len : ℕ) : Option ℕ :=
  match (Outcome.uintOp 64 overflowChecks (· * ·) len 8 : Outcome Unit ℕ) with
  | .ok n => some n
  | _ => none

theorem u64BitLen_of_lt (overflowChecks : Bool) {len : ℕ} (h : len < 2 ^ 61) :
    u64BitLen overflowChecks len = some (len * 8) := by
  rw [u64BitLen, Outcome.uintOp_of_lt (by omega)]

/-- `build_ghash_data`: the additional data and the ciphertext, each resized with zeros to whole
blocks, then the block of their lengths in bits, `(aad_bits as u128) << 64) + text_bits`, as
big-endian bytes (`u128::to_be_bytes`). -/
def buildGhashData (overflowChecks : Bool) (aad ciphertext : Bytes) : Option Bytes := do
  let associatedDataBitlen ← u64BitLen overflowChecks aad.length
  let textBitlen ← u64BitLen overflowChecks ciphertext.length
  let lenBlock : BitVec 128 :=
    (BitVec.ofNat 128 associatedDataBitlen <<< 64) + BitVec.ofNat 128 textBitlen
  -- pad data to be a multiple of 16 bytes
  let aad := resize aad (blockCount aad * 16) 0
  let ciphertext := resize ciphertext (blockCount ciphertext * 16) 0
  pure (aad ++ ciphertext ++ blockToBytes lenBlock)

/-- The block of GCM's lengths, `[len(A)]₆₄ ‖ [len(C)]₆₄`, in bits. -/
def gcmLengthBlock (aad ciphertext : Bytes) : Block :=
  BitVec.ofNat 64 (8 * aad.length) ++ BitVec.ofNat 64 (8 * ciphertext.length)

/-- The blocks GCM's GHASH authenticates: those of the additional data padded with zeros, those of
the ciphertext padded with zeros, and the block of their lengths. -/
def gcmBlocks (aad ciphertext : Bytes) : List Block :=
  specBlocks aad ++ specBlocks ciphertext ++ [gcmLengthBlock aad ciphertext]

/-- The pre-counter block `J0` of GCM for a 96-bit IV, here the implicit IV of the key exchange and
the explicit nonce: the IV, then the counter 1. -/
def j0Block (iv explicitNonce : Bytes) : Block := blockOfBytes (iv ++ explicitNonce ++ [0, 0, 0, 1])

/-- The tag of AES-GCM with a 96-bit IV and a tag of 16 bytes, under the hash key `H`:
`E_K(J0) ⊕ GHASH_H(A ‖ 0* ‖ C ‖ 0* ‖ [len A]₆₄ ‖ [len C]₆₄)`. -/
def gcmTag {F : Type} [CommRing F] (codec : BlockCodec F) (H : F) (cipher : Block → Block)
    (iv explicitNonce aad ciphertext : Bytes) : Bytes :=
  blockToBytes (cipher (j0Block iv explicitNonce) ^^^ ghash codec H (gcmBlocks aad ciphertext))

/-- The `u128` of the lengths is the concatenation of the two `u64`s. -/
theorem lenBlock_eq (a : ℕ) {t : ℕ} (ht : t < 2 ^ 64) :
    (BitVec.ofNat 128 a <<< 64) + BitVec.ofNat 128 t = BitVec.ofNat 64 a ++ BitVec.ofNat 64 t := by
  apply BitVec.eq_of_toNat_eq
  rw [BitVec.toNat_append, BitVec.toNat_add, BitVec.toNat_shiftLeft, BitVec.toNat_ofNat,
    BitVec.toNat_ofNat, BitVec.toNat_ofNat, BitVec.toNat_ofNat,
    ← Nat.shiftLeft_add_eq_or_of_lt (by omega), Nat.shiftLeft_eq, Nat.shiftLeft_eq]
  omega

theorem length_resize_blockCount (input : Bytes) :
    (resize input (blockCount input * 16) (0 : UInt8)).length = blockCount input * 16 := by
  have hle : input.length ≤ blockCount input * 16 := by
    rw [blockCount_eq]
    omega
  rw [resize_of_le hle, List.length_append, List.length_replicate]
  omega

/-- Without overflow of the lengths in bits, `build_ghash_data` gives the blocks of GCM's GHASH
input. -/
theorem specBlocks_buildGhashData (overflowChecks : Bool) {aad ciphertext : Bytes}
    (haad : aad.length < 2 ^ 61) (hct : ciphertext.length < 2 ^ 61) :
    ∃ data, buildGhashData overflowChecks aad ciphertext = some data ∧
      specBlocks data = gcmBlocks aad ciphertext ∧
      blockCount data = blockCount aad + blockCount ciphertext + 1 := by
  refine ⟨_, by simp only [buildGhashData, u64BitLen_of_lt overflowChecks haad,
    u64BitLen_of_lt overflowChecks hct]; rfl, ?_, ?_⟩
  · rw [specBlocks_append (by simp only [List.length_append, length_resize_blockCount]; omega),
      specBlocks_append (by rw [length_resize_blockCount]; omega), specBlocks_resize,
      specBlocks_resize, specBlocks_blockToBytes, gcmBlocks, gcmLengthBlock,
      lenBlock_eq _ (by omega), Nat.mul_comm aad.length, Nat.mul_comm ciphertext.length]
  · rw [blockCount_eq, List.length_append, List.length_append, length_resize_blockCount,
      length_resize_blockCount, length_blockToBytes, blockCount_eq, blockCount_eq]
    omega

/-! ### The party's programs -/

/-- `Role`. -/
inductive Role
  | leader
  | follower
  deriving DecidableEq, Repr

/-- `TagShare`: a party's share of the tag. -/
abbrev TagShare := Vector UInt8 tagLen

/-- `TagShare + TagShare`: `core::array::from_fn(|i| self.0[i] ^ rhs.0[i])`. -/
def addShares (a b : TagShare) : Vector UInt8 tagLen := Vector.ofFn fun i => a[i] ^^^ b[i]

/-- `core::array::from_fn(|i| j0[i] ^ hash[i])` in `compute_tag_share`: a panic (`none`) at the
first index out of bounds, when either is shorter than the tag. -/
def tagShareOf (j0 hash : Bytes) : Option TagShare :=
  if h : tagLen ≤ j0.length ∧ tagLen ≤ hash.length then
    some (Vector.ofFn fun i =>
      j0.get ⟨i, lt_of_lt_of_le i.isLt h.1⟩ ^^^ hash.get ⟨i, lt_of_lt_of_le i.isLt h.2⟩)
  else none

/-- `Decommitment<TagShare>`: the nonce the commitment was drawn with, and the share. -/
structure Decommitment where
  nonce : Bytes
  data : TagShare

/-- `TagShare::hash_commit`, with the nonce it draws: the decommitment, and the commitment, the hash
`commit` of the nonce and the share. -/
def hashCommit (commit : Bytes → TagShare → Bytes) (nonce : Bytes) (data : TagShare) :
    Decommitment × Bytes :=
  (⟨nonce, data⟩, commit nonce data)

/-- `Decommitment::verify`: the commitment is the hash of the nonce and the share. -/
def Decommitment.verify (commit : Bytes → TagShare → Bytes) (d : Decommitment)
    (commitment : Bytes) : Bool :=
  decide (commit d.nonce d.data = commitment)

/-- The messages of `tag.rs`: a tag share, a commitment (`Hash`), a decommitment. -/
inductive TagMsg
  | tagShare (share : TagShare)
  | commitment (hash : Bytes)
  | decommitment (d : Decommitment)

/-- The type of message a party expects next (`expect_next::<T>()`). -/
inductive MsgKind
  | tagShare
  | commitment
  | decommitment
  deriving DecidableEq, Repr

/-- What a message of each type carries. -/
@[reducible] def MsgKind.Payload : MsgKind → Type
  | .tagShare => TagShare
  | .commitment => Bytes
  | .decommitment => Decommitment

/-- A message read as the type expected: its content, when it is of that type. -/
def TagMsg.read : TagMsg → (k : MsgKind) → Option k.Payload
  | .tagShare s, .tagShare => some s
  | .commitment c, .commitment => some c
  | .decommitment d, .decommitment => some d
  | _, _ => none

/-- The calls of `tag.rs` on the party's stream cipher (`share_keystream_block`), its hasher
(`finalize`) and its channel to the other party (`send`, `expect_next`). -/
inductive TagCall
  | shareKeystreamBlock (explicitNonce : Bytes) (ctr : ℕ)
  | finalize (input : Bytes)
  | send (msg : TagMsg)
  | expectNext (kind : MsgKind)

/-- What each call returns: bytes or the stream cipher's error, bytes or the hasher's, and for the
channel nothing or a message of the type expected, or the text of an `std::io::Error`. -/
def TagCall.Answer : TagCall → Type
  | .shareKeystreamBlock _ _ => Except StreamCipher.StreamCipherError Bytes
  | .finalize _ => Except UniversalHashError Bytes
  | .send _ => Except String Unit
  | .expectNext k => Except String k.Payload

/-- A program of a party of `tag.rs`: it asks its stream cipher, its hasher and its channel, and
returns early with an `AesGcmError` at each `?`. -/
abbrev TagProg (α : Type) := ExceptT AesGcmError (Prog TagCall TagCall.Answer) α

/-- The text of a `StreamCipherError` (its `Display`): its kind, then the reason it boxes. -/
def streamCipherErrorText (e : StreamCipher.StreamCipherError) : String :=
  (match e.kind with
    | .vm => "vm error"
    | .key => "key error"
    | .iv => "iv error"
    | .explicitNonce => "explicit nonce error") ++ " caused by: " ++ e.reason

/-- `From<std::io::Error> for AesGcmError`. -/
def AesGcmError.ofIo (e : String) : AesGcmError := ⟨.io, e⟩

/-- `From<StreamCipherError> for AesGcmError`. -/
def AesGcmError.ofStreamCipher (e : StreamCipher.StreamCipherError) : AesGcmError :=
  ⟨.streamCipher, streamCipherErrorText e⟩

/-- `From<UniversalHashError> for AesGcmError`. -/
def AesGcmError.ofGhash (e : UniversalHashError) : AesGcmError := ⟨.ghash, e.text⟩

/-- `AesGcmError::invalid_tag`: the kind `Tag` and no source. -/
def AesGcmError.invalidTag : AesGcmError := ⟨.tag, ""⟩

/-- `AesGcmError::peer`. -/
def AesGcmError.peer (reason : String) : AesGcmError := ⟨.peerMisbehaved, reason⟩

namespace TagProg

/-- `aes_ctr.share_keystream_block(explicit_nonce, ctr).map_err(AesGcmError::from)`. -/
def shareKeystreamBlock (explicitNonce : Bytes) (ctr : ℕ) : TagProg Bytes :=
  ExceptT.mk (Except.mapError AesGcmError.ofStreamCipher <$>
    query (TagCall.shareKeystreamBlock explicitNonce ctr))

/-- `hasher.finalize(input).map_err(AesGcmError::from)`. -/
def finalize (input : Bytes) : TagProg Bytes :=
  ExceptT.mk (Except.mapError AesGcmError.ofGhash <$> query (TagCall.finalize input))

/-- `io.send(msg).await?`. -/
def send (msg : TagMsg) : TagProg Unit :=
  ExceptT.mk (Except.mapError AesGcmError.ofIo <$> query (TagCall.send msg))

/-- `io.expect_next().await?`. -/
def expectNext (kind : MsgKind) : TagProg kind.Payload :=
  ExceptT.mk (Except.mapError AesGcmError.ofIo <$> query (TagCall.expectNext kind))

/-- A value, or a panic. -/
def ofOption {α : Type} (o : Option α) : TagProg α := ExceptT.lift (Prog.ofOption o)

end TagProg

/-- `compute_tag_share`: the data for GHASH is built first (the argument of `finalize`), then the
two futures of `try_join!` are run one after the other, the keystream block of counter 1 first. -/
def computeTagShare (overflowChecks : Bool) (explicitNonce ciphertext aad : Bytes) :
    TagProg TagShare := do
  let data ← TagProg.ofOption (buildGhashData overflowChecks aad ciphertext)
  let j0 ← TagProg.shareKeystreamBlock explicitNonce 1
  let hash ← TagProg.finalize data
  TagProg.ofOption (tagShareOf j0 hash)

/-- `compute_tag`: send the share, receive the other party's, and add them. -/
def computeTag (overflowChecks : Bool) (explicitNonce ciphertext aad : Bytes) :
    TagProg (Vector UInt8 tagLen) := do
  let tagShare ← computeTagShare overflowChecks explicitNonce ciphertext aad
  TagProg.send (.tagShare tagShare)
  let otherTagShare : TagShare ← TagProg.expectNext .tagShare
  pure (addShares tagShare otherTagShare)

/-- The `Role::Leader` arm of `verify_tag`: commit to the share, receive the follower's, then send
the decommitment. -/
def exchangeLeader (commit : Bytes → TagShare → Bytes) (nonce : Bytes) (tagShare : TagShare) :
    TagProg (Vector UInt8 tagLen) := do
  let (tagShareDecommitment, tagShareCommitment) := hashCommit commit nonce tagShare
  TagProg.send (.commitment tagShareCommitment)
  let followerTagShare : TagShare ← TagProg.expectNext .tagShare
  TagProg.send (.decommitment tagShareDecommitment)
  pure (addShares tagShare followerTagShare)

/-- The `Role::Follower` arm of `verify_tag`: receive the leader's commitment, send the share,
receive the decommitment and check it against the commitment. -/
def exchangeFollower (commit : Bytes → TagShare → Bytes) (tagShare : TagShare) :
    TagProg (Vector UInt8 tagLen) := do
  let commitment : Bytes ← TagProg.expectNext .commitment
  TagProg.send (.tagShare tagShare)
  let decommitment : Decommitment ← TagProg.expectNext .decommitment
  if !decommitment.verify commit commitment then
    throw (AesGcmError.peer "leader tag share commitment verification failed")
  pure (addShares tagShare decommitment.data)

/-- `verify_tag`, the leader with the nonce of its commitment. -/
def verifyTag (commit : Bytes → TagShare → Bytes) (nonce : Bytes) (overflowChecks : Bool)
    (role : Role) (explicitNonce ciphertext aad : Bytes) (purportedTag : Vector UInt8 tagLen) :
    TagProg Unit := do
  let tagShare ← computeTagShare overflowChecks explicitNonce ciphertext aad
  let tag ← match role with
    | .leader => exchangeLeader commit nonce tagShare
    | .follower => exchangeFollower commit tagShare
  -- reject if tag is incorrect
  if tag ≠ purportedTag then throw AesGcmError.invalidTag
  pure ()

/-! ### Shares of the tag -/

theorem xorBytes_comm (a b : Bytes) : xorBytes a b = xorBytes b a := by
  apply List.ext_getElem (by simp only [xorBytes, List.length_zipWith]; omega)
  intro i h₁ h₂
  simp only [xorBytes, List.getElem_zipWith]
  exact UInt8.xor_comm _ _

/-- The XOR of two XORs, regrouped. -/
theorem xorBytes_xorBytes_comm (a b c d : Bytes) :
    xorBytes (xorBytes a b) (xorBytes c d) = xorBytes (xorBytes a c) (xorBytes b d) := by
  apply List.ext_getElem (by simp only [xorBytes, List.length_zipWith]; omega)
  intro i h₁ h₂
  have hregroup : ∀ x y z w : UInt8, x ^^^ y ^^^ (z ^^^ w) = x ^^^ z ^^^ (y ^^^ w) := by
    intro x y z w
    rw [UInt8.xor_assoc, UInt8.xor_assoc, ← UInt8.xor_assoc y, UInt8.xor_comm y z,
      UInt8.xor_assoc z]
  simp only [xorBytes, List.getElem_zipWith]
  exact hregroup _ _ _ _

theorem toList_addShares (a b : TagShare) : (addShares a b).toList = xorBytes a.toList b.toList := by
  apply List.ext_getElem (by simp [addShares, xorBytes])
  intro i h₁ h₂
  simp [addShares, xorBytes]

theorem addShares_comm (a b : TagShare) : addShares a b = addShares b a := by
  apply Vector.toList_inj.1
  rw [toList_addShares, toList_addShares, xorBytes_comm]

/-- Two strings of the tag's length give a share, their XOR. -/
theorem tagShareOf_of_length {j0 hash : Bytes} (hj : j0.length = tagLen)
    (hh : hash.length = tagLen) : ∃ s, tagShareOf j0 hash = some s ∧ s.toList = xorBytes j0 hash := by
  refine ⟨_, dif_pos ⟨hj.ge, hh.ge⟩, ?_⟩
  apply List.ext_getElem (by simp [xorBytes, hj, hh])
  intro i h₁ h₂
  simp [xorBytes]

/-! ### The two parties in lockstep -/

/-- What the calls of the two parties act on: their hashers (the leader's first), the count of
values their converter converted, and the messages each has sent that the other has not read. -/
structure TagEnv (F : Type) where
  hasherL : Ghash F
  hasherF : Ghash F
  used : ℕ
  toFollower : List TagMsg
  toLeader : List TagMsg

/-- The first message of a queue read as the type expected, and the rest of the queue. -/
def receive : List TagMsg → (k : MsgKind) → Option (k.Payload × List TagMsg)
  | [], _ => none
  | m :: rest, k => (m.read k).map fun x => (x, rest)

/-- The counter block of AES-CTR: the implicit IV, the explicit nonce and the counter as a
big-endian `u32` (`(ctr as u32).to_be_bytes()`). -/
def ctrBlock (iv explicitNonce : Bytes) (ctr : ℕ) : Block :=
  blockOfBytes (iv ++ explicitNonce ++ encodeU32 (UInt32.ofNat ctr))

theorem ctrBlock_one (iv explicitNonce : Bytes) : ctrBlock iv explicitNonce 1 = j0Block iv explicitNonce :=
  rfl

/-! ### Sessions of tags -/

/-- A tag operation of the two parties on one record: `compute_tag`, or `verify_tag` of a purported
tag, with the nonce of the leader's commitment. -/
inductive TagOp
  | compute (explicitNonce ciphertext aad : Bytes)
  | verify (explicitNonce ciphertext aad : Bytes) (purportedTag : Vector UInt8 tagLen)
      (nonce : Bytes)

/-- What an operation returns to a party: a tag, nothing, or an error. -/
abbrev TagReply := Except AesGcmError (Option (Vector UInt8 tagLen))

/-- The leader's program for an operation. -/
def TagOp.leader (commit : Bytes → TagShare → Bytes) (overflowChecks : Bool) :
    TagOp → TagProg (Option (Vector UInt8 tagLen))
  | .compute explicitNonce ciphertext aad =>
    some <$> computeTag overflowChecks explicitNonce ciphertext aad
  | .verify explicitNonce ciphertext aad purportedTag nonce =>
    (fun _ => none) <$>
      verifyTag commit nonce overflowChecks .leader explicitNonce ciphertext aad purportedTag

/-- The follower's program for an operation; it draws no nonce. -/
def TagOp.follower (commit : Bytes → TagShare → Bytes) (overflowChecks : Bool) :
    TagOp → TagProg (Option (Vector UInt8 tagLen))
  | .compute explicitNonce ciphertext aad =>
    some <$> computeTag overflowChecks explicitNonce ciphertext aad
  | .verify explicitNonce ciphertext aad purportedTag _ =>
    (fun _ => none) <$>
      verifyTag commit [] overflowChecks .follower explicitNonce ciphertext aad purportedTag

/-- The blocks of the data an operation hashes. -/
def TagOp.dataBlocks : TagOp → ℕ
  | .compute _ ciphertext aad => blockCount aad + blockCount ciphertext + 1
  | .verify _ ciphertext aad _ _ => blockCount aad + blockCount ciphertext + 1

/-- The records an operation is given fit: their lengths in bits fit in a `u64`, and the data
to hash in the hashers' `max_block_count`. -/
def TagOp.Fits (config : GhashConfig) : TagOp → Prop
  | .compute _ ciphertext aad =>
    aad.length < 2 ^ 61 ∧ ciphertext.length < 2 ^ 61 ∧
      blockCount aad + blockCount ciphertext + 1 ≤ config.maxBlockCount
  | .verify _ ciphertext aad _ _ =>
    aad.length < 2 ^ 61 ∧ ciphertext.length < 2 ^ 61 ∧
      blockCount aad + blockCount ciphertext + 1 ≤ config.maxBlockCount

instance (config : GhashConfig) : DecidablePred (TagOp.Fits config)
  | .compute _ ciphertext aad =>
    inferInstanceAs (Decidable (aad.length < 2 ^ 61 ∧ ciphertext.length < 2 ^ 61 ∧
      blockCount aad + blockCount ciphertext + 1 ≤ config.maxBlockCount))
  | .verify _ ciphertext aad _ _ =>
    inferInstanceAs (Decidable (aad.length < 2 ^ 61 ∧ ciphertext.length < 2 ^ 61 ∧
      blockCount aad + blockCount ciphertext + 1 ≤ config.maxBlockCount))

section Joint

variable {F : Type} [CommRing F]

/-- The services of the two parties, answering their calls together: the keystream shares `ks`
of each block, the two hashers run in lockstep with the converter `conv`, and the channel, where a
message sent is queued and a message expected is the first of the queue. Two calls that do not
meet in a run of `tag.rs` get the run stuck, as do a message of the wrong type and a wait on an
empty queue. -/
def tagJoint (conv : Converter F) (codec : ByteCodec F) (ks : Bytes → ℕ → Bytes × Bytes)
    (env : TagEnv F) : (q q' : TagCall) → Option (q.Answer × q'.Answer × TagEnv F)
  | .shareKeystreamBlock n c, .shareKeystreamBlock n' c' =>
    some (.ok (ks n c).1, .ok (ks n' c').2, env)
  | .finalize d, .finalize d' =>
    (lockstep (convJoint conv) env.used (env.hasherL.finalize codec d)
      (env.hasherF.finalize codec d')).map fun x =>
        (x.1.1, x.2.1.1, { env with hasherL := x.1.2, hasherF := x.2.1.2, used := x.2.2 })
  | .send m, .send m' =>
    some (.ok (), .ok (),
      { env with toFollower := env.toFollower ++ [m], toLeader := env.toLeader ++ [m'] })
  | .send m, .expectNext k =>
    (receive (env.toFollower ++ [m]) k).map fun x => (.ok (), .ok x.1, { env with toFollower := x.2 })
  | .expectNext k, .send m' =>
    (receive (env.toLeader ++ [m']) k).map fun x => (.ok x.1, .ok (), { env with toLeader := x.2 })
  | .expectNext k, .expectNext k' =>
    match receive env.toLeader k, receive env.toFollower k' with
    | some (x, restL), some (y, restF) =>
      some (.ok x, .ok y, { env with toLeader := restL, toFollower := restF })
    | _, _ => none
  | _, _ => none

/-- The two parties' run of operations in lockstep: the replies of both to each, and what their
calls act on at the end; `none` when the run gets stuck or panics. -/
def tagRun (conv : Converter F) (codec : ByteCodec F) (ks : Bytes → ℕ → Bytes × Bytes)
    (commit : Bytes → TagShare → Bytes) (overflowChecks : Bool) :
    TagEnv F → List TagOp → Option (List (TagReply × TagReply) × TagEnv F)
  | env, [] => some ([], env)
  | env, op :: ops =>
    match lockstep (tagJoint conv codec ks) env (op.leader commit overflowChecks).run
      (op.follower commit overflowChecks).run with
    | some (rL, rF, env') =>
      (tagRun conv codec ks commit overflowChecks env' ops).map fun x => ((rL, rF) :: x.1, x.2)
    | none => none

/-- The replies of AES-GCM under the hash key `H`: to `compute_tag` the same tag to both parties,
GCM's; to `verify_tag` the same verdict to both, to accept the purported tag exactly when it is
GCM's tag, and to reject it as `invalid_tag` otherwise. -/
def TagOp.Replies (codec : BlockCodec F) (H : F) (cipher : Block → Block) (iv : Bytes) :
    TagOp → TagReply × TagReply → Prop
  | .compute explicitNonce ciphertext aad, r =>
    ∃ tag, r = (.ok (some tag), .ok (some tag)) ∧
      tag.toList = gcmTag codec H cipher iv explicitNonce aad ciphertext
  | .verify explicitNonce ciphertext aad purportedTag _, r =>
    r = (if purportedTag.toList = gcmTag codec H cipher iv explicitNonce aad ciphertext then
        .ok none else .error .invalidTag,
      if purportedTag.toList = gcmTag codec H cipher iv explicitNonce aad ciphertext then
        .ok none else .error .invalidTag)

theorem tagRun_cons {conv : Converter F} {codec : ByteCodec F} {ks : Bytes → ℕ → Bytes × Bytes}
    {commit : Bytes → TagShare → Bytes} {overflowChecks : Bool} {env env' : TagEnv F}
    {op : TagOp} {rL rF : TagReply}
    (h : lockstep (tagJoint conv codec ks) env (op.leader commit overflowChecks).run
      (op.follower commit overflowChecks).run = some (rL, rF, env')) (ops : List TagOp) :
    tagRun conv codec ks commit overflowChecks env (op :: ops) =
      (tagRun conv codec ks commit overflowChecks env' ops).map fun x => ((rL, rF) :: x.1, x.2) := by
  simp only [tagRun, h]

/-- The ideal keystream shares: for every explicit nonce and counter, two strings of 16 bytes that
XOR to the keystream block `E_K(iv ‖ explicit nonce ‖ ctr)`. -/
structure KeystreamShares (cipher : Block → Block) (iv : Bytes) (ks : Bytes → ℕ → Bytes × Bytes) :
    Prop where
  length_fst : ∀ n c, (ks n c).1.length = tagLen
  length_snd : ∀ n c, (ks n c).2.length = tagLen
  xor_eq : ∀ n c, xorBytes (ks n c).1 (ks n c).2 = blockToBytes (cipher (ctrBlock iv n c))

variable {conv : Converter F} {codec : ByteCodec F} {ks : Bytes → ℕ → Bytes × Bytes}

theorem lockstep_ofOption_some (env : TagEnv F) {α : Type} (a : α) :
    lockstep (tagJoint conv codec ks) env (TagProg.ofOption (some a)).run
      (TagProg.ofOption (some a)).run = some (.ok a, .ok a, env) :=
  rfl

theorem lockstep_shareKeystreamBlock (env : TagEnv F) (n : Bytes) (c : ℕ) :
    lockstep (tagJoint conv codec ks) env (TagProg.shareKeystreamBlock n c).run
      (TagProg.shareKeystreamBlock n c).run = some (.ok (ks n c).1, .ok (ks n c).2, env) :=
  lockstep_map_query _ _

/-- Both parties' `finalize` is their hashers' in lockstep, its errors mapped. -/
theorem lockstep_finalize {env : TagEnv F} {d : Bytes} {rL rF : Except UniversalHashError Bytes}
    {gL gF : Ghash F} {used : ℕ}
    (h : lockstep (convJoint conv) env.used (env.hasherL.finalize codec d)
      (env.hasherF.finalize codec d) = some ((rL, gL), (rF, gF), used)) :
    lockstep (tagJoint conv codec ks) env (TagProg.finalize d).run (TagProg.finalize d).run =
      some (rL.mapError AesGcmError.ofGhash, rF.mapError AesGcmError.ofGhash,
        { env with hasherL := gL, hasherF := gF, used := used }) := by
  refine (lockstep_map_query _ _).trans ?_
  simp only [tagJoint, h, Option.map_some]

theorem lockstep_send_send (env : TagEnv F) (m m' : TagMsg) :
    lockstep (tagJoint conv codec ks) env (TagProg.send m).run (TagProg.send m').run =
      some (.ok (), .ok (),
        { env with toFollower := env.toFollower ++ [m], toLeader := env.toLeader ++ [m'] }) :=
  lockstep_map_query _ _

theorem lockstep_send_expectNext {env : TagEnv F} {m : TagMsg} {k : MsgKind} {x : k.Payload}
    {rest : List TagMsg} (h : receive (env.toFollower ++ [m]) k = some (x, rest)) :
    lockstep (tagJoint conv codec ks) env (TagProg.send m).run (TagProg.expectNext k).run =
      some (.ok (), .ok x, { env with toFollower := rest }) := by
  refine (lockstep_map_query _ _).trans ?_
  simp only [tagJoint, h, Option.map_some]
  rfl

theorem lockstep_expectNext_send {env : TagEnv F} {m' : TagMsg} {k : MsgKind} {x : k.Payload}
    {rest : List TagMsg} (h : receive (env.toLeader ++ [m']) k = some (x, rest)) :
    lockstep (tagJoint conv codec ks) env (TagProg.expectNext k).run (TagProg.send m').run =
      some (.ok x, .ok (), { env with toLeader := rest }) := by
  refine (lockstep_map_query _ _).trans ?_
  simp only [tagJoint, h, Option.map_some]
  rfl

theorem lockstep_expectNext_expectNext {env : TagEnv F} {k k' : MsgKind} {x : k.Payload}
    {y : k'.Payload} {restL restF : List TagMsg} (hL : receive env.toLeader k = some (x, restL))
    (hF : receive env.toFollower k' = some (y, restF)) :
    lockstep (tagJoint conv codec ks) env (TagProg.expectNext k).run (TagProg.expectNext k').run =
      some (.ok x, .ok y, { env with toLeader := restL, toFollower := restF }) := by
  refine (lockstep_map_query _ _).trans ?_
  simp only [tagJoint, hL, hF]
  rfl

/-- The exchange of `verify_tag` over an empty channel: the leader commits to its share, receives
the follower's and opens its commitment, which the follower checks; both get the sum of the two
shares, and the channel is empty again. -/
theorem lockstep_exchange (commit : Bytes → TagShare → Bytes) (nonce : Bytes) {env : TagEnv F}
    (hqF : env.toFollower = []) (hqL : env.toLeader = []) (sL sF : TagShare) :
    lockstep (tagJoint conv codec ks) env (exchangeLeader commit nonce sL).run
        (exchangeFollower commit sF).run =
      some (.ok (addShares sL sF), .ok (addShares sL sF), env) := by
  obtain ⟨gL, gF, used, qF, qL⟩ := env
  obtain rfl : qF = [] := hqF
  obtain rfl : qL = [] := hqL
  -- each message is received by the other party as the type it expects
  have h₁ : receive ([] ++ [.commitment (commit nonce sL)]) .commitment =
      some (commit nonce sL, []) := rfl
  have h₂ : receive ([] ++ [.tagShare sF]) .tagShare = some (sF, []) := rfl
  have h₃ : receive ([] ++ [.decommitment ⟨nonce, sL⟩]) .decommitment = some (⟨nonce, sL⟩, []) :=
    rfl
  -- the opening the follower receives is that of the commitment it received
  have hverify : Decommitment.verify commit ⟨nonce, sL⟩ (commit nonce sL) = true := decide_eq_true rfl
  unfold exchangeLeader exchangeFollower
  dsimp only [hashCommit]
  rw [lockstep_bind_ok (lockstep_send_expectNext h₁),
    lockstep_bind_ok (lockstep_expectNext_send h₂),
    lockstep_bind_ok (lockstep_send_expectNext h₃)]
  simp only [hverify, Bool.not_true, addShares_comm sF sL]
  rfl

variable [CharP F 2]

/-- **The shares of the tag.** With hashers keyed with multiplicative shares `h₁`, `h₂` of the
hash key, ideal keystream shares and a correct converter, `compute_tag_share` run by the two
parties gives two shares that XOR to the GCM tag under `h₁ h₂`, and leaves the hashers keyed and
the channel as it was. -/
theorem lockstep_computeTagShare (hconv : conv.Correct) (hcodec : codec.XorLinear)
    {cipher : Block → Block} {iv : Bytes} (hks : KeystreamShares cipher iv ks) {h₁ h₂ : F}
    {config : GhashConfig} {env : TagEnv F} {M : ℕ}
    (hk : Keyed h₁ h₂ config env.hasherL env.hasherF M env.used) (overflowChecks : Bool)
    (explicitNonce : Bytes) {ciphertext aad : Bytes} (haad : aad.length < 2 ^ 61)
    (hct : ciphertext.length < 2 ^ 61)
    (hin : blockCount aad + blockCount ciphertext + 1 ≤ config.maxBlockCount) :
    ∃ sL sF env',
      lockstep (tagJoint conv codec ks) env
        (computeTagShare overflowChecks explicitNonce ciphertext aad).run
        (computeTagShare overflowChecks explicitNonce ciphertext aad).run =
        some (.ok sL, .ok sF, env') ∧
      xorBytes sL.toList sF.toList =
        gcmTag codec.toBlockCodec (h₁ * h₂) cipher iv explicitNonce aad ciphertext ∧
      Keyed h₁ h₂ config env'.hasherL env'.hasherF
        (max M (blockCount aad + blockCount ciphertext + 1)) env'.used ∧
      env'.toFollower = env.toFollower ∧ env'.toLeader = env.toLeader := by
  obtain ⟨data, hdata, hblocks, hcount⟩ := specBlocks_buildGhashData overflowChecks haad hct
  obtain ⟨tL, tF, gL, gF, used, hfin, hxor, hlL, hlF, hk'⟩ :=
    hk.lockstep_finalize hconv hcodec (hcount ▸ hin)
  obtain ⟨sL, hsL, hsLl⟩ := tagShareOf_of_length (hks.length_fst explicitNonce 1) hlL
  obtain ⟨sF, hsF, hsFl⟩ := tagShareOf_of_length (hks.length_snd explicitNonce 1) hlF
  refine ⟨sL, sF, { env with hasherL := gL, hasherF := gF, used := used }, ?_, ?_,
    hcount ▸ hk', rfl, rfl⟩
  · unfold computeTagShare
    rw [hdata, lockstep_bind_ok (lockstep_ofOption_some env data),
      lockstep_bind_ok (lockstep_shareKeystreamBlock env explicitNonce 1),
      lockstep_bind_ok (lockstep_finalize hfin), hsL, hsF]
    rfl
  · -- the keystream shares add up to `E_K(J0)`, the hashes to GHASH of the data
    rw [hsLl, hsFl, xorBytes_xorBytes_comm, hks.xor_eq, hxor, ghashPadded, hblocks,
      ← blockToBytes_xor, ctrBlock_one]
    rfl

/-- **`compute_tag`.** Two parties whose hashers are keyed with multiplicative shares `h₁`, `h₂` of
the hash key, with ideal keystream shares, a correct converter and an empty channel, compute the
tag of a ciphertext together without getting stuck or panicking, when the data to hash is within
the hashers' `max_block_count`: both get the same tag, the GCM tag under `h₁ h₂`, and their hashers
stay keyed and the channel empty. -/
theorem lockstep_computeTag (hconv : conv.Correct) (hcodec : codec.XorLinear)
    {cipher : Block → Block} {iv : Bytes} (hks : KeystreamShares cipher iv ks) {h₁ h₂ : F}
    {config : GhashConfig} {env : TagEnv F} {M : ℕ}
    (hk : Keyed h₁ h₂ config env.hasherL env.hasherF M env.used)
    (hqF : env.toFollower = []) (hqL : env.toLeader = []) (overflowChecks : Bool)
    (explicitNonce : Bytes) {ciphertext aad : Bytes} (haad : aad.length < 2 ^ 61)
    (hct : ciphertext.length < 2 ^ 61)
    (hin : blockCount aad + blockCount ciphertext + 1 ≤ config.maxBlockCount) :
    ∃ tag env',
      lockstep (tagJoint conv codec ks) env
        (computeTag overflowChecks explicitNonce ciphertext aad).run
        (computeTag overflowChecks explicitNonce ciphertext aad).run =
        some (.ok tag, .ok tag, env') ∧
      tag.toList = gcmTag codec.toBlockCodec (h₁ * h₂) cipher iv explicitNonce aad ciphertext ∧
      Keyed h₁ h₂ config env'.hasherL env'.hasherF
        (max M (blockCount aad + blockCount ciphertext + 1)) env'.used ∧
      env'.toFollower = [] ∧ env'.toLeader = [] := by
  obtain ⟨sL, sF, env₁, hshare, hxor, hk₁, hqF₁, hqL₁⟩ :=
    lockstep_computeTagShare hconv hcodec hks hk overflowChecks explicitNonce haad hct hin
  -- each party receives the share the other sent
  have hL : receive (env₁.toLeader ++ [.tagShare sF]) .tagShare = some (sF, []) := by
    rw [hqL₁, hqL]
    rfl
  have hF : receive (env₁.toFollower ++ [.tagShare sL]) .tagShare = some (sL, []) := by
    rw [hqF₁, hqF]
    rfl
  refine ⟨addShares sL sF, { env₁ with toLeader := [], toFollower := [] }, ?_, ?_, hk₁, rfl, rfl⟩
  · unfold computeTag
    rw [lockstep_bind_ok hshare, lockstep_bind_ok (lockstep_send_send _ _ _),
      lockstep_bind_ok (lockstep_expectNext_expectNext hL hF), addShares_comm sF sL]
    rfl
  · rw [toList_addShares, hxor]

/-- **`verify_tag`.** Two parties as in `lockstep_computeTag`, the leader in the role of leader and
the follower in that of follower, verifying the same purported tag: both accept it when it is the
GCM tag of the ciphertext under `h₁ h₂`, and both reject it as `invalid_tag` otherwise, whatever
the commitment's hash and the leader's nonce; their hashers stay keyed and the channel empty. -/
theorem lockstep_verifyTag (hconv : conv.Correct) (hcodec : codec.XorLinear)
    {cipher : Block → Block} {iv : Bytes} (hks : KeystreamShares cipher iv ks) {h₁ h₂ : F}
    {config : GhashConfig} {env : TagEnv F} {M : ℕ}
    (hk : Keyed h₁ h₂ config env.hasherL env.hasherF M env.used)
    (hqF : env.toFollower = []) (hqL : env.toLeader = []) (commit : Bytes → TagShare → Bytes)
    (nonce : Bytes) (overflowChecks : Bool) (explicitNonce : Bytes) {ciphertext aad : Bytes}
    (haad : aad.length < 2 ^ 61) (hct : ciphertext.length < 2 ^ 61)
    (hin : blockCount aad + blockCount ciphertext + 1 ≤ config.maxBlockCount)
    (purportedTag : Vector UInt8 tagLen) :
    ∃ env',
      lockstep (tagJoint conv codec ks) env
        (verifyTag commit nonce overflowChecks .leader explicitNonce ciphertext aad
          purportedTag).run
        (verifyTag commit nonce overflowChecks .follower explicitNonce ciphertext aad
          purportedTag).run =
        some ((if purportedTag.toList =
            gcmTag codec.toBlockCodec (h₁ * h₂) cipher iv explicitNonce aad ciphertext then .ok ()
            else .error .invalidTag),
          (if purportedTag.toList =
            gcmTag codec.toBlockCodec (h₁ * h₂) cipher iv explicitNonce aad ciphertext then .ok ()
            else .error .invalidTag), env') ∧
      Keyed h₁ h₂ config env'.hasherL env'.hasherF
        (max M (blockCount aad + blockCount ciphertext + 1)) env'.used ∧
      env'.toFollower = [] ∧ env'.toLeader = [] := by
  obtain ⟨sL, sF, env₁, hshare, hxor, hk₁, hqF₁, hqL₁⟩ :=
    lockstep_computeTagShare hconv hcodec hks hk overflowChecks explicitNonce haad hct hin
  refine ⟨env₁, ?_, hk₁, hqF₁.trans hqF, hqL₁.trans hqL⟩
  unfold verifyTag
  rw [lockstep_bind_ok hshare]
  dsimp only
  rw [lockstep_bind_ok (lockstep_exchange commit nonce (hqF₁.trans hqF) (hqL₁.trans hqL) sL sF)]
  -- the sum of the shares is the purported tag exactly when their bytes are the GCM tag's
  have htag : addShares sL sF = purportedTag ↔
      purportedTag.toList = gcmTag codec.toBlockCodec (h₁ * h₂) cipher iv explicitNonce aad
        ciphertext := by
    rw [← hxor, ← toList_addShares, Vector.toList_inj, eq_comm]
  by_cases h : addShares sL sF = purportedTag
  · simp only [h, ne_eq, not_true_eq_false, if_false, if_pos (htag.1 h)]
    rfl
  · simp only [h, ne_eq, not_false_eq_true, if_true, if_neg (mt htag.2 h)]
    rfl

/-- One operation of a session: the replies of AES-GCM, and the hashers kept keyed. -/
theorem lockstep_op (hconv : conv.Correct) (hcodec : codec.XorLinear)
    {cipher : Block → Block} {iv : Bytes} (hks : KeystreamShares cipher iv ks) {h₁ h₂ : F}
    {config : GhashConfig} {env : TagEnv F} {M : ℕ}
    (hk : Keyed h₁ h₂ config env.hasherL env.hasherF M env.used)
    (hqF : env.toFollower = []) (hqL : env.toLeader = []) (commit : Bytes → TagShare → Bytes)
    (overflowChecks : Bool) {op : TagOp} (hop : op.Fits config) :
    ∃ rL rF env',
      lockstep (tagJoint conv codec ks) env (op.leader commit overflowChecks).run
        (op.follower commit overflowChecks).run = some (rL, rF, env') ∧
      op.Replies codec.toBlockCodec (h₁ * h₂) cipher iv (rL, rF) ∧
      Keyed h₁ h₂ config env'.hasherL env'.hasherF (max M op.dataBlocks) env'.used ∧
      env'.toFollower = [] ∧ env'.toLeader = [] := by
  cases op with
  | compute explicitNonce ciphertext aad =>
    obtain ⟨haad, hct, hin⟩ := hop
    obtain ⟨tag, env', hrun, htag, hk', hqF', hqL'⟩ :=
      lockstep_computeTag hconv hcodec hks hk hqF hqL overflowChecks explicitNonce haad hct hin
    refine ⟨_, _, env', ?_, ⟨tag, rfl, htag⟩, hk', hqF', hqL'⟩
    simp only [TagOp.leader, TagOp.follower, ExceptT.run_map]
    exact lockstep_map hrun _ _
  | verify explicitNonce ciphertext aad purportedTag nonce =>
    obtain ⟨haad, hct, hin⟩ := hop
    obtain ⟨env', hrun, hk', hqF', hqL'⟩ := lockstep_verifyTag hconv hcodec hks hk hqF hqL commit
      nonce overflowChecks explicitNonce haad hct hin purportedTag
    -- the follower draws no nonce: its program is the same with the leader's
    have hfollower : verifyTag commit [] overflowChecks .follower explicitNonce ciphertext aad
        purportedTag = verifyTag commit nonce overflowChecks .follower explicitNonce ciphertext aad
        purportedTag := rfl
    set verdict : Except AesGcmError Unit := if purportedTag.toList =
      gcmTag codec.toBlockCodec (h₁ * h₂) cipher iv explicitNonce aad ciphertext then .ok ()
      else .error .invalidTag with hverdict
    refine ⟨verdict.map fun _ => none, verdict.map fun _ => none, env', ?_, ?_, hk', hqF', hqL'⟩
    · simp only [TagOp.leader, TagOp.follower, ExceptT.run_map, hfollower]
      exact lockstep_map hrun _ _
    · simp only [TagOp.Replies, hverdict]
      split_ifs <;> rfl

/-- **Sessions of tags.** From hashers keyed with `h₁`, `h₂` and an empty channel, every sequence of
operations on records that fit runs in lockstep without getting stuck or panicking, with the
replies of AES-GCM under `h₁ h₂` to each, and leaves the hashers keyed and the channel empty. -/
theorem Keyed.tagRun (hconv : conv.Correct) (hcodec : codec.XorLinear) {cipher : Block → Block}
    {iv : Bytes} (hks : KeystreamShares cipher iv ks) {h₁ h₂ : F} {config : GhashConfig}
    (commit : Bytes → TagShare → Bytes) (overflowChecks : Bool) (ops : List TagOp)
    (hops : ∀ op ∈ ops, op.Fits config) :
    ∀ (env : TagEnv F) {M : ℕ}, Keyed h₁ h₂ config env.hasherL env.hasherF M env.used →
      env.toFollower = [] → env.toLeader = [] →
      ∃ replies env', tagRun conv codec ks commit overflowChecks env ops = some (replies, env') ∧
        List.Forall₂ (TagOp.Replies codec.toBlockCodec (h₁ * h₂) cipher iv) ops replies := by
  induction ops with
  | nil => exact fun env {M} _ _ _ => ⟨[], env, rfl, .nil⟩
  | cons op ops ih =>
    intro env M hk hqF hqL
    obtain ⟨rL, rF, env₁, hstep, hreply, hk₁, hqF₁, hqL₁⟩ := lockstep_op hconv hcodec hks hk hqF
      hqL commit overflowChecks (hops op List.mem_cons_self)
    obtain ⟨replies, env', hrun, hreplies⟩ :=
      ih (fun op' hop' => hops op' (List.mem_cons_of_mem op hop')) env₁ hk₁ hqF₁ hqL₁
    refine ⟨(rL, rF) :: replies, env', ?_, .cons hreply hreplies⟩
    rw [tagRun_cons hstep, hrun]
    rfl

/-- **Tags of an MPC AES-GCM session.** Two parties that set additive shares `kA`, `kB` of the hash
key on new hashers with a correct converter, and then compute and verify in lockstep the tags of
any records that fit, with ideal keystream shares, never get stuck or panic: every `compute_tag`
gives both parties the GCM tag under `H = ofKey kA + ofKey kB`, and every `verify_tag` accepts on
both sides a purported tag that is the GCM tag and rejects any other on both sides as
`invalid_tag`, whatever the commitment's hash and the leader's nonces. -/
theorem tag_session_gcm {conv : Converter F} (hconv : conv.Correct) {codec : ByteCodec F}
    (hcodec : codec.XorLinear) {cipher : Block → Block} {iv : Bytes}
    {ks : Bytes → ℕ → Bytes × Bytes} (hks : KeystreamShares cipher iv ks) {config : GhashConfig}
    (hinit : 0 < config.initialBlockCount) {kA kB : Bytes} (hA : kA.length = 16)
    (hB : kB.length = 16) (commit : Bytes → TagShare → Bytes) (overflowChecks : Bool)
    (ops : List TagOp) (hops : ∀ op ∈ ops, op.Fits config) :
    ∃ gA gB used replies env,
      lockstep (convJoint conv) 0 ((Ghash.new config).setKey codec kA)
        ((Ghash.new config).setKey codec kB) = some ((.ok (), gA), (.ok (), gB), used) ∧
      tagRun conv codec ks commit overflowChecks ⟨gA, gB, used, [], []⟩ ops =
        some (replies, env) ∧
      List.Forall₂ (TagOp.Replies codec.toBlockCodec (codec.ofKey kA + codec.ofKey kB) cipher iv)
        ops replies := by
  obtain ⟨h₁, h₂, gA, gB, used, hkey, hset, hk⟩ := lockstep_setKey_new hconv codec hinit hA hB
  obtain ⟨replies, env, hrun, hreplies⟩ :=
    Keyed.tagRun hconv hcodec hks commit overflowChecks ops hops ⟨gA, gB, used, [], []⟩ hk rfl rfl
  rw [hkey] at hreplies
  exact ⟨gA, gB, used, replies, env, hset, hrun, hreplies⟩

end Joint

/-- Keystream shares where the leader holds the whole block and the follower zeros. -/
def clearShares (cipher : Block → Block) (iv : Bytes) (explicitNonce : Bytes) (ctr : ℕ) :
    Bytes × Bytes :=
  (blockToBytes (cipher (ctrBlock iv explicitNonce ctr)), List.replicate 16 0)

theorem keystreamShares_clearShares (cipher : Block → Block) (iv : Bytes) :
    KeystreamShares cipher iv (clearShares cipher iv) where
  length_fst _ _ := length_blockToBytes _
  length_snd _ _ := List.length_replicate
  xor_eq n c := by
    apply List.ext_getElem (by simp [clearShares, xorBytes])
    intro i h₁ h₂
    simp only [clearShares, xorBytes, List.getElem_zipWith, List.getElem_replicate,
      UInt8.xor_zero]

/-- A session of the ideal converter over `GF(2)` with key shares `0…0` and `0…01`, computing the tag
of a three-byte record and verifying a tag of zeros for it. -/
theorem tag_session_gcm_ideal :
    (Converter.ideal : Converter (ZMod 2)).Correct ∧ lsbCodec.XorLinear ∧
    KeystreamShares id [0, 0, 0, 0] (clearShares id [0, 0, 0, 0]) ∧
    0 < (⟨1, 3⟩ : GhashConfig).initialBlockCount ∧ (List.replicate 16 (0 : UInt8)).length = 16 ∧
    (List.replicate 15 (0 : UInt8) ++ [1]).length = 16 ∧
    (∀ op ∈ [TagOp.compute (List.replicate 8 0) [1, 2, 3] [],
      .verify (List.replicate 8 0) [1, 2, 3] [] (Vector.replicate tagLen 0) [7]],
      op.Fits ⟨1, 3⟩) ∧
    ∃ gA gB used replies env,
      lockstep (convJoint Converter.ideal) 0 ((Ghash.new ⟨1, 3⟩).setKey lsbCodec
          (List.replicate 16 0))
        ((Ghash.new ⟨1, 3⟩).setKey lsbCodec (List.replicate 15 0 ++ [1])) =
        some ((.ok (), gA), (.ok (), gB), used) ∧
      tagRun Converter.ideal lsbCodec (clearShares id [0, 0, 0, 0]) (fun _ _ => []) false
          ⟨gA, gB, used, [], []⟩
          [.compute (List.replicate 8 0) [1, 2, 3] [],
            .verify (List.replicate 8 0) [1, 2, 3] [] (Vector.replicate tagLen 0) [7]] =
        some (replies, env) ∧
      List.Forall₂ (TagOp.Replies lsbCodec.toBlockCodec
          (lsbCodec.ofKey (List.replicate 16 0) + lsbCodec.ofKey (List.replicate 15 0 ++ [1])) id
          [0, 0, 0, 0])
        [.compute (List.replicate 8 0) [1, 2, 3] [],
          .verify (List.replicate 8 0) [1, 2, 3] [] (Vector.replicate tagLen 0) [7]] replies :=
  ⟨Converter.ideal_correct, lsbCodec_xorLinear, keystreamShares_clearShares id _, by decide, rfl,
    rfl, by decide,
    tag_session_gcm Converter.ideal_correct lsbCodec_xorLinear (keystreamShares_clearShares id _)
      (by decide) rfl rfl (fun _ _ => []) false _ (by decide)⟩

/-! ### One party against any services -/

section Party

variable {σ : Type} {service : σ → (q : TagCall) → q.Answer × σ} {s s' : σ}

theorem mapError_eq_ok {ε ε' α : Type} {g : ε' → ε} {r : Except ε' α} {a : α} :
    r.mapError g = .ok a ↔ r = .ok a := by
  cases r <;> simp [Except.mapError]

end Party

end Tlsn.Aead
