import Tlsn.Core.Transcript
import Tlsn.Lib.AssocMap
import Tlsn.Lib.Outcome

/-!
# Transcript commitments (`tlsn-core/src/commitment`, `tlsn-core/src/merkle.rs`)

The prover commits to the active encodings of substrings of the transcripts; the hash of each
commitment is a leaf of a Merkle tree, and the notary signs the root.

* `Primitives`: BLAKE3, the garbled-circuit encoder and `rs_merkle`, which live outside the
  repository, as functions;
* `encodingId`, `CommitmentId`, `CommitmentInfo`, `Commitment`, `CommitmentOpening` and
  `Blake3Opening.recover`;
* `MerkleTree.proof` and `MerkleProof.verify`;
* `TranscriptCommitmentBuilder` with `addSubstringsCommitment`, `commit` and `build`.

The commitment's randomness (the nonce `hash_commit` draws) is an argument of
`addSubstringsCommitment`.
-/

namespace Tlsn

open RangeSet

/-- The primitives `tlsn-core` takes from other crates, over the types of an encoder seed `S`,
a full and an active byte encoding `F` and `A`, a hash `H`, a commitment nonce `N`, a Merkle
root `R` and an `rs_merkle` proof `P`. -/
structure Primitives (S F A H N R P : Type) where
  /-- `mpz_core::utils::blake3`. -/
  blake3 : List UInt8 → Fin 32 → UInt8
  /-- `ChaChaEncoder::new(seed).encode_by_type(id, &ValueType::U8)`. -/
  encode : S → UInt64 → F
  /-- `EncodedValue<Full>::select(byte)`: the active encoding of a byte value. -/
  select : F → UInt8 → A
  /-- `Decommitment::new_with_nonce(encodings, nonce).commit()`. -/
  commit : List A → N → H
  /-- The root of `rs_merkle::MerkleTree::from_leaves(leaves)`. -/
  root : List H → R
  /-- `rs_merkle::MerkleTree::proof(indices)` on the tree of `leaves`. -/
  proof : List H → List ℕ → P
  /-- `rs_merkle::MerkleProof::verify(root, indices, leaf_hashes, total_leaves)`. -/
  verify : P → R → List ℕ → List H → ℕ → Bool

variable {S F A H N R P : Type}

section Encoding

variable (prim : Primitives S F A H N R P)

/-- `EncodingId::new(id).to_inner()`: the first 8 bytes of the BLAKE3 hash of the id,
big-endian. -/
def encodingId (id : String) : UInt64 :=
  let h := prim.blake3 id.toUTF8.toList
  (List.finRange 8).foldl (fun acc i => acc * 256 + (h (Fin.castLE (by norm_num) i)).toUInt64) 0

/-- The active encoding, under the encoder of `seed`, of byte `b` with value id `id`. -/
def activeEncoding (seed : S) (id : String) (b : UInt8) : A :=
  prim.select (prim.encode seed (encodingId prim id)) b

/-- The active encodings of the bytes of `t` at `ranges`, in `get_value_ids` order. -/
def activeEncodings (seed : S) (t : List UInt8) (ranges : Finset ℕ) (d : Direction) : List A :=
  (iter ranges).map fun i => activeEncoding prim seed (valueId d i) (t.getD i 0)

/-- The idealised encoder: under `seed`, the active encoding of a byte of the transcripts `ts`
determines the byte's direction, position and value. -/
def EncodingInjective (seed : S) (ts : ByDirection (List UInt8)) : Prop :=
  ∀ d d' i i' b b', i < (ts.get d).length → i' < (ts.get d').length →
    activeEncoding prim seed (valueId d i) b = activeEncoding prim seed (valueId d' i') b' →
    d = d' ∧ i = i' ∧ b = b'

end Encoding

/-- A commitment id (`CommitmentId(u32)`). -/
structure CommitmentId where
  inner : UInt32
  deriving DecidableEq, Repr

/-- `CommitmentId::new`. -/
def CommitmentId.new (id : UInt32) : CommitmentId := ⟨id⟩

/-- `CommitmentId::to_inner() as usize`. -/
def CommitmentId.toNat (id : CommitmentId) : ℕ := id.inner.toNat

theorem CommitmentId.toNat_injective : Function.Injective CommitmentId.toNat := by
  intro a b h
  cases a
  cases b
  simp only [CommitmentId.toNat] at h
  rw [UInt32.toNat_inj.1 h]

/-- The kind of a commitment; BLAKE3 is the only one. -/
inductive CommitmentKind
  | blake3
  deriving DecidableEq, Repr

/-- `CommitmentInfo`: what a commitment is a commitment to. -/
@[ext]
structure CommitmentInfo where
  kind : CommitmentKind
  ranges : Finset ℕ
  direction : Direction
  deriving DecidableEq

/-- Infos with the same ranges and direction are equal: BLAKE3 is the only kind. -/
theorem CommitmentInfo.eq_of {i j : CommitmentInfo} (hr : i.ranges = j.ranges)
    (hd : i.direction = j.direction) : i = j := by
  ext
  · cases i.kind; cases j.kind; rfl
  · rw [hr]
  · rw [hd]

/-- `Blake3Commitment`: the hash and the nonce of a BLAKE3 commitment. -/
structure Blake3Commitment (H N : Type) where
  hash : H
  nonce : N
  deriving DecidableEq

/-- `Commitment`. -/
inductive Commitment (H N : Type)
  | blake3 (c : Blake3Commitment H N)
  deriving DecidableEq

/-- `Commitment::hash`. -/
def Commitment.hash : Commitment H N → H
  | .blake3 c => c.hash

/-- `Commitment::kind`. -/
def Commitment.kind : Commitment H N → CommitmentKind
  | .blake3 _ => .blake3

/-- `Blake3Opening`: the purported data and the nonce. -/
structure Blake3Opening (N : Type) where
  data : List UInt8
  nonce : N
  deriving DecidableEq

/-- `CommitmentOpening`. -/
inductive CommitmentOpening (N : Type)
  | blake3 (o : Blake3Opening N)
  deriving DecidableEq

/-- `CommitmentOpening::data`. -/
def CommitmentOpening.data : CommitmentOpening N → List UInt8
  | .blake3 o => o.data

section Blake3

variable (prim : Primitives S F A H N R P)

/-- `Blake3Commitment::new`: a hash commitment to the encodings, under the drawn nonce. -/
def Blake3Commitment.new (encodings : List A) (nonce : N) : Blake3Commitment H N :=
  ⟨prim.commit encodings nonce, nonce⟩

/-- `Blake3Commitment::open`. -/
def Blake3Commitment.open (c : Blake3Commitment H N) (data : List UInt8) : Blake3Opening N :=
  ⟨data, c.nonce⟩

/-- `Blake3Opening::recover`: select the active encoding of each opened byte and commit to them
under the opening's nonce; panics unless there is one encoding per byte. -/
def Blake3Opening.recover (o : Blake3Opening N) (encodings : List F) :
    Option (Blake3Commitment H N) :=
  if encodings.length = o.data.length then
    some ⟨prim.commit (List.zipWith prim.select encodings o.data) o.nonce, o.nonce⟩
  else none

/-- `CommitmentOpening::recover`. -/
def CommitmentOpening.recover (o : CommitmentOpening N) (encodings : List F) :
    Option (Commitment H N) :=
  match o with
  | .blake3 o => (o.recover prim encodings).map .blake3

/-- The idealised hash commitment: a commitment fixes the encodings and the nonce. -/
def CommitBinding : Prop :=
  ∀ encodings encodings' nonce nonce', prim.commit encodings nonce = prim.commit encodings' nonce' →
    encodings = encodings' ∧ nonce = nonce'

end Blake3

/-! ### Merkle tree -/

/-- `MerkleTree`: an `rs_merkle` tree, determined by its leaves. -/
structure MerkleTree (H : Type) where
  leaves : List H

/-- `MerkleProof`: an `rs_merkle` proof and the number of leaves of its tree. -/
structure MerkleProof (P : Type) where
  proof : P
  totalLeaves : ℕ

/-- `MerkleError`. -/
inductive MerkleError
  | merkleProofVerificationFailed
  | merkleNoLeavesProvided
  deriving DecidableEq, Repr

section Merkle

variable (prim : Primitives S F A H N R P)

/-- `MerkleTree::from_leaves`. -/
def MerkleTree.fromLeaves (leaves : List H) : Except MerkleError (MerkleTree H) :=
  if leaves.isEmpty then .error .merkleNoLeavesProvided else .ok ⟨leaves⟩

/-- `MerkleTree::root`. -/
def MerkleTree.root (t : MerkleTree H) : R := prim.root t.leaves

/-- `MerkleTree::proof`: panics unless the indices are strictly increasing. -/
def MerkleTree.proof (t : MerkleTree H) (indices : List ℕ) : Option (MerkleProof P) :=
  if indices.Pairwise (· < ·) then some ⟨prim.proof t.leaves indices, t.leaves.length⟩
  else none

/-- `slice::sort_by` on the indices, a stable sort; insertion sort is one. -/
def sortByIndex (tuples : List (ℕ × H)) : List (ℕ × H) :=
  tuples.insertionSort fun a b => a.1 ≤ b.1

/-- `MerkleProof::verify`: panics when the lists differ in length or the indices repeat; sorts
the pairs by index and asks `rs_merkle`. -/
def MerkleProof.verify (mp : MerkleProof P) (root : R) (leafIndices : List ℕ)
    (leafHashes : List H) : Outcome MerkleError Unit :=
  if leafIndices.length ≠ leafHashes.length then .panic
  else if ¬ leafIndices.Nodup then .panic
  else
    let tuples := sortByIndex (leafIndices.zip leafHashes)
    if prim.verify mp.proof root (tuples.map Prod.fst) (tuples.map Prod.snd) mp.totalLeaves then
      .ok ()
    else .err .merkleProofVerificationFailed

/-- The keys of the pairs sorted by index are the sorted indices. -/
theorem map_fst_sortByIndex (tuples : List (ℕ × H)) :
    (sortByIndex tuples).map Prod.fst = (tuples.map Prod.fst).insertionSort (· ≤ ·) := by
  have : Std.Total fun a b : ℕ × H => a.1 ≤ b.1 := ⟨fun a b => le_total a.1 b.1⟩
  have : IsTrans (ℕ × H) fun a b => a.1 ≤ b.1 := ⟨fun _ _ _ => le_trans⟩
  apply @List.Perm.eq_of_pairwise' ℕ (· ≤ ·) _
  · exact List.pairwise_map.2 (List.pairwise_insertionSort _ tuples)
  · exact List.pairwise_insertionSort _ _
  · exact ((List.perm_insertionSort _ tuples).map Prod.fst).trans
      (List.perm_insertionSort _ _).symm

/-- Indices listed in any order sort to the same list. -/
theorem insertionSort_eq_of_perm {l l' : List ℕ} (h : l.Perm l') :
    l.insertionSort (· ≤ ·) = l'.insertionSort (· ≤ ·) :=
  @List.Perm.eq_of_pairwise' ℕ (· ≤ ·) _ _ _ (List.pairwise_insertionSort _ l)
    (List.pairwise_insertionSort _ l')
    (((List.perm_insertionSort _ l).trans h).trans (List.perm_insertionSort _ l').symm)

/-- Sorting keeps the pairs: those passed to `rs_merkle` are the pairs given. -/
theorem mem_zip_sortByIndex {tuples : List (ℕ × H)} {ih : ℕ × H} :
    ih ∈ ((sortByIndex tuples).map Prod.fst).zip ((sortByIndex tuples).map Prod.snd) ↔
      ih ∈ tuples := by
  have hzip := List.zip_unzip (sortByIndex tuples)
  rw [List.unzip_fst, List.unzip_snd] at hzip
  rw [hzip]
  exact (List.perm_insertionSort _ tuples).mem_iff

/-- `rs_merkle` completeness: a proof for strictly increasing indices of a tree verifies, against
the tree's root, the leaves at those indices. -/
def MerkleComplete : Prop :=
  ∀ (leaves : List H) (indices : List ℕ) (hashes : List H), indices.Pairwise (· < ·) →
    indices.length = hashes.length → (∀ ih ∈ indices.zip hashes, leaves[ih.1]? = some ih.2) →
    prim.verify (prim.proof leaves indices) (prim.root leaves) indices hashes leaves.length = true

/-- The idealised Merkle tree: a proof that verifies against the root of a tree shows leaves of
that tree. -/
def MerkleBinding : Prop :=
  ∀ (leaves : List H) (proof : P) (indices : List ℕ) (hashes : List H) (total : ℕ),
    prim.verify proof (prim.root leaves) indices hashes total = true →
    ∀ ih ∈ indices.zip hashes, leaves[ih.1]? = some ih.2

variable {prim}

/-- `MerkleProof::verify` succeeds exactly when the lists match, the indices do not repeat and
`rs_merkle` accepts the pairs sorted by index. -/
theorem MerkleProof.verify_eq_ok {mp : MerkleProof P} {root : R} {indices : List ℕ}
    {hashes : List H} :
    mp.verify prim root indices hashes = .ok () ↔
      indices.length = hashes.length ∧ indices.Nodup ∧
        prim.verify mp.proof root ((sortByIndex (indices.zip hashes)).map Prod.fst)
          ((sortByIndex (indices.zip hashes)).map Prod.snd) mp.totalLeaves = true := by
  unfold MerkleProof.verify
  by_cases hlen : indices.length = hashes.length
  · by_cases hnd : indices.Nodup
    · simp only [hlen, hnd, ne_eq, not_true_eq_false, if_false, true_and]
      split_ifs with hv <;> simp [hv]
    · simp [hlen, hnd]
  · simp [hlen]

/-- Under binding, a Merkle proof that verifies against the root of `leaves` shows each pair of
an index and a hash to be a leaf. -/
theorem MerkleProof.leaves_of_verify (hb : MerkleBinding prim) {mp : MerkleProof P}
    {leaves : List H} {indices : List ℕ} {hashes : List H}
    (h : mp.verify prim (prim.root leaves) indices hashes = .ok ()) :
    ∀ ih ∈ indices.zip hashes, leaves[ih.1]? = some ih.2 := by
  obtain ⟨-, -, hv⟩ := MerkleProof.verify_eq_ok.1 h
  intro ih hih
  exact hb leaves mp.proof _ _ _ hv ih (mem_zip_sortByIndex.2 hih)

/-- Under completeness, the proof for the sorted indices verifies the leaves at the indices,
listed in any order. -/
theorem MerkleProof.verify_of_leaves (hc : MerkleComplete prim) {leaves : List H}
    {indices : List ℕ} {hashes : List H} (hlen : indices.length = hashes.length)
    (hnd : indices.Nodup) (hleaf : ∀ ih ∈ indices.zip hashes, leaves[ih.1]? = some ih.2) :
    (⟨prim.proof leaves (indices.insertionSort (· ≤ ·)), leaves.length⟩ : MerkleProof P).verify
      prim (prim.root leaves) indices hashes = .ok () := by
  have hfst : (sortByIndex (indices.zip hashes)).map Prod.fst = indices.insertionSort (· ≤ ·) := by
    rw [map_fst_sortByIndex, List.map_fst_zip (le_of_eq hlen)]
  have hsorted : (indices.insertionSort (· ≤ ·)).Pairwise (· < ·) := by
    have hnd' := (List.perm_insertionSort (· ≤ ·) indices).nodup_iff.2 hnd
    exact ((List.pairwise_insertionSort _ indices).and hnd').imp fun h => lt_of_le_of_ne h.1 h.2
  refine MerkleProof.verify_eq_ok.2 ⟨hlen, hnd, ?_⟩
  simp only
  rw [hfst]
  apply hc
  · exact hsorted
  · rw [← hfst, List.length_map, List.length_map]
  · intro ih hih
    rw [← hfst] at hih
    exact hleaf ih (mem_zip_sortByIndex.1 hih)

end Merkle

/-! ### The commitment builder -/

/-- `TranscriptCommitmentBuilderError`. -/
inductive TranscriptCommitmentBuilderError
  | emptyRange
  | rangeOutOfBounds (upperCommitment upperTranscript : ℕ)
  | missingEncodings
  | duplicate (id : CommitmentId)
  | noCommitments
  deriving DecidableEq, Repr

/-- `TranscriptCommitmentBuilder`: the commitments by id, their infos, the Merkle leaves, the
encoding provider and the lengths of the two transcripts. -/
structure TranscriptCommitmentBuilder (H N A : Type) where
  commitments : AssocMap CommitmentId (Commitment H N)
  commitmentInfo : BiMap CommitmentId CommitmentInfo
  merkleLeaves : List H
  encodingProvider : List String → Option (List A)
  sentLen : ℕ
  recvLen : ℕ

/-- `TranscriptCommitments`: what the builder builds. -/
structure TranscriptCommitments (H N : Type) where
  merkleTree : MerkleTree H
  commitments : AssocMap CommitmentId (Commitment H N)
  commitmentInfo : BiMap CommitmentId CommitmentInfo

namespace TranscriptCommitmentBuilder

variable (prim : Primitives S F A H N R P)

/-- `TranscriptCommitmentBuilder::new`. -/
def new (encodingProvider : List String → Option (List A)) (sentLen recvLen : ℕ) :
    TranscriptCommitmentBuilder H N A :=
  ⟨AssocMap.empty, BiMap.empty, [], encodingProvider, sentLen, recvLen⟩

/-- The length of the transcript of a direction. -/
def transcriptLen (b : TranscriptCommitmentBuilder H N A) : Direction → ℕ
  | .sent => b.sentLen
  | .received => b.recvLen

/-- `add_substrings_commitment`, with the nonce that `hash_commit` draws as an argument: its result,
and the builder as the method leaves it through `&mut self`. -/
def addSubstringsCommitment (b : TranscriptCommitmentBuilder H N A) (ranges : Finset ℕ)
    (direction : Direction) (nonce : N) :
    Outcome TranscriptCommitmentBuilderError CommitmentId × TranscriptCommitmentBuilder H N A :=
  match RangeSet.max ranges with
  | none => (.err .emptyRange, b)
  | some m =>
    if m > b.transcriptLen direction then
      (.err (.rangeOutOfBounds m (b.transcriptLen direction)), b)
    else
      match b.encodingProvider (getValueIds ranges direction) with
      | none => (.err .missingEncodings, b)
      | some encodings =>
        let commitment := Blake3Commitment.new prim encodings nonce
        let id := CommitmentId.new (UInt32.ofNat b.merkleLeaves.length)
        -- `insert_no_overwrite` writes nothing when it refuses the pair
        match b.commitmentInfo.insertNoOverwrite id ⟨.blake3, ranges, direction⟩ with
        | .error (id, _) => (.err (.duplicate id), b)
        | .ok info =>
          let ins := b.commitments.insert id (.blake3 commitment)
          let b := { b with commitments := ins.1, commitmentInfo := info }
          -- "commitment id already exists", after both maps are written
          if ins.2.isSome then (.panic, b)
          else (.ok id, { b with merkleLeaves := b.merkleLeaves ++ [commitment.hash] })

/-- `commit`: `commit_sent` or `commit_recv`, by direction. -/
def commit (b : TranscriptCommitmentBuilder H N A) (ranges : Finset ℕ) (direction : Direction)
    (nonce : N) :
    Outcome TranscriptCommitmentBuilderError CommitmentId × TranscriptCommitmentBuilder H N A :=
  match direction with
  | .sent => b.addSubstringsCommitment prim ranges .sent nonce
  | .received => b.addSubstringsCommitment prim ranges .received nonce

/-- `build`: fails when there is no commitment. -/
def build (b : TranscriptCommitmentBuilder H N A) :
    Except TranscriptCommitmentBuilderError (TranscriptCommitments H N) :=
  match MerkleTree.fromLeaves b.merkleLeaves with
  | .error _ => .error .noCommitments
  | .ok merkleTree => .ok ⟨merkleTree, b.commitments, b.commitmentInfo⟩

end TranscriptCommitmentBuilder

namespace TranscriptCommitments

/-- `TranscriptCommitments::merkle_root`. -/
def merkleRoot (prim : Primitives S F A H N R P) (c : TranscriptCommitments H N) : R :=
  c.merkleTree.root prim

/-- `TranscriptCommitments::get`. -/
def get (c : TranscriptCommitments H N) (id : CommitmentId) : Option (Commitment H N) :=
  c.commitments.get? id

/-- `TranscriptCommitments::get_info`. -/
def getInfo (c : TranscriptCommitments H N) (id : CommitmentId) : Option CommitmentInfo :=
  c.commitmentInfo.getByLeft id

/-- `TranscriptCommitments::get_id_by_info`. -/
def getIdByInfo (c : TranscriptCommitments H N) (kind : CommitmentKind) (ranges : Finset ℕ)
    (direction : Direction) : Option CommitmentId :=
  c.commitmentInfo.getByRight ⟨kind, ranges, direction⟩

end TranscriptCommitments

/-! ### Runs of the builder

A builder reached by successful `commit` calls is the image of the log of its commits, the info
and the nonce of each: the `i`-th commitment has id `i`, its info and commitment are stored under
that id and its hash is the `i`-th Merkle leaf. -/

/-- The id of the `i`-th commitment: `CommitmentId::new(i as u32)`. -/
def commitmentIdOf (i : ℕ) : CommitmentId := CommitmentId.new (UInt32.ofNat i)

theorem toNat_commitmentIdOf {i : ℕ} (h : i < 2 ^ 32) : (commitmentIdOf i).toNat = i :=
  UInt32.toNat_ofNat_of_lt' h

theorem commitmentIdOf_toNat (id : CommitmentId) : commitmentIdOf id.toNat = id := by
  cases id
  simp [commitmentIdOf, CommitmentId.toNat, CommitmentId.new]

section Runs

variable (prim : Primitives S F A H N R P)

/-- Successful `commit` calls from `b₀`: the builder reached and the ids returned, in order. -/
inductive Commits (b₀ : TranscriptCommitmentBuilder H N A) :
    TranscriptCommitmentBuilder H N A → List CommitmentId → Prop
  | nil : Commits b₀ b₀ []
  | commit {b b' : TranscriptCommitmentBuilder H N A} {ids : List CommitmentId}
      {ranges : Finset ℕ} {direction : Direction} {nonce : N} {id : CommitmentId} :
      Commits b₀ b ids → b.commit prim ranges direction nonce = (.ok id, b') →
      Commits b₀ b' (ids ++ [id])

/-- The hash committed for `info` under `nonce`: of the active encodings of its bytes. -/
def committedHash (seed : S) (ts : ByDirection (List UInt8)) (info : CommitmentInfo)
    (nonce : N) : H :=
  prim.commit (activeEncodings prim seed (ts.get info.direction) info.ranges info.direction) nonce

/-- The encoding provider answers the value ids of a set inside a transcript with the active
encodings of its bytes, in the same order. -/
def EncodesTranscripts (seed : S) (ts : ByDirection (List UInt8))
    (provider : List String → Option (List A)) : Prop :=
  ∀ ranges d, (∀ i ∈ ranges, i < (ts.get d).length) →
    provider (getValueIds ranges d) = some (activeEncodings prim seed (ts.get d) ranges d)

/-- The builder `b` is the image of the commits `log` over the transcripts `ts`. -/
structure Represents (seed : S) (ts : ByDirection (List UInt8))
    (b : TranscriptCommitmentBuilder H N A) (log : List (CommitmentInfo × N)) : Prop where
  lens : ∀ d, b.transcriptLen d = (ts.get d).length
  provider : EncodesTranscripts prim seed ts b.encodingProvider
  info : b.commitmentInfo.entries = log.mapIdx fun i e => (commitmentIdOf i, e.1)
  commitments : b.commitments.entries =
    log.mapIdx fun i e => (commitmentIdOf i, .blake3 ⟨committedHash prim seed ts e.1 e.2, e.2⟩)
  leaves : b.merkleLeaves = log.map fun e => committedHash prim seed ts e.1 e.2
  length_le : log.length ≤ 2 ^ 32
  inBounds : ∀ e ∈ log, e.1.ranges.Nonempty ∧ ∀ i ∈ e.1.ranges, i < (ts.get e.1.direction).length

namespace TranscriptCommitmentBuilder

variable {prim}

theorem commit_eq (b : TranscriptCommitmentBuilder H N A) (ranges : Finset ℕ) (d : Direction)
    (nonce : N) : b.commit prim ranges d nonce = b.addSubstringsCommitment prim ranges d nonce := by
  cases d <;> rfl

/-- A successful `add_substrings_commitment` found the bound of its ranges inside the transcript
and the encodings, took the next id, and appended the commitment under it. -/
theorem addSubstringsCommitment_eq_ok {b b' : TranscriptCommitmentBuilder H N A}
    {ranges : Finset ℕ} {d : Direction} {nonce : N} {id : CommitmentId}
    (h : b.addSubstringsCommitment prim ranges d nonce = (.ok id, b')) :
    ∃ m encodings info, RangeSet.max ranges = some m ∧ m ≤ b.transcriptLen d ∧
      b.encodingProvider (getValueIds ranges d) = some encodings ∧
      id = commitmentIdOf b.merkleLeaves.length ∧
      b.commitmentInfo.insertNoOverwrite id ⟨.blake3, ranges, d⟩ = .ok info ∧
      id ∉ b.commitments.keys ∧
      b' = { b with
        commitments := (b.commitments.insert id (.blake3 (Blake3Commitment.new prim encodings nonce))).1,
        commitmentInfo := info,
        merkleLeaves := b.merkleLeaves ++ [(Blake3Commitment.new prim encodings nonce).hash] } := by
  unfold addSubstringsCommitment at h
  split at h
  · cases h
  rename_i m hm
  split_ifs at h with hgt
  · cases h
  split at h
  · cases h
  rename_i encodings henc
  dsimp only at h
  split at h
  · cases h
  rename_i info hins
  split_ifs at h with hsome
  · cases h
  obtain ⟨⟨⟩, rfl⟩ := Prod.mk.inj h
  refine ⟨m, encodings, info, hm, Nat.le_of_not_lt hgt, henc, rfl, hins, ?_, rfl⟩
  rw [AssocMap.insert_snd, Option.isSome_iff_ne_none, not_not] at hsome
  exact AssocMap.get?_eq_none_iff.1 hsome

/-- **A failed call writes nothing.** Each error of `add_substrings_commitment` is returned before
its first write, or by `insert_no_overwrite`, which refuses the pair without writing it. -/
theorem addSubstringsCommitment_of_err {b : TranscriptCommitmentBuilder H N A}
    {ranges : Finset ℕ} {d : Direction} {nonce : N} {e : TranscriptCommitmentBuilderError}
    (h : (b.addSubstringsCommitment prim ranges d nonce).1 = .err e) :
    (b.addSubstringsCommitment prim ranges d nonce).2 = b := by
  unfold addSubstringsCommitment at h ⊢
  split
  · rfl
  rename_i m hm
  rw [hm] at h
  split_ifs with hgt
  · rfl
  simp only [hgt, if_false] at h
  split
  · rfl
  rename_i encodings henc
  simp only [henc] at h
  dsimp only at h ⊢
  split
  · rfl
  rename_i info hins
  simp only [hins] at h
  -- past the insertion, the method panics or returns an id
  split_ifs at h

/-- `build` succeeds on a builder with a commitment, and keeps its maps and leaves. -/
theorem build_eq_ok {b : TranscriptCommitmentBuilder H N A} {c : TranscriptCommitments H N}
    (h : b.build = .ok c) :
    c = ⟨⟨b.merkleLeaves⟩, b.commitments, b.commitmentInfo⟩ ∧ b.merkleLeaves ≠ [] := by
  unfold build MerkleTree.fromLeaves at h
  by_cases he : b.merkleLeaves.isEmpty
  · simp [he] at h
  · simp only [he, if_false, Bool.false_eq_true, Except.ok.injEq] at h
    exact ⟨h.symm, fun h0 => he (List.isEmpty_iff.2 h0)⟩

end TranscriptCommitmentBuilder

namespace Represents

variable {prim} {seed : S} {ts : ByDirection (List UInt8)} {b : TranscriptCommitmentBuilder H N A}
  {log : List (CommitmentInfo × N)}

theorem length_leaves (hr : Represents prim seed ts b log) : b.merkleLeaves.length = log.length := by
  rw [hr.leaves, List.length_map]

theorem mem_lefts (hr : Represents prim seed ts b log) {k : ℕ} (hk : k < log.length) :
    commitmentIdOf k ∈ b.commitmentInfo.lefts := by
  rw [BiMap.lefts, hr.info, List.mem_map]
  exact ⟨_, List.mem_mapIdx.2 ⟨k, hk, rfl⟩, rfl⟩

/-- The info of the `k`-th commitment is the `k`-th of the log. -/
theorem getByLeft (hr : Represents prim seed ts b log) {k : ℕ} (hk : k < log.length) :
    b.commitmentInfo.getByLeft (commitmentIdOf k) = some log[k].1 := by
  rw [BiMap.getByLeft_eq_some_iff, hr.info, List.mem_mapIdx]
  exact ⟨k, hk, rfl⟩

/-- The `k`-th commitment commits to the bytes of the `k`-th info under the `k`-th nonce. -/
theorem get? (hr : Represents prim seed ts b log) {k : ℕ} (hk : k < log.length) :
    b.commitments.get? (commitmentIdOf k) =
      some (.blake3 ⟨committedHash prim seed ts log[k].1 log[k].2, log[k].2⟩) := by
  rw [AssocMap.get?_eq_some_iff, hr.commitments, List.mem_mapIdx]
  exact ⟨k, hk, rfl⟩

/-- The `k`-th Merkle leaf is the hash of the `k`-th commitment. -/
theorem getElem?_leaves (hr : Represents prim seed ts b log) (k : ℕ) :
    b.merkleLeaves[k]? = log[k]?.map fun e => committedHash prim seed ts e.1 e.2 := by
  rw [hr.leaves, List.getElem?_map]

/-- The builder of the encodings, before any commit. -/
theorem new {encodingProvider : List String → Option (List A)}
    (hp : EncodesTranscripts prim seed ts encodingProvider) :
    Represents prim seed ts
      (TranscriptCommitmentBuilder.new encodingProvider ts.sent.length ts.recv.length) [] where
  lens d := by cases d <;> rfl
  provider := hp
  info := rfl
  commitments := rfl
  leaves := rfl
  length_le := by norm_num
  inBounds := by simp

/-- **Step.** A successful `add_substrings_commitment` appends its info and nonce to the log and
returns the id of the new position. -/
theorem step (hr : Represents prim seed ts b log) {b' : TranscriptCommitmentBuilder H N A}
    {ranges : Finset ℕ} {d : Direction} {nonce : N} {id : CommitmentId}
    (h : b.addSubstringsCommitment prim ranges d nonce = (.ok id, b')) :
    id = commitmentIdOf log.length ∧
      Represents prim seed ts b' (log ++ [(⟨.blake3, ranges, d⟩, nonce)]) := by
  obtain ⟨m, encodings, info, hm, hle, hprov, rfl, hins, hfresh, rfl⟩ :=
    TranscriptCommitmentBuilder.addSubstringsCommitment_eq_ok h
  obtain ⟨hnotin, -, hentries⟩ := BiMap.insertNoOverwrite_eq_ok hins
  have hbound : ∀ i ∈ ranges, i < (ts.get d).length := fun i hi =>
    lt_of_lt_of_le (lt_of_max_eq hm hi) (hle.trans (hr.lens d).le)
  have henc : encodings = activeEncodings prim seed (ts.get d) ranges d := by
    rw [hr.provider ranges d hbound] at hprov
    exact (Option.some.inj hprov).symm
  -- the id of position `2 ^ 32` wraps to that of position `0`, which is taken
  have hlt : log.length < 2 ^ 32 := by
    rcases Nat.lt_or_ge log.length (2 ^ 32) with hlt | hge
    · exact hlt
    · have heq : log.length = 2 ^ 32 := le_antisymm hr.length_le hge
      rw [hr.length_leaves, heq] at hnotin
      exact absurd (hr.mem_lefts (k := 0) (by omega)) hnotin
  subst henc
  refine ⟨by rw [hr.length_leaves], ⟨fun d' => hr.lens d', hr.provider, ?_, ?_, ?_, ?_, ?_⟩⟩
  · rw [hentries, hr.info, List.mapIdx_concat, hr.length_leaves]
  · simp only
    rw [AssocMap.insert_of_not_mem hfresh, hr.commitments, List.mapIdx_concat, hr.length_leaves]
    rfl
  · simp only
    rw [hr.leaves, List.map_append]
    rfl
  · rw [List.length_append, List.length_singleton]
    omega
  · intro e he
    rcases List.mem_append.1 he with he | he
    · exact hr.inBounds e he
    · rw [List.mem_singleton] at he
      subst he
      exact ⟨nonempty_of_max_eq hm, hbound⟩

end Represents

/-- **Runs of the builder.** After successful commits from a new builder whose provider encodes
the transcripts, the builder is the image of a log of its commits, and the ids returned are the
positions of the log. -/
theorem Commits.represents {seed : S} {ts : ByDirection (List UInt8)}
    {provider : List String → Option (List A)} (hp : EncodesTranscripts prim seed ts provider)
    {b : TranscriptCommitmentBuilder H N A} {ids : List CommitmentId}
    (h : Commits prim (TranscriptCommitmentBuilder.new provider ts.sent.length ts.recv.length) b ids) :
    ∃ log, Represents prim seed ts b log ∧ ids = (List.range log.length).map commitmentIdOf := by
  induction h with
  | nil => exact ⟨[], Represents.new hp, rfl⟩
  | commit _ hc ih =>
    obtain ⟨log, hr, rfl⟩ := ih
    rw [TranscriptCommitmentBuilder.commit_eq] at hc
    obtain ⟨rfl, hr'⟩ := hr.step hc
    refine ⟨_, hr', ?_⟩
    rw [List.length_append, List.length_singleton, List.range_succ, List.map_append]
    rfl

end Runs

/-! ### Any sequence of commits

With any encoding provider, and over calls that may fail, the three containers of the builder stay
aligned on the positions of the Merkle leaves (`WellFormed`): the ids of the commitments and of
their infos are `0, …, n - 1`, and the `i`-th leaf is the hash of commitment `i`. -/

namespace TranscriptCommitmentBuilder

/-- The containers of a builder aligned on its `n` Merkle leaves. -/
structure WellFormed (b : TranscriptCommitmentBuilder H N A) : Prop where
  length_le : b.merkleLeaves.length ≤ 2 ^ 32
  keys : b.commitments.keys = (List.range b.merkleLeaves.length).map commitmentIdOf
  lefts : b.commitmentInfo.lefts = (List.range b.merkleLeaves.length).map commitmentIdOf
  hash : ∀ i (hi : i < b.merkleLeaves.length),
    (b.commitments.get? (commitmentIdOf i)).map Commitment.hash = some b.merkleLeaves[i]

theorem wellFormed_new (encodingProvider : List String → Option (List A)) (sentLen recvLen : ℕ) :
    (new encodingProvider sentLen recvLen : TranscriptCommitmentBuilder H N A).WellFormed where
  length_le := by norm_num [new]
  keys := rfl
  lefts := rfl
  hash i hi := absurd hi (Nat.not_lt_zero _)

variable (prim : Primitives S F A H N R P)

/-- The builder after a sequence of calls of `commit`, each of which may fail: the builder each
call leaves through `&mut self` is the next one's. -/
def final (b : TranscriptCommitmentBuilder H N A) (calls : List (Finset ℕ × Direction × N)) :
    TranscriptCommitmentBuilder H N A :=
  calls.foldl (fun b c => (b.commit prim c.1 c.2.1 c.2.2).2) b

variable {prim}

namespace WellFormed

variable {b : TranscriptCommitmentBuilder H N A}

/-- The next id is free in the infos unless the ids have wrapped around. -/
theorem lt_of_insertNoOverwrite (hw : b.WellFormed) {info : CommitmentInfo}
    {m : BiMap CommitmentId CommitmentInfo}
    (h : b.commitmentInfo.insertNoOverwrite (commitmentIdOf b.merkleLeaves.length) info = .ok m) :
    b.merkleLeaves.length < 2 ^ 32 := by
  rcases Nat.lt_or_ge b.merkleLeaves.length (2 ^ 32) with hlt | hge
  · exact hlt
  · -- the id of position `2 ^ 32` is that of position `0`, which is taken
    have heq : b.merkleLeaves.length = 2 ^ 32 := le_antisymm hw.length_le hge
    have hnotin := (BiMap.insertNoOverwrite_eq_ok h).1
    rw [hw.lefts, heq] at hnotin
    exact absurd (List.mem_map.2 ⟨0, List.mem_range.2 (by norm_num), rfl⟩) hnotin

/-- **No panic.** The commitment id is never already taken: the infos and the commitments have
the same ids, and the infos refused it otherwise. -/
theorem addSubstringsCommitment_ne_panic (hw : b.WellFormed) (ranges : Finset ℕ) (d : Direction)
    (nonce : N) : (b.addSubstringsCommitment prim ranges d nonce).1 ≠ .panic := by
  intro h
  unfold addSubstringsCommitment at h
  split at h
  · cases h
  split_ifs at h
  split at h
  · cases h
  dsimp only at h
  split at h
  · cases h
  rename_i info hins
  split_ifs at h with hsome
  -- the commitments hold a value under the id the infos did not have
  have hnotin := (BiMap.insertNoOverwrite_eq_ok hins).1
  rw [hw.lefts, ← hw.keys] at hnotin
  rw [AssocMap.insert_snd, AssocMap.get?_eq_none_iff.2 hnotin] at hsome
  cases hsome

/-- **Step.** A successful call returns the id of the next position and keeps the containers
aligned. -/
theorem addSubstringsCommitment (hw : b.WellFormed) {ranges : Finset ℕ} {d : Direction}
    {nonce : N} {id : CommitmentId} {b' : TranscriptCommitmentBuilder H N A}
    (h : b.addSubstringsCommitment prim ranges d nonce = (.ok id, b')) :
    id = commitmentIdOf b.merkleLeaves.length ∧ b'.WellFormed := by
  obtain ⟨m, encodings, info, -, -, -, rfl, hins, hfresh, rfl⟩ := addSubstringsCommitment_eq_ok h
  have hlt := hw.lt_of_insertNoOverwrite hins
  have hentries := (BiMap.insertNoOverwrite_eq_ok hins).2.2
  refine ⟨rfl, ⟨?_, ?_, ?_, ?_⟩⟩
  · simp only [List.length_append, List.length_singleton]
    omega
  · simp only [List.length_append, List.length_singleton, List.range_succ, List.map_append]
    rw [AssocMap.keys_insert, if_neg hfresh, hw.keys]
    rfl
  · simp only [List.length_append, List.length_singleton, List.range_succ, List.map_append]
    rw [BiMap.lefts, hentries, List.map_append, ← BiMap.lefts, hw.lefts]
    rfl
  · intro i hi
    simp only [List.length_append, List.length_singleton] at hi
    rw [AssocMap.get?_insert]
    rcases Nat.lt_or_ge i b.merkleLeaves.length with hi' | hi'
    · -- an old position: its id is not the new one, and its leaf is kept
      have hne : commitmentIdOf i ≠ commitmentIdOf b.merkleLeaves.length := fun he => by
        have := congrArg CommitmentId.toNat he
        rw [toNat_commitmentIdOf (by omega), toNat_commitmentIdOf hlt] at this
        omega
      rw [if_neg hne, hw.hash i hi', List.getElem_append_left hi']
    · -- the new position: the new commitment, and the new leaf
      have hieq : i = b.merkleLeaves.length := by omega
      subst hieq
      simp [Commitment.hash]

/-- A call keeps the containers aligned, whether it succeeds or fails. -/
theorem commit (hw : b.WellFormed) (ranges : Finset ℕ) (d : Direction) (nonce : N) :
    (b.commit prim ranges d nonce).2.WellFormed := by
  rw [commit_eq]
  -- the call returns an id, or fails without writing; it never panics
  match hr : (b.addSubstringsCommitment prim ranges d nonce).1 with
  | .ok id => exact (hw.addSubstringsCommitment (Prod.ext hr rfl)).2
  | .err e =>
    rw [addSubstringsCommitment_of_err hr]
    exact hw
  | .panic => exact absurd hr (hw.addSubstringsCommitment_ne_panic ranges d nonce)

/-- **Run.** Any sequence of calls keeps the containers aligned. -/
theorem final (hw : b.WellFormed) (calls : List (Finset ℕ × Direction × N)) :
    (b.final prim calls).WellFormed := by
  induction calls generalizing b with
  | nil => exact hw
  | cons c calls ih => exact ih (hw.commit c.1 c.2.1 c.2.2)

end WellFormed

/-- The builder's infos and commitments as `build` hands them on: leaf `i` of the tree is the hash
of commitment `i`. -/
theorem WellFormed.build {b : TranscriptCommitmentBuilder H N A} (hw : b.WellFormed)
    {c : TranscriptCommitments H N} (h : b.build = .ok c) :
    ∀ i (hi : i < c.merkleTree.leaves.length),
      (c.get (commitmentIdOf i)).map Commitment.hash = some c.merkleTree.leaves[i] := by
  obtain ⟨rfl, -⟩ := build_eq_ok h
  exact hw.hash

theorem commitment_builder_invariant (encodingProvider : List String → Option (List A))
    (sentLen recvLen : ℕ) (calls : List (Finset ℕ × Direction × N)) :
    let b := (new encodingProvider sentLen recvLen).final prim calls
    let n := b.merkleLeaves.length
    n ≤ 2 ^ 32 ∧
    b.commitments.keys = (List.range n).map commitmentIdOf ∧
    b.commitmentInfo.lefts = (List.range n).map commitmentIdOf ∧
    (∀ i (hi : i < n),
      (b.commitments.get? (commitmentIdOf i)).map Commitment.hash = some b.merkleLeaves[i]) ∧
    (∀ i j info, b.commitmentInfo.getByLeft i = some info →
      b.commitmentInfo.getByLeft j = some info → i = j) ∧
    (∀ ranges d nonce, (b.commit prim ranges d nonce).1 ≠ .panic ∧
      (∀ id, (b.commit prim ranges d nonce).1 = .ok id → id = commitmentIdOf n) ∧
      (∀ e, (b.commit prim ranges d nonce).1 = .err e →
        (b.commit prim ranges d nonce).2.commitments = b.commitments ∧
        (b.commit prim ranges d nonce).2.commitmentInfo = b.commitmentInfo ∧
        (b.commit prim ranges d nonce).2.merkleLeaves = b.merkleLeaves)) ∧
    (∀ c, b.build = .ok c → ∀ i (hi : i < c.merkleTree.leaves.length),
      (c.get (commitmentIdOf i)).map Commitment.hash = some c.merkleTree.leaves[i]) := by
  intro b n
  have hw : b.WellFormed := (wellFormed_new encodingProvider sentLen recvLen).final calls
  refine ⟨hw.length_le, hw.keys, hw.lefts, hw.hash,
    fun i j info => BiMap.left_eq_of_getByLeft, fun ranges d nonce => ?_, fun c => hw.build⟩
  rw [commit_eq]
  refine ⟨hw.addSubstringsCommitment_ne_panic ranges d nonce,
    fun id h => (hw.addSubstringsCommitment (Prod.ext h rfl)).1, fun e h => ?_⟩
  -- a failed call leaves the whole builder as it was
  rw [addSubstringsCommitment_of_err h]
  exact ⟨rfl, rfl, rfl⟩

end TranscriptCommitmentBuilder

end Tlsn
