import Tlsn.Core.Commitment
import Tlsn.Core.Session

/-!
# Substrings proofs (`tlsn-core/src/proof/substrings.rs`)

The prover opens some of its commitments; the verifier recomputes, from the opened bytes and the
encoder seed of the header, the hash each commitment must have, checks with one Merkle proof that
these hashes are leaves of the tree whose root the notary signed, and copies the opened bytes
into two redacted transcripts.

* `SubstringsProofBuilder.revealById` and `build`;
* `verifyOpening`, the body of the loop of `SubstringsProof::verify` over the openings, and
  `SubstringsProof.verify`.

The loop is described by three facts about one opening: what a successful step recorded
(`verifyOpening_eq_ok`), that an honest opening succeeds (`verifyOpening_of_opens`), and that an
honest opening writes the transcript's bytes (`Agrees.of_verifyOpening`). The openings are a hash
map, so the loop runs in an unspecified order; the statements about it quantify over every order.
-/

namespace Tlsn

open RangeSet

variable {S F A H N R P K : Type}

/-- `MAX_TOTAL_COMMITTED_DATA`. -/
def maxTotalCommittedData : ℕ := 1000000000

/-- `SubstringsProofBuilderError`. -/
inductive SubstringsProofBuilderError
  | invalidCommitmentId (id : CommitmentId)
  | missingCommitment
  | invalidCommitmentType (id : CommitmentId)
  | duplicateCommitmentId (id : CommitmentId)
  deriving DecidableEq, Repr

/-- The openings of a proof: the info and the opening of each opened commitment, by id. -/
abbrev Openings (N : Type) := AssocMap CommitmentId (CommitmentInfo × CommitmentOpening N)

/-- `SubstringsProofBuilder`. -/
structure SubstringsProofBuilder (H N : Type) where
  commitments : TranscriptCommitments H N
  transcriptTx : Transcript
  transcriptRx : Transcript
  openings : Openings N

/-- `SubstringsProof`: the openings and one Merkle proof for all of them. -/
structure SubstringsProof (N P : Type) where
  openings : Openings N
  inclusionProof : MerkleProof P

namespace SubstringsProofBuilder

variable (prim : Primitives S F A H N R P)

/-- `SubstringsProofBuilder::new`. -/
def new (commitments : TranscriptCommitments H N) (transcriptTx transcriptRx : Transcript) :
    SubstringsProofBuilder H N :=
  ⟨commitments, transcriptTx, transcriptRx, AssocMap.empty⟩

/-- `reveal_by_id`: open the commitment with the bytes of its ranges. The code inserts before it
reports a duplicate; the value it inserts is then the one already there. -/
def revealById (b : SubstringsProofBuilder H N) (id : CommitmentId) :
    Outcome SubstringsProofBuilderError (SubstringsProofBuilder H N) :=
  match b.commitments.get id with
  | none => .err (.invalidCommitmentId id)
  | some commitment =>
    match b.commitments.getInfo id with
    -- "info exists if commitment exists"
    | none => .panic
    | some info =>
      match commitment with
      | .blake3 commitment =>
        let transcript := match info.direction with
          | .sent => b.transcriptTx
          | .received => b.transcriptRx
        match transcript.getBytesInRanges info.ranges with
        | none => .panic
        | some data =>
          let ins := b.openings.insert id (info, .blake3 (commitment.open data))
          if ins.2.isSome then .err (.duplicateCommitmentId id)
          else .ok { b with openings := ins.1 }

/-- `reveal`: open the commitment with the given info. -/
def reveal (b : SubstringsProofBuilder H N) (ranges : Finset ℕ) (direction : Direction)
    (commitmentKind : CommitmentKind) :
    Outcome SubstringsProofBuilderError (SubstringsProofBuilder H N) :=
  match b.commitments.getIdByInfo commitmentKind ranges direction with
  | none => .err .missingCommitment
  | some id => b.revealById id

/-- `build`: one Merkle proof for the opened ids, sorted. -/
def build (b : SubstringsProofBuilder H N) :
    Outcome SubstringsProofBuilderError (SubstringsProof N P) :=
  let indices := (b.openings.keys.map CommitmentId.toNat).insertionSort (· ≤ ·)
  match b.commitments.merkleTree.proof prim indices with
  | none => .panic
  | some inclusionProof => .ok ⟨b.openings, inclusionProof⟩

end SubstringsProofBuilder

/-- `SubstringsProofError`. -/
inductive SubstringsProofError
  | maxDataExceeded (total : ℕ)
  | duplicateData (direction : Direction) (ranges : Finset ℕ)
  | rangeOutOfBounds (id : CommitmentId) (max : ℕ)
  | invalidOpening (id : CommitmentId)
  | invalidInclusionProof (e : MerkleError)
  deriving DecidableEq

/-- The local state of `SubstringsProof::verify`: the Merkle indices and expected hashes, the
destination buffers and opened ranges of both directions, and the amount opened so far. -/
structure VerifyState (H : Type) where
  indices : List ℕ
  expectedHashes : List H
  dest : ByDirection (List UInt8)
  ranges : ByDirection (Finset ℕ)
  totalOpened : ℕ

/-- The state before the first opening: zero buffers of the transcripts' lengths. -/
def VerifyState.init (header : SessionHeader S R K H) : VerifyState H :=
  ⟨[], [], ⟨List.replicate header.sentLen 0, List.replicate header.recvLen 0⟩, ⟨∅, ∅⟩, 0⟩

section Verify

variable (prim : Primitives S F A H N R P)

/-- The body of the loop of `SubstringsProof::verify`, for one opening. -/
def verifyOpening (header : SessionHeader S R K H) (st : VerifyState H)
    (entry : CommitmentId × CommitmentInfo × CommitmentOpening N) :
    Outcome SubstringsProofError (VerifyState H) :=
  let id := entry.1
  let ranges := entry.2.1.ranges
  let direction := entry.2.1.direction
  let opening := entry.2.2
  let openedLen := len ranges
  -- the amount of data proved is bounded; the error reports it `as usize`
  let totalOpened := st.totalOpened + openedLen
  if totalOpened > maxTotalCommittedData then .err (.maxDataExceeded (totalOpened % 2 ^ 64))
  else if opening.data.length ≠ openedLen then .err (.invalidOpening id)
  -- duplicate data is not opened
  else if ¬ Disjoint (st.ranges.get direction) ranges then .err (.duplicateData direction ranges)
  else
    match RangeSet.max ranges with
    | none => .err (.invalidOpening id)
    | some m =>
      if m > header.transcriptLen direction then .err (.rangeOutOfBounds id m)
      else
        let encodings := (getValueIds ranges direction).map fun vid =>
          prim.encode header.encoderSeed (encodingId prim vid)
        match opening.recover prim encodings with
        | none => .panic
        | some commitment =>
          if opening.data.length ≠ len ranges then .err (.invalidOpening id)
          else
            -- the ranges backwards, each taking the tail of the data
            match scatter (iterRanges ranges) (st.dest.get direction, opening.data) with
            | none => .panic
            | some moved =>
              .ok { indices := st.indices ++ [id.toNat]
                    expectedHashes := st.expectedHashes ++ [commitment.hash]
                    dest := st.dest.set direction moved.1
                    ranges := st.ranges.set direction (st.ranges.get direction ∪ ranges)
                    totalOpened }

/-- `SubstringsProof::verify`: the openings in the map's iteration order, then the Merkle proof,
then a redacted transcript per direction from the slices of the opened ranges. (`sent[range]`
stays inside `sent`: every opened range was checked against the transcript's length.) -/
def SubstringsProof.verify (p : SubstringsProof N P) (header : SessionHeader S R K H) :
    Outcome SubstringsProofError (RedactedTranscript × RedactedTranscript) := do
  let st ← p.openings.entries.foldlM (verifyOpening prim header) (VerifyState.init header)
  (p.inclusionProof.verify prim header.merkleRoot st.indices st.expectedHashes).mapErr
    .invalidInclusionProof
  let sentSlices := slicesOf (st.dest.get .sent) (st.ranges.get .sent)
  let recvSlices := slicesOf (st.dest.get .received) (st.ranges.get .received)
  let sent ← Outcome.ofOption (RedactedTranscript.new header.sentLen sentSlices)
  let recv ← Outcome.ofOption (RedactedTranscript.new header.recvLen recvSlices)
  pure (sent, recv)

end Verify

/-! ### One opening -/

section Opening

variable (prim : Primitives S F A H N R P)

/-- The hash `verify` expects for an opening of `info`: the commitment, under the opening's
nonce, to the active encodings under `seed` of the opened bytes, along the ranges. -/
def expectedHash (seed : S) (info : CommitmentInfo) : CommitmentOpening N → H
  | .blake3 o => prim.commit ((iter info.ranges).zipWith
      (fun i b => activeEncoding prim seed (valueId info.direction i) b) o.data) o.nonce

/-- The opening reveals the bytes of the transcripts `ts` at the ranges of `info`, in order. -/
def OpensTranscript (ts : ByDirection (List UInt8)) (info : CommitmentInfo)
    (opening : CommitmentOpening N) : Prop :=
  opening.data = (iter info.ranges).map ((ts.get info.direction).getD · 0)

variable {prim}

/-- With one byte per encoding, `recover` commits to the hash `verify` expects. -/
theorem recover_hash {seed : S} {info : CommitmentInfo} {opening : CommitmentOpening N}
    (hlen : opening.data.length = len info.ranges) :
    (opening.recover prim ((getValueIds info.ranges info.direction).map fun vid =>
        prim.encode seed (encodingId prim vid))).map Commitment.hash =
      some (expectedHash prim seed info opening) := by
  cases opening with
  | blake3 o =>
    have hl : ((getValueIds info.ranges info.direction).map fun vid =>
        prim.encode seed (encodingId prim vid)).length = o.data.length := by
      rw [List.length_map, length_getValueIds]
      exact hlen.symm
    rw [CommitmentOpening.recover, Blake3Opening.recover, if_pos hl]
    simp only [Option.map_some, Commitment.hash, expectedHash, getValueIds, List.map_map,
      List.zipWith_map_left]
    rfl

/-- The honest opening of a commitment is expected to have the committed hash. -/
theorem expectedHash_of_opens {seed : S} {ts : ByDirection (List UInt8)} {info : CommitmentInfo}
    {o : Blake3Opening N} (hopen : OpensTranscript ts info (.blake3 o)) :
    expectedHash prim seed info (.blake3 o) = committedHash prim seed ts info o.nonce := by
  simp only [OpensTranscript, CommitmentOpening.data] at hopen
  rw [expectedHash, committedHash, hopen, List.zipWith_map_right, List.zipWith_self]
  rfl

/-- **Binding of an opening.** Under a binding commitment and an encoder that tells the bytes of
the transcripts apart, an opening inside the transcripts whose expected hash is the committed
hash of `info'` has the direction and the ranges of `info'` and reveals the transcripts' bytes. -/
theorem opens_of_expectedHash (hcb : CommitBinding prim) {seed : S} {ts : ByDirection (List UInt8)}
    (hinj : EncodingInjective prim seed ts) {info info' : CommitmentInfo}
    {opening : CommitmentOpening N} {nonce : N}
    (hlen : opening.data.length = len info.ranges) (hne : info.ranges.Nonempty)
    (hin : ∀ i ∈ info.ranges, i < (ts.get info.direction).length)
    (hin' : ∀ i ∈ info'.ranges, i < (ts.get info'.direction).length)
    (h : expectedHash prim seed info opening = committedHash prim seed ts info' nonce) :
    info.direction = info'.direction ∧ info.ranges = info'.ranges ∧
      OpensTranscript ts info opening := by
  cases opening with
  | blake3 o =>
  simp only [CommitmentOpening.data] at hlen
  have henc := (hcb _ _ _ _ h).1
  simp only [activeEncodings] at henc
  have hlen' : len info.ranges = len info'.ranges := by
    simpa [hlen] using congrArg List.length henc
  have hl1 : (iter info.ranges).length = len info.ranges := length_iter _
  have hl2 : (iter info'.ranges).length = len info.ranges := by rw [length_iter, hlen']
  -- position by position, the encodings name the same byte
  have hpos : ∀ j (h1 : j < (iter info.ranges).length) (h2 : j < (iter info'.ranges).length)
      (h3 : j < o.data.length), info.direction = info'.direction ∧
        (iter info.ranges)[j] = (iter info'.ranges)[j] ∧
        o.data[j] = (ts.get info'.direction).getD (iter info'.ranges)[j] 0 := by
    intro j h1 h2 h3
    have hj := congrArg (·[j]?) henc
    simp only [List.getElem?_zipWith, List.getElem?_map, List.getElem?_eq_getElem h1,
      List.getElem?_eq_getElem h2, List.getElem?_eq_getElem h3, Option.map_some,
      Option.some.injEq] at hj
    exact hinj _ _ _ _ _ _ (hin _ (mem_iter.1 (List.getElem_mem h1)))
      (hin' _ (mem_iter.1 (List.getElem_mem h2))) hj
  have hpos0 : 0 < len info.ranges := Finset.card_pos.2 hne
  obtain ⟨hd, -, -⟩ := hpos 0 (by omega) (by omega) (by omega)
  have hiter : iter info.ranges = iter info'.ranges :=
    List.ext_getElem (by omega) fun j h1 h2 => (hpos j h1 h2 (by omega)).2.1
  refine ⟨hd, iter_injective hiter, ?_⟩
  simp only [OpensTranscript, CommitmentOpening.data]
  apply List.ext_getElem (by simp [hlen])
  intro j h3 h1
  rw [List.length_map] at h1
  obtain ⟨-, hij, hbyte⟩ := hpos j h1 (by omega) h3
  rw [List.getElem_map, hbyte, hij, hd]

variable {header : SessionHeader S R K H} {st st' : VerifyState H} {id : CommitmentId}
  {info : CommitmentInfo} {opening : CommitmentOpening N}

/-- **A verified opening.** A successful step found the opening within the bound on the data,
as long as its ranges, disjoint from what was opened before, non-empty and inside the transcript;
it scattered the opened bytes and recorded the index, the expected hash and the ranges. -/
theorem verifyOpening_eq_ok (h : verifyOpening prim header st (id, info, opening) = .ok st') :
    st.totalOpened + len info.ranges ≤ maxTotalCommittedData ∧
      opening.data.length = len info.ranges ∧
      Disjoint (st.ranges.get info.direction) info.ranges ∧
      info.ranges.Nonempty ∧ (∀ i ∈ info.ranges, i < header.transcriptLen info.direction) ∧
      ∃ moved, scatter (iterRanges info.ranges) (st.dest.get info.direction, opening.data) =
        some moved ∧
        st' = { indices := st.indices ++ [id.toNat]
                expectedHashes :=
                  st.expectedHashes ++ [expectedHash prim header.encoderSeed info opening]
                dest := st.dest.set info.direction moved.1
                ranges := st.ranges.set info.direction (st.ranges.get info.direction ∪ info.ranges)
                totalOpened := st.totalOpened + len info.ranges } := by
  unfold verifyOpening at h
  dsimp only at h
  split_ifs at h with htot hlen hdisj
  split at h
  · cases h
  rename_i m hm
  split_ifs at h with hgt
  split at h
  · cases h
  rename_i c hc
  split at h
  · cases h
  rename_i moved hmoved
  cases h
  have hhash : c.hash = expectedHash prim header.encoderSeed info opening := by
    have hr : (opening.recover prim ((getValueIds info.ranges info.direction).map fun vid =>
        prim.encode header.encoderSeed (encodingId prim vid))).map Commitment.hash =
          some (expectedHash prim header.encoderSeed info opening) :=
      recover_hash (not_not.1 hlen)
    rw [hc, Option.map_some] at hr
    exact Option.some.inj hr
  refine ⟨Nat.le_of_not_lt htot, not_not.1 hlen, hdisj, nonempty_of_max_eq hm,
    fun i hi => lt_of_lt_of_le (lt_of_max_eq hm hi) (Nat.le_of_not_lt hgt), moved, hmoved, ?_⟩
  rw [hhash]

/-- **An honest opening verifies.** An opening of bytes of the transcripts, inside them, within
the bound on the data and disjoint from what was opened before, passes every check and writes
the transcript's bytes on its ranges. -/
theorem verifyOpening_of_opens {ts : ByDirection (List UInt8)}
    (hlens : ∀ d, header.transcriptLen d = (ts.get d).length)
    (hopen : OpensTranscript ts info opening) (hne : info.ranges.Nonempty)
    (hin : ∀ i ∈ info.ranges, i < (ts.get info.direction).length)
    (htotal : st.totalOpened + len info.ranges ≤ maxTotalCommittedData)
    (hdisj : Disjoint (st.ranges.get info.direction) info.ranges)
    (hdest : (st.dest.get info.direction).length = (ts.get info.direction).length) :
    verifyOpening prim header st (id, info, opening) = .ok
      { indices := st.indices ++ [id.toNat]
        expectedHashes := st.expectedHashes ++ [expectedHash prim header.encoderSeed info opening]
        dest := st.dest.set info.direction (overwrite (st.dest.get info.direction)
          (· ∈ info.ranges) ((ts.get info.direction).getD · 0))
        ranges := st.ranges.set info.direction (st.ranges.get info.direction ∪ info.ranges)
        totalOpened := st.totalOpened + len info.ranges } := by
  obtain ⟨m, hm⟩ := max_isSome hne
  have hlen : opening.data.length = len info.ranges := by
    rw [hopen, List.length_map, length_iter]
  have hle : m ≤ header.transcriptLen info.direction := by
    rw [hlens]
    exact max_le_of_lt hm hin
  have hr : (opening.recover prim ((getValueIds info.ranges info.direction).map fun vid =>
      prim.encode header.encoderSeed (encodingId prim vid))).map Commitment.hash =
        some (expectedHash prim header.encoderSeed info opening) := recover_hash hlen
  obtain ⟨c, hc, hhash⟩ := Option.map_eq_some_iff.1 hr
  have hscatter := scatter_iterRanges ((ts.get info.direction).getD · 0) info.ranges
    (st.dest.get info.direction) (fun i hi => hdest ▸ hin i hi)
  rw [← hopen] at hscatter
  unfold verifyOpening
  dsimp only
  rw [if_neg (not_lt.2 htotal), if_neg (not_not.2 hlen), if_neg (not_not.2 hdisj)]
  simp only [hm, if_neg (not_lt.2 hle), hc, hlen, ne_eq, not_true_eq_false, if_false, hscatter,
    hhash]

/-- The destination buffers have the transcripts' lengths and hold their bytes on the opened
ranges. -/
structure Agrees (ts : ByDirection (List UInt8)) (st : VerifyState H) : Prop where
  length_dest : ∀ d, (st.dest.get d).length = (ts.get d).length
  dest_eq : ∀ d, ∀ i ∈ st.ranges.get d,
    i < (ts.get d).length ∧ (st.dest.get d).getD i 0 = (ts.get d).getD i 0

theorem Agrees.init {ts : ByDirection (List UInt8)}
    (hlens : ∀ d, header.transcriptLen d = (ts.get d).length) :
    Agrees ts (VerifyState.init header) where
  length_dest d := by
    have hd := hlens d
    cases d <;> simpa [VerifyState.init, SessionHeader.transcriptLen] using hd
  dest_eq d := by cases d <;> simp [VerifyState.init]

/-- **Step.** A verified honest opening keeps the buffers agreeing with the transcripts. -/
theorem Agrees.of_verifyOpening {ts : ByDirection (List UInt8)} (hag : Agrees ts st)
    (hlens : ∀ d, header.transcriptLen d = (ts.get d).length)
    (hopen : OpensTranscript ts info opening)
    (h : verifyOpening prim header st (id, info, opening) = .ok st') : Agrees ts st' := by
  obtain ⟨-, -, -, -, hin, moved, hmoved, rfl⟩ := verifyOpening_eq_ok h
  have hscatter := scatter_iterRanges ((ts.get info.direction).getD · 0) info.ranges
    (st.dest.get info.direction) (fun i hi => (hag.length_dest _).symm ▸ hlens _ ▸ hin i hi)
  rw [← hopen, hmoved, Option.some.injEq] at hscatter
  subst hscatter
  constructor
  · intro d
    by_cases hd : d = info.direction
    · subst hd
      simp [hag.length_dest]
    · simp [hd, hag.length_dest]
  · intro d i hi
    by_cases hd : d = info.direction
    · subst hd
      simp only [ByDirection.get_set_self, Finset.mem_union] at hi ⊢
      rw [getD_overwrite]
      by_cases hr : i ∈ info.ranges
      · have hlt := hlens _ ▸ hin i hr
        simp [hr, hlt, hag.length_dest]
      · have hold := hag.dest_eq _ i (hi.resolve_right hr)
        exact ⟨hold.1, by rw [if_neg fun h => hr h.1]; exact hold.2⟩
    · simp only [ByDirection.get_set_of_ne _ hd] at hi ⊢
      exact hag.dest_eq d i hi

end Opening

/-! ### The loop over the openings -/

/-- The set opened in direction `d` by a list of infos: the union of their ranges in `d`. -/
def openedIn (d : Direction) : List CommitmentInfo → Finset ℕ
  | [] => ∅
  | info :: infos => (if info.direction = d then info.ranges else ∅) ∪ openedIn d infos

theorem mem_openedIn {d : Direction} {infos : List CommitmentInfo} {i : ℕ} :
    i ∈ openedIn d infos ↔ ∃ info ∈ infos, info.direction = d ∧ i ∈ info.ranges := by
  induction infos with
  | nil => simp [openedIn]
  | cons info infos ih =>
    rw [openedIn, Finset.mem_union, ih]
    by_cases hd : info.direction = d <;> simp [hd]

/-- The opened set does not depend on the order of the openings. -/
theorem openedIn_perm {infos infos' : List CommitmentInfo} (h : infos.Perm infos')
    (d : Direction) : openedIn d infos = openedIn d infos' := by
  ext i
  simp only [mem_openedIn]
  exact exists_congr fun info => and_congr_left' h.mem_iff

theorem get_set_union (p : ByDirection (Finset ℕ)) (d d' : Direction) (s : Finset ℕ) :
    (p.set d (p.get d ∪ s)).get d' = p.get d' ∪ if d = d' then s else ∅ := by
  by_cases h : d' = d
  · subst h
    simp
  · simp [ByDirection.get_set_of_ne _ h, Ne.symm h]

section Loop

variable {prim : Primitives S F A H N R P} {header : SessionHeader S R K H}
  {ts : ByDirection (List UInt8)}

/-- **The loop, read back.** After a successful loop the indices and the expected hashes are
those of the openings in order, the opened ranges grew by the openings' ranges, and every
opening had one byte per position and non-empty ranges inside the transcript. -/
theorem foldlM_verifyOpening_eq_ok
    {L : List (CommitmentId × CommitmentInfo × CommitmentOpening N)} {st st' : VerifyState H}
    (h : L.foldlM (verifyOpening prim header) st = .ok st') :
    st'.indices = st.indices ++ L.map (·.1.toNat) ∧
      st'.expectedHashes =
        st.expectedHashes ++ L.map (fun e => expectedHash prim header.encoderSeed e.2.1 e.2.2) ∧
      (∀ d, st'.ranges.get d = st.ranges.get d ∪ openedIn d (L.map (·.2.1))) ∧
      ∀ e ∈ L, e.2.2.data.length = len e.2.1.ranges ∧ e.2.1.ranges.Nonempty ∧
        ∀ i ∈ e.2.1.ranges, i < header.transcriptLen e.2.1.direction := by
  induction L generalizing st with
  | nil =>
    cases h
    simp [openedIn]
  | cons e L ih =>
    obtain ⟨id, info, opening⟩ := e
    rw [List.foldlM_cons, Outcome.bind_eq_ok] at h
    obtain ⟨st₁, h₁, hrest⟩ := h
    obtain ⟨-, hlen, -, hne, hin, moved, -, rfl⟩ := verifyOpening_eq_ok h₁
    obtain ⟨hidx, hhash, hranges, hall⟩ := ih hrest
    refine ⟨by simp [hidx], by simp [hhash], fun d => ?_, ?_⟩
    · rw [hranges d, get_set_union, List.map_cons, openedIn, Finset.union_assoc]
    · intro e he
      rcases List.mem_cons.1 he with rfl | he
      · exact ⟨hlen, hne, hin⟩
      · exact hall e he

/-- **Run.** A loop over honest openings keeps the buffers agreeing with the transcripts. -/
theorem Agrees.of_foldlM (hlens : ∀ d, header.transcriptLen d = (ts.get d).length)
    {L : List (CommitmentId × CommitmentInfo × CommitmentOpening N)} {st st' : VerifyState H}
    (hag : Agrees ts st) (hopen : ∀ e ∈ L, OpensTranscript ts e.2.1 e.2.2)
    (h : L.foldlM (verifyOpening prim header) st = .ok st') : Agrees ts st' := by
  induction L generalizing st with
  | nil =>
    cases h
    exact hag
  | cons e L ih =>
    obtain ⟨id, info, opening⟩ := e
    rw [List.foldlM_cons, Outcome.bind_eq_ok] at h
    obtain ⟨st₁, h₁, hrest⟩ := h
    exact ih (hag.of_verifyOpening hlens (hopen _ List.mem_cons_self) h₁)
      (fun e he => hopen e (List.mem_cons_of_mem _ he)) hrest

variable (prim) in
/-- **Honest openings verify.** Honest openings inside the transcripts, disjoint within each
direction and from what was opened before, and within the bound on the data, pass the loop. -/
theorem foldlM_verifyOpening_of_opens (hlens : ∀ d, header.transcriptLen d = (ts.get d).length)
    {L : List (CommitmentId × CommitmentInfo × CommitmentOpening N)} {st : VerifyState H}
    (hag : Agrees ts st)
    (hopen : ∀ e ∈ L, OpensTranscript ts e.2.1 e.2.2 ∧ e.2.1.ranges.Nonempty ∧
      ∀ i ∈ e.2.1.ranges, i < (ts.get e.2.1.direction).length)
    (hdisj : (L.map (·.2.1)).Pairwise fun a b => a.direction = b.direction →
      Disjoint a.ranges b.ranges)
    (hfresh : ∀ e ∈ L, Disjoint (st.ranges.get e.2.1.direction) e.2.1.ranges)
    (htotal : st.totalOpened + (L.map fun e => len e.2.1.ranges).sum ≤ maxTotalCommittedData) :
    ∃ st', L.foldlM (verifyOpening prim header) st = .ok st' := by
  induction L generalizing st with
  | nil => exact ⟨st, rfl⟩
  | cons e L ih =>
    obtain ⟨id, info, opening⟩ := e
    obtain ⟨hop, hne, hin⟩ := hopen _ List.mem_cons_self
    rw [List.map_cons, List.pairwise_cons] at hdisj
    rw [List.map_cons, List.sum_cons] at htotal
    dsimp only at htotal
    have h₁ : verifyOpening prim header st (id, info, opening) = .ok _ :=
      verifyOpening_of_opens hlens hop hne hin (by omega) (hfresh _ List.mem_cons_self) (hag.length_dest _)
    -- what this opening adds is disjoint from every later opening of its direction
    have hfresh' : ∀ e ∈ L, Disjoint ((st.ranges.set info.direction
        (st.ranges.get info.direction ∪ info.ranges)).get e.2.1.direction) e.2.1.ranges := by
      intro e he
      rw [get_set_union]
      refine Finset.disjoint_union_left.2 ⟨hfresh e (List.mem_cons_of_mem _ he), ?_⟩
      split_ifs with hd
      · exact hdisj.1 e.2.1 (List.mem_map_of_mem he) hd
      · exact Finset.disjoint_empty_left _
    obtain ⟨st', hst'⟩ := ih (hag.of_verifyOpening hlens hop h₁)
      (fun e he => hopen e (List.mem_cons_of_mem _ he)) hdisj.2 hfresh' (by simp only; omega)
    exact ⟨st', by rw [List.foldlM_cons, h₁, Outcome.ok_bind]; exact hst'⟩

/-- The redacted transcript built from a buffer that agrees with the transcript is the
transcript redacted outside the opened ranges. -/
theorem Agrees.new_slicesOf {st : VerifyState H} (hag : Agrees ts st) (d : Direction) :
    RedactedTranscript.new (ts.get d).length (slicesOf (st.dest.get d) (st.ranges.get d)) =
      some (RedactedTranscript.ofSet (ts.get d) (st.ranges.get d)) := by
  have hin : ∀ i ∈ st.ranges.get d, i < (st.dest.get d).length := fun i hi => by
    rw [hag.length_dest]
    exact (hag.dest_eq d i hi).1
  rw [← hag.length_dest d, new_ofRanges _ _ hin,
    ofSet_congr (hag.length_dest d) fun i hi => (hag.dest_eq d i hi).2]

/-- **Verification after the loop.** When the loop leaves buffers that agree with the transcripts
and the Merkle proof accepts its indices and hashes, `verify` returns the transcripts redacted
outside the opened ranges. -/
theorem verify_of_foldlM (hlens : ∀ d, header.transcriptLen d = (ts.get d).length)
    {p : SubstringsProof N P} {st : VerifyState H}
    (hloop : p.openings.entries.foldlM (verifyOpening prim header) (VerifyState.init header) =
      .ok st)
    (hag : Agrees ts st)
    (hmerkle : p.inclusionProof.verify prim header.merkleRoot st.indices st.expectedHashes =
      .ok ()) :
    p.verify prim header = .ok (RedactedTranscript.ofSet ts.sent (st.ranges.get .sent),
      RedactedTranscript.ofSet ts.recv (st.ranges.get .received)) := by
  have hs : RedactedTranscript.new header.sentLen
      (slicesOf (st.dest.get .sent) (st.ranges.get .sent)) =
        some (RedactedTranscript.ofSet ts.sent (st.ranges.get .sent)) := by
    rw [show header.sentLen = (ts.get .sent).length from hlens .sent]
    exact hag.new_slicesOf .sent
  have hr : RedactedTranscript.new header.recvLen
      (slicesOf (st.dest.get .received) (st.ranges.get .received)) =
        some (RedactedTranscript.ofSet ts.recv (st.ranges.get .received)) := by
    rw [show header.recvLen = (ts.get .received).length from hlens .received]
    exact hag.new_slicesOf .received
  simp only [SubstringsProof.verify, hloop, Outcome.ok_bind, hmerkle, Outcome.mapErr, hs, hr,
    Outcome.ofOption_some, Outcome.pure_eq]

/-- A successful `verify` passed the loop and the Merkle proof. -/
theorem verify_eq_ok {p : SubstringsProof N P} {res : RedactedTranscript × RedactedTranscript}
    (h : p.verify prim header = .ok res) :
    ∃ st, p.openings.entries.foldlM (verifyOpening prim header) (VerifyState.init header) =
        .ok st ∧
      p.inclusionProof.verify prim header.merkleRoot st.indices st.expectedHashes = .ok () := by
  unfold SubstringsProof.verify at h
  obtain ⟨st, hloop, h⟩ := Outcome.bind_eq_ok.1 h
  obtain ⟨u, hm, -⟩ := Outcome.bind_eq_ok.1 h
  exact ⟨st, hloop, Outcome.mapErr_eq_ok.1 hm⟩

end Loop

/-! ### Revealing logged commitments -/

/-- The entry `reveal_by_id` adds for the commitment `id` to `info` under `nonce`: the info and
the opening of the transcripts' bytes at its ranges. -/
def revealedEntry (ts : ByDirection (List UInt8)) (id : CommitmentId) (e : CommitmentInfo × N) :
    CommitmentId × CommitmentInfo × CommitmentOpening N :=
  (id, e.1, .blake3 ⟨(iter e.1.ranges).map ((ts.get e.1.direction).getD · 0), e.2⟩)

section Reveal

variable {prim : Primitives S F A H N R P} {seed : S} {ts : ByDirection (List UInt8)}
  {b : TranscriptCommitmentBuilder H N A} {log : List (CommitmentInfo × N)}

/-- What the builder builds: its leaves, commitments and infos. -/
abbrev TranscriptCommitmentBuilder.commitmentsOf (b : TranscriptCommitmentBuilder H N A) :
    TranscriptCommitments H N :=
  ⟨⟨b.merkleLeaves⟩, b.commitments, b.commitmentInfo⟩

/-- The infos of logged ids are those of the log. -/
theorem filterMap_getInfo (hr : Represents prim seed ts b log) {ids : List CommitmentId}
    (hids : ∀ id ∈ ids, id.toNat < log.length) :
    ids.filterMap b.commitmentsOf.getInfo = ids.pmap (fun id h => log[id.toNat].1) hids := by
  induction ids with
  | nil => rfl
  | cons id ids ih =>
    have hget := hr.getByLeft (hids id List.mem_cons_self)
    rw [commitmentIdOf_toNat] at hget
    rw [List.filterMap_cons, TranscriptCommitments.getInfo, hget, List.pmap_cons,
      ih fun i hi => hids i (List.mem_cons_of_mem _ hi)]

/-- **Reveal.** Revealing a logged commitment not revealed yet adds its honest opening. -/
theorem revealById_of_represents (hr : Represents prim seed ts b log)
    {sb : SubstringsProofBuilder H N} (hcomms : sb.commitments = b.commitmentsOf)
    (htx : sb.transcriptTx = ⟨ts.sent⟩) (hrx : sb.transcriptRx = ⟨ts.recv⟩) {id : CommitmentId}
    (hk : id.toNat < log.length) (hfresh : id ∉ sb.openings.keys) :
    ∃ sb', sb.revealById id = .ok sb' ∧ sb'.commitments = sb.commitments ∧
      sb'.transcriptTx = sb.transcriptTx ∧ sb'.transcriptRx = sb.transcriptRx ∧
      sb'.openings.entries = sb.openings.entries ++ [revealedEntry ts id log[id.toNat]] := by
  have hget := hr.get? hk
  have hinfo := hr.getByLeft hk
  rw [commitmentIdOf_toNat] at hget hinfo
  obtain ⟨hne, hin⟩ := hr.inBounds _ (List.getElem_mem hk)
  obtain ⟨m, hm⟩ := max_isSome hne
  -- the transcript of the commitment's direction has its bytes at the ranges
  have hbytes : (match log[id.toNat].1.direction with
      | .sent => sb.transcriptTx
      | .received => sb.transcriptRx).getBytesInRanges log[id.toNat].1.ranges =
        some ((iter log[id.toNat].1.ranges).map
          ((ts.get log[id.toNat].1.direction).getD · 0)) := by
    cases hd : log[id.toNat].1.direction
    all_goals
      rw [hd] at hin
      simp only [htx, hrx]
      exact getBytesInRanges_eq hm (max_le_of_lt hm hin)
  have hnone : sb.openings.get? id = none := AssocMap.get?_eq_none_iff.2 hfresh
  unfold SubstringsProofBuilder.revealById
  simp only [hcomms, TranscriptCommitments.get, TranscriptCommitments.getInfo, hget, hinfo]
  rw [← hcomms, hbytes]
  simp only [AssocMap.insert_snd, hnone, Option.isSome_none, Bool.false_eq_true, if_false]
  exact ⟨_, rfl, rfl, rfl, rfl, AssocMap.insert_of_not_mem hfresh _⟩

/-- **Reveal run.** Revealing distinct logged commitments, none revealed yet, adds their honest
openings in order. -/
theorem foldlM_revealById (hr : Represents prim seed ts b log) (sb : SubstringsProofBuilder H N)
    (hcomms : sb.commitments = b.commitmentsOf) (htx : sb.transcriptTx = ⟨ts.sent⟩)
    (hrx : sb.transcriptRx = ⟨ts.recv⟩) {ids : List CommitmentId}
    (hids : ∀ id ∈ ids, id.toNat < log.length) (hnd : ids.Nodup)
    (hfresh : ∀ id ∈ ids, id ∉ sb.openings.keys) :
    ∃ sb', ids.foldlM SubstringsProofBuilder.revealById sb = .ok sb' ∧
      sb'.commitments = sb.commitments ∧
      sb'.openings.entries = sb.openings.entries ++
        ids.pmap (fun id h => revealedEntry ts id log[id.toNat]) hids := by
  induction ids generalizing sb with
  | nil => exact ⟨sb, rfl, rfl, by simp⟩
  | cons id ids ih =>
    rw [List.nodup_cons] at hnd
    obtain ⟨sb₁, h₁, hc₁, htx₁, hrx₁, he₁⟩ := revealById_of_represents hr hcomms htx hrx
      (hids id List.mem_cons_self) (hfresh id List.mem_cons_self)
    -- the ids still to reveal are neither revealed before nor the one just revealed
    have hfresh₁ : ∀ id' ∈ ids, id' ∉ sb₁.openings.keys := by
      intro id' hid' hmem
      rw [AssocMap.keys, he₁, List.map_append, List.mem_append] at hmem
      rcases hmem with hmem | hmem
      · exact hfresh id' (List.mem_cons_of_mem _ hid') hmem
      · simp only [revealedEntry, List.map_cons, List.map_nil, List.mem_singleton] at hmem
        exact hnd.1 (hmem ▸ hid')
    obtain ⟨sb', h', hc', he'⟩ := ih sb₁ (hc₁.trans hcomms) (htx₁.trans htx) (hrx₁.trans hrx)
      (fun i hi => hids i (List.mem_cons_of_mem _ hi)) hnd.2 hfresh₁
    refine ⟨sb', ?_, hc'.trans hc₁, ?_⟩
    · rw [List.foldlM_cons, h₁, Outcome.ok_bind]
      exact h'
    · rw [he', he₁, List.pmap_cons, List.append_assoc, List.singleton_append]

/-- `build` on revealed openings: one Merkle proof for their sorted indices. -/
theorem build_eq (prim : Primitives S F A H N R P) (sb : SubstringsProofBuilder H N) :
    sb.build prim = .ok ⟨sb.openings, ⟨prim.proof sb.commitments.merkleTree.leaves
      ((sb.openings.keys.map CommitmentId.toNat).insertionSort (· ≤ ·)),
      sb.commitments.merkleTree.leaves.length⟩⟩ := by
  have hnd : (sb.openings.keys.map CommitmentId.toNat).Nodup :=
    sb.openings.nodup.map CommitmentId.toNat_injective
  have hsorted : ((sb.openings.keys.map CommitmentId.toNat).insertionSort (· ≤ ·)).Pairwise
      (· < ·) :=
    ((List.pairwise_insertionSort _ _).and ((List.perm_insertionSort _ _).nodup_iff.2 hnd)).imp
      fun h => lt_of_le_of_ne h.1 h.2
  unfold SubstringsProofBuilder.build
  simp only [MerkleTree.proof, if_pos hsorted]

end Reveal

/-! ### Idealised primitives

The assumptions of the theorems below hold together. The primitives `hashPrimitives` keep the
encodings as the commitment and the leaves as the Merkle root, and hash an id to its own bytes,
which tells apart the value ids of short transcripts; `transcriptProvider` encodes the bytes of
the transcripts `[1, 2, 3]` sent and `[4, 5, 6]` received. -/

/-- Primitives whose commitment keeps the encodings, whose Merkle root keeps the leaves, and whose
hash of a string is its bytes, padded with zeros. -/
def hashPrimitives : Primitives Unit UInt64 (UInt64 × UInt8) (List (UInt64 × UInt8)) Unit
    (List (List (UInt64 × UInt8))) Unit where
  blake3 bs k := bs.getD k 0
  encode _ x := x
  select f b := (f, b)
  commit encodings _ := encodings
  root leaves := leaves
  proof _ _ := ()
  verify _ root indices hashes _ :=
    (indices.zip hashes).all fun ih => decide (root[ih.1]? = some ih.2)

theorem hashPrimitives_complete : MerkleComplete hashPrimitives := by
  intro leaves indices hashes _ _ hleaf
  simp only [hashPrimitives, List.all_eq_true, decide_eq_true_eq]
  exact hleaf

theorem hashPrimitives_binding : MerkleBinding hashPrimitives := by
  intro leaves _ indices hashes _ h
  simpa [hashPrimitives, List.all_eq_true] using h

theorem hashPrimitives_commitBinding : CommitBinding hashPrimitives :=
  fun _ _ _ _ h => ⟨h, rfl⟩

theorem activeEncoding_hashPrimitives (id : String) (b : UInt8) :
    activeEncoding hashPrimitives () id b = (encodingId hashPrimitives id, b) := rfl

/-- The value ids of three bytes in each direction have distinct encoding ids. -/
theorem encodingId_valueId_inj (d d' : Direction) :
    ∀ i < 3, ∀ i' < 3, encodingId hashPrimitives (valueId d i) =
      encodingId hashPrimitives (valueId d' i') → d = d' ∧ i = i' := by
  cases d <;> cases d' <;> decide +kernel

/-- An encoder that tells apart the bytes of transcripts of three bytes each. -/
theorem hashPrimitives_injective : EncodingInjective hashPrimitives () ⟨[1, 2, 3], [4, 5, 6]⟩ := by
  intro d d' i i' b b' hi hi' h
  have hlen : ∀ d : Direction, (ByDirection.get ⟨[1, 2, 3], [4, 5, 6]⟩ d : List UInt8).length = 3 :=
    fun d => by cases d <;> rfl
  rw [hlen] at hi hi'
  rw [activeEncoding_hashPrimitives, activeEncoding_hashPrimitives, Prod.mk.injEq] at h
  obtain ⟨hd, hii'⟩ := encodingId_valueId_inj d d' i hi i' hi' h.1
  exact ⟨hd, hii', h.2⟩

/-- The byte of the transcripts `ts` whose value id is `id`, or `0`. -/
def byteOfValueId (ts : ByDirection (List UInt8)) (id : String) : UInt8 :=
  ([Direction.sent, .received].findSome? fun d =>
    ((List.range (ts.get d).length).find? fun i => valueId d i = id).map ((ts.get d).getD · 0)).getD 0

/-- The provider that encodes the bytes of the transcripts `ts`, found by their value ids. -/
def transcriptProvider (ts : ByDirection (List UInt8)) : List String → Option (List (UInt64 × UInt8)) :=
  fun ids => some (ids.map fun id => activeEncoding hashPrimitives () id (byteOfValueId ts id))

theorem byteOfValueId_valueId (d : Direction) :
    ∀ i < 3, byteOfValueId ⟨[1, 2, 3], [4, 5, 6]⟩ (valueId d i) =
      (ByDirection.get ⟨[1, 2, 3], [4, 5, 6]⟩ d : List UInt8).getD i 0 := by
  cases d <;> decide +kernel

theorem transcriptProvider_encodes : EncodesTranscripts hashPrimitives ()
    ⟨[1, 2, 3], [4, 5, 6]⟩ (transcriptProvider ⟨[1, 2, 3], [4, 5, 6]⟩) := by
  intro ranges d hin
  simp only [transcriptProvider, getValueIds, activeEncodings, List.map_map, Option.some.injEq]
  apply List.map_congr_left
  intro i hi
  have hi3 : i < 3 := by
    have := hin i (mem_iter.1 hi)
    cases d <;> simpa using this
  simp only [Function.comp_apply, byteOfValueId_valueId d i hi3]

/-- The builder for transcripts of three bytes each. -/
def builder3 : TranscriptCommitmentBuilder (List (UInt64 × UInt8)) Unit (UInt64 × UInt8) :=
  TranscriptCommitmentBuilder.new (transcriptProvider ⟨[1, 2, 3], [4, 5, 6]⟩) 3 3

/-- The builder after three commits: to bytes `0, 1` and to byte `2` of the sent transcript, and
to bytes `0, 2` of the received one. -/
def builder3a : TranscriptCommitmentBuilder (List (UInt64 × UInt8)) Unit (UInt64 × UInt8) :=
  (builder3.commit hashPrimitives {0, 1} .sent ()).2

def builder3b : TranscriptCommitmentBuilder (List (UInt64 × UInt8)) Unit (UInt64 × UInt8) :=
  (builder3a.commit hashPrimitives {2} .sent ()).2

def builder3c : TranscriptCommitmentBuilder (List (UInt64 × UInt8)) Unit (UInt64 × UInt8) :=
  (builder3b.commit hashPrimitives {0, 2} .received ()).2

theorem commits_builder3c :
    Commits hashPrimitives builder3 builder3c [commitmentIdOf 0, commitmentIdOf 1, commitmentIdOf 2] := by
  have h₁ : builder3.commit hashPrimitives {0, 1} .sent () = (.ok (commitmentIdOf 0), builder3a) :=
    rfl
  have h₂ : builder3a.commit hashPrimitives {2} .sent () = (.ok (commitmentIdOf 1), builder3b) := rfl
  have h₃ : builder3b.commit hashPrimitives {0, 2} .received () =
      (.ok (commitmentIdOf 2), builder3c) := rfl
  exact ((Commits.nil.commit h₁).commit h₂).commit h₃

theorem build_builder3c : builder3c.build = .ok builder3c.commitmentsOf := by
  rfl

/-! ### Selective disclosure -/

/-- **Selective disclosure round trip.** After successful commits to the transcripts `tx` and
`rx` with an encoding provider that gives the active encodings of their bytes, revealing distinct
commitments whose ranges do not overlap within a direction and whose sizes stay within the bound
builds a proof that verifies, against the builder's root and the encoder seed, in whatever order
the openings are iterated: it gives each transcript with its bytes on the revealed ranges of its
direction and zero elsewhere. -/
theorem substringsProof_roundTrip (prim : Primitives S F A H N R P)
    (hcomplete : MerkleComplete prim) {seed : S} {tx rx : List UInt8}
    {provider : List String → Option (List A)}
    (hprov : EncodesTranscripts prim seed ⟨tx, rx⟩ provider)
    {b : TranscriptCommitmentBuilder H N A} {ids : List CommitmentId}
    (hrun : Commits prim (TranscriptCommitmentBuilder.new provider tx.length rx.length) b ids)
    {comms : TranscriptCommitments H N} (hbuild : b.build = .ok comms)
    (revealed : List CommitmentId) (hnd : revealed.Nodup) (hsub : ∀ id ∈ revealed, id ∈ ids)
    (hdisj : (revealed.filterMap comms.getInfo).Pairwise fun i j =>
      i.direction = j.direction → Disjoint i.ranges j.ranges)
    (htotal : ((revealed.filterMap comms.getInfo).map fun i => len i.ranges).sum ≤
      maxTotalCommittedData)
    (summary : HandshakeSummary K H) :
    ∃ builder proof,
      revealed.foldlM SubstringsProofBuilder.revealById
          (SubstringsProofBuilder.new comms ⟨tx⟩ ⟨rx⟩) = .ok builder ∧
        builder.build prim = .ok proof ∧
        ∀ openings : Openings N, openings.entries.Perm proof.openings.entries →
          SubstringsProof.verify prim ⟨openings, proof.inclusionProof⟩
              ⟨seed, comms.merkleRoot prim, tx.length, rx.length, summary⟩ =
            .ok (RedactedTranscript.ofSet tx (openedIn .sent (revealed.filterMap comms.getInfo)),
              RedactedTranscript.ofSet rx
                (openedIn .received (revealed.filterMap comms.getInfo))) := by
  have hlens := SessionHeader.transcriptLen_of_lengths seed (comms.merkleRoot prim) tx rx summary
  obtain ⟨log, hr, rfl⟩ := Commits.represents prim hprov hrun
  obtain ⟨rfl, -⟩ := TranscriptCommitmentBuilder.build_eq_ok hbuild
  -- the revealed ids are positions of the log
  have hids : ∀ id ∈ revealed, id.toNat < log.length := by
    intro id hid
    obtain ⟨k, hk, rfl⟩ := List.mem_map.1 (hsub id hid)
    rw [List.mem_range] at hk
    rw [toNat_commitmentIdOf (lt_of_lt_of_le hk hr.length_le)]
    exact hk
  obtain ⟨sb, hreveal, hsbc, hentries⟩ := foldlM_revealById hr
    (SubstringsProofBuilder.new b.commitmentsOf ⟨tx⟩ ⟨rx⟩) rfl rfl rfl hids hnd
    (fun _ _ => by simp [SubstringsProofBuilder.new, AssocMap.keys_empty])
  simp only [SubstringsProofBuilder.new, AssocMap.empty, List.nil_append] at hsbc hentries
  have hinfos : revealed.filterMap b.commitmentsOf.getInfo = sb.openings.entries.map (·.2.1) := by
    rw [filterMap_getInfo hr hids, hentries, List.map_pmap]
    rfl
  refine ⟨sb, _, hreveal, build_eq prim sb, ?_⟩
  intro openings hperm
  rw [hinfos] at hdisj htotal ⊢
  -- every opening is the honest opening of a logged commitment
  have hhonest : ∀ e ∈ openings.entries, ∃ id, ∃ h : id.toNat < log.length,
      e = revealedEntry ⟨tx, rx⟩ id log[id.toNat] := by
    intro e he
    rw [hperm.mem_iff, hentries, List.mem_pmap] at he
    obtain ⟨id, hmem, rfl⟩ := he
    exact ⟨id, hids id hmem, rfl⟩
  have hopen : ∀ e ∈ openings.entries, OpensTranscript ⟨tx, rx⟩ e.2.1 e.2.2 ∧
      e.2.1.ranges.Nonempty ∧ ∀ i ∈ e.2.1.ranges, i < ((⟨tx, rx⟩ : ByDirection _).get e.2.1.direction).length := by
    intro e he
    obtain ⟨id, h, rfl⟩ := hhonest e he
    exact ⟨rfl, hr.inBounds _ (List.getElem_mem h)⟩
  have hinfos' := hperm.map (·.2.1)
  obtain ⟨st, hloop⟩ := foldlM_verifyOpening_of_opens prim hlens (Agrees.init hlens) hopen
    ((hinfos'.pairwise_iff fun h hd => (h hd.symm).symm).2 hdisj)
    (fun e _ => by cases e.2.1.direction <;> exact Finset.disjoint_empty_left _)
    (by
      rw [VerifyState.init, Nat.zero_add, (hperm.map fun e => len e.2.1.ranges).sum_eq]
      rw [List.map_map] at htotal
      exact htotal)
  obtain ⟨hidx, hhash, hranges, -⟩ := foldlM_verifyOpening_eq_ok hloop
  simp only [VerifyState.init, List.nil_append] at hidx hhash hranges
  have hag := Agrees.of_foldlM hlens (Agrees.init hlens) (fun e he => (hopen e he).1) hloop
  -- the proof built for the sorted ids verifies the expected hashes, in the loop's order
  have hmerkle : (⟨prim.proof sb.commitments.merkleTree.leaves
      ((sb.openings.keys.map CommitmentId.toNat).insertionSort (· ≤ ·)),
      sb.commitments.merkleTree.leaves.length⟩ : MerkleProof P).verify prim
      (prim.root b.merkleLeaves) st.indices st.expectedHashes = .ok () := by
    rw [hsbc]
    have hkeys : (sb.openings.keys.map CommitmentId.toNat).Perm st.indices := by
      rw [hidx, AssocMap.keys, List.map_map]
      exact (hperm.map _).symm
    rw [insertionSort_eq_of_perm hkeys]
    apply MerkleProof.verify_of_leaves hcomplete
    · rw [hidx, hhash, List.length_map, List.length_map]
    · have hnd' := openings.nodup.map CommitmentId.toNat_injective
      rw [List.map_map] at hnd'
      rw [hidx]
      exact hnd'
    · intro ih hih
      rw [hidx, hhash, List.zip_map', List.mem_map] at hih
      obtain ⟨e, he, rfl⟩ := hih
      obtain ⟨id, h, rfl⟩ := hhonest e he
      simp only [revealedEntry]
      rw [hr.getElem?_leaves, List.getElem?_eq_getElem h, Option.map_some]
      exact congrArg some (expectedHash_of_opens (hopen _ he).1).symm
  rw [verify_of_foldlM hlens hloop hag hmerkle, hranges .sent, hranges .received]
  simp only [ByDirection.get_sent, ByDirection.get_received, Finset.empty_union,
    openedIn_perm hinfos' .sent, openedIn_perm hinfos' .received]

/-- Two of the three commitments revealed: bytes `0, 1` of the sent transcript and `0, 2` of the
received one, the others redacted. -/
theorem substringsProof_roundTrip_three_commits :
    ∃ builder proof,
      [commitmentIdOf 0, commitmentIdOf 2].foldlM SubstringsProofBuilder.revealById
          (SubstringsProofBuilder.new builder3c.commitmentsOf ⟨[1, 2, 3]⟩ ⟨[4, 5, 6]⟩) = .ok builder ∧
        builder.build hashPrimitives = .ok proof ∧
        ∀ openings : Openings Unit, openings.entries.Perm proof.openings.entries →
          SubstringsProof.verify hashPrimitives ⟨openings, proof.inclusionProof⟩
              ⟨(), builder3c.commitmentsOf.merkleRoot hashPrimitives, 3, 3, ⟨0, (), []⟩⟩ =
            .ok (RedactedTranscript.ofSet [1, 2, 3] (openedIn .sent
                ([commitmentIdOf 0, commitmentIdOf 2].filterMap builder3c.commitmentsOf.getInfo)),
              RedactedTranscript.ofSet [4, 5, 6] (openedIn .received
                ([commitmentIdOf 0, commitmentIdOf 2].filterMap builder3c.commitmentsOf.getInfo))) :=
  substringsProof_roundTrip hashPrimitives hashPrimitives_complete transcriptProvider_encodes
    commits_builder3c build_builder3c [commitmentIdOf 0, commitmentIdOf 2] (by decide) (by simp)
    (by decide) (by decide) ⟨0, (), []⟩

/-- **Soundness of selective disclosure.** Let the header carry the Merkle root of a builder's
commitments to the transcripts `tx` and `rx` under the encoder of `seed`, and idealise the
primitives: the Merkle root binds its leaves, a commitment its encodings and nonce, and an
active encoding its byte. Then any substrings proof that verifies authenticates only bytes of the
transcripts, at their positions, and opens each commitment with its own ranges and direction. -/
theorem substringsProof_verify_sound (prim : Primitives S F A H N R P)
    (hbind : MerkleBinding prim) (hcb : CommitBinding prim) {seed : S} {tx rx : List UInt8}
    (hinj : EncodingInjective prim seed ⟨tx, rx⟩) {provider : List String → Option (List A)}
    (hprov : EncodesTranscripts prim seed ⟨tx, rx⟩ provider)
    {b : TranscriptCommitmentBuilder H N A} {ids : List CommitmentId}
    (hrun : Commits prim (TranscriptCommitmentBuilder.new provider tx.length rx.length) b ids)
    {comms : TranscriptCommitments H N} (hbuild : b.build = .ok comms)
    (summary : HandshakeSummary K H) (proof : SubstringsProof N P)
    {sent recv : RedactedTranscript}
    (hverify : proof.verify prim ⟨seed, comms.merkleRoot prim, tx.length, rx.length, summary⟩ =
      .ok (sent, recv)) :
    (∀ i ∈ sent.auth, i < tx.length ∧ sent.data[i]? = tx[i]?) ∧
      (∀ i ∈ recv.auth, i < rx.length ∧ recv.data[i]? = rx[i]?) ∧
      ∀ id info opening, (id, info, opening) ∈ proof.openings.entries →
        comms.getInfo id = some info := by
  have hlens := SessionHeader.transcriptLen_of_lengths seed (comms.merkleRoot prim) tx rx summary
  obtain ⟨log, hr, -⟩ := Commits.represents prim hprov hrun
  obtain ⟨rfl, -⟩ := TranscriptCommitmentBuilder.build_eq_ok hbuild
  obtain ⟨st, hloop, hmerkle⟩ := verify_eq_ok hverify
  obtain ⟨hidx, hhash, -, hall⟩ := foldlM_verifyOpening_eq_ok hloop
  -- the header's root is the root of the builder's leaves
  have hmerkle' : proof.inclusionProof.verify prim (prim.root b.merkleLeaves) st.indices
      st.expectedHashes = .ok () := hmerkle
  have hleaves := MerkleProof.leaves_of_verify hbind hmerkle'
  simp only [VerifyState.init, List.nil_append] at hidx hhash
  rw [hidx, hhash, List.zip_map'] at hleaves
  -- every opening is at a leaf of the builder, hence opens a logged commitment honestly
  have hopens : ∀ e ∈ proof.openings.entries, ∃ k, ∃ hk : k < log.length,
      e.1 = commitmentIdOf k ∧ log[k].1 = e.2.1 ∧ OpensTranscript ⟨tx, rx⟩ e.2.1 e.2.2 := by
    intro e he
    obtain ⟨hlen, hne, hin⟩ := hall e he
    have hleaf := hleaves _ (List.mem_map_of_mem he)
    rw [hr.getElem?_leaves] at hleaf
    obtain ⟨⟨info', nonce⟩, hlog, heq⟩ := Option.map_eq_some_iff.1 hleaf
    obtain ⟨hk, hlogk⟩ := List.getElem?_eq_some_iff.1 hlog
    have hin' := (hr.inBounds _ (List.getElem_mem hk)).2
    rw [hlogk] at hin'
    obtain ⟨hd, hrng, hop⟩ := opens_of_expectedHash hcb hinj hlen hne
      (fun i hi => hlens _ ▸ hin i hi) hin' heq.symm
    refine ⟨e.1.toNat, hk, (commitmentIdOf_toNat e.1).symm, ?_, hop⟩
    rw [hlogk]
    exact CommitmentInfo.eq_of hrng.symm hd.symm
  have hag := Agrees.of_foldlM hlens (Agrees.init hlens)
    (fun e he => (hopens e he).choose_spec.choose_spec.2.2) hloop
  rw [verify_of_foldlM hlens hloop hag hmerkle, Outcome.ok.injEq, Prod.mk.injEq] at hverify
  obtain ⟨rfl, rfl⟩ := hverify
  refine ⟨fun i hi => ⟨(hag.dest_eq .sent i hi).1, getElem?_ofSet_data_of_mem hi⟩,
    fun i hi => ⟨(hag.dest_eq .received i hi).1, getElem?_ofSet_data_of_mem hi⟩, ?_⟩
  intro id info opening he
  obtain ⟨k, hk, hid, hinfo, -⟩ := hopens _ he
  dsimp only at hid hinfo
  rw [hid, TranscriptCommitments.getInfo, hr.getByLeft hk, hinfo]


/-- The honest proof of bytes `0, 1` sent and `0, 2` received. -/
def proof3 : SubstringsProof Unit Unit :=
  ⟨⟨[(commitmentIdOf 0, ⟨.blake3, {0, 1}, .sent⟩, .blake3 ⟨[1, 2], ()⟩),
    (commitmentIdOf 2, ⟨.blake3, {0, 2}, .received⟩, .blake3 ⟨[4, 6], ()⟩)], by decide⟩, ⟨(), 3⟩⟩

theorem substringsProof_verify_sound_three_commits :
    (∀ i ∈ (RedactedTranscript.ofSet [1, 2, 3] {0, 1}).auth, i < ([1, 2, 3] : List UInt8).length ∧
        (RedactedTranscript.ofSet [1, 2, 3] {0, 1}).data[i]? = ([1, 2, 3] : List UInt8)[i]?) ∧
      (∀ i ∈ (RedactedTranscript.ofSet [4, 5, 6] {0, 2}).auth, i < ([4, 5, 6] : List UInt8).length ∧
        (RedactedTranscript.ofSet [4, 5, 6] {0, 2}).data[i]? = ([4, 5, 6] : List UInt8)[i]?) ∧
      ∀ id info opening, (id, info, opening) ∈ proof3.openings.entries →
        builder3c.commitmentsOf.getInfo id = some info :=
  substringsProof_verify_sound hashPrimitives hashPrimitives_binding
    hashPrimitives_commitBinding hashPrimitives_injective transcriptProvider_encodes
    commits_builder3c build_builder3c ⟨0, (), []⟩ proof3 (by decide +kernel)

end Tlsn
