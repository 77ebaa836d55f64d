import Tlsn.Core.Substrings

/-!
# `SubstringsProof::verify` never panics

A proof comes from the prover, so `verify` must refuse any malformed one by an error. It has four
places where a proof could make it panic:
* `Blake3Opening::recover` asserts one encoding per opened byte;
* the backwards copy of the opened bytes subtracts a range's length from what is left of the
  data, and indexes the transcript buffer at the range;
* `MerkleProof::verify` asserts as many hashes as indices, and no repeated index;
* `RedactedTranscript::new` indexes the buffers at the opened ranges.
Each is guarded by something earlier: the length check on the opening's data, the bound
`ranges.max() <= len`, and the openings being a hash map, whose ids are distinct.

The loop over the openings keeps the buffers at the lengths of the transcripts (`Sized`). From
there one opening never panics (`verifyOpening_ne_panic`), nor does the loop, nor a whole `verify`
(`SubstringsProof.verify_ne_panic`). The backwards copy of any data of the size of a range set
inside the buffer uses up the data and writes its `k`-th byte at the set's `k`-th smallest
element (`scatter_iterRanges_data`).
-/

namespace Tlsn

open RangeSet

variable {S F A H N R P K : Type}

/-- `MerkleProof::verify` does not panic on as many hashes as indices, with no index repeated. -/
theorem MerkleProof.verify_ne_panic (prim : Primitives S F A H N R P) (mp : MerkleProof P)
    (root : R) {indices : List ℕ} {hashes : List H} (hlen : indices.length = hashes.length)
    (hnodup : indices.Nodup) : mp.verify prim root indices hashes ≠ .panic := by
  unfold MerkleProof.verify
  rw [if_neg (not_not.2 hlen), if_neg (not_not.2 hnodup)]
  dsimp only
  split <;> simp

/-- The buffers of the loop have the lengths of the transcripts. -/
def Sized (header : SessionHeader S R K H) (st : VerifyState H) : Prop :=
  ∀ d, (st.dest.get d).length = header.transcriptLen d

theorem sized_init (header : SessionHeader S R K H) : Sized header (VerifyState.init header) := by
  intro d
  cases d <;> simp [VerifyState.init, SessionHeader.transcriptLen]

section Loop

variable (prim : Primitives S F A H N R P) {header : SessionHeader S R K H}
  {st st' : VerifyState H}

/-- **One opening never panics.** The length check gives one encoding per opened byte to
`recover`, and with the bound on the ranges it gives the backwards copy data of the size of a
range set inside the buffer. -/
theorem verifyOpening_ne_panic (hsz : Sized header st)
    (entry : CommitmentId × CommitmentInfo × CommitmentOpening N) :
    verifyOpening prim header st entry ≠ .panic := by
  obtain ⟨id, info, opening⟩ := entry
  unfold verifyOpening
  dsimp only
  split_ifs with htot hlen hdisj
  · simp
  · simp
  -- the checks on the data's amount and length, and on duplicates, passed
  swap
  · simp
  split
  · simp
  rename_i m hm
  split_ifs with hgt
  · simp
  -- one encoding per opened byte: the opening's commitment is recovered
  have hrecover : ∃ c, opening.recover prim ((getValueIds info.ranges info.direction).map
      fun vid => prim.encode header.encoderSeed (encodingId prim vid)) = some c := by
    cases opening with
    | blake3 o =>
      have hlen' : ((getValueIds info.ranges info.direction).map
          fun vid => prim.encode header.encoderSeed (encodingId prim vid)).length = o.data.length := by
        rw [List.length_map, length_getValueIds]
        exact (not_not.1 hlen).symm
      exact ⟨_, by rw [CommitmentOpening.recover, Blake3Opening.recover, if_pos hlen']; rfl⟩
  obtain ⟨c, hc⟩ := hrecover
  rw [hc]
  dsimp only
  -- the ranges lie in the buffer and the data has their size: the copy uses it up
  have hin : ∀ i ∈ info.ranges, i < (st.dest.get info.direction).length := fun i hi => by
    rw [hsz]
    exact lt_of_lt_of_le (lt_of_max_eq hm hi) (Nat.le_of_not_lt hgt)
  obtain ⟨dest', hscatter, -⟩ := scatter_iterRanges_data info.ranges hin (not_not.1 hlen)
  rw [hscatter]
  simp

/-- A successful opening keeps the buffers' lengths. -/
theorem Sized.verifyOpening (hsz : Sized header st)
    {entry : CommitmentId × CommitmentInfo × CommitmentOpening N}
    (h : verifyOpening prim header st entry = .ok st') : Sized header st' := by
  obtain ⟨id, info, opening⟩ := entry
  obtain ⟨-, -, -, -, -, moved, hmoved, rfl⟩ := verifyOpening_eq_ok h
  intro d
  by_cases hd : d = info.direction
  · subst hd
    rw [ByDirection.get_set_self, length_scatter hmoved, hsz]
  · rw [ByDirection.get_set_of_ne _ hd, hsz]

/-- **The loop never panics**, and keeps the buffers' lengths. -/
theorem foldlM_verifyOpening_ne_panic
    (L : List (CommitmentId × CommitmentInfo × CommitmentOpening N)) (hsz : Sized header st) :
    L.foldlM (verifyOpening prim header) st ≠ .panic ∧
      ∀ st', L.foldlM (verifyOpening prim header) st = .ok st' → Sized header st' := by
  induction L generalizing st with
  | nil =>
    refine ⟨by simp, fun st' h => ?_⟩
    cases h
    exact hsz
  | cons e L ih =>
    rw [List.foldlM_cons]
    rcases hstep : verifyOpening prim header st e with st₁ | err | _
    · simpa using ih (hsz.verifyOpening prim hstep)
    · simp
    · exact absurd hstep (verifyOpening_ne_panic prim hsz e)

/-- **`verify` never panics**, on any proof and any header: it returns the redacted transcripts or
an error. -/
theorem SubstringsProof.verify_ne_panic (p : SubstringsProof N P)
    (header : SessionHeader S R K H) : p.verify prim header ≠ .panic := by
  obtain ⟨hloop, hsized⟩ := foldlM_verifyOpening_ne_panic prim p.openings.entries (sized_init header)
  unfold SubstringsProof.verify
  rcases hst : p.openings.entries.foldlM (verifyOpening prim header) (VerifyState.init header) with
    st | e | _
  · obtain ⟨hidx, hhash, hranges, hall⟩ := foldlM_verifyOpening_eq_ok hst
    have hsz := hsized st hst
    simp only [VerifyState.init, List.nil_append] at hidx hhash hranges
    -- one hash per index, and the indices are the ids of the map's entries, hence distinct
    have hlen : st.indices.length = st.expectedHashes.length := by simp [hidx, hhash]
    have hnodup : st.indices.Nodup := by
      have hkeys : p.openings.entries.map (·.1.toNat) =
          (p.openings.entries.map Prod.fst).map CommitmentId.toNat := by
        rw [List.map_map]
        rfl
      rw [hidx, hkeys]
      exact p.openings.nodup.map CommitmentId.toNat_injective
    -- every opened index lies in the buffer of its direction
    have hin : ∀ d, ∀ i ∈ st.ranges.get d, i < (st.dest.get d).length := by
      intro d i hi
      have hi' : i ∈ openedIn d (p.openings.entries.map (·.2.1)) := by
        rw [hranges d] at hi
        cases d <;> simpa using hi
      obtain ⟨info, hinfo, hdir, hi⟩ := mem_openedIn.1 hi'
      obtain ⟨e, he, rfl⟩ := List.mem_map.1 hinfo
      rw [hsz d, ← hdir]
      exact (hall e he).2.2 i hi
    have hsent := new_ofRanges (st.dest.get .sent) (st.ranges.get .sent) (hin .sent)
    have hrecv := new_ofRanges (st.dest.get .received) (st.ranges.get .received) (hin .received)
    rw [hsz .sent] at hsent
    rw [hsz .received] at hrecv
    rcases hm : p.inclusionProof.verify prim header.merkleRoot st.indices st.expectedHashes with
      u | e | _
    · simp only [SessionHeader.transcriptLen, ByDirection.get_sent, ByDirection.get_received]
        at hsent hrecv
      simp [hm, Outcome.mapErr, hsent, hrecv]
    · simp [hm, Outcome.mapErr]
    · exact absurd hm (MerkleProof.verify_ne_panic prim _ _ hlen hnodup)
  · simp
  · exact absurd hst hloop

theorem substrings_verify_never_panics :
    (∀ (p : SubstringsProof N P) (header : SessionHeader S R K H), p.verify prim header ≠ .panic) ∧
      ∀ (ranges : Finset ℕ) (dest data : List UInt8),
        (∀ m, RangeSet.max ranges = some m → m ≤ dest.length) → data.length = len ranges →
        ∃ dest', scatter (iterRanges ranges) (dest, data) = some (dest', []) ∧
          dest'.length = dest.length ∧
          (∀ k (hk : k < (iter ranges).length), dest'[(iter ranges)[k]]? = data[k]?) ∧
          ∀ i ∉ ranges, dest'[i]? = dest[i]? := by
  refine ⟨fun p header => p.verify_ne_panic prim header, fun ranges dest data hmax hdata => ?_⟩
  -- every element lies below the bound `max`, one past the last
  have hs : ∀ i ∈ ranges, i < dest.length := by
    intro i hi
    obtain ⟨m, hm⟩ := max_isSome ⟨i, hi⟩
    exact lt_of_lt_of_le (lt_of_max_eq hm hi) (hmax m hm)
  exact scatter_iterRanges_data ranges hs hdata

end Loop

end Tlsn
