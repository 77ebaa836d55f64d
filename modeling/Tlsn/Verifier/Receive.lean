import Tlsn.Core.Transcript
import Tlsn.Lib.Outcome

/-!
# The verifier receives the revealed transcripts (`tlsn-verifier/src/tls/verify.rs`)

After the MPC-TLS session the prover reveals parts of the transcripts: `Prover::reveal` collects
ranges of each direction, and `Prover::prove` sends them in a `ProvingInfo` with their bytes, those
of the sent ranges and then those of the received ones, concatenated. `Verifier::receive` checks
that the ranges lie in the transcripts, cuts the cleartext into one array per range, has the VM
check the arrays against the values it holds, and builds one `RedactedTranscript` per direction.

The VM is a black box: its check is a function of the arrays (`vmVerify`). The lookups of the value
ids, which the range check keeps inside the transcripts, are not modelled.

Each array is drained off the front of the cleartext, and `Vec::drain` panics past its end: a
cleartext shorter than the ranges makes `receive` panic (`receive_of_short_cleartext`) before the
VM sees anything. A cleartext long enough gives transcripts authenticated on the ranges, with the
bytes of the cleartext in the order of the ranges (`receive_eq_ok`); the one `Prover::prove` sends
gives the prover's own transcripts (`receive_prove`).
-/

namespace Tlsn

open RangeSet

/-- `VerifierError`. -/
inductive VerifierError
  | io
  | muxer
  | mpc (reason : String)
  | invalidRange
  deriving DecidableEq, Repr

/-- `ProvingInfo`: the ranges the prover reveals in each direction, and the bytes it claims for
them. -/
structure ProvingInfo where
  sentIds : Finset ℕ
  recvIds : Finset ℕ
  cleartext : List UInt8
  deriving DecidableEq

namespace Verifier

/-- `v.drain(..n)`: the first `n` bytes and the rest; it panics past the end. -/
def drainFront (v : List UInt8) (n : ℕ) : Option (List UInt8 × List UInt8) :=
  if n ≤ v.length then some (v.take n, v.drop n) else none

/-- One `drain(..range.len())` for each range in order: the arrays, and what is left. -/
def drainRanges : List (ℕ × ℕ) → List UInt8 → Option (List (List UInt8) × List UInt8)
  | [], v => some ([], v)
  | r :: rs, v => do
    let (a, v) ← drainFront v (r.2 - r.1)
    let (as, v) ← drainRanges rs v
    some (a :: as, v)

/-- `Verifier::receive` on the `ProvingInfo` it received, for transcripts of `sentLen` and
`recvLen` bytes. -/
def receive (sentLen recvLen : ℕ) (vmVerify : List (List UInt8) → Except VerifierError Unit)
    (info : ProvingInfo) : Outcome VerifierError (RedactedTranscript × RedactedTranscript) := do
  if (RangeSet.max info.sentIds).getD 0 > sentLen ∨ (RangeSet.max info.recvIds).getD 0 > recvLen
  then throw .invalidRange
  let ranges := iterRanges info.sentIds ++ iterRanges info.recvIds
  -- the purported values, drained from a clone of the cleartext
  let (values, _) ← Outcome.ofOption (drainRanges ranges info.cleartext)
  Outcome.ofExcept id (vmVerify values)
  -- the slices, drained from the cleartext itself
  let (datas, _) ← Outcome.ofOption (drainRanges ranges info.cleartext)
  let transcripts := (ranges.zip datas).map fun (r, data) => (⟨r, data⟩ : TranscriptSlice)
  let recvTranscripts := transcripts.drop (iterRanges info.sentIds).length
  let transcripts := transcripts.take (iterRanges info.sentIds).length
  let sent ← Outcome.ofOption (RedactedTranscript.new sentLen transcripts)
  let recv ← Outcome.ofOption (RedactedTranscript.new recvLen recvTranscripts)
  pure (sent, recv)

theorem drainFront_append (a rest : List UInt8) : drainFront (a ++ rest) a.length = some (a, rest) := by
  simp [drainFront]

/-- Draining the ranges of arrays laid end to end gives the arrays back. -/
theorem drainRanges_map (g : ℕ → UInt8) :
    ∀ (rs : List (ℕ × ℕ)) (rest : List UInt8),
      drainRanges rs ((rs.flatMap toList).map g ++ rest) = some (rs.map fun r => (toList r).map g, rest)
  | [], rest => rfl
  | r :: rs, rest => by
    have hfront : drainFront ((toList r).map g ++ ((rs.flatMap toList).map g ++ rest)) (r.2 - r.1) =
        some ((toList r).map g, (rs.flatMap toList).map g ++ rest) := by
      simpa using drainFront_append ((toList r).map g) ((rs.flatMap toList).map g ++ rest)
    rw [List.flatMap_cons, List.map_append, List.append_assoc]
    simp only [drainRanges, hfront, drainRanges_map g rs rest, Option.bind_eq_bind, Option.bind_some,
      List.map_cons]

/-- The ranges of two lists are drained one list after the other. -/
theorem drainRanges_append (rs rs' : List (ℕ × ℕ)) (v : List UInt8) :
    drainRanges (rs ++ rs') v =
      (drainRanges rs v).bind fun p => (drainRanges rs' p.2).map fun q => (p.1 ++ q.1, q.2) := by
  induction rs generalizing v with
  | nil =>
    simp only [List.nil_append, drainRanges, Option.bind_some, List.nil_append]
    cases drainRanges rs' v <;> rfl
  | cons r rs ih =>
    simp only [List.cons_append, drainRanges, Option.bind_eq_bind]
    cases drainFront v (r.2 - r.1) with
    | none => rfl
    | some p =>
      simp only [Option.bind_some, ih]
      cases drainRanges rs p.2 with
      | none => rfl
      | some q =>
        simp only [Option.bind_some]
        cases drainRanges rs' q.2 <;> rfl

/-- A cleartext shorter than the ranges runs out: one of the drains panics. -/
theorem drainRanges_eq_none :
    ∀ (rs : List (ℕ × ℕ)) (v : List UInt8),
      v.length < (rs.map fun r => r.2 - r.1).sum → drainRanges rs v = none
  | [], v, h => absurd h (by simp)
  | r :: rs, v, h => by
    simp only [List.map_cons, List.sum_cons] at h
    by_cases hr : r.2 - r.1 ≤ v.length
    · have hrest := drainRanges_eq_none rs (v.drop (r.2 - r.1)) (by simp only [List.length_drop]; omega)
      simp [drainRanges, drainFront, hr, hrest]
    · simp [drainRanges, drainFront, hr]

/-- The ranges of a set take as many bytes as the set has elements. -/
theorem sum_length_iterRanges (s : Finset ℕ) :
    ((iterRanges s).map fun r => r.2 - r.1).sum = s.card := by
  have h := congrArg List.length (flatMap_iterRanges s)
  rw [List.length_flatMap, length_iter] at h
  simpa [len] using h

/-- A set inside a transcript passes the range check. -/
theorem max_getD_le {s : Finset ℕ} {n : ℕ} (hs : ∀ i ∈ s, i < n) : (RangeSet.max s).getD 0 ≤ n := by
  cases h : RangeSet.max s with
  | none => exact Nat.zero_le _
  | some m => exact max_le_of_lt h hs

section Receive

variable {sentLen recvLen : ℕ} {vmVerify : List (List UInt8) → Except VerifierError Unit}
  {info : ProvingInfo}

/-- Ranges inside the transcripts pass the check of `receive`. -/
theorem not_invalidRange (hs : ∀ i ∈ info.sentIds, i < sentLen)
    (hr : ∀ i ∈ info.recvIds, i < recvLen) :
    ¬ ((RangeSet.max info.sentIds).getD 0 > sentLen ∨
      (RangeSet.max info.recvIds).getD 0 > recvLen) := by
  have := max_getD_le hs
  have := max_getD_le hr
  omega

/-- **Short cleartext.** Ranges inside the transcripts with a cleartext shorter than them make
`receive` panic. -/
theorem receive_of_short_cleartext (hs : ∀ i ∈ info.sentIds, i < sentLen)
    (hr : ∀ i ∈ info.recvIds, i < recvLen)
    (hshort : info.cleartext.length < info.sentIds.card + info.recvIds.card) :
    receive sentLen recvLen vmVerify info = .panic := by
  have hnone : drainRanges (iterRanges info.sentIds ++ iterRanges info.recvIds) info.cleartext =
      none := by
    apply drainRanges_eq_none
    rw [List.map_append, List.sum_append, sum_length_iterRanges, sum_length_iterRanges]
    exact hshort
  simp only [receive, if_neg (not_invalidRange hs hr), hnone]
  rfl

/-- A prover that reveals the first sent byte with no cleartext at all makes the verifier panic,
whatever the lengths of the transcripts and whatever the VM does. -/
theorem receive_short_cleartext_panics (sentLen recvLen : ℕ)
    (vmVerify : List (List UInt8) → Except VerifierError Unit) :
    receive (sentLen + 1) recvLen vmVerify ⟨{0}, ∅, []⟩ = .panic :=
  receive_of_short_cleartext (by simp) (by simp) (by simp)

/-- **Received transcripts.** Ranges inside the transcripts, with a cleartext that holds `g` at the
sent elements then `g'` at the received ones, in increasing order, give the transcripts that are
`g` and `g'` on the ranges and zero elsewhere, authenticated exactly on the ranges, when the VM
accepts the arrays. -/
theorem receive_eq_ok (hs : ∀ i ∈ info.sentIds, i < sentLen)
    (hr : ∀ i ∈ info.recvIds, i < recvLen) (g g' : ℕ → UInt8) (rest : List UInt8)
    (hclear : info.cleartext = (iter info.sentIds).map g ++ (iter info.recvIds).map g' ++ rest)
    (hvm : vmVerify ((iterRanges info.sentIds).map (fun r => (toList r).map g) ++
      (iterRanges info.recvIds).map fun r => (toList r).map g') = .ok ()) :
    receive sentLen recvLen vmVerify info = .ok
      (⟨overwrite (List.replicate sentLen 0) (· ∈ info.sentIds) g, info.sentIds,
          Finset.range sentLen \ info.sentIds⟩,
        ⟨overwrite (List.replicate recvLen 0) (· ∈ info.recvIds) g', info.recvIds,
          Finset.range recvLen \ info.recvIds⟩) := by
  -- the arrays are those of the sent ranges under `g`, then of the received ones under `g'`
  have hdrain : drainRanges (iterRanges info.sentIds ++ iterRanges info.recvIds) info.cleartext =
      some ((iterRanges info.sentIds).map (fun r => (toList r).map g) ++
        (iterRanges info.recvIds).map fun r => (toList r).map g', rest) := by
    rw [hclear, drainRanges_append, ← flatMap_iterRanges info.sentIds, List.append_assoc,
      drainRanges_map, Option.bind_some, ← flatMap_iterRanges info.recvIds, drainRanges_map,
      Option.map_some]
  -- the slices pair each range with its array
  have hslices : ((iterRanges info.sentIds ++ iterRanges info.recvIds).zip
      ((iterRanges info.sentIds).map (fun r => (toList r).map g) ++
        (iterRanges info.recvIds).map fun r => (toList r).map g')).map
      (fun x => (⟨x.1, x.2⟩ : TranscriptSlice)) =
      (iterRanges info.sentIds).map (fun r => ⟨r, (toList r).map g⟩) ++
        (iterRanges info.recvIds).map fun r => ⟨r, (toList r).map g'⟩ := by
    rw [List.zip_append (by simp), ← List.map_prod_left_eq_zip, ← List.map_prod_left_eq_zip]
    simp only [List.map_append, List.map_map]
    rfl
  have hsent := new_iterRanges_map sentLen info.sentIds g hs
  have hrecv := new_iterRanges_map recvLen info.recvIds g' hr
  simp only [receive, if_neg (not_invalidRange hs hr), hdrain, Outcome.ofOption_some,
    Outcome.ok_bind, hvm, Outcome.ofExcept_ok, hslices, List.take_left' (List.length_map _),
    List.drop_left' (List.length_map _), hsent, hrecv]
  rfl

end Receive

end Verifier

/-- The `ProvingInfo` that `Prover::prove` sends: the cleartext is the sent transcript at each sent
range, then the received transcript at each received range. -/
def Prover.prove (tx rx : List UInt8) (info : ProvingInfo) : ProvingInfo :=
  { info with cleartext :=
      (iterRanges info.sentIds).flatMap (slice tx) ++ (iterRanges info.recvIds).flatMap (slice rx) }

/-- **Honest prover.** The `ProvingInfo` that `Prover::prove` sends for ranges inside its
transcripts gives the verifier the prover's transcripts, redacted outside the ranges, when the VM
accepts the bytes. -/
theorem receive_prove {tx rx : List UInt8} {info : ProvingInfo}
    {vmVerify : List (List UInt8) → Except VerifierError Unit}
    (hs : ∀ i ∈ info.sentIds, i < tx.length) (hr : ∀ i ∈ info.recvIds, i < rx.length)
    (hvm : vmVerify ((iterRanges info.sentIds).map (slice tx) ++
      (iterRanges info.recvIds).map (slice rx)) = .ok ()) :
    Verifier.receive tx.length rx.length vmVerify (Prover.prove tx rx info) =
      .ok (RedactedTranscript.ofSet tx info.sentIds, RedactedTranscript.ofSet rx info.recvIds) := by
  -- the slices of a transcript at ranges inside it are the transcript looked up along them
  have hslices : ∀ (t : List UInt8) (s : Finset ℕ), (∀ i ∈ s, i < t.length) →
      (iterRanges s).map (slice t) = (iterRanges s).map fun r => (toList r).map (t.getD · 0) :=
    fun t s hst => List.map_congr_left fun r hr =>
      slice_eq_map t (bounds_of_mem_iterRanges hst hr).2
  have hflat : ∀ (t : List UInt8) (s : Finset ℕ), (∀ i ∈ s, i < t.length) →
      (iterRanges s).flatMap (slice t) = (iter s).map (t.getD · 0) := by
    intro t s hst
    rw [← flatMap_iterRanges, List.map_flatMap]
    exact List.flatMap_congr fun r hr => slice_eq_map t (bounds_of_mem_iterRanges hst hr).2
  rw [hslices tx _ hs, hslices rx _ hr] at hvm
  exact @Verifier.receive_eq_ok tx.length rx.length vmVerify (Prover.prove tx rx info) hs hr _ _ []
    (by simp only [Prover.prove, hflat tx _ hs, hflat rx _ hr, List.append_nil]) hvm

end Tlsn
