import Tlsn.Lib.AssocMap
import Tlsn.Lib.KeyedCounter

/-!
# The plaintext ids of the stream cipher (`stream-cipher/src/stream_cipher.rs`)

`MpcStreamCipher` gives every plaintext byte it encrypts or decrypts an id, under which the byte is
an input of the MPC and by which the transcript later addresses it. The ids come from transcripts:
the current one, and the others, kept by id in a hash map. `set_transcript_id` switches the current
one, and each operation on a text hands out, by `extend_plaintext`, the ids of the next bytes of the
current one; `decrypt_public` gives its bytes no plaintext id.

Only the part of the cipher's state that assigns ids is modelled (`State`); the keystream, the key
and the MPC thread are left out. A `NestedId` of transcript `t` with its counter appended and
incremented `i + 1` times is written `t/i`; it is the pair `⟨t, i⟩` here.

Kept well formed (`Wf`: every stored transcript under its own id, the current one not stored), the
state refines a family of counters, one per transcript id (`KeyedCounter`), call by call
(`apply_refines`) and over any sequence of calls (`ids_refines`). So under each transcript id, the ids handed out over any sequence of calls are that
id's counter continued, from zero, with no reset, gap or sharing across switches (`ids_filter`).
-/

namespace Tlsn.StreamCipher

/-- A plaintext id `t/i`. -/
structure NestedId where
  transcript : String
  counter : ℕ
  deriving DecidableEq, Repr

/-- The pair of the id's transcript and counter, as the abstract model numbers values. -/
def NestedId.toPair (n : NestedId) : String × ℕ := (n.transcript, n.counter)

/-- `Transcript`: the ids of the plaintext bytes under one transcript id. -/
structure Transcript where
  id : String
  /-- The counter of the id of the next plaintext byte, `id/plaintext`. -/
  plaintext : ℕ
  deriving DecidableEq, Repr

namespace Transcript

/-- `Transcript::new`: the counter appended to the id. -/
def new (id : String) : Transcript := ⟨id, 0⟩

/-- `extend_plaintext`: the ids of the next `len` plaintext bytes. -/
def extendPlaintext (t : Transcript) (len : ℕ) : List NestedId × Transcript :=
  ((List.range len).map fun i => ⟨t.id, t.plaintext + i⟩, { t with plaintext := t.plaintext + len })

end Transcript

/-- The part of `MpcStreamCipher`'s `State` that assigns plaintext ids. -/
structure State where
  /-- Current transcript. -/
  transcript : Transcript
  /-- Maps a transcript ID to the corresponding transcript. -/
  transcripts : AssocMap String Transcript

/-- The calls of `StreamCipher` that read or change the transcripts, with the length of their
text. -/
inductive Call
  | setTranscriptId (id : String)
  | encryptPublic (len : ℕ)
  | encryptPrivate (len : ℕ)
  | encryptBlind (len : ℕ)
  | decryptPublic (len : ℕ)
  | decryptPrivate (len : ℕ)
  | decryptBlind (len : ℕ)
  | provePlaintext (len : ℕ)
  | verifyPlaintext (len : ℕ)
  deriving DecidableEq, Repr

/-- The abstract operation of a call, if it has one: a switch selects a counter, and an operation
that extends the transcript takes from it. -/
def Call.toOp : Call → Option (KeyedCounter.Op String)
  | .setTranscriptId id => some (.select id)
  | .decryptPublic _ => none
  | .encryptPublic len | .encryptPrivate len | .encryptBlind len | .decryptPrivate len
  | .decryptBlind len | .provePlaintext len | .verifyPlaintext len => some (.take len)

namespace State

/-- `MpcStreamCipher::new`: the transcript of the configuration's `transcript_id`, and no other. -/
def new (transcriptId : String) : State := ⟨.new transcriptId, .empty⟩

/-- `set_transcript_id`: the current transcript is stored under its id, and the one stored under
`id`, or a new one, becomes current. -/
def setTranscriptId (s : State) (id : String) : State :=
  if id = s.transcript.id then s
  else
    { transcript := (s.transcripts.remove id).2.getD (.new id)
      transcripts := ((s.transcripts.remove id).1.insert s.transcript.id s.transcript).1 }

/-- `self.state.transcript.extend_plaintext(len)`. -/
def extendPlaintext (s : State) (len : ℕ) : List NestedId × State :=
  ((s.transcript.extendPlaintext len).1, { s with transcript := (s.transcript.extendPlaintext len).2 })

/-- One call: the ids it gives the bytes of its plaintext, and the state after it. Every operation
on a text extends the current transcript by the length of its plaintext, but `decrypt_public`, whose
ciphertext bytes get ids `ct/…` of their own that no transcript counts. -/
def apply (s : State) : Call → List NestedId × State
  | .setTranscriptId id => ([], s.setTranscriptId id)
  | .decryptPublic _ => ([], s)
  | .encryptPublic len | .encryptPrivate len | .encryptBlind len | .decryptPrivate len
  | .decryptBlind len | .provePlaintext len | .verifyPlaintext len => s.extendPlaintext len

@[simp] theorem apply_setTranscriptId (s : State) (id : String) :
    s.apply (.setTranscriptId id) = ([], s.setTranscriptId id) := rfl

/-- The state after a sequence of calls. -/
def final (s : State) (calls : List Call) : State := calls.foldl (fun s c => (s.apply c).2) s

/-- The ids a sequence of calls hands out, in order. -/
def ids : State → List Call → List NestedId
  | _, [] => []
  | s, c :: calls => (s.apply c).1 ++ ids (s.apply c).2 calls

@[simp] theorem final_nil (s : State) : final s [] = s := rfl

@[simp] theorem final_cons (s : State) (c : Call) (calls : List Call) :
    final s (c :: calls) = final (s.apply c).2 calls := rfl

theorem final_append (s : State) (calls calls' : List Call) :
    final s (calls ++ calls') = final (final s calls) calls' := List.foldl_append

@[simp] theorem ids_nil (s : State) : ids s [] = [] := rfl

@[simp] theorem ids_cons (s : State) (c : Call) (calls : List Call) :
    ids s (c :: calls) = (s.apply c).1 ++ ids (s.apply c).2 calls := rfl

theorem ids_append (s : State) (calls calls' : List Call) :
    ids s (calls ++ calls') = ids s calls ++ ids (final s calls) calls' := by
  induction calls generalizing s with
  | nil => rfl
  | cons c calls ih => simp [ih]

/-! ### The abstract counters -/

/-- The counter of transcript `t`: the current one's, a stored one's, or zero for a transcript not
yet created. -/
def counter (s : State) (t : String) : ℕ :=
  if t = s.transcript.id then s.transcript.plaintext
  else ((s.transcripts.get? t).map Transcript.plaintext).getD 0

/-- The family of counters the state stands for. -/
def abs (s : State) : KeyedCounter.State String := ⟨s.transcript.id, s.counter⟩

/-- The transcripts are well kept: each stored one under its own id, and the current one not
stored. -/
structure Wf (s : State) : Prop where
  stored : ∀ id t, s.transcripts.get? id = some t → t.id = id
  current : s.transcripts.get? s.transcript.id = none

theorem wf_new (transcriptId : String) : (new transcriptId).Wf where
  stored := by simp [new]
  current := by simp [new]

@[simp] theorem new_counter (transcriptId t : String) : (new transcriptId).counter t = 0 := by
  by_cases ht : t = transcriptId <;> simp [counter, new, Transcript.new, ht]

/-- The transcript made current by a switch to `id` is `id`'s. -/
theorem transcript_id_setTranscriptId {s : State} (hw : s.Wf) (id : String) :
    (s.setTranscriptId id).transcript.id = id := by
  unfold setTranscriptId
  split_ifs with h
  · exact h.symm
  · cases hg : s.transcripts.get? id with
    | none => simp [hg, Transcript.new]
    | some t => simpa [hg] using hw.stored id t hg

theorem Wf.setTranscriptId {s : State} (hw : s.Wf) (id : String) : (s.setTranscriptId id).Wf := by
  have hid := transcript_id_setTranscriptId hw id
  unfold State.setTranscriptId at hid ⊢
  split_ifs with h
  · exact hw
  · rw [if_neg h] at hid
    refine ⟨?_, ?_⟩
    · -- the old current transcript is stored under its id; the others stay where they were
      intro k t hk
      rw [AssocMap.get?_insert, AssocMap.get?_remove] at hk
      split_ifs at hk with h₁ h₂
      · rw [← Option.some.inj hk, h₁]
      · exact hw.stored k t hk
    · rw [hid, AssocMap.get?_insert, if_neg h, AssocMap.get?_remove, if_pos rfl]

theorem Wf.extendPlaintext {s : State} (hw : s.Wf) (len : ℕ) : (s.extendPlaintext len).2.Wf :=
  ⟨hw.stored, hw.current⟩

theorem Wf.apply {s : State} (hw : s.Wf) (c : Call) : (s.apply c).2.Wf := by
  cases c <;> first | exact hw | exact hw.setTranscriptId _ | exact hw.extendPlaintext _

theorem Wf.final {s : State} (hw : s.Wf) (calls : List Call) : (s.final calls).Wf := by
  induction calls generalizing s with
  | nil => exact hw
  | cons c calls ih => exact ih (hw.apply c)

/-- A switch of transcript is the abstract `select`: no counter changes. -/
theorem abs_setTranscriptId {s : State} (hw : s.Wf) (id : String) :
    (s.setTranscriptId id).abs = (KeyedCounter.step s.abs (.select id)).2 := by
  refine KeyedCounter.State.ext (transcript_id_setTranscriptId hw id) ?_
  funext t
  show (s.setTranscriptId id).counter t = s.counter t
  by_cases h : id = s.transcript.id
  · -- a switch to the current transcript changes nothing
    unfold setTranscriptId
    rw [if_pos h]
  · have hid := transcript_id_setTranscriptId hw id
    unfold counter
    rw [hid]
    unfold setTranscriptId
    rw [if_neg h]
    by_cases ht : t = id
    · -- the new current transcript was stored, or is new
      subst ht
      rw [if_pos rfl, if_neg h, AssocMap.remove_snd]
      cases hg : s.transcripts.get? t <;> simp [Transcript.new]
    · rw [if_neg ht, AssocMap.get?_insert]
      by_cases hc : t = s.transcript.id
      · -- the old current transcript is now stored
        rw [if_pos hc, if_pos hc]
        rfl
      · rw [if_neg hc, if_neg hc, AssocMap.get?_remove, if_neg ht]

theorem counter_setTranscriptId {s : State} (hw : s.Wf) (id k : String) :
    (s.setTranscriptId id).counter k = s.counter k :=
  congrFun (congrArg KeyedCounter.State.count (abs_setTranscriptId hw id)) k

theorem counter_current (s : State) : s.counter s.transcript.id = s.transcript.plaintext :=
  if_pos rfl

theorem counter_extendPlaintext (s : State) (len : ℕ) (k : String) :
    (s.extendPlaintext len).2.counter k =
      if k = s.transcript.id then s.counter k + len else s.counter k := by
  by_cases hk : k = s.transcript.id
  · subst hk
    simp [extendPlaintext, Transcript.extendPlaintext, counter]
  · simp [extendPlaintext, Transcript.extendPlaintext, counter, hk]

/-- Extending the current transcript is the abstract `take`, with the same ids. -/
theorem extendPlaintext_refines (s : State) (len : ℕ) :
    (s.extendPlaintext len).1.map NestedId.toPair = (KeyedCounter.step s.abs (.take len)).1 ∧
      (s.extendPlaintext len).2.abs = (KeyedCounter.step s.abs (.take len)).2 := by
  refine ⟨?_, ?_⟩
  · simp [extendPlaintext, Transcript.extendPlaintext, KeyedCounter.step, abs, counter,
      NestedId.toPair]
  · ext t
    · rfl
    · by_cases ht : t = s.transcript.id
      · subst ht
        simp [extendPlaintext, Transcript.extendPlaintext, KeyedCounter.step, abs, counter]
      · simp [extendPlaintext, Transcript.extendPlaintext, KeyedCounter.step, abs, counter, ht]

/-- One call refines its abstract operation, or no operation. -/
theorem apply_refines {s : State} (hw : s.Wf) (c : Call) :
    (s.apply c).1.map NestedId.toPair = KeyedCounter.values s.abs c.toOp.toList ∧
      (s.apply c).2.abs = KeyedCounter.final s.abs c.toOp.toList := by
  cases c with
  | setTranscriptId id => exact ⟨rfl, abs_setTranscriptId hw id⟩
  | decryptPublic len => exact ⟨rfl, rfl⟩
  | encryptPublic len | encryptPrivate len | encryptBlind len | decryptPrivate len
  | decryptBlind len | provePlaintext len | verifyPlaintext len =>
    simpa [apply, Call.toOp] using extendPlaintext_refines s len

/-- **Refinement.** The ids a well-kept state hands out over a sequence of calls are those the
abstract counters hand out over the abstract operations. -/
theorem ids_refines {s : State} (hw : s.Wf) (calls : List Call) :
    (ids s calls).map NestedId.toPair = KeyedCounter.values s.abs (calls.filterMap Call.toOp) ∧
      (final s calls).abs = KeyedCounter.final s.abs (calls.filterMap Call.toOp) := by
  induction calls generalizing s with
  | nil => exact ⟨rfl, rfl⟩
  | cons c calls ih =>
    obtain ⟨hids, hfinal⟩ := apply_refines hw c
    obtain ⟨ihids, ihfinal⟩ := ih (hw.apply c)
    -- the abstract operations of `c :: calls` are those of `c`, then those of `calls`
    have hops : (c :: calls).filterMap Call.toOp = c.toOp.toList ++ calls.filterMap Call.toOp := by
      rw [List.filterMap_cons]
      cases c.toOp <;> rfl
    rw [hops, KeyedCounter.values_append, KeyedCounter.final_append, ← hids, ← hfinal, ← ihids,
      ← ihfinal]
    exact ⟨by simp, rfl⟩

/-- **Each transcript its own counter.** From a new cipher, the ids handed out under a transcript
id `t` over any sequence of calls are, in order, `t/0, t/1, …` up to `t`'s final counter. -/
theorem ids_filter (transcriptId : String) (calls : List Call) (t : String) :
    ((ids (new transcriptId) calls).filter (·.transcript = t)).map NestedId.counter =
      List.range ((final (new transcriptId) calls).counter t) := by
  obtain ⟨hids, hfinal⟩ := ids_refines (wf_new transcriptId) calls
  have habs : (new transcriptId).abs = KeyedCounter.State.init transcriptId := by
    ext t'
    · rfl
    · simp [abs, KeyedCounter.State.init]
  have h := KeyedCounter.values_filter_init transcriptId (calls.filterMap Call.toOp) t
  rw [← habs, ← hids, ← hfinal, List.filter_map, List.map_map] at h
  exact h

/-! ### Records

The record layer makes its calls by record: a switch to the record's transcript, then one operation
on its text. -/

theorem apply_of_toOp_take {c : Call} {len : ℕ} (hc : c.toOp = some (.take len)) (s : State) :
    s.apply c = s.extendPlaintext len := by
  cases c <;> simp_all [Call.toOp, apply]

theorem apply_of_toOp_none {c : Call} (hc : c.toOp = none) (s : State) : s.apply c = ([], s) := by
  cases c <;> simp_all [Call.toOp, apply]

/-- A record whose operation extends the transcript: its bytes get the next `len` ids of `t`, and
only `t`'s counter moves. -/
theorem record_extends {s : State} (hw : s.Wf) (t : String) {c : Call} {len : ℕ}
    (hc : c.toOp = some (.take len)) :
    ids s [.setTranscriptId t, c] = (List.range len).map (fun i => ⟨t, s.counter t + i⟩) ∧
      ∀ k, (final s [.setTranscriptId t, c]).counter k =
        if k = t then s.counter k + len else s.counter k := by
  have hid := transcript_id_setTranscriptId hw t
  -- the ids are taken from the switched-to transcript, whose counter is `t`'s
  have hplain : (s.setTranscriptId t).transcript.plaintext = s.counter t := by
    have h := (counter_current (s.setTranscriptId t)).symm
    rw [hid, counter_setTranscriptId hw] at h
    exact h
  refine ⟨?_, fun k => ?_⟩
  · simp [apply_of_toOp_take hc, extendPlaintext, Transcript.extendPlaintext, hid, hplain]
  · simp only [final_cons, final_nil, apply_setTranscriptId, apply_of_toOp_take hc,
      counter_extendPlaintext, hid, counter_setTranscriptId hw]

/-- A record whose operation gives no plaintext ids (`decrypt_public`) moves no counter. -/
theorem record_none {s : State} (hw : s.Wf) (t : String) {c : Call} (hc : c.toOp = none) :
    ids s [.setTranscriptId t, c] = [] ∧
      ∀ k, (final s [.setTranscriptId t, c]).counter k = s.counter k := by
  refine ⟨?_, fun k => ?_⟩
  · simp [apply_of_toOp_none hc]
  · simp only [final_cons, final_nil, apply_setTranscriptId, apply_of_toOp_none hc,
      counter_setTranscriptId hw]

end State

end Tlsn.StreamCipher
