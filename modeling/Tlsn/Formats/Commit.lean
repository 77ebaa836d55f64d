import Tlsn.Core.Commitment

/-!
# Committing to HTTP and JSON data (`tlsn-formats`)

`DefaultHttpCommitter` and `DefaultJsonCommitter` commit to the parts of an HTTP transcript as the
parser `spansy` delimits them: each request and response whole and without its data, the target,
each header whole and without its value, and a JSON body value by value. The parser lives
outside the repository; a parsed transcript is modelled by the range sets the committers read
from it (the span of each part, and what `without_data`, `without_value`, `without_pairs` and
`without_values` return).

Every committer is a sequence of calls of `TranscriptCommitmentBuilder::commit` and returns the
builder of the last one, so it returns exactly what committing its list of range sets in order
returns (`sameOk_commitTranscript`). A builder hands out the ids `0, 1, …` as `u32`s, and the id of
the commitment at position `2 ^ 32` is that of the first one: the committers succeed only on
transcripts with at most `2 ^ 32` commitments (`commitTranscript_isOk_iff`,
`commit_transcript_fails_past_u32_ids`).
-/

namespace Tlsn

open Outcome

variable {S F A H N R P : Type}

namespace TranscriptCommitmentBuilder

/-! ## Committing a list of range sets -/

section CommitAll

variable (prim : Primitives S F A H N R P) (nonce : ℕ → N)

/-- `builder.commit(ranges, direction)`, its id dropped; the nonce of a commitment is the one drawn
for its position. -/
def commitRanges (b : TranscriptCommitmentBuilder H N A) (ranges : Finset ℕ)
    (direction : Direction) :
    Outcome TranscriptCommitmentBuilderError (TranscriptCommitmentBuilder H N A) := do
  let (r, b') := b.commit prim ranges direction (nonce b.merkleLeaves.length)
  let _ ← r
  pure b'

/-- The range sets of a list committed in order, up to the first failure. -/
def commitAll (b : TranscriptCommitmentBuilder H N A) :
    List (Finset ℕ × Direction) →
      Outcome TranscriptCommitmentBuilderError (TranscriptCommitmentBuilder H N A)
  | [] => pure b
  | (ranges, direction) :: rest => do
    let b' ← commitRanges prim nonce b ranges direction
    commitAll b' rest

@[simp] theorem commitAll_nil (b : TranscriptCommitmentBuilder H N A) :
    commitAll prim nonce b [] = ok b := rfl

theorem commitAll_cons (b : TranscriptCommitmentBuilder H N A) (ranges : Finset ℕ)
    (direction : Direction) (rest : List (Finset ℕ × Direction)) :
    commitAll prim nonce b ((ranges, direction) :: rest) =
      commitRanges prim nonce b ranges direction >>= fun b' => commitAll prim nonce b' rest := rfl

theorem commitAll_append (b : TranscriptCommitmentBuilder H N A)
    (plan plan' : List (Finset ℕ × Direction)) :
    commitAll prim nonce b (plan ++ plan') =
      commitAll prim nonce b plan >>= fun b' => commitAll prim nonce b' plan' := by
  induction plan generalizing b with
  | nil => simp
  | cons entry plan ih =>
    obtain ⟨ranges, direction⟩ := entry
    simp only [List.cons_append, commitAll_cons, ih, bind_assoc]

/-- A loop whose body agrees on success with committing a list of range sets agrees with
committing the lists of its iterations one after another. -/
theorem sameOk_foldlM {ε α : Type}
    {f : TranscriptCommitmentBuilder H N A → α → Outcome ε (TranscriptCommitmentBuilder H N A)}
    {plan : α → List (Finset ℕ × Direction)}
    (hf : ∀ b x, SameOk (f b x) (commitAll prim nonce b (plan x))) (xs : List α)
    (b : TranscriptCommitmentBuilder H N A) :
    SameOk (xs.foldlM f b) (commitAll prim nonce b (xs.flatMap plan)) := by
  induction xs generalizing b with
  | nil => exact sameOk_pure b
  | cons x xs ih =>
    rw [List.foldlM_cons, List.flatMap_cons, commitAll_append]
    exact (hf b x).bind ih

variable {prim nonce}

/-- `commitRanges` returns the builder of a successful commit. -/
theorem commitRanges_eq_ok {b b' : TranscriptCommitmentBuilder H N A} {ranges : Finset ℕ}
    {direction : Direction} :
    commitRanges prim nonce b ranges direction = ok b' ↔
      ∃ id, b.addSubstringsCommitment prim ranges direction (nonce b.merkleLeaves.length) =
        (ok id, b') := by
  unfold commitRanges
  rw [commit_eq]
  generalize b.addSubstringsCommitment prim ranges direction (nonce b.merkleLeaves.length) = x
  obtain ⟨r, b''⟩ := x
  cases r <;> simp [eq_comm]

/-- The checks of `add_substrings_commitment` on a range set before it takes an id: the set is
not empty, lies inside the transcript of its direction, and has encodings. -/
def Accepts (b : TranscriptCommitmentBuilder H N A) (ranges : Finset ℕ) (direction : Direction) :
    Prop :=
  ranges ≠ ∅ ∧ (∀ i ∈ ranges, i < b.transcriptLen direction) ∧
    (b.encodingProvider (getValueIds ranges direction)).isSome

/-- The id of the next position is free while the ids have not run out. -/
theorem WellFormed.id_not_mem_lefts {b : TranscriptCommitmentBuilder H N A} (hw : b.WellFormed)
    (hlt : b.merkleLeaves.length < 2 ^ 32) :
    commitmentIdOf b.merkleLeaves.length ∉ b.commitmentInfo.lefts := by
  rw [hw.lefts, List.mem_map]
  rintro ⟨i, hi, heq⟩
  rw [List.mem_range] at hi
  have htoNat := congrArg CommitmentId.toNat heq
  rw [toNat_commitmentIdOf (by omega), toNat_commitmentIdOf hlt] at htoNat
  omega

/-- **One commit.** On a well-formed builder, `add_substrings_commitment` succeeds exactly when its
range set is accepted, is not already committed in that direction, and the ids have not run
out. -/
theorem WellFormed.addSubstringsCommitment_isOk {b : TranscriptCommitmentBuilder H N A}
    (hw : b.WellFormed) (ranges : Finset ℕ) (direction : Direction) (n : N) :
    (∃ id, (b.addSubstringsCommitment prim ranges direction n).1 = ok id) ↔
      Accepts b ranges direction ∧
        (⟨.blake3, ranges, direction⟩ : CommitmentInfo) ∉ b.commitmentInfo.rights ∧
        b.merkleLeaves.length < 2 ^ 32 := by
  constructor
  · rintro ⟨id, h⟩
    obtain ⟨m, encodings, info, hm, hle, henc, rfl, hins, -, -⟩ :=
      addSubstringsCommitment_eq_ok (Prod.ext h rfl)
    refine ⟨⟨?_, fun i hi => ?_, by simp [henc]⟩, (BiMap.insertNoOverwrite_eq_ok hins).2.1,
      hw.lt_of_insertNoOverwrite hins⟩
    · exact (RangeSet.nonempty_of_max_eq hm).ne_empty
    · exact lt_of_lt_of_le (RangeSet.lt_of_max_eq hm hi) hle
  · rintro ⟨⟨hne, hin, henc⟩, hfresh, hlt⟩
    obtain ⟨m, hm⟩ := RangeSet.max_isSome (Finset.nonempty_iff_ne_empty.2 hne)
    obtain ⟨encodings, henc⟩ := Option.isSome_iff_exists.1 henc
    obtain ⟨info, hins⟩ := BiMap.insertNoOverwrite_of_not_mem (hw.id_not_mem_lefts hlt) hfresh
    -- every check passes, and the id the infos did not have is not among the commitments either
    have hpanic : (b.addSubstringsCommitment prim ranges direction n).1 ≠ panic :=
      hw.addSubstringsCommitment_ne_panic ranges direction n
    unfold TranscriptCommitmentBuilder.addSubstringsCommitment at hpanic ⊢
    simp only [hm, Nat.not_lt.2 (RangeSet.max_le_of_lt hm hin), if_false, henc] at hpanic ⊢
    change b.commitmentInfo.insertNoOverwrite (commitmentIdOf b.merkleLeaves.length) _ = _ at hins
    simp only [commitmentIdOf] at hins
    rw [hins] at hpanic ⊢
    split_ifs at hpanic ⊢
    · exact (hpanic rfl).elim
    · exact ⟨_, rfl⟩

/-- A commit appends one leaf and the info of its range set, keeps the builder well formed, and
changes neither the transcripts' lengths nor the encodings. -/
theorem WellFormed.commitRanges {b b' : TranscriptCommitmentBuilder H N A} (hw : b.WellFormed)
    {ranges : Finset ℕ} {direction : Direction}
    (h : commitRanges prim nonce b ranges direction = ok b') :
    b'.merkleLeaves.length = b.merkleLeaves.length + 1 ∧ b'.WellFormed ∧
      b'.commitmentInfo.rights = b.commitmentInfo.rights ++ [⟨.blake3, ranges, direction⟩] ∧
      b'.transcriptLen = b.transcriptLen ∧ b'.encodingProvider = b.encodingProvider := by
  obtain ⟨id, hcommit⟩ := commitRanges_eq_ok.1 h
  have hw' := (hw.addSubstringsCommitment hcommit).2
  obtain ⟨_, _, _, _, _, _, _, hins, _, hb⟩ := addSubstringsCommitment_eq_ok hcommit
  have hentries := (BiMap.insertNoOverwrite_eq_ok hins).2.2
  subst hb
  refine ⟨by simp, hw', ?_, rfl, rfl⟩
  simp [BiMap.rights, hentries]

/-- `commitRanges` succeeds exactly when `add_substrings_commitment` does. -/
theorem WellFormed.commitRanges_isOk {b : TranscriptCommitmentBuilder H N A} (hw : b.WellFormed)
    (ranges : Finset ℕ) (direction : Direction) :
    (∃ b', TranscriptCommitmentBuilder.commitRanges prim nonce b ranges direction = ok b') ↔
      Accepts b ranges direction ∧
        (⟨.blake3, ranges, direction⟩ : CommitmentInfo) ∉ b.commitmentInfo.rights ∧
        b.merkleLeaves.length < 2 ^ 32 := by
  rw [← hw.addSubstringsCommitment_isOk ranges direction (nonce b.merkleLeaves.length)]
  simp only [commitRanges_eq_ok]
  constructor
  · rintro ⟨b', id, h⟩
    exact ⟨id, congrArg Prod.fst h⟩
  · rintro ⟨id, h⟩
    exact ⟨_, id, Prod.ext h rfl⟩

/-- **Run.** A successful list of commits appends one leaf per range set and keeps the builder well
formed. -/
theorem WellFormed.commitAll {b b' : TranscriptCommitmentBuilder H N A} (hw : b.WellFormed)
    {plan : List (Finset ℕ × Direction)} (h : commitAll prim nonce b plan = ok b') :
    b'.merkleLeaves.length = b.merkleLeaves.length + plan.length ∧ b'.WellFormed := by
  induction plan generalizing b with
  | nil =>
    cases h
    exact ⟨rfl, hw⟩
  | cons entry plan ih =>
    obtain ⟨ranges, direction⟩ := entry
    obtain ⟨b₁, h₁, hrest⟩ := bind_eq_ok.1 h
    obtain ⟨hlen₁, hw₁, -⟩ := hw.commitRanges h₁
    obtain ⟨hlen, hw'⟩ := ih hw₁ hrest
    refine ⟨?_, hw'⟩
    rw [hlen, hlen₁, List.length_cons]
    omega

/-- The conditions under which a list of range sets is committed from `b`: each is accepted, no
two are the same range set in the same direction, none is committed already, and the ids do not
run out. -/
structure Committable (b : TranscriptCommitmentBuilder H N A)
    (plan : List (Finset ℕ × Direction)) : Prop where
  accepts : ∀ e ∈ plan, Accepts b e.1 e.2
  nodup : plan.Nodup
  fresh : ∀ e ∈ plan, (⟨.blake3, e.1, e.2⟩ : CommitmentInfo) ∉ b.commitmentInfo.rights
  length_le : b.merkleLeaves.length + plan.length ≤ 2 ^ 32

/-- What a builder accepts depends only on the transcripts' lengths and the encodings. -/
theorem accepts_congr {b b' : TranscriptCommitmentBuilder H N A}
    (hlen : b'.transcriptLen = b.transcriptLen) (henc : b'.encodingProvider = b.encodingProvider)
    (ranges : Finset ℕ) (direction : Direction) :
    Accepts b' ranges direction ↔ Accepts b ranges direction := by
  rw [Accepts, Accepts, hlen, henc]

/-- The first range set of a committable list can be committed on its own. -/
theorem Committable.head {b : TranscriptCommitmentBuilder H N A} {ranges : Finset ℕ}
    {direction : Direction} {plan : List (Finset ℕ × Direction)}
    (hc : Committable b ((ranges, direction) :: plan)) :
    Accepts b ranges direction ∧
      (⟨.blake3, ranges, direction⟩ : CommitmentInfo) ∉ b.commitmentInfo.rights ∧
      b.merkleLeaves.length < 2 ^ 32 := by
  refine ⟨hc.accepts _ List.mem_cons_self, hc.fresh _ List.mem_cons_self, ?_⟩
  have := hc.length_le
  rw [List.length_cons] at this
  omega

/-- Across the commit of its first range set, a list is committable exactly when that range set
is accepted and new, and the rest is committable from the builder the commit leaves. -/
theorem committable_cons_iff {b b₁ : TranscriptCommitmentBuilder H N A} {ranges : Finset ℕ}
    {direction : Direction} {plan : List (Finset ℕ × Direction)}
    (hlen₁ : b₁.merkleLeaves.length = b.merkleLeaves.length + 1)
    (hrights : b₁.commitmentInfo.rights =
      b.commitmentInfo.rights ++ [⟨.blake3, ranges, direction⟩])
    (htl : b₁.transcriptLen = b.transcriptLen) (henc : b₁.encodingProvider = b.encodingProvider) :
    Committable b ((ranges, direction) :: plan) ↔
      (Accepts b ranges direction ∧
        (⟨.blake3, ranges, direction⟩ : CommitmentInfo) ∉ b.commitmentInfo.rights) ∧
      Committable b₁ plan := by
  constructor
  · intro hc
    obtain ⟨hacc, hfresh, -⟩ := hc.head
    have hnotin := (List.nodup_cons.1 hc.nodup).1
    refine ⟨⟨hacc, hfresh⟩, fun e he => (accepts_congr htl henc e.1 e.2).2
        (hc.accepts e (List.mem_cons_of_mem _ he)), (List.nodup_cons.1 hc.nodup).2,
      fun e he hmem => ?_, ?_⟩
    · rw [hrights, List.mem_append, List.mem_singleton] at hmem
      rcases hmem with hmem | heq
      · exact hc.fresh e (List.mem_cons_of_mem _ he) hmem
      · -- the same info is the same entry, which the list does not repeat
        simp only [CommitmentInfo.mk.injEq, true_and] at heq
        exact hnotin (by rw [← heq.1, ← heq.2]; exact he)
    · have := hc.length_le
      rw [hlen₁]
      rw [List.length_cons] at this
      omega
  · rintro ⟨⟨hacc, hfresh⟩, hrest⟩
    -- the rest does not repeat the first commit's info
    have hnotin : (ranges, direction) ∉ plan := fun hmem => by
      have := hrest.fresh _ hmem
      simp [hrights] at this
    refine ⟨?_, List.nodup_cons.2 ⟨hnotin, hrest.nodup⟩, ?_, ?_⟩
    · intro e he
      rcases List.mem_cons.1 he with rfl | he
      · exact hacc
      · exact (accepts_congr htl henc e.1 e.2).1 (hrest.accepts e he)
    · intro e he
      rcases List.mem_cons.1 he with rfl | he
      · exact hfresh
      · have := hrest.fresh e he
        rw [hrights] at this
        exact fun hmem => this (List.mem_append_left _ hmem)
    · have := hrest.length_le
      rw [hlen₁, List.length_cons] at *
      omega

/-- **Every run.** On a well-formed builder, a list of range sets is committed exactly when it is
committable. -/
theorem WellFormed.commitAll_isOk {b : TranscriptCommitmentBuilder H N A} (hw : b.WellFormed)
    (plan : List (Finset ℕ × Direction)) :
    (∃ b', TranscriptCommitmentBuilder.commitAll prim nonce b plan = ok b') ↔
      Committable b plan := by
  induction plan generalizing b with
  | nil => exact ⟨fun _ => ⟨by simp, List.nodup_nil, by simp, by simpa using hw.length_le⟩,
      fun _ => ⟨b, rfl⟩⟩
  | cons entry plan ih =>
    obtain ⟨ranges, direction⟩ := entry
    simp only [commitAll_cons, bind_eq_ok]
    constructor
    · rintro ⟨b', b₁, h₁, hrest⟩
      obtain ⟨hacc, hfresh, -⟩ := (hw.commitRanges_isOk ranges direction).1 ⟨b₁, h₁⟩
      obtain ⟨hlen₁, hw₁, hrights, htl, henc⟩ := hw.commitRanges h₁
      exact (committable_cons_iff hlen₁ hrights htl henc).2
        ⟨⟨hacc, hfresh⟩, (ih hw₁).1 ⟨b', hrest⟩⟩
    · intro hc
      -- the first range set is committed, and the rest is committable after it
      obtain ⟨b₁, h₁⟩ := (hw.commitRanges_isOk ranges direction).2 hc.head
      obtain ⟨hlen₁, hw₁, hrights, htl, henc⟩ := hw.commitRanges h₁
      obtain ⟨b', hb'⟩ := (ih hw₁).2 ((committable_cons_iff hlen₁ hrights htl henc).1 hc).2
      exact ⟨b', b₁, h₁, hb'⟩

/-- The ids run out: a new builder commits at most `2 ^ 32` range sets. -/
theorem length_le_of_commitAll {encodingProvider : List String → Option (List A)}
    {sentLen recvLen : ℕ} {plan : List (Finset ℕ × Direction)}
    {b' : TranscriptCommitmentBuilder H N A}
    (h : commitAll prim nonce (new encodingProvider sentLen recvLen) plan = ok b') :
    plan.length ≤ 2 ^ 32 := by
  obtain ⟨hlen, hw⟩ := (wellFormed_new encodingProvider sentLen recvLen).commitAll h
  have hle := hw.length_le
  simp only [new, List.length_nil, Nat.zero_add] at hlen
  omega

/-- A new builder has committed nothing: a list is committable from it when each range set is
accepted, none repeats, and there are at most `2 ^ 32`. -/
theorem committable_new_iff {encodingProvider : List String → Option (List A)}
    {sentLen recvLen : ℕ} {plan : List (Finset ℕ × Direction)} :
    Committable (new encodingProvider sentLen recvLen : TranscriptCommitmentBuilder H N A) plan ↔
      (∀ e ∈ plan, Accepts (new encodingProvider sentLen recvLen : TranscriptCommitmentBuilder H N A)
        e.1 e.2) ∧ plan.Nodup ∧ plan.length ≤ 2 ^ 32 := by
  constructor
  · rintro ⟨haccepts, hnodup, -, hlen⟩
    exact ⟨haccepts, hnodup, by simpa [new] using hlen⟩
  · rintro ⟨haccepts, hnodup, hlen⟩
    exact ⟨haccepts, hnodup, by simp [new, BiMap.rights, BiMap.empty], by simpa [new] using hlen⟩

/-- **The ids run out.** Once `2 ^ 32` commitments are made, a range set that passes the checks
is refused as a duplicate of the first commitment: its id `2 ^ 32 as u32` is `0`. -/
theorem WellFormed.addSubstringsCommitment_of_full {b : TranscriptCommitmentBuilder H N A}
    (hw : b.WellFormed) (hfull : b.merkleLeaves.length = 2 ^ 32) {ranges : Finset ℕ}
    {direction : Direction} (hacc : Accepts b ranges direction) (n : N) :
    (b.addSubstringsCommitment prim ranges direction n).1 = err (.duplicate (commitmentIdOf 0)) := by
  obtain ⟨hne, hin, henc⟩ := hacc
  obtain ⟨m, hm⟩ := RangeSet.max_isSome (Finset.nonempty_iff_ne_empty.2 hne)
  obtain ⟨encodings, henc⟩ := Option.isSome_iff_exists.1 henc
  -- the id of position `2 ^ 32` is that of position `0`, which the infos hold
  have hid : CommitmentId.new (UInt32.ofNat b.merkleLeaves.length) = commitmentIdOf 0 := by
    rw [hfull]
    rfl
  have hmem : commitmentIdOf 0 ∈ b.commitmentInfo.lefts := by
    rw [hw.lefts, hfull]
    exact List.mem_map.2 ⟨0, List.mem_range.2 (by norm_num), rfl⟩
  unfold TranscriptCommitmentBuilder.addSubstringsCommitment
  simp only [hm, Nat.not_lt.2 (RangeSet.max_le_of_lt hm hin), if_false, henc, hid]
  unfold BiMap.insertNoOverwrite
  rw [dif_pos (Or.inl hmem)]

end CommitAll

end TranscriptCommitmentBuilder

namespace Formats

open TranscriptCommitmentBuilder

/-! ## Parsed data -/

mutual

/-- A JSON value (`spansy::json::JsonValue`), with the range sets the committer reads: an object's
`without_pairs` and its pairs, an array's span, `without_values` and elements, and the span of a
string, a number, a boolean or `null`; a string's span leaves out its quotes. -/
inductive JsonValue
  | object (withoutPairs : Finset ℕ) (elems : List KeyValue)
  | array (span withoutValues : Finset ℕ) (elems : List JsonValue)
  | string (span : Finset ℕ)
  | number (span : Finset ℕ)
  | bool (span : Finset ℕ)
  | null (span : Finset ℕ)

/-- A key-value pair (`spansy::json::KeyValue`): `without_value` and the value. -/
inductive KeyValue
  | mk (withoutValue : Finset ℕ) (value : JsonValue)

end

/-- `MessageKind`. -/
inductive MessageKind
  | request
  | response
  deriving DecidableEq, Repr

/-- A header (`spansy::http::Header`): its span, `without_value`, the span of its value, and its
name, which the error messages quote. -/
structure Header where
  span : Finset ℕ
  withoutValue : Finset ℕ
  value : Finset ℕ
  name : String

/-- The content of a body (`BodyContent`): a JSON value, or content of another format. -/
inductive BodyContent
  | json (value : JsonValue)
  | unknown (span : Finset ℕ)

/-- A request (`spansy::http::Request`): its span, `without_data`, the span of its target, its
headers and its body. -/
structure Request where
  span : Finset ℕ
  withoutData : Finset ℕ
  target : Finset ℕ
  headers : List Header
  body : Option BodyContent

/-- A response (`spansy::http::Response`): its span, `without_data`, its headers and its body. -/
structure Response where
  span : Finset ℕ
  withoutData : Finset ℕ
  headers : List Header
  body : Option BodyContent

/-- `HttpTranscript`: the requests sent and the responses received. -/
structure HttpTranscript where
  requests : List Request
  responses : List Response

/-! ## Errors -/

/-- `JsonCommitError`; its source is the builder's error. -/
structure JsonCommitError where
  msg : String
  source : Option TranscriptCommitmentBuilderError

/-- `JsonCommitError::new_with_source`. -/
def JsonCommitError.newWithSource (msg : String) (source : TranscriptCommitmentBuilderError) :
    JsonCommitError :=
  ⟨msg, some source⟩

/-- The source of an `HttpCommitError`: the builder's error, or that of the JSON committer. -/
inductive HttpCommitSource
  | builder (e : TranscriptCommitmentBuilderError)
  | json (e : JsonCommitError)

/-- `HttpCommitError`. -/
structure HttpCommitError where
  idx : Option ℕ
  recordKind : MessageKind
  msg : String
  source : Option HttpCommitSource

/-- `HttpCommitError::new_with_source`. -/
def HttpCommitError.newWithSource (recordKind : MessageKind) (msg : String)
    (source : HttpCommitSource) : HttpCommitError :=
  ⟨none, recordKind, msg, some source⟩

/-! ## The JSON committer (`json/commit.rs`) -/

section Committers

variable (prim : Primitives S F A H N R P) (nonce : ℕ → N)

/-- A commit of the JSON committer: its error reported with `msg`. -/
def commitJsonPart (msg : String) (b : TranscriptCommitmentBuilder H N A) (ranges : Finset ℕ)
    (direction : Direction) : Outcome JsonCommitError (TranscriptCommitmentBuilder H N A) :=
  (commitRanges prim nonce b ranges direction).mapErr (JsonCommitError.newWithSource msg)

/-- `commit_number`. -/
def commitNumber (b : TranscriptCommitmentBuilder H N A) (span : Finset ℕ)
    (direction : Direction) : Outcome JsonCommitError (TranscriptCommitmentBuilder H N A) :=
  commitJsonPart prim nonce "failed to commit number" b span direction

/-- `commit_bool`. -/
def commitBool (b : TranscriptCommitmentBuilder H N A) (span : Finset ℕ)
    (direction : Direction) : Outcome JsonCommitError (TranscriptCommitmentBuilder H N A) :=
  commitJsonPart prim nonce "failed to commit boolean" b span direction

/-- `commit_null`. -/
def commitNull (b : TranscriptCommitmentBuilder H N A) (span : Finset ℕ)
    (direction : Direction) : Outcome JsonCommitError (TranscriptCommitmentBuilder H N A) :=
  commitJsonPart prim nonce "failed to commit null" b span direction

/-- `commit_string`: an empty string is skipped. -/
def commitString (b : TranscriptCommitmentBuilder H N A) (span : Finset ℕ)
    (direction : Direction) : Outcome JsonCommitError (TranscriptCommitmentBuilder H N A) :=
  if span = ∅ then pure b
  else commitJsonPart prim nonce "failed to commit string" b span direction

/-- `commit_array`: the whole array, then, when it has elements, the array without its values;
the elements themselves are not committed. -/
def commitArray (b : TranscriptCommitmentBuilder H N A) (span withoutValues : Finset ℕ)
    (elems : List JsonValue) (direction : Direction) :
    Outcome JsonCommitError (TranscriptCommitmentBuilder H N A) := do
  let b ← commitJsonPart prim nonce "failed to commit array" b span direction
  if !elems.isEmpty then
    commitJsonPart prim nonce "failed to commit array excluding values" b withoutValues direction
  else pure b

mutual

/-- `commit_value`, by the kind of the value. The case of an object is `commit_object`: the object
without its pairs, then each pair. -/
def commitValue (b : TranscriptCommitmentBuilder H N A) :
    JsonValue → Direction → Outcome JsonCommitError (TranscriptCommitmentBuilder H N A)
  | .object withoutPairs elems, direction => do
    let b ← commitJsonPart prim nonce "failed to commit object" b withoutPairs direction
    commitKeyValues b elems direction
  | .array span withoutValues elems, direction =>
    commitArray prim nonce b span withoutValues elems direction
  | .string span, direction => commitString prim nonce b span direction
  | .number span, direction => commitNumber prim nonce b span direction
  | .bool span, direction => commitBool prim nonce b span direction
  | .null span, direction => commitNull prim nonce b span direction

/-- The loop of `commit_object` over the pairs. -/
def commitKeyValues (b : TranscriptCommitmentBuilder H N A) :
    List KeyValue → Direction → Outcome JsonCommitError (TranscriptCommitmentBuilder H N A)
  | [], _ => pure b
  | kv :: kvs, direction => do
    let b ← commitKeyValue b kv direction
    commitKeyValues b kvs direction

/-- `commit_key_value`: the pair without its value, then the value. -/
def commitKeyValue (b : TranscriptCommitmentBuilder H N A) :
    KeyValue → Direction → Outcome JsonCommitError (TranscriptCommitmentBuilder H N A)
  | .mk withoutValue value, direction => do
    let b ← commitJsonPart prim nonce "failed to commit key-value pair excluding the value" b
      withoutValue direction
    commitValue b value direction

end

/-- `commit_object`, the case of an object of `commitValue`. -/
def commitObject (b : TranscriptCommitmentBuilder H N A) (withoutPairs : Finset ℕ)
    (elems : List KeyValue) (direction : Direction) :
    Outcome JsonCommitError (TranscriptCommitmentBuilder H N A) :=
  commitValue prim nonce b (.object withoutPairs elems) direction

/-! ## The HTTP committer (`http/commit.rs`) -/

/-- A commit of the HTTP committer: its error reported for `recordKind` with `msg`. -/
def commitHttpPart (recordKind : MessageKind) (msg : String) (b : TranscriptCommitmentBuilder H N A)
    (ranges : Finset ℕ) (direction : Direction) :
    Outcome HttpCommitError (TranscriptCommitmentBuilder H N A) :=
  (commitRanges prim nonce b ranges direction).mapErr fun e =>
    HttpCommitError.newWithSource recordKind msg (.builder e)

/-- `commit_target`. -/
def commitTarget (b : TranscriptCommitmentBuilder H N A) (direction : Direction)
    (target : Finset ℕ) : Outcome HttpCommitError (TranscriptCommitmentBuilder H N A) :=
  commitHttpPart prim nonce .request "failed to commit to target in request" b target direction

/-- `commit_request_header` and `commit_response_header`: the whole header, then, when its value
is not empty, the header without its value. -/
def commitHeader (recordKind : MessageKind) (excludingValue : String → String)
    (b : TranscriptCommitmentBuilder H N A) (direction : Direction) (header : Header) :
    Outcome HttpCommitError (TranscriptCommitmentBuilder H N A) := do
  let b ← commitHttpPart prim nonce recordKind
    ("failed to commit to \"" ++ header.name ++ "\" header") b header.span direction
  if header.value ≠ ∅ then
    commitHttpPart prim nonce recordKind (excludingValue header.name) b header.withoutValue
      direction
  else pure b

/-- `commit_request_header`. -/
def commitRequestHeader (b : TranscriptCommitmentBuilder H N A) (direction : Direction)
    (header : Header) : Outcome HttpCommitError (TranscriptCommitmentBuilder H N A) :=
  commitHeader prim nonce .request
    (fun name => "failed to commit to \"" ++ name ++ "\" header excluding value") b direction header

/-- `commit_response_header`. -/
def commitResponseHeader (b : TranscriptCommitmentBuilder H N A) (direction : Direction)
    (header : Header) : Outcome HttpCommitError (TranscriptCommitmentBuilder H N A) :=
  commitHeader prim nonce .response
    (fun name => "failed to commit to \"" ++ name ++ "\" header excluding value in response") b
    direction header

/-- `commit_request_body` and `commit_response_body`: a JSON body by the JSON committer, another
one whole. -/
def commitBody (jsonKind unknownKind : MessageKind) (b : TranscriptCommitmentBuilder H N A)
    (direction : Direction) :
    BodyContent → Outcome HttpCommitError (TranscriptCommitmentBuilder H N A)
  | .json value =>
    (commitValue prim nonce b value direction).mapErr fun e =>
      HttpCommitError.newWithSource jsonKind "failed to commit to JSON body" (.json e)
  | .unknown span =>
    commitHttpPart prim nonce unknownKind "failed to commit to unknown content body" b span direction

/-- `commit_request_body`. -/
def commitRequestBody (b : TranscriptCommitmentBuilder H N A) (direction : Direction)
    (body : BodyContent) : Outcome HttpCommitError (TranscriptCommitmentBuilder H N A) :=
  commitBody prim nonce .request .request b direction body

/-- `commit_response_body`: an error on a body of unknown content is reported as of a request,
as the source does. -/
def commitResponseBody (b : TranscriptCommitmentBuilder H N A) (direction : Direction)
    (body : BodyContent) : Outcome HttpCommitError (TranscriptCommitmentBuilder H N A) :=
  commitBody prim nonce .response .request b direction body

/-- `commit_request`: the whole request, the request without its data when it has headers or a
body, the target, each header, and the body. -/
def commitRequest (b : TranscriptCommitmentBuilder H N A) (direction : Direction)
    (request : Request) : Outcome HttpCommitError (TranscriptCommitmentBuilder H N A) := do
  let b ← commitHttpPart prim nonce .request "failed to commit to entire request" b request.span
    direction
  let b ← if !request.headers.isEmpty || request.body.isSome then
      commitHttpPart prim nonce .request "failed to commit to request with excluded data" b
        request.withoutData direction
    else pure b
  let b ← commitTarget prim nonce b direction request.target
  let b ← request.headers.foldlM (fun b header => commitRequestHeader prim nonce b direction header) b
  match request.body with
  | some body => commitRequestBody prim nonce b direction body
  | none => pure b

/-- `commit_response`: the whole response, the response without its data when it has headers or a
body, each header, and the body. -/
def commitResponse (b : TranscriptCommitmentBuilder H N A) (direction : Direction)
    (response : Response) : Outcome HttpCommitError (TranscriptCommitmentBuilder H N A) := do
  let b ← commitHttpPart prim nonce .response "failed to commit to entire response" b response.span
    direction
  let b ← if !response.headers.isEmpty || response.body.isSome then
      commitHttpPart prim nonce .response "failed to commit to response excluding data" b
        response.withoutData direction
    else pure b
  let b ← response.headers.foldlM
    (fun b header => commitResponseHeader prim nonce b direction header) b
  match response.body with
  | some body => commitResponseBody prim nonce b direction body
  | none => pure b

/-- `commit_transcript`: each request, sent, then each response, received. -/
def commitTranscript (b : TranscriptCommitmentBuilder H N A) (transcript : HttpTranscript) :
    Outcome HttpCommitError (TranscriptCommitmentBuilder H N A) := do
  let b ← transcript.requests.foldlM (fun b request => commitRequest prim nonce b .sent request) b
  transcript.responses.foldlM (fun b response => commitResponse prim nonce b .received response) b

end Committers

/-! ## What the committers commit -/

mutual

/-- The range sets that `commit_value` commits, in order. -/
def JsonValue.commits : JsonValue → List (Finset ℕ)
  | .object withoutPairs elems => withoutPairs :: KeyValue.listCommits elems
  | .array span withoutValues elems => span :: if !elems.isEmpty then [withoutValues] else []
  | .string span => if span = ∅ then [] else [span]
  | .number span => [span]
  | .bool span => [span]
  | .null span => [span]

/-- The range sets that the loop of `commit_object` over the pairs commits, in order. -/
def KeyValue.listCommits : List KeyValue → List (Finset ℕ)
  | [] => []
  | .mk withoutValue value :: kvs => withoutValue :: (value.commits ++ KeyValue.listCommits kvs)

end

/-- The range sets that `commit_request_header` and `commit_response_header` commit. -/
def Header.commits (header : Header) : List (Finset ℕ) :=
  header.span :: if header.value ≠ ∅ then [header.withoutValue] else []

/-- The range sets that `commit_request_body` and `commit_response_body` commit. -/
def BodyContent.commits : BodyContent → List (Finset ℕ)
  | .json value => value.commits
  | .unknown span => [span]

/-- The range sets that `commit_request` commits, in order. -/
def Request.commits (request : Request) : List (Finset ℕ) :=
  request.span ::
    ((if !request.headers.isEmpty || request.body.isSome then [request.withoutData] else []) ++
      request.target :: (request.headers.flatMap Header.commits ++
        (request.body.map BodyContent.commits).getD []))

/-- The range sets that `commit_response` commits, in order. -/
def Response.commits (response : Response) : List (Finset ℕ) :=
  response.span ::
    ((if !response.headers.isEmpty || response.body.isSome then [response.withoutData] else []) ++
      (response.headers.flatMap Header.commits ++ (response.body.map BodyContent.commits).getD []))

/-- The range sets that `commit_transcript` commits, with their directions, in order. -/
def HttpTranscript.commits (transcript : HttpTranscript) : List (Finset ℕ × Direction) :=
  transcript.requests.flatMap (fun request => request.commits.map (·, .sent)) ++
    transcript.responses.flatMap fun response => response.commits.map (·, .received)

/-! ## Each committer commits its range sets -/

section Plans

variable (prim : Primitives S F A H N R P) (nonce : ℕ → N)

/-- A commit followed by the rest agrees with committing the range set before the rest's. -/
theorem sameOk_commitRanges_bind {ε : Type}
    {f : TranscriptCommitmentBuilder H N A → Outcome ε (TranscriptCommitmentBuilder H N A)}
    (g : TranscriptCommitmentBuilderError → ε) (b : TranscriptCommitmentBuilder H N A)
    (ranges : Finset ℕ) (direction : Direction) {plan : List (Finset ℕ × Direction)}
    (hf : ∀ b', SameOk (f b') (commitAll prim nonce b' plan)) :
    SameOk ((commitRanges prim nonce b ranges direction).mapErr g >>= f)
      (commitAll prim nonce b ((ranges, direction) :: plan)) := by
  rw [commitAll_cons]
  exact (sameOk_mapErr g _).bind hf

/-- A last commit agrees with committing its range set. -/
theorem sameOk_commitRanges {ε : Type} (g : TranscriptCommitmentBuilderError → ε)
    (b : TranscriptCommitmentBuilder H N A) (ranges : Finset ℕ) (direction : Direction) :
    SameOk ((commitRanges prim nonce b ranges direction).mapErr g)
      (commitAll prim nonce b [(ranges, direction)]) := by
  have h : SameOk ((commitRanges prim nonce b ranges direction).mapErr g >>= pure)
      (commitAll prim nonce b [(ranges, direction)]) :=
    sameOk_commitRanges_bind prim nonce g b ranges direction fun b' => sameOk_pure b'
  rwa [bind_pure] at h

mutual

theorem sameOk_commitValue (b : TranscriptCommitmentBuilder H N A) :
    ∀ (value : JsonValue) (direction : Direction),
      SameOk (commitValue prim nonce b value direction)
        (commitAll prim nonce b (value.commits.map (·, direction)))
  | .object withoutPairs elems, direction => by
    simp only [commitValue, JsonValue.commits, List.map_cons]
    exact sameOk_commitRanges_bind prim nonce _ b withoutPairs direction
      fun b' => sameOk_commitKeyValues b' elems direction
  | .array span withoutValues elems, direction => by
    simp only [commitValue, commitArray, JsonValue.commits, List.map_cons]
    apply sameOk_commitRanges_bind prim nonce _ b span direction
    intro b'
    -- the array without its values is committed only when it has elements
    by_cases helems : (!elems.isEmpty) = true
    · simp only [if_pos helems, List.map_cons, List.map_nil]
      exact sameOk_commitRanges prim nonce _ b' withoutValues direction
    · simp only [if_neg helems, List.map_nil]
      exact sameOk_pure b'
  | .string span, direction => by
    simp only [commitValue, commitString, JsonValue.commits]
    -- an empty string is skipped
    by_cases hspan : span = ∅
    · simp only [if_pos hspan, List.map_nil]
      exact sameOk_pure b
    · simp only [if_neg hspan, List.map_cons, List.map_nil]
      exact sameOk_commitRanges prim nonce _ b span direction
  | .number span, direction => sameOk_commitRanges prim nonce _ b span direction
  | .bool span, direction => sameOk_commitRanges prim nonce _ b span direction
  | .null span, direction => sameOk_commitRanges prim nonce _ b span direction

theorem sameOk_commitKeyValues (b : TranscriptCommitmentBuilder H N A) :
    ∀ (kvs : List KeyValue) (direction : Direction),
      SameOk (commitKeyValues prim nonce b kvs direction)
        (commitAll prim nonce b ((KeyValue.listCommits kvs).map (·, direction)))
  | [], _ => sameOk_pure b
  | .mk withoutValue value :: kvs, direction => by
    simp only [commitKeyValues, commitKeyValue, KeyValue.listCommits, List.map_cons,
      List.map_append, bind_assoc]
    apply sameOk_commitRanges_bind prim nonce _ b withoutValue direction
    intro b'
    rw [commitAll_append]
    exact (sameOk_commitValue b' value direction).bind
      fun b'' => sameOk_commitKeyValues b'' kvs direction

end

theorem sameOk_commitHeader (recordKind : MessageKind) (excludingValue : String → String)
    (b : TranscriptCommitmentBuilder H N A) (direction : Direction) (header : Header) :
    SameOk (commitHeader prim nonce recordKind excludingValue b direction header)
      (commitAll prim nonce b (header.commits.map (·, direction))) := by
  simp only [commitHeader, Header.commits, List.map_cons]
  apply sameOk_commitRanges_bind prim nonce _ b header.span direction
  intro b'
  -- the header without its value is committed only when the value is not empty
  by_cases hvalue : header.value ≠ ∅
  · simp only [if_pos hvalue, List.map_cons, List.map_nil]
    exact sameOk_commitRanges prim nonce _ b' header.withoutValue direction
  · simp only [if_neg hvalue, List.map_nil]
    exact sameOk_pure b'

theorem sameOk_commitBody (jsonKind unknownKind : MessageKind)
    (b : TranscriptCommitmentBuilder H N A) (direction : Direction) (body : BodyContent) :
    SameOk (commitBody prim nonce jsonKind unknownKind b direction body)
      (commitAll prim nonce b (body.commits.map (·, direction))) := by
  cases body with
  | json value =>
    exact (sameOk_mapErr _ _).trans (sameOk_commitValue prim nonce b value direction)
  | unknown span => exact sameOk_commitRanges prim nonce _ b span direction

/-- The headers and the body of a message, committed after its first commits. -/
theorem sameOk_commitHeadersBody {ε : Type} {direction : Direction}
    (commitBody' : TranscriptCommitmentBuilder H N A → BodyContent →
      Outcome ε (TranscriptCommitmentBuilder H N A))
    (hbody : ∀ b body, SameOk (commitBody' b body)
      (commitAll prim nonce b (body.commits.map (·, direction))))
    (commitHeader' : TranscriptCommitmentBuilder H N A → Header →
      Outcome ε (TranscriptCommitmentBuilder H N A))
    (hheader : ∀ b header, SameOk (commitHeader' b header)
      (commitAll prim nonce b (header.commits.map (·, direction))))
    (headers : List Header) (body : Option BodyContent) (b : TranscriptCommitmentBuilder H N A) :
    SameOk (do
        let b ← headers.foldlM commitHeader' b
        match body with
        | some body => commitBody' b body
        | none => pure b)
      (commitAll prim nonce b ((headers.flatMap Header.commits ++
        (body.map BodyContent.commits).getD []).map (·, direction))) := by
  rw [List.map_append, List.map_flatMap, commitAll_append]
  apply (sameOk_foldlM prim nonce hheader headers b).bind
  intro b'
  cases body with
  | some body => exact hbody b' body
  | none => exact sameOk_pure b'

theorem sameOk_commitRequest (b : TranscriptCommitmentBuilder H N A) (direction : Direction)
    (request : Request) :
    SameOk (commitRequest prim nonce b direction request)
      (commitAll prim nonce b (request.commits.map (·, direction))) := by
  have hrest := sameOk_commitHeadersBody prim nonce
    (fun b body => commitRequestBody prim nonce b direction body)
    (fun b body => sameOk_commitBody prim nonce .request .request b direction body)
    (fun b header => commitRequestHeader prim nonce b direction header)
    (fun b header => sameOk_commitHeader prim nonce .request _ b direction header)
    request.headers request.body
  simp only [commitRequest, commitTarget, commitHttpPart, Request.commits]
  rw [List.map_cons, List.map_append, List.map_cons]
  apply sameOk_commitRanges_bind prim nonce _ b request.span direction
  intro b₁
  -- the request without its data is committed only when it has headers or a body
  by_cases hdata : (!request.headers.isEmpty || request.body.isSome) = true
  · simp only [if_pos hdata, List.map_cons, List.map_nil, List.cons_append, List.nil_append]
    apply sameOk_commitRanges_bind prim nonce _ b₁ request.withoutData direction
    intro b₂
    exact sameOk_commitRanges_bind prim nonce _ b₂ request.target direction hrest
  · simp only [if_neg hdata, List.map_nil, List.nil_append, pure_bind]
    exact sameOk_commitRanges_bind prim nonce _ b₁ request.target direction hrest

theorem sameOk_commitResponse (b : TranscriptCommitmentBuilder H N A) (direction : Direction)
    (response : Response) :
    SameOk (commitResponse prim nonce b direction response)
      (commitAll prim nonce b (response.commits.map (·, direction))) := by
  have hrest := sameOk_commitHeadersBody prim nonce
    (fun b body => commitResponseBody prim nonce b direction body)
    (fun b body => sameOk_commitBody prim nonce .response .request b direction body)
    (fun b header => commitResponseHeader prim nonce b direction header)
    (fun b header => sameOk_commitHeader prim nonce .response _ b direction header)
    response.headers response.body
  simp only [commitResponse, commitHttpPart, Response.commits]
  rw [List.map_cons, List.map_append]
  apply sameOk_commitRanges_bind prim nonce _ b response.span direction
  intro b₁
  -- the response without its data is committed only when it has headers or a body
  by_cases hdata : (!response.headers.isEmpty || response.body.isSome) = true
  · simp only [if_pos hdata, List.map_cons, List.map_nil, List.cons_append, List.nil_append]
    exact sameOk_commitRanges_bind prim nonce _ b₁ response.withoutData direction hrest
  · simp only [if_neg hdata, List.map_nil, List.nil_append, pure_bind]
    exact hrest b₁

/-- **The HTTP committer commits its range sets.** `commit_transcript` returns exactly what
committing the range sets of its requests, sent, then of its responses, received, returns. -/
theorem sameOk_commitTranscript (b : TranscriptCommitmentBuilder H N A)
    (transcript : HttpTranscript) :
    SameOk (commitTranscript prim nonce b transcript)
      (commitAll prim nonce b transcript.commits) := by
  rw [commitTranscript, HttpTranscript.commits, commitAll_append]
  exact (sameOk_foldlM prim nonce (fun b request => sameOk_commitRequest prim nonce b .sent request)
    transcript.requests b).bind fun b' =>
      sameOk_foldlM prim nonce (fun b response => sameOk_commitResponse prim nonce b .received response)
        transcript.responses b'

/-- **When the HTTP committer succeeds.** On a new builder, `commit_transcript` succeeds exactly
when the range sets it commits are each accepted (not empty, inside their transcript, with
encodings), no two are the same range set in the same direction, and there are at most `2 ^ 32`
of them. -/
theorem commitTranscript_isOk_iff (encodingProvider : List String → Option (List A))
    (sentLen recvLen : ℕ) (transcript : HttpTranscript) :
    (∃ b', commitTranscript prim nonce (new encodingProvider sentLen recvLen) transcript = ok b') ↔
      (∀ e ∈ transcript.commits,
        Accepts (new encodingProvider sentLen recvLen : TranscriptCommitmentBuilder H N A) e.1 e.2) ∧
      transcript.commits.Nodup ∧ transcript.commits.length ≤ 2 ^ 32 := by
  rw [exists_congr (sameOk_commitTranscript prim nonce _ transcript),
    (wellFormed_new encodingProvider sentLen recvLen).commitAll_isOk, committable_new_iff]

/-- A transcript whose parts need more than `2 ^ 32` commitments is never committed: the ids of
the commitments are `u32`s, and the one at position `2 ^ 32` has the id of the first. -/
theorem commit_transcript_fails_past_u32_ids (encodingProvider : List String → Option (List A))
    (sentLen recvLen : ℕ) (transcript : HttpTranscript)
    (hmany : 2 ^ 32 < transcript.commits.length) (b' : TranscriptCommitmentBuilder H N A) :
    commitTranscript prim nonce (new encodingProvider sentLen recvLen) transcript ≠ ok b' := by
  intro hok
  obtain ⟨-, -, hle⟩ :=
    (commitTranscript_isOk_iff prim nonce encodingProvider sentLen recvLen transcript).1 ⟨b', hok⟩
  omega

end Plans

/-- `2 ^ 31 + 1` requests `GET / HTTP/1.1` with neither headers nor a body, one after the other:
each is committed whole and by its target. -/
theorem commit_transcript_fails_past_u32_ids_get :
    let request (i : ℕ) : Request :=
      ⟨Finset.Ico (18 * i) (18 * i + 18), Finset.Ico (18 * i) (18 * i + 18) \ {18 * i + 4},
        {18 * i + 4}, [], none⟩
    let transcript : HttpTranscript := ⟨(List.range (2 ^ 31 + 1)).map request, []⟩
    let prim : Primitives Unit Unit Unit Unit Unit Unit Unit :=
      ⟨fun _ _ => 0, fun _ _ => (), fun _ _ => (), fun _ _ => (), fun _ => (), fun _ _ => (),
        fun _ _ _ _ _ => true⟩
    2 ^ 32 < transcript.commits.length ∧
      ∀ b', commitTranscript prim (fun _ => ())
        (new (fun ids => some (ids.map fun _ => ())) (18 * (2 ^ 31 + 1)) 0) transcript ≠ ok b' := by
  intro request transcript prim
  -- each request is committed whole and by its target
  have hcommits (i : ℕ) : ((request i).commits.map (·, Direction.sent)).length = 2 := rfl
  have hmany : 2 ^ 32 < transcript.commits.length := by
    simp only [transcript, HttpTranscript.commits, List.flatMap_nil, List.append_nil,
      List.length_flatMap, List.map_map, Function.comp_def, hcommits, List.map_const',
      List.sum_replicate, List.length_range, smul_eq_mul]
    norm_num
  exact ⟨hmany, commit_transcript_fails_past_u32_ids prim (fun _ => ()) _ _ 0 transcript hmany⟩

end Formats

end Tlsn
