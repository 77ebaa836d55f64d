import Tlsn.Lib.RangeSet
import Mathlib

/-!
# Transcripts (`tlsn-core/src/transcript.rs`)

* `Direction` and `getValueIds`: the value id `tx/i` or `rx/i` of each byte of a range set, in
  increasing order;
* `Transcript.getBytesInRanges`: the bytes at a range set, in the same order; it panics
  (`none`) on an empty set or one that leaves the transcript;
* `TranscriptSlice` and `RedactedTranscript.new`: a transcript of zeros into which the
  authenticated slices are copied;
* `setRedacted` and `setRedactedRange`: the redacted bytes, or those of them in a range, filled
  with a value.

Value ids name their byte (`valueId_inj`), the bytes at a set are its elements looked up in the
transcript (`getBytesInRanges_eq`), and a redacted transcript built from the slices of a buffer
at the ranges of a set keeps the buffer on the set and zero elsewhere (`new_ofRanges`). `new`
copies any slices that lie in the transcript, do not overlap and carry as many bytes as their
ranges (`copySlices_eq_some`); `setRedactedRange` fills exactly the redacted bytes in its range,
however the range lies against the transcript (`setRedactedRange_eq`).
-/

namespace Tlsn

open RangeSet

/-- The direction of data communicated over a TLS connection. -/
inductive Direction
  | sent
  | received
  deriving DecidableEq, Repr

/-- A value for each direction, as the code keeps a sent and a received one side by side. -/
structure ByDirection (α : Type) where
  sent : α
  recv : α
  deriving DecidableEq

namespace ByDirection

variable {α : Type}

/-- The value of a direction (`match direction`). -/
def get (p : ByDirection α) : Direction → α
  | .sent => p.sent
  | .received => p.recv

/-- Replace the value of a direction. -/
def set (p : ByDirection α) : Direction → α → ByDirection α
  | .sent, a => { p with sent := a }
  | .received, a => { p with recv := a }

@[simp] theorem get_sent (p : ByDirection α) : p.get .sent = p.sent := rfl

@[simp] theorem get_received (p : ByDirection α) : p.get .received = p.recv := rfl

@[simp] theorem get_set_self (p : ByDirection α) (d : Direction) (a : α) :
    (p.set d a).get d = a := by
  cases d <;> rfl

@[simp] theorem get_set_of_ne (p : ByDirection α) {d d' : Direction} (h : d' ≠ d) (a : α) :
    (p.set d a).get d' = p.get d' := by
  cases d <;> cases d' <;> first | rfl | exact absurd rfl h

end ByDirection

/-- `TX_TRANSCRIPT_ID`. -/
def txTranscriptId : String := "tx"

/-- `RX_TRANSCRIPT_ID`. -/
def rxTranscriptId : String := "rx"

/-- The transcript id of a direction, as `get_value_ids` selects it. -/
def Direction.transcriptId : Direction → String
  | .sent => txTranscriptId
  | .received => rxTranscriptId

/-- The id of byte `idx` in direction `d`: `format!("{}/{}", id, idx)`. -/
def valueId (d : Direction) (idx : ℕ) : String := d.transcriptId ++ "/" ++ toString idx

/-- `get_value_ids`: the value id of each element of `ranges`, in increasing order. -/
def getValueIds (ranges : Finset ℕ) (d : Direction) : List String := (iter ranges).map (valueId d)

/-- Different bytes have different value ids. -/
theorem valueId_inj {d d' : Direction} {i j : ℕ} (h : valueId d i = valueId d' j) :
    d = d' ∧ i = j := by
  have hl := congrArg String.toList h
  cases d <;> cases d' <;>
    simp only [valueId, Direction.transcriptId, txTranscriptId, rxTranscriptId,
      String.toList_append, List.append_assoc, List.append_cancel_left_eq] at hl
  · exact ⟨rfl, Nat.repr_injective (String.toList_inj.1 hl)⟩
  · simp at hl
  · simp at hl
  · exact ⟨rfl, Nat.repr_injective (String.toList_inj.1 hl)⟩

@[simp] theorem length_getValueIds (ranges : Finset ℕ) (d : Direction) :
    (getValueIds ranges d).length = len ranges := by
  simp [getValueIds]

/-- A transcript: the bytes of one direction of a TLS session. -/
structure Transcript where
  data : List UInt8
  deriving DecidableEq

/-- The bytes of `l` at the half-open range `r`: `&l[r]`. -/
def slice (l : List UInt8) (r : ℕ × ℕ) : List UInt8 := (l.drop r.1).take (r.2 - r.1)

/-- A slice inside the buffer is the buffer looked up along the range. -/
theorem slice_eq_map (l : List UInt8) {r : ℕ × ℕ} (h : r.2 ≤ l.length) :
    slice l r = (toList r).map (l.getD · 0) := by
  apply List.ext_getElem?
  intro i
  rw [slice, List.getElem?_take, List.getElem?_map]
  split_ifs with hi
  · rw [toList, List.getElem?_range' hi, List.getElem?_drop, Nat.one_mul, Option.map_some,
      List.getD_eq_getElem _ _ (by omega), List.getElem?_eq_getElem (by omega)]
  · rw [List.getElem?_eq_none (by simp; omega)]; rfl

/-- `Transcript::get_bytes_in_ranges`: the bytes at each range of `ranges`, concatenated; it
panics on an empty set and on a set that leaves the transcript. -/
def Transcript.getBytesInRanges (t : Transcript) (ranges : Finset ℕ) : Option (List UInt8) :=
  match RangeSet.max ranges with
  | none => none
  | some m => if m ≤ t.data.length then some ((iterRanges ranges).flatMap (slice t.data))
    else none

/-- The bytes at a set inside the transcript are its elements looked up in order. -/
theorem getBytesInRanges_eq {t : Transcript} {ranges : Finset ℕ} {m : ℕ}
    (hm : RangeSet.max ranges = some m) (hlen : m ≤ t.data.length) :
    t.getBytesInRanges ranges = some ((iter ranges).map (t.data.getD · 0)) := by
  simp only [Transcript.getBytesInRanges, hm, if_pos hlen, Option.some.injEq]
  rw [← flatMap_iterRanges, List.map_flatMap]
  apply List.flatMap_congr
  intro r hr
  exact slice_eq_map _ (le_trans (snd_le_of_max_eq hm hr) hlen)

/-- Slice of a transcript: a range and the bytes claimed for it. -/
structure TranscriptSlice where
  range : ℕ × ℕ
  data : List UInt8
  deriving DecidableEq

/-- A transcript which may have some data redacted: the bytes, the authenticated set and the
redacted set. -/
structure RedactedTranscript where
  data : List UInt8
  auth : Finset ℕ
  redacted : Finset ℕ
  deriving DecidableEq

/-- The loop of `RedactedTranscript::new`: copy each slice into its range and add the range to
the authenticated set. -/
def copySlices : List UInt8 × Finset ℕ → List TranscriptSlice → Option (List UInt8 × Finset ℕ)
  | acc, [] => some acc
  | acc, s :: ss =>
    (copyFromSlice acc.1 s.range s.data).bind fun data =>
      copySlices (data, acc.2 ∪ Finset.Ico s.range.1 s.range.2) ss

/-- `RedactedTranscript::new`: zeros of length `len`, the slices copied in; the redacted set is
`0..len` without the authenticated set. -/
def RedactedTranscript.new (len : ℕ) (slices : List TranscriptSlice) :
    Option RedactedTranscript :=
  (copySlices (List.replicate len 0, ∅) slices).map fun acc =>
    ⟨acc.1, acc.2, Finset.range len \ acc.2⟩

/-- `RedactedTranscript::set_redacted`: every redacted byte set to `value`, range by range. -/
def RedactedTranscript.setRedacted (t : RedactedTranscript) (value : UInt8) :
    Option RedactedTranscript :=
  (fillRanges t.data (iterRanges t.redacted) value).map fun data => { t with data }

/-- `RedactedTranscript::set_redacted_range`: the redacted bytes in `range` set to `value`; the
set is computed as `redacted \ ((0..len) \ range)`. -/
def RedactedTranscript.setRedactedRange (t : RedactedTranscript) (value : UInt8)
    (range : ℕ × ℕ) : Option RedactedTranscript :=
  (fillRanges t.data
    (iterRanges (t.redacted \ (Finset.range t.data.length \ Finset.Ico range.1 range.2)))
    value).map fun data => { t with data }

/-- The slices of `buf` at the ranges of `s`, as `SubstringsProof::verify` builds them. -/
def slicesOf (buf : List UInt8) (s : Finset ℕ) : List TranscriptSlice :=
  (iterRanges s).map fun r => ⟨r, slice buf r⟩

/-- Copying slices whose bytes are the images of their indices under `g` overwrites each range
with `g`. -/
theorem copySlices_map_fn (g : ℕ → UInt8) (rs : List (ℕ × ℕ)) (data : List UInt8)
    (auth : Finset ℕ) (hrs : ∀ r ∈ rs, r.1 ≤ r.2 ∧ r.2 ≤ data.length) :
    copySlices (data, auth) (rs.map fun r => ⟨r, (toList r).map g⟩) =
      some (overwrite data (· ∈ rs.flatMap toList) g, auth ∪ (rs.flatMap toList).toFinset) := by
  induction rs generalizing data auth with
  | nil => simp [copySlices, overwrite_of_not]
  | cons r rs ih =>
    obtain ⟨h1, h2⟩ := hrs r (by simp)
    simp only [List.map_cons, copySlices]
    rw [copyFromSlice_map _ r _ h1 h2, Option.bind_some,
      ih _ _ (fun q hq => by simpa using hrs q (by simp [hq])), overwrite_overwrite]
    congr 2
    · exact overwrite_congr _ (fun i => by rw [List.flatMap_cons, List.mem_append, or_comm]) _
    · ext i
      simp only [Finset.mem_union, Finset.mem_Ico, List.mem_toFinset, List.flatMap_cons,
        List.mem_append, mem_toList]
      tauto

/-- The redacted transcript of slices whose bytes are the images of their indices under `g`, at
the ranges of a set inside the transcript: `g` on the set and zero elsewhere, authenticated
exactly on the set. -/
theorem new_iterRanges_map (len : ℕ) (s : Finset ℕ) (g : ℕ → UInt8) (hs : ∀ i ∈ s, i < len) :
    RedactedTranscript.new len ((iterRanges s).map fun r => ⟨r, (toList r).map g⟩) =
      some ⟨overwrite (List.replicate len 0) (· ∈ s) g, s, Finset.range len \ s⟩ := by
  have hrs : ∀ r ∈ iterRanges s, r.1 ≤ r.2 ∧ r.2 ≤ (List.replicate len (0 : UInt8)).length := by
    intro r hr
    simpa using bounds_of_mem_iterRanges hs hr
  have hset : (∅ : Finset ℕ) ∪ ((iterRanges s).flatMap toList).toFinset = s := by
    ext i; simp [flatMap_iterRanges]
  rw [RedactedTranscript.new, copySlices_map_fn g _ _ ∅ hrs, Option.map_some, hset]
  congr 2
  exact overwrite_congr _ (fun i => by rw [flatMap_iterRanges, mem_iter]) _

/-- Copying the slices of `buf` at ranges inside it overwrites each range with `buf`. -/
theorem copySlices_map (buf : List UInt8) (rs : List (ℕ × ℕ)) (data : List UInt8)
    (auth : Finset ℕ) (hlen : data.length = buf.length)
    (hrs : ∀ r ∈ rs, r.1 ≤ r.2 ∧ r.2 ≤ buf.length) :
    copySlices (data, auth) (rs.map fun r => ⟨r, slice buf r⟩) =
      some (overwrite data (· ∈ rs.flatMap toList) (buf.getD · 0),
        auth ∪ (rs.flatMap toList).toFinset) := by
  -- a slice of `buf` at a range inside it is the image of the range under `buf`
  have hslices : rs.map (fun r => (⟨r, slice buf r⟩ : TranscriptSlice)) =
      rs.map fun r => ⟨r, (toList r).map (buf.getD · 0)⟩ :=
    List.map_congr_left fun r hr => by rw [slice_eq_map _ (hrs r hr).2]
  rw [hslices]
  exact copySlices_map_fn _ rs data auth fun r hr => hlen ▸ hrs r hr

/-- The transcript `t` redacted outside `s`: its bytes on `s` and zero elsewhere, authenticated
on `s`. -/
def RedactedTranscript.ofSet (t : List UInt8) (s : Finset ℕ) : RedactedTranscript :=
  ⟨overwrite (List.replicate t.length 0) (· ∈ s) (t.getD · 0), s, Finset.range t.length \ s⟩

/-- The bytes of `ofSet t s`: those of `t` on `s`, zero elsewhere. -/
theorem getElem?_ofSet_data (t : List UInt8) (s : Finset ℕ) (i : ℕ) :
    (RedactedTranscript.ofSet t s).data[i]? = t[i]?.map fun b => if i ∈ s then b else 0 := by
  rw [RedactedTranscript.ofSet, getElem?_overwrite, List.getElem?_replicate]
  by_cases hi : i < t.length <;> simp [hi]

theorem getElem?_ofSet_data_of_mem {t : List UInt8} {s : Finset ℕ} {i : ℕ} (hi : i ∈ s) :
    (RedactedTranscript.ofSet t s).data[i]? = t[i]? := by
  rw [getElem?_ofSet_data]
  simp [hi]

/-- Only the bytes on the set matter. -/
theorem ofSet_congr {t t' : List UInt8} {s : Finset ℕ} (hlen : t.length = t'.length)
    (h : ∀ i ∈ s, t.getD i 0 = t'.getD i 0) :
    RedactedTranscript.ofSet t s = RedactedTranscript.ofSet t' s := by
  simp only [RedactedTranscript.ofSet, hlen, RedactedTranscript.mk.injEq, and_true]
  apply List.ext_getElem?
  intro i
  rw [getElem?_overwrite, getElem?_overwrite]
  by_cases hi : i ∈ s
  · simp only [hi, if_true, h i hi]
  · simp only [hi, if_false]

/-- **Redacted transcript of a buffer.** The slices of a buffer at the ranges of a set inside it
give a transcript that is the buffer on the set and zero elsewhere, authenticated exactly on the
set. -/
theorem new_ofRanges (buf : List UInt8) (s : Finset ℕ) (hs : ∀ i ∈ s, i < buf.length) :
    RedactedTranscript.new buf.length (slicesOf buf s) = some (RedactedTranscript.ofSet buf s) := by
  have hrs : ∀ r ∈ iterRanges s, r.1 ≤ r.2 ∧ r.2 ≤ buf.length :=
    fun r hr => bounds_of_mem_iterRanges hs hr
  have hset : (∅ : Finset ℕ) ∪ ((iterRanges s).flatMap toList).toFinset = s := by
    ext i; simp [flatMap_iterRanges]
  rw [RedactedTranscript.new, slicesOf, copySlices_map buf _ _ ∅ (by simp) hrs, Option.map_some,
    hset, RedactedTranscript.ofSet]
  congr 2
  exact overwrite_congr _ (fun i => by rw [flatMap_iterRanges, mem_iter]) _

/-! ### Building a redacted transcript, and setting its redacted bytes -/

/-- **The loop of `new`.** Slices inside `data`, each with as many bytes as its range and no two
overlapping, are all copied: each index of a slice holds the slice's byte, every other index keeps
its byte, and the authenticated set gains exactly the slices' ranges. -/
theorem copySlices_eq_some {slices : List TranscriptSlice} (data : List UInt8) (auth : Finset ℕ)
    (hbounds : ∀ s ∈ slices, s.range.1 ≤ s.range.2 ∧ s.range.2 ≤ data.length)
    (hdata : ∀ s ∈ slices, s.data.length = s.range.2 - s.range.1)
    (hdisj : slices.Pairwise fun s s' =>
      Disjoint (Finset.Ico s.range.1 s.range.2) (Finset.Ico s'.range.1 s'.range.2)) :
    ∃ data' auth', copySlices (data, auth) slices = some (data', auth') ∧
      data'.length = data.length ∧
      (∀ i, i ∈ auth' ↔ i ∈ auth ∨ ∃ s ∈ slices, i ∈ Finset.Ico s.range.1 s.range.2) ∧
      (∀ s ∈ slices, ∀ i ∈ Finset.Ico s.range.1 s.range.2, data'[i]? = s.data[i - s.range.1]?) ∧
      ∀ i, (∀ s ∈ slices, i ∉ Finset.Ico s.range.1 s.range.2) → data'[i]? = data[i]? := by
  induction slices generalizing data auth with
  | nil => exact ⟨data, auth, rfl, rfl, by simp, by simp, fun _ _ => rfl⟩
  | cons s ss ih =>
    obtain ⟨h1, h2⟩ := hbounds s (by simp)
    obtain ⟨d₁, hd₁⟩ : ∃ d₁, copyFromSlice data s.range s.data = some d₁ :=
      ⟨_, if_pos ⟨h1, h2, hdata s (by simp)⟩⟩
    have hlen₁ := length_copyFromSlice hd₁
    rw [List.pairwise_cons] at hdisj
    obtain ⟨data', auth', hrun, hlen, hauth, hin, hout⟩ :=
      ih d₁ (auth ∪ Finset.Ico s.range.1 s.range.2) (fun q hq => hlen₁ ▸ hbounds q (by simp [hq]))
        (fun q hq => hdata q (by simp [hq])) hdisj.2
    refine ⟨data', auth', ?_, by rw [hlen, hlen₁], ?_, ?_, ?_⟩
    · simp only [copySlices, hd₁, Option.bind_some, hrun]
    · intro i
      rw [hauth i, Finset.mem_union]
      constructor
      · rintro ((h | h) | ⟨q, hq, h⟩)
        · exact Or.inl h
        · exact Or.inr ⟨s, List.mem_cons_self, h⟩
        · exact Or.inr ⟨q, List.mem_cons_of_mem _ hq, h⟩
      · rintro (h | ⟨q, hq, h⟩)
        · exact Or.inl (Or.inl h)
        · rcases List.mem_cons.1 hq with rfl | hq
          · exact Or.inl (Or.inr h)
          · exact Or.inr ⟨q, hq, h⟩
    · intro s' hs' i hi
      rcases List.mem_cons.1 hs' with rfl | hs'
      · -- no later slice covers an index of this one
        have hnot : ∀ q ∈ ss, i ∉ Finset.Ico q.range.1 q.range.2 :=
          fun q hq hiq => Finset.disjoint_left.1 (hdisj.1 q hq) hi hiq
        rw [hout i hnot, getElem?_copyFromSlice hd₁, if_pos (Finset.mem_Ico.1 hi)]
      · exact hin s' hs' i hi
    · intro i hi
      rw [hout i (fun q hq => hi q (by simp [hq])), getElem?_copyFromSlice hd₁,
        if_neg (fun h => hi s (by simp) (Finset.mem_Ico.2 h))]

/-- `set_redacted` is `set_redacted_range` over the whole transcript. -/
theorem setRedacted_eq_setRedactedRange (t : RedactedTranscript) (value : UInt8) :
    t.setRedacted value = t.setRedactedRange value (0, t.data.length) := by
  simp only [RedactedTranscript.setRedacted, RedactedTranscript.setRedactedRange]
  rw [Finset.range_eq_Ico, Finset.sdiff_self, Finset.sdiff_empty]

/-- **Setting redacted bytes in a range.** In a transcript whose redacted set lies in its data,
`set_redacted_range` writes `value` exactly at the redacted indices in the range, wherever the
range ends. -/
theorem setRedactedRange_eq (t : RedactedTranscript) (value : UInt8) (range : ℕ × ℕ)
    (ht : ∀ i ∈ t.redacted, i < t.data.length) :
    t.setRedactedRange value range = some { t with data := (overwrite t.data
      (fun i => i ∈ t.redacted ∧ range.1 ≤ i ∧ i < range.2) fun _ => value) } := by
  -- inside the data, `redacted \ ((0..len) \ range)` is `redacted ∩ range`
  have hset : ∀ i, i ∈ t.redacted \ (Finset.range t.data.length \ Finset.Ico range.1 range.2) ↔
      i ∈ t.redacted ∧ range.1 ≤ i ∧ i < range.2 := by
    intro i
    simp only [Finset.mem_sdiff, Finset.mem_range, Finset.mem_Ico]
    constructor
    · rintro ⟨hi, hr⟩
      exact ⟨hi, by by_contra h; exact hr ⟨ht i hi, h⟩⟩
    · rintro ⟨hi, hr⟩
      exact ⟨hi, fun h => h.2 hr⟩
  have hin : ∀ i ∈ t.redacted \ (Finset.range t.data.length \ Finset.Ico range.1 range.2),
      i < t.data.length := fun i hi => ht i (Finset.mem_sdiff.1 hi).1
  rw [RedactedTranscript.setRedactedRange, fillRanges_iterRanges t.data hin, Option.map_some,
    overwrite_congr _ hset]

theorem redacted_transcript_bookkeeping (len : ℕ) (slices : List TranscriptSlice)
    (hbounds : ∀ s ∈ slices, s.range.1 ≤ s.range.2 ∧ s.range.2 ≤ len)
    (hdata : ∀ s ∈ slices, s.data.length = s.range.2 - s.range.1)
    (hdisj : slices.Pairwise fun s s' =>
      Disjoint (Finset.Ico s.range.1 s.range.2) (Finset.Ico s'.range.1 s'.range.2)) :
    ∃ t, RedactedTranscript.new len slices = some t ∧
      (∀ i, i ∈ t.auth ↔ ∃ s ∈ slices, i ∈ Finset.Ico s.range.1 s.range.2) ∧
      t.redacted = Finset.range len \ t.auth ∧
      t.data.length = len ∧
      (∀ s ∈ slices, ∀ i ∈ Finset.Ico s.range.1 s.range.2, t.data[i]? = s.data[i - s.range.1]?) ∧
      (∀ i < len, i ∉ t.auth → t.data[i]? = some 0) ∧
      (∀ value range, ∃ t', t.setRedactedRange value range = some t' ∧
        t'.auth = t.auth ∧ t'.redacted = t.redacted ∧
        ∀ i, t'.data[i]? = t.data[i]?.map fun b =>
          if i ∈ t.redacted ∧ range.1 ≤ i ∧ i < range.2 then value else b) ∧
      ∀ value, t.setRedacted value = t.setRedactedRange value (0, len) := by
  obtain ⟨data, auth, hrun, hlen, hauth, hin, hout⟩ :=
    copySlices_eq_some (List.replicate len 0) ∅ (by simpa using hbounds) hdata hdisj
  rw [List.length_replicate] at hlen
  have hred : ∀ i ∈ Finset.range len \ auth, i < data.length := fun i hi =>
    hlen ▸ Finset.mem_range.1 (Finset.mem_sdiff.1 hi).1
  refine ⟨⟨data, auth, Finset.range len \ auth⟩, by rw [RedactedTranscript.new, hrun, Option.map_some],
    fun i => by simpa using hauth i, rfl, hlen, hin, ?_, ?_, ?_⟩
  · -- an index outside every slice keeps its zero
    intro i hi hnot
    rw [hout i (fun s hs his => hnot ((hauth i).2 (Or.inr ⟨s, hs, his⟩))),
      List.getElem?_replicate, if_pos hi]
  · intro value range
    refine ⟨_, setRedactedRange_eq _ value range hred, rfl, rfl, fun i => ?_⟩
    rw [getElem?_overwrite]
  · intro value
    simpa [hlen] using setRedacted_eq_setRedactedRange ⟨data, auth, Finset.range len \ auth⟩ value

/-- Two slices of a transcript of five bytes, redacted outside them. -/
theorem redacted_transcript_bookkeeping_two_slices :
    let slices : List TranscriptSlice := [⟨(0, 2), [7, 8]⟩, ⟨(3, 4), [9]⟩]
    (∀ s ∈ slices, s.range.1 ≤ s.range.2 ∧ s.range.2 ≤ 5) ∧
    (∀ s ∈ slices, s.data.length = s.range.2 - s.range.1) ∧
    slices.Pairwise (fun s s' =>
      Disjoint (Finset.Ico s.range.1 s.range.2) (Finset.Ico s'.range.1 s'.range.2)) ∧
    ∃ t, RedactedTranscript.new 5 slices = some t ∧
      (∀ i, i ∈ t.auth ↔ ∃ s ∈ slices, i ∈ Finset.Ico s.range.1 s.range.2) ∧
      t.redacted = Finset.range 5 \ t.auth ∧
      t.data.length = 5 ∧
      (∀ s ∈ slices, ∀ i ∈ Finset.Ico s.range.1 s.range.2, t.data[i]? = s.data[i - s.range.1]?) ∧
      (∀ i < 5, i ∉ t.auth → t.data[i]? = some 0) ∧
      (∀ value range, ∃ t', t.setRedactedRange value range = some t' ∧
        t'.auth = t.auth ∧ t'.redacted = t.redacted ∧
        ∀ i, t'.data[i]? = t.data[i]?.map fun b =>
          if i ∈ t.redacted ∧ range.1 ≤ i ∧ i < range.2 then value else b) ∧
      ∀ value, t.setRedacted value = t.setRedactedRange value (0, 5) := by
  intro slices
  have hbounds : ∀ s ∈ slices, s.range.1 ≤ s.range.2 ∧ s.range.2 ≤ 5 := by decide
  have hdata : ∀ s ∈ slices, s.data.length = s.range.2 - s.range.1 := by decide
  have hdisj : slices.Pairwise (fun s s' =>
      Disjoint (Finset.Ico s.range.1 s.range.2) (Finset.Ico s'.range.1 s'.range.2)) := by
    simp [slices]
  exact ⟨hbounds, hdata, hdisj, redacted_transcript_bookkeeping 5 slices hbounds hdata hdisj⟩

/-- A slice with fewer bytes than its range, alone inside the transcript, makes `new` panic. -/
theorem redacted_transcript_short_slice_panics :
    let slices : List TranscriptSlice := [⟨(0, 1), []⟩]
    (∀ s ∈ slices, s.range.1 ≤ s.range.2 ∧ s.range.2 ≤ 1) ∧
      slices.Pairwise (fun s s' =>
        Disjoint (Finset.Ico s.range.1 s.range.2) (Finset.Ico s'.range.1 s'.range.2)) ∧
      RedactedTranscript.new 1 slices = none := by
  intro slices
  exact ⟨by decide, List.pairwise_singleton _ _, rfl⟩

end Tlsn
