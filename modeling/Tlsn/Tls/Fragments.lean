import Tlsn.Lib.Framing
import Tlsn.Mpc.RecordLayer
import Tlsn.Tls.Handshake

/-!
# Fragmenting records and joining handshake messages

`MessageFragmenter::fragment` cuts a record's payload into fragments of at most `max_frag`
bytes; `HandshakeJoiner::take_message` appends the payload of each record it is given to its
buffer, and takes handshake messages off the front of the buffer for as long as a whole one is
there. The joiner is an instance of `Framing`: its reader (`HandshakeJoiner.reader`) finds at the
front of the buffer a message (`buf_contains_message`, then `deframe_one`), a message not yet
complete, or a message too large or that does not parse.

* `fragment_payloads`, `fragment_length_le`: the fragments of a record are its payload, cut into
  pieces of at most `max_frag` bytes;
* `readsFrames`: the joiner's reader reads every message back from its encoding, whatever follows,
  and finds every proper prefix of an encoding incomplete;
* `takeMessages_deframed`: over any sequence of records, the joiner holds the messages whose
  encodings it has received whole, and in its buffer the bytes received since.
-/

namespace Tlsn.Tls

open Codec Handshake Mpc

/-! ### The fragmenter -/

/-- `MAX_FRAGMENT_LEN`. -/
def maxFragmentLen : ℕ := 16384

/-- `PACKET_OVERHEAD`. -/
def packetOverhead : ℕ := 1 + 2 + 2

/-- `MAX_FRAGMENT_SIZE`. -/
def maxFragmentSize : ℕ := maxFragmentLen + packetOverhead

theorem maxFragmentLen_pos : 0 < maxFragmentLen := by decide

/-- A size the fragmenter accepts leaves room for a payload after the record header. -/
theorem sub_packetOverhead_pos {sz : ℕ} (h : 32 ≤ sz ∧ sz ≤ maxFragmentSize) :
    0 < sz - packetOverhead := by
  simp only [packetOverhead]
  omega

/-- `slice::chunks(size)`: consecutive pieces of `size` elements, the last one shorter. The size is
never zero where it is used, on which `chunks` panics. -/
def chunks {α : Type} (size : ℕ) (xs : List α) : List (List α) :=
  if h : 0 < size ∧ xs ≠ [] then xs.take size :: chunks size (xs.drop size) else []
termination_by xs.length
decreasing_by
  have : xs.length ≠ 0 := by simpa using h.2
  simp only [List.length_drop]
  omega

/-- The chunks are the list. -/
theorem flatten_chunks {α : Type} {size : ℕ} (hsize : 0 < size) (xs : List α) :
    (chunks size xs).flatten = xs := by
  fun_induction chunks size xs with
  | case1 xs _ ih => rw [List.flatten_cons, ih, List.take_append_drop]
  | case2 xs h =>
    -- with a positive size, only the empty list has no chunk
    have hxs : xs = [] := Classical.byContradiction fun hne => h ⟨hsize, hne⟩
    rw [hxs, List.flatten_nil]

/-- No chunk is longer than the size. -/
theorem length_le_of_mem_chunks {α : Type} {size : ℕ} {xs : List α} :
    ∀ c ∈ chunks size xs, c.length ≤ size := by
  fun_induction chunks size xs with
  | case1 xs _ ih =>
    intro c hc
    rcases List.mem_cons.1 hc with rfl | hc
    · exact List.length_take_le _ _
    · exact ih c hc
  | case2 xs _ => simp

/-- `Error`: the variant the fragmenter returns. -/
inductive Error
  | badMaxFragmentSize
  deriving DecidableEq, Repr

/-- `MessageFragmenter`: the largest payload of a fragment, which is never zero. -/
structure MessageFragmenter where
  maxFrag : ℕ
  maxFrag_pos : 0 < maxFrag

namespace MessageFragmenter

/-- `MessageFragmenter::set_max_fragment_size`: a size from `32` to `MAX_FRAGMENT_SIZE` less the
header, or `MAX_FRAGMENT_LEN` by default; on `BadMaxFragmentSize` the fragmenter is kept. -/
def setMaxFragmentSize (_f : MessageFragmenter) (new : Option ℕ) :
    Except Error MessageFragmenter :=
  match new with
  | some sz =>
    if h : 32 ≤ sz ∧ sz ≤ maxFragmentSize then
      .ok ⟨sz - packetOverhead, sub_packetOverhead_pos h⟩
    else .error .badMaxFragmentSize
  | none => .ok ⟨maxFragmentLen, maxFragmentLen_pos⟩

/-- `MessageFragmenter::new`: `set_max_fragment_size`, which replaces the size it starts from. -/
def new (maxFragmentSize : Option ℕ) : Except Error MessageFragmenter :=
  setMaxFragmentSize ⟨maxFragmentLen, maxFragmentLen_pos⟩ maxFragmentSize

/-- `MessageFragmenter::fragment`: a record whose payload fits is kept whole, any other is cut into
chunks of `max_frag` bytes. -/
def fragment (f : MessageFragmenter) (msg : PlainMessage) : List PlainMessage :=
  if msg.payload.length ≤ f.maxFrag then [msg]
  else (chunks f.maxFrag msg.payload).map fun c => ⟨msg.typ, msg.version, c⟩

theorem setMaxFragmentSize_some (f : MessageFragmenter) {sz : ℕ}
    (h : 32 ≤ sz ∧ sz ≤ maxFragmentSize) :
    ∃ f', f.setMaxFragmentSize (some sz) = .ok f' ∧ f'.maxFrag = sz - packetOverhead :=
  ⟨_, dif_pos h, rfl⟩

/-- The fragments of a record are its payload. -/
theorem fragment_payloads (f : MessageFragmenter) (msg : PlainMessage) :
    (f.fragment msg).flatMap PlainMessage.payload = msg.payload := by
  unfold fragment
  split_ifs
  · simp
  · rw [List.flatMap_map, List.flatMap_id', flatten_chunks f.maxFrag_pos]

/-- Each fragment has at most `max_frag` bytes, and the type and version of the record. -/
theorem fragment_length_le (f : MessageFragmenter) (msg : PlainMessage) :
    ∀ fr ∈ f.fragment msg, fr.payload.length ≤ f.maxFrag ∧ fr.typ = msg.typ ∧
      fr.version = msg.version := by
  unfold fragment
  split_ifs with hfits
  · simp [hfits]
  · simp only [List.mem_map]
    rintro _ ⟨c, hc, rfl⟩
    exact ⟨length_le_of_mem_chunks c hc, rfl, rfl⟩

end MessageFragmenter

/-! ### The joiner -/

/-- `HandshakeJoiner`: the messages joined, and the bytes received since. -/
structure HandshakeJoiner where
  frames : List Message
  buf : Bytes

/-- `BufferState`. -/
inductive BufferState
  | messageTooLarge
  | oneMessage
  | needsMoreData
  deriving DecidableEq, Repr

namespace HandshakeJoiner

/-- `HEADER_SIZE`. -/
def headerSize : ℕ := 1 + 3

/-- `MAX_HANDSHAKE_SIZE`. -/
def maxHandshakeSize : ℕ := 0xffff

/-- `HandshakeJoiner::new`. -/
def new : HandshakeJoiner := ⟨[], []⟩

/-- `HandshakeJoiner::is_empty`: no byte is buffered. -/
def isEmpty (j : HandshakeJoiner) : Bool := j.buf.isEmpty

/-- `buf_contains_message`: the buffer holds a header, and the body of the length it gives. -/
def bufContainsMessage (buf : Bytes) : BufferState :=
  if buf.length < headerSize then .needsMoreData
  else
    match readU24 ((buf.take headerSize).drop 1) with
    | some (len, _) =>
      if len > maxHandshakeSize then .messageTooLarge
      else if len ≤ (buf.drop headerSize).length then .oneMessage
      else .needsMoreData
    | none => .needsMoreData

variable (isDnsName : Bytes → Bool)

/-- `deframe_one`: the handshake message at the front of the buffer, read in the version of the
record, and what follows it; `none` when it does not parse. -/
def deframeOne (version : ProtocolVersion) (buf : Bytes) : Option (Message × Bytes) :=
  (HandshakeMessagePayload.readVersion isDnsName version buf).map fun p =>
    (⟨version, .handshake p.1⟩, p.2)

/-- What the front of the buffer holds for the loop of `take_message`: a message too large or
that does not parse ends it with `None`. -/
def front (version : ProtocolVersion) (buf : Bytes) : Framing.Front UInt8 Message :=
  match bufContainsMessage buf with
  | .messageTooLarge => .invalid
  | .needsMoreData => .incomplete
  | .oneMessage =>
    match deframeOne isDnsName version buf with
    | some (m, rest) => .frame m rest
    | none => .invalid

/-- A message taken off the buffer takes at least its header. -/
theorem front_consumes {version : ProtocolVersion} {buf : Bytes} {m : Message} {rest : Bytes}
    (h : front isDnsName version buf = .frame m rest) : rest.length < buf.length := by
  unfold front at h
  split at h
  · cases h
  · cases h
  · split at h
    · rename_i m' rest' hone
      obtain ⟨⟨p, r⟩, hp, hm⟩ := Option.map_eq_some_iff.1 hone
      simp only [Prod.mk.injEq] at hm
      cases h
      rw [HandshakeMessagePayload.readVersion_reads isDnsName version hp, ← hm.2]
      simp [HandshakeMessagePayload.encode, encodeTagged, encodeU24]
      omega
    · cases h

/-- The reader of `take_message`'s loop, for records of a version. -/
def reader (version : ProtocolVersion) : Framing.Reader UInt8 Message :=
  ⟨front isDnsName version, front_consumes isDnsName⟩

/-- `take_message`: the payload appended to the buffer, then the messages taken off its front;
the number taken, or `None` when the buffer holds a message too large or one that does not
parse. -/
def takeMessage (j : HandshakeJoiner) (msg : PlainMessage) : Option ℕ × HandshakeJoiner :=
  let s := (reader isDnsName msg.version).deframe ⟨j.frames, j.buf ++ msg.payload, false⟩
  (if s.desynced then none else some (s.frames.length - j.frames.length), ⟨s.frames, s.buf⟩)

/-- `take_message` on records in turn: what each call returned, and the joiner after them. -/
def takeMessages (j : HandshakeJoiner) : List PlainMessage → List (Option ℕ) × HandshakeJoiner
  | [] => ([], j)
  | msg :: msgs =>
    let (count, j') := takeMessage isDnsName j msg
    let (counts, j'') := takeMessages j' msgs
    (count :: counts, j'')

/-! ### Messages read back from their encodings -/

/-- The encoding of a joined message. -/
def encoding (m : Message) : Bytes :=
  match m.payload with
  | .handshake p => p.encode
  | _ => []

/-- A message the joiner reads back from its encoding: a handshake message of the records'
version, with a body of at most `MAX_HANDSHAKE_SIZE` bytes, read back from its encoding. -/
def Joinable (version : ProtocolVersion) (m : Message) : Prop :=
  ∃ p : HandshakeMessagePayload, m = ⟨version, .handshake p⟩ ∧
    p.encodeBody.length ≤ maxHandshakeSize ∧
    HandshakeMessagePayload.readVersion isDnsName version p.encode = some (p, [])

theorem encode_eq_header (p : HandshakeMessagePayload) :
    p.encode = p.wireType.encode ++ encodeU24 p.encodeBody.length ++ p.encodeBody := rfl

theorem length_encode (p : HandshakeMessagePayload) :
    p.encode.length = headerSize + p.encodeBody.length := by
  rw [encode_eq_header]
  simp [HandshakeType.encode, EnumCode.encode, encodeU8, encodeU24, headerSize]
  omega

/-- A buffer shorter than a header needs more data. -/
theorem bufContainsMessage_short {buf : Bytes} (h : buf.length < headerSize) :
    bufContainsMessage buf = .needsMoreData :=
  if_pos h

/-- A buffer that starts with the header of a body of `len` bytes holds a message when the body
is whole in it. -/
theorem bufContainsMessage_header (t : HandshakeType) {len : ℕ} (hlen : len ≤ maxHandshakeSize)
    (x : Bytes) :
    bufContainsMessage (t.encode ++ encodeU24 len ++ x) =
      if len ≤ x.length then .oneMessage else .needsMoreData := by
  have hhdr : (t.encode ++ encodeU24 len).length = headerSize := rfl
  have htag : t.encode.length = 1 := rfl
  have hu24 : readU24 (encodeU24 len) = some (len, []) := by
    simpa using readU24_encode (n := len) (by simp only [maxHandshakeSize] at hlen; omega) []
  unfold bufContainsMessage
  rw [if_neg (by simp only [List.length_append] at hhdr ⊢; omega), List.take_left' hhdr,
    List.drop_left' htag, hu24, List.drop_left' hhdr]
  simp only [gt_iff_lt, Nat.not_lt.2 hlen, if_false]

/-- Messages whose encodings parse back are, up to their encodings, messages that parse back to
themselves. -/
theorem exists_reparsed (version : ProtocolVersion) :
    ∀ hs : List HandshakeMessagePayload,
      (∀ m ∈ hs, m.encodeBody.length ≤ maxHandshakeSize ∧
        ∃ m', HandshakeMessagePayload.readVersion isDnsName version m.encode = some (m', [])) →
      ∃ ps : List HandshakeMessagePayload,
        ps.map HandshakeMessagePayload.encode = hs.map HandshakeMessagePayload.encode ∧
        ∀ p ∈ ps, p.encodeBody.length ≤ maxHandshakeSize ∧
          HandshakeMessagePayload.readVersion isDnsName version p.encode = some (p, [])
  | [], _ => ⟨[], rfl, by simp⟩
  | m :: hs, h => by
    obtain ⟨hlen, m', hm'⟩ := h m List.mem_cons_self
    obtain ⟨ps, hps, hps'⟩ := exists_reparsed version hs fun x hx => h x (List.mem_cons_of_mem _ hx)
    have henc : m.encode = m'.encode := by
      simpa using HandshakeMessagePayload.readVersion_reads isDnsName version hm'
    refine ⟨m' :: ps, by simp [henc, hps], fun p hp => ?_⟩
    rcases List.mem_cons.1 hp with rfl | hp
    · have hbody := congrArg List.length henc
      rw [length_encode, length_encode] at hbody
      exact ⟨by omega, henc ▸ hm'⟩
    · exact hps' p hp

variable {isDnsName} {version : ProtocolVersion}

/-- **The joiner's reader reads what it is meant to.** Every joinable message is read back from
its encoding whatever follows it, every proper prefix of an encoding is incomplete, and so is an
empty buffer. -/
theorem readsFrames (version : ProtocolVersion) :
    Framing.ReadsFrames (reader isDnsName version) encoding (Joinable isDnsName version) [] where
  frame := by
    rintro _ ⟨p, rfl, hlen, hread⟩ rest
    have hbuf : bufContainsMessage (p.encode ++ rest) = .oneMessage := by
      rw [encode_eq_header, List.append_assoc, bufContainsMessage_header _ hlen,
        if_pos (by simp)]
    have hone : deframeOne isDnsName version (p.encode ++ rest) =
        some (⟨version, .handshake p⟩, rest) := by
      simp [deframeOne, HandshakeMessagePayload.readVersion_extends isDnsName version rest hread]
    show front isDnsName version (p.encode ++ rest) = _
    rw [front, hbuf]
    simp only [hone]
  short := by
    rintro _ ⟨p, rfl, hlen, -⟩ k hk
    show front isDnsName version (p.encode.take k) = .incomplete
    have hk' : k < headerSize + p.encodeBody.length := by
      simpa [encoding, length_encode] using hk
    by_cases hhdr : k < headerSize
    · -- not even the header is there
      rw [front, bufContainsMessage_short (by simp; omega)]
    · -- the header is there, the body is not whole
      have hhdrlen : (p.wireType.encode ++ encodeU24 p.encodeBody.length).length = headerSize :=
        rfl
      rw [encode_eq_header, List.take_append, List.take_of_length_le (by omega), hhdrlen, front,
        bufContainsMessage_header _ hlen, if_neg (by simp; omega)]
  tail := by
    intro k
    show front isDnsName version ([].take k) = .incomplete
    rw [List.take_nil, front, bufContainsMessage_short (by simp [headerSize])]

/-! ### Any sequence of records -/

section Runs

variable {as : List Message} (has : ∀ a ∈ as, Joinable isDnsName version a)
include has

/-- One record: `take_message` counts the messages it joins, and keeps the joiner deframed. -/
theorem takeMessage_deframed {j : HandshakeJoiner} {msg : PlainMessage} {later : Bytes}
    (hv : msg.version = version)
    (h : Framing.Deframed encoding as [] ⟨j.frames, j.buf, false⟩ (msg.payload ++ later)) :
    (takeMessage isDnsName j msg).1 =
        some ((takeMessage isDnsName j msg).2.frames.length - j.frames.length) ∧
      j.frames <+: (takeMessage isDnsName j msg).2.frames ∧
      Framing.Deframed encoding as []
        ⟨(takeMessage isDnsName j msg).2.frames, (takeMessage isDnsName j msg).2.buf, false⟩ later := by
  subst hv
  set s := (reader isDnsName msg.version).deframe ⟨j.frames, j.buf ++ msg.payload, false⟩ with hs
  have hd : Framing.Deframed encoding as [] s later := h.append (readsFrames msg.version) has
  obtain ⟨fs, hfs⟩ := (reader isDnsName msg.version).frames_deframe
    ⟨j.frames, j.buf ++ msg.payload, false⟩
  -- the deframer is not desynchronised, so the joiner after the record is its state
  have hdesync : s.desynced = false := hd.choose_spec.2.1
  have hstate : (⟨s.frames, s.buf, false⟩ : Framing.State UInt8 Message) = s := by
    rw [← hdesync]
  refine ⟨?_, ⟨fs, hfs.symm⟩, ?_⟩
  · show (if s.desynced then none else some (s.frames.length - j.frames.length)) = _
    rw [hdesync]
    rfl
  · show Framing.Deframed encoding as [] ⟨s.frames, s.buf, false⟩ later
    rw [hstate]
    exact hd

/-- **Any sequence of records.** `take_message` on records of the version, carrying the rest of
the stream, returns a count each time, which add up to the messages joined, and keeps the joiner
deframed. -/
theorem takeMessages_deframed :
    ∀ (msgs : List PlainMessage) {j : HandshakeJoiner} {later : Bytes},
      (∀ msg ∈ msgs, msg.version = version) →
      Framing.Deframed encoding as [] ⟨j.frames, j.buf, false⟩
        (msgs.flatMap PlainMessage.payload ++ later) →
      ∃ counts : List ℕ, (takeMessages isDnsName j msgs).1 = counts.map some ∧
        j.frames.length + counts.sum = (takeMessages isDnsName j msgs).2.frames.length ∧
        Framing.Deframed encoding as []
          ⟨(takeMessages isDnsName j msgs).2.frames, (takeMessages isDnsName j msgs).2.buf, false⟩
          later
  | [], j, later, _, h => ⟨[], rfl, by simp [takeMessages], by simpa [takeMessages] using h⟩
  | msg :: msgs, j, later, hv, h => by
    rw [List.flatMap_cons, List.append_assoc] at h
    obtain ⟨hcount, hprefix, hd⟩ := takeMessage_deframed has (hv msg List.mem_cons_self) h
    obtain ⟨counts, hcounts, hsum, hfinal⟩ :=
      takeMessages_deframed msgs (fun m hm => hv m (List.mem_cons_of_mem _ hm)) hd
    have hle := hprefix.length_le
    refine ⟨((takeMessage isDnsName j msg).2.frames.length - j.frames.length) :: counts,
      ?_, ?_, hfinal⟩
    · simp only [takeMessages, hcount, hcounts, List.map_cons]
    · simp only [takeMessages, List.sum_cons]
      omega

end Runs

end HandshakeJoiner

open HandshakeJoiner in
/-- **Fragmenting then joining is the identity on handshake streams.** For handshake messages
whose bodies have at most `MAX_HANDSHAKE_SIZE` bytes and whose encodings parse back in version
`v`, any records of type Handshake and version `v` that carry their encodings in order, and any
`max_fragment_size` from `32` to `MAX_FRAGMENT_SIZE`: the fragments of each record have at most
`max_fragment_size - PACKET_OVERHEAD` bytes and make up its payload, and `take_message` on all the
fragments in order returns a count each time, which add up to the number of messages, leaves the
joiner empty, and joins messages with the encodings of the original ones, in order. -/
theorem fragment_then_join_identity (isDnsName : Bytes → Bool) (v : ProtocolVersion)
    (hs : List HandshakeMessagePayload)
    (hhs : ∀ m ∈ hs, m.encodeBody.length ≤ maxHandshakeSize ∧
      ∃ m', HandshakeMessagePayload.readVersion isDnsName v m.encode = some (m', []))
    (sz : ℕ) (hsz : 32 ≤ sz ∧ sz ≤ maxFragmentSize)
    (msgs : List PlainMessage) (hmsgs : ∀ msg ∈ msgs, msg.typ = .handshake ∧ msg.version = v)
    (hpayload : msgs.flatMap PlainMessage.payload = hs.flatMap HandshakeMessagePayload.encode) :
    ∃ f, MessageFragmenter.new (some sz) = .ok f ∧
      (∀ msg ∈ msgs, (∀ fr ∈ f.fragment msg, fr.payload.length ≤ sz - packetOverhead ∧
          fr.typ = msg.typ ∧ fr.version = msg.version) ∧
        (f.fragment msg).flatMap PlainMessage.payload = msg.payload) ∧
      ∃ counts : List ℕ,
        (takeMessages isDnsName HandshakeJoiner.new (msgs.flatMap f.fragment)).1 =
          counts.map some ∧ counts.sum = hs.length ∧
        (takeMessages isDnsName HandshakeJoiner.new (msgs.flatMap f.fragment)).2.isEmpty = true ∧
        ∃ ps : List HandshakeMessagePayload,
          (takeMessages isDnsName HandshakeJoiner.new (msgs.flatMap f.fragment)).2.frames =
            ps.map (fun p => ⟨v, .handshake p⟩) ∧
          ps.map HandshakeMessagePayload.encode = hs.map HandshakeMessagePayload.encode := by
  obtain ⟨f, hf, hmax⟩ := MessageFragmenter.setMaxFragmentSize_some ⟨maxFragmentLen, by decide⟩ hsz
  -- the messages as the joiner reads them back
  obtain ⟨ps, hps, hps'⟩ := exists_reparsed isDnsName v hs hhs
  set as : List Message := ps.map fun p => ⟨v, .handshake p⟩ with has_def
  have has : ∀ a ∈ as, Joinable isDnsName v a := by
    simp only [has_def, List.mem_map]
    rintro _ ⟨p, hp, rfl⟩
    exact ⟨p, rfl, hps' p hp⟩
  have hstream : as.flatMap encoding = hs.flatMap HandshakeMessagePayload.encode := by
    simp only [has_def, List.flatMap_map, encoding]
    rw [List.flatMap_def, List.flatMap_def, hps]
  -- the fragments carry the stream, all in version `v`
  have hfrags : (msgs.flatMap f.fragment).flatMap PlainMessage.payload = as.flatMap encoding := by
    rw [List.flatMap_assoc, List.flatMap_congr (fun msg _ => f.fragment_payloads msg), hpayload,
      hstream]
  have hversions : ∀ fr ∈ msgs.flatMap f.fragment, fr.version = v := by
    simp only [List.mem_flatMap]
    rintro fr ⟨msg, hmsg, hfr⟩
    rw [(f.fragment_length_le msg fr hfr).2.2, (hmsgs msg hmsg).2]
  have hstart := Framing.Deframed.start (@readsFrames isDnsName v) has
  rw [← hfrags] at hstart
  obtain ⟨counts, hcounts, hsum, hfinal⟩ :=
    takeMessages_deframed has (msgs.flatMap f.fragment) (j := HandshakeJoiner.new) hversions hstart
  -- the whole stream has been received
  have hend := hfinal.eq_of_nil
  simp only [Framing.State.mk.injEq] at hend
  refine ⟨f, hf, fun msg _ => ⟨fun fr hfr => ?_, f.fragment_payloads msg⟩, counts, hcounts, ?_,
    ?_, ps, hend.1, hps⟩
  · rw [← hmax]
    exact f.fragment_length_le msg fr hfr
  · have hlen : ps.length = hs.length := by simpa using congrArg List.length hps
    rw [hend.1, has_def, List.length_map, hlen] at hsum
    simpa [HandshakeJoiner.new] using hsum
  · simp [isEmpty, hend.2.1]

/-- Three `Finished` messages in two records fragmented `32` bytes at a time: the first message,
of `34` bytes, fills the first record and spans its two fragments; the other two share the second
record. -/
theorem fragment_then_join_identity_three_messages :
    let hs : List HandshakeMessagePayload := [⟨.finished, .finished ⟨List.replicate 30 7⟩⟩,
      ⟨.finished, .finished ⟨[1]⟩⟩, ⟨.finished, .finished ⟨[2, 3]⟩⟩]
    let msgs : List PlainMessage := [⟨.handshake, .tlsv1_2, [0x14, 0, 0, 30] ++ List.replicate 30 7⟩,
      ⟨.handshake, .tlsv1_2, [0x14, 0, 0, 1, 1, 0x14, 0, 0, 2, 2, 3]⟩]
    (∀ m ∈ hs, m.encodeBody.length ≤ HandshakeJoiner.maxHandshakeSize ∧
      ∃ m', HandshakeMessagePayload.readVersion (fun _ => true) .tlsv1_2 m.encode = some (m', [])) ∧
    (32 ≤ 32 ∧ 32 ≤ maxFragmentSize) ∧
    (∀ msg ∈ msgs, msg.typ = .handshake ∧ msg.version = .tlsv1_2) ∧
    msgs.flatMap PlainMessage.payload = hs.flatMap HandshakeMessagePayload.encode ∧
    ∃ f, MessageFragmenter.new (some 32) = .ok f ∧
      ∃ counts : List ℕ,
        (HandshakeJoiner.takeMessages (fun _ => true) HandshakeJoiner.new
          (msgs.flatMap f.fragment)).1 = counts.map some ∧ counts.sum = hs.length ∧
        (HandshakeJoiner.takeMessages (fun _ => true) HandshakeJoiner.new
          (msgs.flatMap f.fragment)).2.isEmpty = true := by
  intro hs msgs
  have hhs : ∀ m ∈ hs, m.encodeBody.length ≤ HandshakeJoiner.maxHandshakeSize ∧
      ∃ m', HandshakeMessagePayload.readVersion (fun _ => true) .tlsv1_2 m.encode =
        some (m', []) := by
    simp only [hs, List.mem_cons, List.not_mem_nil, or_false, forall_eq_or_imp, forall_eq]
    exact ⟨⟨by decide, ⟨.finished, .finished ⟨List.replicate 30 7⟩⟩, by decide⟩,
      ⟨by decide, ⟨.finished, .finished ⟨[1]⟩⟩, by decide⟩,
      ⟨by decide, ⟨.finished, .finished ⟨[2, 3]⟩⟩, by decide⟩⟩
  have hsz : 32 ≤ 32 ∧ 32 ≤ maxFragmentSize := by decide
  have hmsgs : ∀ msg ∈ msgs, msg.typ = .handshake ∧ msg.version = .tlsv1_2 := by
    simp [msgs]
  have hpayload : msgs.flatMap PlainMessage.payload = hs.flatMap HandshakeMessagePayload.encode := by
    decide
  obtain ⟨f, hf, -, counts, hcounts, hsum, hempty, -⟩ :=
    fragment_then_join_identity (fun _ => true) .tlsv1_2 hs hhs 32 hsz msgs hmsgs hpayload
  exact ⟨hhs, hsz, hmsgs, hpayload, f, hf, counts, hcounts, hsum, hempty⟩

end Tlsn.Tls
