import Tlsn.Lib.Framing
import Tlsn.Mpc.RecordLayer

/-!
# The record deframer (`tls-core/src/msgs/deframer.rs`, `message.rs`)

`OpaqueMessage::read` reads a record off the front of its input: a header of five bytes (content
type, version and payload length), which it checks, then the payload. It tells a prefix that may
still become a record (`TooShortForHeader`, `TooShortForLength`) from one that never will.
`MessageDeframer::read` copies what an input gives into a buffer of `MAX_WIRE_SIZE` bytes and then
takes records off the front of the buffer (`try_deframe_one`) until what is left is the start of
one, or is no record, which leaves the deframer desynchronised.

The deframer is the framing library's (`Framing.Reader`) with `OpaqueMessage::read` as its reader.
The records `read` accepts are exactly the valid ones, each read from its own encoding
(`read_eq_ok`); every valid record is read back from its encoding (`read_encode`), every proper
prefix of its encoding is the start of a record (`tryDeframeOne_take`), and the encoding fits in
the buffer (`encode_length_le`). So the records the deframer takes off a stream do not depend on
how the stream is cut into reads.
-/

namespace Tlsn.Tls

/-- `MessageError`. -/
inductive MessageError
  | tooShortForHeader | tooShortForLength | illegalLength | illegalContentType
  | illegalProtocolVersion
  deriving DecidableEq, Repr

/-- `OpaqueMessage::MAX_PAYLOAD`: `2¹⁴` bytes of payload and 2 KiB for ciphertext overheads. -/
def maxPayload : ℕ := 16384 + 2048

/-- `OpaqueMessage::HEADER_SIZE`: content type, version and size. -/
def headerSize : ℕ := 1 + 2 + 2

/-- `OpaqueMessage::MAX_WIRE_SIZE`. -/
def maxWireSize : ℕ := maxPayload + headerSize

end Tlsn.Tls

namespace Tlsn.Mpc.OpaqueMessage

open Codec Tls

/-- The header of a record: content type, version and payload length. -/
abbrev Header := ContentType × ProtocolVersion × UInt16

/-- The three reads of the header in `OpaqueMessage::read`. -/
def readHeader (r : Bytes) : Option (Header × Bytes) := do
  let (typ, r) ← ContentType.read r
  let (version, r) ← ProtocolVersion.read r
  let (len, r) ← readU16 r
  some ((typ, version, len), r)

/-- The header as `OpaqueMessage::encode` writes it. -/
def encodeHeader (h : Header) : Bytes := h.1.encode ++ h.2.1.encode ++ encodeU16 h.2.2

/-- The version check of `OpaqueMessage::read`: an unknown version is accepted as `0x03XX` only. -/
def checkVersion : ProtocolVersion → Except MessageError Unit
  | .unknown v => if v &&& 0xff00 ≠ 0x0300 then .error .illegalProtocolVersion else .ok ()
  | _ => .ok ()

/-- The checks of `OpaqueMessage::read` on a header, in its order: no empty record but application
data (section 5.1 of RFC 8446, 6.2.1 of RFC 5246), no payload of `MAX_PAYLOAD` bytes or more, no
new content type, and the version. -/
def checkHeader (typ : ContentType) (version : ProtocolVersion) (len : UInt16) :
    Except MessageError Unit :=
  if typ ≠ .applicationData ∧ len = 0 then .error .illegalLength
  else if maxPayload ≤ len.toNat then .error .illegalLength
  else match typ with
    | .unknown _ => .error .illegalContentType
    | _ => checkVersion version

/-- `OpaqueMessage::read`: the record, and the input after it. -/
def read (r : Bytes) : Except MessageError (OpaqueMessage × Bytes) := do
  let some ((typ, version, len), r) := readHeader r | throw .tooShortForHeader
  checkHeader typ version len
  let some (payload, r) := take len.toNat r | throw .tooShortForLength
  pure (⟨typ, version, payload⟩, r)

/-- `OpaqueMessage::encode`, with the length written as `len as u16`. -/
def encode (m : OpaqueMessage) : Bytes :=
  m.typ.encode ++ m.version.encode ++ encodeLenU16 m.payload.length ++ m.payload

/-- A record that `OpaqueMessage::read` returns: a payload shorter than `MAX_PAYLOAD`, a header
that passes the checks, and a version that `ProtocolVersion::read` returns. -/
def Valid (m : OpaqueMessage) : Prop :=
  m.payload.length < maxPayload ∧
    checkHeader m.typ m.version (UInt16.ofNat m.payload.length) = .ok () ∧
    ProtocolVersion.code.ofVal m.version.getU16 = m.version

instance : DecidablePred Valid := fun m => by
  unfold Valid
  infer_instance

/-! ### The header -/

theorem encodeHeader_length (h : Header) : (encodeHeader h).length = 5 := by
  simp [encodeHeader, ContentType.encode, ProtocolVersion.encode, EnumCode.encode, encodeU8,
    encodeU16]

theorem readHeader_reads : ReadsEncoding readHeader encodeHeader := by
  intro bs h rest hr
  obtain ⟨typ, r, rfl, hk₁⟩ := ContentType.read_reads.bind_eq_some hr
  obtain ⟨version, r', rfl, hk₂⟩ := ProtocolVersion.read_reads.bind_eq_some hk₁
  obtain ⟨len, r'', rfl, hk₃⟩ := readU16_reads.bind_eq_some hk₂
  simp only [Option.some.injEq, Prod.mk.injEq] at hk₃
  obtain ⟨rfl, rfl⟩ := hk₃
  simp [encodeHeader]

/-- The version of a header read is one `ProtocolVersion::read` returns. -/
theorem version_canonical_of_readHeader {r : Bytes} {h : Header} {rest : Bytes}
    (hr : readHeader r = some (h, rest)) : ProtocolVersion.code.ofVal h.2.1.getU16 = h.2.1 := by
  obtain ⟨⟨typ, r'⟩, -, hk₁⟩ := Option.bind_eq_some_iff.1 hr
  obtain ⟨⟨version, r''⟩, hver, hk₂⟩ := Option.bind_eq_some_iff.1 hk₁
  obtain ⟨⟨len, r'''⟩, -, hk₃⟩ := Option.bind_eq_some_iff.1 hk₂
  simp only [Option.some.injEq, Prod.mk.injEq] at hk₃
  obtain ⟨rfl, -⟩ := hk₃
  exact EnumCode.ofVal_toVal_of_read ProtocolVersion.code_wellFormed hver

/-- A header passes the checks only with a known content type, and a length below
`MAX_PAYLOAD`. -/
theorem checkHeader_ok {typ : ContentType} {version : ProtocolVersion} {len : UInt16}
    (h : checkHeader typ version len = .ok ()) :
    ContentType.code.ofVal typ.getU8 = typ ∧ len.toNat < maxPayload := by
  unfold checkHeader at h
  split at h
  · cases h
  split at h
  · cases h
  refine ⟨?_, by omega⟩
  split at h
  · cases h
  -- a known content type is the case of its own value
  rename_i hknown
  cases typ with
  | unknown x => exact absurd rfl (hknown x)
  | _ => rfl

/-- The header of a valid record is read back from its encoding. -/
theorem readHeader_encode {m : OpaqueMessage} (hm : m.Valid) (rest : Bytes) :
    readHeader (encodeHeader (m.typ, m.version, UInt16.ofNat m.payload.length) ++ rest) =
      some ((m.typ, m.version, UInt16.ofNat m.payload.length), rest) := by
  obtain ⟨-, hcheck, hversion⟩ := hm
  have htyp := (checkHeader_ok hcheck).1
  simp only [readHeader, encodeHeader, List.append_assoc, ContentType.read, ContentType.encode,
    ProtocolVersion.read, ProtocolVersion.encode, EnumCode.read_encode readU8_encode,
    EnumCode.read_encode readU16_encode, readU16_encode, Option.bind_eq_bind, Option.bind_some]
  rw [← ContentType.getU8, htyp, ← ProtocolVersion.getU16, hversion]

/-! ### Reading records -/

/-- The length field of a valid record is its payload's length. -/
theorem toNat_ofNat_length {m : OpaqueMessage} (hm : m.Valid) :
    (UInt16.ofNat m.payload.length).toNat = m.payload.length := by
  have : m.payload.length < maxPayload := hm.1
  rw [UInt16.toNat_ofNat']
  exact Nat.mod_eq_of_lt (by simp only [maxPayload] at this; omega)

theorem encode_eq (m : OpaqueMessage) :
    encode m = encodeHeader (m.typ, m.version, UInt16.ofNat m.payload.length) ++ m.payload := by
  rfl

/-- Every valid record is read back from its encoding, whatever follows it. -/
theorem read_encode {m : OpaqueMessage} (hm : m.Valid) (rest : Bytes) :
    read (encode m ++ rest) = .ok (m, rest) := by
  have htake : take (UInt16.ofNat m.payload.length).toNat (m.payload ++ rest) =
      some (m.payload, rest) :=
    take_eq_some.2 ⟨(toNat_ofNat_length hm).symm, rfl⟩
  rw [encode_eq, List.append_assoc]
  simp only [read, readHeader_encode hm, hm.2.1, htake]
  rfl

/-- The records `OpaqueMessage::read` accepts are the valid ones, each read from its own
encoding. -/
theorem read_eq_ok {r : Bytes} {m : OpaqueMessage} {rest : Bytes} (h : read r = .ok (m, rest)) :
    m.Valid ∧ r = encode m ++ rest := by
  -- the three steps of `read`: the header, its checks, the payload
  cases hheader : readHeader r with
  | none => simp [read, hheader] at h
  | some p =>
    obtain ⟨⟨typ, version, len⟩, r'⟩ := p
    cases hcheck : checkHeader typ version len with
    | error e => simp [read, hheader, hcheck] at h
    | ok u =>
      cases htake : take len.toNat r' with
      | none => simp [read, hheader, hcheck, htake] at h
      | some q =>
        obtain ⟨payload, rest'⟩ := q
        simp only [read, hheader, hcheck, htake, bind, Except.bind, pure, Except.pure,
          Except.ok.injEq, Prod.mk.injEq] at h
        obtain ⟨rfl, rfl⟩ := h
        obtain ⟨hlen, rfl⟩ := take_eq_some.1 htake
        have hofNat : UInt16.ofNat payload.length = len := by rw [hlen, UInt16.ofNat_toNat]
        have hcheck' : checkHeader typ version len = .ok () := hcheck
        refine ⟨⟨?_, ?_, version_canonical_of_readHeader hheader⟩, ?_⟩
        · exact hlen ▸ (checkHeader_ok hcheck').2
        · simpa only [hofNat] using hcheck'
        · rw [readHeader_reads hheader, encode_eq]
          simp [hofNat]

/-- A record takes its header off the input at least. -/
theorem read_consumes {r : Bytes} {m : OpaqueMessage} {rest : Bytes}
    (h : read r = .ok (m, rest)) : rest.length < r.length := by
  rw [(read_eq_ok h).2, encode_eq]
  simp only [List.length_append, encodeHeader_length]
  omega

/-- The encoding of a valid record fits in the buffer of the deframer. -/
theorem encode_length_le {m : OpaqueMessage} (hm : m.Valid) : (encode m).length ≤ maxWireSize := by
  have : m.payload.length < maxPayload := hm.1
  simp only [encode_eq, List.length_append, encodeHeader_length, maxWireSize, headerSize]
  omega

/-- Every proper prefix of the encoding of a valid record is the start of a record: its header or
its payload is cut short. -/
theorem read_take {m : OpaqueMessage} (hm : m.Valid) {k : ℕ} (hk : k < (encode m).length) :
    read ((encode m).take k) = .error .tooShortForHeader ∨
      read ((encode m).take k) = .error .tooShortForLength := by
  by_cases h5 : k < 5
  · -- fewer than five bytes hold no header
    left
    have hnone : readHeader ((encode m).take k) = none := by
      cases hh : readHeader ((encode m).take k) with
      | none => rfl
      | some p =>
        have := congrArg List.length (readHeader_reads hh)
        simp only [List.length_take, List.length_append, encodeHeader_length] at this
        omega
    simp only [read, hnone]
    rfl
  · -- the header is whole, and passes the checks; the payload is cut short
    right
    have hsplit : (encode m).take k =
        encodeHeader (m.typ, m.version, UInt16.ofNat m.payload.length) ++ m.payload.take (k - 5) := by
      rw [encode_eq, List.take_append, encodeHeader_length,
        List.take_of_length_le (by rw [encodeHeader_length]; omega)]
    have hshort : take (UInt16.ofNat m.payload.length).toNat (m.payload.take (k - 5)) = none := by
      have hlen : (encode m).length = 5 + m.payload.length := by
        simp only [encode_eq, List.length_append, encodeHeader_length]
      rw [take, if_neg (by rw [toNat_ofNat_length hm, List.length_take]; omega)]
    rw [hsplit]
    simp only [read, readHeader_encode hm, hm.2.1, hshort]
    rfl

end Tlsn.Mpc.OpaqueMessage

namespace Tlsn.Tls

open Codec Mpc

/-- `MessageDeframer`: the records taken off the stream (`frames`), the bytes `buf[..used]` of the
record being read, and `desynced`. -/
abbrev MessageDeframer := Framing.State UInt8 OpaqueMessage

namespace MessageDeframer

/-- `MessageDeframer::try_deframe_one`: a record at the front of the buffer and the bytes after it
(`Valid`), the start of a record (`Partial`), or no record (`Invalid`). -/
def tryDeframeOne (buf : Bytes) : Framing.Front UInt8 OpaqueMessage :=
  match OpaqueMessage.read buf with
  | .ok (m, rest) => .frame m rest
  | .error .tooShortForHeader | .error .tooShortForLength => .incomplete
  | .error _ => .invalid

/-- `try_deframe_one` takes at least a header off the buffer, so its loop terminates on every
buffer. -/
theorem tryDeframeOne_consumes {buf : Bytes} {m : OpaqueMessage} {rest : Bytes}
    (h : tryDeframeOne buf = .frame m rest) : rest.length < buf.length := by
  unfold tryDeframeOne at h
  split at h
  · cases h
    exact OpaqueMessage.read_consumes ‹_›
  all_goals cases h

/-- The deframer's reader of records. -/
def reader : Framing.Reader UInt8 OpaqueMessage := ⟨tryDeframeOne, tryDeframeOne_consumes⟩

/-- `MessageDeframer::new`. -/
def new : MessageDeframer := ⟨[], [], false⟩

/-- `MessageDeframer::read` from a slice `rd`: as much of it as fits in the buffer of
`MAX_WIRE_SIZE` bytes, then the loop of `try_deframe_one`. The deframer, the rest of the slice,
and the number of bytes read. -/
def read (d : MessageDeframer) (rd : Bytes) : MessageDeframer × Bytes × ℕ :=
  reader.read maxWireSize d rd

/-- A new deframer fed the reads `chunks`, each read until it is drained. -/
def feed (chunks : List Bytes) : MessageDeframer := reader.feed maxWireSize new chunks

theorem tryDeframeOne_encode {m : OpaqueMessage} (hm : m.Valid) (rest : Bytes) :
    tryDeframeOne (m.encode ++ rest) = .frame m rest := by
  simp only [tryDeframeOne, OpaqueMessage.read_encode hm]

theorem tryDeframeOne_take {m : OpaqueMessage} (hm : m.Valid) {k : ℕ}
    (hk : k < m.encode.length) : tryDeframeOne (m.encode.take k) = .incomplete := by
  rcases OpaqueMessage.read_take hm hk with h | h <;> simp only [tryDeframeOne, h]

/-- Valid records read back, with a trailing start of a valid record. -/
theorem readsFrames {m₀ : OpaqueMessage} (hm₀ : m₀.Valid) {k : ℕ} (hk : k < m₀.encode.length) :
    Framing.ReadsFrames reader OpaqueMessage.encode OpaqueMessage.Valid (m₀.encode.take k) where
  frame _ hm rest := tryDeframeOne_encode hm rest
  short _ hm _ hk := tryDeframeOne_take hm hk
  tail j := by
    show tryDeframeOne _ = _
    rw [List.take_take]
    exact tryDeframeOne_take hm₀ (by omega)

theorem deframer_chunking_independent (ms : List OpaqueMessage) (hms : ∀ m ∈ ms, m.Valid)
    (m₀ : OpaqueMessage) (hm₀ : m₀.Valid) (k : ℕ) (hk : k < m₀.encode.length)
    (chunks : List Bytes)
    (hchunks : chunks.flatten = ms.flatMap OpaqueMessage.encode ++ m₀.encode.take k) :
    feed chunks = ⟨ms, m₀.encode.take k, false⟩ ∧
      ∀ m : OpaqueMessage, m.Valid → OpaqueMessage.read m.encode = .ok (m, []) := by
  refine ⟨?_, fun m hm => by simpa using OpaqueMessage.read_encode hm []⟩
  have htail : (m₀.encode.take k).length < maxWireSize := by
    have := OpaqueMessage.encode_length_le hm₀
    rw [List.length_take]
    omega
  exact Framing.Reader.feed_eq (readsFrames hm₀ hk) hms (fun _ => OpaqueMessage.encode_length_le)
    htail hchunks

theorem deframer_chunking_independent_split :
    feed [[0x16, 3], [3, 0, 1, 1, 0x15], [3, 3]] =
        ⟨[⟨.handshake, .tlsv1_2, [1]⟩], [0x15, 3, 3], false⟩ ∧
      ∀ m : OpaqueMessage, m.Valid → OpaqueMessage.read m.encode = .ok (m, []) :=
  deframer_chunking_independent [⟨.handshake, .tlsv1_2, [1]⟩] (by decide)
    ⟨.alert, .tlsv1_2, [2, 3]⟩ (by decide) 3 (by decide) _ (by decide)

end MessageDeframer

end Tlsn.Tls
