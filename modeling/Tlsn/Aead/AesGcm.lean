import Tlsn.Lib.Outcome
import Tlsn.Lib.Codec

/-!
# MPC AES-GCM: the tag of a payload (`components/aead/src/aes_gcm/mod.rs`)

Each method of `MpcAesGcm` that is given a ciphertext with its tag (`decrypt_public`,
`decrypt_private`, `decrypt_blind`, `verify_tag`, `prove_plaintext` and `verify_plaintext`) starts
with the same statement, which splits the last `TAG_LEN` bytes off the payload:

    let purported_tag: [u8; TAG_LEN] = payload
        .split_off(payload.len() - TAG_LEN)
        .try_into()
        .map_err(|_| AesGcmError::payload("payload is not long enough to contain tag"))?;

`splitTag` is that statement; what follows it (the tag check and AES-CTR, computed with the other
party) is not modelled. `payload.len() - TAG_LEN` is a subtraction of `usize`s: a build with
overflow checks panics when it underflows, one without wraps it, and `Vec::split_off` panics at an
index past the end. Either way a payload shorter than the tag panics (`splitTag_of_lt`), and the
error the statement means to return is never returned (`splitTag_ne_err`).
-/

namespace Tlsn.Aead

open Codec

/-- `TAG_LEN`. -/
def tagLen : ℕ := 16

/-- `ErrorKind` of `AesGcmError`. -/
inductive ErrorKind
  | io | blockCipher | streamCipher | ghash | tag | peerMisbehaved | payload
  deriving DecidableEq, Repr

/-- `AesGcmError`: its kind and the reason it boxes. -/
structure AesGcmError where
  kind : ErrorKind
  reason : String
  deriving DecidableEq, Repr

/-- `AesGcmError::payload`. -/
def AesGcmError.payload (reason : String) : AesGcmError := ⟨.payload, reason⟩

/-- `a - b` on `usize`: a panic on underflow with overflow checks, a wrap modulo `2⁶⁴` without. -/
def usizeSub (overflowChecks : Bool) (a b : ℕ) : Outcome AesGcmError ℕ :=
  Outcome.uintSub 64 overflowChecks a b

/-- `Vec::split_off`: the bytes before `idx` and those from it, or a panic when `idx` is past the
end. -/
def splitOff (v : Bytes) (idx : ℕ) : Outcome AesGcmError (Bytes × Bytes) :=
  if idx ≤ v.length then .ok (v.take idx, v.drop idx) else .panic

/-- `<[u8; TAG_LEN]>::try_from(Vec<u8>)`: the bytes, when there are exactly `TAG_LEN` of them. -/
def tryIntoTag (v : Bytes) : Except Bytes (Vector UInt8 tagLen) :=
  if h : v.length = tagLen then .ok ⟨v.toArray, by simpa using h⟩ else .error v

/-- The statement of every tag-taking method of `MpcAesGcm` that splits off the tag: the ciphertext
and the purported tag. -/
def splitTag (overflowChecks : Bool) (payload : Bytes) :
    Outcome AesGcmError (Bytes × Vector UInt8 tagLen) := do
  let idx ← usizeSub overflowChecks payload.length tagLen
  let (ciphertext, tag) ← splitOff payload idx
  let tag ← Outcome.ofExcept (fun _ => AesGcmError.payload
    "payload is not long enough to contain tag") (tryIntoTag tag)
  pure (ciphertext, tag)

/-- Below `TAG_LEN`, the index of the split is past the end of the payload, or the subtraction has
already panicked. -/
theorem usizeSub_bind_splitOff_of_lt (overflowChecks : Bool) {payload : Bytes}
    (h : payload.length < tagLen) :
    (usizeSub overflowChecks payload.length tagLen >>= splitOff payload) = .panic := by
  have h16 : payload.length < 16 := h
  unfold usizeSub
  cases overflowChecks with
  | true => rw [Outcome.uintSub_checked_of_lt h]; rfl
  | false =>
    -- the wrapped index is at least `2⁶⁴ - 16`, beyond any payload shorter than the tag
    rw [Outcome.uintSub_wrapping_of_lt h (by simp [tagLen]), Outcome.ok_bind, splitOff,
      if_neg (by simp only [tagLen]; omega)]

/-- A payload shorter than the tag panics, in a build with overflow checks or without. -/
theorem splitTag_of_lt (overflowChecks : Bool) {payload : Bytes} (h : payload.length < tagLen) :
    splitTag overflowChecks payload = .panic := by
  unfold splitTag
  rw [← bind_assoc, usizeSub_bind_splitOff_of_lt overflowChecks h]
  rfl

/-- From `TAG_LEN` bytes on, the tag is the last `TAG_LEN` bytes and the ciphertext the rest. -/
theorem splitTag_of_le (overflowChecks : Bool) {payload : Bytes} (h : tagLen ≤ payload.length) :
    ∃ tag : Vector UInt8 tagLen, tag.toList = payload.drop (payload.length - tagLen) ∧
      splitTag overflowChecks payload = .ok (payload.take (payload.length - tagLen), tag) := by
  have hlen : (payload.drop (payload.length - tagLen)).length = tagLen := by
    simp only [List.length_drop]
    omega
  refine ⟨⟨(payload.drop (payload.length - tagLen)).toArray, by simpa using hlen⟩, rfl, ?_⟩
  simp [splitTag, usizeSub, Outcome.uintSub_of_le h, splitOff, tryIntoTag, hlen]

/-- The error the statement maps a failed conversion to is never returned: below `TAG_LEN` it
panics first, and from `TAG_LEN` on the conversion succeeds. -/
theorem splitTag_ne_err (overflowChecks : Bool) (payload : Bytes) (e : AesGcmError) :
    splitTag overflowChecks payload ≠ .err e := by
  by_cases h : payload.length < tagLen
  · rw [splitTag_of_lt overflowChecks h]
    exact fun h => by cases h
  · obtain ⟨tag, -, hsplit⟩ := splitTag_of_le overflowChecks (Nat.le_of_not_lt h)
    rw [hsplit]
    exact fun h => by cases h

end Tlsn.Aead
