import Tlsn.Lib.Codec

/-!
# Merkle–Damgård hashing, resumed from a chaining state

A hash of the SHA-256 family compresses its input `64` bytes at a time into a chaining state,
after appending a padding that ends with the length of the whole input, and returns a digest of
the last state. Here the compression function, the initial state and the digest are parameters.

A hash may be resumed (`resume s pos msg`): from a state `s` reached after `pos` bytes, the rest of
the input is compressed, and the padding counts the `pos` bytes already absorbed. The one fact that
splitting a hash this way needs (`hash_append_block`): hashing a whole block followed by a message
is resuming, at position `64`, from the state that block compresses to.
-/

namespace MerkleDamgard

open Codec

variable {σ : Type} (compress : σ → Bytes → σ)

/-- Compresses the input a block of `64` bytes at a time; a last part shorter than a block is
left out. -/
def absorb (s : σ) (input : Bytes) : σ :=
  if h : 64 ≤ input.length then absorb (compress s (input.take 64)) (input.drop 64) else s
termination_by input.length
decreasing_by simp only [List.length_drop]; omega

/-- The padding after `len` bytes of input: the byte `0x80`, zeros up to `56` modulo `64`, and the
length in bits as a 64-bit big-endian number. -/
def padding (len : ℕ) : Bytes :=
  0x80 :: List.replicate ((119 - len % 64) % 64) 0 ++ encodeU64 (UInt64.ofNat (len * 8))

/-- The digest of `msg`, hashed on from the state `s` reached after `pos` bytes. -/
def resume (digest : σ → Bytes) (s : σ) (pos : ℕ) (msg : Bytes) : Bytes :=
  digest (absorb compress s (msg ++ padding (pos + msg.length)))

/-- The digest of `msg`, hashed from the initial state `iv`. -/
def hash (digest : σ → Bytes) (iv : σ) (msg : Bytes) : Bytes := resume compress digest iv 0 msg

/-- A whole block at the front of the input is compressed first. -/
theorem absorb_append_block (s : σ) {b : Bytes} (hb : b.length = 64) (rest : Bytes) :
    absorb compress s (b ++ rest) = absorb compress (compress s b) rest := by
  rw [absorb, dif_pos (by simp [hb])]
  rw [List.take_left' hb, List.drop_left' hb]

/-- **Resuming after a block.** Hashing a block `b` and then `msg` is hashing `msg` on from the
state `b` compresses to, `64` bytes in. -/
theorem hash_append_block (digest : σ → Bytes) (iv : σ) {b : Bytes} (hb : b.length = 64)
    (msg : Bytes) :
    hash compress digest iv (b ++ msg) = resume compress digest (compress iv b) 64 msg := by
  unfold hash resume
  rw [List.append_assoc, absorb_append_block compress iv hb, List.length_append, hb,
    Nat.zero_add]

end MerkleDamgard
