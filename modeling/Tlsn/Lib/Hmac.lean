import Tlsn.Lib.Codec

/-!
# HMAC and the TLS 1.2 pseudorandom function

`hmac` is HMAC of RFC 2104 over a hash `H` with blocks of `64` bytes: the key, hashed first when
it is longer than a block, is padded with zeros to a block `K`, and
`HMAC(K, text) = H(K ⊕ opad ++ H(K ⊕ ipad ++ text))`.

`pHash` and `prf` are `P_hash` and `PRF` of RFC 5246, §5, over any MAC keyed with the secret:
`A(0) = seed`, `A(i) = HMAC_hash(secret, A(i-1))`, and `P_hash` is the concatenation of
`HMAC_hash(secret, A(i) + seed)` for `i = 1, 2, …`. `P_hash` has no end; `pHash mac seed m` is its
first `m` blocks, and each block extends the ones before it, so that the first `n` bytes are the
same in every `pHash mac seed m` long enough (`take_pHash_of_le`, `prf_eq_take`).
-/

namespace Hmac

open Codec

section Hmac

variable (H : Bytes → Bytes)

/-- The key as a block: hashed when longer than a block, then padded with zeros to `64` bytes. -/
def blockKey (key : Bytes) : Bytes :=
  let k := if 64 < key.length then H key else key
  k ++ List.replicate (64 - k.length) 0

/-- `H(K ⊕ opad ++ H(K ⊕ ipad ++ text))`, with `ipad` the byte `0x36` and `opad` the byte `0x5c`
repeated. -/
def hmac (key text : Bytes) : Bytes :=
  H ((blockKey H key).map (· ^^^ 0x5c) ++ H ((blockKey H key).map (· ^^^ 0x36) ++ text))

/-- A key of at most a block is only padded. -/
theorem blockKey_of_le {key : Bytes} (h : key.length ≤ 64) :
    blockKey H key = key ++ List.replicate (64 - key.length) 0 := by
  simp [blockKey, Nat.not_lt.2 h]

end Hmac

section PHash

variable (mac : Bytes → Bytes)

/-- `A(0) = seed`, `A(i) = HMAC_hash(secret, A(i-1))`. -/
def a (seed : Bytes) : ℕ → Bytes
  | 0 => seed
  | i + 1 => mac (a seed i)

/-- The first `iterations` blocks `HMAC_hash(secret, A(i) + seed)` of `P_hash(secret, seed)`. -/
def pHash (seed : Bytes) (iterations : ℕ) : Bytes :=
  (List.range iterations).flatMap fun i => mac (a mac seed (i + 1) ++ seed)

/-- The first `n` bytes of `PRF(secret, label, seed) = P_hash(secret, label + seed)`: `n` blocks
hold at least `n` bytes. -/
def prf (label seed : Bytes) (n : ℕ) : Bytes := (pHash mac (label ++ seed) n).take n

@[simp] theorem a_zero (seed : Bytes) : a mac seed 0 = seed := rfl

@[simp] theorem a_succ (seed : Bytes) (i : ℕ) : a mac seed (i + 1) = mac (a mac seed i) := rfl

@[simp] theorem pHash_zero (seed : Bytes) : pHash mac seed 0 = [] := rfl

theorem pHash_succ (seed : Bytes) (m : ℕ) :
    pHash mac seed (m + 1) = pHash mac seed m ++ mac (a mac seed (m + 1) ++ seed) := by
  simp [pHash, List.range_succ]

variable {mac} {hLen : ℕ}

theorem length_pHash (hlen : ∀ x, (mac x).length = hLen) (seed : Bytes) (m : ℕ) :
    (pHash mac seed m).length = m * hLen := by
  induction m with
  | zero => simp
  | succ m ih => rw [pHash_succ, List.length_append, ih, hlen, Nat.succ_mul]

/-- More blocks only extend `P_hash`: its first `n` bytes are those of any `m` blocks that hold
them. -/
theorem take_pHash_of_le (hlen : ∀ x, (mac x).length = hLen) (seed : Bytes) {n m m' : ℕ}
    (hn : n ≤ m * hLen) (hm : m ≤ m') :
    (pHash mac seed m').take n = (pHash mac seed m).take n := by
  induction m', hm using Nat.le_induction with
  | base => rfl
  | succ m' hm ih =>
    have hle : n ≤ (pHash mac seed m').length := by
      rw [length_pHash hlen]
      exact hn.trans (Nat.mul_le_mul_right hLen hm)
    rw [pHash_succ, List.take_append_of_le_length hle, ih]

/-- The first `n` bytes of `PRF` are those of any `m` blocks of `P_hash` that hold them. -/
theorem prf_eq_take (hlen : ∀ x, (mac x).length = hLen) (hpos : 0 < hLen) (label seed : Bytes)
    {n m : ℕ} (hn : n ≤ m * hLen) :
    prf mac label seed n = (pHash mac (label ++ seed) m).take n := by
  have hn' : n ≤ n * hLen := Nat.le_mul_of_pos_right n hpos
  unfold prf
  rw [← take_pHash_of_le hlen _ hn' (Nat.le_max_left n m),
    ← take_pHash_of_le hlen _ hn (Nat.le_max_right n m)]

theorem length_prf (hlen : ∀ x, (mac x).length = hLen) (hpos : 0 < hLen) (label seed : Bytes)
    (n : ℕ) : (prf mac label seed n).length = n := by
  rw [prf, List.length_take, length_pHash hlen]
  exact Nat.min_eq_left (Nat.le_mul_of_pos_right n hpos)

end PHash

end Hmac
