import Mathlib.Data.List.GetD
import Tlsn.Lib.MerkleDamgard
import Tlsn.Lib.Hmac

/-!
# The TLS 1.2 PRF: the HMAC-SHA256 circuits' reference and `tls_core::prf`

`hmac_sha256_partial` compresses the key, XORed into `opad` and `ipad`, into the outer and inner
states of HMAC-SHA256, and `hmac_sha256_finalize` hashes a message on from them, `64` bytes in.
`p_hash` and `prf` iterate it as RFC 5246 does; `session_keys` and `verify_data` derive from it the
TLS 1.2 keys and Finished data that the MPC backend computes. `tls_core::prf::prf`, which the
RustCrypto backend uses (`key_expansion_tls12`, `verify_data_*_tls12`), computes the same PRF
chunk by chunk from the `hmac` and `sha2` crates.

The SHA-256 compression function of `mpz_circuits` is a parameter, `sha256Compress`. Its
`sha256(state, pos, msg)` is Merkle–Damgård hashing of `msg` resumed from `state` after `pos`
bytes; the `sha2` crate's SHA-256 is the same hashing from the initial state, and the `hmac`
crate's HMAC is RFC 2104 over it (`hmacSha256`).

* `finalize_eq_hmac`: the split HMAC is HMAC, for every key of at most a block;
* `pHash_eq`, `prf_eq`: the two loops of `p_hash` compute `A(i)` and `P_hash` of RFC 5246, and
  `prf` its first `bytes` bytes;
* `TlsCore.prf_eq`: `tls_core::prf::prf` writes the same bytes, for a key of any length;
* `sessionKeys_eq`, `verifyData_eq`: the derived keys and Finished data.
-/

namespace Tlsn.Prf

open Codec

/-- The SHA-256 chaining state: eight words. -/
abbrev State := Vector UInt32 8

/-- `SHA256_INITIAL_STATE`. -/
def sha256InitialState : State := #v[0x6a09e667, 0xbb67ae85, 0x3c6ef372, 0xa54ff53a,
  0x510e527f, 0x9b05688c, 0x1f83d9ab, 0x5be0cd19]

/-- The digest of a chaining state: its words, big-endian. -/
def digest (s : State) : Bytes := s.toList.flatMap encodeU32

theorem digest_length (s : State) : (digest s).length = 32 := by
  simp [digest, encodeU32, List.length_flatMap]

variable (sha256Compress : State → Bytes → State)

/-- `mpz_circuits::circuits::sha256`: the digest of `msg` hashed on from `state`, `pos` bytes in. -/
def sha256 (state : State) (pos : ℕ) (msg : Bytes) : Bytes :=
  MerkleDamgard.resume sha256Compress digest state pos msg

/-- SHA-256 of the `sha2` crate. -/
def sha2 (msg : Bytes) : Bytes :=
  MerkleDamgard.hash sha256Compress digest sha256InitialState msg

/-- HMAC-SHA256 of the `hmac` crate: HMAC of RFC 2104 over SHA-256. -/
def hmacSha256 (key msg : Bytes) : Bytes := Hmac.hmac (sha2 sha256Compress) key msg

/-- A block of `pad` with the key XORed into its front:
`key.iter().enumerate().for_each(|(i, k)| pad[i] ^= k)`. -/
def xorKey (pad : UInt8) (key : Bytes) : Bytes :=
  (List.replicate 64 pad).mapIdx fun i p => if h : i < key.length then p ^^^ key[i] else p

/-- `hmac_sha256_partial`: the outer and inner states `H(key ⊕ opad)` and `H(key ⊕ ipad)`; the
`assert!(key.len() <= 64)` panics (`none`) on a longer key. -/
def hmacSha256Partial (key : Bytes) : Option (State × State) :=
  if key.length ≤ 64 then
    let opad := xorKey 0x5c key
    let ipad := xorKey 0x36 key
    some (sha256Compress sha256InitialState opad, sha256Compress sha256InitialState ipad)
  else none

/-- `hmac_sha256_finalize`. -/
def hmacSha256Finalize (outerState innerState : State) (msg : Bytes) : Bytes :=
  sha256 sha256Compress outerState 64 (sha256 sha256Compress innerState 64 msg)

/-- `p_hash`: the first loop fills `a_cache` with `A(0), …, A(iterations)`, the second appends
`HMAC_hash(secret, A(i + 1) + seed)` for each `i`. -/
def pHash (outerState innerState : State) (seed : Bytes) (iterations : ℕ) : Bytes :=
  let aCache := (List.range iterations).foldl
    (fun aCache i =>
      aCache ++ [hmacSha256Finalize sha256Compress outerState innerState (aCache.getD i [])])
    [seed]
  (List.range iterations).foldl
    (fun output i =>
      output ++ hmacSha256Finalize sha256Compress outerState innerState
        (aCache.getD (i + 1) [] ++ seed))
    []

/-- `prf`: `P_hash` of `label ++ seed` over enough blocks for `bytes` bytes, truncated. -/
def prf (outerState innerState : State) (seed label : Bytes) (bytes : ℕ) : Bytes :=
  let iterations := bytes / 32 + if bytes % 32 ≠ 0 then 1 else 0
  (pHash sha256Compress outerState innerState (label ++ seed) iterations).take bytes

/-- `session_keys`: the master secret from the premaster secret, then `40` bytes of key material
from it, cut into the client and server write keys and IVs. -/
def sessionKeys (pms clientRandom serverRandom : Bytes) :
    Option (Bytes × Bytes × Bytes × Bytes) := do
  let (pmsOuterState, pmsInnerState) ← hmacSha256Partial sha256Compress pms
  let masterSecret := prf sha256Compress pmsOuterState pmsInnerState
    (clientRandom ++ serverRandom) "master secret".toUTF8.toList 48
  let (masterSecretOuterState, masterSecretInnerState) ←
    hmacSha256Partial sha256Compress masterSecret
  let keyMaterial := prf sha256Compress masterSecretOuterState masterSecretInnerState
    (serverRandom ++ clientRandom) "key expansion".toUTF8.toList 40
  pure (keyMaterial.take 16, (keyMaterial.drop 16).take 16, (keyMaterial.drop 32).take 4,
    (keyMaterial.drop 36).take 4)

/-- `verify_data`: `12` bytes of the PRF of the handshake hash. -/
def verifyData (outerState innerState : State) (label hsHash : Bytes) : Bytes :=
  prf sha256Compress outerState innerState hsHash label 12

namespace TlsCore

/-- The lengths of `out.chunks_mut(32)` for `n` bytes of output. -/
def chunkLens (n : ℕ) : List ℕ :=
  List.replicate (n / 32) 32 ++ if n % 32 = 0 then [] else [n % 32]

/-- The loop of `tls_core::prf::prf` over the chunks of `out`; `currentA` is what the keyed
`current_a` has been fed. -/
def prfChunks (mac : Bytes → Bytes) (label seed : Bytes) : List ℕ → Bytes → Bytes
  | [], _ => []
  | len :: lens, currentA =>
    let a := mac currentA
    (mac (a ++ label ++ seed)).take len ++ prfChunks mac label seed lens a

/-- `tls_core::prf::prf`: the `n = out.len()` bytes it writes into `out`. `Hmac::new_from_slice`
takes a key of any length, so the `InvalidKeyLength` error is never returned. -/
def prf (secret label seed : Bytes) (n : ℕ) : Bytes :=
  prfChunks (hmacSha256 sha256Compress secret) label seed (chunkLens n) (label ++ seed)

end TlsCore

namespace RustCryptoBackend

/-- `key_expansion_tls12`: the master secret and the `40` bytes of session keys. -/
def keyExpansionTls12 (clientRandom serverRandom pms : Bytes) : Bytes × Bytes :=
  let ms := TlsCore.prf sha256Compress pms "master secret".toUTF8.toList
    (clientRandom ++ serverRandom) 48
  (ms, TlsCore.prf sha256Compress ms "key expansion".toUTF8.toList
    (serverRandom ++ clientRandom) 40)

/-- `verify_data_sf_tls12`. -/
def verifyDataSfTls12 (hsHash ms : Bytes) : Bytes :=
  TlsCore.prf sha256Compress ms "server finished".toUTF8.toList hsHash 12

/-- `verify_data_cf_tls12`. -/
def verifyDataCfTls12 (hsHash ms : Bytes) : Bytes :=
  TlsCore.prf sha256Compress ms "client finished".toUTF8.toList hsHash 12

/-- The client write key and IV, as `set_encrypter` takes them from the session keys. -/
def encrypterKeys (sessionKeys : Bytes) : Bytes × Bytes :=
  (sessionKeys.take 16, (sessionKeys.drop 32).take 4)

/-- The server write key and IV, as `set_decrypter` takes them from the session keys. -/
def decrypterKeys (sessionKeys : Bytes) : Bytes × Bytes :=
  ((sessionKeys.drop 16).take 16, (sessionKeys.drop 36).take 4)

end RustCryptoBackend

/-! ## HMAC split into the outer and inner states -/

theorem hmacSha256_length (key msg : Bytes) : (hmacSha256 sha256Compress key msg).length = 32 :=
  digest_length _

/-- The padded key XORed with a pad, as RFC 2104 writes it. -/
theorem xorKey_eq (pad : UInt8) {key : Bytes} (h : key.length ≤ 64) :
    xorKey pad key = (key ++ List.replicate (64 - key.length) 0).map (· ^^^ pad) := by
  apply List.ext_getElem
  · simp only [xorKey, List.length_mapIdx, List.length_replicate, List.length_map,
      List.length_append]
    omega
  · intro i h₁ h₂
    simp only [xorKey, List.getElem_mapIdx, List.getElem_replicate, List.getElem_map]
    split
    case isTrue hi => rw [List.getElem_append_left hi, UInt8.xor_comm]
    case isFalse hi => rw [List.getElem_append_right (by omega), List.getElem_replicate,
      UInt8.zero_xor]

theorem hmacSha256Partial_isSome {key : Bytes} (h : key.length ≤ 64) :
    ∃ o i, hmacSha256Partial sha256Compress key = some (o, i) :=
  ⟨_, _, if_pos h⟩

/-- The SHA-256 of a pad and a message is `sha256` resumed from the pad's state. -/
theorem sha2_xorKey (pad : UInt8) (key msg : Bytes) :
    sha2 sha256Compress (xorKey pad key ++ msg) =
      sha256 sha256Compress (sha256Compress sha256InitialState (xorKey pad key)) 64 msg :=
  MerkleDamgard.hash_append_block _ _ _ (by simp [xorKey]) msg

/-- **The split HMAC is HMAC.** Finalizing from the states of a key of at most a block is
HMAC-SHA256 under that key. -/
theorem finalize_eq_hmac {key : Bytes} {o i : State}
    (h : hmacSha256Partial sha256Compress key = some (o, i)) (msg : Bytes) :
    hmacSha256Finalize sha256Compress o i msg = hmacSha256 sha256Compress key msg := by
  unfold hmacSha256Partial at h
  split_ifs at h with hkey
  obtain ⟨rfl, rfl⟩ := Prod.mk.inj (Option.some.inj h)
  rw [hmacSha256, Hmac.hmac, Hmac.blockKey_of_le _ hkey, ← xorKey_eq 0x36 hkey,
    ← xorKey_eq 0x5c hkey, sha2_xorKey, sha2_xorKey]
  rfl

/-! ## The loops of `p_hash` -/

/-- The first loop: `a_cache` holds `A(0), …, A(m)` after `m` rounds. -/
theorem foldl_aCache (f : Bytes → Bytes) (seed : Bytes) (m : ℕ) :
    (List.range m).foldl (fun aCache i => aCache ++ [f (aCache.getD i [])]) [seed] =
      (List.range (m + 1)).map (Hmac.a f seed) := by
  induction m with
  | zero => rfl
  | succ m ih =>
    rw [List.range_succ, List.foldl_append, ih, List.foldl_cons, List.foldl_nil,
      List.getD_eq_getElem _ _ (by simp), List.getElem_map, List.getElem_range,
      List.range_succ (n := m + 1), List.map_append]
    rfl

/-- The second loop: with `A(1), …, A(m)` at their places in `a_cache`, `m` rounds give `m` blocks
of `P_hash`. -/
theorem foldl_output (f : Bytes → Bytes) (seed : Bytes) (aCache : List Bytes) (m : ℕ)
    (hcache : ∀ i < m, aCache.getD (i + 1) [] = Hmac.a f seed (i + 1)) :
    (List.range m).foldl (fun output i => output ++ f (aCache.getD (i + 1) [] ++ seed)) [] =
      Hmac.pHash f seed m := by
  induction m with
  | zero => rfl
  | succ m ih =>
    rw [List.range_succ, List.foldl_append, ih (fun i hi => hcache i (by omega)), List.foldl_cons,
      List.foldl_nil, hcache m (by omega), Hmac.pHash_succ]

/-- `p_hash` is `P_hash` of RFC 5246 over the finalizing HMAC. -/
theorem pHash_eq (o i : State) (seed : Bytes) (iterations : ℕ) :
    pHash sha256Compress o i seed iterations =
      Hmac.pHash (hmacSha256Finalize sha256Compress o i) seed iterations := by
  unfold pHash
  rw [foldl_aCache]
  apply foldl_output
  intro j hj
  rw [List.getD_eq_getElem _ _ (by simp; omega), List.getElem_map, List.getElem_range]

/-- `prf` is the PRF of RFC 5246 under the key its states were computed from. -/
theorem prf_eq {key : Bytes} {o i : State}
    (h : hmacSha256Partial sha256Compress key = some (o, i)) (seed label : Bytes) (n : ℕ) :
    prf sha256Compress o i seed label n = Hmac.prf (hmacSha256 sha256Compress key) label seed n := by
  have hmac : hmacSha256Finalize sha256Compress o i = hmacSha256 sha256Compress key :=
    funext (finalize_eq_hmac sha256Compress h)
  have hn : n ≤ (n / 32 + if n % 32 ≠ 0 then 1 else 0) * 32 := by split_ifs <;> omega
  rw [prf, pHash_eq, hmac, Hmac.prf_eq_take (hmacSha256_length sha256Compress key) (by decide)
    label seed hn]

/-! ## `tls_core::prf::prf` -/

namespace TlsCore

variable {mac : Bytes → Bytes}

/-- Whole chunks fed from `A(j)` are the blocks of `P_hash` from the `j`-th on. -/
theorem prfChunks_replicate (hlen : ∀ x, (mac x).length = 32) (label seed : Bytes) (q j : ℕ)
    (lens : List ℕ) :
    prfChunks mac label seed (List.replicate q 32 ++ lens) (Hmac.a mac (label ++ seed) j) =
      (List.range' j q).flatMap (fun k => mac (Hmac.a mac (label ++ seed) (k + 1) ++ label ++ seed))
        ++ prfChunks mac label seed lens (Hmac.a mac (label ++ seed) (j + q)) := by
  induction q generalizing j with
  | zero => rfl
  | succ q ih =>
    rw [List.replicate_succ, List.cons_append, prfChunks, ← Hmac.a_succ mac (label ++ seed) j,
      ih (j + 1), List.take_of_length_le (hlen _).le, List.range'_succ, List.flatMap_cons,
      show j + 1 + q = j + (q + 1) by omega]
    simp only [List.append_assoc]

/-- The bytes written are the first `n` bytes of the blocks `p_hash` computes. -/
theorem prfChunks_chunkLens (hlen : ∀ x, (mac x).length = 32) (label seed : Bytes) (n : ℕ) :
    prfChunks mac label seed (chunkLens n) (label ++ seed) =
      (Hmac.pHash mac (label ++ seed) (n / 32 + if n % 32 ≠ 0 then 1 else 0)).take n := by
  have hblocks := prfChunks_replicate hlen label seed (n / 32) 0
  simp only [Nat.zero_add, Hmac.a_zero] at hblocks
  have hpHash : (List.range' 0 (n / 32)).flatMap
      (fun k => mac (Hmac.a mac (label ++ seed) (k + 1) ++ label ++ seed)) =
      Hmac.pHash mac (label ++ seed) (n / 32) := by
    simp only [Hmac.pHash, List.range_eq_range', List.append_assoc]
  have hlen' := Hmac.length_pHash hlen (label ++ seed) (n / 32)
  unfold chunkLens
  by_cases h₀ : n % 32 = 0
  · -- whole chunks only
    rw [if_pos h₀, if_neg (not_not.2 h₀), hblocks, hpHash, Nat.add_zero]
    simp only [prfChunks, List.append_nil]
    rw [List.take_of_length_le (by omega)]
  · -- a last chunk of `n % 32` bytes, the front of the next block
    rw [if_neg h₀, if_pos h₀, hblocks, hpHash, Hmac.pHash_succ, List.take_append,
      List.take_of_length_le (by omega), hlen', show n - n / 32 * 32 = n % 32 by omega]
    simp only [prfChunks, List.append_nil, Hmac.a_succ, List.append_assoc]

/-- **`tls_core::prf::prf` is the PRF of RFC 5246**, for a secret of any length. -/
theorem prf_eq (secret label seed : Bytes) (n : ℕ) :
    prf sha256Compress secret label seed n =
      Hmac.prf (hmacSha256 sha256Compress secret) label seed n := by
  have hn : n ≤ (n / 32 + if n % 32 ≠ 0 then 1 else 0) * 32 := by split_ifs <;> omega
  rw [prf, prfChunks_chunkLens (hmacSha256_length sha256Compress secret),
    Hmac.prf_eq_take (hmacSha256_length sha256Compress secret) (by decide) label seed hn]

end TlsCore

/-! ## The derived keys and Finished data -/

/-- `session_keys` derives the TLS 1.2 master secret and key block of RFC 5246, §8.1 and §6.3. -/
theorem sessionKeys_eq {pms : Bytes} (hpms : pms.length ≤ 64) (clientRandom serverRandom : Bytes) :
    sessionKeys sha256Compress pms clientRandom serverRandom =
      let ms := Hmac.prf (hmacSha256 sha256Compress pms) "master secret".toUTF8.toList
        (clientRandom ++ serverRandom) 48
      let keyBlock := Hmac.prf (hmacSha256 sha256Compress ms) "key expansion".toUTF8.toList
        (serverRandom ++ clientRandom) 40
      some (keyBlock.take 16, (keyBlock.drop 16).take 16, (keyBlock.drop 32).take 4,
        (keyBlock.drop 36).take 4) := by
  obtain ⟨o, i, h⟩ := hmacSha256Partial_isSome sha256Compress hpms
  have hms : (Hmac.prf (hmacSha256 sha256Compress pms) "master secret".toUTF8.toList
      (clientRandom ++ serverRandom) 48).length ≤ 64 := by
    rw [Hmac.length_prf (hmacSha256_length sha256Compress pms) (by decide)]
    decide
  obtain ⟨o', i', h'⟩ := hmacSha256Partial_isSome sha256Compress hms
  simp only [sessionKeys, h, prf_eq sha256Compress h, h', prf_eq sha256Compress h',
    Option.bind_eq_bind, Option.bind_some]
  rfl

/-- The RustCrypto backend's key expansion is the same PRF, for a premaster secret of any
length. -/
theorem keyExpansionTls12_eq (clientRandom serverRandom pms : Bytes) :
    RustCryptoBackend.keyExpansionTls12 sha256Compress clientRandom serverRandom pms =
      let ms := Hmac.prf (hmacSha256 sha256Compress pms) "master secret".toUTF8.toList
        (clientRandom ++ serverRandom) 48
      (ms, Hmac.prf (hmacSha256 sha256Compress ms) "key expansion".toUTF8.toList
        (serverRandom ++ clientRandom) 40) := by
  simp only [RustCryptoBackend.keyExpansionTls12, TlsCore.prf_eq]

/-- `verify_data` is `12` bytes of the PRF of RFC 5246, §7.4.9. -/
theorem verifyData_eq {key : Bytes} {o i : State}
    (h : hmacSha256Partial sha256Compress key = some (o, i)) (label hsHash : Bytes) :
    verifyData sha256Compress o i label hsHash =
      Hmac.prf (hmacSha256 sha256Compress key) label hsHash 12 :=
  prf_eq sha256Compress h hsHash label 12

/-- **The HMAC-SHA256 PRF is the PRF of RFC 5246, in both backends.** For a key of at most a
block, `hmac_sha256_partial` does not panic, and `prf` from its states is the first `n` bytes of
`P_SHA256(key, label ++ seed)` with HMAC of RFC 2104; `session_keys` cuts the key block derived
from the master secret at the places where the RustCrypto backend's `key_expansion_tls12` is cut
by `set_encrypter` and `set_decrypter`; `verify_data` is the PRF that `verify_data_*_tls12`
computes; and `tls_core::prf::prf` is the same PRF for a key of any length. -/
theorem hmac_sha256_prf_is_rfc5246 :
    (∀ key : Bytes, key.length ≤ 64 → ∃ outerState innerState,
      hmacSha256Partial sha256Compress key = some (outerState, innerState) ∧
      ∀ seed label n, prf sha256Compress outerState innerState seed label n =
        Hmac.prf (hmacSha256 sha256Compress key) label seed n) ∧
    (∀ pms clientRandom serverRandom : Bytes, pms.length ≤ 64 →
      let ms := Hmac.prf (hmacSha256 sha256Compress pms) "master secret".toUTF8.toList
        (clientRandom ++ serverRandom) 48
      let keyBlock := Hmac.prf (hmacSha256 sha256Compress ms) "key expansion".toUTF8.toList
        (serverRandom ++ clientRandom) 40
      RustCryptoBackend.keyExpansionTls12 sha256Compress clientRandom serverRandom pms =
        (ms, keyBlock) ∧
      sessionKeys sha256Compress pms clientRandom serverRandom =
        some ((RustCryptoBackend.encrypterKeys keyBlock).1,
          (RustCryptoBackend.decrypterKeys keyBlock).1,
          (RustCryptoBackend.encrypterKeys keyBlock).2,
          (RustCryptoBackend.decrypterKeys keyBlock).2)) ∧
    (∀ ms hsHash : Bytes, ms.length ≤ 64 → ∃ outerState innerState,
      hmacSha256Partial sha256Compress ms = some (outerState, innerState) ∧
      (∀ label, verifyData sha256Compress outerState innerState label hsHash =
        Hmac.prf (hmacSha256 sha256Compress ms) label hsHash 12) ∧
      verifyData sha256Compress outerState innerState "client finished".toUTF8.toList hsHash =
        RustCryptoBackend.verifyDataCfTls12 sha256Compress hsHash ms ∧
      verifyData sha256Compress outerState innerState "server finished".toUTF8.toList hsHash =
        RustCryptoBackend.verifyDataSfTls12 sha256Compress hsHash ms) ∧
    (∀ secret label seed n, TlsCore.prf sha256Compress secret label seed n =
      Hmac.prf (hmacSha256 sha256Compress secret) label seed n) := by
  refine ⟨fun key hkey => ?_, fun pms clientRandom serverRandom hpms => ?_,
    fun ms hsHash hms => ?_, TlsCore.prf_eq sha256Compress⟩
  case refine_1 =>
    obtain ⟨o, i, h⟩ := hmacSha256Partial_isSome sha256Compress hkey
    exact ⟨o, i, h, prf_eq sha256Compress h⟩
  case refine_2 =>
    exact ⟨keyExpansionTls12_eq sha256Compress clientRandom serverRandom pms,
      sessionKeys_eq sha256Compress hpms clientRandom serverRandom⟩
  case refine_3 =>
    obtain ⟨o, i, h⟩ := hmacSha256Partial_isSome sha256Compress hms
    refine ⟨o, i, h, fun label => verifyData_eq sha256Compress h label hsHash, ?_, ?_⟩
    · rw [verifyData_eq sha256Compress h, RustCryptoBackend.verifyDataCfTls12, TlsCore.prf_eq]
    · rw [verifyData_eq sha256Compress h, RustCryptoBackend.verifyDataSfTls12, TlsCore.prf_eq]

end Tlsn.Prf
