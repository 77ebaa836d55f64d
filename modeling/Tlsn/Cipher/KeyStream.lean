import Tlsn.Lib.FreshPool
import Tlsn.Lib.Outcome
import Tlsn.Lib.Codec
import Tlsn.Cipher.StreamCipher

/-!
# The keystream blocks of the stream cipher (`stream-cipher/src/keystream.rs`)

`KeyStream` defines the variables of the keystream blocks in the MPC memory: for each block an
output named by a fresh block id, and a nonce and a counter input named after it. `preprocess`
defines the blocks of a text ahead of time and keeps them in three queues (`BlockVars`); `compute`
takes the blocks of a text from the front of the queues and defines fresh ones for the rest, assigns
each block its nonce and counter, and returns the keystream, the first bytes of the blocks.
`MpcStreamCipher::share_keystream_block` computes one block from the same pool.

The block ids are `NestedId`s incremented in place: the `i`-th increment of the counter appended to
`id` is `id/i`, the pair `⟨id, i⟩`, as in `Tlsn.Cipher.StreamCipher`. The MPC thread is a black
box: whether its calls succeed is an input of each call (`vm`). The memory's `new_output` and
`new_public_input` in `define_vars` are taken to succeed: the errors they may return are left
out.

The queues refine a supply of fresh names with a queue set aside (`FreshPool`): the three queues
stay aligned, holding the variables of the same ids in the same order, and each call is an
operation of the pool (`apply_refines`). So the blocks of all the computes of a run are pairwise
distinct (`computedBlocks_nodup`).
-/

namespace Tlsn.StreamCipher

open Codec

/-- A variable of the MPC memory that `define_vars` names after a block id `b`: the block output,
named `b`, and its nonce and counter inputs, named `b/nonce` and `b/ctr`. -/
inductive ValueRef
  | block (id : NestedId)
  | nonce (id : NestedId)
  | ctr (id : NestedId)
  deriving DecidableEq, Repr

/-- `CtrCircuit`: the lengths of a block and of an explicit nonce. -/
structure CtrCircuit where
  blockLen : ℕ
  nonceLen : ℕ
  blockLen_pos : 0 < blockLen

/-- `Aes128Ctr`. -/
def aes128Ctr : CtrCircuit := ⟨16, 8, by decide⟩

/-- `ErrorKind` of `StreamCipherError`. -/
inductive ErrorKind
  | vm | key | iv | explicitNonce
  deriving DecidableEq, Repr

/-- `StreamCipherError`: its kind and the reason it boxes. -/
structure StreamCipherError where
  kind : ErrorKind
  reason : String
  deriving DecidableEq, Repr

/-- `StreamCipherError::explicit_nonce_len`. -/
def StreamCipherError.explicitNonceLen (C : CtrCircuit) (len : ℕ) : StreamCipherError :=
  ⟨.explicitNonce, "invalid explicit nonce length: expected " ++ toString C.nonceLen ++ ", got " ++
    toString len⟩

/-- `StreamCipherError::key_not_set`. -/
def StreamCipherError.keyNotSet : StreamCipherError := ⟨.key, "key not set"⟩

/-- `BlockVars`: the queues of block outputs, of their nonce inputs and of their counter inputs. -/
structure BlockVars where
  blocks : List ValueRef
  nonces : List ValueRef
  ctrs : List ValueRef
  deriving DecidableEq, Repr

namespace BlockVars

/-- `BlockVars::default`. -/
def empty : BlockVars := ⟨[], [], []⟩

/-- `BlockVars::is_empty`. -/
def isEmpty (v : BlockVars) : Bool := v.blocks.isEmpty

/-- `BlockVars::len`. -/
def len (v : BlockVars) : ℕ := v.blocks.length

/-- `BlockVars::drain`: the first `count` of each queue, and the rest. `VecDeque::drain` panics on
a range past the end of its queue. -/
def drain (v : BlockVars) (count : ℕ) : Outcome StreamCipherError (BlockVars × BlockVars) :=
  if count ≤ v.blocks.length ∧ count ≤ v.nonces.length ∧ count ≤ v.ctrs.length then
    .ok (⟨v.blocks.take count, v.nonces.take count, v.ctrs.take count⟩,
      ⟨v.blocks.drop count, v.nonces.drop count, v.ctrs.drop count⟩)
  else .panic

/-- `BlockVars::extend`. -/
def extend (v vars : BlockVars) : BlockVars :=
  ⟨v.blocks ++ vars.blocks, v.nonces ++ vars.nonces, v.ctrs ++ vars.ctrs⟩

/-- `BlockVars::iter`: the three queues zipped. -/
def iter (v : BlockVars) : List (ValueRef × ValueRef × ValueRef) :=
  ((v.blocks.zip v.nonces).zip v.ctrs).map fun ((block, nonce), ctr) => (block, nonce, ctr)

/-- `BlockVars::flatten`: the first `len` bytes of the blocks, the byte `j` of block `b` written
`(b, j)`. -/
def flatten (C : CtrCircuit) (v : BlockVars) (len : ℕ) : List (ValueRef × ℕ) :=
  (v.blocks.flatMap fun block => (List.range C.blockLen).map (block, ·)).take len

/-- The variables of the blocks `id/i`, for `i` in `ns` in order. -/
def ofIds (id : String) (ns : List ℕ) : BlockVars :=
  ⟨ns.map (.block ⟨id, ·⟩), ns.map (.nonce ⟨id, ·⟩), ns.map (.ctr ⟨id, ·⟩)⟩

theorem len_ofIds (id : String) (ns : List ℕ) : (ofIds id ns).len = ns.length := by
  simp [len, ofIds]

theorem isEmpty_ofIds (id : String) (ns : List ℕ) : (ofIds id ns).isEmpty = ns.isEmpty := by
  cases ns <;> rfl

/-- Aligned queues drain together, so the drain does not panic. -/
theorem drain_ofIds (id : String) {ns : List ℕ} {m : ℕ} (hm : m ≤ ns.length) :
    (ofIds id ns).drain m = .ok (ofIds id (ns.take m), ofIds id (ns.drop m)) := by
  simp [drain, ofIds, hm, List.map_take, List.map_drop]

theorem extend_ofIds (id : String) (ns ns' : List ℕ) :
    (ofIds id ns).extend (ofIds id ns') = ofIds id (ns ++ ns') := by
  simp [extend, ofIds]

/-- The circuits of aligned queues: each block with its own nonce and counter. -/
theorem iter_ofIds (id : String) (ns : List ℕ) :
    (ofIds id ns).iter = ns.map fun i => (.block ⟨id, i⟩, .nonce ⟨id, i⟩, .ctr ⟨id, i⟩) := by
  induction ns with
  | nil => rfl
  | cons i ns ih => simpa [iter, ofIds] using ih

end BlockVars

/-- The number of blocks of a text of `len` bytes: `len / BLOCK_LEN`, rounded up. -/
def blockCount (C : CtrCircuit) (len : ℕ) : ℕ :=
  len / C.blockLen + if len % C.blockLen ≠ 0 then 1 else 0

/-- `block_count` is `len / BLOCK_LEN` rounded up. -/
theorem blockCount_eq (C : CtrCircuit) (len : ℕ) :
    blockCount C len = (len + C.blockLen - 1) / C.blockLen := by
  have hb := C.blockLen_pos
  have hlt : C.blockLen - 1 < C.blockLen := by omega
  rw [Nat.add_sub_assoc hb, Nat.add_div hb, Nat.div_eq_of_lt hlt, Nat.mod_eq_of_lt hlt, blockCount]
  -- the carry of the division is one exactly when `len` is not a multiple of the block
  by_cases hr : len % C.blockLen = 0
  · simp [hr]
    omega
  · simp [hr]
    omega

/-- `a + b` on `usize`: a panic on overflow with overflow checks, a wrap modulo `2⁶⁴` without. -/
def usizeAdd (overflowChecks : Bool) (a b : ℕ) : Outcome StreamCipherError ℕ :=
  if a + b < 2 ^ 64 then .ok (a + b)
  else if overflowChecks then .panic
  else .ok ((a + b) % 2 ^ 64)

/-- The loop of `compute` over the block variables from index `i`: the nonce input of each block
assigned the explicit nonce, and its counter input `((start_ctr + i) as u32).to_be_bytes()`. -/
def assignVars (overflowChecks : Bool) (explicitNonce : Bytes) (startCtr : ℕ) :
    ℕ → List (ValueRef × ValueRef × ValueRef) → Outcome StreamCipherError (List (ValueRef × Bytes))
  | _, [] => pure []
  | i, (_, nonce, ctr) :: vars => do
    let c ← usizeAdd overflowChecks startCtr i
    let rest ← assignVars overflowChecks explicitNonce startCtr (i + 1) vars
    pure ((nonce, explicitNonce) :: (ctr, encodeU32 (UInt32.ofNat c)) :: rest)

/-- What the loop of `compute` assigns when no counter overflows: the counter of the block at
index `j` is `start_ctr + j`, as a big-endian `u32`. -/
def ctrAssignments (explicitNonce : Bytes) (startCtr i : ℕ)
    (vars : List (ValueRef × ValueRef × ValueRef)) : List (ValueRef × Bytes) :=
  (vars.zipIdx i).flatMap fun ((_, nonce, ctr), j) =>
    [(nonce, explicitNonce), (ctr, encodeU32 (UInt32.ofNat (startCtr + j)))]

/-- Without overflow checks the wrapped sum is the same `u32`, as `2³²` divides `2⁶⁴`. -/
theorem usizeAdd_eq_ok {overflowChecks : Bool} {a b : ℕ}
    (h : overflowChecks = false ∨ a + b < 2 ^ 64) :
    ∃ c, usizeAdd overflowChecks a b = .ok c ∧ UInt32.ofNat c = UInt32.ofNat (a + b) := by
  unfold usizeAdd
  by_cases hlt : a + b < 2 ^ 64
  · exact ⟨a + b, by rw [if_pos hlt], rfl⟩
  · have hoc : overflowChecks = false := h.resolve_right hlt
    refine ⟨(a + b) % 2 ^ 64, by rw [if_neg hlt, hoc]; rfl, ?_⟩
    apply UInt32.toNat_inj.1
    simp only [UInt32.toNat_ofNat']
    exact Nat.mod_mod_of_dvd _ (pow_dvd_pow 2 (by norm_num))

/-- The loop assigns every nonce and counter when no counter overflows a `usize`, or when a build
does not check. -/
theorem assignVars_eq {overflowChecks : Bool} (explicitNonce : Bytes) (startCtr : ℕ) :
    ∀ (i : ℕ) (vars : List (ValueRef × ValueRef × ValueRef)),
      (overflowChecks = false ∨ startCtr + i + vars.length ≤ 2 ^ 64) →
      assignVars overflowChecks explicitNonce startCtr i vars =
        .ok (ctrAssignments explicitNonce startCtr i vars)
  | _, [], _ => rfl
  | i, (block, nonce, ctr) :: vars, h => by
    obtain ⟨c, hc, hcast⟩ : ∃ c, usizeAdd overflowChecks startCtr i = .ok c ∧
        UInt32.ofNat c = UInt32.ofNat (startCtr + i) :=
      usizeAdd_eq_ok (h.imp_right fun h => by simp only [List.length_cons] at h; omega)
    have hrest := assignVars_eq explicitNonce startCtr (i + 1) vars
      (h.imp_right fun h => by simp only [List.length_cons] at h; omega)
    simp only [assignVars, hc, hrest, hcast, Outcome.ok_bind, Outcome.pure_eq, ctrAssignments,
      List.zipIdx_cons, List.flatMap_cons, List.cons_append, List.nil_append]

/-- What `compute` does with the thread: the circuits it executes, each given by its block output
and its nonce and counter inputs; the values it assigns; and the keystream it returns. -/
structure Computed where
  calls : List (ValueRef × ValueRef × ValueRef)
  assigns : List (ValueRef × Bytes)
  keystream : List (ValueRef × ℕ)
  deriving DecidableEq, Repr

/-- `KeyStream`. -/
structure KeyStream where
  /-- `block_counter`: the id its next increment returns. -/
  blockCounter : NestedId
  preprocessed : BlockVars
  deriving DecidableEq, Repr

namespace KeyStream

variable (C : CtrCircuit) (overflowChecks : Bool)

/-- `KeyStream::new`: a counter appended to `id`. -/
def new (id : String) : KeyStream := ⟨⟨id, 0⟩, .empty⟩

/-- `KeyStream::define_vars`: the variables of `count` blocks, each named by the next increment of
the block counter. -/
def defineVars (k : KeyStream) (count : ℕ) : BlockVars × KeyStream :=
  (BlockVars.ofIds k.blockCounter.transcript (List.range' k.blockCounter.counter count),
    { k with blockCounter := { k.blockCounter with counter := k.blockCounter.counter + count } })

/-- `KeyStream::preprocess`: the blocks of a text of `len` bytes defined, and queued once the
thread has loaded their circuits. -/
def preprocess (k : KeyStream) (len : ℕ) (vm : Except StreamCipherError Unit) :
    Outcome StreamCipherError Unit × KeyStream :=
  let (vars, k) := k.defineVars (blockCount C len)
  match vm with
  | .ok () => (.ok (), { k with preprocessed := k.preprocessed.extend vars })
  | .error e => (.err e, k)

/-- The statement of `compute` that takes the variables of its blocks: preprocessed ones first, and
new ones if needed. -/
def takeVars (k : KeyStream) (blockCount : ℕ) : Outcome StreamCipherError (BlockVars × KeyStream) :=
  if !k.preprocessed.isEmpty then do
    let (vars, rest) ← k.preprocessed.drain (min blockCount k.preprocessed.len)
    let k := { k with preprocessed := rest }
    if vars.len < blockCount then
      let (more, k) := k.defineVars (blockCount - vars.len)
      pure (vars.extend more, k)
    else pure (vars, k)
  else pure (k.defineVars blockCount)

/-- `KeyStream::compute`: the keystream of a text of `len` bytes from counter `start_ctr`. A wrong
length of explicit nonce is rejected before anything else. -/
def compute (k : KeyStream) (explicitNonce : Bytes) (startCtr len : ℕ)
    (vm : Except StreamCipherError Unit) : Outcome StreamCipherError Computed × KeyStream :=
  if explicitNonce.length ≠ C.nonceLen then
    (.err (.explicitNonceLen C explicitNonce.length), k)
  else
    match k.takeVars (blockCount C len) with
    | .ok (vars, k) =>
      ((do
        let assigns ← assignVars overflowChecks explicitNonce startCtr 0 vars.iter
        Outcome.ofExcept id vm
        pure ⟨vars.iter, assigns, vars.flatten C len⟩), k)
    | .err e => (.err e, k)
    | .panic => (.panic, k)

/-- `MpcStreamCipher::share_keystream_block`, as far as the keystream goes: once the key is set,
one block computed with the other party. -/
def shareKeystreamBlock (k : KeyStream) (keySet : Bool) (explicitNonce : Bytes) (ctr : ℕ)
    (vm : Except StreamCipherError Unit) : Outcome StreamCipherError Computed × KeyStream :=
  if keySet then compute C overflowChecks k explicitNonce ctr C.blockLen vm
  else (.err .keyNotSet, k)

/-- The calls on the keystream, with the outcome of the thread's part of each. -/
inductive Call
  | preprocess (len : ℕ) (vm : Except StreamCipherError Unit)
  | compute (explicitNonce : Bytes) (startCtr len : ℕ) (vm : Except StreamCipherError Unit)
  | shareKeystreamBlock (keySet : Bool) (explicitNonce : Bytes) (ctr : ℕ)
      (vm : Except StreamCipherError Unit)

/-- One call: the keystream computed, if any, and the keystream state after it. -/
def apply (k : KeyStream) : Call → Outcome StreamCipherError (Option Computed) × KeyStream
  | .preprocess len vm =>
    let (r, k) := k.preprocess C len vm
    (r >>= fun _ => pure none, k)
  | .compute explicitNonce startCtr len vm =>
    let (r, k) := k.compute C overflowChecks explicitNonce startCtr len vm
    (r >>= fun c => pure (some c), k)
  | .shareKeystreamBlock keySet explicitNonce ctr vm =>
    let (r, k) := k.shareKeystreamBlock C overflowChecks keySet explicitNonce ctr vm
    (r >>= fun c => pure (some c), k)

/-- The state after a sequence of calls. -/
def final (k : KeyStream) (calls : List Call) : KeyStream :=
  calls.foldl (fun k c => (apply C overflowChecks k c).2) k

/-- The keystreams a sequence of calls computes, in order, up to the first panic. -/
def computed : KeyStream → List Call → List Computed
  | _, [] => []
  | k, c :: cs =>
    match (apply C overflowChecks k c).1 with
    | .ok (some r) => r :: computed (apply C overflowChecks k c).2 cs
    | .ok none | .err _ => computed (apply C overflowChecks k c).2 cs
    | .panic => []

/-- The block outputs of the keystreams a sequence of calls computes. -/
def computedBlocks (k : KeyStream) (calls : List Call) : List ValueRef :=
  (computed C overflowChecks k calls).flatMap fun r => r.calls.map (·.1)

/-! ### The queues refine a pool of fresh names -/

/-- The keystream state of a pool state: the block counter at the pool's next name, and the
queues aligned on the pool's queue. -/
def ofPool (name : String) (p : FreshPool.State) : KeyStream :=
  ⟨⟨name, p.next⟩, BlockVars.ofIds name p.queue⟩

theorem new_eq_ofPool (name : String) : new name = ofPool name FreshPool.State.init := rfl

/-- The operation of the pool that a call is, if any. -/
def Call.toOp : Call → Option FreshPool.Op
  | .preprocess len vm => some (.reserve (blockCount C len) vm.isOk)
  | .compute explicitNonce _ len _ =>
    if explicitNonce.length = C.nonceLen then some (.take (blockCount C len)) else none
  | .shareKeystreamBlock keySet explicitNonce _ _ =>
    if keySet ∧ explicitNonce.length = C.nonceLen then some (.take (blockCount C C.blockLen))
    else none

/-- An operation of the pool, or none. -/
def stepOpt (p : FreshPool.State) : Option FreshPool.Op → List ℕ × FreshPool.State
  | some op => FreshPool.step p op
  | none => ([], p)

/-- `preprocess` sets aside the blocks of the text, and keeps them if the thread loaded them. -/
theorem preprocess_ofPool (name : String) (p : FreshPool.State) (len : ℕ)
    (vm : Except StreamCipherError Unit) :
    (preprocess C (ofPool name p) len vm).2 =
      ofPool name (FreshPool.step p (.reserve (blockCount C len) vm.isOk)).2 := by
  cases vm with
  | ok u =>
    simp [preprocess, defineVars, ofPool, FreshPool.step, BlockVars.extend_ofIds, Except.isOk,
      Except.toBool]
  | error e => simp [preprocess, defineVars, ofPool, FreshPool.step, Except.isOk, Except.toBool]

/-- `compute` takes the front of the queue, then fresh blocks: a `take` of the pool. -/
theorem takeVars_ofPool (name : String) (p : FreshPool.State) (n : ℕ) :
    (ofPool name p).takeVars n =
      .ok (BlockVars.ofIds name (FreshPool.step p (.take n)).1,
        ofPool name (FreshPool.step p (.take n)).2) := by
  cases hq : p.queue with
  | nil =>
    -- nothing preprocessed: all the blocks are new
    simp [takeVars, ofPool, hq, BlockVars.isEmpty_ofIds, defineVars, FreshPool.step]
  | cons a q =>
    -- the front of the queue first, and new blocks if it is too short
    have hm : min n (a :: q).length ≤ (a :: q).length := Nat.min_le_right _ _
    simp only [takeVars, ofPool, hq, BlockVars.isEmpty_ofIds, BlockVars.len_ofIds,
      BlockVars.drain_ofIds name hm, List.isEmpty_cons, Bool.not_false, if_true, Outcome.ok_bind]
    by_cases hlt : q.length + 1 < n
    · have hmin : min n (q.length + 1) = q.length + 1 := by omega
      simp [hlt, hmin, hq, defineVars, BlockVars.extend_ofIds, FreshPool.step]
    · have hmin : min n (q.length + 1) = n := by omega
      simp [hmin, hq, FreshPool.step]

/-- A compute rejected for the length of its explicit nonce changes nothing. -/
theorem compute_of_ne (k : KeyStream) {explicitNonce : Bytes} (startCtr len : ℕ)
    (vm : Except StreamCipherError Unit) (h : explicitNonce.length ≠ C.nonceLen) :
    compute C overflowChecks k explicitNonce startCtr len vm =
      (.err (.explicitNonceLen C explicitNonce.length), k) := by
  rw [compute, if_pos h]

/-- A compute with an explicit nonce of the right length takes its blocks from the pool. -/
theorem compute_ofPool (name : String) (p : FreshPool.State) {explicitNonce : Bytes}
    (startCtr len : ℕ) (vm : Except StreamCipherError Unit) (h : explicitNonce.length = C.nonceLen) :
    compute C overflowChecks (ofPool name p) explicitNonce startCtr len vm =
      (do
        let vars := BlockVars.ofIds name (FreshPool.step p (.take (blockCount C len))).1
        let assigns ← assignVars overflowChecks explicitNonce startCtr 0 vars.iter
        Outcome.ofExcept id vm
        pure ⟨vars.iter, assigns, vars.flatten C len⟩,
      ofPool name (FreshPool.step p (.take (blockCount C len))).2) := by
  rw [compute, if_neg (by omega), takeVars_ofPool]

/-- The circuits of a compute from a pool state are those of the blocks the pool hands out. -/
theorem compute_ofPool_calls (name : String) (p : FreshPool.State) {explicitNonce : Bytes}
    {startCtr len : ℕ} {vm : Except StreamCipherError Unit} {r : Computed}
    (h : (compute C overflowChecks (ofPool name p) explicitNonce startCtr len vm).1 = .ok r) :
    r.calls = (BlockVars.ofIds name (FreshPool.step p (.take (blockCount C len))).1).iter := by
  by_cases hn : explicitNonce.length = C.nonceLen
  · rw [compute_ofPool C overflowChecks name p startCtr len vm hn] at h
    obtain ⟨assigns, -, h⟩ := Outcome.bind_eq_ok.1 h
    obtain ⟨u, -, h⟩ := Outcome.bind_eq_ok.1 h
    cases h
    rfl
  · rw [compute_of_ne C overflowChecks _ startCtr len vm hn] at h
    cases h

/-- **Refinement.** Each call on a keystream state of the pool is the operation of the pool it
stands for: the state after it is the pool's, and the blocks it computes are those the pool hands
out. -/
theorem apply_refines (name : String) (p : FreshPool.State) (c : Call) :
    (apply C overflowChecks (ofPool name p) c).2 = ofPool name (stepOpt p (c.toOp C)).2 ∧
      ∀ r, (apply C overflowChecks (ofPool name p) c).1 = .ok (some r) →
        r.calls.map (·.1) = (stepOpt p (c.toOp C)).1.map fun i => .block ⟨name, i⟩ := by
  -- the blocks of a compute, from its circuits
  have hblocks : ∀ {n : ℕ} {o : Outcome StreamCipherError Computed} {r : Computed},
      (o = .ok r → r.calls = (BlockVars.ofIds name (FreshPool.step p (.take n)).1).iter) →
      (o >>= fun c => pure (some c)) = .ok (some r) →
      r.calls.map (·.1) = (FreshPool.step p (.take n)).1.map fun i => .block ⟨name, i⟩ := by
    intro n o r hcalls h
    obtain ⟨r', hr', h⟩ := Outcome.bind_eq_ok.1 h
    cases h
    simp [hcalls hr', BlockVars.iter_ofIds]
  cases c with
  | preprocess len vm =>
    refine ⟨preprocess_ofPool C name p len vm, fun r h => ?_⟩
    obtain ⟨u, -, h⟩ := Outcome.bind_eq_ok.1 h
    cases h
  | compute explicitNonce startCtr len vm =>
    by_cases hn : explicitNonce.length = C.nonceLen
    · refine ⟨?_, fun r h => ?_⟩
      · simp [apply, compute_ofPool C overflowChecks name p startCtr len vm hn, Call.toOp, hn,
          stepOpt]
      · simp only [Call.toOp, hn, if_true, stepOpt]
        exact hblocks (compute_ofPool_calls C overflowChecks name p) h
    · refine ⟨?_, fun r h => ?_⟩
      · simp [apply, compute_of_ne C overflowChecks _ startCtr len vm hn, Call.toOp, hn, stepOpt]
      · simp [apply, compute_of_ne C overflowChecks _ startCtr len vm hn] at h
  | shareKeystreamBlock keySet explicitNonce ctr vm =>
    by_cases hk : keySet ∧ explicitNonce.length = C.nonceLen
    · obtain ⟨rfl, hn⟩ := hk
      refine ⟨?_, fun r h => ?_⟩
      · simp [apply, shareKeystreamBlock, compute_ofPool C overflowChecks name p ctr _ vm hn,
          Call.toOp, hn, stepOpt]
      · simp only [Call.toOp, hn, and_self, if_true, stepOpt]
        exact hblocks (compute_ofPool_calls C overflowChecks name p) h
    · -- the key is not set, or the nonce is rejected: nothing changes
      have hnone : (Call.shareKeystreamBlock keySet explicitNonce ctr vm).toOp C = none := by
        simp [Call.toOp, hk]
      have happly : apply C overflowChecks (ofPool name p)
          (.shareKeystreamBlock keySet explicitNonce ctr vm) =
          (.err (if keySet then .explicitNonceLen C explicitNonce.length else .keyNotSet) >>=
            fun c => pure (some c), ofPool name p) := by
        cases keySet with
        | false => rfl
        | true =>
          have hn : explicitNonce.length ≠ C.nonceLen := fun hn => hk ⟨rfl, hn⟩
          simp [apply, shareKeystreamBlock, compute_of_ne C overflowChecks _ ctr _ vm hn]
      rw [happly, hnone]
      exact ⟨rfl, fun r h => by cases h⟩

/-- A sequence of calls from a pool state ends in the state of the pool after their operations. -/
theorem final_ofPool (name : String) (p : FreshPool.State) (calls : List Call) :
    final C overflowChecks (ofPool name p) calls =
      ofPool name (FreshPool.final p (calls.filterMap (Call.toOp C))) := by
  induction calls generalizing p with
  | nil => rfl
  | cons c calls ih =>
    show final C overflowChecks (apply C overflowChecks (ofPool name p) c).2 calls = _
    rw [(apply_refines C overflowChecks name p c).1, ih]
    cases hop : c.toOp C <;> simp [hop, stepOpt]

/-- The names a sequence of calls has the pool hand out, split at the first call. -/
theorem values_filterMap_cons (p : FreshPool.State) (c : Call) (calls : List Call) :
    FreshPool.values p ((c :: calls).filterMap (Call.toOp C)) =
      (stepOpt p (c.toOp C)).1 ++
        FreshPool.values (stepOpt p (c.toOp C)).2 (calls.filterMap (Call.toOp C)) := by
  cases hop : c.toOp C <;> simp [hop, stepOpt]

/-- The blocks of the keystreams a run computes are among the names the pool hands out, in
order: a compute that fails after taking its blocks uses them up all the same. -/
theorem computedBlocks_sublist (name : String) (p : FreshPool.State) (calls : List Call) :
    (computedBlocks C overflowChecks (ofPool name p) calls).Sublist
      ((FreshPool.values p (calls.filterMap (Call.toOp C))).map fun i => .block ⟨name, i⟩) := by
  induction calls generalizing p with
  | nil => exact List.Sublist.slnil
  | cons c calls ih =>
    obtain ⟨hstate, hcalls⟩ := apply_refines C overflowChecks name p c
    have hrest := ih (stepOpt p (c.toOp C)).2
    rw [values_filterMap_cons, List.map_append]
    unfold computedBlocks computed
    split
    · -- a keystream computed: its blocks are the ones the pool handed out for the call
      rename_i r hr
      rw [List.flatMap_cons, hcalls r hr]
      rw [hstate]
      exact List.Sublist.append (List.Sublist.refl _) hrest
    · rw [hstate]
      exact List.Sublist.trans hrest (List.sublist_append_right _ _)
    · rw [hstate]
      exact List.Sublist.trans hrest (List.sublist_append_right _ _)
    · exact List.nil_sublist _

/-- **No block twice.** Over any sequence of calls on a new keystream, the blocks of the
keystreams computed are pairwise distinct. -/
theorem computedBlocks_nodup (name : String) (calls : List Call) :
    (computedBlocks C overflowChecks (new name) calls).Nodup := by
  rw [new_eq_ofPool]
  refine List.Nodup.sublist (computedBlocks_sublist C overflowChecks name _ calls) ?_
  exact (FreshPool.values_nodup _).map fun i j h => by cases h; rfl

end KeyStream

namespace KeyStream

theorem keystream_blocks_never_reused (C : CtrCircuit) (overflowChecks : Bool) (name : String)
    (calls : List Call) :
    (computedBlocks C overflowChecks (new name) calls).Nodup ∧
    ∃ p : FreshPool.State, final C overflowChecks (new name) calls = ofPool name p ∧
      ∀ (explicitNonce : Bytes) (startCtr len : ℕ) (vm : Except StreamCipherError Unit),
        (explicitNonce.length ≠ C.nonceLen →
          compute C overflowChecks (ofPool name p) explicitNonce startCtr len vm =
            (.err (.explicitNonceLen C explicitNonce.length), ofPool name p)) ∧
        (explicitNonce.length = C.nonceLen →
          overflowChecks = false ∨ startCtr + blockCount C len ≤ 2 ^ 64 →
          let m := min (blockCount C len) p.queue.length
          let ns := p.queue.take m ++ List.range' p.next (blockCount C len - m)
          let vars := ns.map fun i =>
            (ValueRef.block ⟨name, i⟩, ValueRef.nonce ⟨name, i⟩, ValueRef.ctr ⟨name, i⟩)
          ns.length = (len + C.blockLen - 1) / C.blockLen ∧
          compute C overflowChecks (ofPool name p) explicitNonce startCtr len vm =
            (Outcome.ofExcept id vm >>= fun _ => pure
              ⟨vars, ctrAssignments explicitNonce startCtr 0 vars,
                ((vars.map (·.1)).flatMap fun b => (List.range C.blockLen).map (b, ·)).take len⟩,
              ofPool name ⟨p.next + (blockCount C len - m), p.queue.drop m⟩)) := by
  refine ⟨computedBlocks_nodup C overflowChecks name calls, _, by
    rw [new_eq_ofPool, final_ofPool], fun explicitNonce startCtr len vm =>
      ⟨compute_of_ne C overflowChecks _ startCtr len vm, fun hn hov => ?_⟩⟩
  set p := FreshPool.final FreshPool.State.init (calls.filterMap (Call.toOp C))
  intro m ns vars
  -- the blocks are those of a take of the pool, one circuit for each
  have hns : (FreshPool.step p (.take (blockCount C len))).1 = ns := rfl
  have hlen : ns.length = blockCount C len := by
    rw [← hns]
    exact FreshPool.take_length p _
  have hiter : (BlockVars.ofIds name ns).iter = vars := BlockVars.iter_ofIds name ns
  have hassign : assignVars overflowChecks explicitNonce startCtr 0 vars =
      .ok (ctrAssignments explicitNonce startCtr 0 vars) :=
    assignVars_eq explicitNonce startCtr 0 vars (by simpa [vars, hlen] using hov)
  refine ⟨hlen.trans (blockCount_eq C len), ?_⟩
  have hflat : (BlockVars.ofIds name ns).flatten C len =
      ((vars.map (·.1)).flatMap fun b => (List.range C.blockLen).map (b, ·)).take len := by
    simp only [BlockVars.flatten, BlockVars.ofIds, vars, List.map_map]
    rfl
  rw [compute_ofPool C overflowChecks name p startCtr len vm hn]
  dsimp only
  rw [hns, hiter, hassign, Outcome.ok_bind, hflat]
  rfl

/-- In a build with overflow checks, a counter past `usize::MAX` panics: the second block of a
text computed from counter `usize::MAX`. -/
theorem compute_counter_overflow_panics :
    (compute aes128Ctr true (new "keystream") (List.replicate 8 0) (2 ^ 64 - 1) 32 (.ok ())).1 =
      .panic := by
  decide

end KeyStream

end Tlsn.StreamCipher
