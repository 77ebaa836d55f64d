import Tlsn.UniversalHash.Ghash
import Tlsn.Lib.Interaction
import Tlsn.Lib.Codec
import Mathlib

/-!
# The GHASH of each party (`universal-hash/src/ghash/ghash_inner`)

`Ghash` is what each party of MPC AES-GCM hashes with: a state (`Init`, `Ready` with a finalized
`GhashCore`, or `Error`), a configuration, and a share converter through which the two parties
convert shares together (`ShareConvert`). Its methods are those of `UniversalHash`:

* `set_key` takes the party's additive share of the key, converts it into a multiplicative share
  (one A2M conversion), sets up a core for `initial_block_count` blocks and converts its odd powers
  into additive shares (M2A conversions); on an error the state is kept;
* `setup` and `preprocess` only ask the converter to allocate and to preprocess;
* `finalize` pads the input with zeros to whole blocks and returns the party's share of its GHASH,
  after growing the core when the input has more blocks than the core provides for. The state is
  `Error` from the moment the input's length is accepted until the share is computed, and stays
  `Error` when the key was not set or a conversion failed.

Each method is a program that asks the converter (`Interaction.Prog`). One party is run against
any converter (`runCalls`); the two parties, which make the same calls, are run in lockstep against
a converter that answers their calls together (`convJoint`, `jointRun`).

The bytes of a block are big-endian (`blockOfBytes`, `blockToBytes`); the reading of blocks and of
the key as field elements, with its bit reflection, is a parameter (`ByteCodec`). GHASH of a byte
string is stated by its definition, on the string padded with zeros to whole blocks
(`ghashPadded`), apart from the code's padding (`resize`, `chunks_exact`), which is shown to agree
with it (`paddedBlocks_eq`).
-/

namespace Tlsn.UniversalHash

open Interaction Interaction.Prog Codec Sharing Tlsn.Ghash

/-! ### Blocks as bytes, and GHASH of a byte string -/

/-- `Block::from([u8; 16])`: sixteen bytes, the first the most significant. -/
def blockOfBytes (b : Bytes) : Block :=
  BitVec.ofNat 128 (b.foldl (fun acc x => 256 * acc + x.toNat) 0)

/-- `Block::to_bytes`: the sixteen bytes of a block, the most significant first. -/
def blockToBytes (x : Block) : Bytes :=
  (List.range 16).map fun i => UInt8.ofBitVec (x.extractLsb' (8 * (15 - i)) 8)

/-- The XOR of two byte strings, byte by byte. -/
def xorBytes (a b : Bytes) : Bytes := List.zipWith (· ^^^ ·) a b

@[simp] theorem length_blockToBytes (x : Block) : (blockToBytes x).length = 16 := by
  simp [blockToBytes]

/-- The bytes of the XOR of two blocks are the XOR of their bytes. -/
theorem blockToBytes_xor (x y : Block) :
    blockToBytes (x ^^^ y) = xorBytes (blockToBytes x) (blockToBytes y) := by
  simp only [blockToBytes, xorBytes, List.zipWith_map, List.zipWith_self, BitVec.extractLsb'_xor,
    UInt8.ofBitVec_xor]

/-- `Vec::resize(len, value)`: cut to `len` elements, or extended with `value` to `len`. -/
def resize {α : Type} (v : List α) (len : ℕ) (value : α) : List α :=
  v.take len ++ List.replicate (len - v.length) value

/-- `slice::chunks_exact(size)`: the consecutive pieces of `size` elements; a shorter remainder is
left out. -/
def chunksExact {α : Type} (size : ℕ) (xs : List α) : List (List α) :=
  (List.range (xs.length / size)).map fun i => (xs.drop (i * size)).take size

/-- The number of blocks of an input: its length divided by the block length, rounded up. -/
def blockCount (input : Bytes) : ℕ := input.length / 16 + if input.length % 16 ≠ 0 then 1 else 0

theorem blockCount_eq (input : Bytes) : blockCount input = (input.length + 15) / 16 := by
  unfold blockCount
  split_ifs <;> omega

/-- The blocks of a byte string as GHASH reads it: its `i`-th sixteen bytes, the last completed
with zeros. -/
def specBlocks (input : Bytes) : List Block :=
  (List.range ((input.length + 15) / 16)).map fun i =>
    blockOfBytes ((input.drop (16 * i) ++ List.replicate 16 0).take 16)

/-- GHASH of a byte string padded with zeros to whole blocks (`update_padded`), as bytes. -/
def ghashPadded {F : Type} [CommRing F] (codec : BlockCodec F) (H : F) (input : Bytes) : Bytes :=
  blockToBytes (ghash codec H (specBlocks input))

/-- The blocks `finalize` hashes: the input resized to whole blocks, cut into sixteen bytes. -/
def paddedBlocks (input : Bytes) : List Block :=
  (chunksExact 16 (resize input (blockCount input * 16) 0)).map blockOfBytes

theorem resize_of_le {α : Type} {v : List α} {len : ℕ} (h : v.length ≤ len) (value : α) :
    resize v len value = v ++ List.replicate (len - v.length) value := by
  rw [resize, List.take_of_length_le h]

/-- The code's padding gives the blocks of GHASH's definition. -/
theorem paddedBlocks_eq (input : Bytes) : paddedBlocks input = specBlocks input := by
  have hbc := blockCount_eq input
  have hle : input.length ≤ blockCount input * 16 := by omega
  have hlen : (resize input (blockCount input * 16) 0).length = blockCount input * 16 := by
    rw [resize_of_le hle, List.length_append, List.length_replicate]
    omega
  unfold paddedBlocks chunksExact specBlocks
  rw [hlen, Nat.mul_div_cancel _ (by norm_num), resize_of_le hle, hbc, List.map_map]
  apply List.map_congr_left
  intro i hi
  have hi : i < (input.length + 15) / 16 := List.mem_range.1 hi
  simp only [Function.comp_apply, Nat.mul_comm i 16]
  congr 1
  -- both are the input's bytes from `16 i` on, with zeros past its end
  apply List.ext_getElem
  · simp only [List.length_take, List.length_drop, List.length_append, List.length_replicate]
    omega
  · intro j h₁ h₂
    simp only [List.getElem_take, List.getElem_drop, List.getElem_append, List.getElem_replicate,
      List.length_drop]
    split_ifs <;> first | rfl | omega

@[simp] theorem length_paddedBlocks (input : Bytes) :
    (paddedBlocks input).length = blockCount input := by
  rw [paddedBlocks_eq, specBlocks, List.length_map, List.length_range, blockCount_eq]

/-- The `n` big-endian digits of `N` in base 256, read back: `N` below `256 ^ n`. -/
theorem foldl_range_digits (n : ℕ) : ∀ N : ℕ,
    (List.range n).foldl (fun acc i => 256 * acc + N / 256 ^ (n - 1 - i) % 256) 0 =
      N % 256 ^ n := by
  induction n with
  | zero => intro N; simp [Nat.mod_one]
  | succ n ih =>
    intro N
    -- the first `n` digits of `N` are those of `N / 256`
    have hdigits : ∀ acc, ∀ i ∈ List.range n, 256 * acc + N / 256 ^ (n + 1 - 1 - i) % 256 =
        256 * acc + N / 256 / 256 ^ (n - 1 - i) % 256 := by
      intro acc i hi
      have hi : n + 1 - 1 - i = n - 1 - i + 1 := by
        have := List.mem_range.1 hi
        omega
      rw [Nat.div_div_eq_div_mul, ← pow_succ', hi]
    rw [List.range_succ, List.foldl_append, List.foldl_ext _ _ _ hdigits, ih, List.foldl_cons,
      List.foldl_nil, pow_succ', Nat.mod_mul, Nat.add_sub_cancel, Nat.sub_self, pow_zero,
      Nat.div_one]
    ring

/-- A block read back from its bytes. -/
@[simp] theorem blockOfBytes_blockToBytes (x : Block) : blockOfBytes (blockToBytes x) = x := by
  apply BitVec.eq_of_toNat_eq
  have hbyte : ∀ i, (UInt8.ofBitVec (x.extractLsb' (8 * (15 - i)) 8)).toNat =
      x.toNat / 256 ^ (16 - 1 - i) % 256 := by
    intro i
    rw [UInt8.toNat_ofBitVec, BitVec.extractLsb'_toNat, Nat.shiftRight_eq_div_pow, pow_mul]
    rfl
  simp only [blockOfBytes, blockToBytes, List.foldl_map, hbyte, foldl_range_digits,
    BitVec.toNat_ofNat]
  have := x.isLt
  omega

/-- The `i`-th block GHASH reads from a byte string is its bytes `16 i, …, 16 i + 15`, zeros past
its end. -/
theorem specBlocks_eq_getD (input : Bytes) :
    specBlocks input = (List.range ((input.length + 15) / 16)).map fun i =>
      blockOfBytes ((List.range 16).map fun j => input.getD (16 * i + j) 0) := by
  unfold specBlocks
  apply List.map_congr_left
  intro i _
  congr 1
  apply List.ext_getElem
  · simp
  · intro j h₁ h₂
    have hj : j < 16 := by simpa using h₂
    simp only [List.getElem_take, List.getElem_append, List.getElem_drop, List.getElem_replicate,
      List.length_drop, List.getElem_map, List.getElem_range, List.getD_eq_getElem?_getD]
    split_ifs with h
    · rw [List.getElem?_eq_getElem (by omega)]
      rfl
    · rw [List.getElem?_eq_none (by omega)]
      rfl

/-- Blocks of a string of whole blocks, followed by another: the blocks of each. -/
theorem specBlocks_append {a : Bytes} (ha : a.length % 16 = 0) (b : Bytes) :
    specBlocks (a ++ b) = specBlocks a ++ specBlocks b := by
  have hcount : ((a ++ b).length + 15) / 16 = (a.length + 15) / 16 + (b.length + 15) / 16 := by
    simp only [List.length_append]
    omega
  rw [specBlocks_eq_getD, specBlocks_eq_getD, specBlocks_eq_getD, hcount, List.range_add,
    List.map_append, List.map_map]
  congr 1
  · -- the first blocks lie within `a`
    apply List.map_congr_left
    intro i hi
    have hi : i < (a.length + 15) / 16 := List.mem_range.1 hi
    congr 1
    apply List.map_congr_left
    intro j hj
    have hj : j < 16 := List.mem_range.1 hj
    exact List.getD_append _ _ _ _ (by omega)
  · -- the last ones within `b`
    apply List.map_congr_left
    intro i _
    simp only [Function.comp_apply]
    congr 1
    apply List.map_congr_left
    intro j _
    rw [List.getD_append_right _ _ _ _ (by omega)]
    congr 1
    omega

/-- `Vec::resize` to whole blocks with zeros leaves the blocks GHASH reads as they were. -/
theorem specBlocks_resize (input : Bytes) :
    specBlocks (resize input (blockCount input * 16) 0) = specBlocks input := by
  have hbc := blockCount_eq input
  have hle : input.length ≤ blockCount input * 16 := by omega
  rw [specBlocks_eq_getD, specBlocks_eq_getD, resize_of_le hle]
  have hcount : ((input ++ List.replicate (blockCount input * 16 - input.length) (0 : UInt8)).length
      + 15) / 16 = (input.length + 15) / 16 := by
    simp only [List.length_append, List.length_replicate]
    omega
  rw [hcount]
  apply List.map_congr_left
  intro i _
  congr 1
  apply List.map_congr_left
  intro j _
  -- past the input, both read zeros
  by_cases h : 16 * i + j < input.length
  · exact List.getD_append _ _ _ _ h
  · have hout : input.getD (16 * i + j) 0 = 0 := by
      rw [List.getD_eq_getElem?_getD, List.getElem?_eq_none (by omega)]
      rfl
    rw [List.getD_append_right _ _ _ _ (by omega), hout, List.getD_eq_getElem?_getD,
      List.getElem?_replicate]
    split_ifs <;> rfl

/-- The bytes of a block are read back as the block. -/
theorem specBlocks_blockToBytes (x : Block) : specBlocks (blockToBytes x) = [x] := by
  rw [specBlocks_eq_getD, length_blockToBytes]
  have hbytes : ((List.range 16).map fun j => (blockToBytes x).getD (16 * 0 + j) 0) =
      blockToBytes x := by
    apply List.ext_getElem (by simp)
    intro j h₁ h₂
    simp [List.getD_eq_getElem?_getD, List.getElem?_eq_getElem h₂]
  simp only [Nat.reduceAdd, Nat.reduceDiv, List.range_one, List.map_cons, List.map_nil, hbytes,
    blockOfBytes_blockToBytes]

/-! ### The party's hasher -/

/-- The conversions of a party's hasher: those of `GhashCore::finalize` between blocks and field
elements, and that of the key, `Gf2_128::new(u128::from_be_bytes(key).reverse_bits())`. -/
structure ByteCodec (F : Type) extends BlockCodec F where
  ofKey : Bytes → F

/-- `ShareConversionError` (`mpz_share_conversion`), by its message. -/
structure ShareConversionError where
  msg : String
  deriving DecidableEq, Repr

/-- The calls of a party on its share converter (`ShareConvert`, `alloc`, `Preprocess`). -/
inductive ConvCall (F : Type) where
  | toMultiplicative (inputs : List F)
  | toAdditive (inputs : List F)
  | alloc (count : ℕ)
  | preprocess

/-- An answer of the converter: the converted shares, or its error; `alloc` and `preprocess`
return no value, and are answered with `[]`. -/
abbrev ConvAnswer (F : Type) := Except ShareConversionError (List F)

/-- A program of a party that asks its share converter. -/
abbrev ConvProg (F α : Type) := Prog (ConvCall F) (fun _ => ConvAnswer F) α

/-- `UniversalHashError`. -/
inductive UniversalHashError
  | invalidState (msg : String)
  | keyLengthError (expected actual : ℕ)
  | inputLengthError (len : ℕ)
  | shareConversionError (e : ShareConversionError)
  deriving DecidableEq, Repr

/-- The text of a `UniversalHashError` (its `Display`); a share conversion error shows its own. -/
def UniversalHashError.text : UniversalHashError → String
  | .invalidState msg => "Invalid state: " ++ msg
  | .keyLengthError expected actual =>
    "Invalid key length, expected " ++ toString expected ++ ", got " ++ toString actual
  | .inputLengthError len => "Invalid input length: " ++ toString len
  | .shareConversionError e => e.msg

/-- `GhashConfig`. -/
structure GhashConfig where
  initialBlockCount : ℕ
  maxBlockCount : ℕ
  deriving DecidableEq, Repr

/-- `GhashConfigBuilder`'s defaults. -/
def GhashConfig.default : GhashConfig := ⟨1026, 1026⟩

/-- The OLEs `setup` allocates: one for each M2A conversion of the odd powers up to
`max_block_count`, the even ones coming free by squaring, and one for the A2M conversion of the
key. -/
def GhashConfig.oleCount (config : GhashConfig) : ℕ := config.maxBlockCount / 2 + 1

/-- `State`. -/
inductive State (F : Type) where
  | init
  | ready (core : GhashCore (Finalized F))
  | error

/-- `Ghash`: the state and the configuration; the converter is what the methods ask. -/
structure Ghash (F : Type) where
  state : State F
  config : GhashConfig

namespace Ghash

variable {F : Type} [CommRing F]

/-- `Ghash::new`. -/
def new (config : GhashConfig) : Ghash F := ⟨.init, config⟩

/-- `compute_add_shares`: the odd multiplicative shares without an additive share yet, converted
into additive ones (M2A), and the shares of the even powers computed from them. -/
def computeAddShares (core : GhashCore (Intermediate F)) :
    ConvProg F (Except UniversalHashError (GhashCore (Finalized F))) := do
  match ← query (.toAdditive core.oddMulShares) with
  | .error e => pure (.error (.shareConversionError e))
  | .ok addShares => pure (.ok (core.addNewAddShares addShares))

/-- `Ghash::set_key`: on an error the state is kept. -/
def setKey (codec : ByteCodec F) (g : Ghash F) (key : Bytes) :
    ConvProg F (Except UniversalHashError Unit × Ghash F) :=
  if key.length ≠ 16 then pure (.error (.keyLengthError 16 key.length), g)
  else match g.state with
  | .init => do
    -- GHASH reflects the bits of the key
    let hAdditive := codec.ofKey key
    match ← query (.toMultiplicative [hAdditive]) with
    | .error e => pure (.error (.shareConversionError e), g)
    | .ok hMultiplicative => do
      let core ← ofOption (GhashCore.new g.config.initialBlockCount)
      let h ← ofOption hMultiplicative[0]?
      let core ← ofOption (core.computeOddMulPowers h)
      match ← computeAddShares core with
      | .error e => pure (.error e, g)
      | .ok core => pure (.ok (), { g with state := .ready core })
  | _ => pure (.error (.invalidState "Key already set"), g)

/-- `Ghash::setup`. -/
def setup (g : Ghash F) : ConvProg F (Except UniversalHashError Unit × Ghash F) := do
  let _ ← query (.alloc g.config.oleCount)
  pure (.ok (), g)

/-- `Ghash::preprocess`. -/
def preprocess (g : Ghash F) : ConvProg F (Except UniversalHashError Unit × Ghash F) := do
  match ← query .preprocess with
  | .error e => pure (.error (.shareConversionError e), g)
  | .ok _ => pure (.ok (), g)

/-- The core `finalize` hashes `block_count` blocks with: the same one, or, when it was set up for
fewer blocks, one changed to `block_count` with the new shares computed. -/
def growCore (core : GhashCore (Finalized F)) (blockCount : ℕ) :
    ConvProg F (Except UniversalHashError (GhashCore (Finalized F))) :=
  if blockCount > core.maxBlockCount then do
    let core ← ofOption (core.changeMaxHashkey blockCount)
    computeAddShares core
  else pure (.ok core)

/-- `Ghash::finalize`: the party's share of the GHASH of the input padded with zeros. The state is
taken out (`std::mem::replace`) once the length is accepted, and put back with the share. -/
def finalize (codec : ByteCodec F) (g : Ghash F) (input : Bytes) :
    ConvProg F (Except UniversalHashError Bytes × Ghash F) :=
  if blockCount input > g.config.maxBlockCount then
    pure (.error (.inputLengthError input.length), g)
  else match g.state with
  | .ready core => do
    match ← growCore core (blockCount input) with
    | .error e => pure (.error e, { g with state := .error })
    | .ok core =>
      let blocks := (chunksExact 16 (resize input (blockCount input * 16) 0)).map blockOfBytes
      -- `.expect("Input length should be valid")`
      let tag ← ofOption (core.finalize codec.toBlockCodec blocks).toOption
      pure (.ok (blockToBytes tag), { g with state := .ready core })
  | _ => pure (.error (.invalidState "Key not set"), { g with state := .error })

/-- The methods of `UniversalHash`. -/
inductive Call
  | setKey (key : Bytes)
  | setup
  | preprocess
  | finalize (input : Bytes)

/-- What a method returns: nothing (`()`), a share of a hash, or an error. -/
abbrev Reply := Except UniversalHashError (Option Bytes)

/-- A method called on the party's hasher: its reply and the hasher after it. -/
def call (codec : ByteCodec F) (g : Ghash F) : Call → ConvProg F (Reply × Ghash F)
  | .setKey key => (fun x => (x.1.map fun _ => none, x.2)) <$> g.setKey codec key
  | .setup => (fun x => (x.1.map fun _ => none, x.2)) <$> g.setup
  | .preprocess => (fun x => (x.1.map fun _ => none, x.2)) <$> g.preprocess
  | .finalize input => (fun x => (x.1.map some, x.2)) <$> g.finalize codec input

/-- One party's run of calls against a converter with a state: the replies, the hasher and the
converter's state at the end, or `none` on a panic. -/
def runCalls {σ : Type} (codec : ByteCodec F) (service : σ → ConvCall F → ConvAnswer F × σ) :
    σ → Ghash F → List Call → Option (List Reply × Ghash F × σ)
  | s, g, [] => some ([], g, s)
  | s, g, c :: cs =>
    match run service s (g.call codec c) with
    | some ((r, g'), s') => (runCalls codec service s' g' cs).map fun x => (r :: x.1, x.2)
    | none => none

end Ghash

/-! ### One party against any converter -/

section Party

variable {F : Type} [CommRing F]

/-- What a party relies on from its converter, whatever else it answers: an A2M conversion gives
at least one value, and an M2A conversion as many values as it was given. -/
def ConvCall.Answers : ConvCall F → ConvAnswer F → Prop
  | .toMultiplicative _, .ok r => r ≠ []
  | .toAdditive x, .ok r => r.length = x.length
  | _, _ => True

theorem length_computeNewAddSharesFrom (a : List F) :
    ∀ (p : ℕ) (c : List F), (computeNewAddSharesFrom a p c).length = c.length + 2 * a.length := by
  induction a with
  | nil => exact fun p c => rfl
  | cons x a ih =>
    intro p c
    simp only [computeNewAddSharesFrom, ih, List.length_append, List.length_cons,
      List.length_nil]
    omega

/-- A core between conversions that no call makes panic: the odd powers `h, h³, …` of the share
for `k' > 0` of them, additive shares of the first `2k` powers for `k ≤ k'`, and a maximal length
within `2k'`. -/
def IntermediateSafe (core : GhashCore (Intermediate F)) : Prop :=
  ∃ h k k', 0 < k' ∧ k ≤ k' ∧ core.state.oddMulShares = geom h (h * h) k' ∧
    core.state.cachedAddShares.length = 2 * k ∧ core.maxBlockCount ≤ 2 * k'

/-- A state that no call makes panic: a ready core holds the odd powers `h, h³, …` of the share
for `k > 0` of them, additive shares of the first `2k` powers, and a maximal length within `2k`. -/
def State.Safe : State F → Prop
  | .ready core => ∃ h k, 0 < k ∧ core.state.oddMulShares = geom h (h * h) k ∧
      core.state.addShares.length = 2 * k ∧ core.maxBlockCount ≤ 2 * k
  | _ => True

/-- A hasher that no call makes panic: a positive first length, and a safe state. -/
def Ghash.Safe (g : Ghash F) : Prop := 0 < g.config.initialBlockCount ∧ g.state.Safe

/-- An M2A conversion of the new odd shares, of any values of the right length, completes the
core for the odd powers it holds. -/
theorem computeAddShares_spec {core : GhashCore (Intermediate F)} (hcore : IntermediateSafe core) :
    (Ghash.computeAddShares core).Spec ConvCall.Answers fun r =>
      ∀ c, r = .ok c → State.Safe (.ready c) ∧ c.maxBlockCount = core.maxBlockCount := by
  obtain ⟨h, k, k', hk', hle, hodd, hcached, hmax⟩ := hcore
  unfold Ghash.computeAddShares
  rw [query_bind]
  rintro (e | a) ha
  · exact fun c hc => nomatch hc
  · -- the converter answered one share for each odd power from `h^(2k+1)` on
    have ha : a.length = core.oddMulShares.length := ha
    have hlen : a.length = k' - k := by
      rw [ha, GhashCore.oddMulShares, hodd, hcached, List.length_drop, length_geom,
        Nat.mul_div_cancel_left k two_pos]
    rintro c ⟨⟩
    refine ⟨⟨h, k', hk', hodd, ?_, hmax⟩, rfl⟩
    simp only [GhashCore.addNewAddShares, computeNewAddShares, length_computeNewAddSharesFrom,
      hcached, hlen]
    omega

/-- Growing a safe core never panics, and gives a safe core of at least `n` blocks. -/
theorem growCore_spec {core : GhashCore (Finalized F)} (hcore : State.Safe (.ready core))
    (n : ℕ) :
    (Ghash.growCore core n).Spec ConvCall.Answers fun r =>
      ∀ c, r = .ok c → State.Safe (.ready c) ∧ n ≤ c.maxBlockCount := by
  obtain ⟨h, k, hk, hodd, hadd, hmax⟩ := hcore
  unfold Ghash.growCore
  split_ifs with hn
  · -- past its length, the core's odd powers are extended up to the `n`-th
    rw [GhashCore.changeMaxHashkey_geom hk hodd n, ofOption_some, ret_bind]
    refine (computeAddShares_spec ⟨h, k, max k (n / 2 + n % 2), lt_max_of_lt_left hk,
      le_max_left _ _, rfl, hadd, by dsimp only; omega⟩).mono ?_
    intro r hr c hc
    obtain ⟨hsafe, hcmax⟩ := hr c hc
    exact ⟨hsafe, hcmax.ge⟩
  · rintro c ⟨⟩
    exact ⟨⟨h, k, hk, hodd, hadd, hmax⟩, Nat.le_of_not_lt hn⟩

theorem GhashCore.new_of_pos {n : ℕ} (h : 0 < n) : GhashCore.new n = some ⟨⟨⟩, n⟩ := if_pos h

/-- `set_key` on a safe hasher never panics and leaves it safe. -/
theorem setKey_spec (codec : ByteCodec F) {g : Ghash F} (hg : g.Safe) (key : Bytes) :
    (g.setKey codec key).Spec ConvCall.Answers fun x => x.2.Safe := by
  obtain ⟨hinit, hstate⟩ := hg
  unfold Ghash.setKey
  split_ifs
  · exact ⟨hinit, hstate⟩
  · split
    · rw [query_bind]
      rintro (e | hm) hhm
      · exact ⟨hinit, hstate⟩
      · -- the A2M conversion gave at least one value, the party's multiplicative share
        obtain ⟨h, t, rfl⟩ := List.exists_cons_of_ne_nil hhm
        simp only [GhashCore.new_of_pos hinit, ofOption_some, ret_bind, List.getElem?_cons_zero,
          GhashCore.computeOddMulPowers_eq ⟨⟨⟩, g.config.initialBlockCount⟩ hinit h]
        refine (computeAddShares_spec ⟨h, 0, _, by omega, Nat.zero_le _, rfl, rfl,
          by dsimp only; omega⟩).bind ?_
        rintro (e | c) hc
        · exact ⟨hinit, hstate⟩
        · exact ⟨hinit, (hc c rfl).1⟩
    · exact ⟨hinit, hstate⟩

/-- `finalize` on a safe hasher never panics, its `expect` included, and leaves it safe. -/
theorem finalize_spec (codec : ByteCodec F) {g : Ghash F} (hg : g.Safe) (input : Bytes) :
    (g.finalize codec input).Spec ConvCall.Answers fun x => x.2.Safe := by
  obtain ⟨hinit, hstate⟩ := hg
  unfold Ghash.finalize
  split_ifs
  · exact ⟨hinit, hstate⟩
  · split
    · next core hready =>
      rw [hready] at hstate
      refine (growCore_spec hstate (blockCount input)).bind ?_
      rintro (e | c) hc
      · exact ⟨hinit, trivial⟩
      · obtain ⟨hsafe, hn⟩ := hc c rfl
        -- the grown core is set up for the input's blocks, so its `finalize` succeeds
        have hlen : (paddedBlocks input).length ≤ c.maxBlockCount := by
          rw [length_paddedBlocks]
          exact hn
        have hfin := GhashCore.finalize_eq codec.toBlockCodec hlen
        simp only [paddedBlocks] at hfin
        simp only [hfin, Except.toOption, ofOption_some, ret_bind]
        exact ⟨hinit, hsafe⟩
    · exact ⟨hinit, trivial⟩

/-- Every method on a safe hasher never panics and leaves it safe. -/
theorem call_spec (codec : ByteCodec F) {g : Ghash F} (hg : g.Safe) (c : Ghash.Call) :
    (g.call codec c).Spec ConvCall.Answers fun x => x.2.Safe := by
  cases c with
  | setKey key => exact (setKey_spec codec hg key).map fun _ h => h
  | setup =>
    refine Spec.map ?_ fun _ h => h
    unfold Ghash.setup
    rw [query_bind]
    exact fun _ _ => hg
  | preprocess =>
    refine Spec.map ?_ fun _ h => h
    unfold Ghash.preprocess
    rw [query_bind]
    rintro (e | a) -
    · exact hg
    · exact hg
  | finalize input => exact (finalize_spec codec hg input).map fun _ h => h

/-- **Runs of a safe hasher.** Against a converter that answers every call as `Answers` says, any
sequence of calls runs to its end without a panic, and the hasher stays safe. -/
theorem Safe.runCalls (codec : ByteCodec F) {σ : Type} {service : σ → ConvCall F → ConvAnswer F × σ}
    (hservice : ∀ s q, ConvCall.Answers q (service s q).1) (calls : List Ghash.Call) :
    ∀ {g : Ghash F} (s : σ), g.Safe →
      ∃ replies g' s', Ghash.runCalls codec service s g calls = some (replies, g', s') ∧ g'.Safe := by
  induction calls with
  | nil => exact fun {g} s hg => ⟨[], g, s, rfl, hg⟩
  | cons c cs ih =>
    intro g s hg
    obtain ⟨⟨r, g₁⟩, s₁, hrun, hg₁⟩ := (call_spec codec hg c).run hservice s
    obtain ⟨replies, g', s', hrest, hg'⟩ := ih s₁ hg₁
    refine ⟨r :: replies, g', s', ?_, hg'⟩
    simp only [Ghash.runCalls, hrun, hrest, Option.map_some]

/-- A party's hasher never panics, whatever its converter and the other party do, as long as the
converter answers an A2M conversion with at least one value and an M2A conversion with as many
values as it was given: over any sequence of calls on a new hasher with a positive
`initial_block_count`, neither `set_key` (`h_multiplicative[0]`, `GhashCore::new`) nor `finalize`
(`compute_missing_mul_shares`, `expect`) panics, and every ready core holds at least as many
additive shares as its maximal length, so that `add_shares.len() - message.len()` in
`GhashCore::finalize` never underflows. -/
theorem ghash_party_never_panics (codec : ByteCodec F) {σ : Type}
    {service : σ → ConvCall F → ConvAnswer F × σ}
    (hservice : ∀ s q, ConvCall.Answers q (service s q).1) {config : GhashConfig}
    (hinit : 0 < config.initialBlockCount) (calls : List Ghash.Call) (s : σ) :
    ∃ replies g s', Ghash.runCalls codec service s (Ghash.new config) calls = some (replies, g, s') ∧
      ∀ core, g.state = .ready core → core.maxBlockCount ≤ core.state.addShares.length := by
  obtain ⟨replies, g, s', hrun, -, hsafe⟩ := Safe.runCalls codec hservice calls s
    (show (Ghash.new config : Ghash F).Safe from ⟨hinit, trivial⟩)
  refine ⟨replies, g, s', hrun, fun core hcore => ?_⟩
  rw [hcore] at hsafe
  obtain ⟨h, k, -, -, hadd, hmax⟩ := hsafe
  omega

/-- The reply of a party to `set_key` once its state is no longer `Init`. -/
def keySetError (key : Bytes) : UniversalHashError :=
  if key.length ≠ 16 then .keyLengthError 16 key.length else .invalidState "Key already set"

/-- The replies of a party whose hasher is in the `Error` state: `set_key` and `finalize` fail,
`setup` succeeds, and `preprocess` succeeds or fails as the converter does. -/
def ErrorReply (config : GhashConfig) : Ghash.Call → Ghash.Reply → Prop
  | .setKey key, r => r = .error (keySetError key)
  | .setup, r => r = .ok none
  | .preprocess, r => r = .ok none ∨ ∃ e, r = .error (.shareConversionError e)
  | .finalize input, r =>
    r = .error (if config.maxBlockCount < blockCount input then .inputLengthError input.length
      else .invalidState "Key not set")

/-- One call in the `Error` state: the hasher stays in it, with the reply `ErrorReply` says. -/
theorem run_call_error (codec : ByteCodec F) {σ : Type}
    (service : σ → ConvCall F → ConvAnswer F × σ) (s : σ) (config : GhashConfig)
    (c : Ghash.Call) :
    ∃ r s', run service s ((⟨.error, config⟩ : Ghash F).call codec c) =
      some ((r, ⟨.error, config⟩), s') ∧ ErrorReply config c r := by
  cases c with
  | setKey key =>
    refine ⟨_, s, ?_, rfl⟩
    by_cases h : key.length = 16
    · simp only [Ghash.call, Ghash.setKey, keySetError, h, ne_eq, not_true_eq_false, if_false]
      rfl
    · simp only [Ghash.call, Ghash.setKey, keySetError, h, ne_eq, not_false_eq_true, if_true]
      rfl
  | setup => exact ⟨_, _, rfl, rfl⟩
  | preprocess =>
    simp only [Ghash.call, Ghash.preprocess, query_bind, run_map]
    -- the reply is the converter's: `preprocess` is the one call the `Error` state still makes
    cases h : (service s .preprocess).1 with
    | error e =>
      refine ⟨_, (service s .preprocess).2, ?_, .inr ⟨e, rfl⟩⟩
      simp only [run, h, pure_eq, Option.map_some]
      rfl
    | ok a =>
      refine ⟨_, (service s .preprocess).2, ?_, .inl rfl⟩
      simp only [run, h, pure_eq, Option.map_some]
      rfl
  | finalize input =>
    refine ⟨_, s, ?_, rfl⟩
    by_cases h : config.maxBlockCount < blockCount input
    · simp only [Ghash.call, Ghash.finalize, gt_iff_lt, h, if_true]
      rfl
    · simp only [Ghash.call, Ghash.finalize, gt_iff_lt, h, if_false]
      rfl

/-- **The `Error` state is absorbing.** Whatever the converter answers, every sequence of calls
keeps the hasher in `Error`, with the replies `ErrorReply` says. -/
theorem runCalls_error (codec : ByteCodec F) {σ : Type}
    (service : σ → ConvCall F → ConvAnswer F × σ) (config : GhashConfig)
    (calls : List Ghash.Call) :
    ∀ s, ∃ replies s', Ghash.runCalls codec service s ⟨.error, config⟩ calls =
      some (replies, ⟨.error, config⟩, s') ∧ List.Forall₂ (ErrorReply config) calls replies := by
  induction calls with
  | nil => exact fun s => ⟨[], s, rfl, .nil⟩
  | cons c cs ih =>
    intro s
    obtain ⟨r, s₁, hrun, hr⟩ := run_call_error codec service s config c
    obtain ⟨replies, s', hrest, hreplies⟩ := ih s₁
    refine ⟨r :: replies, s', ?_, .cons hr hreplies⟩
    simp only [Ghash.runCalls, hrun, hrest, Option.map_some]

/-- A `finalize` called before `set_key` makes the party's hasher unusable for good: it returns
`InvalidState("Key not set")` and leaves the hasher in the `Error` state, which, whatever the
converter answers, no later call leaves: every later `set_key` fails (with
`InvalidState("Key already set")` for a key of 16 bytes), and so does every later `finalize`. -/
theorem ghash_finalize_before_key_is_fatal (codec : ByteCodec F) {σ : Type}
    (service : σ → ConvCall F → ConvAnswer F × σ) (config : GhashConfig) {input : Bytes}
    (hin : blockCount input ≤ config.maxBlockCount) (calls : List Ghash.Call) (s : σ) :
    ∃ replies s', Ghash.runCalls codec service s (Ghash.new config) (.finalize input :: calls) =
        some (.error (.invalidState "Key not set") :: replies, ⟨.error, config⟩, s') ∧
      List.Forall₂ (ErrorReply config) calls replies := by
  obtain ⟨replies, s', hrun, hreplies⟩ := runCalls_error codec service config calls s
  refine ⟨replies, s', ?_, hreplies⟩
  have hstep : run service s ((Ghash.new config : Ghash F).call codec (.finalize input)) =
      some ((.error (.invalidState "Key not set"), ⟨.error, config⟩), s) := by
    simp only [Ghash.call, Ghash.finalize, Ghash.new, gt_iff_lt, Nat.not_lt.2 hin, if_false]
    rfl
  simp only [Ghash.runCalls, hstep, hrun, Option.map_some]

end Party

/-- Blocks read in `ZMod 2` by their lowest bit, and a key read as a block. -/
def lsbCodec : ByteCodec (ZMod 2) where
  fromBlock b := if b.getLsbD 0 then 1 else 0
  toBlock x := if x = 0 then 0 else 1
  ofKey k := if (blockOfBytes k).getLsbD 0 then 1 else 0

theorem lsbCodec_xorLinear : lsbCodec.XorLinear := by
  unfold BlockCodec.XorLinear
  decide

/-- A converter that answers an A2M conversion with `1` and an M2A conversion with the values it
was given. -/
def echoConverter {F : Type} [One F] : Unit → ConvCall F → ConvAnswer F × Unit
  | _, .toMultiplicative _ => (.ok [1], ())
  | _, .toAdditive x => (.ok x, ())
  | _, _ => (.ok [], ())

/-- The hasher of one party for one block, with its key set and an input of two blocks hashed. -/
theorem ghash_party_never_panics_echo :
    (∀ s q, ConvCall.Answers q ((echoConverter : Unit → ConvCall (ZMod 2) → _) s q).1) ∧
    0 < (⟨1, 2⟩ : GhashConfig).initialBlockCount ∧
    ∃ replies g s', Ghash.runCalls lsbCodec echoConverter () (Ghash.new ⟨1, 2⟩)
        [.setKey (List.replicate 16 0), .finalize (List.replicate 20 7)] = some (replies, g, s') ∧
      ∀ core, g.state = .ready core → core.maxBlockCount ≤ core.state.addShares.length := by
  have hservice : ∀ s q, ConvCall.Answers q ((echoConverter : Unit → ConvCall (ZMod 2) → _) s q).1 := by
    intro s q
    cases q <;> simp [echoConverter, ConvCall.Answers]
  exact ⟨hservice, by decide, ghash_party_never_panics lsbCodec hservice (by decide) _ ()⟩

/-- A hasher of one block whose `finalize` of one byte comes before its key. -/
theorem ghash_finalize_before_key_is_fatal_echo :
    blockCount [7] ≤ (⟨1, 1⟩ : GhashConfig).maxBlockCount ∧
    ∃ replies s', Ghash.runCalls lsbCodec echoConverter () (Ghash.new ⟨1, 1⟩)
        [.finalize [7], .setKey (List.replicate 16 0)] =
        some (.error (.invalidState "Key not set") :: replies, ⟨.error, ⟨1, 1⟩⟩, s') ∧
      List.Forall₂ (ErrorReply ⟨1, 1⟩) [.setKey (List.replicate 16 0)] replies :=
  ⟨by decide, ghash_finalize_before_key_is_fatal lsbCodec echoConverter ⟨1, 1⟩ (by decide) _ ()⟩

/-! ### The two parties in lockstep -/

section Joint

variable {F : Type} [CommRing F]

/-- The share converter of the two parties, answering the calls they make together, with the
count of the values converted (one OLE each): conversions of one kind by `conv`, `alloc` and
`preprocess` with no value. Calls of different kinds never meet in a run of two parties that make
the same calls; they get the run stuck. -/
def convJoint (conv : Converter F) (used : ℕ) :
    ConvCall F → ConvCall F → Option (ConvAnswer F × ConvAnswer F × ℕ)
  | .toMultiplicative x, .toMultiplicative y =>
    some (.ok (conv.toMultiplicative x y).1, .ok (conv.toMultiplicative x y).2, used + x.length)
  | .toAdditive x, .toAdditive y =>
    some (.ok (conv.toAdditive x y).1, .ok (conv.toAdditive x y).2, used + x.length)
  | .alloc _, .alloc _ => some (.ok [], .ok [], used)
  | .preprocess, .preprocess => some (.ok [], .ok [], used)
  | _, _ => none

/-- The calls of the two parties on their hashers, made together: `set_key` with each party's
share of the key, or the same other call. -/
inductive JointCall
  | setKey (keyA keyB : Bytes)
  | setup
  | preprocess
  | finalize (input : Bytes)

/-- The first party's call. -/
def JointCall.left : JointCall → Ghash.Call
  | .setKey keyA _ => .setKey keyA
  | .setup => .setup
  | .preprocess => .preprocess
  | .finalize input => .finalize input

/-- The second party's call. -/
def JointCall.right : JointCall → Ghash.Call
  | .setKey _ keyB => .setKey keyB
  | .setup => .setup
  | .preprocess => .preprocess
  | .finalize input => .finalize input

/-- The two parties' run of calls in lockstep, from their hashers and the count of values
converted: the replies of both to each call, and the hashers and the count at the end; `none` when
the run gets stuck or panics. -/
def jointRun (conv : Converter F) (codec : ByteCodec F) :
    ℕ → Ghash F → Ghash F → List JointCall →
      Option (List (Ghash.Reply × Ghash.Reply) × Ghash F × Ghash F × ℕ)
  | used, gA, gB, [] => some ([], gA, gB, used)
  | used, gA, gB, c :: cs =>
    match lockstep (convJoint conv) used (gA.call codec c.left) (gB.call codec c.right) with
    | some ((rA, gA'), (rB, gB'), used') =>
      (jointRun conv codec used' gA' gB' cs).map fun x => ((rA, rB) :: x.1, x.2)
    | none => none

theorem jointRun_cons {conv : Converter F} {codec : ByteCodec F} {used used' : ℕ}
    {gA gB gA' gB' : Ghash F} {c : JointCall} {rA rB : Ghash.Reply}
    (h : lockstep (convJoint conv) used (gA.call codec c.left) (gB.call codec c.right) =
      some ((rA, gA'), (rB, gB'), used')) (cs : List JointCall) :
    jointRun conv codec used gA gB (c :: cs) =
      (jointRun conv codec used' gA' gB' cs).map fun x => ((rA, rB) :: x.1, x.2) := by
  simp only [jointRun, h]

/-- The replies of both parties to a call once their key `H` is set: `set_key` fails, `setup` and
`preprocess` succeed, and `finalize` returns shares of the GHASH of the input, or, for an input
longer than `max_block_count` blocks, its length as an error. -/
def KeyedReply (codec : BlockCodec F) (H : F) (config : GhashConfig) :
    JointCall → Ghash.Reply × Ghash.Reply → Prop
  | .setKey keyA keyB, r => r = (.error (keySetError keyA), .error (keySetError keyB))
  | .setup, r => r = (.ok none, .ok none)
  | .preprocess, r => r = (.ok none, .ok none)
  | .finalize input, r =>
    if blockCount input ≤ config.maxBlockCount then
      ∃ tA tB, r = (.ok (some tA), .ok (some tB)) ∧ xorBytes tA tB = ghashPadded codec H input
    else r = (.error (.inputLengthError input.length), .error (.inputLengthError input.length))

/-- The most blocks the cores are set up for after the calls, from `M`: the largest accepted
input. -/
def JointCall.maxBlocks (config : GhashConfig) : ℕ → List JointCall → ℕ
  | M, [] => M
  | M, .finalize input :: cs =>
    maxBlocks config
      (if blockCount input ≤ config.maxBlockCount then max M (blockCount input) else M) cs
  | M, _ :: cs => maxBlocks config M cs

theorem maxBlocks_cons (config : GhashConfig) (M : ℕ) (c : JointCall) (cs : List JointCall) :
    JointCall.maxBlocks config M (c :: cs) =
      JointCall.maxBlocks config (JointCall.maxBlocks config M [c]) cs := by
  cases c <;> rfl

theorem le_maxBlocks (config : GhashConfig) (calls : List JointCall) :
    ∀ M, M ≤ JointCall.maxBlocks config M calls := by
  induction calls with
  | nil => exact fun M => le_refl M
  | cons c cs ih =>
    intro M
    rw [maxBlocks_cons]
    refine le_trans ?_ (ih _)
    cases c with
    | finalize input =>
      simp only [JointCall.maxBlocks]
      split_ifs <;> omega
    | _ => exact le_refl _

/-- The cores are never set up for more blocks than the first length and `max_block_count`. -/
theorem maxBlocks_le (config : GhashConfig) (calls : List JointCall) :
    ∀ M, JointCall.maxBlocks config M calls ≤ max M config.maxBlockCount := by
  induction calls with
  | nil => exact fun M => le_max_left M _
  | cons c cs ih =>
    intro M
    rw [maxBlocks_cons]
    refine le_trans (ih _) ?_
    cases c with
    | finalize input =>
      simp only [JointCall.maxBlocks]
      split_ifs <;> omega
    | _ => exact le_refl _

/-- The cores are set up for at least every accepted input. -/
theorem blockCount_le_maxBlocks (config : GhashConfig) {calls : List JointCall} {input : Bytes}
    (hmem : .finalize input ∈ calls) (hin : blockCount input ≤ config.maxBlockCount) :
    ∀ M, blockCount input ≤ JointCall.maxBlocks config M calls := by
  induction calls with
  | nil => cases hmem
  | cons c cs ih =>
    intro M
    rw [maxBlocks_cons]
    rcases List.mem_cons.1 hmem with rfl | hmem
    · refine le_trans ?_ (le_maxBlocks config cs _)
      simp only [JointCall.maxBlocks, if_pos hin]
      exact le_max_right _ _
    · exact ih hmem _

/-- Both parties' hashers once their key is set, between calls: both ready with the same
configuration and cores for `M` blocks, in the state `Shared` of multiplicative shares `h₁`, `h₂`
of the key for the `⌈M/2⌉` odd powers, with `1 + ⌈M/2⌉` values converted so far: the key, and
each odd power once. -/
def Keyed (h₁ h₂ : F) (config : GhashConfig) (gA gB : Ghash F) (M used : ℕ) : Prop :=
  ∃ sA sB, gA = ⟨.ready sA, config⟩ ∧ gB = ⟨.ready sB, config⟩ ∧ sA.maxBlockCount = M ∧
    Shared h₁ h₂ sA sB (M / 2 + M % 2) ∧ used = 1 + (M / 2 + M % 2)

theorem lockstep_computeAddShares (conv : Converter F) (used : ℕ)
    (s r : GhashCore (Intermediate F)) :
    lockstep (convJoint conv) used (Ghash.computeAddShares s) (Ghash.computeAddShares r) =
      some (.ok (s.addNewAddShares (conv.toAdditive s.oddMulShares r.oddMulShares).1),
        .ok (r.addNewAddShares (conv.toAdditive s.oddMulShares r.oddMulShares).2),
        used + s.oddMulShares.length) := rfl

/-- A correct converter's M2A conversion of shares of one length. -/
theorem m2a_toAdditive {conv : Converter F} (hconv : conv.Correct) {x y : List F}
    (hlen : x.length = y.length) :
    M2A x y (conv.toAdditive x y).1 (conv.toAdditive x y).2 :=
  hconv.toAdditive ⟨by simp [hlen], by simp [hlen], rfl⟩

/-- The two parties convert their new odd shares with a correct converter: shares of one length. -/
theorem converting_m2a {conv : Converter F} (hconv : conv.Correct) {h₁ h₂ : F}
    {s r : GhashCore (Intermediate F)} {k k' : ℕ} (hc : Converting h₁ h₂ s r k k') :
    M2A s.oddMulShares r.oddMulShares (conv.toAdditive s.oddMulShares r.oddMulShares).1
      (conv.toAdditive s.oddMulShares r.oddMulShares).2 :=
  m2a_toAdditive hconv (by rw [hc.oddMulShares_left, hc.oddMulShares_right, length_geom, length_geom])

/-- Too long an input is refused by both parties, with their hashers as they were. -/
theorem lockstep_finalize_of_lt (conv : Converter F) (codec : ByteCodec F) {config : GhashConfig}
    (sA sB : State F) {input : Bytes} (hin : config.maxBlockCount < blockCount input) (used : ℕ) :
    lockstep (convJoint conv) used ((⟨sA, config⟩ : Ghash F).finalize codec input)
        ((⟨sB, config⟩ : Ghash F).finalize codec input) =
      some ((.error (.inputLengthError input.length), ⟨sA, config⟩),
        (.error (.inputLengthError input.length), ⟨sB, config⟩), used) := by
  simp only [Ghash.finalize, gt_iff_lt, hin, if_true, pure_eq, lockstep_ret_ret]

/-- Once the key is set, `set_key` fails on both sides without a conversion. -/
theorem Keyed.lockstep_setKey (conv : Converter F) (codec : ByteCodec F) {h₁ h₂ : F}
    {config : GhashConfig} {gA gB : Ghash F} {M used : ℕ} (hk : Keyed h₁ h₂ config gA gB M used)
    (kA kB : Bytes) :
    lockstep (convJoint conv) used (gA.setKey codec kA) (gB.setKey codec kB) =
      some ((.error (keySetError kA), gA), (.error (keySetError kB), gB), used) := by
  obtain ⟨sA, sB, rfl, rfl, -⟩ := hk
  unfold Ghash.setKey keySetError
  split_ifs <;> rfl

omit [CommRing F] in
theorem lockstep_setup (conv : Converter F) (gA gB : Ghash F) (used : ℕ) :
    lockstep (convJoint conv) used gA.setup gB.setup = some ((.ok (), gA), (.ok (), gB), used) :=
  rfl

omit [CommRing F] in
theorem lockstep_preprocess (conv : Converter F) (gA gB : Ghash F) (used : ℕ) :
    lockstep (convJoint conv) used gA.preprocess gB.preprocess =
      some ((.ok (), gA), (.ok (), gB), used) :=
  rfl

variable [CharP F 2]

/-- Setting the two key shares on new hashers: one A2M conversion of the key, then M2A conversions
of its `⌈n₀/2⌉` odd powers, after which both are ready for `initial_block_count` blocks. -/
theorem lockstep_setKey_new {conv : Converter F} (hconv : conv.Correct) (codec : ByteCodec F)
    {config : GhashConfig} (hinit : 0 < config.initialBlockCount) {kA kB : Bytes}
    (hA : kA.length = 16) (hB : kB.length = 16) :
    ∃ h₁ h₂ gA gB used, h₁ * h₂ = codec.ofKey kA + codec.ofKey kB ∧
      lockstep (convJoint conv) 0 ((Ghash.new config).setKey codec kA)
        ((Ghash.new config).setKey codec kB) = some ((.ok (), gA), (.ok (), gB), used) ∧
      Keyed h₁ h₂ config gA gB config.initialBlockCount used := by
  -- the A2M conversion gives one multiplicative share of the key to each party
  obtain ⟨h₁, h₂, xs, ys, hx, hy, hprod, hrest⟩ := (hconv.toMultiplicative
    (AddShares.singleton rfl : AddShares [codec.ofKey kA] [codec.ofKey kB] _)).exists_cons
  obtain ⟨rfl, rfl⟩ := hrest.eq_nil
  -- each party's core holds the odd powers of its share, and no additive share yet
  set k := config.initialBlockCount / 2 + config.initialBlockCount % 2
  set s : GhashCore (Intermediate F) := ⟨⟨geom h₁ (h₁ * h₁) k, []⟩, config.initialBlockCount⟩
  set r : GhashCore (Intermediate F) := ⟨⟨geom h₂ (h₂ * h₂) k, []⟩, config.initialBlockCount⟩
  have hs : GhashCore.computeOddMulPowers ⟨⟨⟩, config.initialBlockCount⟩ h₁ = some s :=
    GhashCore.computeOddMulPowers_eq ⟨⟨⟩, config.initialBlockCount⟩ hinit h₁
  have hr : GhashCore.computeOddMulPowers ⟨⟨⟩, config.initialBlockCount⟩ h₂ = some r :=
    GhashCore.computeOddMulPowers_eq ⟨⟨⟩, config.initialBlockCount⟩ hinit h₂
  have hc := converting_setKey h₁ h₂ (GhashCore.new_of_pos hinit) hs hr
  have hm2a := m2a_toAdditive hconv
    (by simp [s, r, GhashCore.oddMulShares] : s.oddMulShares.length = r.oddMulShares.length)
  refine ⟨h₁, h₂, ⟨.ready (s.addNewAddShares (conv.toAdditive s.oddMulShares r.oddMulShares).1),
    config⟩, ⟨.ready (r.addNewAddShares (conv.toAdditive s.oddMulShares r.oddMulShares).2),
    config⟩, 0 + 1 + s.oddMulShares.length, hprod, ?_, ?_⟩
  · simp only [Ghash.setKey, Ghash.new, hA, hB, ne_eq, not_true_eq_false, if_false, query_bind]
    rw [lockstep_ask_ask _ _ rfl]
    simp only [hx, hy, GhashCore.new_of_pos hinit, ofOption_some, ret_bind,
      List.getElem?_cons_zero, hs, hr]
    rw [lockstep_bind (lockstep_computeAddShares conv _ _ _)]
    rfl
  · refine ⟨_, _, rfl, rfl, rfl, hc.addNewAddShares hm2a, ?_⟩
    simp [s, GhashCore.oddMulShares]
    omega

/-- Growing both cores for `n` blocks: nothing to do within their length; past it, the odd powers
are extended up to the `n`-th and the new ones converted, so that the cores hold shares for
`max M n` blocks, after `⌈max M n / 2⌉ - ⌈M / 2⌉` more conversions. -/
theorem lockstep_growCore_of_shared {conv : Converter F} (hconv : conv.Correct) {h₁ h₂ : F}
    {sA sB : GhashCore (Finalized F)} {M : ℕ} (hs : Shared h₁ h₂ sA sB (M / 2 + M % 2))
    (hM : sA.maxBlockCount = M) (n used : ℕ) :
    ∃ sA' sB', lockstep (convJoint conv) used (Ghash.growCore sA n) (Ghash.growCore sB n) =
        some (.ok sA', .ok sB', used + (max M n / 2 + max M n % 2 - (M / 2 + M % 2))) ∧
      sA'.maxBlockCount = max M n ∧ Shared h₁ h₂ sA' sB' (max M n / 2 + max M n % 2) := by
  have hB : sB.maxBlockCount = M := hs.max_eq.trans hM
  by_cases hn : M < n
  · -- past the cores' length: both change the maximal length, then convert the new odd powers
    have hmax : max (M / 2 + M % 2) (n / 2 + n % 2) = max M n / 2 + max M n % 2 := by omega
    obtain ⟨hsA, hsB⟩ := hs.changeMaxHashkey_eq n
    rw [hmax] at hsA hsB
    have hc := hs.changeMaxHashkey hsA hsB
    rw [hmax] at hc
    have hm2a := converting_m2a hconv hc
    refine ⟨_, _, ?_, by simp [GhashCore.addNewAddShares]; omega, hc.addNewAddShares hm2a⟩
    simp only [Ghash.growCore, hM, hB, gt_iff_lt, hn, if_true, hsA, hsB, ofOption_some, ret_bind]
    rw [lockstep_computeAddShares, hc.oddMulShares_left, length_geom]
  · -- within the cores' length nothing is converted
    have hmax : max M n = M := max_eq_left (Nat.le_of_not_lt hn)
    refine ⟨sA, sB, ?_, hM.trans hmax.symm, by rwa [hmax]⟩
    simp only [Ghash.growCore, hM, hB, gt_iff_lt, hn, if_false, pure_eq, lockstep_ret_ret, hmax,
      Nat.sub_self, Nat.add_zero]

/-- Hashing an input of at most `max_block_count` blocks once the key is set: the two shares add
up to the GHASH of the input padded with zeros, and the hashers stay keyed, their cores grown to the
input's blocks when it is longer than any before. -/
theorem Keyed.lockstep_finalize {conv : Converter F} (hconv : conv.Correct) {codec : ByteCodec F}
    (hcodec : codec.XorLinear) {h₁ h₂ : F} {config : GhashConfig} {gA gB : Ghash F} {M used : ℕ}
    (hk : Keyed h₁ h₂ config gA gB M used) {input : Bytes}
    (hin : blockCount input ≤ config.maxBlockCount) :
    ∃ tA tB gA' gB' used',
      lockstep (convJoint conv) used (gA.finalize codec input) (gB.finalize codec input) =
        some ((.ok tA, gA'), (.ok tB, gB'), used') ∧
      xorBytes tA tB = ghashPadded codec.toBlockCodec (h₁ * h₂) input ∧
      tA.length = 16 ∧ tB.length = 16 ∧
      Keyed h₁ h₂ config gA' gB' (max M (blockCount input)) used' := by
  obtain ⟨sA, sB, rfl, rfl, hM, hs, rfl⟩ := hk
  obtain ⟨sA', sB', hgrow, hM', hs'⟩ := lockstep_growCore_of_shared hconv hs hM (blockCount input)
    (1 + (M / 2 + M % 2))
  -- the grown cores hold shares of enough powers for the input's blocks
  have hlen : (paddedBlocks input).length ≤ sA'.maxBlockCount := by
    rw [length_paddedBlocks, hM']
    exact le_max_right _ _
  obtain ⟨a, b, ha, hb, hab⟩ := hs'.finalize hcodec hlen
  simp only [paddedBlocks] at ha hb
  set M' := max M (blockCount input)
  refine ⟨blockToBytes a, blockToBytes b, ⟨.ready sA', config⟩, ⟨.ready sB', config⟩,
    1 + (M / 2 + M % 2) + (M' / 2 + M' % 2 - (M / 2 + M % 2)), ?_, ?_, length_blockToBytes a,
    length_blockToBytes b, sA', sB', rfl, rfl, hM', hs', ?_⟩
  · simp only [Ghash.finalize, gt_iff_lt, not_lt.2 hin, if_false]
    rw [lockstep_bind hgrow]
    simp only [ha, hb, Except.toOption, ofOption_some, ret_bind, pure_eq, lockstep_ret_ret]
  · rw [← blockToBytes_xor, hab, ghashPadded, paddedBlocks_eq]
  · omega

/-- One call once the key is set: the replies `KeyedReply` says, and the hashers kept keyed. -/
theorem Keyed.lockstep_call {conv : Converter F} (hconv : conv.Correct) {codec : ByteCodec F}
    (hcodec : codec.XorLinear) {h₁ h₂ : F} {config : GhashConfig} {gA gB : Ghash F} {M used : ℕ}
    (hk : Keyed h₁ h₂ config gA gB M used) (c : JointCall) :
    ∃ rA rB gA' gB' used',
      lockstep (convJoint conv) used (gA.call codec c.left) (gB.call codec c.right) =
        some ((rA, gA'), (rB, gB'), used') ∧
      KeyedReply codec.toBlockCodec (h₁ * h₂) config c (rA, rB) ∧
      Keyed h₁ h₂ config gA' gB' (JointCall.maxBlocks config M [c]) used' := by
  cases c with
  | setKey kA kB =>
    exact ⟨_, _, gA, gB, used, lockstep_map (hk.lockstep_setKey conv codec kA kB) _ _, rfl, hk⟩
  | setup => exact ⟨_, _, gA, gB, used, lockstep_map (lockstep_setup conv gA gB used) _ _, rfl, hk⟩
  | preprocess =>
    exact ⟨_, _, gA, gB, used, lockstep_map (lockstep_preprocess conv gA gB used) _ _, rfl, hk⟩
  | finalize input =>
    by_cases hin : blockCount input ≤ config.maxBlockCount
    · obtain ⟨tA, tB, gA', gB', used', hstep, hxor, -, -, hk'⟩ :=
        hk.lockstep_finalize hconv hcodec hin
      refine ⟨_, _, gA', gB', used', lockstep_map hstep _ _, ?_, ?_⟩
      · simp only [KeyedReply, if_pos hin]
        exact ⟨tA, tB, rfl, hxor⟩
      · simpa only [JointCall.maxBlocks, if_pos hin] using hk'
    · obtain ⟨sA, sB, rfl, rfl, -⟩ := id hk
      refine ⟨_, _, _, _, used, lockstep_map (lockstep_finalize_of_lt conv codec _ _
        (Nat.lt_of_not_le hin) used) _ _, ?_, ?_⟩
      · simp only [KeyedReply, if_neg hin]
        rfl
      · simpa only [JointCall.maxBlocks, if_neg hin] using hk

/-- **Keyed runs.** Once the key is set, every sequence of calls runs in lockstep without getting
stuck or panicking, each call gets the replies `KeyedReply` says, and the hashers stay keyed. -/
theorem Keyed.jointRun {conv : Converter F} (hconv : conv.Correct) {codec : ByteCodec F}
    (hcodec : codec.XorLinear) {h₁ h₂ : F} {config : GhashConfig} (calls : List JointCall) :
    ∀ {gA gB : Ghash F} {M used : ℕ}, Keyed h₁ h₂ config gA gB M used →
      ∃ replies gA' gB' used',
        jointRun conv codec used gA gB calls = some (replies, gA', gB', used') ∧
        List.Forall₂ (KeyedReply codec.toBlockCodec (h₁ * h₂) config) calls replies ∧
        Keyed h₁ h₂ config gA' gB' (JointCall.maxBlocks config M calls) used' := by
  induction calls with
  | nil => exact fun {gA gB M used} hk => ⟨[], gA, gB, used, rfl, .nil, hk⟩
  | cons c cs ih =>
    intro gA gB M used hk
    obtain ⟨rA, rB, gA₁, gB₁, used₁, hstep, hreply, hk₁⟩ := hk.lockstep_call hconv hcodec c
    obtain ⟨replies, gA', gB', used', hrun, hreplies, hk'⟩ := ih hk₁
    refine ⟨(rA, rB) :: replies, gA', gB', used', ?_, .cons hreply hreplies, ?_⟩
    · rw [jointRun_cons hstep, hrun]
      rfl
    · rwa [maxBlocks_cons]

/-- A session of the two parties, from new hashers: `set_key` with their key shares, then any calls
in lockstep. -/
theorem session_keyed {conv : Converter F} (hconv : conv.Correct) {codec : ByteCodec F}
    (hcodec : codec.XorLinear) {config : GhashConfig} (hinit : 0 < config.initialBlockCount)
    {kA kB : Bytes} (hA : kA.length = 16) (hB : kB.length = 16) (calls : List JointCall) :
    ∃ h₁ h₂ replies gA gB used, h₁ * h₂ = codec.ofKey kA + codec.ofKey kB ∧
      jointRun conv codec 0 (Ghash.new config) (Ghash.new config) (.setKey kA kB :: calls) =
        some ((.ok none, .ok none) :: replies, gA, gB, used) ∧
      List.Forall₂ (KeyedReply codec.toBlockCodec (h₁ * h₂) config) calls replies ∧
      Keyed h₁ h₂ config gA gB (JointCall.maxBlocks config config.initialBlockCount calls) used := by
  obtain ⟨h₁, h₂, gA₁, gB₁, used₁, hkey, hset, hk₁⟩ := lockstep_setKey_new hconv codec hinit hA hB
  obtain ⟨replies, gA, gB, used, hrun, hreplies, hk⟩ := hk₁.jointRun hconv hcodec calls
  refine ⟨h₁, h₂, replies, gA, gB, used, hkey, ?_, hreplies, hk⟩
  rw [jointRun_cons (lockstep_map hset _ _), hrun]
  rfl

/-- Over any session, the converter converts `1 + ⌈M/2⌉` values, where `M` is the largest of
`initial_block_count` and the accepted inputs' block counts: the key once and each odd power once,
however the lengths grow and shrink. With `initial_block_count ≤ max_block_count` this is within
`setup`'s allocation when `max_block_count` is even, and one more than it when `max_block_count` is
odd and an input of `max_block_count` blocks is hashed. -/
theorem ghash_session_conversions {conv : Converter F} (hconv : conv.Correct)
    {codec : ByteCodec F} (hcodec : codec.XorLinear) {config : GhashConfig}
    (hinit : 0 < config.initialBlockCount) {kA kB : Bytes} (hA : kA.length = 16)
    (hB : kB.length = 16) (calls : List JointCall) :
    ∃ replies gA gB used,
      jointRun conv codec 0 (Ghash.new config) (Ghash.new config) (.setKey kA kB :: calls) =
        some (replies, gA, gB, used) ∧
      used = 1 + (JointCall.maxBlocks config config.initialBlockCount calls / 2 +
        JointCall.maxBlocks config config.initialBlockCount calls % 2) ∧
      (config.initialBlockCount ≤ config.maxBlockCount → config.maxBlockCount % 2 = 0 →
        used ≤ config.oleCount) ∧
      (config.initialBlockCount ≤ config.maxBlockCount → config.maxBlockCount % 2 = 1 →
        (∃ input, .finalize input ∈ calls ∧ blockCount input = config.maxBlockCount) →
        used = config.oleCount + 1) := by
  obtain ⟨h₁, h₂, replies, gA, gB, used, -, hrun, -, hk⟩ :=
    session_keyed hconv hcodec hinit hA hB calls
  obtain ⟨-, -, -, -, -, -, hused⟩ := hk
  have hle := maxBlocks_le config calls config.initialBlockCount
  refine ⟨_, gA, gB, used, hrun, hused, fun hmax heven => ?_, fun hmax hodd ⟨input, hmem, hfull⟩ => ?_⟩
  · rw [max_eq_right hmax] at hle
    rw [GhashConfig.oleCount]
    omega
  · have hge := blockCount_le_maxBlocks config hmem hfull.le config.initialBlockCount
    rw [max_eq_right hmax] at hle
    rw [GhashConfig.oleCount]
    omega

end Joint

/-- The same session, with a configuration of at most three blocks and an input of three. -/
theorem ghash_session_conversions_ideal :
    (Converter.ideal : Converter (ZMod 2)).Correct ∧ lsbCodec.XorLinear ∧
    0 < (⟨1, 3⟩ : GhashConfig).initialBlockCount ∧ (List.replicate 16 (0 : UInt8)).length = 16 ∧
    (List.replicate 15 (0 : UInt8) ++ [1]).length = 16 ∧
    ∃ replies gA gB used,
      jointRun Converter.ideal lsbCodec 0 (Ghash.new ⟨1, 3⟩) (Ghash.new ⟨1, 3⟩)
        [.setKey (List.replicate 16 0) (List.replicate 15 0 ++ [1]),
          .finalize (List.replicate 48 7)] = some (replies, gA, gB, used) ∧
      used = 1 + (JointCall.maxBlocks ⟨1, 3⟩ 1 [.finalize (List.replicate 48 7)] / 2 +
        JointCall.maxBlocks ⟨1, 3⟩ 1 [.finalize (List.replicate 48 7)] % 2) ∧
      (1 ≤ 3 → 3 % 2 = 0 → used ≤ (⟨1, 3⟩ : GhashConfig).oleCount) ∧
      (1 ≤ 3 → 3 % 2 = 1 → (∃ input, JointCall.finalize input ∈ [.finalize (List.replicate 48 7)] ∧
        blockCount input = 3) → used = (⟨1, 3⟩ : GhashConfig).oleCount + 1) :=
  ⟨Converter.ideal_correct, lsbCodec_xorLinear, by decide, rfl, rfl,
    ghash_session_conversions Converter.ideal_correct lsbCodec_xorLinear (by decide) rfl rfl _⟩

end Tlsn.UniversalHash
