import Tlsn.Lib.Sharing
import Mathlib

/-!
# Two-party GHASH (`universal-hash/src/ghash/ghash_core`)

Two parties hold multiplicative shares `h₁ h₂ = H` of the GHASH key. Each raises its share to the
odd powers `h, h³, h⁵, …` (`compute_missing_mul_shares`), the two convert those into additive shares
(an M2A conversion, outside this crate), and each derives additive shares of the even powers by
squaring (`compute_new_add_shares`: in characteristic two the square of a sum is the sum of the
squares). A party's share of the tag of a message `X₀ … X_{m-1}` is the inner product of the message
with its shares of `H^m, …, H` (`finalize`). When the maximal message length changes
(`change_max_hashkey`), only the missing powers are computed and converted.

The field `GF(2¹²⁸)` (`mpz_fields::Gf2_128`) is a commutative ring `F` of characteristic two, and the
bit-reflected conversions between blocks and field elements are a parameter (`BlockCodec`) whose
only property used is that field addition is XOR of blocks.

`compute_missing_mul_shares` starts from the first odd share and panics on an empty vector
(`computeMissingMulShares_nil`); from a nonempty vector of odd powers it extends the vector to the
needed length (`computeMissingMulShares_geom`).

`Runs` is every run of the two parties: a key set up for any first length, then any number of
changes of the maximal length, up or down, each followed by a conversion. `Shared` is the state
both keep between messages, which every run reaches (`Runs.shared`); from it no change of the
maximal length panics (`Runs.changeMaxHashkey_isSome`), and the two shares of the tag of any message
within the maximal length add up to GHASH (`Shared.finalize`).
-/

namespace Tlsn.Ghash

open Sharing

/-- `mpz_core::Block`. -/
abbrev Block := BitVec 128

/-- The conversions between blocks and field elements in `GhashCore::finalize`. -/
structure BlockCodec (F : Type) where
  /-- `Gf2_128::from(block.reverse_bits())`. -/
  fromBlock : Block → F
  /-- `Block::from(x).reverse_bits()`. -/
  toBlock : F → Block

/-- Addition of field elements is XOR of their blocks. -/
def BlockCodec.XorLinear {F : Type} [Add F] (codec : BlockCodec F) : Prop :=
  ∀ x y, codec.toBlock (x + y) = codec.toBlock x ^^^ codec.toBlock y

/-- The GHASH of a message under the key `H`, by its definition: `Y ← (Y ⊕ Xᵢ) · H` from `Y = 0`,
in the bit-reflected representation of the blocks. -/
def ghash {F : Type} [CommRing F] (codec : BlockCodec F) (H : F) (message : List Block) : Block :=
  codec.toBlock (horner H 0 (message.map codec.fromBlock))

section Model

variable {F : Type} [CommRing F]

/-- `mpz_fields::compute_product_repeated`: appends `count` values, each the last one times
`factor`. -/
def computeProductRepeated (powers : List F) (factor : F) : ℕ → List F
  | 0 => powers
  | count + 1 => computeProductRepeated (powers ++ [powers.getLast?.getD 0 * factor]) factor count

/-- `compute_missing_mul_shares`: the odd multiplicative shares up to the `needed`-th power, or a
panic (`none`) when some are missing and there is none to start from. -/
def computeMissingMulShares (presentOddMulShares : List F) (needed : ℕ) : Option (List F) :=
  -- divide by 2 and round up
  let neededOddPowers := needed / 2 + (needed &&& 1)
  let presentOddLen := presentOddMulShares.length
  if neededOddPowers > presentOddLen then do
    -- `present_odd_mul_shares[0]` panics on an empty vector
    let h ← presentOddMulShares[0]?
    let hSquared := h * h
    pure (computeProductRepeated presentOddMulShares hSquared (neededOddPowers - presentOddLen))
  else some presentOddMulShares

/-- The loop of `compute_new_add_shares` over the new odd shares, zipped with the odd powers
`current_odd_power` they are shares of. -/
def computeNewAddSharesFrom : List F → ℕ → List F → List F
  | [], _, addShares => addShares
  | oddShare :: rest, currentOddPower, addShares =>
    -- the share of `H^current_odd_power`, then the square of the one of `H^((current_odd_power+1)/2)`
    let addShares := addShares ++ [oddShare]
    let baseShare := addShares.getD (currentOddPower / 2) 0
    computeNewAddSharesFrom rest (currentOddPower + 2) (addShares ++ [baseShare * baseShare])

/-- `compute_new_add_shares`. -/
def computeNewAddShares (newAddOddShares addShares : List F) : List F :=
  computeNewAddSharesFrom newAddOddShares (addShares.length + 1) addShares

/-- `Init`. -/
structure Init where

/-- `Intermediate`: the odd multiplicative shares, and the additive shares already computed. -/
structure Intermediate (F : Type) where
  oddMulShares : List F
  cachedAddShares : List F

/-- `Finalized`. -/
structure Finalized (F : Type) where
  oddMulShares : List F
  addShares : List F

/-- `GhashCore<T>`. -/
structure GhashCore (σ : Type) where
  state : σ
  maxBlockCount : ℕ

/-- `GhashError`. -/
inductive GhashError
  | invalidMessageLength
  deriving DecidableEq, Repr

namespace GhashCore

/-- `GhashCore::new`, which panics when `max_block_count` is `0`. -/
def new (maxBlockCount : ℕ) : Option (GhashCore Init) :=
  if maxBlockCount > 0 then some ⟨⟨⟩, maxBlockCount⟩ else none

/-- `GhashCore::compute_odd_mul_powers`. -/
def computeOddMulPowers (core : GhashCore Init) (mulShare : F) :
    Option (GhashCore (Intermediate F)) := do
  let hashkeyPowers ← computeMissingMulShares [mulShare] core.maxBlockCount
  pure ⟨⟨hashkeyPowers, []⟩, core.maxBlockCount⟩

/-- `GhashCore::odd_mul_shares`: the odd shares without an additive share yet. -/
def oddMulShares (core : GhashCore (Intermediate F)) : List F :=
  -- the cached additive shares hold even and odd powers, the multiplicative ones only odd powers
  let offset := core.state.cachedAddShares.length / 2
  core.state.oddMulShares.drop offset

/-- `GhashCore::add_new_add_shares`. -/
def addNewAddShares (core : GhashCore (Intermediate F)) (newAdditiveOddShares : List F) :
    GhashCore (Finalized F) :=
  ⟨⟨core.state.oddMulShares,
    computeNewAddShares newAdditiveOddShares core.state.cachedAddShares⟩, core.maxBlockCount⟩

/-- `GhashCore::finalize`: this party's share of the tag. -/
def finalize (codec : BlockCodec F) (core : GhashCore (Finalized F)) (message : List Block) :
    Except GhashError Block :=
  if message.length > core.maxBlockCount then .error .invalidMessageLength
  else
    let offset := core.state.addShares.length - message.length
    let output := (message.zip (core.state.addShares.reverse.drop offset)).foldl
      (fun acc p => acc + codec.fromBlock p.1 * p.2) 0
    .ok (codec.toBlock output)

/-- `GhashCore::change_max_hashkey`. -/
def changeMaxHashkey (core : GhashCore (Finalized F)) (newHighestHashkeyPower : ℕ) :
    Option (GhashCore (Intermediate F)) := do
  let presentOddMulShares ← computeMissingMulShares core.state.oddMulShares newHighestHashkeyPower
  pure ⟨⟨presentOddMulShares, core.state.addShares⟩, newHighestHashkeyPower⟩

end GhashCore

theorem computeProductRepeated_geom (a q : F) (k c : ℕ) :
    computeProductRepeated (geom a q (k + 1)) q c = geom a q (k + 1 + c) := by
  induction c generalizing k with
  | zero => rfl
  | succ c ih =>
    rw [computeProductRepeated, getLast?_geom, Option.getD_some, mul_assoc, ← pow_succ,
      ← geom_succ, ih, Nat.add_right_comm k 1 1, Nat.add_assoc (k + 1) 1 c, Nat.add_comm 1 c]

/-- From a nonempty vector of the odd powers `h, h³, …` of `h`, the missing ones are computed: the
vector then holds the odd powers up to the `needed`-th power, and more if it held more. -/
theorem computeMissingMulShares_geom (h : F) {k : ℕ} (hk : 0 < k) (needed : ℕ) :
    computeMissingMulShares (geom h (h * h) k) needed =
      some (geom h (h * h) (max k (needed / 2 + needed % 2))) := by
  obtain ⟨k, rfl⟩ := Nat.exists_eq_add_of_lt hk
  unfold computeMissingMulShares
  simp only [Nat.and_one_is_mod, length_geom, zero_add]
  split_ifs with hlt
  · have h0 : (geom h (h * h) (k + 1))[0]? = some h := by
      rw [geom_succ']
      rfl
    simp only [h0, Option.pure_def, Option.bind_eq_bind, Option.bind_some,
      computeProductRepeated_geom]
    congr 2
    omega
  · congr 2
    omega

/-- With no odd power to start from, any missing one panics. -/
theorem computeMissingMulShares_nil {needed : ℕ} (hn : 0 < needed) :
    computeMissingMulShares ([] : List F) needed = none := by
  unfold computeMissingMulShares
  simp only [Nat.and_one_is_mod, List.length_nil]
  rw [if_pos (by omega)]
  rfl

end Model

/-! ### Runs of the two parties -/

section Protocol

variable {F : Type} [CommRing F]

/-- An M2A conversion (`ShareConvert::to_additive`): additive shares of the products of the two
parties' multiplicative shares. -/
def M2A (x y a b : List F) : Prop := AddShares a b (List.zipWith (· * ·) x y)

open GhashCore in
/-- The runs of the two parties from multiplicative shares `h₁`, `h₂` of the key: the key set up for
a first maximal length, then any number of changes of the maximal length, each followed by the
conversion of the new odd shares. A step that panics ends the run; none does
(`Runs.changeMaxHashkey_isSome`). -/
inductive Runs (h₁ h₂ : F) : GhashCore (Finalized F) → GhashCore (Finalized F) → Prop
  | setKey {n₀ : ℕ} {core : GhashCore Init} {s r : GhashCore (Intermediate F)} {a b : List F}
      (hnew : new n₀ = some core) (hs : core.computeOddMulPowers h₁ = some s)
      (hr : core.computeOddMulPowers h₂ = some r) (hm2a : M2A s.oddMulShares r.oddMulShares a b) :
      Runs h₁ h₂ (s.addNewAddShares a) (r.addNewAddShares b)
  | changeMax {s r : GhashCore (Finalized F)} {s' r' : GhashCore (Intermediate F)} {n : ℕ}
      {a b : List F} (hrun : Runs h₁ h₂ s r) (hs : s.changeMaxHashkey n = some s')
      (hr : r.changeMaxHashkey n = some r') (hm2a : M2A s'.oddMulShares r'.oddMulShares a b) :
      Runs h₁ h₂ (s'.addNewAddShares a) (r'.addNewAddShares b)

/-- The state both parties keep between messages, for `k` odd powers: each holds the odd powers
`h, h³, …, h^(2k-1)` of its multiplicative share, together they hold additive shares of the powers
`H, H², …, H^(2k)` of the key `H = h₁ h₂`, and their maximal message length is the same and at most
`2k`. -/
structure Shared (h₁ h₂ : F) (s r : GhashCore (Finalized F)) (k : ℕ) : Prop where
  pos : 0 < k
  odd_left : s.state.oddMulShares = geom h₁ (h₁ * h₁) k
  odd_right : r.state.oddMulShares = geom h₂ (h₂ * h₂) k
  add : AddShares s.state.addShares r.state.addShares (geom (h₁ * h₂) (h₁ * h₂) (2 * k))
  max_le : s.maxBlockCount ≤ 2 * k
  max_eq : r.maxBlockCount = s.maxBlockCount

/-- The state of both parties between a change of the maximal length and the conversion: each holds
the odd powers up to `h^(2k'-1)` of its share, and together they hold additive shares of the
powers up to `H^(2k)`, for `k ≤ k'`. -/
structure Converting (h₁ h₂ : F) (s r : GhashCore (Intermediate F)) (k k' : ℕ) : Prop where
  pos : 0 < k'
  le : k ≤ k'
  odd_left : s.state.oddMulShares = geom h₁ (h₁ * h₁) k'
  odd_right : r.state.oddMulShares = geom h₂ (h₂ * h₂) k'
  cached : AddShares s.state.cachedAddShares r.state.cachedAddShares (geom (h₁ * h₂) (h₁ * h₂) (2 * k))
  max_le : s.maxBlockCount ≤ 2 * k'
  max_eq : r.maxBlockCount = s.maxBlockCount

/-- `GhashCore::new` succeeds on a positive maximal length only. -/
theorem GhashCore.eq_of_new {n : ℕ} {core : GhashCore Init} (hnew : GhashCore.new n = some core) :
    0 < n ∧ core = ⟨⟨⟩, n⟩ := by
  unfold GhashCore.new at hnew
  split_ifs at hnew with hpos
  cases hnew
  exact ⟨hpos, rfl⟩

/-- `compute_odd_mul_powers` on a positive maximal length `n` never panics: it gives the odd powers
of the share up to `h^n`, and no additive share. -/
theorem GhashCore.computeOddMulPowers_eq (core : GhashCore Init) (hpos : 0 < core.maxBlockCount)
    (h : F) :
    core.computeOddMulPowers h = some ⟨⟨geom h (h * h)
      (core.maxBlockCount / 2 + core.maxBlockCount % 2), []⟩, core.maxBlockCount⟩ := by
  have hone : [h] = geom h (h * h) 1 := by simp [geom]
  have hmax : max 1 (core.maxBlockCount / 2 + core.maxBlockCount % 2) =
      core.maxBlockCount / 2 + core.maxBlockCount % 2 := by omega
  simp only [GhashCore.computeOddMulPowers, hone, computeMissingMulShares_geom h Nat.one_pos, hmax,
    Option.pure_def, Option.bind_eq_bind, Option.bind_some]

/-- `change_max_hashkey` from a nonempty vector of odd powers never panics: it extends the vector to
the new length if it is longer, and keeps the additive shares. -/
theorem GhashCore.changeMaxHashkey_geom {core : GhashCore (Finalized F)} {h : F} {k : ℕ}
    (hk : 0 < k) (hodd : core.state.oddMulShares = geom h (h * h) k) (n : ℕ) :
    core.changeMaxHashkey n =
      some ⟨⟨geom h (h * h) (max k (n / 2 + n % 2)), core.state.addShares⟩, n⟩ := by
  simp only [GhashCore.changeMaxHashkey, hodd, computeMissingMulShares_geom h hk, Option.pure_def,
    Option.bind_eq_bind, Option.bind_some]

/-- Setting the key: the odd powers of each share up to the first maximal length, and no additive
share yet. -/
theorem converting_setKey (h₁ h₂ : F) {n₀ : ℕ} {core : GhashCore Init}
    {s r : GhashCore (Intermediate F)} (hnew : GhashCore.new n₀ = some core)
    (hs : core.computeOddMulPowers h₁ = some s) (hr : core.computeOddMulPowers h₂ = some r) :
    Converting h₁ h₂ s r 0 (n₀ / 2 + n₀ % 2) := by
  obtain ⟨hpos, rfl⟩ := GhashCore.eq_of_new hnew
  rw [GhashCore.computeOddMulPowers_eq ⟨⟨⟩, n₀⟩ hpos] at hs hr
  cases hs
  cases hr
  exact ⟨by omega, Nat.zero_le _, rfl, rfl, AddShares.nil, by dsimp only; omega, rfl⟩

/-- From the shared state, changing the maximal length never panics. -/
theorem Shared.changeMaxHashkey_eq {h₁ h₂ : F} {s r : GhashCore (Finalized F)} {k : ℕ}
    (hsh : Shared h₁ h₂ s r k) (n : ℕ) :
    s.changeMaxHashkey n =
        some ⟨⟨geom h₁ (h₁ * h₁) (max k (n / 2 + n % 2)), s.state.addShares⟩, n⟩ ∧
      r.changeMaxHashkey n =
        some ⟨⟨geom h₂ (h₂ * h₂) (max k (n / 2 + n % 2)), r.state.addShares⟩, n⟩ :=
  ⟨GhashCore.changeMaxHashkey_geom hsh.pos hsh.odd_left n,
    GhashCore.changeMaxHashkey_geom hsh.pos hsh.odd_right n⟩

/-- Changing the maximal length: the odd powers are extended to the new length if it is longer,
and the additive shares are kept. -/
theorem Shared.changeMaxHashkey {h₁ h₂ : F} {s r : GhashCore (Finalized F)}
    {s' r' : GhashCore (Intermediate F)} {k n : ℕ} (hsh : Shared h₁ h₂ s r k)
    (hs : s.changeMaxHashkey n = some s') (hr : r.changeMaxHashkey n = some r') :
    Converting h₁ h₂ s' r' k (max k (n / 2 + n % 2)) := by
  obtain ⟨hs', hr'⟩ := hsh.changeMaxHashkey_eq n
  rw [hs'] at hs
  rw [hr'] at hr
  cases hs
  cases hr
  exact ⟨lt_max_of_lt_left hsh.pos, le_max_left _ _, rfl, rfl, hsh.add, by dsimp only; omega, rfl⟩

/-- The odd shares a party converts are those of the powers from `h^(2k+1)` on. -/
theorem Converting.oddMulShares_left {h₁ h₂ : F} {s r : GhashCore (Intermediate F)} {k k' : ℕ}
    (hc : Converting h₁ h₂ s r k k') :
    s.oddMulShares = geom (h₁ * (h₁ * h₁) ^ k) (h₁ * h₁) (k' - k) := by
  have hlen : s.state.cachedAddShares.length / 2 = k := by
    rw [hc.cached.length_left, length_geom]
    omega
  rw [GhashCore.oddMulShares, hlen, hc.odd_left, drop_geom]

theorem Converting.oddMulShares_right {h₁ h₂ : F} {s r : GhashCore (Intermediate F)} {k k' : ℕ}
    (hc : Converting h₁ h₂ s r k k') :
    r.oddMulShares = geom (h₂ * (h₂ * h₂) ^ k) (h₂ * h₂) (k' - k) := by
  have hlen : r.state.cachedAddShares.length / 2 = k := by
    rw [hc.cached.length_right, length_geom]
    omega
  rw [GhashCore.oddMulShares, hlen, hc.odd_right, drop_geom]

/-- Between a change of the maximal length and the conversion, the offset of `odd_mul_shares` is
within the odd shares, so that the slice `odd_mul_shares[offset..]` does not panic. -/
theorem Converting.offset_le {h₁ h₂ : F} {s r : GhashCore (Intermediate F)} {k k' : ℕ}
    (hc : Converting h₁ h₂ s r k k') :
    s.state.cachedAddShares.length / 2 ≤ s.state.oddMulShares.length ∧
      r.state.cachedAddShares.length / 2 ≤ r.state.oddMulShares.length := by
  have hs := hc.cached.length_left
  have hr := hc.cached.length_right
  rw [length_geom] at hs hr
  rw [hc.odd_left, hc.odd_right, length_geom, length_geom, hs, hr]
  have := hc.le
  omega

/-- In the shared state each party holds additive shares of at least as many powers as its
maximal length, so that `add_shares.len() - message.len()` in `finalize` does not underflow on a
message it accepts. -/
theorem Shared.maxBlockCount_le {h₁ h₂ : F} {s r : GhashCore (Finalized F)} {k : ℕ}
    (hsh : Shared h₁ h₂ s r k) :
    s.maxBlockCount ≤ s.state.addShares.length ∧ r.maxBlockCount ≤ r.state.addShares.length := by
  have hs := hsh.add.length_left
  have hr := hsh.add.length_right
  rw [length_geom] at hs hr
  have := hsh.max_le
  have := hsh.max_eq
  omega

/-- A party's share of the tag of a message within the maximal length: the inner product of the
message with its last `m` additive shares, highest power first. -/
theorem GhashCore.finalize_eq (codec : BlockCodec F) {core : GhashCore (Finalized F)}
    {message : List Block} (hmax : message.length ≤ core.maxBlockCount) :
    core.finalize codec message = .ok (codec.toBlock
      (dot (message.map codec.fromBlock) (core.state.addShares.take message.length).reverse)) := by
  unfold GhashCore.finalize
  rw [if_neg (by omega)]
  dsimp only
  rw [← List.reverse_take, foldl_zip_eq_dot, zero_add]

/-- From the shared state, the two shares of the tag of a message within the maximal length add up
to its GHASH. -/
theorem Shared.finalize {h₁ h₂ : F} {s r : GhashCore (Finalized F)} {k : ℕ}
    (hs : Shared h₁ h₂ s r k) {codec : BlockCodec F} (hcodec : codec.XorLinear)
    {message : List Block} (hm : message.length ≤ s.maxBlockCount) :
    ∃ a b, s.finalize codec message = .ok a ∧ r.finalize codec message = .ok b ∧
      a ^^^ b = ghash codec (h₁ * h₂) message := by
  have hlen : message.length ≤ 2 * k := hm.trans hs.max_le
  refine ⟨_, _, GhashCore.finalize_eq codec hm, GhashCore.finalize_eq codec (hs.max_eq ▸ hm), ?_⟩
  -- the shares of the powers up to `H^m`, highest first, against the message
  have hpowers := (hs.add.take message.length).reverse.dot (message.map codec.fromBlock)
  rw [take_geom, min_eq_left hlen] at hpowers
  rw [← hcodec, hpowers, ghash, horner_eq_dot, List.length_map, zero_mul, zero_add]

variable [CharP F 2]

/-- The loop of `compute_new_add_shares`, run by both parties on additive shares of the new odd
powers `H^(2n+1), H^(2n+3), …`, extends their shares of `H, …, H^(2n)` to the powers up to
`H^(2(n+l))`: each odd share is followed by the square of the share of half its power plus one. -/
theorem computeNewAddSharesFrom_shares {H : F} {n : ℕ} {cs cr a b : List F}
    (hc : AddShares cs cr (geom H H (2 * n)))
    (hab : AddShares a b (geom (H * (H * H) ^ n) (H * H) a.length)) :
    AddShares (computeNewAddSharesFrom a (2 * n + 1) cs) (computeNewAddSharesFrom b (2 * n + 1) cr)
      (geom H H (2 * (n + a.length))) := by
  induction a generalizing n cs cr b with
  | nil =>
    obtain rfl : b = [] := List.eq_nil_of_length_eq_zero (by simpa using hab.length_right)
    simpa [computeNewAddSharesFrom] using hc
  | cons x a ih =>
    obtain ⟨y, b, rfl⟩ : ∃ y b', b = y :: b' :=
      List.exists_cons_of_length_pos (by rw [hab.length_right]; simp)
    rw [List.length_cons, geom_succ', AddShares.cons_iff] at hab
    obtain ⟨hxy, hab⟩ := hab
    -- the odd share extends the shares to `H^(2n+1)`
    have hodd : AddShares (cs ++ [x]) (cr ++ [y]) (geom H H (2 * n + 1)) := by
      rw [geom_succ]
      refine hc.append (AddShares.singleton ?_)
      rw [hxy, pow_mul, sq]
    -- and the square of the share of `H^(n+1)` to `H^(2n+2)`
    have hbase := hodd.getD n
    have hlt : n < 2 * n + 1 := by omega
    have hn : (geom H H (2 * n + 1)).getD n 0 = H * H ^ n := by
      simp [List.getD_eq_getElem?_getD, getElem?_geom _ _ hlt]
    have heven : AddShares (cs ++ [x] ++ [(cs ++ [x]).getD n 0 * (cs ++ [x]).getD n 0])
        (cr ++ [y] ++ [(cr ++ [y]).getD n 0 * (cr ++ [y]).getD n 0]) (geom H H (2 * (n + 1))) := by
      rw [show 2 * (n + 1) = 2 * n + 1 + 1 by ring, geom_succ]
      refine hodd.append (AddShares.singleton ?_)
      rw [← CharTwo.add_mul_self, hbase, hn]
      ring
    have hab' : AddShares a b (geom (H * (H * H) ^ (n + 1)) (H * H) a.length) := by
      rwa [pow_succ, ← mul_assoc] 
    have key := ih heven hab'
    simp only [computeNewAddSharesFrom]
    rw [show (2 * n + 1) / 2 = n by omega, show 2 * n + 1 + 2 = 2 * (n + 1) + 1 by ring]
    rwa [List.length_cons, show n + (a.length + 1) = n + 1 + a.length by ring]

/-- `compute_new_add_shares` on both parties' shares of `H, …, H^(2n)` and of the next odd powers
`H^(2n+1), H^(2n+3), …` gives shares of every power up to twice as many more. -/
theorem computeNewAddShares_shares {H : F} {n : ℕ} {A B a b : List F}
    (hAB : AddShares A B (geom H H (2 * n)))
    (hab : AddShares a b (geom (H * (H * H) ^ n) (H * H) a.length)) :
    AddShares (computeNewAddShares a A) (computeNewAddShares b B)
      (geom H H (2 * (n + a.length))) := by
  have hA : A.length + 1 = 2 * n + 1 := by rw [hAB.length_left, length_geom]
  have hB : B.length + 1 = 2 * n + 1 := by rw [hAB.length_right, length_geom]
  rw [computeNewAddShares, computeNewAddShares, hA, hB]
  exact computeNewAddSharesFrom_shares hAB hab

theorem ghash_share_vector_invariant :
    (∀ (H : F) (A B a b : List F) (L m : ℕ), A.length = L → B.length = L → Even L →
      (∀ k (_ : k < A.length) (_ : k < B.length), A[k] + B[k] = H ^ (k + 1)) →
      a.length = m → b.length = m →
      (∀ j (_ : j < a.length) (_ : j < b.length), a[j] + b[j] = H ^ (L + 1 + 2 * j)) →
      (computeNewAddShares a A).length = L + 2 * m ∧
        (computeNewAddShares b B).length = L + 2 * m ∧
        ∀ k (_ : k < (computeNewAddShares a A).length) (_ : k < (computeNewAddShares b B).length),
          (computeNewAddShares a A)[k] + (computeNewAddShares b B)[k] = H ^ (k + 1)) ∧
    ∀ (h : F) (v : List F) (needed : ℕ), v ≠ [] →
      (∀ j (_ : j < v.length), v[j] = h ^ (2 * j + 1)) →
      (needed / 2 + needed % 2 ≤ v.length → computeMissingMulShares v needed = some v) ∧
      (v.length < needed / 2 + needed % 2 → ∃ v', computeMissingMulShares v needed = some v' ∧
        v'.length = needed / 2 + needed % 2 ∧ ∀ j (_ : j < v'.length), v'[j] = h ^ (2 * j + 1)) := by
  constructor
  · intro H A B a b L m hA hB hL hAB ha hb hab
    obtain ⟨n, rfl⟩ := hL
    -- shares given index by index are shares of the progressions `H, H², …` and
    -- `H^(2n+1), H^(2n+3), …`
    have hAB' : AddShares A B (geom H H (2 * n)) := by
      refine addShares_geom_iff.2 ⟨by omega, by omega, fun k hx hy => ?_⟩
      rw [hAB k hx hy, pow_succ']
    have hab' : AddShares a b (geom (H * (H * H) ^ n) (H * H) a.length) := by
      refine addShares_geom_iff.2 ⟨rfl, hb.trans ha.symm, fun j hx hy => ?_⟩
      rw [hab j hx hy]
      ring
    obtain ⟨h₁, h₂, hsum⟩ := addShares_geom_iff.1 (computeNewAddShares_shares hAB' hab')
    refine ⟨by omega, by omega, fun k hx hy => ?_⟩
    rw [hsum k hx hy, pow_succ']
  · intro h v needed hv hodd
    have hpow : ∀ j, h * (h * h) ^ j = h ^ (2 * j + 1) := fun j => by ring
    -- a vector of the odd powers, entry by entry, is the progression `h, h³, …` of its length
    have hgeom : v = geom h (h * h) v.length :=
      eq_geom_iff.2 ⟨rfl, fun j hj => by rw [hodd j hj, hpow]⟩
    have hmissing := computeMissingMulShares_geom h (List.length_pos_iff.2 hv) needed
    rw [← hgeom] at hmissing
    constructor
    · intro hle
      rw [hmissing, max_eq_left hle, ← hgeom]
    · intro hlt
      rw [max_eq_right hlt.le] at hmissing
      obtain ⟨hlen, hterms⟩ := eq_geom_iff.1 (rfl : geom h (h * h) (needed / 2 + needed % 2) = _)
      exact ⟨_, hmissing, hlen, fun j hj => by rw [hterms j hj, hpow]⟩

/-- The empty vector has every entry an odd power of `1`, and its missing odd powers panic. -/
theorem missing_mul_shares_of_empty_panics :
    (∀ j (_ : j < ([] : List (ZMod 2)).length), ([] : List (ZMod 2))[j] = 1 ^ (2 * j + 1)) ∧
      computeMissingMulShares ([] : List (ZMod 2)) 1 = none :=
  ⟨fun j hj => absurd hj (Nat.not_lt_zero j), computeMissingMulShares_nil Nat.one_pos⟩

/-- Converting the new odd shares and squaring them extends the additive shares to every power up to
`H^(2k')`. -/
theorem Converting.addNewAddShares {h₁ h₂ : F} {s r : GhashCore (Intermediate F)} {k k' : ℕ}
    (hc : Converting h₁ h₂ s r k k') {a b : List F} (hm2a : M2A s.oddMulShares r.oddMulShares a b) :
    Shared h₁ h₂ (s.addNewAddShares a) (r.addNewAddShares b) k' := by
  -- the conversion gives shares of the odd powers `H^(2k+1), H^(2k+3), …` of `H = h₁ h₂`
  have hab : AddShares a b (geom ((h₁ * h₂) * ((h₁ * h₂) * (h₁ * h₂)) ^ k)
      ((h₁ * h₂) * (h₁ * h₂)) (k' - k)) := by
    have hprod := zipWith_mul_geom (h₁ * (h₁ * h₁) ^ k) (h₁ * h₁) (h₂ * (h₂ * h₂) ^ k) (h₂ * h₂)
      (k' - k)
    unfold M2A at hm2a
    rw [hc.oddMulShares_left, hc.oddMulShares_right, hprod] at hm2a
    convert hm2a using 2 <;> ring
  have hlen : a.length = k' - k := by rw [hab.length_left, length_geom]
  have hshares := computeNewAddShares_shares hc.cached (hlen ▸ hab)
  rw [hlen, show k + (k' - k) = k' by have := hc.le; omega] at hshares
  exact ⟨hc.pos, hc.odd_left, hc.odd_right, hshares, hc.max_le, hc.max_eq⟩

/-- Every run of the two parties ends in the shared state. -/
theorem Runs.shared {h₁ h₂ : F} {s r : GhashCore (Finalized F)} (hrun : Runs h₁ h₂ s r) :
    ∃ k, Shared h₁ h₂ s r k := by
  induction hrun with
  | setKey hnew hs hr hm2a => exact ⟨_, (converting_setKey h₁ h₂ hnew hs hr).addNewAddShares hm2a⟩
  | changeMax _ hs hr hm2a ih =>
    obtain ⟨k, hk⟩ := ih
    exact ⟨_, (hk.changeMaxHashkey hs hr).addNewAddShares hm2a⟩

/-- No run panics: after any run both parties can change the maximal length to any value. -/
theorem Runs.changeMaxHashkey_isSome {h₁ h₂ : F} {s r : GhashCore (Finalized F)}
    (hrun : Runs h₁ h₂ s r) (n : ℕ) :
    (s.changeMaxHashkey n).isSome ∧ (r.changeMaxHashkey n).isSome := by
  obtain ⟨k, hk⟩ := hrun.shared
  obtain ⟨hs, hr⟩ := hk.changeMaxHashkey_eq n
  simp [hs, hr]

/-- **No run indexes out of bounds.** After any run, each party holds at least as many additive
shares as its maximal length, so that `add_shares.len() - message.len()` in `GhashCore::finalize`
does not underflow on a message it accepts; and after any change of the maximal length the offset
of `odd_mul_shares` is within the odd shares, so that the slice `odd_mul_shares[offset..]` does not
panic. (The conversion after `set_key` has no cached share, and the offset `0`.) -/
theorem ghash_runs_in_bounds {h₁ h₂ : F} {s r : GhashCore (Finalized F)} (hrun : Runs h₁ h₂ s r) :
    s.maxBlockCount ≤ s.state.addShares.length ∧ r.maxBlockCount ≤ r.state.addShares.length ∧
      ∀ n s' r', s.changeMaxHashkey n = some s' → r.changeMaxHashkey n = some r' →
        s'.state.cachedAddShares.length / 2 ≤ s'.state.oddMulShares.length ∧
        r'.state.cachedAddShares.length / 2 ≤ r'.state.oddMulShares.length := by
  obtain ⟨k, hk⟩ := hrun.shared
  obtain ⟨hs, hr⟩ := hk.maxBlockCount_le
  exact ⟨hs, hr, fun n s' r' hs' hr' => (hk.changeMaxHashkey hs' hr').offset_le⟩

theorem ghash_runs_finalize {h₁ h₂ H : F} (hkey : h₁ * h₂ = H) {s r : GhashCore (Finalized F)}
    (hrun : Runs h₁ h₂ s r) {codec : BlockCodec F} (hcodec : codec.XorLinear)
    (message : List Block) (hm : message.length ≤ s.maxBlockCount) :
    ∃ a b, s.finalize codec message = .ok a ∧ r.finalize codec message = .ok b ∧
      a ^^^ b = ghash codec H message := by
  obtain ⟨k, hk⟩ := hrun.shared
  rw [← hkey]
  exact hk.finalize hcodec hm

end Protocol

/-! ### A run over `GF(2)[X]`

The shares `X` and `X + 1` of the key `H = X (X + 1)`, whose powers are distinct polynomials. -/

section PolynomialRun

open Polynomial

/-- Blocks read by their lowest bit, and polynomials written by their constant coefficient. -/
noncomputable def coeffCodec : BlockCodec (ZMod 2)[X] where
  fromBlock b := C (if b.getLsbD 0 then 1 else 0)
  toBlock p := if p.coeff 0 = 0 then 0 else 1

theorem coeffCodec_xorLinear : coeffCodec.XorLinear := by
  intro x y
  simp only [coeffCodec, coeff_add]
  generalize x.coeff 0 = a
  generalize y.coeff 0 = b
  revert a b
  decide

/-- The leader's core after the key is set for one block, with the shares `X (X + 1) + 1` of `H`,
and after the maximal length is raised to three, with the shares `X³ (X + 1)³ + X` of `H³`. -/
noncomputable def polyRunLeft : GhashCore (Finalized (ZMod 2)[X]) :=
  (⟨⟨[(X), X * (X * X)], computeNewAddShares [X * (X + 1) + 1] []⟩, 3⟩ :
    GhashCore (Intermediate (ZMod 2)[X])).addNewAddShares [X * (X * X) * ((X + 1) * ((X + 1) * (X + 1))) + X]

/-- The follower's core in the same run, with the shares `1` of `H` and `X` of `H³`. -/
noncomputable def polyRunRight : GhashCore (Finalized (ZMod 2)[X]) :=
  (⟨⟨[X + 1, (X + 1) * ((X + 1) * (X + 1))], computeNewAddShares [1] []⟩, 3⟩ :
    GhashCore (Intermediate (ZMod 2)[X])).addNewAddShares [(X)]

theorem runs_polyRun : Runs (X : (ZMod 2)[X]) (X + 1) polyRunLeft polyRunRight := by
  refine Runs.changeMax (n := 3) (Runs.setKey (a := [X * (X + 1) + 1]) (b := [1])
    (show GhashCore.new 1 = some ⟨⟨⟩, 1⟩ from rfl) rfl rfl ?_) rfl rfl ?_
  -- each conversion: the two shares add up to the product of the odd powers, as `1 + 1 = 0`
  · exact AddShares.singleton (by simp [add_assoc, CharTwo.add_self_eq_zero])
  · exact AddShares.singleton (by simp [add_assoc, CharTwo.add_self_eq_zero])

/-- The run over `GF(2)[X]`: the key set for one block, the maximal length raised to three, and a
message of three blocks hashed. -/
theorem ghash_runs_finalize_poly :
    Runs (X : (ZMod 2)[X]) (X + 1) polyRunLeft polyRunRight ∧ coeffCodec.XorLinear ∧
      [1, 2, 3].length ≤ polyRunLeft.maxBlockCount ∧
      ∃ a b, polyRunLeft.finalize coeffCodec [1, 2, 3] = .ok a ∧
        polyRunRight.finalize coeffCodec [1, 2, 3] = .ok b ∧
        a ^^^ b = ghash coeffCodec (X * (X + 1)) [1, 2, 3] :=
  ⟨runs_polyRun, coeffCodec_xorLinear, le_refl 3,
    ghash_runs_finalize rfl runs_polyRun coeffCodec_xorLinear [1, 2, 3] (le_refl 3)⟩

/-- The same run: the shares cover the three blocks, and a change to five blocks slices the odd
shares from the third power on. -/
theorem ghash_runs_in_bounds_poly :
    Runs (X : (ZMod 2)[X]) (X + 1) polyRunLeft polyRunRight ∧
      polyRunLeft.maxBlockCount ≤ polyRunLeft.state.addShares.length ∧
      polyRunRight.maxBlockCount ≤ polyRunRight.state.addShares.length ∧
      ∀ n s' r', polyRunLeft.changeMaxHashkey n = some s' → polyRunRight.changeMaxHashkey n = some r' →
        s'.state.cachedAddShares.length / 2 ≤ s'.state.oddMulShares.length ∧
        r'.state.cachedAddShares.length / 2 ≤ r'.state.oddMulShares.length :=
  ⟨runs_polyRun, ghash_runs_in_bounds runs_polyRun⟩

/-- Shares of `X, X²` and of `X³, X⁵`, extended to shares of the powers up to `X⁶`; and the odd
powers `X, X³` extended to `X⁵`. -/
theorem ghash_share_vector_invariant_poly :
    ((computeNewAddShares [X ^ 3 + 1, X ^ 5 + X] [X + 1, X ^ 2 + X] : List (ZMod 2)[X]).length =
        2 + 2 * 2 ∧
      (computeNewAddShares [1, X] [1, X] : List (ZMod 2)[X]).length = 2 + 2 * 2 ∧
      ∀ k (_ : k < (computeNewAddShares [X ^ 3 + 1, X ^ 5 + X] [X + 1, X ^ 2 + X] :
          List (ZMod 2)[X]).length)
        (_ : k < (computeNewAddShares [1, X] [1, X] : List (ZMod 2)[X]).length),
        (computeNewAddShares [X ^ 3 + 1, X ^ 5 + X] [X + 1, X ^ 2 + X] : List (ZMod 2)[X])[k] +
          (computeNewAddShares [1, X] [1, X] : List (ZMod 2)[X])[k] = X ^ (k + 1)) ∧
    ∃ v', computeMissingMulShares ([X, X ^ 3] : List (ZMod 2)[X]) 5 = some v' ∧ v'.length = 3 ∧
      ∀ j (_ : j < v'.length), v'[j] = X ^ (2 * j + 1) := by
  obtain ⟨hnew, hmissing⟩ := ghash_share_vector_invariant (F := (ZMod 2)[X])
  -- the shares of `X, X²`, of `X³, X⁵`, and the odd powers, entry by entry
  have hAB : ∀ k (_ : k < ([X + 1, X ^ 2 + X] : List (ZMod 2)[X]).length)
      (_ : k < ([1, X] : List (ZMod 2)[X]).length),
      ([X + 1, X ^ 2 + X] : List (ZMod 2)[X])[k] + ([1, X] : List (ZMod 2)[X])[k] = X ^ (k + 1) := by
    intro k hk _
    simp only [List.length_cons, List.length_nil] at hk
    interval_cases k <;> simp [add_assoc, CharTwo.add_self_eq_zero]
  have hab : ∀ j (_ : j < ([X ^ 3 + 1, X ^ 5 + X] : List (ZMod 2)[X]).length)
      (_ : j < ([1, X] : List (ZMod 2)[X]).length),
      ([X ^ 3 + 1, X ^ 5 + X] : List (ZMod 2)[X])[j] + ([1, X] : List (ZMod 2)[X])[j] =
        X ^ (2 + 1 + 2 * j) := by
    intro j hj _
    simp only [List.length_cons, List.length_nil] at hj
    interval_cases j <;> simp [add_assoc, CharTwo.add_self_eq_zero]
  have hodd : ∀ j (_ : j < ([X, X ^ 3] : List (ZMod 2)[X]).length),
      ([X, X ^ 3] : List (ZMod 2)[X])[j] = X ^ (2 * j + 1) := by
    intro j hj
    simp only [List.length_cons, List.length_nil] at hj
    interval_cases j <;> simp
  exact ⟨hnew X _ _ _ _ 2 2 rfl rfl even_two hAB rfl rfl hab,
    (hmissing X [X, X ^ 3] 5 (List.cons_ne_nil _ _) hodd).2 (by decide)⟩

end PolynomialRun

end Tlsn.Ghash
