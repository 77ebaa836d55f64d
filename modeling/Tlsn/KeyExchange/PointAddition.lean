import Mathlib.AlgebraicGeometry.EllipticCurve.Affine.Point
import Tlsn.Lib.Outcome
import Tlsn.Lib.Sharing

/-!
# Two-party point addition: shares of the x-coordinate of a sum

The leader holds a point `P₁ = (x₁, y₁)` and the follower a point `P₂ = (x₂, y₂)` of P-256, and
`derive_x_coord_share` gives each an additive share of the x-coordinate of `P₁ + P₂`:

1. `[y₁, x₁]` and `[-y₂, -x₂]` are additive shares of `[y₁ - y₂, x₁ - x₂]`, which the share
   converter turns into multiplicative shares `[a₁, b₁]` and `[a₂, b₂]`;
2. each party squares `a b⁻¹`: multiplicative shares of `λ² = ((y₁ - y₂) / (x₁ - x₂))²`;
3. the converter turns those back into additive shares `d₁ + d₂ = λ²`, and each party subtracts
   its own `x`.

`compute_pms_shares` runs it twice, with two converters, on the points `d_L Q` and `d_F Q` that the
parties' private keys make of the server's key `Q`: the ECDH point is their sum.

The field, the curve (any with `a₁ = a₂ = 0`, as P-256 is) and the converters are parameters; a
converter is only assumed to convert shares correctly (`Sharing.Converter.Correct`). So is the
inverse of `mpz_fields`, which lives outside the repository: it is assumed to invert nonzero
elements (`InvertsNonzero`), and what it does on zero is a hypothesis where it matters.
Coordinates are field elements: the byte reversal and `P256::try_from(..).unwrap()` of
`decompose_point` read the coordinates of a point of the curve, which are below the modulus.

* `deriveXCoordShares_sum`: the shares add up to `λ² - x₁ - x₂`, for any two points with
  distinct x-coordinates;
* `xCoord_add_of_X_ne`: that is the x-coordinate of `P₁ + P₂`;
* `computePmsShares_eq`: the two sharings of the x-coordinate of the ECDH point, when the
  parties' points have distinct x-coordinates;
* `computePmsShares_equal_keys_ne`: the case it leaves out, equal points, where the shares add up
  to `-2x` if the inverse returns on zero (`computePmsShares_double`) and the run panics if it
  panics there (`computePmsShares_double_panic`).
-/

namespace Tlsn.KeyExchange

open WeierstrassCurve.Affine Sharing

/-- `ErrorKind`. -/
inductive ErrorKind
  | io
  | context
  | vm
  | shareConversion
  | key
  | state
  | role
  deriving DecidableEq, Repr

/-- `KeyExchangeError`: its kind and the message of its source. -/
structure KeyExchangeError where
  kind : ErrorKind
  source : String
  deriving DecidableEq, Repr

/-- `Role`. -/
inductive Role
  | leader
  | follower
  deriving DecidableEq, Repr

/-- A SEC1 encoded point, with its coordinates as field elements: the identity, or a point given
by its x-coordinate only (compressed) or by both. -/
inductive EncodedPoint (F : Type)
  | identity
  | compressed (x : F)
  | uncompressed (x y : F)

namespace EncodedPoint

variable {F : Type}

/-- `EncodedPoint::x`. -/
def x : EncodedPoint F → Option F
  | identity => none
  | compressed x => some x
  | uncompressed x _ => some x

/-- `EncodedPoint::y`. -/
def y : EncodedPoint F → Option F
  | uncompressed _ y => some y
  | _ => none

end EncodedPoint

variable {F : Type}

/-- `decompose_point`: the coordinates of an encoded point; the identity and a compressed point
are errors. -/
def decomposePoint (point : EncodedPoint F) : Outcome KeyExchangeError (F × F) := do
  let some x := point.x | throw ⟨.key, "key share is an identity point"⟩
  let some y := point.y | throw ⟨.key, "key share is an identity point or compressed"⟩
  pure (x, y)

@[simp] theorem decomposePoint_uncompressed (x y : F) :
    decomposePoint (.uncompressed x y) = .ok (x, y) := rfl

section Shares

variable [Field F] (inverse : F → Option F)

/-- The inputs to `to_multiplicative`: the follower negates its coordinates. -/
def conversionInputs : Role → F → F → List F
  | .leader, x, y => [y, x]
  | .follower, x, y => [-y, -x]

/-- `c = (a * b.inverse())²` from the multiplicative shares `[a, b]`. `inverse` is `P256::inverse`
of `mpz_fields`, which lives outside the repository: the inverse of an element, or none where it
panics. The `try_into().expect(..)` panics on a list of any other length. -/
def squaredRatio : List F → Outcome KeyExchangeError F
  | [a, b] => do
    let c := a * (← Outcome.ofOption (inverse b))
    pure (c * c)
  | _ => .panic

/-- `x_r = d + -x` from the additive shares `[d, ..]`; indexing `[0]` panics on none. -/
def xShare (ds : List F) (x : F) : Outcome KeyExchangeError F :=
  match ds with
  | d :: _ => pure (d + -x)
  | [] => .panic

/-- `derive_x_coord_share` run by the leader on `leaderShare` and by the follower on
`followerShare`, joined by the converter's two rounds: the leader's share and the follower's. -/
def deriveXCoordShares (converter : Converter F) (leaderShare followerShare : EncodedPoint F) :
    Outcome KeyExchangeError (F × F) := do
  let (xL, yL) ← decomposePoint leaderShare
  let (xF, yF) ← decomposePoint followerShare
  let (aL, aF) := converter.toMultiplicative (conversionInputs .leader xL yL)
    (conversionInputs .follower xF yF)
  let cL ← squaredRatio inverse aL
  let cF ← squaredRatio inverse aF
  let (dL, dF) := converter.toAdditive [cL] [cF]
  let xrL ← xShare dL xL
  let xrF ← xShare dF xF
  pure (xrL, xrF)

/-- The inverse of `mpz_fields` inverts every nonzero element. What it does on zero (return a
value, or panic) is left open, and stated where it matters. -/
def InvertsNonzero : Prop := ∀ b : F, b ≠ 0 → inverse b = some b⁻¹

/-! ## The shares add up to `λ² - x₁ - x₂` -/

variable {inverse}

/-- The conversion inputs are additive shares of the differences of the coordinates. -/
theorem conversionInputs_addShares (x₁ y₁ x₂ y₂ : F) :
    AddShares (conversionInputs .leader x₁ y₁) (conversionInputs .follower x₂ y₂)
      [y₁ - y₂, x₁ - x₂] :=
  ⟨rfl, rfl, by simp [conversionInputs, sub_eq_add_neg]⟩

/-- The first round of a correct converter: multiplicative shares `[a, b]`, `[a', b']` of
`[y₁ - y₂, x₁ - x₂]`. -/
theorem toMultiplicative_conversionInputs {converter : Converter F} (hc : converter.Correct)
    (x₁ y₁ x₂ y₂ : F) :
    ∃ a b a' b', converter.toMultiplicative (conversionInputs .leader x₁ y₁)
        (conversionInputs .follower x₂ y₂) = ([a, b], [a', b']) ∧
      a * a' = y₁ - y₂ ∧ b * b' = x₁ - x₂ := by
  obtain ⟨a, a', ms, ms', hmL, hmF, ha, hm⟩ :=
    (hc.toMultiplicative (conversionInputs_addShares x₁ y₁ x₂ y₂)).exists_cons
  obtain ⟨b, b', ns, ns', rfl, rfl, hb, hn⟩ := hm.exists_cons
  obtain ⟨rfl, rfl⟩ := hn.eq_nil
  exact ⟨a, b, a', b', Prod.ext hmL hmF, ha, hb⟩

/-- The second round of a correct converter: additive shares of the product. -/
theorem toAdditive_singleton {converter : Converter F} (hc : converter.Correct) (c c' : F) :
    ∃ d d', converter.toAdditive [c] [c'] = ([d], [d']) ∧ d + d' = c * c' := by
  obtain ⟨d, d', ds, ds', hdL, hdF, hd, hds⟩ :=
    (hc.toAdditive (MulShares.singleton (rfl : c * c' = _))).exists_cons
  obtain ⟨rfl, rfl⟩ := hds.eq_nil
  exact ⟨d, d', Prod.ext hdL hdF, hd⟩

theorem squaredRatio_pair {a b i : F} (h : inverse b = some i) :
    squaredRatio inverse [a, b] = .ok (a * i * (a * i)) := by
  simp [squaredRatio, h]

/-- The squared ratios of multiplicative shares of `[u, v]` multiply to `(u / v)²`. -/
theorem squaredRatio_mul {a b a' b' u v : F} (ha : a * a' = u) (hb : b * b' = v) :
    a * b⁻¹ * (a * b⁻¹) * (a' * b'⁻¹ * (a' * b'⁻¹)) = (u / v) ^ 2 := by
  rw [← ha, ← hb, div_eq_mul_inv, mul_inv]
  ring

/-- When the numerators' shares multiply to zero, so do the squared ratios, whatever the
inverses. -/
theorem squaredRatio_mul_of_zero {a a' i i' : F} (ha : a * a' = 0) :
    a * i * (a * i) * (a' * i' * (a' * i')) = 0 := by
  calc a * i * (a * i) * (a' * i' * (a' * i')) = (a * a') ^ 2 * (i * i') ^ 2 := by ring
    _ = 0 := by rw [ha]; ring

/-- **The shares add up to `λ² - x₁ - x₂`**, with `λ = (y₁ - y₂) / (x₁ - x₂)`, for any two points
with distinct x-coordinates, any correct converter and an inverse that inverts nonzero
elements. -/
theorem deriveXCoordShares_sum (hinv : InvertsNonzero inverse) {converter : Converter F}
    (hc : converter.Correct) (y₁ y₂ : F) {x₁ x₂ : F} (hx : x₁ ≠ x₂) :
    ∃ sL sF, deriveXCoordShares inverse converter (.uncompressed x₁ y₁) (.uncompressed x₂ y₂) =
      .ok (sL, sF) ∧ sL + sF = ((y₁ - y₂) / (x₁ - x₂)) ^ 2 - x₁ - x₂ := by
  obtain ⟨a, b, a', b', hmul, ha, hb⟩ := toMultiplicative_conversionInputs hc x₁ y₁ x₂ y₂
  -- the shares of `x₁ - x₂ ≠ 0` are both nonzero, so both parties invert them
  obtain ⟨hb0, hb0'⟩ := mul_ne_zero_iff.1 (hb ▸ sub_ne_zero.2 hx)
  obtain ⟨d, d', hadd, hd⟩ := toAdditive_singleton hc (a * b⁻¹ * (a * b⁻¹)) (a' * b'⁻¹ * (a' * b'⁻¹))
  refine ⟨d + -x₁, d' + -x₂, ?_, ?_⟩
  · simp only [deriveXCoordShares, decomposePoint_uncompressed, Outcome.ok_bind, hmul,
      squaredRatio_pair (hinv b hb0), squaredRatio_pair (hinv b' hb0'), hadd, xShare,
      Outcome.pure_eq]
  · rw [← squaredRatio_mul ha hb, ← hd]
    ring

/-- **Equal points.** On one point given by both parties, the shares add up to `-2x` whatever the
inverse returns on zero: the numerators' shares multiply to `y - y = 0`. -/
theorem deriveXCoordShares_self (hinv : InvertsNonzero inverse)
    (hzero : (inverse 0).isSome) {converter : Converter F} (hc : converter.Correct) (x y : F) :
    ∃ sL sF, deriveXCoordShares inverse converter (.uncompressed x y) (.uncompressed x y) =
      .ok (sL, sF) ∧ sL + sF = -(2 * x) := by
  -- the inverse returns on every element
  have htot : ∀ b, ∃ i, inverse b = some i := fun b => by
    by_cases hb : b = 0
    · subst hb
      exact Option.isSome_iff_exists.1 hzero
    · exact ⟨b⁻¹, hinv b hb⟩
  obtain ⟨a, b, a', b', hmul, ha, -⟩ := toMultiplicative_conversionInputs hc x y x y
  obtain ⟨i, hi⟩ := htot b
  obtain ⟨i', hi'⟩ := htot b'
  obtain ⟨d, d', hadd, hd⟩ := toAdditive_singleton hc (a * i * (a * i)) (a' * i' * (a' * i'))
  refine ⟨d + -x, d' + -x, ?_, ?_⟩
  · simp only [deriveXCoordShares, decomposePoint_uncompressed, Outcome.ok_bind, hmul,
      squaredRatio_pair hi, squaredRatio_pair hi', hadd, xShare, Outcome.pure_eq]
  · rw [sub_self] at ha
    have h0 : d + d' = 0 := hd.trans (squaredRatio_mul_of_zero ha)
    linear_combination h0

/-- On one point given by both parties, an inverse that panics on zero makes a party panic: one of
the shares of `x - x = 0` is zero. -/
theorem deriveXCoordShares_self_panic (hinv : InvertsNonzero inverse) (hnone : inverse 0 = none)
    {converter : Converter F} (hc : converter.Correct) (x y : F) :
    deriveXCoordShares inverse converter (.uncompressed x y) (.uncompressed x y) = .panic := by
  obtain ⟨a, b, a', b', hmul, -, hb⟩ := toMultiplicative_conversionInputs hc x y x y
  rw [sub_self] at hb
  by_cases hb0 : b = 0
  · -- the leader's share is zero: the leader panics
    subst hb0
    simp [deriveXCoordShares, hmul, squaredRatio, hnone]
  · -- else the follower's is, and the follower panics
    have hb0' : b' = 0 := (mul_eq_zero.1 hb).resolve_left hb0
    subst hb0'
    simp [deriveXCoordShares, hmul, squaredRatio, hinv b hb0, hnone]

end Shares

/-! ## The x-coordinate of the sum, and the ECDH point -/

section Ecdh

variable [Field F] {W : WeierstrassCurve.Affine F}

/-- The x-coordinate of a point; none at infinity. -/
def xCoord : W.Point → Option F
  | .zero => none
  | .some x _ _ => some x

/-- `EncodedPoint::from(PublicKey::from_affine(point)?)`: the uncompressed encoding; the point at
infinity is not a public key. -/
def encodePoint : W.Point → Outcome KeyExchangeError (EncodedPoint F)
  | .zero => throw ⟨.key, "crypto error"⟩
  | .some x y _ => pure (.uncompressed x y)

@[simp] theorem encodePoint_some {x y : F} (h : W.Nonsingular x y) :
    encodePoint (Point.some x y h) = .ok (.uncompressed x y) := rfl

variable [DecidableEq F] (inverse : F → Option F)

/-- `compute_pms_shares` run by both parties: each multiplies the server's key by its private key,
and `derive_x_coord_share` with `converter_0` and with `converter_1` gives the two sharings of the
pre-master secret, each as the leader's share and the follower's. -/
def computePmsShares (converter0 converter1 : Converter F) (serverKey : W.Point)
    (leaderKey followerKey : ℕ) : Outcome KeyExchangeError ((F × F) × (F × F)) := do
  let leaderPoint ← encodePoint (leaderKey • serverKey)
  let followerPoint ← encodePoint (followerKey • serverKey)
  let pmsShare0 ← deriveXCoordShares inverse converter0 leaderPoint followerPoint
  let pmsShare1 ← deriveXCoordShares inverse converter1 leaderPoint followerPoint
  pure (pmsShare0, pmsShare1)

/-- With `a₁ = a₂ = 0`, the x-coordinate of the sum of two points with distinct x-coordinates is
`λ² - x₁ - x₂`. -/
theorem xCoord_add_of_X_ne (ha₁ : W.a₁ = 0) (ha₂ : W.a₂ = 0) {x₁ y₁ x₂ y₂ : F}
    (h₁ : W.Nonsingular x₁ y₁) (h₂ : W.Nonsingular x₂ y₂) (hx : x₁ ≠ x₂) :
    xCoord (Point.some x₁ y₁ h₁ + Point.some x₂ y₂ h₂) =
      some (((y₁ - y₂) / (x₁ - x₂)) ^ 2 - x₁ - x₂) := by
  rw [Point.add_of_X_ne hx]
  simp [xCoord, slope_of_X_ne hx, ha₁, ha₂]

/-- With `a₁ = a₂ = 0`, the double of a point whose tangent is not horizontal does not have the
x-coordinate `-2x`: that would need a tangent of slope zero. -/
theorem xCoord_add_self_ne (ha₁ : W.a₁ = 0) (ha₂ : W.a₂ = 0) {x y : F} (h : W.Nonsingular x y)
    (hℓ : W.slope x x y y ≠ 0) : xCoord (Point.some x y h + Point.some x y h) ≠ some (-(2 * x)) := by
  -- a point of order two has slope zero
  have hy : y ≠ W.negY x y := fun hy => hℓ (slope_of_Y_eq rfl hy)
  rw [Point.add_self_of_Y_ne hy]
  intro hsq
  have hx : W.addX x x (W.slope x x y y) = -(2 * x) := Option.some.inj hsq
  simp only [addX, ha₁, ha₂, zero_mul, add_zero, sub_zero] at hx
  exact hℓ (pow_eq_zero_iff two_ne_zero |>.1 (by linear_combination hx))

variable {inverse} {converter0 converter1 : Converter F}

/-- Both runs of `compute_pms_shares` on the parties' affine points with distinct x-coordinates:
two sharings of `λ² - x₁ - x₂`. -/
theorem computePmsShares_of_some (hinv : InvertsNonzero inverse) (hc0 : converter0.Correct)
    (hc1 : converter1.Correct) {serverKey : W.Point} {leaderKey followerKey : ℕ} {x₁ y₁ x₂ y₂ : F}
    {h₁ : W.Nonsingular x₁ y₁} {h₂ : W.Nonsingular x₂ y₂}
    (hL : leaderKey • serverKey = Point.some x₁ y₁ h₁)
    (hF : followerKey • serverKey = Point.some x₂ y₂ h₂) (hx : x₁ ≠ x₂) :
    ∃ s0 s1 : F × F, computePmsShares inverse converter0 converter1 serverKey leaderKey followerKey =
      .ok (s0, s1) ∧ s0.1 + s0.2 = ((y₁ - y₂) / (x₁ - x₂)) ^ 2 - x₁ - x₂ ∧
      s1.1 + s1.2 = ((y₁ - y₂) / (x₁ - x₂)) ^ 2 - x₁ - x₂ := by
  obtain ⟨sL, sF, hrun0, hsum0⟩ := deriveXCoordShares_sum hinv hc0 y₁ y₂ hx
  obtain ⟨tL, tF, hrun1, hsum1⟩ := deriveXCoordShares_sum hinv hc1 y₁ y₂ hx
  refine ⟨(sL, sF), (tL, tF), ?_, hsum0, hsum1⟩
  simp only [computePmsShares, hL, hF, encodePoint_some, Outcome.ok_bind, hrun0, hrun1,
    Outcome.pure_eq]

/-- **The ECDH point is shared twice.** When the parties' points `d_L Q` and `d_F Q` are affine
with distinct x-coordinates, each converter's run of `compute_pms_shares` gives shares of the
x-coordinate of `(d_L + d_F) Q`. -/
theorem computePmsShares_eq (ha₁ : W.a₁ = 0) (ha₂ : W.a₂ = 0) (hinv : InvertsNonzero inverse)
    (hc0 : converter0.Correct) (hc1 : converter1.Correct) (serverKey : W.Point)
    (leaderKey followerKey : ℕ) (hL : leaderKey • serverKey ≠ 0) (hF : followerKey • serverKey ≠ 0)
    (hx : xCoord (leaderKey • serverKey) ≠ xCoord (followerKey • serverKey)) :
    ∃ s0 s1 : F × F, computePmsShares inverse converter0 converter1 serverKey leaderKey followerKey =
      .ok (s0, s1) ∧ xCoord ((leaderKey + followerKey) • serverKey) = some (s0.1 + s0.2) ∧
      xCoord ((leaderKey + followerKey) • serverKey) = some (s1.1 + s1.2) := by
  cases hP₁ : leaderKey • serverKey with
  | zero => exact absurd hP₁ hL
  | some x₁ y₁ h₁ =>
    cases hP₂ : followerKey • serverKey with
    | zero => exact absurd hP₂ hF
    | some x₂ y₂ h₂ =>
      have hx' : x₁ ≠ x₂ := fun h => hx (by rw [hP₁, hP₂]; exact congrArg some h)
      obtain ⟨s0, s1, hrun, hsum0, hsum1⟩ := computePmsShares_of_some hinv hc0 hc1 hP₁ hP₂ hx'
      refine ⟨s0, s1, hrun, ?_, ?_⟩
      · rw [add_nsmul, hP₁, hP₂, xCoord_add_of_X_ne ha₁ ha₂ h₁ h₂ hx', hsum0]
      · rw [add_nsmul, hP₁, hP₂, xCoord_add_of_X_ne ha₁ ha₂ h₁ h₂ hx', hsum1]

/-- When the parties' points are equal, and the inverse returns on zero, the shares add up to
`-2x`: not the x-coordinate of the double. -/
theorem computePmsShares_double (hinv : InvertsNonzero inverse) (hzero : (inverse 0).isSome)
    (hc0 : converter0.Correct) (hc1 : converter1.Correct) {serverKey : W.Point}
    {leaderKey followerKey : ℕ} {x y : F} {h : W.Nonsingular x y}
    (hL : leaderKey • serverKey = Point.some x y h)
    (hF : followerKey • serverKey = leaderKey • serverKey) :
    ∃ s0 s1 : F × F, computePmsShares inverse converter0 converter1 serverKey leaderKey followerKey =
      .ok (s0, s1) ∧ s0.1 + s0.2 = -(2 * x) ∧ s1.1 + s1.2 = -(2 * x) := by
  obtain ⟨sL, sF, hrun0, hsum0⟩ := deriveXCoordShares_self hinv hzero hc0 x y
  obtain ⟨tL, tF, hrun1, hsum1⟩ := deriveXCoordShares_self hinv hzero hc1 x y
  refine ⟨(sL, sF), (tL, tF), ?_, hsum0, hsum1⟩
  simp only [computePmsShares, hF, hL, encodePoint_some, Outcome.ok_bind, hrun0, hrun1,
    Outcome.pure_eq]

/-- When the parties' points are equal and the inverse panics on zero, `compute_pms_shares`
panics. -/
theorem computePmsShares_double_panic (hinv : InvertsNonzero inverse) (hnone : inverse 0 = none)
    (hc0 : converter0.Correct) {serverKey : W.Point} {leaderKey followerKey : ℕ} {x y : F}
    {h : W.Nonsingular x y} (hL : leaderKey • serverKey = Point.some x y h)
    (hF : followerKey • serverKey = leaderKey • serverKey) :
    computePmsShares inverse converter0 converter1 serverKey leaderKey followerKey = .panic := by
  simp only [computePmsShares, hF, hL, encodePoint_some, Outcome.ok_bind,
    deriveXCoordShares_self_panic hinv hnone hc0 x y, Outcome.panic_bind]

/-- **Equal private keys.** When the parties' points are one affine point whose tangent is not
horizontal, on a curve with `a₁ = a₂ = 0`, and the inverse returns on zero, neither sharing that
`compute_pms_shares` gives is one of the x-coordinate of the ECDH point `(d + d) Q`. -/
theorem computePmsShares_equal_keys_ne (ha₁ : W.a₁ = 0) (ha₂ : W.a₂ = 0)
    (hinv : InvertsNonzero inverse) (hzero : (inverse 0).isSome) (hc0 : converter0.Correct)
    (hc1 : converter1.Correct) {serverKey : W.Point} {key : ℕ} {x y : F} {h : W.Nonsingular x y}
    (hk : key • serverKey = Point.some x y h) (hℓ : W.slope x x y y ≠ 0) :
    ∃ s0 s1 : F × F, computePmsShares inverse converter0 converter1 serverKey key key =
      .ok (s0, s1) ∧ xCoord ((key + key) • serverKey) ≠ some (s0.1 + s0.2) ∧
      xCoord ((key + key) • serverKey) ≠ some (s1.1 + s1.2) := by
  obtain ⟨s0, s1, hrun, hsum0, hsum1⟩ := computePmsShares_double hinv hzero hc0 hc1 hk rfl
  have hne := xCoord_add_self_ne ha₁ ha₂ h hℓ
  rw [add_nsmul, hk]
  exact ⟨s0, s1, hrun, hsum0 ▸ hne, hsum1 ▸ hne⟩

/-- **Two-party point addition shares the x-coordinate of the sum.** For any curve with
`a₁ = a₂ = 0`, correct converters and an inverse that inverts nonzero elements: the leader's and
the follower's shares of two affine points with distinct x-coordinates add up to
`λ² - x₁ - x₂`, the x-coordinate of `P₁ + P₂`; and `compute_pms_shares` gives, with each
converter, shares of the x-coordinate of the ECDH point `(d_L + d_F) Q`, when `d_L Q` and `d_F Q`
are affine points with distinct x-coordinates. -/
theorem point_addition_shares_x_coordinate (ha₁ : W.a₁ = 0) (ha₂ : W.a₂ = 0)
    (hinv : InvertsNonzero inverse) (hc0 : converter0.Correct) (hc1 : converter1.Correct) :
    (∀ (x₁ y₁ x₂ y₂ : F) (h₁ : W.Nonsingular x₁ y₁) (h₂ : W.Nonsingular x₂ y₂), x₁ ≠ x₂ →
      ∃ sL sF, deriveXCoordShares inverse converter0 (.uncompressed x₁ y₁) (.uncompressed x₂ y₂) =
        .ok (sL, sF) ∧ sL + sF = ((y₁ - y₂) / (x₁ - x₂)) ^ 2 - x₁ - x₂ ∧
        xCoord (Point.some x₁ y₁ h₁ + Point.some x₂ y₂ h₂) = some (sL + sF)) ∧
    (∀ (serverKey : W.Point) (leaderKey followerKey : ℕ), leaderKey • serverKey ≠ 0 →
      followerKey • serverKey ≠ 0 →
      xCoord (leaderKey • serverKey) ≠ xCoord (followerKey • serverKey) →
      ∃ s0 s1 : F × F, computePmsShares inverse converter0 converter1 serverKey leaderKey followerKey =
        .ok (s0, s1) ∧ xCoord ((leaderKey + followerKey) • serverKey) = some (s0.1 + s0.2) ∧
        xCoord ((leaderKey + followerKey) • serverKey) = some (s1.1 + s1.2)) := by
  refine ⟨fun x₁ y₁ x₂ y₂ h₁ h₂ hx => ?_, computePmsShares_eq ha₁ ha₂ hinv hc0 hc1⟩
  obtain ⟨sL, sF, hrun, hsum⟩ := deriveXCoordShares_sum hinv hc0 y₁ y₂ hx
  exact ⟨sL, sF, hrun, hsum, by rw [xCoord_add_of_X_ne ha₁ ha₂ h₁ h₂ hx, hsum]⟩

end Ecdh

/-- The field's own inverse inverts every nonzero element. -/
theorem invertsNonzero_inv {F : Type} [Field F] : InvertsNonzero (fun b : F => some b⁻¹) :=
  fun _ _ => rfl

/-! ## On the curve `y² = x³ + 1` over `ℚ` -/

theorem nonsingular_zero_one : (⟨0, 0, 0, 0, 1⟩ : WeierstrassCurve ℚ).toAffine.Nonsingular 0 1 := by
  rw [nonsingular_iff', equation_iff']
  norm_num

theorem nonsingular_two_three :
    (⟨0, 0, 0, 0, 1⟩ : WeierstrassCurve ℚ).toAffine.Nonsingular 2 3 := by
  rw [nonsingular_iff', equation_iff']
  norm_num

theorem point_addition_shares_x_coordinate_rat :
    ∃ sL sF, deriveXCoordShares (fun b => some b⁻¹) Converter.ideal (.uncompressed 0 1)
        (.uncompressed 2 3) = .ok (sL, sF) ∧
      xCoord (Point.some 0 1 nonsingular_zero_one + Point.some 2 3 nonsingular_two_three) =
        some (sL + sF) := by
  obtain ⟨sL, sF, hrun, -, hx⟩ := (point_addition_shares_x_coordinate
    (W := (⟨0, 0, 0, 0, 1⟩ : WeierstrassCurve ℚ).toAffine) rfl rfl invertsNonzero_inv
    Converter.ideal_correct Converter.ideal_correct).1 0 1 2 3 nonsingular_zero_one
      nonsingular_two_three (by norm_num)
  exact ⟨sL, sF, hrun, hx⟩

/-! ## On the curve `y² = x³ - 3x + 1` over `GF(7)`

P-256's form `y² = x³ - 3x + b`, over a small prime field. -/

instance fact_prime_seven : Fact (Nat.Prime 7) := ⟨by norm_num⟩

/-- `y² = x³ - 3x + 1` over `GF(7)`. -/
def curve7 : WeierstrassCurve.Affine (ZMod 7) := (⟨0, 0, 0, -3, 1⟩ : WeierstrassCurve (ZMod 7)).toAffine

theorem nonsingular_curve7_zero_one : curve7.Nonsingular 0 1 := by
  rw [nonsingular_iff', equation_iff']
  decide

/-- With equal private keys the parties' points are equal: the shares of `Q = (0, 1)` add up to
`0 = -2 · 0`, while `2Q = (4, 3)`. -/
theorem compute_pms_shares_equal_keys :
    ∃ s0 s1 : ZMod 7 × ZMod 7, computePmsShares (fun b => some b⁻¹) Converter.ideal
      Converter.ideal (Point.some 0 1 nonsingular_curve7_zero_one) 1 1 = .ok (s0, s1) ∧
      xCoord ((1 + 1) • Point.some 0 1 nonsingular_curve7_zero_one) ≠ some (s0.1 + s0.2) := by
  -- the tangent at `(0, 1)` has slope `-3 / 2`
  have hℓ : curve7.slope 0 0 1 1 ≠ 0 := by
    rw [slope_of_Y_ne rfl (by decide)]
    exact div_ne_zero (by decide) (by decide)
  obtain ⟨s0, s1, hrun, hne, -⟩ := computePmsShares_equal_keys_ne (W := curve7) rfl rfl
    invertsNonzero_inv rfl Converter.ideal_correct Converter.ideal_correct (one_nsmul _) hℓ
  exact ⟨s0, s1, hrun, hne⟩

end Tlsn.KeyExchange
