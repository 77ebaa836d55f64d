import Mathlib.Algebra.CharP.Two
import Mathlib.Algebra.BigOperators.Group.List.Basic
import Mathlib.Tactic.Ring

/-!
# Additive shares of powers, and polynomial hashes

Two parties hold additive shares of a list of values when, position by position, their entries add
up to the values. The facts here are what a two-party evaluation of a polynomial hash uses:

* geometric progressions `a, a q, a q², …` (`geom`), which the powers of a key and its odd powers
  are, and how they extend, multiply and drop;
* shares of values give, by the same inner product on each side, shares of the inner product
  (`AddShares.dot`);
* a polynomial hash computed by Horner's rule, `Y ← (Y + X) H` from `Y = 0`, is the inner product of
  the message with the powers of the key, highest first (`horner_eq_dot`).
-/

namespace Sharing

variable {F : Type} [CommRing F]

/-! ### Geometric progressions -/

/-- The geometric progression `a, a q, a q², …` of `k` terms. -/
def geom (a q : F) (k : ℕ) : List F := (List.range k).map fun j => a * q ^ j

@[simp] theorem length_geom (a q : F) (k : ℕ) : (geom a q k).length = k := by simp [geom]

@[simp] theorem geom_zero (a q : F) : geom a q 0 = [] := rfl

theorem geom_succ (a q : F) (k : ℕ) : geom a q (k + 1) = geom a q k ++ [a * q ^ k] := by
  simp [geom, List.range_succ]

theorem geom_succ' (a q : F) (k : ℕ) : geom a q (k + 1) = a :: geom (a * q) q k := by
  simp only [geom, List.range_succ_eq_map, List.map_cons, List.map_map, pow_zero, mul_one]
  congr 1
  apply List.map_congr_left
  intro j _
  simp only [Function.comp_apply, pow_succ']
  ring

theorem geom_add (a q : F) (k l : ℕ) : geom a q (k + l) = geom a q k ++ geom (a * q ^ k) q l := by
  induction l with
  | zero => simp
  | succ l ih =>
    rw [← Nat.add_assoc, geom_succ, ih, geom_succ, List.append_assoc, pow_add, mul_assoc]

theorem getElem?_geom (a q : F) {k j : ℕ} (hj : j < k) : (geom a q k)[j]? = some (a * q ^ j) := by
  simp [geom, hj]

/-- A list is a progression when each entry is its term. -/
theorem eq_geom_iff {v : List F} {a q : F} {n : ℕ} :
    v = geom a q n ↔ v.length = n ∧ ∀ j (hj : j < v.length), v[j] = a * q ^ j := by
  constructor
  · rintro rfl
    exact ⟨length_geom a q n, fun j hj => by simp [geom]⟩
  · rintro ⟨rfl, h⟩
    apply List.ext_getElem (length_geom a q _).symm
    intro j h₁ h₂
    rw [h]
    simp [geom]

theorem getLast?_geom (a q : F) (k : ℕ) : (geom a q (k + 1)).getLast? = some (a * q ^ k) := by
  simp [geom_succ]

theorem take_geom (a q : F) (k m : ℕ) : (geom a q k).take m = geom a q (min m k) := by
  simp [geom, ← List.map_take]

theorem drop_geom (a q : F) (k i : ℕ) : (geom a q k).drop i = geom (a * q ^ i) q (k - i) := by
  rcases Nat.lt_or_ge k i with hki | hik
  · rw [List.drop_of_length_le (by simp; omega), Nat.sub_eq_zero_of_le hki.le, geom_zero]
  · obtain ⟨l, rfl⟩ := Nat.exists_eq_add_of_le hik
    rw [geom_add, List.drop_left' (length_geom a q i), Nat.add_sub_cancel_left]

/-- The progressions of two parties' factors multiply to the progression of the products. -/
theorem zipWith_mul_geom (a q b r : F) (k : ℕ) :
    List.zipWith (· * ·) (geom a q k) (geom b r k) = geom (a * b) (q * r) k := by
  simp only [geom, List.zipWith_map, List.zipWith_self]
  congr 1
  funext j
  ring

/-! ### Additive shares -/

/-- `x` and `y` are additive shares of `v`: of its length, and adding up to it position by
position. -/
structure AddShares (x y v : List F) : Prop where
  length_left : x.length = v.length
  length_right : y.length = v.length
  sum : List.zipWith (· + ·) x y = v

theorem AddShares.nil : AddShares ([] : List F) [] [] := ⟨rfl, rfl, rfl⟩

theorem AddShares.append {x y v x' y' v' : List F} (h : AddShares x y v)
    (h' : AddShares x' y' v') : AddShares (x ++ x') (y ++ y') (v ++ v') where
  length_left := by simp [h.length_left, h'.length_left]
  length_right := by simp [h.length_right, h'.length_right]
  sum := by rw [List.zipWith_append (h.length_left.trans h.length_right.symm), h.sum, h'.sum]

theorem AddShares.cons_iff {x y c : F} {xs ys vs : List F} :
    AddShares (x :: xs) (y :: ys) (c :: vs) ↔ x + y = c ∧ AddShares xs ys vs := by
  constructor
  · rintro ⟨hl, hr, hs⟩
    simp only [List.zipWith_cons_cons, List.cons.injEq] at hs
    exact ⟨hs.1, ⟨by simpa using hl, by simpa using hr, hs.2⟩⟩
  · rintro ⟨hc, hl, hr, hs⟩
    exact ⟨by simp [hl], by simp [hr], by simp [hc, hs]⟩

theorem AddShares.singleton {a b c : F} (h : a + b = c) : AddShares [a] [b] [c] :=
  ⟨rfl, rfl, by simp [h]⟩

/-- Shares of a position: the entries of both parties there add up to the value. -/
theorem AddShares.getD {x y v : List F} (h : AddShares x y v) (i : ℕ) :
    x.getD i 0 + y.getD i 0 = v.getD i 0 := by
  rcases Nat.lt_or_ge i v.length with hi | hi
  · have hx : i < x.length := h.length_left ▸ hi
    have hy : i < y.length := h.length_right ▸ hi
    rw [← h.sum]
    simp [List.getD_eq_getElem?_getD, hx, hy]
  · simp [List.getD_eq_getElem?_getD, hi, h.length_left, h.length_right]

/-- Shares of a progression, position by position. -/
theorem addShares_geom_iff {x y : List F} {a q : F} {n : ℕ} :
    AddShares x y (geom a q n) ↔ x.length = n ∧ y.length = n ∧
      ∀ k (hx : k < x.length) (hy : k < y.length), x[k] + y[k] = a * q ^ k := by
  constructor
  · rintro ⟨hl, hr, hs⟩
    rw [length_geom] at hl hr
    refine ⟨hl, hr, fun k hx hy => ?_⟩
    -- the sum read at `k`
    have hk : (List.zipWith (· + ·) x y)[k]? = (geom a q n)[k]? := by rw [hs]
    rw [List.getElem?_zipWith, List.getElem?_eq_getElem hx, List.getElem?_eq_getElem hy,
      getElem?_geom a q (hl ▸ hx)] at hk
    simpa using hk
  · rintro ⟨hl, hr, hs⟩
    refine ⟨by rw [hl, length_geom], by rw [hr, length_geom], ?_⟩
    apply List.ext_getElem
    · simp [hl, hr]
    · intro k h₁ h₂
      rw [List.getElem_zipWith, hs]
      simp [geom]

theorem AddShares.take {x y v : List F} (h : AddShares x y v) (m : ℕ) :
    AddShares (x.take m) (y.take m) (v.take m) where
  length_left := by simp [h.length_left]
  length_right := by simp [h.length_right]
  sum := by rw [← h.sum, List.take_zipWith]

theorem AddShares.reverse {x y v : List F} (h : AddShares x y v) :
    AddShares x.reverse y.reverse v.reverse where
  length_left := by simp [h.length_left]
  length_right := by simp [h.length_right]
  sum := by rw [← h.sum, List.reverse_zipWith (h.length_left.trans h.length_right.symm)]

/-- Shares of a value list that starts with `c` start with shares of `c`. -/
theorem AddShares.exists_cons {x y : List F} {c : F} {vs : List F} (h : AddShares x y (c :: vs)) :
    ∃ a b xs ys, x = a :: xs ∧ y = b :: ys ∧ a + b = c ∧ AddShares xs ys vs := by
  have hl := h.length_left
  have hr := h.length_right
  cases x with
  | nil => simp at hl
  | cons a xs =>
    cases y with
    | nil => simp at hr
    | cons b ys => exact ⟨a, b, xs, ys, rfl, rfl, AddShares.cons_iff.1 h⟩

theorem AddShares.eq_nil {x y : List F} (h : AddShares x y []) : x = [] ∧ y = [] :=
  ⟨List.eq_nil_of_length_eq_zero h.length_left, List.eq_nil_of_length_eq_zero h.length_right⟩

/-! ### Multiplicative shares and share conversion -/

/-- `x` and `y` are multiplicative shares of `v`: of its length, and multiplying to it position
by position. -/
structure MulShares (x y v : List F) : Prop where
  length_left : x.length = v.length
  length_right : y.length = v.length
  product : List.zipWith (· * ·) x y = v

theorem MulShares.singleton {a b c : F} (h : a * b = c) : MulShares [a] [b] [c] :=
  ⟨rfl, rfl, by simp [h]⟩

theorem MulShares.exists_cons {x y : List F} {c : F} {vs : List F} (h : MulShares x y (c :: vs)) :
    ∃ a b xs ys, x = a :: xs ∧ y = b :: ys ∧ a * b = c ∧ MulShares xs ys vs := by
  obtain ⟨hl, hr, hp⟩ := h
  cases x with
  | nil => simp at hl
  | cons a xs =>
    cases y with
    | nil => simp at hr
    | cons b ys =>
      simp only [List.zipWith_cons_cons, List.cons.injEq] at hp
      exact ⟨a, b, xs, ys, rfl, rfl, hp.1, by simpa using hl, by simpa using hr, hp.2⟩

theorem MulShares.eq_nil {x y : List F} (h : MulShares x y []) : x = [] ∧ y = [] :=
  ⟨List.eq_nil_of_length_eq_zero h.length_left, List.eq_nil_of_length_eq_zero h.length_right⟩

/-- A conversion of shares between two parties, given by what both parties get from what both
give: additive shares to multiplicative ones, and back. -/
structure Converter (F : Type) where
  toMultiplicative : List F → List F → List F × List F
  toAdditive : List F → List F → List F × List F

/-- A converter is correct when it turns shares of values into shares of the same values. -/
structure Converter.Correct (c : Converter F) : Prop where
  toMultiplicative {x y v : List F} :
    AddShares x y v → MulShares (c.toMultiplicative x y).1 (c.toMultiplicative x y).2 v
  toAdditive {x y v : List F} :
    MulShares x y v → AddShares (c.toAdditive x y).1 (c.toAdditive x y).2 v

/-- The converter that gives the first party the values themselves, and the second the unit of
the operation. -/
def Converter.ideal : Converter F where
  toMultiplicative x y := (List.zipWith (· + ·) x y, List.zipWith (fun _ _ => 1) x y)
  toAdditive x y := (List.zipWith (· * ·) x y, List.zipWith (fun _ _ => 0) x y)

theorem Converter.ideal_correct : (Converter.ideal : Converter F).Correct where
  toMultiplicative h := by
    obtain ⟨hl, hr, hs⟩ := h
    refine ⟨by simp [Converter.ideal, hl, hr], by simp [Converter.ideal, hl, hr], ?_⟩
    rw [← hs]
    apply List.ext_getElem <;> simp [Converter.ideal]
  toAdditive h := by
    obtain ⟨hl, hr, hp⟩ := h
    refine ⟨by simp [Converter.ideal, hl, hr], by simp [Converter.ideal, hl, hr], ?_⟩
    rw [← hp]
    apply List.ext_getElem <;> simp [Converter.ideal]

/-! ### Inner products and Horner's rule -/

/-- The inner product `∑ xᵢ sᵢ`, over the shorter of the two lists. -/
def dot (xs ss : List F) : F := (List.zipWith (· * ·) xs ss).sum

@[simp] theorem dot_nil_left (ss : List F) : dot [] ss = 0 := rfl

@[simp] theorem dot_cons_cons (x s : F) (xs ss : List F) :
    dot (x :: xs) (s :: ss) = x * s + dot xs ss := by
  simp [dot]

/-- A left fold that adds up products of pairs is the inner product. -/
theorem foldl_zip_eq_dot {β : Type} (g : β → F) (bs : List β) (ss : List F) (init : F) :
    (bs.zip ss).foldl (fun acc p => acc + g p.1 * p.2) init = init + dot (bs.map g) ss := by
  induction bs generalizing ss init with
  | nil => simp
  | cons b bs ih =>
    cases ss with
    | nil => simp [dot]
    | cons s ss =>
      rw [List.zip_cons_cons, List.foldl_cons, ih, List.map_cons, dot_cons_cons]
      ring

/-- The inner product distributes over a position-wise sum of lists of one length. -/
theorem dot_zipWith_add (xs : List F) {x y : List F} (hlen : x.length = y.length) :
    dot xs (List.zipWith (· + ·) x y) = dot xs x + dot xs y := by
  induction xs generalizing x y with
  | nil => simp
  | cons a xs ih =>
    match x, y, hlen with
    | [], [], _ => simp [dot]
    | s :: x, t :: y, hlen =>
      rw [List.zipWith_cons_cons, dot_cons_cons, dot_cons_cons, dot_cons_cons,
        ih (Nat.succ.inj hlen)]
      ring

/-- The inner products of a list with the two parties' shares add up to its inner product with the
shared values. -/
theorem AddShares.dot {x y v : List F} (h : AddShares x y v) (xs : List F) :
    Sharing.dot xs x + Sharing.dot xs y = Sharing.dot xs v := by
  rw [← h.sum, dot_zipWith_add xs (h.length_left.trans h.length_right.symm)]

/-- The polynomial hash by Horner's rule: `Y ← (Y + X) H`, from `Y = init`. -/
def horner (H : F) (init : F) (xs : List F) : F := xs.foldl (fun y x => (y + x) * H) init

/-- Horner's rule evaluates `init Hᵐ + ∑ Xᵢ H^(m-i)`: the message against the powers of the key,
highest first. -/
theorem horner_eq_dot (H init : F) (xs : List F) :
    horner H init xs = init * H ^ xs.length + dot xs (geom H H xs.length).reverse := by
  induction xs generalizing init with
  | nil => simp [horner]
  | cons x xs ih =>
    have hih : horner H ((init + x) * H) xs =
        (init + x) * H * H ^ xs.length + dot xs (geom H H xs.length).reverse := ih _
    rw [horner, List.foldl_cons, ← horner, hih, List.length_cons, geom_succ, List.reverse_append]
    simp only [List.reverse_singleton, List.singleton_append, dot_cons_cons]
    ring

end Sharing
