import Mathlib.Tactic

/-!
# Results that may panic

`Outcome ε α` is what a call of a function returning `Result<α, ε>` can end in: a value, an
error, or a panic. Sequencing (`bind`, hence `do` and `?`) stops at the first error or panic, and
`throw` is the early return of an error.

The inversion lemma `bind_eq_ok` is the one rule that proofs use to take a successful run apart:
a sequence returned a value only if each of its steps did.
-/

/-- A value, an error, or a panic. -/
inductive Outcome (ε α : Type)
  | ok (a : α)
  | err (e : ε)
  | panic
  deriving DecidableEq, Repr

namespace Outcome

variable {ε α β : Type}

/-- Sequencing: continue with the value, keep an error or a panic. -/
def bind : Outcome ε α → (α → Outcome ε β) → Outcome ε β
  | ok a, f => f a
  | err e, _ => err e
  | panic, _ => panic

instance : Monad (Outcome ε) where
  pure := ok
  bind := bind

instance : MonadExceptOf ε (Outcome ε) where
  throw := err
  tryCatch x h := match x with
    | err e => h e
    | x => x

/-- A panic-only result (`none` is a panic), as an outcome. -/
def ofOption : Option α → Outcome ε α
  | some a => ok a
  | none => panic

/-- `map_err`: the error mapped, a value or a panic kept. -/
def mapErr {ε' : Type} (f : ε → ε') : Outcome ε α → Outcome ε' α
  | ok a => ok a
  | err e => err (f e)
  | panic => panic

@[simp] theorem pure_eq (a : α) : (pure a : Outcome ε α) = ok a := rfl

@[simp] theorem ok_bind (a : α) (f : α → Outcome ε β) : (ok a >>= f) = f a := rfl

@[simp] theorem err_bind (e : ε) (f : α → Outcome ε β) : (err e >>= f) = err e := rfl

@[simp] theorem panic_bind (f : α → Outcome ε β) : ((panic : Outcome ε α) >>= f) = panic := rfl

@[simp] theorem throw_eq (e : ε) : (throw e : Outcome ε α) = err e := rfl

@[simp] theorem ofOption_some (a : α) : (ofOption (some a) : Outcome ε α) = ok a := rfl

@[simp] theorem ofOption_none : (ofOption none : Outcome ε α) = panic := rfl

instance : LawfulMonad (Outcome ε) := LawfulMonad.mk' (Outcome ε)
  (fun x => by cases x <;> rfl)
  (fun _ _ => rfl)
  (fun x _ _ => by cases x <;> rfl)

/-- **Inversion of a sequence.** A sequence returned a value only if its first step did and the
rest returned that value. -/
theorem bind_eq_ok {x : Outcome ε α} {f : α → Outcome ε β} {b : β} :
    x >>= f = ok b ↔ ∃ a, x = ok a ∧ f a = ok b := by
  cases x with
  | ok a => simp
  | err e => simp
  | panic => simp

@[simp] theorem mapErr_eq_ok {ε' : Type} {f : ε → ε'} {x : Outcome ε α} {a : α} :
    x.mapErr f = ok a ↔ x = ok a := by
  cases x <;> simp [mapErr]

theorem ofOption_eq_ok {o : Option α} {a : α} : (ofOption o : Outcome ε α) = ok a ↔ o = some a := by
  cases o <;> simp

/-- A result that cannot panic, its error mapped (`map_err`), as an outcome. -/
def ofExcept {ε' : Type} (f : ε' → ε) : Except ε' α → Outcome ε α
  | .ok a => ok a
  | .error e => err (f e)

@[simp] theorem ofExcept_ok {ε' : Type} (f : ε' → ε) (a : α) : ofExcept f (.ok a) = ok a := rfl

@[simp] theorem ofExcept_error {ε' : Type} (f : ε' → ε) (e : ε') :
    (ofExcept f (.error e) : Outcome ε α) = err (f e) := rfl

@[simp] theorem ofExcept_eq_ok {ε' : Type} {f : ε' → ε} {x : Except ε' α} {a : α} :
    ofExcept f x = ok a ↔ x = .ok a := by
  cases x <;> simp

/-! ### Outcomes that agree on success

Two computations that make the same steps but report their failures differently, such as a call
and the same call with its error mapped, return the same values (`SameOk`). Sequencing keeps the
agreement, so it is proved one step at a time. -/

section SameOk

variable {ε' : Type}

/-- `x` and `y` return the same values, whatever their errors and panics. -/
def SameOk (x : Outcome ε α) (y : Outcome ε' α) : Prop := ∀ a, x = ok a ↔ y = ok a

theorem sameOk_mapErr (f : ε → ε') (x : Outcome ε α) : SameOk (x.mapErr f) x :=
  fun _ => mapErr_eq_ok

theorem sameOk_pure (a : α) : SameOk (pure a : Outcome ε α) (pure a : Outcome ε' α) :=
  fun _ => by simp

theorem SameOk.symm {x : Outcome ε α} {y : Outcome ε' α} (h : SameOk x y) : SameOk y x :=
  fun a => (h a).symm

theorem SameOk.trans {ε'' : Type} {x : Outcome ε α} {y : Outcome ε' α} {z : Outcome ε'' α}
    (hxy : SameOk x y) (hyz : SameOk y z) : SameOk x z :=
  fun a => (hxy a).trans (hyz a)

/-- Sequencing keeps the agreement: the first steps agree, and so do the rests from every value. -/
theorem SameOk.bind {x : Outcome ε α} {y : Outcome ε' α} {f : α → Outcome ε β}
    {g : α → Outcome ε' β} (hx : SameOk x y) (hf : ∀ a, SameOk (f a) (g a)) :
    SameOk (x >>= f) (y >>= g) := by
  intro b
  rw [bind_eq_ok, bind_eq_ok]
  constructor
  · rintro ⟨a, ha, hb⟩
    exact ⟨a, (hx a).1 ha, (hf a b).1 hb⟩
  · rintro ⟨a, ha, hb⟩
    exact ⟨a, (hx a).2 ha, (hf a b).2 hb⟩

end SameOk

/-! ### Unsigned machine arithmetic

An operation on `w`-bit unsigned integers whose exact result does not fit in `w` bits overflows:
a build with overflow checks panics, one without wraps the result modulo `2 ^ w`. Whether the
checks are on is a parameter of every model that computes so.
-/

section UintOp

variable (w : ℕ) (overflowChecks : Bool)

/-- `a + b`, `a * b` or another operation `op` on `w`-bit unsigned integers: the exact result when
it fits, else a panic with overflow checks and the wrapped result without. -/
def uintOp (op : ℕ → ℕ → ℕ) (a b : ℕ) : Outcome ε ℕ :=
  if op a b < 2 ^ w then ok (op a b)
  else if overflowChecks then panic
  else ok (op a b % 2 ^ w)

variable {w overflowChecks} {op : ℕ → ℕ → ℕ} {a b : ℕ}

/-- Without overflow the result is exact. -/
theorem uintOp_of_lt (h : op a b < 2 ^ w) :
    (uintOp w overflowChecks op a b : Outcome ε ℕ) = ok (op a b) := by
  simp [uintOp, h]

/-- With overflow checks an overflow panics. -/
theorem uintOp_checked_of_le (h : 2 ^ w ≤ op a b) :
    (uintOp w true op a b : Outcome ε ℕ) = panic := by
  simp [uintOp, Nat.not_lt.2 h]

/-- Without overflow checks an overflow wraps. -/
theorem uintOp_wrapping_of_le (h : 2 ^ w ≤ op a b) :
    (uintOp w false op a b : Outcome ε ℕ) = ok (op a b % 2 ^ w) := by
  simp [uintOp, Nat.not_lt.2 h]

/-- With overflow checks a result is the exact one, and it fits. -/
theorem uintOp_checked_eq_ok {r : ℕ} :
    (uintOp w true op a b : Outcome ε ℕ) = ok r ↔ op a b < 2 ^ w ∧ r = op a b := by
  by_cases h : op a b < 2 ^ w
  · rw [uintOp_of_lt h]
    simp [h, eq_comm]
  · rw [uintOp_checked_of_le (Nat.le_of_not_lt h)]
    simp [h]

variable (w overflowChecks) in
/-- `a - b` on `w`-bit unsigned integers: the exact difference when `b ≤ a`, else an underflow,
a panic with overflow checks and the difference wrapped modulo `2 ^ w` without. -/
def uintSub (a b : ℕ) : Outcome ε ℕ :=
  if b ≤ a then ok (a - b)
  else if overflowChecks then panic
  else ok ((a + 2 ^ w - b) % 2 ^ w)

theorem uintSub_of_le (h : b ≤ a) : (uintSub w overflowChecks a b : Outcome ε ℕ) = ok (a - b) := by
  simp [uintSub, h]

/-- With overflow checks an underflow panics. -/
theorem uintSub_checked_of_lt (h : a < b) : (uintSub w true a b : Outcome ε ℕ) = panic := by
  simp [uintSub, Nat.not_le.2 h]

/-- Without overflow checks an underflow wraps, to `2 ^ w - (b - a)` when `b - a ≤ 2 ^ w`. -/
theorem uintSub_wrapping_of_lt (h : a < b) (hb : b ≤ 2 ^ w) :
    (uintSub w false a b : Outcome ε ℕ) = ok (2 ^ w - (b - a)) := by
  have hlt : a + 2 ^ w - b < 2 ^ w := by omega
  simp [uintSub, Nat.not_le.2 h, Nat.mod_eq_of_lt hlt]
  omega

end UintOp

end Outcome

/-! ### Results that cannot panic

A function whose every path returns, such as a chain of checks with `?`, is modelled in `Except`;
the same inversion rule takes its successful runs apart. -/

namespace Except

variable {ε ε' α β : Type}

@[simp] theorem ok_bind (a : α) (f : α → Except ε β) : (Except.ok a >>= f) = f a := rfl

@[simp] theorem error_bind (e : ε) (f : α → Except ε β) : (Except.error e >>= f) = .error e := rfl

@[simp] theorem mapError_ok (f : ε → ε') (a : α) : (Except.ok a : Except ε α).mapError f = .ok a :=
  rfl

@[simp] theorem mapError_error (f : ε → ε') (e : ε) :
    (Except.error e : Except ε α).mapError f = .error (f e) := rfl

/-- **Inversion of a sequence** in `Except`. -/
theorem bind_eq_ok {x : Except ε α} {f : α → Except ε β} {b : β} :
    x >>= f = .ok b ↔ ∃ a, x = .ok a ∧ f a = .ok b := by
  cases x with
  | ok a => simp [bind, Except.bind]
  | error e => simp [bind, Except.bind]

/-- A check followed by the rest succeeded only if both did. -/
@[simp] theorem bind_unit_eq_ok {x : Except ε Unit} {y : Except ε β} {b : β} :
    (x >>= fun _ => y) = .ok b ↔ x = .ok () ∧ y = .ok b := by
  cases x with
  | ok u => simp [bind, Except.bind]
  | error e => simp [bind, Except.bind]

@[simp] theorem mapError_eq_ok {f : ε → ε'} {x : Except ε α} {a : α} :
    x.mapError f = .ok a ↔ x = .ok a := by
  cases x <;> simp [Except.mapError]

end Except
