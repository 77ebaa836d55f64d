import Mathlib.Tactic.Basic

/-!
# Programs that ask questions, run alone or two in lockstep

A component that calls on a service it shares with another party (a share conversion, a joint
computation, a message to the other party) is a program that asks questions and continues with the
answers: `Prog`, the free monad of the questions, with a leaf for a panic. A program is given its
meaning by what answers it:

* `Spec`: against every answer a class of services may give, the program ends, without a panic,
  in a value with a property. Its rule for a sequence (`Spec.bind`) is that of a Hoare logic of
  total correctness;
* `run`: one party against a service with a state, each answer given by the state and the
  question, which the service then updates;
* `lockstep`: two parties that ask their questions at the same times, each pair answered at once
  by a joint service with a state. A program that stops while the other asks, or a pair the
  service refuses, gets the two stuck (`none`), and so does a panic.

Each has its rule for a sequence (`Spec.bind`, `run_bind`, `lockstep_bind`): the run of a sequence
is the run of its first part, followed by the run of the rest from the first part's value and the
state it left.
-/

namespace Interaction

/-- A program that asks questions `Q`, each `q` answered by an `R q`, and ends in a value `α` or in
a panic. -/
inductive Prog (Q : Type) (R : Q → Type) (α : Type) where
  | ret (a : α)
  | panic
  | ask (q : Q) (k : R q → Prog Q R α)

namespace Prog

variable {Q : Type} {R : Q → Type} {α β γ : Type}

/-- Sequencing: the continuation after every value the program may end in; a panic stays one. -/
def bind : Prog Q R α → (α → Prog Q R β) → Prog Q R β
  | ret a, f => f a
  | panic, _ => panic
  | ask q k, f => ask q fun r => (k r).bind f

instance : Monad (Prog Q R) where
  pure := ret
  bind := bind

@[simp] theorem pure_eq (a : α) : (pure a : Prog Q R α) = ret a := rfl

@[simp] theorem ret_bind (a : α) (f : α → Prog Q R β) : (ret a >>= f) = f a := rfl

@[simp] theorem panic_bind (f : α → Prog Q R β) : ((panic : Prog Q R α) >>= f) = panic := rfl

@[simp] theorem ask_bind (q : Q) (k : R q → Prog Q R α) (f : α → Prog Q R β) :
    (ask q k >>= f) = ask q fun r => k r >>= f := rfl

theorem bind_ret (p : Prog Q R α) : p >>= ret = p := by
  induction p with
  | ret a => rfl
  | panic => rfl
  | ask q k ih =>
    rw [ask_bind]
    exact congrArg (ask q) (funext ih)

theorem bind_assoc (p : Prog Q R α) (f : α → Prog Q R β) (g : β → Prog Q R γ) :
    p >>= f >>= g = p >>= fun a => f a >>= g := by
  induction p with
  | ret a => rfl
  | panic => rfl
  | ask q k ih =>
    simp only [ask_bind]
    exact congrArg (ask q) (funext ih)

instance : LawfulMonad (Prog Q R) := LawfulMonad.mk' (Prog Q R)
  (fun p => bind_ret p)
  (fun _ _ => rfl)
  (fun p f g => bind_assoc p f g)

/-- A value, or a panic on `none` (an `unwrap`, an index out of bounds, a failed `assert!`). -/
def ofOption : Option α → Prog Q R α
  | some a => ret a
  | none => panic

@[simp] theorem ofOption_some (a : α) : (ofOption (some a) : Prog Q R α) = ret a := rfl

@[simp] theorem ofOption_none : (ofOption none : Prog Q R α) = panic := rfl

/-- Ask one question; its answer is the value. -/
def query (q : Q) : Prog Q R (R q) := ask q ret

@[simp] theorem query_bind (q : Q) (f : R q → Prog Q R β) : (query q >>= f) = ask q f := rfl

/-! ### Against every allowed answer -/

/-- Against every answer `r` to a question `q` with `A q r`, the program ends without a panic in a
value satisfying `post`. -/
def Spec (A : (q : Q) → R q → Prop) (post : α → Prop) : Prog Q R α → Prop
  | ret a => post a
  | panic => False
  | ask q k => ∀ r, A q r → Spec A post (k r)

variable {A : (q : Q) → R q → Prop}

@[simp] theorem spec_ret {post : α → Prop} {a : α} : Spec A post (ret a : Prog Q R α) ↔ post a :=
  Iff.rfl

@[simp] theorem spec_pure {post : α → Prop} {a : α} : Spec A post (pure a : Prog Q R α) ↔ post a :=
  Iff.rfl

@[simp] theorem not_spec_panic {post : α → Prop} : ¬ Spec A post (panic : Prog Q R α) := id

theorem spec_ask {post : α → Prop} {q : Q} {k : R q → Prog Q R α} :
    Spec A post (ask q k) ↔ ∀ r, A q r → Spec A post (k r) := Iff.rfl

theorem Spec.mono {post post' : α → Prop} {p : Prog Q R α} (h : Spec A post p)
    (hpost : ∀ a, post a → post' a) : Spec A post' p := by
  induction p with
  | ret a => exact hpost a h
  | panic => exact h
  | ask q k ih => exact fun r hr => ih r (h r hr)

/-- **The rule for a sequence.** The first part ends in a value with `P`, and the rest, from every
such value, ends in one with `post`. -/
theorem Spec.bind {P : α → Prop} {post : β → Prop} {p : Prog Q R α} {f : α → Prog Q R β}
    (hp : Spec A P p) (hf : ∀ a, P a → Spec A post (f a)) : Spec A post (p >>= f) := by
  induction p with
  | ret a => exact hf a hp
  | panic => exact hp
  | ask q k ih => exact fun r hr => ih r (hp r hr)

/-- The values of a program mapped. -/
theorem Spec.map {P : α → Prop} {post : β → Prop} {p : Prog Q R α} (h : Spec A P p) {f : α → β}
    (hf : ∀ a, P a → post (f a)) : Spec A post (f <$> p) :=
  Spec.bind h fun a ha => hf a ha

/-! ### Whatever the answers

`Wp post p` is the weakest precondition of partial correctness against any service: every value
the program may end in, whatever the answers, satisfies `post`; a panic ends in none. Its rules
go through the `do` fragment as equations, so that `simp` with them turns a statement about a program
into one about its answers. -/

/-- Every value the program may end in, whatever the answers to its questions, satisfies
`post`. -/
def Wp (post : α → Prop) : Prog Q R α → Prop
  | ret a => post a
  | panic => True
  | ask _ k => ∀ r, Wp post (k r)

@[simp] theorem wp_ret {post : α → Prop} {a : α} : Wp post (ret a : Prog Q R α) ↔ post a :=
  Iff.rfl

@[simp] theorem wp_pure {post : α → Prop} {a : α} : Wp post (pure a : Prog Q R α) ↔ post a :=
  Iff.rfl

@[simp] theorem wp_panic {post : α → Prop} : Wp post (panic : Prog Q R α) := trivial

@[simp] theorem wp_ask {post : α → Prop} {q : Q} {k : R q → Prog Q R α} :
    Wp post (ask q k) ↔ ∀ r, Wp post (k r) := Iff.rfl

@[simp] theorem wp_bind {post : β → Prop} {p : Prog Q R α} {f : α → Prog Q R β} :
    Wp post (p >>= f) ↔ Wp (fun a => Wp post (f a)) p := by
  induction p with
  | ret a => rfl
  | panic => rfl
  | ask q k ih => exact forall_congr' ih

theorem Wp.mono {post post' : α → Prop} {p : Prog Q R α} (h : Wp post p)
    (hpost : ∀ a, post a → post' a) : Wp post' p := by
  induction p with
  | ret a => exact hpost a h
  | panic => trivial
  | ask q k ih => exact fun r => ih r (h r)

/-! ### One party against a service -/

variable {σ : Type}

/-- The run of one party against a service with a state: each question answered by the service
from its state, which it updates. `none` is a panic. -/
def run (service : σ → (q : Q) → R q × σ) : σ → Prog Q R α → Option (α × σ)
  | s, ret a => some (a, s)
  | _, panic => none
  | s, ask q k => run service (service s q).2 (k (service s q).1)

theorem run_bind (service : σ → (q : Q) → R q × σ) (s : σ) (p : Prog Q R α) (f : α → Prog Q R β) :
    run service s (p >>= f) = (run service s p).bind fun x => run service x.2 (f x.1) := by
  induction p generalizing s with
  | ret a => rfl
  | panic => rfl
  | ask q k ih => exact ih _ _

theorem run_map (service : σ → (q : Q) → R q × σ) (s : σ) (p : Prog Q R α) (f : α → β) :
    run service s (f <$> p) = (run service s p).map fun x => (f x.1, x.2) := by
  show run service s (p >>= fun a => ret (f a)) = _
  rw [run_bind]
  cases run service s p <;> rfl

/-- A program that ends well against every allowed answer ends well against every service that
only gives allowed answers. -/
theorem Spec.run {post : α → Prop} {p : Prog Q R α} (h : Spec A post p)
    {service : σ → (q : Q) → R q × σ}
    (hservice : ∀ s q, A q (service s q).1) (s : σ) :
    ∃ a s', Prog.run service s p = some (a, s') ∧ post a := by
  induction p generalizing s with
  | ret a => exact ⟨a, s, rfl, h⟩
  | panic => exact absurd h not_spec_panic
  | ask q k ih => exact ih _ (h _ (hservice s q)) _

/-- What holds whatever the answers holds of a run against any service. -/
theorem Wp.run {post : α → Prop} {p : Prog Q R α} (h : Wp post p)
    {service : σ → (q : Q) → R q × σ} {s s' : σ} {a : α}
    (hrun : Prog.run service s p = some (a, s')) : post a := by
  induction p generalizing s with
  | ret a₀ =>
    cases hrun
    exact h
  | panic => cases hrun
  | ask q k ih => exact ih _ (h _) hrun

/-! ### Two parties in lockstep -/

/-- The run of two parties that ask their questions at the same times, each pair answered at once
by a joint service with a state; `none` when one stops while the other asks, when the service
refuses a pair, or on a panic. -/
def lockstep (joint : σ → (q q' : Q) → Option (R q × R q' × σ)) :
    σ → Prog Q R α → Prog Q R β → Option (α × β × σ)
  | s, ret a, ret b => some (a, b, s)
  | s, ask q k, ask q' k' =>
    match joint s q q' with
    | some (r, r', s') => lockstep joint s' (k r) (k' r')
    | none => none
  | _, _, _ => none

variable {joint : σ → (q q' : Q) → Option (R q × R q' × σ)}

@[simp] theorem lockstep_ret_ret (s : σ) (a : α) (b : β) :
    lockstep joint s (ret a) (ret b : Prog Q R β) = some (a, b, s) := rfl

/-- Two questions asked together: the joint service's answers, and the two programs go on. -/
theorem lockstep_ask_ask_eq (s : σ) (q q' : Q) (k : R q → Prog Q R α) (k' : R q' → Prog Q R β) :
    lockstep joint s (ask q k) (ask q' k') =
      (joint s q q').bind fun x => lockstep joint x.2.2 (k x.1) (k' x.2.1) := by
  simp only [lockstep]
  cases joint s q q' <;> rfl

theorem lockstep_ask_ask {s s' : σ} {q q' : Q} {r : R q} {r' : R q'} (k : R q → Prog Q R α)
    (k' : R q' → Prog Q R β) (h : joint s q q' = some (r, r', s')) :
    lockstep joint s (ask q k) (ask q' k') = lockstep joint s' (k r) (k' r') := by
  simp only [lockstep, h]

/-- **The rule for a sequence.** When the first parts of the two programs end together, the
sequences go on as the rests do, from the values and the state the first parts left. -/
theorem lockstep_bind {s s' : σ} {p : Prog Q R α} {p' : Prog Q R β} {a : α} {b : β}
    (h : lockstep joint s p p' = some (a, b, s')) (f : α → Prog Q R γ) {δ : Type}
    (f' : β → Prog Q R δ) :
    lockstep joint s (p >>= f) (p' >>= f') = lockstep joint s' (f a) (f' b) := by
  induction p generalizing s p' with
  | ret a₀ =>
    cases p' with
    | ret b₀ =>
      simp only [lockstep_ret_ret, Option.some.injEq, Prod.mk.injEq] at h
      obtain ⟨rfl, rfl, rfl⟩ := h
      rfl
    | panic => cases h
    | ask q' k' => cases h
  | panic => cases p' <;> cases h
  | ask q k ih =>
    cases p' with
    | ret b₀ => cases h
    | panic => cases h
    | ask q' k' =>
      simp only [lockstep] at h
      simp only [ask_bind, lockstep]
      split at h
      · next r r' s₁ _ => exact ih r h
      · cases h

/-- The values of two programs mapped: the run of the programs, its values mapped. -/
theorem lockstep_map {s s' : σ} {p : Prog Q R α} {p' : Prog Q R β} {a : α} {b : β}
    (h : lockstep joint s p p' = some (a, b, s')) (f : α → γ) {δ : Type} (f' : β → δ) :
    lockstep joint s (f <$> p) (f' <$> p') = some (f a, f' b, s') :=
  lockstep_bind h _ _

/-! ### Programs that may fail

A program that returns early with an error at each `?` is a program of `ExceptT ε (Prog Q R)`; its
run is that of the program of `Except ε` values under it (`ExceptT.run`). -/

variable {ε : Type}

/-- A statement about every answer that may be an error: one about each error and each value. -/
@[simp] theorem forall_except {P : Except ε α → Prop} :
    (∀ x, P x) ↔ (∀ e, P (.error e)) ∧ ∀ a, P (.ok a) :=
  ⟨fun h => ⟨fun e => h _, fun a => h _⟩, fun h x => by cases x with
    | error e => exact h.1 e
    | ok a => exact h.2 a⟩

/-- When the first parts of two programs that may fail succeed together, the sequences go on as
the rests do, from the two values. -/
theorem lockstep_bind_ok {s s' : σ} {p : ExceptT ε (Prog Q R) α} {p' : ExceptT ε (Prog Q R) β}
    {a : α} {b : β} (h : lockstep joint s p.run p'.run = some (.ok a, .ok b, s'))
    (f : α → ExceptT ε (Prog Q R) γ) {δ : Type} (f' : β → ExceptT ε (Prog Q R) δ) :
    lockstep joint s (p >>= f).run (p' >>= f').run = lockstep joint s' (f a).run (f' b).run := by
  rw [ExceptT.run_bind, ExceptT.run_bind]
  exact lockstep_bind h _ _

/-- A question whose answer is mapped to a value or an error, asked by the two parties. -/
theorem lockstep_map_query {s : σ} {q q' : Q} (f : R q → Except ε α) (f' : R q' → Except ε β) :
    lockstep joint s (ExceptT.mk (f <$> query q)).run (ExceptT.mk (f' <$> query q')).run =
      (joint s q q').map fun x => (f x.1, f' x.2.1, x.2.2) := by
  show lockstep joint s (ask q fun r => ret (f r)) (ask q' fun r => ret (f' r)) = _
  simp only [lockstep]
  cases joint s q q' <;> rfl

variable {τ : Type}

/-! The run of a method on an object, step by step: these equations, with `ask_bind`, `ret_bind`
and `lockstep_ask_ask_eq`, are what `simp` executes two methods in lockstep with. -/

theorem run_run_bind (m : ExceptT ε (StateT τ (Prog Q R)) β)
    (k : β → ExceptT ε (StateT τ (Prog Q R)) α) (o : τ) :
    (m >>= k).run.run o = m.run.run o >>= fun x => match x.1 with
      | .ok b => (k b).run.run x.2
      | .error e => ret (.error e, x.2) := by
  rw [ExceptT.run_bind, StateT.run_bind]
  congr
  funext x
  rcases x with ⟨_ | b, o₁⟩ <;> rfl

theorem run_run_map (m : ExceptT ε (StateT τ (Prog Q R)) β) (f : β → α) (o : τ) :
    (f <$> m).run.run o = m.run.run o >>= fun x => ret (match x.1 with
      | .ok b => .ok (f b)
      | .error e => .error e, x.2) := by
  rw [map_eq_pure_bind, run_run_bind]
  congr
  funext x
  rcases x with ⟨_ | b, o₁⟩ <;> rfl

@[simp] theorem run_run_pure (a : α) (o : τ) :
    (pure a : ExceptT ε (StateT τ (Prog Q R)) α).run.run o = ret (.ok a, o) := rfl

@[simp] theorem run_run_throw (e : ε) (o : τ) :
    (throw e : ExceptT ε (StateT τ (Prog Q R)) α).run.run o = ret (.error e, o) := rfl

@[simp] theorem run_run_get (o : τ) :
    (get : ExceptT ε (StateT τ (Prog Q R)) τ).run.run o = ret (.ok o, o) := rfl

@[simp] theorem run_run_modify (f : τ → τ) (o : τ) :
    (modify f : ExceptT ε (StateT τ (Prog Q R)) PUnit).run.run o = ret (.ok ⟨⟩, f o) := rfl

@[simp] theorem run_run_modifyGet (f : τ → α × τ) (o : τ) :
    (modifyGet f : ExceptT ε (StateT τ (Prog Q R)) α).run.run o = ret (.ok (f o).1, (f o).2) := rfl

@[simp] theorem run_run_query (q : Q) (f : R q → Except ε α) (o : τ) :
    (ExceptT.mk (StateT.lift (f <$> query q)) : ExceptT ε (StateT τ (Prog Q R)) α).run.run o =
      ask q fun r => ret (f r, o) := rfl

theorem run_run_ite {c : Prop} [Decidable c] (m m' : ExceptT ε (StateT τ (Prog Q R)) α) (o : τ) :
    (if c then m else m').run.run o = if c then m.run.run o else m'.run.run o := by
  split <;> rfl

@[simp] theorem run_run_panic (o : τ) :
    (ExceptT.lift (StateT.lift panic) : ExceptT ε (StateT τ (Prog Q R)) α).run.run o = panic := rfl

/-- Two questions of two objects' methods answered together, each answer mapped to a value: the
sequences go on from the two values. -/
theorem lockstep_query_query_bind {s s' : σ} {q q' : Q} {r : R q} {r' : R q'}
    (h : joint s q q' = some (r, r', s')) {f : R q → Except ε α} {f' : R q' → Except ε β} {a : α}
    {b : β} (hf : f r = .ok a) (hf' : f' r' = .ok b) (k : α → ExceptT ε (StateT τ (Prog Q R)) γ)
    {δ : Type} (k' : β → ExceptT ε (StateT τ (Prog Q R)) δ) (o₁ o₂ : τ) :
    lockstep joint s ((ExceptT.mk (StateT.lift (f <$> query q)) >>= k).run.run o₁)
        ((ExceptT.mk (StateT.lift (f' <$> query q')) >>= k').run.run o₂) =
      lockstep joint s' ((k a).run.run o₁) ((k' b).run.run o₂) := by
  have e₁ : (ExceptT.mk (StateT.lift (f <$> query q)) >>= k).run.run o₁ =
      ask q fun x => match f x with
        | .ok a => (k a).run.run o₁
        | .error e => ret (.error e, o₁) := by
    simp only [run_run_bind, run_run_query, ask_bind, ret_bind]
  have e₂ : (ExceptT.mk (StateT.lift (f' <$> query q')) >>= k').run.run o₂ =
      ask q' fun x => match f' x with
        | .ok b => (k' b).run.run o₂
        | .error e => ret (.error e, o₂) := by
    simp only [run_run_bind, run_run_query, ask_bind, ret_bind]
  rw [e₁, e₂, lockstep_ask_ask _ _ h]
  simp only [hf, hf']

/-- The weakest precondition of a method run on the object `o`: every result and object it may
end in, whatever the answers, satisfy `post`. -/
def MethodWp (m : ExceptT ε (StateT τ (Prog Q R)) α) (post : Except ε α → τ → Prop) (o : τ) :
    Prop :=
  Wp (fun x => post x.1 x.2) (m.run.run o)

variable {post : Except ε α → τ → Prop} {o : τ}

@[simp] theorem methodWp_pure {a : α} :
    MethodWp (pure a : ExceptT ε (StateT τ (Prog Q R)) α) post o ↔ post (.ok a) o := Iff.rfl

@[simp] theorem methodWp_throw {e : ε} :
    MethodWp (throw e : ExceptT ε (StateT τ (Prog Q R)) α) post o ↔ post (.error e) o := Iff.rfl

/-- **The rule for a sequence**: the rest's precondition after each value, and the postcondition
of the error after an error. -/
@[simp] theorem methodWp_bind {m : ExceptT ε (StateT τ (Prog Q R)) β}
    {k : β → ExceptT ε (StateT τ (Prog Q R)) α} :
    MethodWp (m >>= k) post o ↔ MethodWp m (fun r o₁ => match r with
      | .ok b => MethodWp (k b) post o₁
      | .error e => post (.error e) o₁) o := by
  simp only [MethodWp, ExceptT.run_bind, StateT.run_bind, wp_bind]
  apply iff_of_eq
  congr
  funext x
  rcases x with ⟨_ | b, o₁⟩ <;> rfl

@[simp] theorem methodWp_get {post : Except ε τ → τ → Prop} :
    MethodWp (get : ExceptT ε (StateT τ (Prog Q R)) τ) post o ↔ post (.ok o) o := Iff.rfl

@[simp] theorem methodWp_set {post : Except ε PUnit → τ → Prop} {o' : τ} :
    MethodWp (set o' : ExceptT ε (StateT τ (Prog Q R)) PUnit) post o ↔ post (.ok ⟨⟩) o' :=
  Iff.rfl

@[simp] theorem methodWp_modify {post : Except ε PUnit → τ → Prop} {f : τ → τ} :
    MethodWp (modify f : ExceptT ε (StateT τ (Prog Q R)) PUnit) post o ↔ post (.ok ⟨⟩) (f o) :=
  Iff.rfl

@[simp] theorem methodWp_modifyGet {f : τ → α × τ} :
    MethodWp (modifyGet f : ExceptT ε (StateT τ (Prog Q R)) α) post o ↔
      post (.ok (f o).1) (f o).2 := Iff.rfl

/-- A question whose answer is mapped to a value or an error leaves the object as it is. -/
@[simp] theorem methodWp_query {q : Q} {f : R q → Except ε α} :
    MethodWp (ExceptT.mk (StateT.lift (f <$> query q))) post o ↔ ∀ r, post (f r) o := Iff.rfl

@[simp] theorem methodWp_panic :
    MethodWp (ExceptT.lift (StateT.lift panic) : ExceptT ε (StateT τ (Prog Q R)) α) post o :=
  trivial

theorem MethodWp.mono {m : ExceptT ε (StateT τ (Prog Q R)) α} {post' : Except ε α → τ → Prop}
    (h : MethodWp m post o) (hpost : ∀ r o', post r o' → post' r o') : MethodWp m post' o :=
  Wp.mono h fun x => hpost x.1 x.2

/-- **The rule for a sequence** with a condition `I` on the result and object in the middle: the
first part's, from which the rest, or the error, gives the postcondition. -/
theorem MethodWp.bind {m : ExceptT ε (StateT τ (Prog Q R)) β}
    {k : β → ExceptT ε (StateT τ (Prog Q R)) α} {I : Except ε β → τ → Prop} (hm : MethodWp m I o)
    (hk : ∀ b o₁, I (.ok b) o₁ → MethodWp (k b) post o₁)
    (he : ∀ e o₁, I (.error e) o₁ → post (.error e) o₁) : MethodWp (m >>= k) post o :=
  methodWp_bind.2 (hm.mono fun r o₁ h => by
    cases r with
    | ok b => exact hk b o₁ h
    | error e => exact he e o₁ h)

/-- What holds of every end of a method holds of its run against any service. -/
theorem MethodWp.run {m : ExceptT ε (StateT τ (Prog Q R)) α} (h : MethodWp m post o)
    {service : σ → (q : Q) → R q × σ} {s s' : σ} {r : Except ε α} {o' : τ}
    (hrun : Prog.run service s (m.run.run o) = some ((r, o'), s')) : post r o' :=
  Wp.run h hrun

end Prog

end Interaction
