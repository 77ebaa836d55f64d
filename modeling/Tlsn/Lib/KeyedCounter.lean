import Mathlib.Logic.Function.Basic
import Mathlib.Data.List.Basic

/-!
# Counters kept per key

A family of counters, one for each key, of which one is current: `select k` makes `k` current, and
`take n` hands out the next `n` values of the current key's counter, each paired with its key. It is
the abstract model of a store of numbered streams, each with its own counter, which a switch of
stream neither resets nor lends to another.

Over any sequence of operations, the values handed out under a key are, in order, the consecutive
range from that key's counter before to its counter after (`values_filter`), and from zero on a
fresh family (`values_filter_init`): no value is skipped, repeated or handed out under another key.
-/

namespace KeyedCounter

/-- An operation on the family. -/
inductive Op (κ : Type)
  | select (k : κ)
  | take (n : ℕ)
  deriving DecidableEq, Repr

/-- The state of the family: the current key and the counter of each key. -/
@[ext] structure State (κ : Type) where
  current : κ
  count : κ → ℕ

variable {κ : Type} [DecidableEq κ]

/-- Every counter at zero, with `k` current. -/
def State.init (k : κ) : State κ := ⟨k, fun _ => 0⟩

/-- One operation: the values it hands out, and the state after it. -/
def step (s : State κ) : Op κ → List (κ × ℕ) × State κ
  | .select k => ([], { s with current := k })
  | .take n => ((List.range n).map fun i => (s.current, s.count s.current + i),
      { s with count := Function.update s.count s.current (s.count s.current + n) })

/-- The state after a sequence of operations. -/
def final (s : State κ) (ops : List (Op κ)) : State κ := ops.foldl (fun s op => (step s op).2) s

/-- The values a sequence of operations hands out, in order. -/
def values : State κ → List (Op κ) → List (κ × ℕ)
  | _, [] => []
  | s, op :: ops => (step s op).1 ++ values (step s op).2 ops

@[simp] theorem final_nil (s : State κ) : final s [] = s := rfl

@[simp] theorem final_cons (s : State κ) (op : Op κ) (ops : List (Op κ)) :
    final s (op :: ops) = final (step s op).2 ops := rfl

theorem final_append (s : State κ) (ops ops' : List (Op κ)) :
    final s (ops ++ ops') = final (final s ops) ops' := List.foldl_append

@[simp] theorem values_nil (s : State κ) : values s [] = [] := rfl

@[simp] theorem values_cons (s : State κ) (op : Op κ) (ops : List (Op κ)) :
    values s (op :: ops) = (step s op).1 ++ values (step s op).2 ops := rfl

theorem values_append (s : State κ) (ops ops' : List (Op κ)) :
    values s (ops ++ ops') = values s ops ++ values (final s ops) ops' := by
  induction ops generalizing s with
  | nil => rfl
  | cons op ops ih => simp [ih]

/-- A counter never goes back. -/
theorem count_le_step (s : State κ) (op : Op κ) (k : κ) : s.count k ≤ (step s op).2.count k := by
  cases op with
  | select k' => exact Nat.le_refl _
  | take n =>
    by_cases hk : k = s.current
    · subst hk
      simp [step]
    · simp [step, Function.update_of_ne hk]

theorem count_le_final (s : State κ) (ops : List (Op κ)) (k : κ) :
    s.count k ≤ (final s ops).count k := by
  induction ops generalizing s with
  | nil => exact Nat.le_refl _
  | cons op ops ih => exact Nat.le_trans (count_le_step s op k) (ih _)

/-- One operation hands out, under `k`, the values from `k`'s counter before to its counter after. -/
theorem step_filter (s : State κ) (op : Op κ) (k : κ) :
    ((step s op).1.filter (·.1 = k)).map Prod.snd =
      List.range' (s.count k) ((step s op).2.count k - s.count k) := by
  cases op with
  | select k' => simp [step]
  | take n =>
    by_cases hk : s.current = k
    · -- every value is the current key's
      subst hk
      simp [step, List.filter_map, Function.comp_def, List.range'_eq_map_range]
    · simp [step, List.filter_map, Function.comp_def, hk, Function.update_of_ne (Ne.symm hk)]

/-- **Each key its own counter.** Over any sequence of operations, the values handed out under `k`
are, in order, the range from `k`'s counter before to its counter after. -/
theorem values_filter (s : State κ) (ops : List (Op κ)) (k : κ) :
    ((values s ops).filter (·.1 = k)).map Prod.snd =
      List.range' (s.count k) ((final s ops).count k - s.count k) := by
  induction ops generalizing s with
  | nil => simp
  | cons op ops ih =>
    -- the counter of `k` goes from `s` through the state after `op` to the final state
    obtain ⟨a, ha⟩ := Nat.exists_eq_add_of_le (count_le_step s op k)
    obtain ⟨b, hb⟩ := Nat.exists_eq_add_of_le (count_le_final (step s op).2 ops k)
    rw [values_cons, List.filter_append, List.map_append, step_filter, ih, final_cons, hb, ha,
      Nat.add_sub_cancel_left, Nat.add_sub_cancel_left, Nat.add_assoc, Nat.add_sub_cancel_left,
      List.range'_append_1]

/-- From a fresh family, the values handed out under `k` are `0, 1, …` up to its final counter. -/
theorem values_filter_init (k₀ : κ) (ops : List (Op κ)) (k : κ) :
    ((values (State.init k₀) ops).filter (·.1 = k)).map Prod.snd =
      List.range ((final (State.init k₀) ops).count k) := by
  rw [values_filter, List.range_eq_range']
  rfl

end KeyedCounter
