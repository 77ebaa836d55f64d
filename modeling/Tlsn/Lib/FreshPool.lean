import Mathlib.Data.List.Nodup
import Mathlib.Data.List.Perm.Basic

/-!
# A supply of fresh names, with a queue of names set aside

A supply hands out the names `0, 1, 2, …` in order. Some are set aside ahead of use in a queue
(`reserve`, which may also drop them); a request for `n` names (`take`) is served from the front of
the queue first, and from the supply for the rest. It is the abstract model of a pool of variables
defined ahead of their use, of which each use must have its own.

Over any sequence of operations the names handed out are pairwise distinct (`values_nodup`): no
name is handed out twice, whether it was set aside first or not. The invariant that carries it
(`Fresh`) says that the queue and the names handed out so far are pairwise distinct, and all below
the next name of the supply.
-/

namespace FreshPool

/-- An operation: set aside `n` fresh names, kept in the queue only if `keep`; or take `n`. -/
inductive Op
  | reserve (n : ℕ) (keep : Bool)
  | take (n : ℕ)
  deriving DecidableEq, Repr

/-- The next name of the supply, and the queue of names set aside. -/
structure State where
  next : ℕ
  queue : List ℕ
  deriving DecidableEq, Repr

/-- No name handed out, none set aside. -/
def State.init : State := ⟨0, []⟩

/-- One operation: the names it hands out, and the state after it. -/
def step (s : State) : Op → List ℕ × State
  | .reserve n keep =>
    ([], ⟨s.next + n, if keep then s.queue ++ List.range' s.next n else s.queue⟩)
  | .take n =>
    let m := min n s.queue.length
    (s.queue.take m ++ List.range' s.next (n - m), ⟨s.next + (n - m), s.queue.drop m⟩)

/-- The state after a sequence of operations. -/
def final (s : State) (ops : List Op) : State := ops.foldl (fun s op => (step s op).2) s

/-- The names a sequence of operations hands out, in order. -/
def values : State → List Op → List ℕ
  | _, [] => []
  | s, op :: ops => (step s op).1 ++ values (step s op).2 ops

@[simp] theorem final_nil (s : State) : final s [] = s := rfl

@[simp] theorem final_cons (s : State) (op : Op) (ops : List Op) :
    final s (op :: ops) = final (step s op).2 ops := rfl

@[simp] theorem values_nil (s : State) : values s [] = [] := rfl

@[simp] theorem values_cons (s : State) (op : Op) (ops : List Op) :
    values s (op :: ops) = (step s op).1 ++ values (step s op).2 ops := rfl

/-- A request for `n` names gets `n` names. -/
theorem take_length (s : State) (n : ℕ) : (step s (.take n)).1.length = n := by
  simp only [step, List.length_append, List.length_take, List.length_range']
  omega

/-- The queue and the names handed out are pairwise distinct, and all below the next name. -/
def Fresh (s : State) (used : List ℕ) : Prop :=
  (s.queue ++ used).Nodup ∧ ∀ x ∈ s.queue ++ used, x < s.next

theorem fresh_init : Fresh State.init [] := ⟨List.nodup_nil, fun _ h => by cases h⟩

/-- Names from the supply are new to distinct names below it. -/
theorem nodup_append_range' {l : List ℕ} {a : ℕ} (hl : l.Nodup) (hlt : ∀ x ∈ l, x < a) (n : ℕ) :
    (l ++ List.range' a n).Nodup := by
  refine List.nodup_append.2 ⟨hl, List.nodup_range', ?_⟩
  intro x hx y hy hxy
  have := hlt x hx
  have := (List.mem_range'_1.1 hy).1
  omega

/-- Each operation keeps the invariant, with the names it hands out added to those handed out. -/
theorem Fresh.step {s : State} {used : List ℕ} (h : Fresh s used) (op : Op) :
    Fresh (step s op).2 (used ++ (step s op).1) := by
  obtain ⟨hnodup, hlt⟩ := h
  cases op with
  | reserve n keep =>
    cases keep with
    | false =>
      refine ⟨by simpa [FreshPool.step] using hnodup, fun x hx => ?_⟩
      have := hlt x (by simpa [FreshPool.step] using hx)
      simp only [FreshPool.step]
      omega
    | true =>
      -- the names set aside are appended to the queue, after the names below the supply
      have hperm : (s.queue ++ List.range' s.next n ++ (used ++ [])).Perm
          (s.queue ++ used ++ List.range' s.next n) := by
        simpa using List.perm_append_comm.append_left s.queue
      refine ⟨hperm.nodup_iff.2 (nodup_append_range' hnodup hlt n), fun x hx => ?_⟩
      rcases List.mem_append.1 (hperm.mem_iff.1 hx) with hx | hx
      · have := hlt x hx
        simp only [FreshPool.step]
        omega
      · have := List.mem_range'_1.1 hx
        simp only [FreshPool.step]
        omega
  | take n =>
    -- the queue's front and the fresh names move to the names handed out
    set m := min n s.queue.length
    have hperm : (s.queue.drop m ++ (used ++ (s.queue.take m ++ List.range' s.next (n - m)))).Perm
        (s.queue ++ used ++ List.range' s.next (n - m)) := by
      rw [List.perm_iff_count]
      intro x
      conv_rhs => rw [← List.take_append_drop m s.queue]
      simp only [List.count_append]
      omega
    refine ⟨hperm.nodup_iff.2 (nodup_append_range' hnodup hlt _), fun x hx => ?_⟩
    rcases List.mem_append.1 (hperm.mem_iff.1 hx) with hx | hx
    · have := hlt x hx
      simp only [FreshPool.step]
      omega
    · have := List.mem_range'_1.1 hx
      simp only [FreshPool.step]
      omega

/-- A sequence of operations keeps the invariant, with all the names it hands out added. -/
theorem Fresh.values {s : State} {used : List ℕ} (h : Fresh s used) (ops : List Op) :
    Fresh (final s ops) (used ++ FreshPool.values s ops) := by
  induction ops generalizing s used with
  | nil => simpa using h
  | cons op ops ih =>
    simpa [List.append_assoc] using ih (h.step op)

/-- **No name twice.** Over any sequence of operations from the start, the names handed out are
pairwise distinct. -/
theorem values_nodup (ops : List Op) : (values State.init ops).Nodup := by
  have := (fresh_init.values ops).1
  simp only [List.nil_append] at this
  exact this.sublist (List.sublist_append_right _ _)

end FreshPool
