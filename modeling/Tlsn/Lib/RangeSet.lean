import Mathlib.Data.Finset.Lattice.Fold
import Mathlib.Order.Interval.Finset.Nat
import Mathlib.Tactic

/-!
# Sets of natural numbers addressed by ranges

A range set stores a finite set of natural numbers as sorted, non-adjacent, non-empty half-open
ranges. The ranges are then determined by the set, so a range set is modelled here by the
`Finset ℕ` it denotes:

* `iter` lists the elements in increasing order, `iterRanges` the maximal runs of consecutive
  elements as half-open ranges `(start, end)`;
* `max` is the end of the right-most range, that is one past the largest element;
* `copyFromSlice` writes a slice into a buffer at a range and panics (`none`) when the range
  leaves the buffer or the lengths differ; `scatter` walks a list of ranges backwards, moving the
  tail of a data buffer into each range and truncating the data.

The main facts: the runs of a list concatenate back to it (`flatMap_runs`), so the ranges of a
set visit exactly its elements in order (`flatMap_iterRanges`); and scattering the image of the
elements under `g` writes `g i` at every element `i` and nothing else (`scatter_map`).
-/

namespace RangeSet

/-- The numbers of the half-open range `(start, end)`, in increasing order. -/
def toList (r : ℕ × ℕ) : List ℕ := List.range' r.1 (r.2 - r.1)

@[simp] theorem mem_toList {r : ℕ × ℕ} {i : ℕ} : i ∈ toList r ↔ r.1 ≤ i ∧ i < r.2 := by
  simp only [toList, List.mem_range']
  constructor
  · rintro ⟨k, hk, rfl⟩; omega
  · rintro ⟨h1, h2⟩; exact ⟨i - r.1, by omega, by omega⟩

@[simp] theorem length_toList (r : ℕ × ℕ) : (toList r).length = r.2 - r.1 := by
  simp [toList]

/-- The elements of `s` in increasing order (`RangeSet::iter`). -/
def iter (s : Finset ℕ) : List ℕ := (List.range (s.sup id + 1)).filter fun x => decide (x ∈ s)

/-- The maximal runs of consecutive numbers of a list, as half-open ranges. -/
def runs : List ℕ → List (ℕ × ℕ)
  | [] => []
  | x :: l =>
    match runs l with
    | [] => [(x, x + 1)]
    | r :: rs => if x + 1 = r.1 then (x, r.2) :: rs else (x, x + 1) :: r :: rs

/-- The ranges of `s`, in increasing order (`RangeSet::iter_ranges`). -/
def iterRanges (s : Finset ℕ) : List (ℕ × ℕ) := runs (iter s)

/-- The number of elements (`RangeSet::len`). -/
def len (s : Finset ℕ) : ℕ := s.card

/-- `RangeSet::max`: the end of the right-most range, one past the largest element. -/
def max (s : Finset ℕ) : Option ℕ := (iterRanges s).getLast?.map Prod.snd

/-! ### Runs -/

/-- Every run is non-empty and the runs concatenate back to the list. -/
theorem runs_spec (l : List ℕ) :
    (∀ r ∈ runs l, r.1 < r.2) ∧ (runs l).flatMap toList = l := by
  induction l with
  | nil => simp [runs]
  | cons x l ih =>
    obtain ⟨hne, hcat⟩ := ih
    cases h : runs l with
    | nil =>
      rw [h] at hcat
      simp only [List.flatMap_nil] at hcat
      subst hcat
      simp [runs, toList]
    | cons r rs =>
      rw [h] at hne hcat
      have hr : r.1 < r.2 := hne r (by simp)
      simp only [runs, h]
      split_ifs with hx
      · refine ⟨?_, ?_⟩
        · intro q hq
          rcases List.mem_cons.1 hq with rfl | hq
          · simp only; omega
          · exact hne q (List.mem_cons_of_mem _ hq)
        · rw [List.flatMap_cons] at hcat ⊢
          have hsplit : toList (x, r.2) = x :: toList r := by
            simp only [toList]
            rw [show r.2 - x = (r.2 - r.1) + 1 by omega, List.range'_succ, hx]
          rw [hsplit, List.cons_append, hcat]
      · refine ⟨?_, ?_⟩
        · intro q hq
          rcases List.mem_cons.1 hq with rfl | hq
          · simp
          · exact hne q hq
        · rw [List.flatMap_cons, hcat]
          simp [toList]

theorem flatMap_runs (l : List ℕ) : (runs l).flatMap toList = l := (runs_spec l).2

theorem lt_of_mem_runs {l : List ℕ} {r : ℕ × ℕ} (h : r ∈ runs l) : r.1 < r.2 :=
  (runs_spec l).1 r h

/-- The last run ends one past the last element. -/
theorem getLast?_runs (l : List ℕ) :
    (runs l).getLast?.map Prod.snd = l.getLast?.map (· + 1) := by
  induction l with
  | nil => simp [runs]
  | cons x l ih =>
    cases h : runs l with
    | nil =>
      have hl : l = [] := by simpa [h] using (flatMap_runs l).symm
      subst hl
      simp [runs]
    | cons r rs =>
      have hl : l ≠ [] := by
        intro hl; subst hl; simp [runs] at h
      rw [h] at ih
      simp only [runs, h]
      obtain ⟨y, ly, rfl⟩ := List.exists_cons_of_ne_nil hl
      split_ifs with hx
      · cases rs with
        | nil => simpa using ih
        | cons q qs => simpa [List.getLast?_cons_cons] using ih
      · simpa [List.getLast?_cons_cons] using ih

/-! ### Elements in order -/

@[simp] theorem mem_iter {s : Finset ℕ} {x : ℕ} : x ∈ iter s ↔ x ∈ s := by
  simp only [iter, List.mem_filter, List.mem_range, decide_eq_true_eq, and_iff_right_iff_imp]
  intro hx
  have : id x ≤ s.sup id := Finset.le_sup hx
  simp only [id] at this
  omega

theorem pairwise_iter (s : Finset ℕ) : (iter s).Pairwise (· < ·) :=
  (List.pairwise_lt_range).filter _

theorem nodup_iter (s : Finset ℕ) : (iter s).Nodup :=
  (pairwise_iter s).imp (fun h => Nat.ne_of_lt h)

@[simp] theorem length_iter (s : Finset ℕ) : (iter s).length = len s := by
  have h : (iter s).toFinset = s := by ext x; simp
  calc (iter s).length = (iter s).toFinset.card :=
        (List.toFinset_card_of_nodup (nodup_iter s)).symm
    _ = len s := by rw [h, len]

/-- Iterating the ranges of a set visits its elements in increasing order. -/
theorem flatMap_iterRanges (s : Finset ℕ) : (iterRanges s).flatMap toList = iter s :=
  flatMap_runs _

theorem mem_of_mem_iterRanges {s : Finset ℕ} {r : ℕ × ℕ} {i : ℕ} (hr : r ∈ iterRanges s)
    (hi : i ∈ toList r) : i ∈ s := by
  rw [← mem_iter, ← flatMap_iterRanges]
  exact List.mem_flatMap.2 ⟨r, hr, hi⟩

/-- The ranges of a set below `n` are ranges of `0..n`. -/
theorem bounds_of_mem_iterRanges {s : Finset ℕ} {n : ℕ} (hs : ∀ i ∈ s, i < n) {r : ℕ × ℕ}
    (hr : r ∈ iterRanges s) : r.1 ≤ r.2 ∧ r.2 ≤ n := by
  have hlt := lt_of_mem_runs hr
  have hmem : r.2 - 1 ∈ s := mem_of_mem_iterRanges hr (by simp; omega)
  have := hs _ hmem
  omega

/-- A set is determined by its elements in order. -/
theorem iter_injective : Function.Injective iter := by
  intro s t h
  ext x
  rw [← mem_iter, h, mem_iter]

/-! ### The bound `max` -/

theorem max_eq (s : Finset ℕ) : max s = (iter s).getLast?.map (· + 1) :=
  getLast?_runs _

theorem max_eq_none {s : Finset ℕ} : max s = none ↔ s = ∅ := by
  rw [max_eq, Option.map_eq_none_iff, List.getLast?_eq_none_iff]
  constructor
  · intro h; ext x; simp [← mem_iter, h]
  · rintro rfl; simp [iter]

/-- Every element lies below `max`. -/
theorem lt_of_max_eq {s : Finset ℕ} {m x : ℕ} (h : max s = some m) (hx : x ∈ s) : x < m := by
  rw [max_eq, Option.map_eq_some_iff] at h
  obtain ⟨y, hy, rfl⟩ := h
  rw [← mem_iter] at hx
  obtain ⟨l, hl⟩ : ∃ l, iter s = l ++ [y] := by
    rw [List.getLast?_eq_some_iff] at hy
    exact hy
  have hp := pairwise_iter s
  rw [hl, List.pairwise_append] at hp
  rw [hl, List.mem_append] at hx
  rcases hx with hx | hx
  · have := hp.2.2 x hx y (by simp); omega
  · simp at hx; omega

theorem nonempty_of_max_eq {s : Finset ℕ} {m : ℕ} (h : max s = some m) : s.Nonempty :=
  Finset.nonempty_iff_ne_empty.2 fun h0 => by simp [max_eq_none.2 h0] at h

/-- A non-empty set has a `max`. -/
theorem max_isSome {s : Finset ℕ} (h : s.Nonempty) : ∃ m, max s = some m := by
  cases hm : max s with
  | none => exact absurd (max_eq_none.1 hm) h.ne_empty
  | some m => exact ⟨m, rfl⟩

/-- `max` is the least bound of the set: a set below `n` has its `max` at most `n`. -/
theorem max_le_of_lt {s : Finset ℕ} {m n : ℕ} (h : max s = some m) (hs : ∀ i ∈ s, i < n) :
    m ≤ n := by
  rw [max_eq, Option.map_eq_some_iff] at h
  obtain ⟨y, hy, rfl⟩ := h
  exact hs y (mem_iter.1 (List.mem_of_getLast? hy))

/-- Every range of the set ends at or below `max`. -/
theorem snd_le_of_max_eq {s : Finset ℕ} {m : ℕ} {r : ℕ × ℕ} (h : max s = some m)
    (hr : r ∈ iterRanges s) : r.2 ≤ m := by
  have hlt := lt_of_mem_runs hr
  have hmem : r.2 - 1 ∈ s := mem_of_mem_iterRanges hr (by simp; omega)
  have := lt_of_max_eq h hmem
  omega

/-! ### Buffers addressed by ranges -/

section Buffer

variable {α : Type*}

/-- `dest[r].copy_from_slice(src)`: panics (`none`) unless `r` lies in `dest` and has the length
of `src`. -/
def copyFromSlice (dest : List α) (r : ℕ × ℕ) (src : List α) : Option (List α) :=
  if r.1 ≤ r.2 ∧ r.2 ≤ dest.length ∧ src.length = r.2 - r.1 then
    some (dest.take r.1 ++ src ++ dest.drop r.2)
  else none

/-- `dest` with `g i` written at every index `i` that satisfies `p`. -/
def overwrite (dest : List α) (p : ℕ → Prop) [DecidablePred p] (g : ℕ → α) : List α :=
  dest.mapIdx fun i a => if p i then g i else a

@[simp] theorem length_overwrite (dest : List α) (p : ℕ → Prop) [DecidablePred p] (g : ℕ → α) :
    (overwrite dest p g).length = dest.length := by
  simp [overwrite]

theorem getElem?_overwrite (dest : List α) (p : ℕ → Prop) [DecidablePred p] (g : ℕ → α)
    (i : ℕ) : (overwrite dest p g)[i]? = dest[i]?.map fun a => if p i then g i else a := by
  simp [overwrite, List.getElem?_mapIdx]

theorem getD_overwrite (dest : List α) (p : ℕ → Prop) [DecidablePred p] (g : ℕ → α) (i : ℕ)
    (a : α) : (overwrite dest p g).getD i a = if p i ∧ i < dest.length then g i else dest.getD i a := by
  rw [List.getD_eq_getElem?_getD, getElem?_overwrite, List.getD_eq_getElem?_getD]
  by_cases hi : i < dest.length
  · by_cases hp : p i <;> simp [hi, hp]
  · simp [hi]

theorem overwrite_congr (dest : List α) {p q : ℕ → Prop} [DecidablePred p] [DecidablePred q]
    (h : ∀ i, p i ↔ q i) (g : ℕ → α) : overwrite dest p g = overwrite dest q g := by
  simp only [overwrite, h]

theorem overwrite_overwrite (dest : List α) (p q : ℕ → Prop) [DecidablePred p]
    [DecidablePred q] (g : ℕ → α) :
    overwrite (overwrite dest p g) q g = overwrite dest (fun i => q i ∨ p i) g := by
  apply List.ext_getElem?
  intro i
  simp only [getElem?_overwrite, Option.map_map]
  cases dest[i]? with
  | none => rfl
  | some a => by_cases hq : q i <;> by_cases hp : p i <;> simp [hq, hp]

theorem overwrite_of_not (dest : List α) {p : ℕ → Prop} [DecidablePred p]
    (h : ∀ i, ¬ p i) (g : ℕ → α) : overwrite dest p g = dest := by
  apply List.ext_getElem?
  intro i
  rw [getElem?_overwrite]
  cases dest[i]? <;> simp [h]

/-- A copy succeeds exactly when the range lies in `dest` and has the length of `src`. -/
theorem copyFromSlice_eq_some {dest src d : List α} {r : ℕ × ℕ} :
    copyFromSlice dest r src = some d ↔
      (r.1 ≤ r.2 ∧ r.2 ≤ dest.length ∧ src.length = r.2 - r.1) ∧
        d = dest.take r.1 ++ src ++ dest.drop r.2 := by
  unfold copyFromSlice
  split_ifs with h
  · simp [h, eq_comm]
  · simp [h]

/-- What a copy leaves at each index: `src` inside the range, `dest` outside it. -/
theorem getElem?_copyFromSlice {dest src d : List α} {r : ℕ × ℕ}
    (h : copyFromSlice dest r src = some d) (i : ℕ) :
    d[i]? = if r.1 ≤ i ∧ i < r.2 then src[i - r.1]? else dest[i]? := by
  obtain ⟨⟨h1, h2, hlen⟩, rfl⟩ := copyFromSlice_eq_some.1 h
  have htake : (dest.take r.1).length = r.1 := by simp; omega
  -- the three parts of the result: before, inside and after the range
  rcases Nat.lt_or_ge i r.1 with hi | hi
  · rw [if_neg (by omega), List.getElem?_append_left (by simp; omega),
      List.getElem?_append_left (by omega), List.getElem?_take_of_lt hi]
  rcases Nat.lt_or_ge i r.2 with hj | hj
  · rw [if_pos ⟨hi, hj⟩, List.getElem?_append_left (by simp; omega),
      List.getElem?_append_right (by omega), htake]
  · rw [if_neg (by omega), List.getElem?_append_right (by simp; omega), List.getElem?_drop]
    simp only [List.length_append, htake, hlen]
    congr 1
    omega

/-- Copying the image of a range under `g` into the range writes `g i` at each of its
indices. -/
theorem copyFromSlice_map (dest : List α) (r : ℕ × ℕ) (g : ℕ → α) (h1 : r.1 ≤ r.2)
    (h2 : r.2 ≤ dest.length) :
    copyFromSlice dest r ((toList r).map g) = some (overwrite dest (· ∈ toList r) g) := by
  -- the range lies in `dest` and has the length of the image, so the copy succeeds
  obtain ⟨d, hd⟩ : ∃ d, copyFromSlice dest r ((toList r).map g) = some d :=
    ⟨_, copyFromSlice_eq_some.2 ⟨⟨h1, h2, by simp⟩, rfl⟩⟩
  rw [hd, Option.some.injEq]
  apply List.ext_getElem?
  intro i
  rw [getElem?_copyFromSlice hd, getElem?_overwrite]
  simp only [mem_toList]
  split_ifs with hi
  · -- inside the range: the image's entry at the offset of `i`
    rw [List.getElem?_map, toList, List.getElem?_range' (by omega), Option.map_some, Nat.one_mul,
      show r.1 + (i - r.1) = i by omega, List.getElem?_eq_getElem (by omega : i < dest.length),
      Option.map_some]
  · cases dest[i]? <;> rfl

theorem length_copyFromSlice {dest src d : List α} {r : ℕ × ℕ}
    (h : copyFromSlice dest r src = some d) : d.length = dest.length := by
  obtain ⟨⟨h1, h2, hlen⟩, rfl⟩ := copyFromSlice_eq_some.1 h
  simp only [List.length_append, List.length_take, List.length_drop, hlen]
  omega

/-- `dest[r].fill(value)`: a copy of `value` repeated over the range; panics (`none`) unless the
range lies in `dest`. -/
def fill (dest : List α) (r : ℕ × ℕ) (value : α) : Option (List α) :=
  copyFromSlice dest r (List.replicate (r.2 - r.1) value)

theorem fill_eq (dest : List α) {r : ℕ × ℕ} (h1 : r.1 ≤ r.2) (h2 : r.2 ≤ dest.length)
    (value : α) : fill dest r value = some (overwrite dest (· ∈ toList r) fun _ => value) := by
  have h := copyFromSlice_map dest r (fun _ => value) h1 h2
  rwa [List.map_const', length_toList] at h

/-- `for range in rs { dest[range].fill(value) }`. -/
def fillRanges (dest : List α) (rs : List (ℕ × ℕ)) (value : α) : Option (List α) :=
  rs.foldlM (fun d r => fill d r value) dest

/-- Filling ranges inside `dest` one after the other writes `value` at each of their indices. -/
theorem fillRanges_eq (dest : List α) {rs : List (ℕ × ℕ)}
    (hrs : ∀ r ∈ rs, r.1 ≤ r.2 ∧ r.2 ≤ dest.length) (value : α) :
    fillRanges dest rs value = some (overwrite dest (· ∈ rs.flatMap toList) fun _ => value) := by
  induction rs generalizing dest with
  | nil => simp [fillRanges, overwrite_of_not]
  | cons r rs ih =>
    obtain ⟨h1, h2⟩ := hrs r (by simp)
    have ih' := ih (overwrite dest (· ∈ toList r) fun _ => value)
      (fun q hq => by simpa using hrs q (by simp [hq]))
    unfold fillRanges at ih'
    rw [fillRanges, List.foldlM_cons, fill_eq dest h1 h2, Option.bind_eq_bind, Option.bind_some,
      ih', overwrite_overwrite]
    congr 1
    exact overwrite_congr _ (fun i => by rw [List.flatMap_cons, List.mem_append, or_comm]) _

/-- Filling the ranges of a set inside `dest` writes `value` at each of its elements. -/
theorem fillRanges_iterRanges (dest : List α) {s : Finset ℕ} (hs : ∀ i ∈ s, i < dest.length)
    (value : α) :
    fillRanges dest (iterRanges s) value = some (overwrite dest (· ∈ s) fun _ => value) := by
  rw [fillRanges_eq dest (fun r hr => bounds_of_mem_iterRanges hs hr),
    overwrite_congr _ (fun i => by rw [flatMap_iterRanges, mem_iter])]

/-- One turn of the backwards copy: the last `r.len()` elements of `data` are copied into
`dest[r]` and `data` is truncated to the rest; `data.len() - r.len()` below zero panics. -/
def scatterStep (acc : List α × List α) (r : ℕ × ℕ) : Option (List α × List α) :=
  if r.2 - r.1 ≤ acc.2.length then
    (copyFromSlice acc.1 r (acc.2.drop (acc.2.length - (r.2 - r.1)))).map
      fun dest => (dest, acc.2.take (acc.2.length - (r.2 - r.1)))
  else none

/-- `scatterStep` over the ranges `rs`, from the last range to the first. -/
def scatter : List (ℕ × ℕ) → List α × List α → Option (List α × List α)
  | [], acc => some acc
  | r :: rs, acc => (scatter rs acc).bind fun acc' => scatterStep acc' r

/-- A scatter keeps the length of its destination. -/
theorem length_scatter {rs : List (ℕ × ℕ)} {acc moved : List α × List α}
    (h : scatter rs acc = some moved) : moved.1.length = acc.1.length := by
  induction rs generalizing moved with
  | nil =>
    cases h
    rfl
  | cons r rs ih =>
    obtain ⟨acc', hrest, hstep⟩ := Option.bind_eq_some_iff.1 h
    unfold scatterStep at hstep
    split_ifs at hstep
    obtain ⟨dest, hcopy, rfl⟩ := Option.map_eq_some_iff.1 hstep
    rw [length_copyFromSlice hcopy, ih hrest]

/-- **Backwards scatter.** Walking ranges from the last to the first, a data buffer that ends
with the images of their indices under `g` writes `g i` at every index `i` of the ranges and
leaves the prefix of the data in place. -/
theorem scatter_map (g : ℕ → α) (rs : List (ℕ × ℕ)) (dest pre : List α)
    (hrs : ∀ r ∈ rs, r.1 ≤ r.2 ∧ r.2 ≤ dest.length) :
    scatter rs (dest, pre ++ (rs.flatMap toList).map g) =
      some (overwrite dest (· ∈ rs.flatMap toList) g, pre) := by
  induction rs generalizing pre with
  | nil => simp [scatter, overwrite_of_not]
  | cons r rs ih =>
    obtain ⟨h1, h2⟩ := hrs r (by simp)
    have ih' := ih (pre ++ (toList r).map g) (fun q hq => hrs q (by simp [hq]))
    rw [List.flatMap_cons, List.map_append, ← List.append_assoc]
    simp only [scatter, ih', Option.bind_some, scatterStep, List.length_append,
      List.length_map, length_toList, Nat.le_add_left, if_true, Nat.add_sub_cancel,
      List.drop_left, List.take_left]
    rw [copyFromSlice_map _ r g h1 (by simpa using h2), Option.map_some, overwrite_overwrite]
    congr 2
    exact overwrite_congr _ (fun i => by simp [List.mem_append]) g

/-- Scattering the images of the elements of a set, in increasing order, over the ranges of the
set writes `g i` at every element `i` and uses up the data. -/
theorem scatter_iterRanges (g : ℕ → α) (s : Finset ℕ) (dest : List α)
    (hs : ∀ i ∈ s, i < dest.length) :
    scatter (iterRanges s) (dest, (iter s).map g) = some (overwrite dest (· ∈ s) g, []) := by
  have h := scatter_map g (iterRanges s) dest [] (fun r hr => bounds_of_mem_iterRanges hs hr)
  rw [List.nil_append, flatMap_iterRanges] at h
  rw [h, overwrite_congr _ (fun i => mem_iter) g]

/-- Reading each element of a list without repeats at its own position in `d` gives `d`. -/
theorem map_getD_idxOf {l : List ℕ} (hl : l.Nodup) {d : List α} (hd : d.length = l.length)
    (a : α) : l.map (fun x => d.getD (l.idxOf x) a) = d := by
  apply List.ext_getElem (by simp [hd])
  intro k hk hk'
  rw [List.getElem_map, hl.idxOf_getElem k (by simpa using hk), List.getD_eq_getElem?_getD,
    List.getElem?_eq_getElem hk', Option.getD_some]

/-- **Backwards scatter of any data.** Data of the size of a set inside `dest`, scattered over the
ranges of the set from the last to the first, is used up: the `k`-th smallest element of the set
gets the `k`-th datum and every other index keeps its value. -/
theorem scatter_iterRanges_data (s : Finset ℕ) {dest data : List α}
    (hs : ∀ i ∈ s, i < dest.length) (hdata : data.length = len s) :
    ∃ dest', scatter (iterRanges s) (dest, data) = some (dest', []) ∧
      dest'.length = dest.length ∧
      (∀ k (hk : k < (iter s).length), dest'[(iter s)[k]]? = data[k]?) ∧
      ∀ i ∉ s, dest'[i]? = dest[i]? := by
  cases data with
  | nil =>
    -- no data: the set is empty and there is nothing to scatter
    have hiter : iter s = [] := List.eq_nil_of_length_eq_zero (by simpa using hdata.symm)
    refine ⟨dest, by simp [iterRanges, hiter, runs, scatter], rfl, ?_, fun _ _ => rfl⟩
    intro k hk
    simp [hiter] at hk
  | cons a rest =>
    -- the data is the image of the elements under the datum at their position
    set g : ℕ → α := fun x => (a :: rest).getD ((iter s).idxOf x) a
    have hmap : (iter s).map g = a :: rest :=
      map_getD_idxOf (nodup_iter s) (by rw [hdata, length_iter]) a
    refine ⟨overwrite dest (· ∈ s) g, by rw [← hmap, scatter_iterRanges g s dest hs],
      length_overwrite _ _ _, ?_, ?_⟩
    · intro k hk
      have hmem : (iter s)[k] ∈ s := mem_iter.1 (List.getElem_mem hk)
      rw [getElem?_overwrite, List.getElem?_eq_getElem (hs _ hmem), Option.map_some, if_pos hmem,
        ← hmap, List.getElem?_map, List.getElem?_eq_getElem hk, Option.map_some]
    · intro i hi
      rw [getElem?_overwrite]
      cases dest[i]? <;> simp [hi]

end Buffer

end RangeSet
