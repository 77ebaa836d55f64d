import Mathlib.Data.List.Nodup
import Mathlib.Tactic

/-!
# Finite maps as association lists

A hash map keeps at most one entry per key, and a bidirectional map at most one entry per left
value and one per right value. Both are modelled here by association lists that carry this
uniqueness as a field, so a map with a repeated key cannot be built:

* `AssocMap` with `get?`, `insert` (which replaces in place and returns the displaced value),
  `remove` (which returns the removed value) and `keys`;
* `BiMap` with `getByLeft`, `getByRight` and `insertNoOverwrite`, which refuses a pair whose
  left or right value is already present.

A hash map has no specified iteration order. The order of `entries` is one possible order;
statements about iteration quantify over every permutation of it.
-/

/-- In a list on which `f` does not repeat, the first element with the key of `a` is `a`. -/
theorem List.find?_key_of_nodup {α β : Type} [DecidableEq β] {l : List α} {f : α → β}
    (hl : (l.map f).Nodup) {a : α} (h : a ∈ l) :
    l.find? (fun e => decide (f e = f a)) = some a := by
  have hsome : (l.find? fun e => decide (f e = f a)).isSome :=
    List.find?_isSome.2 ⟨a, h, by simp⟩
  obtain ⟨e, he⟩ := Option.isSome_iff_exists.1 hsome
  have hfe : f e = f a := by simpa using List.find?_some he
  rw [he, List.inj_on_of_nodup_map hl (List.mem_of_find?_eq_some he) h hfe]

/-- Looking up by a key on which the list does not repeat finds exactly its elements with that
key. -/
theorem List.map_find?_eq_some_iff {α β γ : Type} [DecidableEq β] {l : List α} {f : α → β}
    {g : α → γ} (hl : (l.map f).Nodup) {k : β} {c : γ} :
    (l.find? fun e => decide (f e = k)).map g = some c ↔ ∃ a ∈ l, f a = k ∧ g a = c := by
  constructor
  · intro h
    obtain ⟨a, ha, rfl⟩ := Option.map_eq_some_iff.1 h
    have hk := List.find?_some ha
    simp only [decide_eq_true_eq] at hk
    exact ⟨a, List.mem_of_find?_eq_some ha, hk, rfl⟩
  · rintro ⟨a, ha, rfl, rfl⟩
    rw [List.find?_key_of_nodup hl ha, Option.map_some]

/-- A map with at most one entry per key. -/
structure AssocMap (κ ν : Type) where
  entries : List (κ × ν)
  nodup : (entries.map Prod.fst).Nodup

namespace AssocMap

variable {κ ν : Type} [DecidableEq κ]

/-- The empty map. -/
def empty : AssocMap κ ν := ⟨[], List.nodup_nil⟩

/-- The keys, in iteration order. -/
def keys (m : AssocMap κ ν) : List κ := m.entries.map Prod.fst

/-- The value stored under `k`. -/
def get? (m : AssocMap κ ν) (k : κ) : Option ν :=
  (m.entries.find? fun e => decide (e.1 = k)).map Prod.snd

/-- `insert`: replace the value under `k` in place, or append a new entry; also returns the
displaced value. -/
def insert (m : AssocMap κ ν) (k : κ) (v : ν) : AssocMap κ ν × Option ν :=
  if h : k ∈ m.keys then
    (⟨m.entries.map fun e => if e.1 = k then (k, v) else e, by
      have h : ((m.entries.map fun e => if e.1 = k then (k, v) else e).map Prod.fst) =
          m.entries.map Prod.fst := by
        rw [List.map_map]
        apply List.map_congr_left
        intro e _
        by_cases he : e.1 = k <;> simp [he]
      rw [h]; exact m.nodup⟩, m.get? k)
  else
    (⟨m.entries ++ [(k, v)], by
      rw [List.map_append, List.nodup_append]
      refine ⟨m.nodup, by simp, ?_⟩
      intro a ha b hb
      simp only [List.map_cons, List.map_nil, List.mem_singleton] at hb
      rw [hb]
      rintro rfl
      exact h ha⟩, none)

/-- `remove`: take out the entry under `k`; also returns its value. -/
def remove (m : AssocMap κ ν) (k : κ) : AssocMap κ ν × Option ν :=
  (⟨m.entries.filter fun e => e.1 ≠ k, (List.filter_sublist.map Prod.fst).nodup m.nodup⟩, m.get? k)

omit [DecidableEq κ] in
@[simp] theorem keys_empty : (empty : AssocMap κ ν).keys = [] := rfl

@[simp] theorem get?_empty (k : κ) : (empty : AssocMap κ ν).get? k = none := rfl

omit [DecidableEq κ] in
theorem mem_keys {m : AssocMap κ ν} {k : κ} : k ∈ m.keys ↔ ∃ v, (k, v) ∈ m.entries := by
  simp [keys]

/-- A stored value is found, since keys do not repeat. -/
theorem get?_eq_some_iff {m : AssocMap κ ν} {k : κ} {v : ν} :
    m.get? k = some v ↔ (k, v) ∈ m.entries := by
  rw [get?, List.map_find?_eq_some_iff m.nodup]
  constructor
  · rintro ⟨⟨k', v'⟩, he, rfl, rfl⟩
    exact he
  · intro h
    exact ⟨(k, v), h, rfl, rfl⟩

theorem get?_eq_none_iff {m : AssocMap κ ν} {k : κ} : m.get? k = none ↔ k ∉ m.keys := by
  constructor
  · intro h hk
    obtain ⟨v, hv⟩ := mem_keys.1 hk
    rw [get?_eq_some_iff.2 hv] at h
    cases h
  · intro hk
    simp only [get?, Option.map_eq_none_iff, List.find?_eq_none, decide_eq_true_eq]
    intro e he hek
    exact hk (mem_keys.2 ⟨e.2, by rw [← hek]; exact he⟩)

@[simp] theorem insert_snd (m : AssocMap κ ν) (k : κ) (v : ν) : (m.insert k v).2 = m.get? k := by
  unfold insert
  split_ifs with h
  · rfl
  · exact (get?_eq_none_iff.2 h).symm

/-- A new key is appended. -/
theorem insert_of_not_mem {m : AssocMap κ ν} {k : κ} (h : k ∉ m.keys) (v : ν) :
    (m.insert k v).1.entries = m.entries ++ [(k, v)] := by
  unfold insert
  rw [dif_neg h]

theorem keys_insert (m : AssocMap κ ν) (k : κ) (v : ν) :
    (m.insert k v).1.keys = if k ∈ m.keys then m.keys else m.keys ++ [k] := by
  unfold insert keys
  split_ifs with h
  · simp only [List.map_map]
    apply List.map_congr_left
    intro e _
    by_cases he : e.1 = k <;> simp [he]
  · simp

@[simp] theorem remove_snd (m : AssocMap κ ν) (k : κ) : (m.remove k).2 = m.get? k := rfl

theorem get?_remove (m : AssocMap κ ν) (k k' : κ) :
    (m.remove k).1.get? k' = if k' = k then none else m.get? k' := by
  simp only [remove, get?, List.find?_filter]
  split_ifs with hk
  · -- no entry is both kept and under `k`
    subst hk
    simp
  · congr 2
    funext e
    by_cases he : e.1 = k' <;> simp [he, hk]

theorem get?_insert (m : AssocMap κ ν) (k k' : κ) (v : ν) :
    (m.insert k v).1.get? k' = if k' = k then some v else m.get? k' := by
  split_ifs with hk
  · subst hk
    rw [get?_eq_some_iff]
    unfold insert
    split_ifs with h
    · obtain ⟨w, hw⟩ := mem_keys.1 h
      exact List.mem_map.2 ⟨(k', w), hw, by simp⟩
    · simp
  · cases hg : m.get? k' with
    | none =>
      rw [get?_eq_none_iff] at hg ⊢
      rw [keys_insert]
      split_ifs <;> simp [hg, hk]
    | some w =>
      rw [get?_eq_some_iff] at hg ⊢
      unfold insert
      split_ifs
      · exact List.mem_map.2 ⟨(k', w), hg, by simp [hk]⟩
      · exact List.mem_append_left _ hg

end AssocMap

/-- A bidirectional map: at most one entry per left value and one per right value. -/
structure BiMap (κ ν : Type) where
  entries : List (κ × ν)
  nodup_left : (entries.map Prod.fst).Nodup
  nodup_right : (entries.map Prod.snd).Nodup

namespace BiMap

variable {κ ν : Type} [DecidableEq κ] [DecidableEq ν]

/-- The empty map. -/
def empty : BiMap κ ν := ⟨[], List.nodup_nil, List.nodup_nil⟩

/-- The left values, in iteration order. -/
def lefts (m : BiMap κ ν) : List κ := m.entries.map Prod.fst

/-- The right values, in iteration order. -/
def rights (m : BiMap κ ν) : List ν := m.entries.map Prod.snd

/-- `get_by_left`. -/
def getByLeft (m : BiMap κ ν) (k : κ) : Option ν :=
  (m.entries.find? fun e => decide (e.1 = k)).map Prod.snd

/-- `get_by_right`. -/
def getByRight (m : BiMap κ ν) (v : ν) : Option κ :=
  (m.entries.find? fun e => decide (e.2 = v)).map Prod.fst

/-- `insert_no_overwrite`: the pair is refused, and returned, when its left or its right value
is already present. -/
def insertNoOverwrite (m : BiMap κ ν) (k : κ) (v : ν) : Except (κ × ν) (BiMap κ ν) :=
  if h : k ∈ m.lefts ∨ v ∈ m.rights then .error (k, v)
  else .ok ⟨m.entries ++ [(k, v)], by
    rw [List.map_append, List.nodup_append]
    refine ⟨m.nodup_left, by simp, ?_⟩
    intro a ha b hb
    simp only [List.map_cons, List.map_nil, List.mem_singleton] at hb
    subst hb
    rintro rfl
    exact h (Or.inl ha), by
    rw [List.map_append, List.nodup_append]
    refine ⟨m.nodup_right, by simp, ?_⟩
    intro a ha b hb
    simp only [List.map_cons, List.map_nil, List.mem_singleton] at hb
    subst hb
    rintro rfl
    exact h (Or.inr ha)⟩

omit [DecidableEq ν] in
theorem getByLeft_eq_some_iff {m : BiMap κ ν} {k : κ} {v : ν} :
    m.getByLeft k = some v ↔ (k, v) ∈ m.entries := by
  rw [getByLeft, List.map_find?_eq_some_iff m.nodup_left]
  constructor
  · rintro ⟨⟨k', v'⟩, he, rfl, rfl⟩
    exact he
  · intro h
    exact ⟨(k, v), h, rfl, rfl⟩

omit [DecidableEq κ] in
theorem getByRight_eq_some_iff {m : BiMap κ ν} {k : κ} {v : ν} :
    m.getByRight v = some k ↔ (k, v) ∈ m.entries := by
  rw [getByRight, List.map_find?_eq_some_iff m.nodup_right]
  constructor
  · rintro ⟨⟨k', v'⟩, he, rfl, rfl⟩
    exact he
  · intro h
    exact ⟨(k, v), h, rfl, rfl⟩

/-- No two left values are mapped to the same right value. -/
theorem left_eq_of_getByLeft {m : BiMap κ ν} {k k' : κ} {v : ν} (h : m.getByLeft k = some v)
    (h' : m.getByLeft k' = some v) : k = k' := by
  have hk := getByRight_eq_some_iff.2 (getByLeft_eq_some_iff.1 h)
  rw [getByRight_eq_some_iff.2 (getByLeft_eq_some_iff.1 h')] at hk
  exact (Option.some.inj hk).symm

theorem insertNoOverwrite_eq_ok {m m' : BiMap κ ν} {k : κ} {v : ν}
    (h : m.insertNoOverwrite k v = .ok m') :
    k ∉ m.lefts ∧ v ∉ m.rights ∧ m'.entries = m.entries ++ [(k, v)] := by
  unfold insertNoOverwrite at h
  split_ifs at h with hkv
  cases h
  exact ⟨fun hk => hkv (Or.inl hk), fun hv => hkv (Or.inr hv), rfl⟩

/-- A pair whose left and right values are both new is inserted. -/
theorem insertNoOverwrite_of_not_mem {m : BiMap κ ν} {k : κ} {v : ν} (hk : k ∉ m.lefts)
    (hv : v ∉ m.rights) : ∃ m', m.insertNoOverwrite k v = .ok m' := by
  unfold insertNoOverwrite
  rw [dif_neg (not_or.2 ⟨hk, hv⟩)]
  exact ⟨_, rfl⟩

end BiMap
