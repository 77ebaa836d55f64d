import Mathlib.Data.List.Basic

/-!
# Incremental framing

A stream arrives in reads of any sizes into a buffer of bounded capacity, and after each read the
frames at the front of the buffer are taken off it for as long as a whole one is there. A `Reader`
says what the front of a buffer holds: a frame and what follows it, a frame not yet complete, or
something that is no frame. Every frame takes at least one symbol off the buffer, which is what
makes the deframing loop (`Reader.deframe`) terminate.

When the reader reads every frame back from its encoding, finds every proper prefix of an encoding
incomplete, and every encoding fits in the buffer, the frames taken off a stream do not depend on
how the stream was cut into reads (`Reader.feed_eq`): after any partition of the encodings of `as`
followed by the start `t` of one more frame, the deframer holds exactly the frames `as`, has `t`
left in its buffer and is not desynchronised.
-/

namespace Framing

/-- What the front of a buffer holds. -/
inductive Front (β α : Type)
  | frame (a : α) (rest : List β)
  | incomplete
  | invalid

/-- A reader of frames, each of which takes at least one symbol. -/
structure Reader (β α : Type) where
  front : List β → Front β α
  consumes : ∀ {buf : List β} {a : α} {rest : List β},
    front buf = .frame a rest → rest.length < buf.length

/-- A deframer: the frames taken so far, the buffer, and whether it met something that is no
frame. -/
structure State (β α : Type) where
  frames : List α
  buf : List β
  desynced : Bool

variable {β α : Type}

namespace Reader

variable (R : Reader β α)

/-- The deframing loop: take frames off the front of the buffer until it holds an incomplete one,
or something that is no frame. -/
def deframe (s : State β α) : State β α :=
  match h : R.front s.buf with
  | .frame a rest => deframe ⟨s.frames ++ [a], rest, s.desynced⟩
  | .incomplete => s
  | .invalid => { s with desynced := true }
termination_by s.buf.length
decreasing_by exact R.consumes h

/-- One read from a source into a buffer of capacity `cap`: as much of the source as fits, then
the loop. The deframer, what is left of the source, and the number of symbols read. -/
def read (cap : ℕ) (s : State β α) (src : List β) : State β α × List β × ℕ :=
  let n := min src.length (cap - s.buf.length)
  (R.deframe { s with buf := s.buf ++ src.take n }, src.drop n, n)

/-- Reads from a source until it is drained, or a read takes nothing. -/
def readAll (cap : ℕ) (s : State β α) (src : List β) : State β α :=
  if src = [] then s
  else if cap ≤ s.buf.length then (R.read cap s src).1
  else readAll cap (R.read cap s src).1 (R.read cap s src).2.1
termination_by src.length
decreasing_by
  simp only [read, List.length_drop]
  have : src.length ≠ 0 := by simpa using ‹¬src = []›
  omega

/-- The reads of a partition of a stream, each drained in turn. -/
def feed (cap : ℕ) (s : State β α) (chunks : List (List β)) : State β α :=
  chunks.foldl (R.readAll cap) s

theorem deframe_of_frame {s : State β α} {a : α} {rest : List β}
    (h : R.front s.buf = .frame a rest) :
    R.deframe s = R.deframe ⟨s.frames ++ [a], rest, s.desynced⟩ := by
  rw [deframe]
  split <;> simp_all

theorem deframe_of_incomplete {s : State β α} (h : R.front s.buf = .incomplete) :
    R.deframe s = s := by
  rw [deframe]
  split <;> simp_all

/-- Deframing only adds frames. -/
theorem frames_deframe (s : State β α) : ∃ fs, (R.deframe s).frames = s.frames ++ fs := by
  fun_induction R.deframe s with
  | case1 s a rest _ ih =>
    obtain ⟨fs, hfs⟩ := ih
    exact ⟨a :: fs, by rw [hfs, List.append_assoc, List.singleton_append]⟩
  | case2 s _ => exact ⟨[], (List.append_nil _).symm⟩
  | case3 s _ => exact ⟨[], (List.append_nil _).symm⟩

end Reader

/-! ### Frames read back from their encodings -/

/-- A buffer of `m` symbols at the front of the encodings of `todo` ends inside the first of them. -/
def Within {α β : Type} (enc : α → List β) : List α → ℕ → Prop
  | [], _ => True
  | a :: _, m => m < (enc a).length

theorem Within.mono {enc : α → List β} {todo : List α} {m m' : ℕ} (h : Within enc todo m)
    (hm : m' ≤ m) : Within enc todo m' := by
  cases todo with
  | nil => trivial
  | cons a todo => exact Nat.lt_of_le_of_lt hm h

section Encodings

variable (R : Reader β α) (enc : α → List β) (Framed : α → Prop) (t : List β)

/-- The reader reads every frame back from its encoding, whatever follows it, finds every proper
prefix of an encoding incomplete, and every prefix of `t` too. -/
structure ReadsFrames : Prop where
  frame : ∀ a, Framed a → ∀ rest, R.front (enc a ++ rest) = .frame a rest
  short : ∀ a, Framed a → ∀ k < (enc a).length, R.front ((enc a).take k) = .incomplete
  tail : ∀ k, R.front (t.take k) = .incomplete

variable {R enc Framed t}

/-- Deframing a prefix of the encodings of `todo` followed by `t` takes off the frames whose
encodings are whole in it, and leaves the rest of it, which ends inside the next encoding. -/
theorem ReadsFrames.deframe_take (hR : ReadsFrames R enc Framed t) :
    ∀ (todo : List α), (∀ a ∈ todo, Framed a) → ∀ (fs : List α) (K : ℕ) (d : Bool),
      ∃ j, R.deframe ⟨fs, (todo.flatMap enc ++ t).take K, d⟩ =
          ⟨fs ++ todo.take j,
            ((todo.drop j).flatMap enc ++ t).take (K - ((todo.take j).flatMap enc).length), d⟩ ∧
        ((todo.take j).flatMap enc).length ≤ K ∧
        Within enc (todo.drop j) (K - ((todo.take j).flatMap enc).length)
  | [], _, fs, K, d => ⟨0, by
      simp only [List.flatMap_nil, List.nil_append, List.take_zero, List.append_nil,
        List.drop_zero, List.length_nil, Nat.sub_zero]
      exact ⟨R.deframe_of_incomplete (hR.tail K), Nat.zero_le _, trivial⟩⟩
  | a :: todo, hf, fs, K, d => by
    have ha : Framed a := hf a (List.mem_cons_self ..)
    by_cases hK : K < (enc a).length
    · -- the buffer ends inside the encoding of `a`: nothing is taken off
      refine ⟨0, ?_, Nat.zero_le _, by simpa [Within] using hK⟩
      have hbuf : ((a :: todo).flatMap enc ++ t).take K = (enc a).take K := by
        rw [List.flatMap_cons, List.append_assoc, List.take_append_of_le_length (by omega)]
      simp only [List.take_zero, List.append_nil, List.drop_zero, List.flatMap_nil,
        List.length_nil, Nat.sub_zero]
      rw [hbuf, R.deframe_of_incomplete (hR.short a ha K hK)]
    · -- the encoding of `a` is whole in the buffer: it is taken off, and the rest deframed
      have hbuf : ((a :: todo).flatMap enc ++ t).take K =
          enc a ++ (todo.flatMap enc ++ t).take (K - (enc a).length) := by
        rw [List.flatMap_cons, List.append_assoc, List.take_append,
          List.take_of_length_le (by omega)]
      obtain ⟨j, hj, hle, hwithin⟩ :=
        deframe_take hR todo (fun b hb => hf b (List.mem_cons_of_mem _ hb)) (fs ++ [a])
          (K - (enc a).length) d
      refine ⟨j + 1, ?_, ?_, ?_⟩
      · rw [hbuf, R.deframe_of_frame (hR.frame a ha _), hj]
        simp [List.append_assoc, Nat.sub_sub]
      · simp only [List.take_succ_cons, List.flatMap_cons, List.length_append]
        omega
      · simpa [Nat.sub_sub] using hwithin

end Encodings

/-! ### Any partition of the stream -/

section Feed

variable {R : Reader β α} {enc : α → List β} {Framed : α → Prop} {t : List β} {cap : ℕ}

/-- The deframer after some reads of the encodings of `as` followed by `t`, of which `unread` is
still to come: it holds the frames whose encodings it has read whole, and in its buffer the
symbols read since, which end inside the next encoding. -/
def Deframed (enc : α → List β) (as : List α) (t : List β) (s : State β α) (unread : List β) :
    Prop :=
  ∃ j, s.frames = as.take j ∧ s.desynced = false ∧
    s.buf ++ unread = (as.drop j).flatMap enc ++ t ∧ Within enc (as.drop j) s.buf.length

variable {as : List α}

/-- A buffer that ends inside the next encoding has room for one more symbol. -/
theorem Deframed.buf_lt_cap (hcap : ∀ a, Framed a → (enc a).length ≤ cap)
    (htcap : t.length < cap) (has : ∀ a ∈ as, Framed a) {s : State β α} {unread : List β}
    (h : Deframed enc as t s unread) : s.buf.length < cap := by
  obtain ⟨j, -, -, hbuf, hwithin⟩ := h
  cases hdrop : as.drop j with
  | nil =>
    -- no frame is left: the buffer is a prefix of `t`
    rw [hdrop, List.flatMap_nil, List.nil_append] at hbuf
    have := congrArg List.length hbuf
    simp only [List.length_append] at this
    omega
  | cons a todo =>
    rw [hdrop] at hwithin
    have ha : a ∈ as := List.mem_of_mem_drop (hdrop ▸ List.mem_cons_self ..)
    exact Nat.lt_of_lt_of_le hwithin (hcap a (has a ha))

/-- Appending symbols of the stream to the buffer and deframing keeps the deframer deframed. -/
theorem Deframed.append (hR : ReadsFrames R enc Framed t) (has : ∀ a ∈ as, Framed a)
    {s : State β α} {src later : List β} (h : Deframed enc as t s (src ++ later)) :
    Deframed enc as t (R.deframe ⟨s.frames, s.buf ++ src, s.desynced⟩) later := by
  obtain ⟨j, hframes, hdesync, hbuf, -⟩ := h
  set T := (as.drop j).flatMap enc ++ t
  -- the new buffer is the prefix of the rest of the stream of the symbols appended
  have hnew : s.buf ++ src = T.take (s.buf.length + src.length) := by
    rw [← hbuf, ← List.append_assoc, List.take_left' List.length_append]
  have hrest : later = T.drop (s.buf.length + src.length) := by
    rw [← hbuf, ← List.append_assoc, List.drop_left' List.length_append]
  obtain ⟨j', hj', hle, hwithin⟩ :=
    hR.deframe_take (as.drop j) (fun a ha => has a (List.mem_of_mem_drop ha)) s.frames
      (s.buf.length + src.length) s.desynced
  refine ⟨j + j', ?_, ?_, ?_, ?_⟩
  · rw [hnew, hj', hframes, ← List.take_add]
  · rw [hnew, hj', hdesync]
  · -- the frames taken off are the front of the rest of the stream
    have hsplit : T = ((as.drop j).take j').flatMap enc ++
        (((as.drop j).drop j').flatMap enc ++ t) := by
      rw [← List.append_assoc, ← List.flatMap_append, List.take_append_drop]
    rw [hnew, hrest, hj', hsplit, List.drop_append, List.drop_eq_nil_of_le hle, List.nil_append,
      List.take_append_drop, List.drop_drop]
  · rw [hnew, hj', List.drop_drop]
    rw [List.drop_drop] at hwithin
    exact hwithin.mono (List.length_take_le _ _)

/-- One read keeps the deframer deframed: it appends the front of the source. -/
theorem Deframed.read (hR : ReadsFrames R enc Framed t) (has : ∀ a ∈ as, Framed a)
    {s : State β α} {src later : List β} (h : Deframed enc as t s (src ++ later)) :
    Deframed enc as t (R.read cap s src).1 ((R.read cap s src).2.1 ++ later) := by
  have h' : Deframed enc as t s (src.take (min src.length (cap - s.buf.length)) ++
      (src.drop (min src.length (cap - s.buf.length)) ++ later)) := by
    rwa [← List.append_assoc, List.take_append_drop]
  exact h'.append hR has

/-- Draining a source, in as many reads as it takes, keeps the deframer deframed: the buffer
always has room, so no read takes nothing before the source is empty. -/
theorem Deframed.readAll (hR : ReadsFrames R enc Framed t) (has : ∀ a ∈ as, Framed a)
    (hcap : ∀ a, Framed a → (enc a).length ≤ cap) (htcap : t.length < cap)
    {s : State β α} {src later : List β} (h : Deframed enc as t s (src ++ later)) :
    Deframed enc as t (R.readAll cap s src) later := by
  fun_induction R.readAll cap s src with
  | case1 s => simpa using h
  | case2 s src _ hfull =>
    exact absurd (h.buf_lt_cap hcap htcap has) (Nat.not_lt.2 hfull)
  | case3 s src _ _ ih =>
    exact ih (h.read hR has)

/-- Feeding the reads of a partition keeps the deframer deframed. -/
theorem Deframed.feed (hR : ReadsFrames R enc Framed t) (has : ∀ a ∈ as, Framed a)
    (hcap : ∀ a, Framed a → (enc a).length ≤ cap) (htcap : t.length < cap) :
    ∀ (chunks : List (List β)) {s : State β α} {later : List β},
      Deframed enc as t s (chunks.flatten ++ later) →
      Deframed enc as t (R.feed cap s chunks) later
  | [], _, _, h => by simpa [Reader.feed] using h
  | c :: chunks, _, _, h => by
    rw [List.flatten_cons, List.append_assoc] at h
    exact Deframed.feed hR has hcap htcap chunks (h.readAll hR has hcap htcap)

/-- A frame takes at least one symbol, so every encoding has one. -/
theorem ReadsFrames.length_pos (hR : ReadsFrames R enc Framed t) {a : α} (ha : Framed a) :
    0 < (enc a).length := by
  simpa using R.consumes (hR.frame a ha [])

/-- The new deframer is deframed with the whole stream to come. -/
theorem Deframed.start (hR : ReadsFrames R enc Framed t) (has : ∀ a ∈ as, Framed a) :
    Deframed enc as t ⟨[], [], false⟩ (as.flatMap enc ++ t) := by
  refine ⟨0, rfl, rfl, rfl, ?_⟩
  cases as with
  | nil => trivial
  | cons a as => exact hR.length_pos (has a (List.mem_cons_self ..))

/-- Once the whole stream has been read, the deframer holds every frame and `t`. -/
theorem Deframed.eq_of_nil {s : State β α} (h : Deframed enc as t s []) :
    s = ⟨as, t, false⟩ := by
  obtain ⟨j, hframes, hdesync, hbuf, hwithin⟩ := h
  rw [List.append_nil] at hbuf
  cases hdrop : as.drop j with
  | nil =>
    rw [hdrop, List.flatMap_nil, List.nil_append] at hbuf
    have hj : as.length ≤ j := List.drop_eq_nil_iff.1 hdrop
    cases s
    simp_all [List.take_of_length_le hj]
  | cons a todo =>
    -- the buffer would hold the whole encoding of `a`, yet end inside it
    rw [hdrop] at hwithin hbuf
    have := congrArg List.length hbuf
    simp only [List.flatMap_cons, List.length_append] at this
    exact absurd hwithin (by simp only [Within]; omega)

/-- Deframing does not depend on how the stream is cut into reads: after the reads of any
partition of the encodings of `as` followed by `t`, the deframer holds the frames `as` and the
buffer `t`, and is not desynchronised. -/
theorem Reader.feed_eq (hR : ReadsFrames R enc Framed t) (has : ∀ a ∈ as, Framed a)
    (hcap : ∀ a, Framed a → (enc a).length ≤ cap) (htcap : t.length < cap)
    {chunks : List (List β)} (hchunks : chunks.flatten = as.flatMap enc ++ t) :
    R.feed cap ⟨[], [], false⟩ chunks = ⟨as, t, false⟩ := by
  have hstart := Deframed.start hR has
  rw [← hchunks, ← List.append_nil chunks.flatten] at hstart
  exact (Deframed.feed hR has hcap htcap chunks hstart).eq_of_nil

end Feed

end Framing
