import Tlsn.Lib.AssocMap

/-!
# Binary codecs over byte lists

A reader takes the input that is left and returns a value and what it did not consume, or `none`
when the input does not parse; an encoder turns a value into bytes.

* fixed-width big-endian integers: `readU8`, `readU16`, `readU24`, `readU32` and their encoders;
* `take`, the next `len` bytes, and `readBlock`, a block whose length is read first;
* `readItems`, values read one after another to the end of a block, and `readVec`, such a block
  after its length;
* `EnumCode`, an enumeration given by a table of known values and an unknown case;
* `readTagged`, a tag, then a block after its length, read by a reader the tag chooses.

`ReadsEncoding read encode` says that every successful read consumed exactly the encoding of the
value it returned; `ReadsAll` is the same for a reader of a whole block. Both are closed under the
combinators (`ReadsEncoding.block`, `ReadsEncoding.items`, `ReadsEncoding.vec`, `EnumCode.reads`,
`ReadsEncoding.tagged`),
and for a format whose reader reads its encodings this way, a message read with no byte left
re-encodes to the bytes it was read from.
-/

namespace Codec

/-- Bytes. -/
abbrev Bytes := List UInt8

variable {α β : Type}

/-- Every successful read consumed the encoding of the value it returned. -/
def ReadsEncoding (read : Bytes → Option (α × Bytes)) (encode : α → Bytes) : Prop :=
  ∀ ⦃bs : Bytes⦄ ⦃a : α⦄ ⦃rest : Bytes⦄, read bs = some (a, rest) → bs = encode a ++ rest

/-- A reader of a whole block reads only encodings. -/
def ReadsAll (read : Bytes → Option α) (encode : α → Bytes) : Prop :=
  ∀ ⦃bs : Bytes⦄ ⦃a : α⦄, read bs = some a → bs = encode a

/-- A reader whose values are wrapped by `f`, with `g` taking the wrapper off. -/
theorem ReadsEncoding.map {read : Bytes → Option (α × Bytes)} {encode : α → Bytes}
    (h : ReadsEncoding read encode) {f : α → β} {g : β → α} (hgf : ∀ a, g (f a) = a) :
    ReadsEncoding (fun r => (read r).map fun p => (f p.1, p.2)) (encode ∘ g) := by
  intro bs b rest hr
  obtain ⟨⟨a, r⟩, ha, hb⟩ := Option.map_eq_some_iff.1 hr
  simp only [Prod.mk.injEq] at hb
  obtain ⟨rfl, rfl⟩ := hb
  rw [h ha, Function.comp_apply, hgf]

/-- One read of a sequence: what it consumed is its value's encoding, and the reads after it
start from what it left. -/
theorem ReadsEncoding.bind_eq_some {read : Bytes → Option (α × Bytes)} {encode : α → Bytes}
    (h : ReadsEncoding read encode) {k : α × Bytes → Option β} {bs : Bytes} {b : β}
    (hr : (read bs).bind k = some b) :
    ∃ a r, bs = encode a ++ r ∧ k (a, r) = some b := by
  obtain ⟨⟨a, r⟩, ha, hk⟩ := Option.bind_eq_some_iff.1 hr
  exact ⟨a, r, h ha, hk⟩

/-- A read whose values are wrapped by `f` consumed the encoding of the value under the wrapper. -/
theorem ReadsEncoding.map_eq_some {read : Bytes → Option (α × Bytes)} {encode : α → Bytes}
    (h : ReadsEncoding read encode) {f : α → β} {bs : Bytes} {b : β} {rest : Bytes}
    (hr : (read bs).map (fun p => (f p.1, p.2)) = some (b, rest)) :
    ∃ a, b = f a ∧ bs = encode a ++ rest := by
  obtain ⟨⟨a, r⟩, ha, hb⟩ := Option.map_eq_some_iff.1 hr
  simp only [Prod.mk.injEq] at hb
  obtain ⟨rfl, rfl⟩ := hb
  exact ⟨a, rfl, h ha⟩

/-! ### Taking bytes -/

/-- `Reader::take`: the next `len` bytes, or `none` when fewer are left. -/
def take (len : ℕ) (r : Bytes) : Option (Bytes × Bytes) :=
  if len ≤ r.length then some (r.take len, r.drop len) else none

theorem take_eq_some {len : ℕ} {r a rest : Bytes} :
    take len r = some (a, rest) ↔ a.length = len ∧ r = a ++ rest := by
  unfold take
  constructor
  · intro h
    split_ifs at h with hle
    simp only [Option.some.injEq, Prod.mk.injEq] at h
    obtain ⟨rfl, rfl⟩ := h
    exact ⟨by simp [hle], (List.take_append_drop len r).symm⟩
  · rintro ⟨hlen, rfl⟩
    simp [← hlen]

/-- `Payload::read`: the rest of the input. -/
def readRest (r : Bytes) : Option (Bytes × Bytes) := some (r, [])

theorem readRest_reads : ReadsEncoding readRest id := by
  intro bs a rest h
  simp only [readRest, Option.some.injEq, Prod.mk.injEq] at h
  obtain ⟨rfl, rfl⟩ := h
  simp

/-! ### Integers -/

/-- `u8::read`. -/
def readU8 : Bytes → Option (UInt8 × Bytes)
  | b :: r => some (b, r)
  | [] => none

/-- `u8::encode`. -/
def encodeU8 (b : UInt8) : Bytes := [b]

/-- `u16::read`: two bytes, big-endian. -/
def readU16 (r : Bytes) : Option (UInt16 × Bytes) :=
  (take 2 r).bind fun p => match p.1 with
    | [hi, lo] => some (UInt16.ofNat (hi.toNat * 256 + lo.toNat), p.2)
    | _ => none

/-- `u16::encode`: `to_be_bytes`. -/
def encodeU16 (v : UInt16) : Bytes := [UInt8.ofNat (v.toNat / 256), UInt8.ofNat v.toNat]

/-- `u24::read`: three bytes, big-endian, as a number. -/
def readU24 (r : Bytes) : Option (ℕ × Bytes) :=
  (take 3 r).bind fun p => match p.1 with
    | [a, b, c] => some (a.toNat * 65536 + b.toNat * 256 + c.toNat, p.2)
    | _ => none

/-- `u24(n as u32).encode`: the low three bytes, big-endian. -/
def encodeU24 (n : ℕ) : Bytes :=
  [UInt8.ofNat (n / 65536), UInt8.ofNat (n / 256), UInt8.ofNat n]

/-- `u32::read`: four bytes, big-endian. -/
def readU32 (r : Bytes) : Option (UInt32 × Bytes) :=
  (take 4 r).bind fun p => match p.1 with
    | [a, b, c, d] =>
      some (UInt32.ofNat (a.toNat * 16777216 + b.toNat * 65536 + c.toNat * 256 + d.toNat), p.2)
    | _ => none

/-- `u32::encode`: `to_be_bytes`. -/
def encodeU32 (v : UInt32) : Bytes :=
  [UInt8.ofNat (v.toNat / 16777216), UInt8.ofNat (v.toNat / 65536), UInt8.ofNat (v.toNat / 256),
    UInt8.ofNat v.toNat]

/-- `u64::to_be_bytes`: eight bytes, big-endian. -/
def encodeU64 (v : UInt64) : Bytes :=
  (List.range 8).reverse.map fun i => UInt8.ofNat (v.toNat / 256 ^ i)

/-- A byte is determined by its value modulo `256`. -/
theorem ofNat_eq_of_mod {x : UInt8} {k : ℕ} (hk : k % 256 = x.toNat) : UInt8.ofNat k = x := by
  apply UInt8.toNat_inj.1
  rw [UInt8.toNat_ofNat']
  exact hk

theorem readU8_reads : ReadsEncoding readU8 encodeU8 := by
  intro bs a rest h
  cases bs with
  | nil => cases h
  | cons b r =>
    simp only [readU8, Option.some.injEq, Prod.mk.injEq] at h
    obtain ⟨rfl, rfl⟩ := h
    rfl

theorem readU16_reads : ReadsEncoding readU16 encodeU16 := by
  intro bs v rest hr
  obtain ⟨⟨blk, r⟩, htake, h⟩ := Option.bind_eq_some_iff.1 hr
  obtain ⟨hlen, rfl⟩ := take_eq_some.1 htake
  obtain ⟨hi, lo, rfl⟩ := List.length_eq_two.1 hlen
  simp only [Option.some.injEq, Prod.mk.injEq] at h
  obtain ⟨rfl, rfl⟩ := h
  have := hi.toNat_lt
  have := lo.toNat_lt
  have hv : (UInt16.ofNat (hi.toNat * 256 + lo.toNat)).toNat = hi.toNat * 256 + lo.toNat :=
    UInt16.toNat_ofNat_of_lt' (by simp only [UInt16.size]; omega)
  simp only [encodeU16, hv]
  rw [ofNat_eq_of_mod (x := hi) (by omega), ofNat_eq_of_mod (x := lo) (by omega)]

/-- `u8::read` reads back `u8::encode`, whatever follows it. -/
theorem readU8_encode (b : UInt8) (rest : Bytes) : readU8 (encodeU8 b ++ rest) = some (b, rest) :=
  rfl

/-- `u16::read` reads back `u16::encode`, whatever follows it. -/
theorem readU16_encode (v : UInt16) (rest : Bytes) :
    readU16 (encodeU16 v ++ rest) = some (v, rest) := by
  have hv : v.toNat < 65536 := v.toNat_lt
  simp only [readU16, encodeU16, take, List.length_append, List.length_cons, List.length_nil]
  rw [if_pos (by omega)]
  simp only [List.cons_append, List.nil_append, List.take_succ_cons, List.take_zero,
    List.drop_succ_cons, List.drop_zero, Option.bind_some]
  -- the two bytes are the value's high and low bytes
  congr 2
  apply UInt16.toNat_inj.1
  simp only [UInt16.toNat_ofNat', UInt8.toNat_ofNat']
  omega

/-- What `readU24` reads: three bytes off the front, big-endian. -/
theorem readU24_eq_some {bs rest : Bytes} {n : ℕ} (hr : readU24 bs = some (n, rest)) :
    ∃ a b c : UInt8, bs = [a, b, c] ++ rest ∧ n = a.toNat * 65536 + b.toNat * 256 + c.toNat := by
  obtain ⟨⟨blk, r⟩, htake, h⟩ := Option.bind_eq_some_iff.1 hr
  obtain ⟨hlen, rfl⟩ := take_eq_some.1 htake
  obtain ⟨a, b, c, rfl⟩ := List.length_eq_three.1 hlen
  simp only [Option.some.injEq, Prod.mk.injEq] at h
  obtain ⟨rfl, rfl⟩ := h
  exact ⟨a, b, c, rfl, rfl⟩

theorem readU24_reads : ReadsEncoding readU24 encodeU24 := by
  intro bs n rest hr
  obtain ⟨a, b, c, rfl, rfl⟩ := readU24_eq_some hr
  have := a.toNat_lt
  have := b.toNat_lt
  have := c.toNat_lt
  simp only [encodeU24]
  rw [ofNat_eq_of_mod (x := a) (by omega), ofNat_eq_of_mod (x := b) (by omega),
    ofNat_eq_of_mod (x := c) (by omega)]

/-- `u24::read` reads back the encoding of a number below `2²⁴`, whatever follows it. -/
theorem readU24_encode {n : ℕ} (hn : n < 16777216) (rest : Bytes) :
    readU24 (encodeU24 n ++ rest) = some (n, rest) := by
  simp only [readU24, encodeU24, take, List.length_append, List.length_cons, List.length_nil]
  rw [if_pos (by omega)]
  simp only [List.cons_append, List.nil_append, List.take_succ_cons, List.take_zero,
    List.drop_succ_cons, List.drop_zero, Option.bind_some]
  -- the three bytes are the number's bytes, high first
  congr 2
  simp only [UInt8.toNat_ofNat']
  omega

theorem readU32_reads : ReadsEncoding readU32 encodeU32 := by
  intro bs v rest hr
  obtain ⟨⟨blk, r⟩, htake, h⟩ := Option.bind_eq_some_iff.1 hr
  obtain ⟨hlen, rfl⟩ := take_eq_some.1 htake
  obtain ⟨a, b, c, d, rfl⟩ := List.length_eq_four.1 hlen
  simp only [Option.some.injEq, Prod.mk.injEq] at h
  obtain ⟨rfl, rfl⟩ := h
  have := a.toNat_lt
  have := b.toNat_lt
  have := c.toNat_lt
  have := d.toNat_lt
  have hv : (UInt32.ofNat (a.toNat * 16777216 + b.toNat * 65536 + c.toNat * 256 +
      d.toNat)).toNat = a.toNat * 16777216 + b.toNat * 65536 + c.toNat * 256 + d.toNat :=
    UInt32.toNat_ofNat_of_lt' (by simp only [UInt32.size]; omega)
  simp only [encodeU32, hv]
  rw [ofNat_eq_of_mod (x := a) (by omega), ofNat_eq_of_mod (x := b) (by omega),
    ofNat_eq_of_mod (x := c) (by omega), ofNat_eq_of_mod (x := d) (by omega)]

/-! ### Blocks and vectors -/

/-- A length read as a `u8`. -/
def readLenU8 (r : Bytes) : Option (ℕ × Bytes) := (readU8 r).map fun p => (p.1.toNat, p.2)

/-- A length written as a `u8`: `len as u8`. -/
def encodeLenU8 (n : ℕ) : Bytes := [UInt8.ofNat n]

/-- A length read as a `u16`. -/
def readLenU16 (r : Bytes) : Option (ℕ × Bytes) := (readU16 r).map fun p => (p.1.toNat, p.2)

/-- A length written as a `u16`: `len as u16`. -/
def encodeLenU16 (n : ℕ) : Bytes := encodeU16 (UInt16.ofNat n)

theorem readLenU8_reads : ReadsEncoding readLenU8 encodeLenU8 := by
  intro bs n rest h
  obtain ⟨⟨b, r⟩, hb, h⟩ := Option.map_eq_some_iff.1 h
  simp only [Prod.mk.injEq] at h
  obtain ⟨rfl, rfl⟩ := h
  rw [readU8_reads hb, encodeU8, encodeLenU8, UInt8.ofNat_toNat]

theorem readLenU16_reads : ReadsEncoding readLenU16 encodeLenU16 := by
  intro bs n rest h
  obtain ⟨⟨v, r⟩, hv, h⟩ := Option.map_eq_some_iff.1 h
  simp only [Prod.mk.injEq] at h
  obtain ⟨rfl, rfl⟩ := h
  rw [readU16_reads hv, encodeLenU16, UInt16.ofNat_toNat]

/-- `let len = ...; r.sub(len)`: the block of the length read first, and what follows it. -/
def readBlock (readLen : Bytes → Option (ℕ × Bytes)) (r : Bytes) : Option (Bytes × Bytes) :=
  (readLen r).bind fun p => take p.1 p.2

/-- A block is read after its own length. -/
theorem ReadsEncoding.block {readLen : Bytes → Option (ℕ × Bytes)} {encodeLen : ℕ → Bytes}
    (h : ReadsEncoding readLen encodeLen) :
    ReadsEncoding (readBlock readLen) fun blk => encodeLen blk.length ++ blk := by
  intro bs blk rest hr
  obtain ⟨⟨len, r⟩, hlen, ht⟩ := Option.bind_eq_some_iff.1 hr
  obtain ⟨hl, rfl⟩ := take_eq_some.1 ht
  show bs = encodeLen blk.length ++ blk ++ rest
  rw [h hlen, hl, List.append_assoc]

/-- `while sub.any_left() { ret.push(T::read(&mut sub)?) }`: values read to the end of a block.
A read that consumed nothing would loop forever; it is `none` here. -/
def readItems (read : Bytes → Option (α × Bytes)) (bs : Bytes) : Option (List α) :=
  if bs = [] then some []
  else
    match read bs with
    | none => none
    | some (a, rest) =>
      if _ : rest.length < bs.length then (readItems read rest).map (a :: ·) else none
termination_by bs.length

/-- Values read to the end of a block are the block's encoding. -/
theorem ReadsEncoding.items {read : Bytes → Option (α × Bytes)} {encode : α → Bytes}
    (h : ReadsEncoding read encode) : ReadsAll (readItems read) fun as => as.flatMap encode := by
  intro bs
  induction bs using WellFounded.induction (measure List.length).wf with
  | h bs ih =>
    intro as hr
    unfold readItems at hr
    split_ifs at hr with hnil
    · cases hr
      simp [hnil]
    · split at hr
      · cases hr
      rename_i a rest hread
      split_ifs at hr with hlt
      obtain ⟨as', hitems, rfl⟩ := Option.map_eq_some_iff.1 hr
      show bs = (a :: as').flatMap encode
      rw [List.flatMap_cons, h hread, ih rest hlt hitems]

/-- `read_vec_u8`, `read_vec_u16`: a block after its length, read as values to its end. -/
def readVec (readLen : Bytes → Option (ℕ × Bytes)) (read : Bytes → Option (α × Bytes))
    (r : Bytes) : Option (List α × Bytes) :=
  (readBlock readLen r).bind fun p => (readItems read p.1).map (·, p.2)

/-- `encode_vec_u8`, `encode_vec_u16`: the encodings of the values after their total length. -/
def encodeVec (encodeLen : ℕ → Bytes) (encode : α → Bytes) (as : List α) : Bytes :=
  encodeLen (as.flatMap encode).length ++ as.flatMap encode

theorem ReadsEncoding.vec {readLen : Bytes → Option (ℕ × Bytes)} {encodeLen : ℕ → Bytes}
    {read : Bytes → Option (α × Bytes)} {encode : α → Bytes}
    (hlen : ReadsEncoding readLen encodeLen) (h : ReadsEncoding read encode) :
    ReadsEncoding (readVec readLen read) (encodeVec encodeLen encode) := by
  intro bs as rest hr
  obtain ⟨⟨blk, r⟩, hblk, hr⟩ := Option.bind_eq_some_iff.1 hr
  obtain ⟨as', hitems, heq⟩ := Option.map_eq_some_iff.1 hr
  simp only [Prod.mk.injEq] at heq
  obtain ⟨rfl, rfl⟩ := heq
  have hb : bs = encodeLen blk.length ++ blk ++ r := hlen.block hblk
  have hi : blk = List.flatMap encode as' := h.items hitems
  rw [hb, hi]
  rfl

/-- A length that may not exceed `max`: `if len > max_bytes { return None }`. -/
def readLenAtMost (max : ℕ) (readLen : Bytes → Option (ℕ × Bytes)) (r : Bytes) :
    Option (ℕ × Bytes) :=
  (readLen r).bind fun p => if p.1 > max then none else some p

theorem ReadsEncoding.atMost {readLen : Bytes → Option (ℕ × Bytes)} {encodeLen : ℕ → Bytes}
    (h : ReadsEncoding readLen encodeLen) (max : ℕ) :
    ReadsEncoding (readLenAtMost max readLen) encodeLen := by
  intro bs n rest hr
  obtain ⟨⟨len, r⟩, hlen, hr⟩ := Option.bind_eq_some_iff.1 hr
  split_ifs at hr
  cases hr
  exact h hlen

/-! ### Enumerations -/

/-- An enumeration with a table of known values and a case for every other value. -/
structure EnumCode (ε ν : Type) where
  table : List (ε × ν)
  unknown : ν → ε
  unknownVal? : ε → Option ν

namespace EnumCode

variable {ε ν : Type} [DecidableEq ε] [DecidableEq ν] [Inhabited ν]

/-- `From<u8>` / `From<u16>`: the first known case with the value, else the unknown case. -/
def ofVal (c : EnumCode ε ν) (x : ν) : ε :=
  match c.table.find? fun p => p.2 = x with
  | some p => p.1
  | none => c.unknown x

/-- `get_u8` / `get_u16`: the value of a case. -/
def toVal (c : EnumCode ε ν) (e : ε) : ν :=
  match c.unknownVal? e with
  | some x => x
  | none => ((c.table.find? fun p => p.1 = e).map Prod.snd).getD default

/-- The known cases are distinct, and the unknown case holds its value and is not known. -/
structure WellFormed (c : EnumCode ε ν) : Prop where
  nodup : (c.table.map Prod.fst).Nodup
  unknownVal_unknown : ∀ x, c.unknownVal? (c.unknown x) = some x
  unknownVal_known : ∀ p ∈ c.table, c.unknownVal? p.1 = none

/-- The value of the case read from a value is that value. -/
theorem toVal_ofVal {c : EnumCode ε ν} (hc : c.WellFormed) (x : ν) : c.toVal (c.ofVal x) = x := by
  unfold ofVal
  split
  · rename_i p hp
    have hmem := List.mem_of_find?_eq_some hp
    have hx : p.2 = x := by simpa using List.find?_some hp
    -- the cases are distinct, so the first entry of the case of `p` is `p`
    have hfind := List.find?_key_of_nodup hc.nodup hmem
    simp [toVal, hc.unknownVal_known p hmem, hfind, hx]
  · simp [toVal, hc.unknownVal_unknown]

/-- `T::read`: a value, as its case. -/
def read (c : EnumCode ε ν) (readVal : Bytes → Option (ν × Bytes)) (r : Bytes) :
    Option (ε × Bytes) :=
  (readVal r).map fun p => (c.ofVal p.1, p.2)

/-- `T::encode`: the value of the case. -/
def encode (c : EnumCode ε ν) (encodeVal : ν → Bytes) (e : ε) : Bytes := encodeVal (c.toVal e)

/-- A case read from the input is the encoding of its value: a value read as an unknown case keeps
it, and a known value is the first case of the table with it. -/
theorem reads {c : EnumCode ε ν} (hc : c.WellFormed) {readVal : Bytes → Option (ν × Bytes)}
    {encodeVal : ν → Bytes} (h : ReadsEncoding readVal encodeVal) :
    ReadsEncoding (c.read readVal) (c.encode encodeVal) := by
  exact h.map (toVal_ofVal hc)

/-- A case `T::read` returns is the case of its own value. -/
theorem ofVal_toVal_of_read {c : EnumCode ε ν} (hc : c.WellFormed)
    {readVal : Bytes → Option (ν × Bytes)} {r : Bytes} {e : ε} {rest : Bytes}
    (h : c.read readVal r = some (e, rest)) : c.ofVal (c.toVal e) = e := by
  obtain ⟨⟨x, r'⟩, -, he⟩ := Option.map_eq_some_iff.1 h
  simp only [Prod.mk.injEq] at he
  rw [← he.1, toVal_ofVal hc]

/-- `T::read` reads back `T::encode` as the case of the value, whatever follows it. -/
theorem read_encode {c : EnumCode ε ν} {readVal : Bytes → Option (ν × Bytes)}
    {encodeVal : ν → Bytes} (h : ∀ x rest, readVal (encodeVal x ++ rest) = some (x, rest))
    (e : ε) (rest : Bytes) : c.read readVal (c.encode encodeVal e ++ rest) =
      some (c.ofVal (c.toVal e), rest) := by
  simp only [read, encode, h, Option.map_some]

end EnumCode

/-! ### Whole inputs -/

/-- A value read from the whole input: `let v = T::read(&mut rd)?; if rd.any_left() { None }`. -/
def readAll (read : Bytes → Option (α × Bytes)) (bs : Bytes) : Option α :=
  match read bs with
  | some (a, []) => some a
  | _ => none

theorem readAll_eq_some {read : Bytes → Option (α × Bytes)} {bs : Bytes} {a : α} :
    readAll read bs = some a ↔ read bs = some (a, []) := by
  unfold readAll
  split <;> simp_all

/-- A value read with no byte left is the encoding of the whole input. -/
theorem ReadsEncoding.all {read : Bytes → Option (α × Bytes)} {encode : α → Bytes}
    (h : ReadsEncoding read encode) : ReadsAll (readAll read) encode := by
  intro bs a hr
  simpa using h (readAll_eq_some.1 hr)

/-! ### Tagged blocks -/

section Tagged

variable {τ : Type}

/-- A tag, then a block after its length, read whole by a reader the tag chooses: the layout of a
TLS extension (type, `u16` length, body) and of a handshake message (type, `u24` length, body). -/
def readTagged (readTag : Bytes → Option (τ × Bytes)) (readLen : Bytes → Option (ℕ × Bytes))
    (readBody : τ → Bytes → Option (α × Bytes)) (r : Bytes) : Option (α × Bytes) := do
  let (t, r) ← readTag r
  let (sub, r) ← readBlock readLen r
  let a ← readAll (readBody t) sub
  some (a, r)

/-- The tag of a value, then its body after the body's length. -/
def encodeTagged (encodeTag : τ → Bytes) (encodeLen : ℕ → Bytes) (tag : α → τ)
    (encodeBody : α → Bytes) (a : α) : Bytes :=
  encodeTag (tag a) ++ encodeLen (encodeBody a).length ++ encodeBody a

/-- A body read under a tag is the body of a value of that tag. -/
def ReadsTagged (readBody : τ → Bytes → Option (α × Bytes)) (tag : α → τ)
    (encodeBody : α → Bytes) : Prop :=
  ∀ ⦃t : τ⦄ ⦃bs : Bytes⦄ ⦃a : α⦄ ⦃rest : Bytes⦄,
    readBody t bs = some (a, rest) → tag a = t ∧ bs = encodeBody a ++ rest

/-- A body read by a reader of encodings, under a wrapper `g` that gives the value the tag `t` and
keeps the encoding and what is left. -/
theorem ReadsEncoding.tagged_map {read : Bytes → Option (β × Bytes)} {encode : β → Bytes}
    (h : ReadsEncoding read encode) {tag : α → τ} {encodeBody : α → Bytes} {t : τ}
    {g : β × Bytes → α × Bytes} {bs : Bytes} {a : α} {rest : Bytes}
    (hr : (read bs).map g = some (a, rest))
    (hg : ∀ p, tag (g p).1 = t ∧ encodeBody (g p).1 = encode p.1 ∧ (g p).2 = p.2) :
    tag a = t ∧ bs = encodeBody a ++ rest := by
  obtain ⟨⟨b, r⟩, hb, hga⟩ := Option.map_eq_some_iff.1 hr
  obtain ⟨htag, henc, hrest⟩ := hg (b, r)
  rw [hga] at htag henc hrest
  subst hrest
  exact ⟨htag, by rw [h hb, henc]⟩

/-- A body given outright, with what it left of the block. -/
theorem ReadsTagged.of_some {tag : α → τ} {encodeBody : α → Bytes} {t : τ} {x a : α}
    {bs r rest : Bytes} (h : some (x, r) = some (a, rest)) (htag : tag x = t)
    (henc : bs = encodeBody x ++ r) : tag a = t ∧ bs = encodeBody a ++ rest := by
  simp only [Option.some.injEq, Prod.mk.injEq] at h
  obtain ⟨rfl, rfl⟩ := h
  exact ⟨htag, henc⟩

/-- Tagged blocks read only encodings, when the tag, the length and every body do. -/
theorem ReadsEncoding.tagged {readTag : Bytes → Option (τ × Bytes)} {encodeTag : τ → Bytes}
    {readLen : Bytes → Option (ℕ × Bytes)} {encodeLen : ℕ → Bytes}
    {readBody : τ → Bytes → Option (α × Bytes)} {tag : α → τ} {encodeBody : α → Bytes}
    (htag : ReadsEncoding readTag encodeTag) (hlen : ReadsEncoding readLen encodeLen)
    (hbody : ReadsTagged readBody tag encodeBody) :
    ReadsEncoding (readTagged readTag readLen readBody)
      (encodeTagged encodeTag encodeLen tag encodeBody) := by
  intro bs a rest hr
  obtain ⟨t, r, rfl, hk₁⟩ := htag.bind_eq_some hr
  obtain ⟨⟨sub, r'⟩, hblk, hk₂⟩ := Option.bind_eq_some_iff.1 hk₁
  obtain ⟨a', hall, hk₃⟩ := Option.bind_eq_some_iff.1 hk₂
  simp only [Option.some.injEq, Prod.mk.injEq] at hk₃
  obtain ⟨rfl, rfl⟩ := hk₃
  -- the block is the body of a value of the tag read before it
  obtain ⟨rfl, hsub⟩ := hbody (readAll_eq_some.1 hall)
  rw [hlen.block hblk, hsub, List.append_nil]
  simp [encodeTagged]

end Tagged

/-! ### Reading from a longer input -/

/-- A reader that reads the same value from a longer input, and leaves the extra bytes unread: it
looks at no byte past those it consumes. -/
def Extends (read : Bytes → Option (α × Bytes)) : Prop :=
  ∀ ⦃bs : Bytes⦄ ⦃a : α⦄ ⦃rest : Bytes⦄ (more : Bytes),
    read bs = some (a, rest) → read (bs ++ more) = some (a, rest ++ more)

theorem take_extends (len : ℕ) : Extends (take len) := by
  intro bs a rest more h
  obtain ⟨hlen, rfl⟩ := take_eq_some.1 h
  exact take_eq_some.2 ⟨hlen, List.append_assoc _ _ _⟩

theorem readU8_extends : Extends readU8 := by
  intro bs b rest more h
  cases bs with
  | nil => cases h
  | cons b' bs =>
    simp only [readU8, Option.some.injEq, Prod.mk.injEq] at h
    obtain ⟨rfl, rfl⟩ := h
    rfl

theorem readU24_extends : Extends readU24 := by
  intro bs n rest more hr
  obtain ⟨a, b, c, rfl, rfl⟩ := readU24_eq_some hr
  have htake : take 3 ([a, b, c] ++ rest ++ more) = some ([a, b, c], rest ++ more) :=
    take_eq_some.2 ⟨rfl, List.append_assoc _ _ _⟩
  rw [readU24, htake, Option.bind_some]

theorem readBlock_extends {readLen : Bytes → Option (ℕ × Bytes)} (h : Extends readLen) :
    Extends (readBlock readLen) := by
  intro bs blk rest more hr
  obtain ⟨⟨len, r⟩, hlen, ht⟩ := Option.bind_eq_some_iff.1 hr
  rw [readBlock, h more hlen, Option.bind_some]
  exact take_extends len more ht

theorem EnumCode.read_extends {ε ν : Type} [DecidableEq ε] [DecidableEq ν] [Inhabited ν]
    (c : EnumCode ε ν) {readVal : Bytes → Option (ν × Bytes)} (h : Extends readVal) :
    Extends (c.read readVal) := by
  intro bs e rest more hr
  obtain ⟨⟨x, r⟩, hx, he⟩ := Option.map_eq_some_iff.1 hr
  simp only [Prod.mk.injEq] at he
  obtain ⟨rfl, rfl⟩ := he
  rw [EnumCode.read, h more hx, Option.map_some]

/-- A tagged block is read from its tag, its length and the block itself, whatever the body. -/
theorem readTagged_extends {τ : Type} {readTag : Bytes → Option (τ × Bytes)}
    {readLen : Bytes → Option (ℕ × Bytes)} (htag : Extends readTag) (hlen : Extends readLen)
    (readBody : τ → Bytes → Option (α × Bytes)) :
    Extends (readTagged readTag readLen readBody) := by
  intro bs a rest more hr
  obtain ⟨⟨t, r⟩, ht, hk₁⟩ := Option.bind_eq_some_iff.1 hr
  obtain ⟨⟨sub, r'⟩, hblk, hk₂⟩ := Option.bind_eq_some_iff.1 hk₁
  obtain ⟨a', hall, hk₃⟩ := Option.bind_eq_some_iff.1 hk₂
  simp only [Option.some.injEq, Prod.mk.injEq] at hk₃
  obtain ⟨rfl, rfl⟩ := hk₃
  simp only [readTagged, htag more ht, readBlock_extends hlen more hblk, hall, Option.bind_eq_bind,
    Option.bind_some]

end Codec
