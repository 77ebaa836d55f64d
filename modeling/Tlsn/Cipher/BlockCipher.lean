import Tlsn.Lib.Outcome

/-!
# The MPC block cipher (`block-cipher/src/cipher.rs`)

`MpcBlockCipher` encrypts one block with the other party at a time. Each encryption runs the
cipher's circuit on a message input and a ciphertext output of the MPC memory, which
`define_block` defines under a fresh execution id: `<id>/private/i` for a Private or a Blind
message, `<id>/public/i` for a Public one, `i` counting the definitions of that label. `preprocess`
defines and loads blocks ahead of time and queues them; `encrypt_private` and `encrypt_blind` take
the front of `preprocessed_private` and `encrypt_share` the front of `preprocessed_public`, and each
defines a new block of its own visibility when its queue is empty.

Private and Blind blocks share one queue: an encryption takes the oldest block queued by either
kind of `preprocess`, so `encrypt_private` gets a Blind block after `preprocess(Blind, _)`
(`encrypt_private_uses_blind_block`). What does hold over every sequence of calls
(`block_cipher_queue_order`): the memory never redefines a name, the `i`-th block of each label is
named `<id>/label/i`, each label's blocks are used at most once and in the order of their
definition, and an encryption uses a block of its own visibility, or one queued by a `preprocess`
of another visibility with the same label.

The executor is a black box: whether a load, or an encryption's assignment, execution and
decoding, succeed is an input of each call (`vm`). The memory is modelled by the values it defines
for the cipher, in order; an encryption returns the block whose decoded ciphertext (or share of it)
the call returns. The key is modelled by whether it is set. What a successful decoding returns is
left out: the decoded value is taken to be present and a block, so the `expect("ciphertext should
be present")`, `panic!("ciphertext should be a block")` and their `share` counterparts of the
encryptions are not modelled.
-/

namespace Tlsn.BlockCipher

/-- `Visibility` of a message plaintext. -/
inductive Visibility
  | «private»
  | blind
  | «public»
  deriving DecidableEq, Repr

/-- Whether blocks of the visibility are counted and queued apart from Private and Blind ones. -/
def Visibility.isPublic : Visibility → Bool
  | .«public» => true
  | .«private» | .blind => false

/-- `ErrorKind` of `BlockCipherError`. -/
inductive ErrorKind
  | vm
  | key
  | msg
  deriving DecidableEq, Repr

/-- `BlockCipherError`: its kind and the message of its source. -/
structure BlockCipherError where
  kind : ErrorKind
  source : String
  deriving DecidableEq, Repr

/-- `BlockCipherError::key_not_set`. -/
def BlockCipherError.keyNotSet : BlockCipherError := ⟨.key, "key not set"⟩

/-- `BlockCipherError::invalid_message_length`. -/
def BlockCipherError.invalidMessageLength (blockLen len : ℕ) : BlockCipherError :=
  ⟨.msg, "message length does not equal block length: " ++ toString len ++ " != " ++
    toString blockLen⟩

/-- `BlockCipherCircuit`: the length of a block. -/
structure BlockCipherCircuit where
  blockLen : ℕ

/-- `Aes128`. -/
def aes128 : BlockCipherCircuit := ⟨16⟩

/-- `BlockCipherConfig`. -/
structure BlockCipherConfig where
  id : String

/-- An execution id: the counter appended to `<id>/private` or `<id>/public` and incremented in
place; its `i`-th increment (from zero) is `<id>/label/i`, here `⟨id, label, i⟩`. -/
structure ExecutionId where
  id : String
  label : String
  counter : ℕ
  deriving DecidableEq, Repr

/-- A value of the MPC memory named after an execution id `e`: `e/msg` or `e/ciphertext`. -/
inductive ValueRef
  | msg (id : ExecutionId)
  | ciphertext (id : ExecutionId)
  deriving DecidableEq, Repr

/-- The execution id a value is named after. -/
def ValueRef.executionId : ValueRef → ExecutionId
  | .msg e => e
  | .ciphertext e => e

/-- How the memory defined a value: an input of a visibility, or an output. -/
inductive ValueKind
  | input (visibility : Visibility)
  | output
  deriving DecidableEq, Repr

/-- `BlockVars`. -/
structure BlockVars where
  msg : ValueRef
  ciphertext : ValueRef
  deriving DecidableEq, Repr

/-- `MpcBlockCipher`: its `State`, with the execution ids kept as the base id and the next
increment of each counter, and the values its executor's memory defines for it, in order. -/
structure MpcBlockCipher where
  id : String
  privateExecutionId : ℕ
  publicExecutionId : ℕ
  preprocessedPrivate : List BlockVars
  preprocessedPublic : List BlockVars
  /-- Whether `set_key` was called. -/
  key : Bool
  memory : List (ValueRef × ValueKind)
  deriving DecidableEq, Repr

/-- `new_private_input`, `new_blind_input`, `new_public_input` and `new_output`: the value added
under a new name; a name already defined is an error of the memory, which `define_block` turns into
a panic (`expect`). -/
def defineValue (memory : List (ValueRef × ValueKind)) (name : ValueRef) (kind : ValueKind) :
    Option (List (ValueRef × ValueKind)) :=
  if name ∈ memory.map Prod.fst then none else some (memory ++ [(name, kind)])

namespace MpcBlockCipher

/-- `MpcBlockCipher::new`: both counters appended to the configured id, the queues empty, no
key. -/
def new (config : BlockCipherConfig) : MpcBlockCipher := ⟨config.id, 0, 0, [], [], false, []⟩

/-- `set_key`. -/
def setKey (c : MpcBlockCipher) : MpcBlockCipher := { c with key := true }

/-- `define_block`: the message input, of the visibility, and the ciphertext output, named after
the next increment of the private counter (Private and Blind) or of the public one. -/
def defineBlock (c : MpcBlockCipher) (vis : Visibility) : Option (BlockVars × MpcBlockCipher) := do
  let (eid, c) : ExecutionId × MpcBlockCipher := match vis with
    | .«private» | .blind =>
      (⟨c.id, "private", c.privateExecutionId⟩,
        { c with privateExecutionId := c.privateExecutionId + 1 })
    | .«public» =>
      (⟨c.id, "public", c.publicExecutionId⟩,
        { c with publicExecutionId := c.publicExecutionId + 1 })
  let memory ← defineValue c.memory (.msg eid) (.input vis)
  let memory ← defineValue memory (.ciphertext eid) .output
  pure (⟨.msg eid, .ciphertext eid⟩, { c with memory })

/-- `push_back` onto the queue of the visibility: `preprocessed_private` for Private and Blind,
`preprocessed_public` for Public. -/
def pushBack (c : MpcBlockCipher) (vis : Visibility) (vars : BlockVars) : MpcBlockCipher :=
  match vis with
  | .«private» | .blind => { c with preprocessedPrivate := c.preprocessedPrivate ++ [vars] }
  | .«public» => { c with preprocessedPublic := c.preprocessedPublic ++ [vars] }

/-- `pop_front` of the queue the encryption of the visibility reads. -/
def popFront (c : MpcBlockCipher) (vis : Visibility) : Option (BlockVars × MpcBlockCipher) :=
  match vis with
  | .«private» | .blind =>
    match c.preprocessedPrivate with
    | [] => none
    | vars :: rest => some (vars, { c with preprocessedPrivate := rest })
  | .«public» =>
    match c.preprocessedPublic with
    | [] => none
    | vars :: rest => some (vars, { c with preprocessedPublic := rest })

/-- The loop of `preprocess`, from its `i`-th turn on with `n` turns left: a block defined, its
circuit loaded (`vm i`), and the block queued. -/
def preprocessBlocks (vis : Visibility) (vm : ℕ → Except BlockCipherError Unit) :
    ℕ → ℕ → MpcBlockCipher → Outcome BlockCipherError Unit × MpcBlockCipher
  | _, 0, c => (.ok (), c)
  | i, n + 1, c =>
    match c.defineBlock vis with
    | none => (.panic, c)
    | some (vars, c) =>
      match vm i with
      | .error e => (.err e, c)
      | .ok () => preprocessBlocks vis vm (i + 1) n (c.pushBack vis vars)

/-- `preprocess`: `count` blocks of the visibility, once the key is set. -/
def preprocess (c : MpcBlockCipher) (visibility : Visibility) (count : ℕ)
    (vm : ℕ → Except BlockCipherError Unit) : Outcome BlockCipherError Unit × MpcBlockCipher :=
  if c.key then preprocessBlocks visibility vm 0 count c else (.err .keyNotSet, c)

/-- The statement of the encryptions that takes a block: the front of the queue, else a new block
of the encryption's visibility. -/
def takeBlock (c : MpcBlockCipher) (vis : Visibility) : Option (BlockVars × MpcBlockCipher) :=
  match c.popFront vis with
  | some r => some r
  | none => c.defineBlock vis

/-- The encryptions after the check of the plaintext's length: the key read, a block taken, and
the executor's assignment, execution and decoding (`vm`). -/
def encryptBlock (c : MpcBlockCipher) (vis : Visibility) (vm : Except BlockCipherError Unit) :
    Outcome BlockCipherError BlockVars × MpcBlockCipher :=
  if c.key then
    match c.takeBlock vis with
    | none => (.panic, c)
    | some (vars, c) =>
      match vm with
      | .ok () => (.ok vars, c)
      | .error e => (.err e, c)
  else (.err .keyNotSet, c)

/-- An encryption of a plaintext of `len` bytes, which must be one block. -/
def encryptChecked (C : BlockCipherCircuit) (c : MpcBlockCipher) (vis : Visibility) (len : ℕ)
    (vm : Except BlockCipherError Unit) : Outcome BlockCipherError BlockVars × MpcBlockCipher :=
  if len = C.blockLen then c.encryptBlock vis vm
  else (.err (.invalidMessageLength C.blockLen len), c)

/-- `encrypt_private`. -/
def encryptPrivate (C : BlockCipherCircuit) (c : MpcBlockCipher) (len : ℕ)
    (vm : Except BlockCipherError Unit) : Outcome BlockCipherError BlockVars × MpcBlockCipher :=
  c.encryptChecked C .«private» len vm

/-- `encrypt_blind`: the other party's plaintext, so no length to check. -/
def encryptBlind (c : MpcBlockCipher) (vm : Except BlockCipherError Unit) :
    Outcome BlockCipherError BlockVars × MpcBlockCipher :=
  c.encryptBlock .blind vm

/-- `encrypt_share`. -/
def encryptShare (C : BlockCipherCircuit) (c : MpcBlockCipher) (len : ℕ)
    (vm : Except BlockCipherError Unit) : Outcome BlockCipherError BlockVars × MpcBlockCipher :=
  c.encryptChecked C .«public» len vm

end MpcBlockCipher

/-- The calls of `BlockCipher`, with the length of their plaintext and the outcome of the
executor's part. -/
inductive Call
  | setKey
  | preprocess (visibility : Visibility) (count : ℕ) (vm : ℕ → Except BlockCipherError Unit)
  | encryptPrivate (len : ℕ) (vm : Except BlockCipherError Unit)
  | encryptBlind (vm : Except BlockCipherError Unit)
  | encryptShare (len : ℕ) (vm : Except BlockCipherError Unit)

/-- The visibility a call preprocesses, if any. -/
def Call.preprocessed : Call → List Visibility
  | .preprocess visibility _ _ => [visibility]
  | _ => []

/-! ### The two labels

Private and Blind blocks are counted and queued together, Public blocks apart. The state is read
by label (`isPublic`), and each step on it is said once, by label. -/

/-- The label of the execution ids of the blocks of a kind. -/
def executionLabel (isPublic : Bool) : String := if isPublic then "public" else "private"

theorem executionLabel_injective : Function.Injective executionLabel := by
  intro p q h
  cases p <;> cases q <;> simp_all [executionLabel]

/-- The block named after `e`. -/
def blockOf (e : ExecutionId) : BlockVars := ⟨.msg e, .ciphertext e⟩

/-- What `define_block` adds to the memory for the block `d.1` of visibility `d.2`. -/
def blockEntries (d : ExecutionId × Visibility) : List (ValueRef × ValueKind) :=
  [(.msg d.1, .input d.2), (.ciphertext d.1, .output)]

/-- The blocks a memory defines, in order, each with the visibility of its message input. -/
def definitions (memory : List (ValueRef × ValueKind)) : List (ExecutionId × Visibility) :=
  memory.filterMap fun
    | (.msg e, .input v) => some (e, v)
    | _ => none

/-- The counter of the execution id a block is named after. -/
def counterOf (vars : BlockVars) : ℕ := vars.msg.executionId.counter

/-- The blocks of the encryptions of a label, in order. -/
def usedOf (used : List (Visibility × BlockVars)) (isPublic : Bool) : List BlockVars :=
  (used.filter fun e => e.1.isPublic = isPublic).map Prod.snd

theorem definitions_append (memory memory' : List (ValueRef × ValueKind)) :
    definitions (memory ++ memory') = definitions memory ++ definitions memory' :=
  List.filterMap_append

@[simp] theorem definitions_flatMap (defs : List (ExecutionId × Visibility)) :
    definitions (defs.flatMap blockEntries) = defs := by
  induction defs with
  | nil => rfl
  | cons d defs ih =>
    rw [List.flatMap_cons, definitions_append, ih]
    rfl

@[simp] theorem usedOf_append (used used' : List (Visibility × BlockVars)) (p : Bool) :
    usedOf (used ++ used') p = usedOf used p ++ usedOf used' p := by
  simp [usedOf]

theorem usedOf_singleton (vis : Visibility) (vars : BlockVars) (p : Bool) :
    usedOf [(vis, vars)] p = if vis.isPublic = p then [vars] else [] := by
  by_cases hp : vis.isPublic = p <;> simp [usedOf, hp]

namespace MpcBlockCipher

/-- The counter of a label. -/
def counter (c : MpcBlockCipher) (isPublic : Bool) : ℕ :=
  if isPublic then c.publicExecutionId else c.privateExecutionId

/-- The queue of a label. -/
def queue (c : MpcBlockCipher) (isPublic : Bool) : List BlockVars :=
  if isPublic then c.preprocessedPublic else c.preprocessedPrivate

/-- The queue of a label replaced. -/
def setQueue (c : MpcBlockCipher) (isPublic : Bool) (q : List BlockVars) : MpcBlockCipher :=
  if isPublic then { c with preprocessedPublic := q } else { c with preprocessedPrivate := q }

/-- The execution id `define_block` gives the next block of a visibility. -/
def nextExecutionId (c : MpcBlockCipher) (vis : Visibility) : ExecutionId :=
  ⟨c.id, executionLabel vis.isPublic, c.counter vis.isPublic⟩

/-- The cipher after `define_block` of a visibility: the counter of its label incremented, and the
block's values added to the memory. -/
def afterDefine (c : MpcBlockCipher) (vis : Visibility) : MpcBlockCipher :=
  { (if vis.isPublic then { c with publicExecutionId := c.publicExecutionId + 1 }
      else { c with privateExecutionId := c.privateExecutionId + 1 }) with
    memory := c.memory ++ blockEntries (c.nextExecutionId vis, vis) }

variable (c : MpcBlockCipher)

@[simp] theorem queue_setQueue (p : Bool) (q : List BlockVars) (p' : Bool) :
    (c.setQueue p q).queue p' = if p = p' then q else c.queue p' := by
  cases p <;> cases p' <;> rfl

@[simp] theorem counter_setQueue (p : Bool) (q : List BlockVars) (p' : Bool) :
    (c.setQueue p q).counter p' = c.counter p' := by
  cases p <;> rfl

@[simp] theorem id_setQueue (p : Bool) (q : List BlockVars) : (c.setQueue p q).id = c.id := by
  cases p <;> rfl

@[simp] theorem memory_setQueue (p : Bool) (q : List BlockVars) :
    (c.setQueue p q).memory = c.memory := by
  cases p <;> rfl

@[simp] theorem counter_afterDefine (vis : Visibility) (p : Bool) :
    (c.afterDefine vis).counter p = if vis.isPublic = p then c.counter p + 1 else c.counter p := by
  cases vis <;> cases p <;> rfl

@[simp] theorem queue_afterDefine (vis : Visibility) (p : Bool) :
    (c.afterDefine vis).queue p = c.queue p := by
  cases vis <;> cases p <;> rfl

@[simp] theorem id_afterDefine (vis : Visibility) : (c.afterDefine vis).id = c.id := by
  cases vis <;> rfl

@[simp] theorem memory_afterDefine (vis : Visibility) :
    (c.afterDefine vis).memory = c.memory ++ blockEntries (c.nextExecutionId vis, vis) := rfl

@[simp] theorem counter_setKey (p : Bool) : c.setKey.counter p = c.counter p := by
  cases p <;> rfl

@[simp] theorem queue_setKey (p : Bool) : c.setKey.queue p = c.queue p := by
  cases p <;> rfl

theorem pushBack_eq (vis : Visibility) (vars : BlockVars) :
    c.pushBack vis vars = c.setQueue vis.isPublic (c.queue vis.isPublic ++ [vars]) := by
  cases vis <;> rfl

theorem popFront_eq (vis : Visibility) :
    c.popFront vis = match c.queue vis.isPublic with
      | [] => none
      | vars :: rest => some (vars, c.setQueue vis.isPublic rest) := by
  cases vis <;> rfl

/-- `define_block` under names the memory does not hold yet. -/
theorem defineBlock_of_fresh {vis : Visibility}
    (hmsg : .msg (c.nextExecutionId vis) ∉ c.memory.map Prod.fst)
    (hct : .ciphertext (c.nextExecutionId vis) ∉ c.memory.map Prod.fst) :
    c.defineBlock vis = some (blockOf (c.nextExecutionId vis), c.afterDefine vis) := by
  cases vis <;>
  · simp only [nextExecutionId, counter, executionLabel, Visibility.isPublic, Bool.false_eq_true,
      ↓reduceIte] at hmsg hct
    simp [defineBlock, defineValue, hmsg, hct, afterDefine, blockEntries, blockOf,
      nextExecutionId, counter, executionLabel, Visibility.isPublic]

end MpcBlockCipher

open MpcBlockCipher

/-! ### What every run keeps -/

/-- What a run of a cipher of id `id` keeps: `defs` are the blocks it has defined, in order, each
with its visibility; `pre` the visibilities it has preprocessed; `used` the blocks of its
encryptions that succeeded, each with the encryption's visibility. -/
structure Inv (id : String) (pre : List Visibility) (defs : List (ExecutionId × Visibility))
    (used : List (Visibility × BlockVars)) (c : MpcBlockCipher) : Prop where
  id_eq : c.id = id
  memory_eq : c.memory = defs.flatMap blockEntries
  nodup : (c.memory.map Prod.fst).Nodup
  /-- The `i`-th block of each label is named `<id>/label/i`. -/
  ids : ∀ p, (defs.filter fun d => d.2.isPublic = p).map Prod.fst =
    (List.range (c.counter p)).map (ExecutionId.mk id (executionLabel p))
  /-- A queued block was defined by a `preprocess` of a visibility of the queue's label. -/
  queued : ∀ p, ∀ vars ∈ c.queue p, ∃ v, (vars.msg.executionId, v) ∈ defs ∧
    vars = blockOf vars.msg.executionId ∧ v.isPublic = p ∧ v ∈ pre
  /-- A used block was defined for the encryption's label, by the encryption or a `preprocess`. -/
  used_defined : ∀ e ∈ used, ∃ v, (e.2.msg.executionId, v) ∈ defs ∧
    e.2 = blockOf e.2.msg.executionId ∧ v.isPublic = e.1.isPublic ∧ (v = e.1 ∨ v ∈ pre)
  /-- Each label's used blocks, then its queue, in the order of their definition. -/
  order : ∀ p, ((usedOf used p ++ c.queue p).map counterOf).Pairwise (· < ·)

section Inv

variable {id : String} {pre : List Visibility} {defs : List (ExecutionId × Visibility)}
  {used : List (Visibility × BlockVars)} {c : MpcBlockCipher}

theorem inv_new (config : BlockCipherConfig) : Inv config.id [] [] [] (new config) where
  id_eq := rfl
  memory_eq := rfl
  nodup := List.nodup_nil
  ids p := by cases p <;> rfl
  queued p := by cases p <;> simp [queue, new]
  used_defined := by simp
  order p := by cases p <;> simp [queue, new, usedOf]

/-- A defined block is named after the next increments of its label's counter. -/
theorem Inv.mem_defs (h : Inv id pre defs used c) {e : ExecutionId} {v : Visibility}
    (hd : (e, v) ∈ defs) :
    e = ⟨id, executionLabel v.isPublic, e.counter⟩ ∧ e.counter < c.counter v.isPublic := by
  have hmem : e ∈ (defs.filter fun d => d.2.isPublic = v.isPublic).map Prod.fst :=
    List.mem_map.2 ⟨(e, v), List.mem_filter.2 ⟨hd, by simp⟩, rfl⟩
  rw [h.ids] at hmem
  obtain ⟨k, hk, rfl⟩ := List.mem_map.1 hmem
  exact ⟨rfl, List.mem_range.1 hk⟩

/-- The next block of a visibility is named after no defined block. -/
theorem Inv.ne_nextExecutionId (h : Inv id pre defs used c) {e : ExecutionId} {v : Visibility}
    (hd : (e, v) ∈ defs) (vis : Visibility) : e ≠ c.nextExecutionId vis := by
  intro heq
  obtain ⟨he, hlt⟩ := h.mem_defs hd
  rw [he, nextExecutionId, h.id_eq, ExecutionId.mk.injEq] at heq
  obtain ⟨-, hlabel, hcounter⟩ := heq
  rw [executionLabel_injective hlabel] at hlt
  omega

/-- A name the memory holds is that of a defined block. -/
theorem Inv.executionId_of_mem (h : Inv id pre defs used c) {r : ValueRef}
    (hr : r ∈ c.memory.map Prod.fst) : ∃ v, (r.executionId, v) ∈ defs := by
  rw [h.memory_eq] at hr
  simp only [List.map_flatMap, List.mem_flatMap, blockEntries, List.map_cons, List.map_nil,
    List.mem_cons, List.not_mem_nil, or_false] at hr
  obtain ⟨⟨e, v⟩, hd, rfl | rfl⟩ := hr
  · exact ⟨v, hd⟩
  · exact ⟨v, hd⟩

theorem Inv.fresh (h : Inv id pre defs used c) (vis : Visibility) :
    ValueRef.msg (c.nextExecutionId vis) ∉ c.memory.map Prod.fst ∧
      ValueRef.ciphertext (c.nextExecutionId vis) ∉ c.memory.map Prod.fst := by
  constructor <;>
  · intro hmem
    obtain ⟨v, hd⟩ := h.executionId_of_mem hmem
    exact h.ne_nextExecutionId hd vis rfl

theorem Inv.defineBlock (h : Inv id pre defs used c) (vis : Visibility) :
    c.defineBlock vis = some (blockOf (c.nextExecutionId vis), c.afterDefine vis) :=
  c.defineBlock_of_fresh (h.fresh vis).1 (h.fresh vis).2

/-- The used and queued blocks of a label are below its counter. -/
theorem Inv.counterOf_lt (h : Inv id pre defs used c) {p : Bool} {vars : BlockVars}
    (hv : vars ∈ usedOf used p ++ c.queue p) : counterOf vars < c.counter p := by
  rcases List.mem_append.1 hv with hu | hq
  · obtain ⟨e, he, rfl⟩ := List.mem_map.1 hu
    obtain ⟨he, hp⟩ := List.mem_filter.1 he
    obtain ⟨v, hd, -, hv, -⟩ := h.used_defined e he
    have hlt := (h.mem_defs hd).2
    rwa [hv, show e.1.isPublic = p by simpa using hp] at hlt
  · obtain ⟨v, hd, -, hv, -⟩ := h.queued p vars hq
    have hlt := (h.mem_defs hd).2
    rwa [hv] at hlt

/-- The block named after the next increment of a label's counter comes after the label's used and
queued blocks. -/
theorem Inv.pairwise_append_next (h : Inv id pre defs used c) (vis : Visibility)
    {l : List BlockVars} (hl : ∀ x ∈ l, x ∈ usedOf used vis.isPublic ++ c.queue vis.isPublic)
    (hord : (l.map counterOf).Pairwise (· < ·)) :
    ((l ++ [blockOf (c.nextExecutionId vis)]).map counterOf).Pairwise (· < ·) := by
  rw [List.map_append, List.pairwise_append]
  refine ⟨hord, List.pairwise_singleton _ _, ?_⟩
  intro a ha b hb
  obtain ⟨x, hx, rfl⟩ := List.mem_map.1 ha
  rw [List.map_singleton, List.mem_singleton] at hb
  rw [hb]
  exact h.counterOf_lt (hl x hx)

theorem Inv.mono (h : Inv id pre defs used c) {pre' : List Visibility} (hpre : pre ⊆ pre') :
    Inv id pre' defs used c where
  id_eq := h.id_eq
  memory_eq := h.memory_eq
  nodup := h.nodup
  ids := h.ids
  queued p vars hv := by
    obtain ⟨v, hd, hb, hp, hv⟩ := h.queued p vars hv
    exact ⟨v, hd, hb, hp, hpre hv⟩
  used_defined e he := by
    obtain ⟨v, hd, hb, hp, hv⟩ := h.used_defined e he
    exact ⟨v, hd, hb, hp, hv.imp_right fun hv => hpre hv⟩
  order := h.order

theorem Inv.setKey (h : Inv id pre defs used c) : Inv id pre defs used c.setKey where
  id_eq := h.id_eq
  memory_eq := h.memory_eq
  nodup := h.nodup
  ids p := by rw [counter_setKey]; exact h.ids p
  queued p vars hv := h.queued p vars (by simpa using hv)
  used_defined := h.used_defined
  order p := by simpa using h.order p

/-- Defining a block adds it to the definitions, under the next id of its label. -/
theorem Inv.afterDefine (h : Inv id pre defs used c) (vis : Visibility) :
    Inv id pre (defs ++ [(c.nextExecutionId vis, vis)]) used (c.afterDefine vis) where
  id_eq := by rw [id_afterDefine, h.id_eq]
  memory_eq := by rw [memory_afterDefine, h.memory_eq, List.flatMap_append, List.flatMap_singleton]
  nodup := by
    obtain ⟨hmsg, hct⟩ := h.fresh vis
    rw [memory_afterDefine, List.map_append, List.nodup_append]
    refine ⟨h.nodup, by simp [blockEntries], ?_⟩
    simp only [blockEntries, List.map_cons, List.map_nil, List.mem_cons, List.not_mem_nil,
      or_false]
    rintro a ha b (rfl | rfl) rfl
    · exact hmsg ha
    · exact hct ha
  ids p := by
    rw [List.filter_append, List.map_append, h.ids p, counter_afterDefine]
    by_cases hp : vis.isPublic = p
    · subst hp
      simp [List.range_succ, nextExecutionId, h.id_eq]
    · simp [hp]
  queued p vars hv := by
    obtain ⟨v, hd, hb, hp, hv⟩ := h.queued p vars (by simpa using hv)
    exact ⟨v, List.mem_append_left _ hd, hb, hp, hv⟩
  used_defined e he := by
    obtain ⟨v, hd, hb, hp, hv⟩ := h.used_defined e he
    exact ⟨v, List.mem_append_left _ hd, hb, hp, hv⟩
  order p := by simpa using h.order p

/-- A preprocessed block joins the back of its label's queue. -/
theorem Inv.pushBack (h : Inv id pre defs used c) {vis : Visibility} (hvis : vis ∈ pre) :
    Inv id pre (defs ++ [(c.nextExecutionId vis, vis)]) used
      ((c.afterDefine vis).pushBack vis (blockOf (c.nextExecutionId vis))) := by
  have h' := h.afterDefine vis
  rw [pushBack_eq]
  refine ⟨by simpa using h'.id_eq, by simpa using h'.memory_eq, by simpa using h'.nodup,
    fun p => by simpa using h'.ids p, ?_, h'.used_defined, ?_⟩
  · intro p vars hv
    rw [queue_setQueue, queue_afterDefine] at hv
    split_ifs at hv with hp
    · rcases List.mem_append.1 hv with hv | hv
      · exact h'.queued p vars (by rw [queue_afterDefine, ← hp]; exact hv)
      · rw [List.mem_singleton.1 hv]
        exact ⟨vis, List.mem_append_right _ (List.mem_singleton_self _), rfl, hp, hvis⟩
    · exact h'.queued p vars (by simpa using hv)
  · intro p
    rw [queue_setQueue, queue_afterDefine]
    split_ifs with hp
    · -- the new block comes after every block of its label
      subst hp
      rw [← List.append_assoc]
      exact h.pairwise_append_next vis (fun x hx => hx) (h.order _)
    · simpa using h'.order p

/-- The front of a label's queue leaves it, used by an encryption of the label or lost. -/
theorem Inv.popFront (h : Inv id pre defs used c) {p : Bool} {vars : BlockVars}
    {rest : List BlockVars} (hq : c.queue p = vars :: rest) :
    Inv id pre defs used (c.setQueue p rest) ∧
      ∀ vis : Visibility, vis.isPublic = p →
        Inv id pre defs (used ++ [(vis, vars)]) (c.setQueue p rest) := by
  have hqueued : ∀ p', ∀ x ∈ (c.setQueue p rest).queue p', x ∈ c.queue p' := by
    intro p' x hx
    rw [queue_setQueue] at hx
    split_ifs at hx with hp
    · rw [← hp, hq]
      exact List.mem_cons_of_mem _ hx
    · exact hx
  -- lost: the queue loses its front
  have hlost : Inv id pre defs used (c.setQueue p rest) := by
    refine ⟨by simpa using h.id_eq, by simpa using h.memory_eq, by simpa using h.nodup,
      fun p' => by simpa using h.ids p', fun p' x hx => h.queued p' x (hqueued p' x hx),
      h.used_defined, fun p' => ?_⟩
    rw [queue_setQueue]
    split_ifs with hp
    · subst hp
      have hord := h.order p
      rw [hq] at hord
      exact hord.sublist ((List.sublist_cons_self vars rest).append_left _ |>.map _)
    · exact h.order p'
  refine ⟨hlost, fun vis hvis => { hlost with used_defined := ?_, order := fun p' => ?_ }⟩
  · intro e he
    rcases List.mem_append.1 he with he | he
    · exact h.used_defined e he
    · rw [List.mem_singleton.1 he]
      obtain ⟨v, hd, hb, hp, hv⟩ := h.queued p vars (by rw [hq]; exact List.mem_cons_self)
      exact ⟨v, hd, hb, hp.trans hvis.symm, Or.inr hv⟩
  · -- used: the front moves from the queue to the used blocks
    rw [queue_setQueue, usedOf_append, usedOf_singleton]
    by_cases hp : p = p'
    · subst hp
      rw [if_pos rfl, if_pos hvis]
      have hord := h.order p
      rwa [hq, ← List.singleton_append, ← List.append_assoc] at hord
    · rw [if_neg hp, if_neg (fun h' => hp (hvis.symm.trans h'))]
      simpa using h.order p'

/-- A block defined by an encryption, its queue empty, is used by it. -/
theorem Inv.useNew (h : Inv id pre defs used c) {vis : Visibility}
    (hq : c.queue vis.isPublic = []) :
    Inv id pre (defs ++ [(c.nextExecutionId vis, vis)])
      (used ++ [(vis, blockOf (c.nextExecutionId vis))]) (c.afterDefine vis) := by
  have h' := h.afterDefine vis
  refine ⟨h'.id_eq, h'.memory_eq, h'.nodup, h'.ids, h'.queued, ?_, fun p => ?_⟩
  · intro e he
    rcases List.mem_append.1 he with he | he
    · exact h'.used_defined e he
    · rw [List.mem_singleton.1 he]
      exact ⟨vis, List.mem_append_right _ (List.mem_singleton_self _), rfl, rfl, Or.inl rfl⟩
  · rw [queue_afterDefine, usedOf_append, usedOf_singleton]
    split_ifs with hp
    · -- the new block comes after every used block of its label, and the queue is empty
      subst hp
      have hord := h.order vis.isPublic
      rw [hq, List.append_nil] at hord ⊢
      exact h.pairwise_append_next vis (fun x hx => List.mem_append_left _ hx) hord
    · simpa using h.order p

theorem Inv.takeBlock (h : Inv id pre defs used c) (vis : Visibility) :
    ∃ vars c' defs', c.takeBlock vis = some (vars, c') ∧ Inv id pre defs' used c' ∧
      Inv id pre defs' (used ++ [(vis, vars)]) c' := by
  rw [MpcBlockCipher.takeBlock, popFront_eq]
  cases hq : c.queue vis.isPublic with
  | nil =>
    exact ⟨_, _, _, h.defineBlock vis, h.afterDefine vis, h.useNew hq⟩
  | cons vars rest =>
    exact ⟨vars, _, defs, rfl, (h.popFront hq).1, (h.popFront hq).2 vis rfl⟩

end Inv

section Runs

variable (C : BlockCipherCircuit)

/-- One call: the block of the encryption, with its visibility, if it is an encryption that
succeeded; and the cipher after it. -/
def apply (c : MpcBlockCipher) :
    Call → Outcome BlockCipherError (Option (Visibility × BlockVars)) × MpcBlockCipher
  | .setKey => (.ok none, c.setKey)
  | .preprocess visibility count vm =>
    let (r, c) := c.preprocess visibility count vm
    (r >>= fun _ => pure none, c)
  | .encryptPrivate len vm =>
    let (r, c) := c.encryptPrivate C len vm
    (r >>= fun vars => pure (some (.«private», vars)), c)
  | .encryptBlind vm =>
    let (r, c) := c.encryptBlind vm
    (r >>= fun vars => pure (some (.blind, vars)), c)
  | .encryptShare len vm =>
    let (r, c) := c.encryptShare C len vm
    (r >>= fun vars => pure (some (.«public», vars)), c)

/-- A sequence of calls: the blocks of its encryptions that succeed, each with the visibility of
its encryption, in order, and the cipher after the calls; `none` if a call panics. -/
def run : MpcBlockCipher → List Call → Option (List (Visibility × BlockVars) × MpcBlockCipher)
  | c, [] => some ([], c)
  | c, call :: calls =>
    match apply C c call with
    | (.panic, _) => none
    | (.ok (some e), c') => (run c' calls).map fun r => (e :: r.1, r.2)
    | (_, c') => run c' calls

/-- The encryption a call's outcome records, if any. -/
def recorded {ε α : Type} : Outcome ε (Option α) → List α
  | .ok (some a) => [a]
  | _ => []

/-- A call that does not panic adds the encryption it records, if any, in front of the rest of
the run. -/
theorem run_cons_of_ne_panic {c : MpcBlockCipher} {call : Call} (calls : List Call)
    (hnp : (apply C c call).1 ≠ .panic) :
    run C c (call :: calls) =
      (run C (apply C c call).2 calls).map fun r => (recorded (apply C c call).1 ++ r.1, r.2) := by
  rcases hr : apply C c call with ⟨o, c₁⟩
  rw [hr] at hnp
  cases o with
  | ok r => cases r <;> simp [run, hr, recorded]
  | err e => simp [run, hr, recorded]
  | panic => exact absurd rfl hnp

@[simp] theorem recorded_bind_none {ε α β : Type} (r : Outcome ε α) :
    recorded (r >>= fun _ => (pure none : Outcome ε (Option β))) = [] := by
  cases r <;> rfl

theorem Call.mem_preprocessed {call : Call} {v : Visibility} :
    v ∈ call.preprocessed ↔ ∃ count vm, call = .preprocess v count vm := by
  cases call <;> simp [Call.preprocessed, eq_comm]

/-! ### Each call keeps the invariant -/

variable {id : String} {pre : List Visibility} {defs : List (ExecutionId × Visibility)}
  {used : List (Visibility × BlockVars)} {c : MpcBlockCipher}

/-- The loop of `preprocess` defines and queues fresh blocks until a load fails. -/
theorem Inv.preprocessBlocks (h : Inv id pre defs used c) {vis : Visibility} (hvis : vis ∈ pre)
    (vm : ℕ → Except BlockCipherError Unit) (i n : ℕ) :
    (MpcBlockCipher.preprocessBlocks vis vm i n c).1 ≠ .panic ∧
      ∃ defs', Inv id pre defs' used (MpcBlockCipher.preprocessBlocks vis vm i n c).2 := by
  induction n generalizing i c defs with
  | zero => exact ⟨by simp [MpcBlockCipher.preprocessBlocks], defs, h⟩
  | succ n ih =>
    rw [MpcBlockCipher.preprocessBlocks, h.defineBlock vis]
    dsimp only
    cases vm i with
    | error e => exact ⟨by simp, _, h.afterDefine vis⟩
    | ok u => exact ih (h.pushBack hvis) (i + 1)

/-- An encryption does not panic, and records its block when it succeeds. -/
theorem Inv.encryptBlock (h : Inv id pre defs used c) (vis : Visibility)
    (vm : Except BlockCipherError Unit) :
    ((c.encryptBlock vis vm).1 >>= fun vars => pure (some (vis, vars))) ≠ .panic ∧
      ∃ defs', Inv id pre defs'
        (used ++ recorded ((c.encryptBlock vis vm).1 >>= fun vars => pure (some (vis, vars))))
        (c.encryptBlock vis vm).2 := by
  unfold MpcBlockCipher.encryptBlock
  split_ifs with hkey
  · obtain ⟨vars, c', defs', htake, hlost, hused⟩ := h.takeBlock vis
    rw [htake]
    cases vm with
    | ok u => exact ⟨by simp, defs', by simpa [recorded] using hused⟩
    | error e => exact ⟨by simp, defs', by simpa [recorded] using hlost⟩
  · exact ⟨by simp, defs, by simpa [recorded] using h⟩

theorem Inv.encryptChecked (h : Inv id pre defs used c) (vis : Visibility) (len : ℕ)
    (vm : Except BlockCipherError Unit) :
    ((c.encryptChecked C vis len vm).1 >>= fun vars => pure (some (vis, vars))) ≠ .panic ∧
      ∃ defs', Inv id pre defs'
        (used ++ recorded ((c.encryptChecked C vis len vm).1 >>= fun vars => pure (some (vis, vars))))
        (c.encryptChecked C vis len vm).2 := by
  unfold MpcBlockCipher.encryptChecked
  split_ifs with hlen
  · exact h.encryptBlock vis vm
  · exact ⟨by simp, defs, by simpa [recorded] using h⟩

/-- **One call.** From a state of the invariant no call panics, and each keeps the invariant, with
the visibility it preprocesses and the block of its encryption, if it succeeds, added. -/
theorem Inv.apply (h : Inv id pre defs used c) (call : Call) :
    (apply C c call).1 ≠ .panic ∧
      ∃ defs', Inv id (pre ++ call.preprocessed) defs' (used ++ recorded (apply C c call).1)
        (apply C c call).2 := by
  cases call with
  | setKey =>
    exact ⟨by simp [BlockCipher.apply], defs,
      by simpa [BlockCipher.apply, recorded, Call.preprocessed] using h.setKey⟩
  | preprocess vis count vm =>
    -- the visibility joins those preprocessed before the first block is defined
    have h' := h.mono (List.subset_append_left pre [vis])
    simp only [BlockCipher.apply, Call.preprocessed, recorded_bind_none, List.append_nil,
      MpcBlockCipher.preprocess]
    split_ifs with hkey
    · obtain ⟨hnp, defs', hinv⟩ :=
        h'.preprocessBlocks (List.mem_append_right pre (List.mem_singleton_self vis)) vm 0 count
      refine ⟨fun hp => hnp ?_, defs', hinv⟩
      revert hp
      cases (MpcBlockCipher.preprocessBlocks vis vm 0 count c).1 <;> simp
    · exact ⟨by simp, defs, h'⟩
  | encryptPrivate len vm =>
    simpa [BlockCipher.apply, Call.preprocessed, MpcBlockCipher.encryptPrivate] using
      h.encryptChecked C .«private» len vm
  | encryptBlind vm =>
    simpa [BlockCipher.apply, Call.preprocessed, MpcBlockCipher.encryptBlind] using
      h.encryptBlock .blind vm
  | encryptShare len vm =>
    simpa [BlockCipher.apply, Call.preprocessed, MpcBlockCipher.encryptShare] using
      h.encryptChecked C .«public» len vm

/-- **Every sequence of calls.** From a state of the invariant a sequence of calls does not panic,
and keeps the invariant with the visibilities it preprocesses and the blocks of its encryptions
added. -/
theorem Inv.run (h : Inv id pre defs used c) (calls : List Call) :
    ∃ used' c' defs', run C c calls = some (used', c') ∧
      Inv id (pre ++ calls.flatMap Call.preprocessed) defs' (used ++ used') c' := by
  induction calls generalizing pre defs used c with
  | nil => exact ⟨[], c, defs, rfl, by simpa using h⟩
  | cons call calls ih =>
    obtain ⟨hnp, defs₁, h₁⟩ := h.apply C call
    obtain ⟨used', c', defs', hrun, h'⟩ := ih h₁
    -- the call's own encryption, if any, comes first
    refine ⟨recorded (BlockCipher.apply C c call).1 ++ used', c', defs', ?_, ?_⟩
    · rw [run_cons_of_ne_panic C calls hnp, hrun]
      rfl
    · rwa [List.flatMap_cons, ← List.append_assoc, ← List.append_assoc]

theorem block_cipher_queue_order (config : BlockCipherConfig) (calls : List Call) :
    ∃ used c, run C (new config) calls = some (used, c) ∧
      (c.memory.map Prod.fst).Nodup ∧
      (∀ p, ((definitions c.memory).filter fun d => d.2.isPublic = p).map Prod.fst =
        (List.range (c.counter p)).map (ExecutionId.mk config.id (executionLabel p))) ∧
      (∀ p, ((usedOf used p).map counterOf).Pairwise (· < ·)) ∧
      ∀ e ∈ used, ∃ v, (e.2.msg, ValueKind.input v) ∈ c.memory ∧ v.isPublic = e.1.isPublic ∧
        (v = e.1 ∨ ∃ count vm, Call.preprocess v count vm ∈ calls) := by
  obtain ⟨used, c, defs, hrun, h⟩ := (inv_new config).run C calls
  rw [List.nil_append] at h
  refine ⟨used, c, hrun, h.nodup, fun p => ?_, fun p => ?_, ?_⟩
  · rw [h.memory_eq, definitions_flatMap]
    exact h.ids p
  · -- the used blocks come first in the list the invariant orders
    have hord := h.order p
    rw [List.map_append, List.pairwise_append] at hord
    exact hord.1
  · rintro ⟨vis, vars⟩ he
    obtain ⟨v, hd, hb, hp, hv⟩ := h.used_defined (vis, vars) (by simpa using he)
    refine ⟨v, ?_, hp, hv.imp_right fun hv => ?_⟩
    · have hmsg : vars.msg = .msg vars.msg.executionId := congrArg BlockVars.msg hb
      rw [hmsg, h.memory_eq]
      exact List.mem_flatMap.2 ⟨_, hd, by simp [blockEntries]⟩
    · obtain ⟨call, hcall, hv⟩ := List.mem_flatMap.1 hv
      obtain ⟨count, vm, rfl⟩ := Call.mem_preprocessed.1 hv
      exact ⟨count, vm, hcall⟩

/-- One Blind block preprocessed, then a private encryption: it uses the Blind block. -/
theorem encrypt_private_uses_blind_block :
    ∃ c, run aes128 (new ⟨"test"⟩)
        [.setKey, .preprocess .blind 1 (fun _ => .ok ()), .encryptPrivate 16 (.ok ())] =
        some ([(.«private», blockOf ⟨"test", "private", 0⟩)], c) ∧
      (ValueRef.msg ⟨"test", "private", 0⟩, ValueKind.input .blind) ∈ c.memory := by
  refine ⟨_, rfl, ?_⟩
  decide

end Runs

end Tlsn.BlockCipher
