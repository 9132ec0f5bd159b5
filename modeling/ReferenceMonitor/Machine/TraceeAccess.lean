import ReferenceMonitor.Machine.World

/-!
# Reading and writing the tracee: `get_path`, `get_mem`, `set_mem`, `get_args`, `set_args`

The five functions of `lind_monitor.c` through which the monitor reaches its tracee.
`PTRACE_PEEKDATA` returns `-1` where the word is not mapped, and the source takes that for data;
`PTRACE_POKEDATA` returns `0` or `-1`, and `set_mem` mixes that return value into the last partial
word it writes.

`set_mem` is reduced to a sequence of pokes (`writeMem_eq_pokeAll`): the addresses of the words
depend on the address and the count alone (`copyWords`), their values on the buffer.
-/

namespace ReferenceMonitor

open Halting

/-- `ptrace(PTRACE_PEEKDATA, ..)`. -/
def peekData (m : ByteMemory) (a : Word) : Word := (m.peek a).getD (-1)

theorem peekData_of_mapped {m : ByteMemory} {a : Word} (h : m.Mapped a) :
    peekData m a = wordOf fun i ↦ (m.byte (a + BitVec.ofNat 64 i)).getD 0 := by
  rw [peekData, ByteMemory.peek, if_pos h, Option.getD_some]

theorem byteOf_neg_one {j : ℕ} (hj : j < 8) : byteOf (-1) j = 0xFF := by interval_cases j <;> rfl

theorem peekData_of_not_mapped {m : ByteMemory} {a : Word} (h : ¬ m.Mapped a) :
    peekData m a = -1 := by rw [peekData, ByteMemory.peek, if_neg h, Option.getD_none]

theorem byteOf_peekData {m : ByteMemory} {a : Word} (h : m.Mapped a) {j : ℕ} (hj : j < 8) :
    some (byteOf (peekData m a) j) = m.byte (a + BitVec.ofNat 64 j) := by
  obtain ⟨b, hb⟩ := Option.isSome_iff_exists.1 (h j hj)
  rw [peekData_of_mapped h, byteOf_wordOf _ hj, hb, Option.getD_some]

/-! ### The monitor's own memory -/

/-- The byte in a cell. -/
def Cell.read (env : Env) : Cell → Byte
  | stored b => b
  | initial block offset => env.heap block offset

/-- The byte at an offset from the start of a block. -/
def Block.byteAt (env : Env) (b : Block) (o : ℤ) : Byte :=
  match if 0 ≤ o then b.cells[o.toNat]? else none with
  | some c => c.read env
  | none => env.around b.number o

/-- The word at an offset from the start of a block. -/
def Block.wordAt (env : Env) (b : Block) (o : ℤ) : Word := wordOf fun j ↦ b.byteAt env (o + j)

theorem byteOf_wordAt (env : Env) (b : Block) (o : ℤ) {j : ℕ} (hj : j < 8) :
    byteOf (b.wordAt env o) j = b.byteAt env (o + j) := byteOf_wordOf _ hj

/-- A byte of a block in the word it belongs to. -/
theorem byteOf_wordAt_index (env : Env) (b : Block) (k : ℕ) :
    byteOf (b.wordAt env (8 * (k / 8 : ℕ))) (k % 8) = b.byteAt env k := by
  rw [byteOf_wordAt _ _ _ (by omega)]
  congr 1
  omega

/-- The `int` at an offset from the start of a block. -/
def Block.intAt (env : Env) (b : Block) (o : ℤ) : ℤ := cInt (b.wordAt env o)

/-- The bytes of a block. -/
def Block.bytes (env : Env) (b : Block) : List Byte := b.cells.map (Cell.read env)

/-- Replace the first cells of a block. -/
def Block.store (b : Block) (cells : List Cell) : Block :=
  { b with cells := cells ++ b.cells.drop cells.length }

/-- `malloc`, and a variable on the stack: block `number`, with what was there before. -/
def malloc (number size : ℕ) : Block := ⟨number, (List.range size).map (Cell.initial number)⟩

@[simp] theorem length_malloc (number size : ℕ) : (malloc number size).cells.length = size := by
  simp [malloc]

theorem byteAt_malloc (env : Env) (number : ℕ) {size k : ℕ} (h : k < size) :
    (malloc number size).byteAt env k = env.heap number k := by
  rw [Block.byteAt, if_pos (Int.natCast_nonneg k), Int.toNat_natCast, malloc, List.getElem?_map,
    List.getElem?_range h]
  rfl

theorem getElem?_store (b : Block) (cells : List Cell) (k : ℕ) :
    (b.store cells).cells[k]? = if k < cells.length then cells[k]? else b.cells[k]? := by
  rw [Block.store]
  split
  · rw [List.getElem?_append_left (by assumption)]
  · rw [List.getElem?_append_right (by omega), List.getElem?_drop, Nat.add_sub_cancel' (by omega)]

theorem length_store {b : Block} {cells : List Cell} (h : cells.length ≤ b.cells.length) :
    (b.store cells).cells.length = b.cells.length := by
  rw [Block.store, List.length_append, List.length_drop]
  omega

/-- A pointer a wrapper receives. -/
inductive Ptr where
  /-- The start of an object of the monitor. -/
  | block (b : Block)
  /-- An address of the tracee. -/
  | foreign (a : Word)
  /-- A value that is no pointer at all. -/
  | stray (a : Word)

theorem isSome_mapM_iff {α β : Type} (f : α → Option β) (l : List α) :
    (l.mapM f).isSome ↔ ∀ a ∈ l, (f a).isSome := by
  induction l with
  | nil => simp
  | cons a l ih =>
    rw [List.mapM_cons, List.forall_mem_cons, ← ih]
    rcases f a with - | b
    · simp
    · rcases l.mapM f with - | bs <;> simp

/-- A load of `n` bytes through an address that is no block of the monitor. -/
def loadOwn (a : Word) (n : ℕ) : Fetch (List Byte) := do
  let ⟨env, _⟩ ← ask
  match (List.range n).mapM fun i ↦ env.own (a + BitVec.ofNat 64 i) with
  | some bytes => pure bytes
  | none => stop (.segv a)

/-- A load that begins where nothing is mapped. -/
theorem loadOwn_of_unmapped {env : Env} {a : Word} {n : ℕ} (hn : n ≠ 0) (h : env.own a = none)
    (m : ByteMemory) (log : List Word) : loadOwn a n (env, m) log = .halt (.segv a) log := by
  obtain ⟨n, rfl⟩ := Nat.exists_eq_succ_of_ne_zero hn
  have hfirst : env.own (a + BitVec.ofNat 64 0) = none := by rwa [BitVec.add_zero]
  rw [loadOwn, bind_apply, ask_apply, Outcome.andThen_done, List.range_succ_eq_map]
  simp only [List.mapM_cons, hfirst]
  rfl

/-- Record that an address of the tracee is accessed in the monitor's address space. -/
def noteForeign (a : Word) : Fetch Unit := modify (a :: ·)

/-- A load through an address of the tracee. -/
def loadForeign (a : Word) (n : ℕ) : Fetch (List Byte) := do
  noteForeign a
  loadOwn a n

/-- The C string at an address that is no block of the monitor. -/
def stringOwn (a : Word) : Fetch (List Byte) := do
  let ⟨env, _⟩ ← ask
  match env.ownString a with
  | some bytes => pure bytes
  | none => stop (.segv a)

/-- The unit `s#` of a Python format: `None` for a null pointer, a string of `n` bytes, or the C
string at the pointer when `n` is negative. -/
def pyBytes (p : Ptr) (n : ℤ) : Fetch PyVal := do
  let ⟨env, _⟩ ← ask
  match p with
  | .block b =>
    if 0 ≤ n then
      pure (.str ((List.range n.toNat).map fun i : ℕ ↦ b.byteAt env i))
    else
      pure (.str ((b.bytes env ++ env.aroundString b.number).takeWhile (· ≠ 0)))
  | .foreign a =>
    if a = 0 then pure .none
    else if n = 0 then pure (.str [])
    else if 0 ≤ n then return .str (← loadForeign a n.toNat)
    else
      noteForeign a
      return .str (← stringOwn a)
  | .stray a =>
    if a = 0 then pure .none
    else if 0 ≤ n then return .str (← loadOwn a n.toNat)
    else return .str (← stringOwn a)

/-! ### `get_path` and `get_mem` -/

/-- The address of word `i` of a range, `addr + sizeof(long) * i`. -/
def wordAddr (addr : Word) (i : ℤ) : Word := addr + BitVec.ofInt 64 (8 * i)

/-- The loop of `get_path`: `i` and `len` are its index and the size of its buffer, whose first
bytes are `buffer`. The fuel is the number of values an `int` index takes in steps of four. -/
def pathLoop (m : ByteMemory) (addr : Word) :
    (fuel i len : ℕ) → (buffer : List Byte) → Except Halt (List Byte)
  | 0, _, _, _ => .error .intOverflow
  | fuel + 1, i, len, buffer =>
    let len := if i ≥ len then len * 2 else len
    let tmp := (List.range 4).map (byteOf (peekData m (addr + BitVec.ofNat 64 i)))
    if i + 4 > len then .error .corrupt
    else if 0 ∈ tmp then .ok (buffer ++ tmp)
    else pathLoop m addr fuel (i + 4) len (buffer ++ tmp)

/-- `PATH_MAX`. -/
def pathMax : ℕ := 4096

/-- `get_path`: the C string at an address of the tracee. -/
def getPath (addr : Word) : Fetch (List Byte) := do
  let ⟨_, m⟩ ← ask
  match pathLoop m addr (2 ^ 29) 0 pathMax [] with
  | .ok buffer => pure (buffer.takeWhile (· ≠ 0))
  | .error h => stop h

/-- The words `get_mem` stores. -/
def memWords (m : ByteMemory) (addr : Word) (n : ℕ) : List Word :=
  (List.range n).map fun i : ℕ ↦ peekData m (wordAddr addr i)

/-- A block that holds `n` words of the tracee. -/
def memBlock (number : ℕ) (m : ByteMemory) (addr : Word) (n : ℕ) : Block :=
  ⟨number, (memWords m addr n).flatMap fun w ↦ (List.range 8).map fun j ↦ .stored (byteOf w j)⟩

/-- `get_mem`: `count / 8 + 1` words of the tracee, in a new block. -/
def getMem (number : ℕ) (addr count : Word) : Fetch Block := do
  let ⟨_, m⟩ ← ask
  let n := count.toNat / 8 + 1
  if 2 ^ 31 ≤ n then stop .intOverflow else pure (memBlock number m addr n)

theorem getMem_apply {number : ℕ} {addr count : Word} (h : count.toNat / 8 + 1 < 2 ^ 31) (env : Env)
    (m : ByteMemory) (log : List Word) :
    getMem number addr count (env, m) log =
      .done (memBlock number m addr (count.toNat / 8 + 1)) log := by
  simp only [getMem, bind_apply, ask_apply, Outcome.andThen_done, if_neg (not_le.2 h)]
  rfl

theorem getMem_of_le {number : ℕ} {addr count : Word} (h : 2 ^ 31 ≤ count.toNat / 8 + 1) (env : Env)
    (m : ByteMemory) (log : List Word) :
    getMem number addr count (env, m) log = .halt .intOverflow log := by
  simp only [getMem, bind_apply, ask_apply, Outcome.andThen_done, if_pos h]
  rfl

@[simp] theorem number_memBlock (number : ℕ) (m : ByteMemory) (addr : Word) (n : ℕ) :
    (memBlock number m addr n).number = number := rfl

@[simp] theorem length_memBlock (number : ℕ) (m : ByteMemory) (addr : Word) (n : ℕ) :
    (memBlock number m addr n).cells.length = 8 * n := by
  simp [memBlock, memWords, List.length_flatMap, Function.comp_def, List.map_const', Nat.mul_comm]

theorem getElem?_flatMap_bytes (ws : List Word) {i j : ℕ} (hj : j < 8) :
    (ws.flatMap fun w ↦ (List.range 8).map fun j ↦ Cell.stored (byteOf w j))[8 * i + j]? =
      ws[i]?.map fun w ↦ .stored (byteOf w j) := by
  induction ws generalizing i with
  | nil => rfl
  | cons w ws ih =>
    rw [List.flatMap_cons]
    cases i with
    | zero =>
      rw [List.getElem?_append_left (by simpa using hj), List.getElem?_map,
        List.getElem?_range (by omega)]
      simp
    | succ i =>
      rw [List.getElem?_append_right (by simp; omega), List.length_map, List.length_range,
        show 8 * (i + 1) + j - 8 = 8 * i + j by omega, ih, List.getElem?_cons_succ]

/-- Cell `8 i + j` of the block is byte `j` of word `i`. -/
theorem cells_memBlock (number : ℕ) (m : ByteMemory) (addr : Word) {n i j : ℕ} (hi : i < n)
    (hj : j < 8) : (memBlock number m addr n).cells[8 * i + j]? =
      some (.stored (byteOf (peekData m (wordAddr addr i)) j)) := by
  rw [memBlock, getElem?_flatMap_bytes _ hj, memWords, List.getElem?_map, List.getElem?_range hi]
  rfl

theorem wordAt_memBlock (env : Env) (number : ℕ) (m : ByteMemory) (addr : Word) {n i : ℕ}
    (hi : i < n) :
    (memBlock number m addr n).wordAt env (8 * i : ℕ) = peekData m (wordAddr addr i) := by
  refine word_ext fun j hj ↦ ?_
  rw [Block.wordAt, byteOf_wordOf _ hj, Block.byteAt, if_pos (by omega),
    show (((8 * i : ℕ) : ℤ) + (j : ℤ)).toNat = 8 * i + j by omega, cells_memBlock _ _ _ hi hj]
  rfl

/-! ### `set_mem` -/

/-- The loop of `set_mem` over the full words, with the value of `ret` after it. -/
def setMemLoop (m : ByteMemory) (addr : Word) (word : ℕ → Word) : ℕ → ByteMemory × Word
  | 0 => (m, -1)
  | i + 1 =>
    let m := (setMemLoop m addr word i).1
    match m.poke (wordAddr addr i) (word i) with
    | some m => (m, 0)
    | none => (m, -1)

/-- `set_mem` on the tracee's memory. The source peeks the last partial word and then mixes `ret`,
not the word it peeked, into the value it writes. -/
def writeMem (m : ByteMemory) (addr : Word) (load : ℤ → Word) (count : Word) : ByteMemory :=
  let fullblocks := cInt (count / 8)
  let remainder := count.toNat % 8
  let (m, ret) := setMemLoop m addr (fun i ↦ load (8 * i)) fullblocks.toNat
  if remainder = 0 then m
  else
    let value := mixWords ret (load (8 * fullblocks)) remainder
    (m.poke (wordAddr addr fullblocks) value).getD m

/-- `set_mem`. -/
def setMem (addr : Word) (buff : Block) (count : Word) : M Unit := do
  record (.setMem addr count)
  let env ← ask
  modify fun w ↦
    { w with tracee.mem := writeMem w.tracee.mem addr (buff.wordAt env) count }

/-- The addresses of the words `set_mem addr _ count` pokes. -/
def copyWords (addr count : Word) : List Word :=
  (List.range (cInt (count / 8)).toNat).map (fun i : ℕ ↦ wordAddr addr i) ++
    if count.toNat % 8 = 0 then [] else [wordAddr addr (cInt (count / 8))]

/-- The value of `ret` after the loop: did the last full word go through? -/
def lastRet (m : ByteMemory) (addr : Word) : ℕ → Word
  | 0 => -1
  | i + 1 => if m.Pokeable (wordAddr addr i) then 0 else -1

/-- The pokes of `set_mem`, each address with its value. -/
def copyPokes (m : ByteMemory) (addr : Word) (load : ℤ → Word) (count : Word) :
    List (Word × Word) :=
  let fullblocks := cInt (count / 8)
  (List.range fullblocks.toNat).map
      (fun i : ℕ ↦ (wordAddr addr i, load (8 * i))) ++
    if count.toNat % 8 = 0 then []
    else [(wordAddr addr fullblocks,
      mixWords (lastRet m addr fullblocks.toNat) (load (8 * fullblocks)) (count.toNat % 8))]

theorem copyPokes_fst (m : ByteMemory) (addr : Word) (load : ℤ → Word) (count : Word) :
    (copyPokes m addr load count).map Prod.fst = copyWords addr count := by
  rw [copyPokes, copyWords, List.map_append, List.map_map]
  split <;> rfl

theorem setMemLoop_succ (m : ByteMemory) (addr : Word) (word : ℕ → Word) (i : ℕ) :
    setMemLoop m addr word (i + 1) =
      match (setMemLoop m addr word i).1.poke (wordAddr addr i) (word i) with
      | some m => (m, 0)
      | none => ((setMemLoop m addr word i).1, -1) := by
  delta setMemLoop
  rfl

theorem setMemLoop_eq (m : ByteMemory) (addr : Word) (word : ℕ → Word) (n : ℕ) :
    setMemLoop m addr word n =
      (m.pokeAll ((List.range n).map fun i : ℕ ↦ (wordAddr addr i, word i)), lastRet m addr n) := by
  induction n with
  | zero => rfl
  | succ n ih =>
    have hmap : m.Pokeable (wordAddr addr n) ↔
        (m.pokeAll ((List.range n).map fun i : ℕ ↦ (wordAddr addr i, word i))).Pokeable
          (wordAddr addr n) :=
      (ByteMemory.sameMap_pokeAll _).pokeable_iff _
    rw [setMemLoop_succ, ih, List.range_succ, List.map_append, ByteMemory.pokeAll_append, lastRet,
      List.map_singleton, ByteMemory.pokeAll_cons, ByteMemory.pokeAll_nil]
    by_cases h : m.Pokeable (wordAddr addr n)
    · rw [if_pos h, ByteMemory.poke_pos (hmap.1 h), Option.getD_some]
    · rw [if_neg h, ByteMemory.poke_neg (mt hmap.2 h), Option.getD_none]

/-- `set_mem` is a sequence of pokes. -/
theorem writeMem_eq_pokeAll (m : ByteMemory) (addr : Word) (load : ℤ → Word) (count : Word) :
    writeMem m addr load count = m.pokeAll (copyPokes m addr load count) := by
  rw [writeMem, copyPokes, setMemLoop_eq]
  by_cases h : count.toNat % 8 = 0
  · simp [h]
  · simp [h, ByteMemory.pokeAll_append]

/-! ### `get_args` and `set_args` -/

/-- The record `get_args` fills from the tracee's registers. -/
def argsOf (r : UserRegs) : SyscallArgs where
  syscall := r.orig_rax
  retval := r.rax
  arg1 := r.rdi
  arg2 := r.rsi
  arg3 := r.rdx
  arg4 := r.r10
  arg5 := r.r8
  arg6 := r.r9
  user := r

/-- The registers `set_args` writes. -/
def SyscallArgs.toRegs (a : SyscallArgs) : UserRegs where
  orig_rax := a.syscall
  rax := a.retval
  rdi := a.arg1
  rsi := a.arg2
  rdx := a.arg3
  r10 := a.arg4
  r8 := a.arg5
  r9 := a.arg6
  rest := a.user.rest

/-- `get_args (&regs)`. -/
def getArgs : M Unit := modify fun w ↦ { w with regs := argsOf w.tracee.regs }

/-- `set_args (&regs)`. -/
def setArgs : M Unit := modify fun w ↦
  { w with
    regs.user := w.regs.toRegs
    tracee.regs := w.regs.toRegs }

/-- `regs`. -/
def getRegs : M SyscallArgs := return (← get).regs

/-- `regs.retval = v`. -/
def setRetval (v : Word) : M Unit := modify fun w ↦ { w with regs.retval := v }

/-- `entering = b`. -/
def setEntering (b : Bool) : M Unit := modify fun w ↦ { w with entering := b }

end ReferenceMonitor
