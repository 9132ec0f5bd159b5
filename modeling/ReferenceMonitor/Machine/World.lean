import ReferenceMonitor.Library.Halting
import ReferenceMonitor.Library.ByteMemory

/-!
# The state of the monitor and of its tracee

`World` is everything the monitor's code changes: its globals `regs` and `entering`, the registers
and memory of the stopped tracee, the requests already sent to Lind, the calls made to the Repy
descriptor table, `errno`, and a trace of the accesses the theorems speak about.

`Env` is everything that code does not decide while one stop is handled: what Lind and the Repy
table answer, what the monitor's heap and stack held before they were allocated, and what the
monitor's own address space holds at an address that came from elsewhere.

## Pointers and undefined behaviour

The memories of the monitor and of the tracee are separate. An object of the monitor is a `Block`,
a number and its cells; an address taken from the tracee is a `Word`. The conventions are:

* allocation never fails; a cell of a fresh block is `Cell.initial`, a byte `env.heap` decides;
* a load outside a block, or from a block already freed, gives the byte `env.around` has there,
  unspecified but not fatal (`set_mem` reads whole words, so the source relies on it);
* a load through an address that is no block of the monitor reads `env.own`, and is a segmentation
  fault where that is unmapped;
* a store outside a block, reading an argument that was not passed and a signed overflow halt the
  run: C gives it no meaning from there.
-/

namespace ReferenceMonitor

open Halting

/-! ### C integers -/

/-- The conversion of a `long` to `int`: its low 32 bits, signed. -/
def cInt (w : Word) : ℤ := (w.setWidth 32).toInt

/-- The conversion of an `int` to `long`. -/
def ofInt (i : ℤ) : Word := BitVec.ofInt 64 i

/-- The conversion of a wider integer to `int`. -/
def wrapInt (i : ℤ) : ℤ := (BitVec.ofInt 32 i).toInt

theorem cInt_ofInt (i : ℤ) : cInt (ofInt i) = wrapInt i := by
  have h : ((i % ((2 ^ 64 : ℕ) : ℤ)) % ((2 ^ 32 : ℕ) : ℤ)) = i % ((2 ^ 32 : ℕ) : ℤ) :=
    Int.emod_emod_of_dvd i ⟨2 ^ 32, rfl⟩
  rw [cInt, ofInt, wrapInt, BitVec.toInt_setWidth, BitVec.toInt_ofInt, BitVec.toNat_ofInt,
    Int.toNat_of_nonneg (Int.emod_nonneg _ (by decide)), ← Int.emod_bmod, h, Int.emod_bmod]

theorem wrapInt_eq_self {i : ℤ} (h : -2 ^ 31 ≤ i) (h' : i < 2 ^ 31) : wrapInt i = i := by
  rw [wrapInt, BitVec.toInt_ofInt]
  exact Int.bmod_eq_of_le (by omega) (by omega)

theorem wrapInt_bounds (i : ℤ) : -2 ^ 31 ≤ wrapInt i ∧ wrapInt i < 2 ^ 31 := by
  have h := BitVec.le_toInt (BitVec.ofInt 32 i)
  have h' := BitVec.toInt_lt (x := BitVec.ofInt 32 i)
  exact ⟨h, h'⟩

theorem wrapInt_le_self {i : ℤ} (h : 0 ≤ i) : wrapInt i ≤ i := by
  rw [wrapInt, BitVec.toInt_ofInt, Int.bmod_def]
  split <;> omega

theorem wrapInt_eq_sub {i : ℤ} (h : 2 ^ 31 ≤ i) (h' : i < 2 ^ 32) : wrapInt i = i - 2 ^ 32 := by
  rw [wrapInt, BitVec.toInt_ofInt, Int.bmod_def]
  split <;> omega

theorem ofInt_inj {i j : ℤ} (hi : -2 ^ 63 ≤ i) (hi' : i < 2 ^ 63) (hj : -2 ^ 63 ≤ j)
    (hj' : j < 2 ^ 63) : ofInt i = ofInt j ↔ i = j := by
  refine ⟨fun h ↦ ?_, fun h ↦ h ▸ rfl⟩
  have := congrArg BitVec.toInt h
  rwa [ofInt, ofInt, BitVec.toInt_ofInt, BitVec.toInt_ofInt,
    Int.bmod_eq_of_le (by omega) (by omega),
    Int.bmod_eq_of_le (by omega) (by omega)] at this

/-- Narrowing keeps exactly the codes below `2 ^ 31`. -/
theorem ofInt_wrapInt_eq_iff {code : ℤ} (h : 0 ≤ code) (h' : code < 2 ^ 63) :
    ofInt (wrapInt code) = ofInt code ↔ code < 2 ^ 31 := by
  have hw := wrapInt_bounds code
  rw [ofInt_inj (by omega) (by omega) (by omega) h']
  constructor
  · intro he
    omega
  · intro hlt
    exact wrapInt_eq_self (by omega) hlt

/-! ### The tracee -/

/-- The registers of a stopped tracee: those `lind_monitor.c` names, and the others in order. -/
structure UserRegs where
  orig_rax : Word
  rax : Word
  rdi : Word
  rsi : Word
  rdx : Word
  r10 : Word
  r8 : Word
  r9 : Word
  rest : List Word

/-- A stopped tracee. -/
structure Tracee where
  regs : UserRegs
  mem : ByteMemory

/-- `struct syscall_args`. -/
structure SyscallArgs where
  syscall : Word
  arg1 : Word
  arg2 : Word
  arg3 : Word
  arg4 : Word
  arg5 : Word
  arg6 : Word
  retval : Word
  user : UserRegs

/-! ### Lind -/

/-- A Python value, as far as `ParseResponse` and the request formats can tell values apart. -/
inductive PyVal where
  | none
  | bool (b : Bool)
  | int (i : ℤ)
  | str (bytes : List Byte)
  | other
  deriving DecidableEq

/-- What `MakeLindSysCall` sends: the number of the call and the list the format builds. -/
structure Request where
  num : ℕ
  args : List PyVal
  deriving DecidableEq

/-- A response object, by the attributes `ParseResponse` looks up; any of them may be missing. -/
structure Response where
  isError : Option PyVal
  returnCode : Option PyVal
  data : Option PyVal
  message : Option PyVal

/-! ### The monitor -/

/-- A byte of an object of the monitor: one that was stored there, or the one the memory held
when the object was allocated. -/
inductive Cell where
  | stored (b : Byte)
  | initial (block offset : ℕ)
  deriving DecidableEq

/-- An object in the monitor's memory: the number of its allocation, and its bytes. -/
structure Block where
  number : ℕ
  cells : List Cell
  deriving Inhabited

/-- What the code does not decide while one stop is handled. -/
structure Env where
  /-- What the memory of a block held before it was allocated. -/
  heap : ℕ → ℕ → Byte
  /-- The byte at an offset from the start of a block, outside the block or after its release. -/
  around : ℕ → ℤ → Byte
  /-- The bytes from the end of a block to the next zero. -/
  aroundString : ℕ → List Byte
  /-- The address of a block. -/
  heapAddr : ℕ → Word
  /-- The monitor's own byte at an address, if one is mapped there. -/
  own : Word → Option Byte
  /-- The C string at an address of the monitor, if it ends before its mapping does. -/
  ownString : Word → Option (List Byte)
  /-- What `va_arg` finds after the last argument passed. -/
  vararg : Word
  /-- Lind's answer to the newest of the requests sent so far; nothing when the call raised. -/
  lind : List Request → Option Response
  /-- The bytes around a payload string, by their offset from its start. -/
  tail : ℤ → Byte
  /-- The answer of `get_lind_map_to_native`, given the calls made to `map_native_to_lind` so
  far; nothing when the call raised. -/
  lookup : List (ℤ × ℤ) → ℤ → Option PyVal

/-- An environment in which nothing is mapped, every byte is zero and every call raises. -/
def Env.blank : Env where
  heap _ _ := 0
  around _ _ := 0
  aroundString _ := []
  heapAddr _ := 0
  own _ := none
  ownString _ := none
  vararg := 0
  lind _ := none
  tail _ := 0
  lookup _ _ := none

/-- How the monitor's own execution may end inside a handler. -/
inductive Halt where
  /-- A call of `exit`. -/
  | exit (status : ℤ)
  /-- A load at an address the monitor has not mapped. -/
  | segv (addr : Word)
  /-- An `int` passed its maximum. -/
  | intOverflow
  /-- A store outside the block it was meant for. -/
  | corrupt
  /-- `va_arg` past the arguments passed. -/
  | varargs
  /-- A loop that never ends. -/
  | diverge
  deriving DecidableEq

/-- The accesses a run records. -/
inductive Event where
  /-- A handler took its entering branch, or its other one, for this system call. -/
  | branch (entering : Bool) (syscall : Word)
  /-- `set_mem` was called. -/
  | setMem (addr count : Word)
  /-- The monitor accessed, in its own address space, an address of the tracee. -/
  | foreign (addr : Word)
  /-- `monitor_actions` was indexed. -/
  | actionsAt (index : ℤ)
  /-- `syscall_names` was indexed. -/
  | namesAt (index : ℤ)
  deriving DecidableEq

/-- What the monitor's code changes. -/
structure World where
  /-- The global `regs`. -/
  regs : SyscallArgs
  /-- The global `entering`. -/
  entering : Bool
  /-- The stopped tracee. -/
  tracee : Tracee
  /-- The requests sent to Lind, newest first. -/
  requests : List Request
  /-- The calls `map_native_to_lind (native, lind)`, newest first. -/
  mappings : List (ℤ × ℤ)
  errno : ℤ
  /-- The recorded accesses, newest first. -/
  trace : List Event

/-- The monitor's code. -/
abbrev M := Halting Env Halt World

/-- Code that only reads: the tracee's memory, which it cannot change, and the monitor's own. Its
state is the list of tracee addresses it accessed in the wrong address space. -/
abbrev Fetch := Halting (Env × ByteMemory) Halt (List Word)

/-- Run reading code inside the monitor. -/
def fetch {α : Type} (f : Fetch α) : M α :=
  focus (fun e w ↦ (e, w.tracee.mem)) []
    (fun log w ↦ { w with trace := log.map Event.foreign ++ w.trace }) f

/-- Record an access. -/
def record (e : Event) : M Unit := modify fun w ↦ { w with trace := e :: w.trace }

@[simp] theorem record_apply (e : Event) (env : Env) (w : World) :
    record e env w = .done () { w with trace := e :: w.trace } := rfl

theorem fetch_done {α : Type} {f : Fetch α} {env : Env} {w : World} {a : α} {log : List Word}
    (h : f (env, w.tracee.mem) [] = .done a log) :
    fetch f env w = .done a { w with trace := log.map Event.foreign ++ w.trace } := by
  rw [fetch, focus, h]

/-- A computation that accesses nothing of the tracee in the monitor's address space. -/
theorem fetch_silent {α : Type} {f : Fetch α} {env : Env} {w : World} {a : α}
    (h : f (env, w.tracee.mem) [] = .done a []) : fetch f env w = .done a w := fetch_done h

theorem fetch_halt {α : Type} {f : Fetch α} {env : Env} {w : World} {h : Halt} {log : List Word}
    (hf : f (env, w.tracee.mem) [] = .halt h log) :
    fetch f env w = .halt h { w with trace := log.map Event.foreign ++ w.trace } := by
  rw [fetch, focus, hf]

@[simp] theorem fetch_pure {α : Type} (a : α) (env : Env) (w : World) :
    fetch (pure a) env w = .done a w := rfl

end ReferenceMonitor
