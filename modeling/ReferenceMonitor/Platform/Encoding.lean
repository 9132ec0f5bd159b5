import ReferenceMonitor.Machine.SetMem
import ReferenceMonitor.Platform.Wrappers

/-!
# The tuples of the requests

A wrapper passes its parameters on as variadic arguments, next to a format that says how many there
are and what each becomes. The format has no types: `i` takes the low 32 bits of the argument for an
`int`, and `s#` takes an `int` for the length of its string, whether the parameter was an `int`, an
`off_t`, a `size_t` or a pointer. `Tuple` holds the format, the arguments and what they stand for,
for each request of eight of the wrappers; `tuples_faithful_iff` says for which parameters the
elements of the tuple are what they stand for.
-/

namespace ReferenceMonitor

open Halting

/-! ### `Py_VaBuildValue` -/

/-- The units of the formats. -/
inductive FormatUnit where
  | i
  /-- `s#` -/
  | string
  deriving DecidableEq

/-- A variadic argument: the 64 bits it is passed in, or a pointer. -/
inductive VarArg where
  | num (slot : Word)
  | ptr (p : Ptr)

/-- `va_arg (varg, int)`. -/
def VarArg.int (env : Env) : VarArg → ℤ
  | num slot => cInt slot
  | ptr (.block b) => cInt (env.heapAddr b.number)
  | ptr (.foreign a) => cInt a
  | ptr (.stray a) => cInt a

/-- `va_arg (varg, char *)`. -/
def VarArg.pointer : VarArg → Ptr
  | num slot => .stray slot
  | ptr p => p

/-- `Py_VaBuildValue`, for a format between brackets. -/
def vaBuildValue : List FormatUnit → List VarArg → Fetch (List PyVal)
  | [], _ => pure []
  | .i :: format, arg :: varg => do
    let ⟨env, _⟩ ← ask
    return .int (arg.int env) :: (← vaBuildValue format varg)
  | .string :: format, p :: n :: varg => do
    let ⟨env, _⟩ ← ask
    let s ← pyBytes p.pointer (n.int env)
    return s :: (← vaBuildValue format varg)
  | _, _ => stop .varargs

/-- What an element of a tuple stands for: the value of a parameter, or the length of a string. -/
inductive Meant where
  | int (value : ℤ)
  | string (length : ℤ)

/-- The element is what it stands for. A null pointer becomes `None`, and no string. -/
def Carries : PyVal → Meant → Prop
  | .int i, .int value => i = value
  | .str bytes, .string length => bytes.length = length
  | .none, .string _ => True
  | _, _ => False

/-- A request as it is made: the number of the call, the format, the arguments, and what these stand
for. -/
structure Tuple where
  num : ℕ
  format : List FormatUnit
  varg : List VarArg
  meant : List Meant

/-- What `MakeLindSysCall` makes of it. -/
def Tuple.request (t : Tuple) : Fetch Request :=
  return ⟨t.num, ← vaBuildValue t.format t.varg⟩

/-- A value is built, and each of its elements is what it stands for. -/
def Builds (p : Env × ByteMemory) (format : List FormatUnit) (varg : List VarArg)
    (meant : List Meant) : Prop :=
  ∃ elems, vaBuildValue format varg p [] = .done elems [] ∧ List.Forall₂ Carries elems meant

/-- The request is made, and each element of its tuple is what it stands for. -/
def Tuple.Faithful (p : Env × ByteMemory) (t : Tuple) : Prop := Builds p t.format t.varg t.meant

/-! ### The wrappers -/

/-- An `int` or an `unsigned int` as an argument. The upper half of its slot is not looked at. -/
def intArg (v : BitVec 32) : VarArg := .num (v.signExtend 64)

/-- A pointer to a buffer, or a null pointer. -/
def bufArg : Option Block → VarArg
  | some b => .ptr (.block b)
  | none => .ptr (.stray 0)

/-- `lind_lseek`. -/
def lseekTuple (fd : BitVec 32) (offset : Word) (whence : BitVec 32) : Tuple where
  num := LIND_safe_fs_lseek
  format := [.i, .i, .i]
  varg := [.num offset, intArg fd, intArg whence]
  meant := [.int offset.toInt, .int fd.toInt, .int whence.toInt]

/-- `lind_read`. -/
def readTuple (fd : BitVec 32) (size : Word) : Tuple where
  num := LIND_safe_fs_read
  format := [.i, .i]
  varg := [intArg fd, .num size]
  meant := [.int fd.toInt, .int size.toNat]

/-- `lind_write`, with its cast of `count`. -/
def writeTuple (fd : BitVec 32) (buf : Option Block) (count : Word) : Tuple where
  num := LIND_safe_fs_write
  format := [.i, .string]
  varg := [intArg fd, bufArg buf, intArg (count.setWidth 32)]
  meant := [.int fd.toInt, .string count.toNat]

/-- `lind_getdents`, whose parameters are unsigned. -/
def getdentsTuple (fd count : BitVec 32) : Tuple where
  num := LIND_safe_fs_getdents
  format := [.i, .i]
  varg := [intArg fd, intArg count]
  meant := [.int fd.toNat, .int count.toNat]

/-- `lind_sendto`. -/
def sendtoTuple (sockfd : BitVec 32) (buf : Option Block) (len : Word) (destAddr : Option Block)
    (addrlen : BitVec 32) : Tuple where
  num := LIND_safe_net_sendto
  format := [.i, .i, .i, .string, .string]
  varg := [intArg sockfd, .num len, intArg addrlen, bufArg destAddr, intArg addrlen, bufArg buf,
    .num len]
  meant := [.int sockfd.toInt, .int len.toNat, .int addrlen.toNat, .string addrlen.toNat,
    .string len.toNat]

/-- `lind_recvfrom`, whose `addrlen` is a pointer. -/
def recvfromTuple (sockfd : BitVec 32) (len : Word) (flags : BitVec 32) (addrlen : Word) :
    Tuple where
  num := LIND_safe_net_recvfrom
  format := [.i, .i, .i, .i]
  varg := [intArg sockfd, .num len, intArg flags, .ptr (.foreign addrlen)]
  meant := [.int sockfd.toInt, .int len.toNat, .int flags.toInt, .int addrlen.toNat]

/-- `lind_pread`, given the position its first call found. The `count` it passes on to `lind_read`
is converted to `size_t`. -/
def preadTuples (fd count : BitVec 32) (offset curPos : Word) : List Tuple :=
  [lseekTuple fd 0 1, lseekTuple fd offset 0,
    { readTuple fd (count.signExtend 64) with meant := [.int fd.toInt, .int count.toInt] },
    lseekTuple fd curPos 0]

/-- `lind_pwrite`, given the position its first call found. -/
def pwriteTuples (fd : BitVec 32) (buf : Option Block) (count : BitVec 32)
    (offset curPos : Word) : List Tuple :=
  [lseekTuple fd 0 1, lseekTuple fd offset 0,
    { writeTuple fd buf (count.signExtend 64) with meant := [.int fd.toInt, .string count.toInt] },
    lseekTuple fd curPos 0]

/-! ### The elements of a tuple -/

theorem setWidth_signExtend (v : BitVec 32) : (v.signExtend 64).setWidth 32 = v := by
  refine BitVec.eq_of_getLsbD_eq fun i hi ↦ ?_
  rw [BitVec.getLsbD_setWidth, BitVec.getLsbD_signExtend]
  simp [hi, show i < 64 by omega]

theorem cInt_signExtend (v : BitVec 32) : cInt (v.signExtend 64) = v.toInt := by
  rw [cInt, setWidth_signExtend]

@[simp] theorem int_num (env : Env) (slot : Word) : (VarArg.num slot).int env = cInt slot := rfl

@[simp] theorem int_foreign (env : Env) (a : Word) :
    (VarArg.ptr (.foreign a)).int env = cInt a := rfl

@[simp] theorem int_intArg (env : Env) (v : BitVec 32) : (intArg v).int env = v.toInt :=
  cInt_signExtend v

/-- The C string at the start of a buffer. -/
def cString (env : Env) (b : Block) : List Byte :=
  (b.bytes env ++ env.aroundString b.number).takeWhile (· ≠ 0)

/-- The bytes `lind_write` sends of a buffer. -/
def sentBytes (env : Env) (buf : Block) (count : ℤ) : List Byte :=
  (List.range count.toNat).map fun i : ℕ ↦ buf.byteAt env i

theorem length_sentBytes (env : Env) (buf : Block) {count : ℤ} (h : 0 ≤ count) :
    ((sentBytes env buf count).length : ℤ) = count := by
  rw [sentBytes, List.length_map, List.length_range]
  omega

/-- The bytes `s#` takes from a block. -/
def takenBytes (env : Env) (b : Block) (n : ℤ) : List Byte :=
  if 0 ≤ n then sentBytes env b n else cString env b

theorem pyBytes_takenBytes (env : Env) (b : Block) (n : ℤ) (m : ByteMemory) (log : List Word) :
    pyBytes (.block b) n (env, m) log = .done (.str (takenBytes env b n)) log := by
  simp only [pyBytes, bind_apply, ask_apply, Outcome.andThen_done, takenBytes]
  split <;> rfl

/-- `s#` makes a string of this length from a buffer: as many bytes as the `int` says, or up to the
first zero where it is negative. -/
def stringLength (env : Env) (b : Block) (n : ℤ) : ℤ := if 0 ≤ n then n else (cString env b).length

theorem pyBytes_block (env : Env) (b : Block) (n : ℤ) :
    ∃ bytes, (∀ m log, pyBytes (.block b) n (env, m) log = .done (.str bytes) log) ∧
      bytes.length = stringLength env b n := by
  refine ⟨takenBytes env b n, pyBytes_takenBytes env b n, ?_⟩
  rw [takenBytes, stringLength]
  split
  · exact length_sentBytes env b ‹_›
  · rfl

@[simp] theorem builds_nil (p : Env × ByteMemory) : Builds p [] [] [] ↔ True :=
  iff_of_true ⟨[], rfl, .nil⟩ trivial

/-- One element more. -/
theorem builds_cons {p : Env × ByteMemory} (elem : PyVal) (m : Meant) {format : List FormatUnit}
    {varg : List VarArg} {meant : List Meant} {o : Outcome Halt (List Word) (List PyVal)}
    (ho : o = (vaBuildValue format varg p []).andThen fun rest log ↦ .done (elem :: rest) log) :
    (∃ elems, o = .done elems [] ∧ List.Forall₂ Carries elems (m :: meant)) ↔
      Carries elem m ∧ Builds p format varg meant := by
  subst ho
  constructor
  · rintro ⟨elems, hdone, hcarries⟩
    obtain ⟨rest, log, hrest, hret⟩ := Outcome.andThen_eq_done_iff.1 hdone
    rw [Outcome.done.injEq] at hret
    obtain ⟨rfl, rfl⟩ := hret
    rw [List.forall₂_cons] at hcarries
    exact ⟨hcarries.1, rest, hrest, hcarries.2⟩
  · rintro ⟨hcarries, rest, hrest, hmeant⟩
    exact ⟨elem :: rest, by rw [hrest, Outcome.andThen_done], .cons hcarries hmeant⟩

/-- The unit `i`. -/
@[simp] theorem builds_i {p : Env × ByteMemory} {arg : VarArg} {value : ℤ}
    {format : List FormatUnit} {varg : List VarArg} {meant : List Meant} :
    Builds p (.i :: format) (arg :: varg) (.int value :: meant) ↔
      arg.int p.1 = value ∧ Builds p format varg meant :=
  builds_cons (.int (arg.int p.1)) (.int value) rfl

/-- The unit `s#`. -/
@[simp] theorem builds_string {p : Env × ByteMemory} {buf : Option Block} {arg : VarArg}
    {length : ℤ} {format : List FormatUnit} {varg : List VarArg} {meant : List Meant} :
    Builds p (.string :: format) (bufArg buf :: arg :: varg) (.string length :: meant) ↔
      (∀ b, buf = some b → stringLength p.1 b (arg.int p.1) = length) ∧
        Builds p format varg meant := by
  cases buf with
  | none =>
    refine (builds_cons .none (.string length) rfl).trans ?_
    simp [Carries]
  | some b =>
    obtain ⟨bytes, hbytes, hlen⟩ := pyBytes_block p.1 b (arg.int p.1)
    have hbuild : vaBuildValue (.string :: format) (bufArg (some b) :: arg :: varg) p [] =
        (vaBuildValue format varg p []).andThen fun rest log ↦ .done (.str bytes :: rest) log := by
      simp only [vaBuildValue, bufArg, VarArg.pointer, bind_apply, ask_apply, Outcome.andThen_done,
        hbytes, pure_apply]
    refine (builds_cons (.str bytes) (.string length) hbuild).trans ?_
    simp [Carries, hlen]

/-! ### What a parameter loses -/

/-- An `off_t` is kept where it is an `int`. -/
theorem cInt_eq_toInt_iff {w : Word} :
    cInt w = w.toInt ↔ -2 ^ 31 ≤ w.toInt ∧ w.toInt < 2 ^ 31 := by
  rw [cInt, BitVec.toInt_setWidth, BitVec.toInt_eq_toNat_cond, Int.bmod_def]
  split <;> split <;> omega

/-- A `size_t` or a pointer is kept where it is an `int`. -/
theorem cInt_eq_toNat_iff {w : Word} : cInt w = w.toNat ↔ w.toNat < 2 ^ 31 := by
  rw [cInt, BitVec.toInt_setWidth, Int.bmod_def]
  split <;> omega

/-- So is an `unsigned int`. -/
theorem toInt_eq_toNat_iff {v : BitVec 32} : v.toInt = v.toNat ↔ v.toNat < 2 ^ 31 := by
  rw [BitVec.toInt_eq_toNat_cond]
  split <;> omega

/-- The length of a string is kept where it is an `int`, or where it is negative as an `int` and the
string happens to end there. -/
def LengthKept (env : Env) (buf : Option Block) (n : ℕ) : Prop :=
  ∀ b, buf = some b → n < 2 ^ 31 ∨ 2 ^ 31 ≤ n % 2 ^ 32 ∧ (cString env b).length = n

theorem lengthKept_iff {env : Env} {buf : Option Block} {count : Word} :
    (∀ b, buf = some b → stringLength env b (count.setWidth 32).toInt = count.toNat) ↔
      LengthKept env buf count.toNat := by
  refine forall₂_congr fun b _ ↦ ?_
  rw [stringLength, BitVec.toInt_setWidth, Int.bmod_def]
  split <;> split <;> omega

/-! ### Faithful tuples -/

/-- A call of one of eight wrappers, with the parameters it builds its requests from. -/
inductive WrapperCall where
  | lseek (fd : BitVec 32) (offset : Word) (whence : BitVec 32)
  | read (fd : BitVec 32) (size : Word)
  | write (fd : BitVec 32) (buf : Option Block) (count : Word)
  | getdents (fd count : BitVec 32)
  | pread (fd count : BitVec 32) (offset : Word)
  | pwrite (fd : BitVec 32) (buf : Option Block) (count : BitVec 32) (offset : Word)
  | sendto (sockfd : BitVec 32) (buf : Option Block) (len : Word) (destAddr : Option Block)
    (addrlen : BitVec 32)
  | recvfrom (sockfd : BitVec 32) (len : Word) (flags : BitVec 32) (addrlen : Word)

/-- The tuples the call sends, oldest first. `curPos` is the position that `lind_pread` and
`lind_pwrite` find and restore. -/
def WrapperCall.tuples (curPos : Word) : WrapperCall → List Tuple
  | lseek fd offset whence => [lseekTuple fd offset whence]
  | read fd size => [readTuple fd size]
  | write fd buf count => [writeTuple fd buf count]
  | getdents fd count => [getdentsTuple fd count]
  | pread fd count offset => preadTuples fd count offset curPos
  | pwrite fd buf count offset => pwriteTuples fd buf count offset curPos
  | sendto sockfd buf len destAddr addrlen => [sendtoTuple sockfd buf len destAddr addrlen]
  | recvfrom sockfd len flags addrlen => [recvfromTuple sockfd len flags addrlen]

/-- An offset that is an `int`. -/
def OffsetKept (offset : Word) : Prop := -2 ^ 31 ≤ offset.toInt ∧ offset.toInt < 2 ^ 31

instance (offset : Word) : Decidable (OffsetKept offset) := inferInstanceAs (Decidable (_ ∧ _))

/-- The parameters are such that nothing is lost. -/
def WrapperCall.Kept (env : Env) (curPos : Word) : WrapperCall → Prop
  | lseek _ offset _ => OffsetKept offset
  | read _ size => size.toNat < 2 ^ 31
  | write _ buf count => LengthKept env buf count.toNat
  | getdents fd count => fd.toNat < 2 ^ 31 ∧ count.toNat < 2 ^ 31
  | pread _ _ offset => OffsetKept offset ∧ OffsetKept curPos
  | pwrite _ buf count offset =>
    OffsetKept offset ∧ (buf.isSome → 0 ≤ count.toInt) ∧ OffsetKept curPos
  | sendto _ _ len _ addrlen => len.toNat < 2 ^ 31 ∧ addrlen.toNat < 2 ^ 31
  | recvfrom _ len _ addrlen => len.toNat < 2 ^ 31 ∧ addrlen.toNat < 2 ^ 31

section Faithful

variable {p : Env × ByteMemory}

theorem faithful_lseek_iff {fd whence : BitVec 32} {offset : Word} :
    (lseekTuple fd offset whence).Faithful p ↔ OffsetKept offset := by
  simp [Tuple.Faithful, lseekTuple, OffsetKept, cInt_eq_toInt_iff]

theorem faithful_read_iff {fd : BitVec 32} {size : Word} :
    (readTuple fd size).Faithful p ↔ size.toNat < 2 ^ 31 := by
  simp [Tuple.Faithful, readTuple, cInt_eq_toNat_iff]

theorem faithful_write_iff {fd : BitVec 32} {buf : Option Block} {count : Word} :
    (writeTuple fd buf count).Faithful p ↔ LengthKept p.1 buf count.toNat := by
  rw [Tuple.Faithful, writeTuple, builds_i, builds_string, int_intArg, int_intArg, lengthKept_iff]
  simp

theorem faithful_getdents_iff {fd count : BitVec 32} :
    (getdentsTuple fd count).Faithful p ↔ fd.toNat < 2 ^ 31 ∧ count.toNat < 2 ^ 31 := by
  simp [Tuple.Faithful, getdentsTuple, toInt_eq_toNat_iff]

theorem stringLength_eq_self_iff {env : Env} {b : Block} {n : ℤ} :
    stringLength env b n = n ↔ 0 ≤ n := by
  rw [stringLength]
  split <;> omega

/-- The two lengths are elements of their own, so that nothing is lost of the strings either. -/
theorem faithful_sendto_iff {sockfd addrlen : BitVec 32} {buf destAddr : Option Block}
    {len : Word} : (sendtoTuple sockfd buf len destAddr addrlen).Faithful p ↔
      len.toNat < 2 ^ 31 ∧ addrlen.toNat < 2 ^ 31 := by
  simp only [Tuple.Faithful, sendtoTuple, builds_i, builds_string, builds_nil, int_intArg, int_num,
    true_and, and_true, cInt_eq_toNat_iff, toInt_eq_toNat_iff]
  constructor
  · rintro ⟨hlen, haddrlen, -⟩
    exact ⟨hlen, haddrlen⟩
  · rintro ⟨hlen, haddrlen⟩
    rw [cInt_eq_toNat_iff.2 hlen, toInt_eq_toNat_iff.2 haddrlen]
    exact ⟨hlen, haddrlen, fun _ _ ↦ stringLength_eq_self_iff.2 (by omega),
      fun _ _ ↦ stringLength_eq_self_iff.2 (by omega)⟩

theorem faithful_recvfrom_iff {sockfd flags : BitVec 32} {len addrlen : Word} :
    (recvfromTuple sockfd len flags addrlen).Faithful p ↔
      len.toNat < 2 ^ 31 ∧ addrlen.toNat < 2 ^ 31 := by
  simp [Tuple.Faithful, recvfromTuple, cInt_eq_toNat_iff]

/-- The `count` of `lind_pread` survives the way to `size_t` and back. -/
theorem faithful_pread_iff {fd count : BitVec 32} {offset curPos : Word} :
    (∀ t ∈ preadTuples fd count offset curPos, t.Faithful p) ↔
      OffsetKept offset ∧ OffsetKept curPos := by
  have hread : Builds p (readTuple fd (count.signExtend 64)).format
      (readTuple fd (count.signExtend 64)).varg [.int fd.toInt, .int count.toInt] := by
    simp [readTuple, cInt_signExtend]
  simp only [preadTuples, List.forall_mem_cons, faithful_lseek_iff, List.not_mem_nil, false_implies,
    implies_true, and_true]
  exact ⟨fun h ↦ ⟨h.2.1, h.2.2.2⟩, fun h ↦ ⟨by decide, h.1, hread, h.2⟩⟩

/-- That of `lind_pwrite` does, too, but a negative one is no length. -/
theorem faithful_pwrite_iff {fd count : BitVec 32} {buf : Option Block} {offset curPos : Word} :
    (∀ t ∈ pwriteTuples fd buf count offset curPos, t.Faithful p) ↔
      OffsetKept offset ∧ (buf.isSome → 0 ≤ count.toInt) ∧ OffsetKept curPos := by
  have hwrite : Builds p (writeTuple fd buf (count.signExtend 64)).format
      (writeTuple fd buf (count.signExtend 64)).varg [.int fd.toInt, .string count.toInt] ↔
        (buf.isSome → 0 ≤ count.toInt) := by
    rw [writeTuple, setWidth_signExtend, builds_i, builds_string, int_intArg, int_intArg]
    cases buf with
    | none => simp
    | some b => simp [stringLength_eq_self_iff]
  simp only [pwriteTuples, List.forall_mem_cons, faithful_lseek_iff, List.not_mem_nil,
    false_implies, implies_true, and_true]
  exact ⟨fun h ↦ ⟨h.2.1, hwrite.1 h.2.2.1, h.2.2.2⟩,
    fun h ↦ ⟨by decide, h.1, hwrite.2 h.2.1, h.2.2⟩⟩

end Faithful

/-- **The tuples of the requests.** Their elements are what they stand for exactly where nothing is
lost of the parameters. -/
theorem tuples_faithful_iff (c : WrapperCall) (curPos : Word) (p : Env × ByteMemory) :
    (∀ t ∈ c.tuples curPos, t.Faithful p) ↔ c.Kept p.1 curPos := by
  cases c with
  | lseek fd offset whence => exact List.forall_mem_singleton.trans faithful_lseek_iff
  | read fd size => exact List.forall_mem_singleton.trans faithful_read_iff
  | write fd buf count => exact List.forall_mem_singleton.trans faithful_write_iff
  | getdents fd count => exact List.forall_mem_singleton.trans faithful_getdents_iff
  | pread fd count offset => exact faithful_pread_iff
  | pwrite fd buf count offset => exact faithful_pwrite_iff
  | sendto sockfd buf len destAddr addrlen =>
    exact List.forall_mem_singleton.trans faithful_sendto_iff
  | recvfrom sockfd len flags addrlen =>
    exact List.forall_mem_singleton.trans faithful_recvfrom_iff

/-- An offset of `2 ^ 32` is sent as `0`. -/
theorem not_tuples_faithful : ¬ ∀ (c : WrapperCall) (curPos : Word) (p : Env × ByteMemory),
    ∀ t ∈ c.tuples curPos, t.Faithful p := by
  intro h
  have hkept := faithful_lseek_iff.1
    (h (.lseek 3 (2 ^ 32) 0) 0 (Env.blank, zeroWorld.tracee.mem) _ List.mem_cons_self)
  exact absurd hkept (by decide)

/-! ### The requests themselves -/

/-- The request a tuple becomes in this environment. -/
def Tuple.Makes (env : Env) (t : Tuple) (r : Request) : Prop :=
  ∀ m log, t.request (env, m) log = .done r log

section Requests

variable {env : Env}

theorem request_lseek (fd : BitVec 32) (offset : Word) (whence : BitVec 32) :
    (lseekTuple fd offset whence).Makes env
      ⟨LIND_safe_fs_lseek, [.int (cInt offset), .int fd.toInt, .int whence.toInt]⟩ := by
  intro m log
  rw [← cInt_signExtend fd, ← cInt_signExtend whence]
  rfl

theorem request_read (fd : BitVec 32) (size : Word) :
    (readTuple fd size).Makes env (lindRead fd.toInt (cInt size)) := by
  intro m log
  rw [← cInt_signExtend fd]
  rfl

theorem request_getdents (fd count : BitVec 32) :
    (getdentsTuple fd count).Makes env (lindGetdents fd.toInt count.toInt) := by
  intro m log
  rw [← cInt_signExtend fd, ← cInt_signExtend count]
  rfl

theorem request_recvfrom (sockfd : BitVec 32) (len : Word) (flags : BitVec 32) (addrlen : Word) :
    (recvfromTuple sockfd len flags addrlen).Makes env ⟨LIND_safe_net_recvfrom,
      [.int sockfd.toInt, .int (cInt len), .int flags.toInt, .int (cInt addrlen)]⟩ := by
  intro m log
  rw [← cInt_signExtend sockfd, ← cInt_signExtend flags]
  rfl

theorem request_write (fd : BitVec 32) (buf : Option Block) (count : Word) :
    (writeTuple fd buf count).request =
      lindWrite fd.toInt (bufArg buf).pointer (count.setWidth 32).toInt := by
  rw [← cInt_signExtend fd, ← cInt_signExtend (count.setWidth 32)]
  funext p log
  simp only [Tuple.request, writeTuple, vaBuildValue, lindWrite, bind_apply, ask_apply,
    Outcome.andThen_done, intArg, VarArg.int]
  cases pyBytes (bufArg buf).pointer (cInt ((count.setWidth 32).signExtend 64)) p log <;> rfl

theorem request_sendto (sockfd : BitVec 32) (buf : Option Block) (len : Word)
    (destAddr : Option Block) (addrlen : BitVec 32) :
    (sendtoTuple sockfd buf len destAddr addrlen).request =
      lindSendto sockfd.toInt (bufArg buf).pointer (cInt len) (bufArg destAddr).pointer
        addrlen.toInt := by
  funext p log
  rw [← cInt_signExtend sockfd, ← cInt_signExtend addrlen]
  simp only [Tuple.request, sendtoTuple, vaBuildValue, lindSendto, bind_apply, ask_apply,
    Outcome.andThen_done, intArg, VarArg.int]
  cases pyBytes (bufArg destAddr).pointer (cInt (addrlen.signExtend 64)) p log with
  | done addr log =>
    simp only [Outcome.andThen_done]
    cases pyBytes (bufArg buf).pointer (cInt len) p log <;> rfl
  | halt e log => rfl

variable {w : World}

theorem requests_lindLseek (fd : ℤ) (offset : Word) (whence : ℤ) :
    (lindLseek fd offset whence env w).state.requests =
      ⟨LIND_safe_fs_lseek, [.int (cInt offset), .int fd, .int whence]⟩ :: w.requests := by
  refine (requests_andThen fun ⟨retval, retOff⟩ u ↦ ?_).trans (requests_lindCallInto _ _ _)
  dsimp only
  rw [ite_run]
  split <;> rfl

theorem requests_of_done {α : Type} {o : Outcome Halt World α} {a : α} {w' : World}
    {rs : List Request} (h : o = .done a w') (hrs : o.state.requests = rs) : w'.requests = rs := by
  rw [← hrs, h]
  rfl

/-- A run of `lind_pread` that returns has sent these, with the position it found. -/
theorem requests_lindPread {fd count : BitVec 32} {buf : Block} {offset : Word} {v : ℤ × Block}
    {w' : World} (h : lindPread fd.toInt buf count.toInt offset env w = .done v w') :
    ∃ curPos w₁ rs, lindLseek fd.toInt 0 1 env w = .done curPos w₁ ∧
      List.Forall₂ (Tuple.Makes env) (preadTuples fd count offset curPos) rs ∧
        w'.requests = rs.reverse ++ w.requests := by
  obtain ⟨curPos, w₁, hfirst, h⟩ := Outcome.andThen_eq_done_iff.1 h
  obtain ⟨_, w₂, hseek, h⟩ := Outcome.andThen_eq_done_iff.1 h
  obtain ⟨_, w₃, hread, h⟩ := Outcome.andThen_eq_done_iff.1 h
  obtain ⟨_, w₄, hback, h⟩ := Outcome.andThen_eq_done_iff.1 h
  cases h
  refine ⟨curPos, w₁, _, hfirst, .cons (request_lseek _ _ _) <| .cons (request_lseek _ _ _) <|
    .cons (request_read fd _) <| .cons (request_lseek _ _ _) .nil, ?_⟩
  rw [requests_of_done hback (requests_lindLseek _ _ _), requests_of_done hread
    (requests_lindCallInto _ _ _), requests_of_done hseek (requests_lindLseek _ _ _),
    requests_of_done hfirst (requests_lindLseek _ _ _), cInt_signExtend]
  rfl

/-- So has a run of `lind_pwrite`. -/
theorem requests_lindPwrite {fd count : BitVec 32} {buf : Block} {offset : Word} {v : ℤ}
    {w' : World} (h : lindPwrite fd.toInt buf count.toInt offset env w = .done v w') :
    ∃ curPos w₁ rs, lindLseek fd.toInt 0 1 env w = .done curPos w₁ ∧
      List.Forall₂ (Tuple.Makes env) (pwriteTuples fd (some buf) count offset curPos) rs ∧
        w'.requests = rs.reverse ++ w.requests := by
  obtain ⟨curPos, w₁, hfirst, h⟩ := Outcome.andThen_eq_done_iff.1 h
  obtain ⟨_, w₂, hseek, h⟩ := Outcome.andThen_eq_done_iff.1 h
  obtain ⟨r, w₃, hrequest, h⟩ := Outcome.andThen_eq_done_iff.1 h
  obtain ⟨_, w₄, hwrite, h⟩ := Outcome.andThen_eq_done_iff.1 h
  obtain ⟨_, w₅, hback, h⟩ := Outcome.andThen_eq_done_iff.1 h
  cases h
  -- the string of the request is read from the buffer of the caller
  obtain ⟨bytes, hbytes, -⟩ := pyBytes_block env buf count.toInt
  have hmake (m : ByteMemory) (log : List Word) : lindWrite fd.toInt (.block buf) count.toInt
      (env, m) log = .done ⟨LIND_safe_fs_write, [.int fd.toInt, .str bytes]⟩ log := by
    rw [lindWrite, bind_apply, hbytes]
    rfl
  have htuple : Tuple.Makes env { writeTuple fd (some buf) (count.signExtend 64) with
      meant := [.int fd.toInt, .string count.toInt] }
      ⟨LIND_safe_fs_write, [.int fd.toInt, .str bytes]⟩ := fun m log ↦ by
    show (writeTuple fd (some buf) (count.signExtend 64)).request (env, m) log = _
    rw [request_write, setWidth_signExtend]
    exact hmake m log
  rw [fetch_done (hmake _ _)] at hrequest
  cases hrequest
  have hsent : w₄.requests = ⟨LIND_safe_fs_write, [.int fd.toInt, .str bytes]⟩ :: w₂.requests :=
    requests_of_done hwrite (requests_lindCall _)
  refine ⟨curPos, w₁, _, hfirst, .cons (request_lseek _ _ _) <| .cons (request_lseek _ _ _) <|
    .cons htuple <| .cons (request_lseek _ _ _) .nil, ?_⟩
  rw [requests_of_done hback (requests_lindLseek _ _ _), hsent,
    requests_of_done hseek (requests_lindLseek _ _ _),
    requests_of_done hfirst (requests_lindLseek _ _ _)]
  rfl

end Requests

end ReferenceMonitor
