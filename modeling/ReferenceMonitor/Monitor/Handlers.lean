import ReferenceMonitor.Platform.Wrappers

/-!
# The handlers `monitor_*`

A handler runs at the entry stop and at the exit stop of a system call, and the global `entering`
tells it which of the two it is at. `phased` is the `if (entering) .. else ..` they all share, with
the toggle they make by hand.

The handlers of emulated calls do nothing on entry. On exit such a handler asks Lind, and then sets
`regs.retval`, copies buffers back with `set_mem` and calls `set_args`. `Emulation` is the first of
these parts: it yields the return value and the copies, or nothing where the handler ends without
`set_args`. Three families cover most of the emulations:

* `status` — `regs.retval` is what the wrapper returns;
* `descriptor` — a result that is not negative is entered in the descriptor table, and any other
  becomes `-1`;
* `fill` — the wrapper fills a buffer that is copied back.

What the handlers print is left out, except that printing a name indexes `syscall_names`.
-/

namespace ReferenceMonitor

open Halting

/-! ### The two branches -/

/-- `if (entering) { entering = 0; .. } else { ..; entering = 1; }`. -/
def phased (enter leave : M Unit) : M Unit := do
  let w ← get
  record (.branch w.entering w.regs.syscall)
  if w.entering then do
    setEntering false
    enter
  else do
    leave
    setEntering true

theorem phased_of_entering (enter leave : M Unit) (env : Env) {w : World}
    (h : w.entering = true) :
    phased enter leave env w =
      enter env { w with trace := .branch true w.regs.syscall :: w.trace, entering := false } := by
  simp [phased, h, setEntering]

theorem phased_of_leaving (enter leave : M Unit) (env : Env) {w : World}
    (h : w.entering = false) :
    phased enter leave env w =
      (leave env { w with trace := .branch false w.regs.syscall :: w.trace }).andThen
        fun _ t ↦ .done () { t with entering := true } := by
  simp [phased, h, setEntering]

/-- One call of `set_mem`. -/
structure CopyBack where
  dst : Word
  block : Block
  count : Word

/-- The leaving branch of an emulated call, up to the new `regs.retval` and the copies that follow
it; nothing where the branch ends without `set_args`. -/
abbrev Emulation := SyscallArgs → M (Option (Word × List CopyBack))

/-- The `set_mem`s of a handler. -/
def copyBacks : List CopyBack → M Unit
  | [] => pure ()
  | b :: bs => do
    setMem b.dst b.block b.count
    copyBacks bs

/-- What a handler does with the result of its emulation. -/
def finish : Option (Word × List CopyBack) → M Unit
  | none => pure ()
  | some (ret, backs) => do
    setRetval ret
    copyBacks backs
    setArgs

/-- The leaving branch of an emulated call. -/
def leave (e : Emulation) : M Unit := do finish (← e (← getRegs))

/-- The handler of an emulated call. -/
def emulated (e : Emulation) : M Unit := phased (pure ()) (leave e)

/-! ### Emulations -/

/-- `regs.retval = lind_x (..)`. -/
def status (q : Fetch Request) : M (Option (Word × List CopyBack)) := do
  let ret ← lindCall (← fetch q)
  return some (ofInt ret, [])

/-- `if (lind_fd >= 0) { add_mapping (regs.retval, lind_fd); regs.retval = lind_fd; }`, and what is
done otherwise. -/
def enterDescriptor (r : SyscallArgs) (otherwise : Option (Word × List CopyBack)) (lindFd : ℤ) :
    M (Option (Word × List CopyBack)) := do
  if 0 ≤ lindFd then
    addMapping (cInt r.retval) lindFd
    return some (ofInt lindFd, [])
  else return otherwise

/-- `lind_fd = lind_x (..)`, entered in the descriptor table, or `-1`. -/
def descriptor (q : SyscallArgs → Fetch Request) : Emulation := fun r ↦ do
  enterDescriptor r (some (-1, [])) (← lindCall (← fetch (q r)))

/-- The buffer of a handler: the size it allocates, the `maxlen` the wrapper passes on for it, and
where and how much of it is copied back. -/
structure Output where
  size : ℕ
  limit : ℤ
  dst : Word
  count : Word

/-- Allocate a buffer, let the wrapper fill it up to the `maxlen` it computes, copy it back. -/
def fillWith (size : ℕ) (dst count : Word) (q : Block → Fetch (Request × ℤ)) :
    M (Option (Word × List CopyBack)) := do
  let buff := malloc 0 size
  let (request, limit) ← fetch (q buff)
  let (ret, buff) ← lindCallInto request buff limit
  return some (ofInt ret, [⟨dst, buff, count⟩])

/-- `fillWith`, for a wrapper whose `maxlen` is known beforehand. -/
def fill (o : Output) (q : Block → Fetch Request) : M (Option (Word × List CopyBack)) :=
  fillWith o.size o.dst o.count fun buff ↦ return (← q buff, o.limit)

/-! ### Handlers of emulated calls: no buffer -/

def monitorGetuid : Emulation := fun _ ↦ status (pure lindGetuid)

def monitorGetpid : Emulation := fun _ ↦ status (pure lindGetpid)

def monitorGeteuid : Emulation := fun _ ↦ status (pure lindGeteuid)

def monitorGetgid : Emulation := fun _ ↦ status (pure lindGetgid)

def monitorGetegid : Emulation := fun _ ↦ status (pure lindGetegid)

/-- A handler whose guard fails leaves without `set_args`. -/
def monitorClose : Emulation := fun r ↦
  if 0 ≤ cInt r.arg1 then status (pure (lindClose (cInt r.arg1))) else pure none

def monitorRmdir : Emulation := fun r ↦ status do
  return lindRmdir (← getPath r.arg1)

def monitorUnlink : Emulation := fun r ↦ status do
  return lindUnlink (← getPath r.arg1)

def monitorLink : Emulation := fun r ↦ status do
  let path ← getPath r.arg1
  return lindLink path (← getPath r.arg2)

def monitorMkdir : Emulation := fun r ↦ status do
  return lindMkdir (← getPath r.arg1) (cInt r.arg2)

def monitorChdir : Emulation := fun r ↦ status do
  return lindChdir (← getPath r.arg1)

def monitorFcntl : Emulation := fun r ↦ status (lindFcntl (cInt r.arg1) (cInt r.arg2))

def monitorFlock : Emulation := fun r ↦ status (pure (lindFlock (cInt r.arg1) (cInt r.arg2)))

def monitorListen : Emulation := fun r ↦ status (pure (lindListen (cInt r.arg1) (cInt r.arg2)))

def monitorShutdown : Emulation := fun r ↦
  status (pure (lindShutdown (cInt r.arg1) (cInt r.arg2)))

def monitorWrite : Emulation := fun r ↦ status do
  lindWrite (cInt r.arg1) (.block (← getMem 0 r.arg2 r.arg3)) (cInt r.arg3)

def monitorBind : Emulation := fun r ↦ status do
  let addr ← getMem 0 r.arg2 (BitVec.ofNat 64 sizeofSockaddr)
  lindBind (cInt r.arg1) (.block addr) (cInt r.arg3)

def monitorConnect : Emulation := fun r ↦ status do
  let addr ← getMem 0 r.arg2 (BitVec.ofNat 64 sizeofSockaddr)
  lindConnect (cInt r.arg1) (.block addr) (cInt r.arg3)

/-- The destination address is read where the data is. -/
def monitorSendto : Emulation := fun r ↦ status do
  let data ← getMem 0 r.arg2 r.arg3
  let addr ← getMem 1 r.arg2 (BitVec.ofNat 64 sizeofSockaddr)
  lindSendto (cInt r.arg1) (.block data) (cInt r.arg3) (.block addr) (cInt r.arg5)

def monitorSetsockopt : Emulation := fun r ↦ status do
  let optval ← getMem 0 r.arg4 (BitVec.ofNat 64 sizeofSockaddr)
  lindSetsockopt (cInt r.arg1) (cInt r.arg2) (cInt r.arg3) (.block optval) (cInt r.arg5)

def monitorLseek : Emulation := fun r ↦ do
  return some (← lindLseek (cInt r.arg1) r.arg2 (cInt r.arg3), [])

def monitorPwritev : Emulation := fun r ↦ do
  let data ← fetch (getMem 0 r.arg2 r.arg3)
  return some (ofInt (← lindPwrite (cInt r.arg1) data (cInt r.arg3) r.arg4), [])

/-- Reads into a copy of the tracee's buffer, and does not copy it back. -/
def monitorPread64 : Emulation := fun r ↦ do
  let buf ← fetch (getMem 0 r.arg2 r.arg3)
  let (ret, _) ← lindPread (cInt r.arg1) buf (cInt r.arg3) r.arg4
  return some (ofInt ret, [])

/-- Only prints the path the tracee's buffer holds. -/
def monitorGetcwd : Emulation := fun r ↦ do
  let _ ← fetch (getPath r.arg1)
  return none

/-- Only prints. -/
def monitorGetpeername : Emulation := fun _ ↦ return none

/-- `EINVAL`. -/
def einval : Word := 22

def monitorNs : Emulation := fun r ↦ do
  record (.namesAt r.syscall.toInt)
  return some (einval, [])

/-! ### Handlers of emulated calls: descriptors -/

/-- Without a descriptor it ends without `set_args`, and the native result stays in place. -/
def monitorOpen : Emulation := fun r ↦ do
  let path ← fetch (getPath r.arg1)
  enterDescriptor r none (← lindCall (lindOpen path (cInt r.arg2) (cInt r.arg3)))

def monitorOpenat : Emulation := descriptor fun r ↦
  return lindOpenat (cInt r.arg1) (← getPath r.arg2) (cInt r.arg3) (cInt r.arg4)

/-- A status, treated as a descriptor. -/
def monitorAccess : Emulation := descriptor fun r ↦
  return lindAccess (← getPath r.arg1) (cInt r.arg2)

def monitorDup : Emulation := descriptor fun r ↦ pure (lindDup (cInt r.arg1))

def monitorDup2 : Emulation := descriptor fun r ↦ pure (lindDup2 (cInt r.arg1) (cInt r.arg2))

def monitorDup3 : Emulation := descriptor fun r ↦
  pure (lindDup3 (cInt r.arg1) (cInt r.arg2) (cInt r.arg3))

def monitorEpollCreate1 : Emulation := descriptor fun r ↦ pure (lindEpollCreate1 (cInt r.arg1))

def monitorEpollCreate : Emulation := descriptor fun r ↦ pure (lindEpollCreate (cInt r.arg1))

def monitorSocket : Emulation := descriptor fun r ↦
  pure (lindSocket (cInt r.arg1) (cInt r.arg2) (cInt r.arg3))

/-- The length is loaded through the tracee's pointer. -/
def monitorAccept : Emulation := descriptor fun r ↦ do
  let addr ← getMem 0 r.arg2 (BitVec.ofNat 64 sizeofSockaddr)
  lindAccept (cInt r.arg1) (.block addr) (.foreign r.arg3)

/-- A status, treated as a descriptor; the two descriptors are not copied back. -/
def monitorSocketpair : Emulation := fun r ↦ do
  let fds ← fetch (getMem 0 r.arg4 8)
  let (lindFd, _) ← lindCallInto
    (lindSocketpair (cInt r.arg1) (cInt r.arg2) (cInt r.arg3)) fds 8
  enterDescriptor r (some (-1, [])) lindFd

/-! ### Handlers of emulated calls: buffers copied back -/

/-- The buffer of `read` and `getdents`. -/
def bufferOutput (r : SyscallArgs) : Output := ⟨r.arg3.toNat, cInt r.arg3, r.arg2, r.arg3⟩

/-- A structure of `size` bytes, for the pointer `dst`. -/
def structOutput (size : ℕ) (dst : Word) : Output := ⟨size, size, dst, BitVec.ofNat 64 size⟩

/-- The buffer of `poll`: one entry, whatever the number the wrapper is given. -/
def pollOutput (r : SyscallArgs) : Output :=
  ⟨sizeofPollfd, cInt (BitVec.ofNat 64 sizeofPollfd * r.arg2), r.arg1,
    BitVec.ofNat 64 sizeofPollfd⟩

def monitorRead : Emulation := fun r ↦
  fill (bufferOutput r) fun _ ↦ pure (lindRead (cInt r.arg1) (cInt r.arg3))

def monitorGetdents : Emulation := fun r ↦
  fill (bufferOutput r) fun _ ↦ pure (lindGetdents (cInt r.arg1) (cInt r.arg3))

def monitorFstat : Emulation := fun r ↦
  fill (structOutput sizeofStat r.arg2) fun _ ↦ pure (lindFstat (cInt r.arg1))

def monitorStat : Emulation := fun r ↦
  fill (structOutput sizeofStat r.arg2) fun _ ↦ return lindStat (← getPath r.arg1)

def monitorStatfs : Emulation := fun r ↦
  fill (structOutput sizeofStatfs r.arg2) fun _ ↦ return lindStatfs (← getPath r.arg1)

def monitorFstatfs : Emulation := fun r ↦
  fill (structOutput sizeofStatfs r.arg2) fun _ ↦ pure (lindFstatfs (cInt r.arg1))

def monitorPoll : Emulation := fun r ↦
  fill (pollOutput r) fun lpfd ↦ lindPoll (.block lpfd) r.arg2 (cInt r.arg3)

def monitorEpollWait : Emulation := fun r ↦
  fill (structOutput sizeofEpollEvent r.arg2) fun _ ↦
    pure (lindEpollWait (cInt r.arg1) (cInt r.arg3) (cInt r.arg4))

/-- Copies back a buffer that nothing fills. -/
def monitorEpollCtl : Emulation := fun r ↦ do
  let event := malloc 0 sizeofEpollEvent
  let request ← fetch do
    let arg ← getMem 1 r.arg4 (BitVec.ofNat 64 sizeofEpollEvent)
    lindEpollCtl (cInt r.arg1) (cInt r.arg2) (cInt r.arg3) (.block arg)
  let ret ← lindCall request
  return some (ofInt ret, [⟨r.arg4, event, BitVec.ofNat 64 sizeofEpollEvent⟩])

/-- Leaves in `regs.arg3` the address of the monitor's copy of the length. -/
def monitorGetsockname : Emulation := fun r ↦ do
  let addrlen ← fetch (getMem 1 r.arg3 4)
  let env ← ask
  modify fun w ↦ { w with regs.arg3 := env.heapAddr addrlen.number }
  fillWith sizeofSockaddr r.arg2 (BitVec.ofNat 64 sizeofSockaddr) fun _ ↦
    lindGetsockname (cInt r.arg1) (.block addrlen)

/-- The length is loaded through the tracee's pointer. -/
def monitorGetsockopt : Emulation := fun r ↦
  fillWith sizeofSockaddr r.arg4 (BitVec.ofNat 64 sizeofSockaddr) fun _ ↦
    lindGetsockopt (cInt r.arg1) (cInt r.arg2) (cInt r.arg3) (.foreign r.arg5)

/-- The size of the second buffer is the tracee's pointer to a length. -/
def monitorRecvfrom : Emulation := fun r ↦ do
  let (ret, var, buff) ← lindRecvfrom (cInt r.arg1) (malloc 0 r.arg3.toNat) (cInt r.arg3)
    (cInt r.arg4) (malloc 1 r.arg6.toNat) r.arg6
  return some (ofInt ret, [⟨r.arg2, var, r.arg3⟩, ⟨r.arg5, buff, r.arg6⟩])

def monitorSelect : Emulation := fun r ↦ do
  let fdSet := BitVec.ofNat 64 sizeofFdSet
  let timeval := BitVec.ofNat 64 sizeofTimeval
  let set1 ← fetch (getMem 0 r.arg2 fdSet)
  let set2 ← fetch (getMem 1 r.arg3 fdSet)
  let set3 ← fetch (getMem 2 r.arg4 fdSet)
  let tv ← fetch (getMem 3 r.arg5 timeval)
  let (ret, set1, set2, set3, tv) ← lindSelect (cInt r.arg1) set1 set2 set3 tv
  return some (ofInt ret, [⟨r.arg2, set1, fdSet⟩, ⟨r.arg3, set2, fdSet⟩, ⟨r.arg4, set3, fdSet⟩,
    ⟨r.arg5, tv, timeval⟩])

/-! ### Handlers of emulated calls: messages -/

/-- What `monitor_recvmsg` and `monitor_sendmsg` read of the tracee's `struct msghdr`. -/
structure MsgView where
  name : Word
  namelen : Word
  iovlen : Word
  control : Word
  controllen : Word
  flags : ℤ
  iovs : Block
  deriving Inhabited

/-- The header and its vector. The address of the vector is taken from what `msg->msg_iov` points
at, a load through the tracee's pointer. -/
def readMsghdr (r : SyscallArgs) : Fetch MsgView := do
  let msg ← getMem 0 r.arg2 (BitVec.ofNat 64 sizeofMsghdr)
  let ⟨env, _⟩ ← ask
  let iovlen := msg.wordAt env 24
  let base ← loadForeign (msg.wordAt env 16) 8
  let iovs ← getMem 1 (wordOf fun i ↦ base.getD i 0) (BitVec.ofNat 64 sizeofIovec * iovlen)
  return {
    name := msg.wordAt env 0
    namelen := (msg.wordAt env 8).setWidth 32 |>.setWidth 64
    iovlen := iovlen
    control := msg.wordAt env 32
    controllen := msg.wordAt env 40
    flags := msg.intAt env 48
    iovs := iovs }

/-- `iovs[i].iov_base = ..` for every element: element `i` gets the address of block `6 + i`. -/
def patchBases (env : Env) (iovs : Block) (n : ℕ) : Fetch Block :=
  if iovs.cells.length + 8 < 16 * n then stop .corrupt
  else pure { iovs with
    cells := iovs.cells.mapIdx fun o c ↦
      if o / 16 < n ∧ o % 16 < 8 then .stored (byteOf (env.heapAddr (6 + o / 16)) (o % 16)) else c }

/-- The header handed on to the wrapper: a vector of the monitor's own buffers, and an uninitialised
name and control. -/
def handOn (v : MsgView) : Fetch MsgHdr := do
  let ⟨env, _⟩ ← ask
  let iovs ← patchBases env v.iovs v.iovlen.toNat
  return {
    name := malloc 2 v.namelen.toNat
    namelen := cInt v.namelen
    iov := iovs
    iovlen := v.iovlen
    control := malloc 3 v.controllen.toNat
    controllen := v.controllen
    flags := v.flags }

/-- The copies of `monitor_recvmsg`: name, control, and the buffers of the vector. -/
def recvmsgBacks (env : Env) (v : MsgView) : List CopyBack :=
  ⟨v.name, malloc 2 v.namelen.toNat, v.namelen⟩ ::
  ⟨v.control, malloc 3 v.controllen.toNat, v.controllen⟩ ::
  (List.range v.iovlen.toNat).map fun i : ℕ ↦
    ⟨v.iovs.wordAt env (16 * i), malloc (6 + i) (iovLen env v.iovs i).toNat, iovLen env v.iovs i⟩

def monitorRecvmsg : Emulation := fun r ↦ do
  let v ← fetch (readMsghdr r)
  let request ← fetch do
    lindRecvmsg (cInt r.arg1) (← handOn v) (cInt r.arg3)
  let ret ← lindCall request
  return some (ofInt ret, recvmsgBacks (← ask) v)

/-- The data of the first `n` elements, each read by `get_mem`. -/
def fetchData (v : MsgView) : ℕ → Fetch Unit
  | 0 => pure ()
  | i + 1 => do
    fetchData v i
    let ⟨env, _⟩ ← ask
    let _ ← getMem (6 + i) (v.iovs.wordAt env (16 * i)) (iovLen env v.iovs i)

def monitorSendmsg : Emulation := fun r ↦ status do
  let v ← readMsghdr r
  let msg ← handOn v
  fetchData v v.iovlen.toNat
  lindSendmsg (cInt r.arg1) msg (cInt r.arg3)

/-! ### Handlers of calls left to the host -/

/-- The handlers that only print. -/
def logged : M Unit := phased (pure ()) (pure ())

def monitorTgkill : M Unit := logged

def monitorGettid : M Unit := logged

def monitorMunmap : M Unit := logged

def monitorMprotect : M Unit := logged

def monitorBrk : M Unit := logged

/-- Prints under a condition. -/
def monitorArchPrctl : M Unit := logged

def monitorOs : M Unit := phased (pure ()) do
  record (.namesAt (← getRegs).syscall.toInt)

/-- The first loop of `monitor_execve`: the number of entries of `argv`, the null entry included.
The fuel is the number of values of its `int` index. -/
def argvCount (argv : Word) : (fuel i : ℕ) → Fetch ℕ
  | 0, _ => stop .intOverflow
  | fuel + 1, i => do
    let ⟨env, _⟩ ← ask
    let p ← getMem 0 (wordAddr argv i) 8
    if p.wordAt env 0 = 0 then return i + 1 else argvCount argv fuel (i + 1)

/-- The second loop of `monitor_execve`, over the first `n` entries. -/
def argvPaths (argv : Word) : ℕ → Fetch Unit
  | 0 => pure ()
  | i + 1 => do
    argvPaths argv i
    let ⟨env, _⟩ ← ask
    let p ← getMem 0 (wordAddr argv i) 8
    if p.wordAt env 0 = 0 then pure ()
    else
      let _ ← getPath (p.wordAt env 0)

def monitorExecve : M Unit := phased
  (do
    let r ← getRegs
    fetch do
      let _ ← getPath r.arg1
      let argc ← argvCount r.arg2 (2 ^ 31 - 1) 0
      argvPaths r.arg2 argc)
  (pure ())

/-- `get_mapping` on entry; the test is on the `long`, the argument an `int`. -/
def monitorMmap : M Unit := phased
  (do
    let r ← getRegs
    if 0 ≤ r.arg5.toInt then do
      let fd ← getMapping (cInt r.arg5)
      modify fun w ↦ { w with regs.arg5 := ofInt fd }
      setArgs
    else pure ())
  (pure ())

/-- Has no phases. -/
def monitorExitGroup : M Unit := pure ()

/-- Has no phases. -/
def monitorExit : M Unit := pure ()

/-- Ends the monitor on entry. -/
def monitorDeny : M Unit := phased
  (do
    setRetval einval
    setArgs
    record (.namesAt (← getRegs).syscall.toInt)
    stop (.exit 1))
  (do record (.namesAt (← getRegs).syscall.toInt))

end ReferenceMonitor
