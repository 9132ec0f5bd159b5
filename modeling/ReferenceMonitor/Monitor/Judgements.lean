import ReferenceMonitor.Monitor.HostCalls
import ReferenceMonitor.Platform.Positional

/-!
# Judgements that hold of every handler

The bodies of the handlers are walked through here once, for every judgement that goes along with
sequencing. `Fetches` lists what reading code is put together from, and `Handles` what the handlers
are: a judgement that holds of these few things holds of every handler.
-/

namespace ReferenceMonitor

open Halting

/-- An end of the monitor that is not a call of `exit`. -/
def Halt.IsFault : Halt → Prop
  | exit _ => False
  | _ => True

/-- The loop of `get_path` gives up for a fault. -/
theorem isFault_of_pathLoop {m : ByteMemory} {addr : Word} {fuel i len : ℕ} {buffer : List Byte}
    {e : Halt} (he : pathLoop m addr fuel i len buffer = .error e) : e.IsFault := by
  induction fuel generalizing i len buffer with
  | zero =>
    cases he
    trivial
  | succ fuel ih =>
    unfold pathLoop at he
    dsimp only at he
    split_ifs at he with hroom hzero
    all_goals first | exact ih he | (cases he; trivial)

/-- The sum of the lengths of a vector overflows or is there. -/
theorem isFault_of_totalLength {len : ℕ → ℤ} {n : ℕ} {e : Halt}
    (he : totalLength len n = .error e) : e.IsFault := by
  induction n with
  | zero => cases he
  | succ n ih =>
    rw [totalLength] at he
    cases ht : totalLength len n with
    | error e' =>
      rw [ht] at he
      cases he
      exact ih ht
    | ok total =>
      rw [ht] at he
      change (if _ then _ else _) = _ at he
      split_ifs at he
      · cases he
        trivial
      · cases he

/-! ### Reading code -/

/-- The judgement holds of what reading code is put together from: it may note an address, and make
a fault. -/
structure Fetches (J : ∀ α : Type, Fetch α → Prop) : Prop extends Compositional J where
  note : ∀ a, J Unit (noteForeign a)
  fault : ∀ {α : Type} {e : Halt}, e.IsFault → J α (stop e)

/-- Any reading code will do. -/
theorem fetches_true : Fetches fun _ _ ↦ True where
  pure _ := trivial
  ask := trivial
  bind _ _ := trivial
  note _ := trivial
  fault _ := trivial

section Reading

variable {J : ∀ α : Type, Fetch α → Prop} (h : Fetches J)

include h

theorem fetches_getMem (number : ℕ) (addr count : Word) : J _ (getMem number addr count) :=
  h.bind h.ask fun _ ↦ h.ite (h.fault trivial) (h.pure _)

theorem fetches_getPath (addr : Word) : J _ (getPath addr) := by
  refine h.bind h.ask fun ⟨_, m⟩ ↦ ?_
  dsimp only
  split
  · exact h.pure _
  · exact h.fault (isFault_of_pathLoop ‹_›)

theorem fetches_loadOwn (a : Word) (n : ℕ) : J _ (loadOwn a n) := by
  refine h.bind h.ask fun ⟨_, _⟩ ↦ ?_
  dsimp only
  split
  · exact h.pure _
  · exact h.fault trivial

theorem fetches_stringOwn (a : Word) : J _ (stringOwn a) := by
  refine h.bind h.ask fun ⟨_, _⟩ ↦ ?_
  dsimp only
  split
  · exact h.pure _
  · exact h.fault trivial

theorem fetches_loadForeign (a : Word) (n : ℕ) : J _ (loadForeign a n) :=
  h.bind (h.note a) fun _ ↦ fetches_loadOwn h a n

theorem fetches_pyBytes (p : Ptr) (n : ℤ) : J _ (pyBytes p n) := by
  refine h.bind h.ask fun _ ↦ ?_
  cases p with
  | block b => exact h.ite (h.pure _) (h.pure _)
  | foreign a =>
    refine h.ite (h.pure _) (h.ite (h.pure _) (h.ite ?_ ?_))
    · exact h.bind (fetches_loadForeign h _ _) fun _ ↦ h.pure _
    · exact h.bind (h.note _) fun _ ↦ h.bind (fetches_stringOwn h _) fun _ ↦ h.pure _
  | stray a =>
    refine h.ite (h.pure _) (h.ite ?_ ?_)
    · exact h.bind (fetches_loadOwn h _ _) fun _ ↦ h.pure _
    · exact h.bind (fetches_stringOwn h _) fun _ ↦ h.pure _

theorem fetches_derefSocklen (p : Ptr) : J _ (derefSocklen p) := by
  cases p with
  | block b => exact h.bind h.ask fun _ ↦ h.pure _
  | foreign a => exact h.bind (fetches_loadForeign h a 4) fun _ ↦ h.pure _
  | stray a => exact h.bind (fetches_loadOwn h a 4) fun _ ↦ h.pure _

/-- A request with one buffer in it. -/
theorem fetches_withBytes {p : Ptr} {n : ℤ} {f : PyVal → Request} :
    J _ (do return f (← pyBytes p n)) := h.bind (fetches_pyBytes h p n) fun _ ↦ h.pure _

/-- A request with one path in it. -/
theorem fetches_withPath {addr : Word} {f : List Byte → Request} :
    J _ (do return f (← getPath addr)) := h.bind (fetches_getPath h addr) fun _ ↦ h.pure _

theorem fetches_lindFcntl (fd cmd : ℤ) : J _ (lindFcntl fd cmd) :=
  h.bind h.ask fun _ ↦ h.ite (h.pure _) (h.ite (fetches_withBytes h) (h.pure _))

theorem fetches_lindSendto (sockfd : ℤ) (buf : Ptr) (len : ℤ) (addr : Ptr) (addrlen : ℤ) :
    J _ (lindSendto sockfd buf len addr addrlen) :=
  h.bind (fetches_pyBytes h _ _) fun _ ↦ fetches_withBytes h

theorem fetches_lindAccept (sockfd : ℤ) (addr addrlen : Ptr) :
    J _ (lindAccept sockfd addr addrlen) :=
  h.bind (fetches_derefSocklen h _) fun _ ↦ fetches_withBytes h

theorem fetches_lindPoll (fds : Ptr) (nfds : Word) (timeout : ℤ) :
    J _ (lindPoll fds nfds timeout) := fetches_withBytes h

theorem fetches_concatLoop (iov : Block) (size known rounds i : ℕ) (final : ℤ) :
    J _ (concatLoop iov size known rounds i final) := by
  induction rounds generalizing i final with
  | zero => exact h.pure _
  | succ rounds ih =>
    refine h.bind h.ask fun _ ↦ h.ite (ih _ _) (h.ite ?_ ?_)
    · exact h.ite (ih _ _) (h.fault trivial)
    · exact h.bind (fetches_loadOwn h _ _) fun _ ↦ h.ite (ih _ _) (h.fault trivial)

theorem fetches_packIov (iov : Block) (iovlen : Word) : J _ (packIov iov iovlen) := by
  refine h.bind h.ask fun _ ↦ h.ite (h.fault trivial) ?_
  split
  · exact h.fault (isFault_of_totalLength ‹_›)
  · exact h.bind (fetches_concatLoop h _ _ _ _ _ _) fun _ ↦ h.pure _

theorem fetches_msgRequest (num : ℕ) (sockfd : ℤ) (msg : MsgHdr) (flags : ℤ) :
    J _ (msgRequest num sockfd msg flags) :=
  h.bind h.ask fun _ ↦ h.bind (fetches_packIov h _ _) fun _ ↦ h.bind (fetches_pyBytes h _ _) fun _ ↦
    fetches_withBytes h

theorem fetches_readMsghdr (r : SyscallArgs) : J _ (readMsghdr r) :=
  h.bind (fetches_getMem h _ _ _) fun _ ↦ h.bind h.ask fun _ ↦
    h.bind (fetches_loadForeign h _ _) fun _ ↦ h.bind (fetches_getMem h _ _ _) fun _ ↦ h.pure _

theorem fetches_handOn (v : MsgView) : J _ (handOn v) :=
  h.bind h.ask fun _ ↦ h.bind (h.ite (h.fault trivial) (h.pure _)) fun _ ↦ h.pure _

theorem fetches_fetchData (v : MsgView) (n : ℕ) : J _ (fetchData v n) := by
  induction n with
  | zero => exact h.pure _
  | succ n ih =>
    exact h.bind ih fun _ ↦ h.bind h.ask fun _ ↦ h.bind (fetches_getMem h _ _ _) fun _ ↦ h.pure _

theorem fetches_argvCount (argv : Word) (fuel i : ℕ) : J _ (argvCount argv fuel i) := by
  induction fuel generalizing i with
  | zero => exact h.fault trivial
  | succ fuel ih =>
    exact h.bind h.ask fun _ ↦ h.bind (fetches_getMem h _ _ _) fun _ ↦ h.ite (h.pure _) (ih _)

theorem fetches_argvPaths (argv : Word) (n : ℕ) : J _ (argvPaths argv n) := by
  induction n with
  | zero => exact h.pure _
  | succ n ih =>
    exact h.bind ih fun _ ↦ h.bind h.ask fun _ ↦ h.bind (fetches_getMem h _ _ _) fun _ ↦
      h.ite (h.pure _) (h.bind (fetches_getPath h _) fun _ ↦ h.pure _)

/-! Copying a response to its destinations. -/

theorem fetches_copyData (dst : Ptr) (src : ℤ → Byte) (maxlen srclen : ℤ) :
    J _ (copyData dst src maxlen srclen) := by
  refine h.ite (h.pure _) ?_
  cases dst with
  | block b => exact h.ite (h.pure _) (h.fault trivial)
  | foreign a => exact h.bind (h.note a) fun _ ↦ h.fault trivial
  | stray a => exact h.fault trivial

theorem fetches_copyMultiLoop (src : ℤ → Byte) (rounds i : ℕ) (offset : ℤ) (varg : List Dest) :
    J _ (copyMultiLoop src rounds i offset varg) := by
  induction rounds generalizing i offset varg with
  | zero => exact h.pure _
  | succ rounds ih =>
    cases varg with
    | nil => exact h.fault trivial
    | cons d varg =>
      exact h.bind (fetches_copyData h _ _ _ _) fun _ ↦ h.ite (h.fault trivial)
        (h.bind (ih _ _ _) fun _ ↦ h.pure _)

theorem fetches_copyPayload (num : ℕ) (data : List Byte) (varg : List Dest) :
    J _ (copyPayload num data varg) := by
  refine h.bind h.ask fun _ ↦ h.ite ?_ (h.ite (fetches_copyMultiLoop h _ _ _ _ _) (h.pure _))
  cases varg with
  | nil => exact h.fault trivial
  | cons d rest => exact h.bind (fetches_copyData h _ _ _ _) fun _ ↦ h.pure _

end Reading

/-! ### Handlers -/

/-- The judgement `J` holds of what handlers are put together from, reading code of which `Q` holds
included. -/
structure Handles (Q : ∀ α : Type, Fetch α → Prop) (J : ∀ α : Type, M α → Prop) : Prop
    extends Compositional J where
  reads : Fetches Q
  fetch : ∀ {α : Type} {q : Fetch α}, Q α q → J α (fetch q)
  fault : ∀ {α : Type} {e : Halt}, e.IsFault → J α (stop e)
  send : ∀ r, J _ (makeLindSysCall r)
  setErrno : ∀ v, J Unit (setErrno v)
  addMapping : ∀ src dest, J Unit (addMapping src dest)
  getMapping : ∀ fd, J ℤ (getMapping fd)
  name : ∀ i, J Unit (record (.namesAt i))
  getRegs : J _ getRegs
  setRetval : ∀ v, J Unit (setRetval v)
  setArg3 : ∀ v, J Unit (modify fun w ↦ { w with regs.arg3 := v })
  setArg5 : ∀ v, J Unit (modify fun w ↦ { w with regs.arg5 := v })
  setArgs : J Unit setArgs
  setMem : ∀ addr b count, J Unit (setMem addr b count)
  phased : ∀ {enter leave : M Unit}, J _ enter → J _ leave → J _ (phased enter leave)

section Handlers

variable {Q : ∀ α : Type, Fetch α → Prop} {J : ∀ α : Type, M α → Prop} (h : Handles Q J)

include h

theorem handles_parseResponse (response : Option Response) (num : ℕ) (varg : List Dest) :
    J _ (parseResponse response num varg) := by
  unfold parseResponse
  split
  · exact h.fault trivial
  · split
    · exact h.pure _
    · exact h.bind (h.setErrno _) fun _ ↦ h.pure _
    · exact h.bind (h.setErrno _) fun _ ↦
        h.bind (h.fetch (fetches_copyPayload h.reads _ _ _)) fun _ ↦ h.pure _

theorem handles_lindCall (r : Request) : J _ (lindCall r) :=
  h.bind (h.send r) fun _ ↦ h.bind (handles_parseResponse h _ _ _) fun _ ↦ h.pure _

theorem handles_lindCallInto (r : Request) (b : Block) (maxlen : ℤ) :
    J _ (lindCallInto r b maxlen) :=
  h.bind (h.send r) fun _ ↦ h.bind (handles_parseResponse h _ _ _) fun _ ↦ h.pure _

theorem handles_lindLseek (fd : ℤ) (offset : Word) (whence : ℤ) :
    J _ (lindLseek fd offset whence) :=
  h.bind (handles_lindCallInto h _ _ _) fun _ ↦
    h.ite (h.pure _) (h.bind h.ask fun _ ↦ h.pure _)

/-- A transfer at a position, between the requests that change it. -/
theorem handles_positioned {α : Type} {fd : ℤ} {offset : Word} {x : M α} (hx : J _ x) :
    J _ (positioned fd offset x) :=
  h.bind (handles_lindLseek h _ _ _) fun _ ↦ h.bind (handles_lindLseek h _ _ _) fun _ ↦
    h.bind hx fun _ ↦ h.bind (handles_lindLseek h _ _ _) fun _ ↦ h.pure _

/-! Emulations. -/

theorem handles_status {q : Fetch Request} (hq : Q _ q) : J _ (status q) :=
  h.bind (h.fetch hq) fun _ ↦ h.bind (handles_lindCall h _) fun _ ↦ h.pure _

theorem handles_enterDescriptor (r : SyscallArgs) (otherwise : Option (Word × List CopyBack))
    (fd : ℤ) : J _ (enterDescriptor r otherwise fd) :=
  h.ite (h.bind (h.addMapping _ _) fun _ ↦ h.pure _) (h.pure _)

theorem handles_descriptor {q : SyscallArgs → Fetch Request} {r : SyscallArgs} (hq : Q _ (q r)) :
    J _ (descriptor q r) :=
  h.bind (h.fetch hq) fun _ ↦ h.bind (handles_lindCall h _) fun _ ↦
    handles_enterDescriptor h _ _ _

theorem handles_fillWith {size : ℕ} {dst count : Word} {q : Block → Fetch (Request × ℤ)}
    (hq : ∀ b, Q _ (q b)) : J _ (fillWith size dst count q) :=
  h.bind (h.fetch (hq _)) fun _ ↦ h.bind (handles_lindCallInto h _ _ _) fun _ ↦ h.pure _

theorem handles_fill {o : Output} {q : Block → Fetch Request} (hq : ∀ b, Q _ (q b)) :
    J _ (fill o q) := handles_fillWith h fun b ↦ h.reads.bind (hq b) fun _ ↦ h.reads.pure _

theorem handles_monitorSelect (r : SyscallArgs) : J _ (monitorSelect r) := by
  have hread (number : ℕ) (addr count : Word) : J _ (fetch (getMem number addr count)) :=
    h.fetch (fetches_getMem h.reads _ _ _)
  exact h.bind (hread _ _ _) fun _ ↦ h.bind (hread _ _ _) fun _ ↦ h.bind (hread _ _ _) fun _ ↦
    h.bind (hread _ _ _) fun _ ↦ h.bind (h.bind h.ask fun _ ↦
      h.bind (handles_lindCallInto h _ _ _) fun _ ↦ h.ite (h.pure _) (h.pure _)) fun _ ↦ h.pure _

theorem handles_emulation (c : LindCall) (r : SyscallArgs) : J _ (c.emulation r) := by
  have hr := h.reads
  cases c with
  | getuid | getpid | geteuid | getgid | getegid | flock | listen | shutdown =>
    exact handles_status h (hr.pure _)
  | rmdir | unlink | mkdir | chdir => exact handles_status h (fetches_withPath hr)
  | link => exact handles_status h (hr.bind (fetches_getPath hr _) fun _ ↦ fetches_withPath hr)
  | fcntl => exact handles_status h (fetches_lindFcntl hr _ _)
  | write | bind | connect | setsockopt =>
    exact handles_status h (hr.bind (fetches_getMem hr _ _ _) fun _ ↦ fetches_withBytes hr)
  | sendto =>
    exact handles_status h (hr.bind (fetches_getMem hr _ _ _) fun _ ↦
      hr.bind (fetches_getMem hr _ _ _) fun _ ↦ fetches_lindSendto hr _ _ _ _ _)
  | sendmsg =>
    exact handles_status h (hr.bind (fetches_readMsghdr hr _) fun _ ↦
      hr.bind (fetches_handOn hr _) fun _ ↦ hr.bind (fetches_fetchData hr _ _) fun _ ↦
        fetches_msgRequest hr _ _ _ _)
  | close => exact h.ite (handles_status h (hr.pure _)) (h.pure _)
  | getcwd => exact h.bind (h.fetch (fetches_getPath hr _)) fun _ ↦ h.pure _
  | getpeername => exact h.pure _
  | lseek => exact h.bind (handles_lindLseek h _ _ _) fun _ ↦ h.pure _
  | pread64 =>
    exact h.bind (h.fetch (fetches_getMem hr _ _ _)) fun _ ↦
      h.bind (handles_positioned h (handles_lindCallInto h _ _ _)) fun _ ↦ h.pure _
  | pwritev =>
    refine h.bind (h.fetch (fetches_getMem hr _ _ _)) fun data ↦ ?_
    rw [lindPwrite_eq_positioned]
    exact h.bind (handles_positioned h (h.bind (h.fetch (fetches_withBytes hr)) fun _ ↦
      handles_lindCall h _)) fun _ ↦ h.pure _
  | «open» =>
    exact h.bind (h.fetch (fetches_getPath hr _)) fun _ ↦ h.bind (handles_lindCall h _) fun _ ↦
      handles_enterDescriptor h _ _ _
  | openat | access =>
    rw [LindCall.emulation]
    exact handles_descriptor h (fetches_withPath hr)
  | dup | dup2 | dup3 | epoll_create | epoll_create1 | socket =>
    rw [LindCall.emulation]
    exact handles_descriptor h (hr.pure _)
  | accept =>
    rw [LindCall.emulation]
    exact handles_descriptor h (hr.bind (fetches_getMem hr _ _ _) fun _ ↦
      fetches_lindAccept hr _ _ _)
  | socketpair =>
    exact h.bind (h.fetch (fetches_getMem hr _ _ _)) fun _ ↦
      h.bind (handles_lindCallInto h _ _ _) fun _ ↦ handles_enterDescriptor h _ _ _
  | read | getdents | fstat | fstatfs | epoll_wait => exact handles_fill h fun _ ↦ hr.pure _
  | stat | statfs => exact handles_fill h fun _ ↦ fetches_withPath hr
  | poll => exact handles_fill h fun _ ↦ fetches_lindPoll hr _ _ _
  | epoll_ctl =>
    exact h.bind (h.fetch (hr.bind (fetches_getMem hr _ _ _) fun _ ↦ fetches_withBytes hr)) fun _ ↦
      h.bind (handles_lindCall h _) fun _ ↦ h.pure _
  | getsockname =>
    exact h.bind (h.fetch (fetches_getMem hr _ _ _)) fun _ ↦ h.bind h.ask fun _ ↦
      h.bind (h.setArg3 _) fun _ ↦
        handles_fillWith h fun _ ↦ hr.bind (fetches_derefSocklen hr _) fun _ ↦ hr.pure _
  | getsockopt =>
    rw [LindCall.emulation]
    exact handles_fillWith h fun _ ↦ hr.bind (fetches_derefSocklen hr _) fun _ ↦ hr.pure _
  | recvfrom =>
    exact h.bind (h.bind (h.send _) fun _ ↦ h.bind (handles_parseResponse h _ _ _) fun _ ↦
      h.pure _) fun _ ↦ h.pure _
  | recvmsg =>
    exact h.bind (h.fetch (fetches_readMsghdr hr _)) fun _ ↦
      h.bind (h.fetch (hr.bind (fetches_handOn hr _) fun _ ↦ fetches_msgRequest hr _ _ _ _)) fun _ ↦
        h.bind (handles_lindCall h _) fun _ ↦ h.bind h.ask fun _ ↦ h.pure _
  | select => exact handles_monitorSelect h r

theorem handles_emulationOf (n : ℤ) (r : SyscallArgs) : J _ (emulationOf n r) := by
  unfold emulationOf
  cases LindCall.ofNr n with
  | some c => exact handles_emulation h c r
  | none => exact h.bind (h.name _) fun _ ↦ h.pure _

theorem handles_finish (res : Option (Word × List CopyBack)) : J _ (finish res) := by
  have hbacks (bs : List CopyBack) : J _ (copyBacks bs) := by
    induction bs with
    | nil => exact h.pure _
    | cons b bs ih => exact h.bind (h.setMem _ _ _) fun _ ↦ ih
  cases res with
  | none => exact h.pure _
  | some p => exact h.bind (h.setRetval _) fun _ ↦ h.bind (hbacks _) fun _ ↦ h.setArgs

theorem handles_emulated {e : Emulation} (he : ∀ r, J _ (e r)) : J _ (emulated e) :=
  h.phased (h.pure _) (h.bind h.getRegs fun r ↦ h.bind (he r) fun res ↦ handles_finish h res)

/-- The handlers of calls left to the host. -/
theorem handles_osHandlerOf (n : ℤ) : J _ (osHandlerOf n) := by
  unfold osHandlerOf
  cases OsCall.ofNr n with
  | none => exact h.phased (h.pure _) (h.bind h.getRegs fun _ ↦ h.name _)
  | some c =>
    cases c with
    | exit | exit_group => exact h.pure _
    | tgkill | arch_prctl | munmap | mprotect | gettid | brk => exact h.phased (h.pure _) (h.pure _)
    | getcwd => exact handles_emulated h fun r ↦ handles_emulation h .getcwd r
    | mmap =>
      exact h.phased (h.bind h.getRegs fun _ ↦ h.ite (h.bind (h.getMapping _) fun _ ↦
        h.bind (h.setArg5 _) fun _ ↦ h.setArgs) (h.pure _)) (h.pure _)
    | execve =>
      exact h.phased (h.bind h.getRegs fun _ ↦ h.fetch (h.reads.bind (fetches_getPath h.reads _)
        fun _ ↦ h.reads.bind (fetches_argvCount h.reads _ _ _) fun _ ↦
          fetches_argvPaths h.reads _ _)) (h.pure _)

/-- `monitor_deny` alone calls `exit`. -/
theorem handles_monitorDeny (hexit : J Unit (stop (.exit 1))) : J _ monitorDeny :=
  h.phased
    (h.bind (h.setRetval _) fun _ ↦ h.bind h.setArgs fun _ ↦ h.bind h.getRegs fun _ ↦
      h.bind (h.name _) fun _ ↦ hexit)
    (h.bind h.getRegs fun _ ↦ h.name _)

end Handlers

end ReferenceMonitor
