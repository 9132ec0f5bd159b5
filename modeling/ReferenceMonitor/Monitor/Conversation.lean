import ReferenceMonitor.Monitor.Intercept
import ReferenceMonitor.Platform.Forms
import ReferenceMonitor.Platform.Positional

/-!
# What an emulated call says to Lind

`LindCall.forms` lists the requests an emulated call sends, in order, as far as the registers of
the tracee determine them. It is the protocol between the monitor and Lind from the side of Lind: a
close of a negative descriptor, `getcwd` and `getpeername` are not heard of, `pread64` and `pwritev`
are four requests, and everything else is one.

`sends_emulation` says that every emulation keeps to it: it sends the requests of its plan in their
order, and no other, and where it ends early it has sent an initial part of them.
-/

namespace ReferenceMonitor

open Halting

/-- Nothing is sent to Lind. -/
abbrev AsksNothing {α : Type} (x : M α) : Prop := Keeps (SameLog World.requests) x

/-- The requests sent follow the plan. -/
abbrev Sends {α : Type} (plan : List Form) (x : M α) : Prop :=
  Writes World.requests Form.Admits plan x

/-! ### The protocol -/

/-- The requests of `lind_pread` and `lind_pwrite` around their transfer: the position is asked for
and changed, and set to whatever the first answer gave. -/
def positionedForms (fd offset : Word) (transfer : Form) : List Form :=
  let lseek (offset : Arg) (whence : ℤ) : Form :=
    ⟨LIND_safe_fs_lseek, [offset, .int (cInt fd), .int whence]⟩
  [lseek (.int 0) 1, lseek (.int (cInt offset)) 0, transfer, lseek .anyInt 0]

/-- The requests of an emulated call. -/
def LindCall.forms (r : SyscallArgs) : LindCall → List Form :=
  let a1 : Arg := .int (cInt r.arg1)
  let a2 : Arg := .int (cInt r.arg2)
  let a3 : Arg := .int (cInt r.arg3)
  let a4 : Arg := .int (cInt r.arg4)
  let a5 : Arg := .int (cInt r.arg5)
  fun
  | getcwd | getpeername => []
  | close => if 0 ≤ cInt r.arg1 then [⟨LIND_safe_fs_close, [a1]⟩] else []
  | getuid => [⟨LIND_safe_sys_getuid, []⟩]
  | getpid => [⟨LIND_sys_getpid, []⟩]
  | geteuid => [⟨LIND_safe_sys_geteuid, []⟩]
  | getgid => [⟨LIND_safe_sys_getgid, []⟩]
  | getegid => [⟨LIND_safe_sys_getegid, []⟩]
  | rmdir => [⟨LIND_safe_fs_rmdir, [.path]⟩]
  | unlink => [⟨LIND_safe_fs_unlink, [.path]⟩]
  | link => [⟨LIND_safe_fs_link, [.path, .path]⟩]
  | mkdir => [⟨LIND_safe_fs_mkdir, [a2, .path]⟩]
  | chdir => [⟨LIND_safe_fs_chdir, [.path]⟩]
  | .open => [⟨LIND_safe_fs_open, [.path, a2, a3]⟩]
  | openat => [⟨LIND_safe_fs_openat, [a1, .path, a3, a4]⟩]
  | access => [⟨LIND_safe_fs_access, [.path, a2]⟩]
  | stat => [⟨LIND_safe_fs_xstat, [.int 1, .path]⟩]
  | statfs => [⟨LIND_safe_fs_statfs, [.path]⟩]
  | fstat => [⟨LIND_safe_fs_fxstat, [a1, .int 1]⟩]
  | fstatfs => [⟨LIND_safe_fs_fstatfs, [a1]⟩]
  | dup => [⟨LIND_safe_fs_dup, [a1]⟩]
  | dup2 => [⟨LIND_safe_fs_dup2, [a1, a2]⟩]
  | dup3 => [⟨LIND_safe_fs_dup3, [a1, a2, a3]⟩]
  | fcntl => [fcntlForm (cInt r.arg1) (cInt r.arg2)]
  | flock => [⟨LIND_safe_fs_flock, [a1, a2]⟩]
  | read => [⟨LIND_safe_fs_read, [a1, a3]⟩]
  | getdents => [⟨LIND_safe_fs_getdents, [a1, a3]⟩]
  | write => [⟨LIND_safe_fs_write, [a1, .bytes (cInt r.arg3)]⟩]
  | lseek => [⟨LIND_safe_fs_lseek, [a2, a1, a3]⟩]
  | pread64 => positionedForms r.arg1 r.arg4 ⟨LIND_safe_fs_read, [a1, a3]⟩
  | pwritev =>
    positionedForms r.arg1 r.arg4 ⟨LIND_safe_fs_write, [a1, .bytes (cInt r.arg3)]⟩
  | socket => [⟨LIND_safe_net_socket, [a1, a2, a3]⟩]
  | socketpair => [⟨LIND_safe_net_socketpair, [a1, a2, a3]⟩]
  | listen => [⟨LIND_safe_net_listen, [a1, a2]⟩]
  | shutdown => [⟨LIND_safe_net_shutdown, [a1, a2]⟩]
  | bind => [⟨LIND_safe_net_bind, [a1, a3, .bytes (cInt r.arg3)]⟩]
  | connect => [⟨LIND_safe_net_connect, [a1, a3, .bytes (cInt r.arg3)]⟩]
  | accept => [⟨LIND_safe_net_accept, [a1, .string]⟩]
  | sendto =>
    [⟨LIND_safe_net_sendto, [a1, a3, a5, .bytes (cInt r.arg5), .bytes (cInt r.arg3)]⟩]
  | recvfrom => [⟨LIND_safe_net_recvfrom, [a1, a3, a4, .int (cInt r.arg6)]⟩]
  | sendmsg => [msgForm LIND_safe_net_sendmsg (cInt r.arg1) (cInt r.arg3)]
  | recvmsg => [msgForm LIND_safe_net_recvmsg (cInt r.arg1) (cInt r.arg3)]
  | getsockname => [⟨LIND_safe_net_getsockname, [a1, .anyInt]⟩]
  | getsockopt => [⟨LIND_safe_net_getsockopt, [a1, a2, a3]⟩]
  | setsockopt => [⟨LIND_safe_net_setsockopt, [a1, a2, a3, .bytes (cInt r.arg5), a5]⟩]
  | select =>
    [⟨LIND_safe_net_select,
      [a1, .bytes sizeofFdSet, .bytes sizeofFdSet, .bytes sizeofFdSet, .bytes sizeofTimeval]⟩]
  | poll =>
    [⟨LIND_safe_net_poll, [a2, a3, .bytes (cInt (BitVec.ofNat 64 sizeofPollfd * r.arg2))]⟩]
  | epoll_create => [⟨LIND_safe_net_epoll_create, [a1]⟩]
  | epoll_create1 => [⟨LIND_safe_net_epoll_create1, [a1]⟩]
  | epoll_ctl => [⟨LIND_safe_net_epoll_ctl, [a1, a2, a3, .bytes sizeofEpollEvent]⟩]
  | epoll_wait => [⟨LIND_safe_net_epoll_wait, [a1, a3, a4]⟩]

/-! ### What the wrappers send -/

theorem asksNothing_fetch {α : Type} (q : Fetch α) : AsksNothing (fetch q) :=
  keeps_focus q fun _ _ ↦ rfl

theorem asksNothing_setErrno (v : ℤ) : AsksNothing (setErrno v) := keeps_modify fun _ ↦ rfl

theorem asksNothing_addMapping (src dest : ℤ) : AsksNothing (addMapping src dest) :=
  (keeps_pure _).ite (keeps_modify fun _ ↦ rfl)

theorem asksNothing_parseResponse (response : Option Response) (num : ℕ) (varg : List Dest) :
    AsksNothing (parseResponse response num varg) := by
  unfold parseResponse
  split
  · exact keeps_stop _
  · split
    · exact keeps_pure _
    · exact (asksNothing_setErrno _).bind fun _ ↦ keeps_pure _
    · exact (asksNothing_setErrno _).bind fun _ ↦ (asksNothing_fetch _).bind fun _ ↦ keeps_pure _

section Wrappers

variable {form : Form} {req : Request}

theorem sends_makeLindSysCall (h : form.Admits req) : Sends [form] (makeLindSysCall req) := by
  have hsend : Sends [form] (Halting.modify (World.send req)) := writes_modify (fun _ ↦ rfl) h
  exact hsend.bind_keeps fun _ ↦ keeps_ask.bind fun _ ↦ keeps_get.bind fun _ ↦ keeps_pure _

theorem sends_lindCall (h : form.Admits req) : Sends [form] (lindCall req) :=
  (sends_makeLindSysCall h).bind_keeps fun _ ↦
    (asksNothing_parseResponse _ _ _).bind fun _ ↦ keeps_pure _

theorem sends_lindCallInto (h : form.Admits req) (buf : Block) (maxlen : ℤ) :
    Sends [form] (lindCallInto req buf maxlen) :=
  (sends_makeLindSysCall h).bind_keeps fun _ ↦
    (asksNothing_parseResponse _ _ _).bind fun _ ↦ keeps_pure _

theorem sends_lindLseek {offset : Arg} (fd : Word) {o : Word} {whence : ℤ}
    (ho : offset.Admits (.int (cInt o))) (hw : IsInt whence) :
    Sends [⟨LIND_safe_fs_lseek, [offset, .int (cInt fd), .int whence]⟩]
      (lindLseek (cInt fd) o whence) := by
  have hreq : Form.Admits ⟨LIND_safe_fs_lseek, [offset, .int (cInt fd), .int whence]⟩
      ⟨LIND_safe_fs_lseek, [.int (cInt o), .int (cInt fd), .int whence]⟩ :=
    ⟨rfl, .cons ho (.cons (admits_cInt fd) (.cons ⟨rfl, hw⟩ .nil))⟩
  exact (sends_lindCallInto hreq _ _).bind_keeps fun _ ↦
    (keeps_pure _).ite (keeps_ask.bind fun _ ↦ keeps_pure _)

/-- The four requests of a positional transfer. -/
theorem sends_positioned {α : Type} (fd offset : Word) {transfer : Form} {x : M α}
    (hx : Sends [transfer] x) :
    Sends (positionedForms fd offset transfer) (positioned (cInt fd) offset x) := by
  have hzero : (Arg.int 0).Admits (.int (cInt 0)) := admits_cInt 0
  have hset : IsInt 0 := ⟨by decide, by decide⟩
  exact (sends_lindLseek fd hzero ⟨by decide, by decide⟩).bind fun curPos ↦
    (sends_lindLseek fd (admits_cInt offset) hset).bind fun _ ↦
      hx.bind fun _ ↦ (sends_lindLseek fd (admits_anyInt curPos) hset).bind_keeps fun _ ↦
        keeps_pure _

end Wrappers

/-! ### What the families of emulations send -/

section Families

variable {form : Form}

theorem sends_status {q : Fetch Request} (hq : Yields form.Admits q) : Sends [form] (status q) :=
  (asksNothing_fetch q).bind_writes (yields_focus hq) fun _ h ↦
    (sends_lindCall h).bind_keeps fun _ ↦ keeps_pure _

theorem asksNothing_enterDescriptor (r : SyscallArgs) (otherwise : Option (Word × List CopyBack))
    (fd : ℤ) : AsksNothing (enterDescriptor r otherwise fd) :=
  ((asksNothing_addMapping _ _).bind fun _ ↦ keeps_pure _).ite (keeps_pure _)

theorem sends_enter {req : Request} (h : form.Admits req) (r : SyscallArgs)
    (otherwise : Option (Word × List CopyBack)) :
    Sends [form] (lindCall req >>= enterDescriptor r otherwise) :=
  (sends_lindCall h).bind_keeps fun _ ↦ asksNothing_enterDescriptor r otherwise _

theorem sends_descriptor {q : SyscallArgs → Fetch Request} (r : SyscallArgs)
    (hq : Yields form.Admits (q r)) : Sends [form] (descriptor q r) :=
  (asksNothing_fetch (q r)).bind_writes (yields_focus hq) fun _ h ↦ sends_enter h r _

theorem sends_fillWith {size : ℕ} {dst count : Word} {q : Block → Fetch (Request × ℤ)}
    (hq : ∀ b, Yields (fun p ↦ form.Admits p.1) (q b)) : Sends [form] (fillWith size dst count q) :=
  (asksNothing_fetch _).bind_writes (yields_focus (hq _)) fun _ h ↦
    (sends_lindCallInto h _ _).bind_keeps fun _ ↦ keeps_pure _

theorem sends_fill {o : Output} {q : Block → Fetch Request}
    (hq : ∀ b, Yields form.Admits (q b)) : Sends [form] (fill o q) :=
  sends_fillWith fun b ↦ (hq b).bind fun _ h ↦ yields_pure h

end Families

/-! ### What every emulation sends -/

/-- A request that depends on nothing the tracee's memory holds. -/
theorem sends_status_pure {form : Form} {req : Request} (h : form.Admits req) :
    Sends [form] (status (pure req)) := sends_status (yields_pure h)

/-- A request with one path in it. -/
theorem yields_path (addr : Word) {form : Form} {f : List Byte → Request}
    (h : ∀ s, Arg.path.Admits (.str s) → form.Admits (f s)) :
    Yields form.Admits (do return f (← getPath addr)) :=
  (yields_getPath addr).bind fun s hs ↦ yields_pure (h s hs)

variable (r : SyscallArgs)

theorem admits_one : (Arg.int 1).Admits (.int 1) := ⟨rfl, by decide, by decide⟩

/-- A request of integers. -/
theorem admits_ints (num : ℕ) (ws : List Word) :
    Form.Admits ⟨num, ws.map fun w ↦ .int (cInt w)⟩ ⟨num, ws.map fun w ↦ .int (cInt w)⟩ := by
  refine ⟨rfl, ?_⟩
  induction ws with
  | nil => exact .nil
  | cons w ws ih => exact .cons (admits_cInt w) ih

theorem sends_monitorLink : Sends (LindCall.forms r .link) (monitorLink r) :=
  sends_status <| (yields_getPath r.arg1).bind fun _ hs ↦ yields_path r.arg2 fun _ hs' ↦
    ⟨rfl, .cons hs (.cons hs' .nil)⟩

theorem sends_monitorPread64 : Sends (LindCall.forms r .pread64) (monitorPread64 r) := by
  have hread : Form.Admits ⟨LIND_safe_fs_read, [.int (cInt r.arg1), .int (cInt r.arg3)]⟩
      (lindRead (cInt r.arg1) (cInt r.arg3)) :=
    ⟨rfl, .cons (admits_cInt _) (.cons (admits_cInt _) .nil)⟩
  exact (asksNothing_fetch _).writes.bind fun buf ↦
    (sends_positioned r.arg1 r.arg4 (sends_lindCallInto hread buf _)).bind_keeps fun _ ↦
      keeps_pure _

theorem sends_monitorPwritev : Sends (LindCall.forms r .pwritev) (monitorPwritev r) := by
  refine (asksNothing_fetch _).writes.bind fun data ↦ ?_
  have hwrite := (asksNothing_fetch _).bind_writes
    (yields_focus (yields_lindWrite r.arg1 data (cInt r.arg3))) fun _ h ↦ sends_lindCall h
  rw [lindPwrite_eq_positioned]
  exact (sends_positioned r.arg1 r.arg4 hwrite).bind_keeps fun _ ↦ keeps_pure _

theorem sends_monitorSendmsg : Sends (LindCall.forms r .sendmsg) (monitorSendmsg r) :=
  sends_status <| yields_bind fun _ ↦ yields_bind fun _ ↦ yields_bind fun _ ↦
    yields_msgRequest _ _ _ _

theorem sends_monitorRecvmsg : Sends (LindCall.forms r .recvmsg) (monitorRecvmsg r) :=
  (asksNothing_fetch _).writes.bind fun _ ↦
    (asksNothing_fetch _).bind_writes
      (yields_focus (yields_bind fun msg ↦ yields_msgRequest _ _ _ msg)) fun _ h ↦
        (sends_lindCall h).bind_keeps fun _ ↦ keeps_ask.bind fun _ ↦ keeps_pure _

theorem sends_monitorGetsockname :
    Sends (LindCall.forms r .getsockname) (monitorGetsockname r) := by
  have hmodify (env : Env) (b : Block) : AsksNothing (Halting.modify fun w : World ↦
      { w with regs.arg3 := env.heapAddr b.number }) := keeps_modify fun _ ↦ rfl
  exact (asksNothing_fetch _).writes.bind fun addrlen ↦ keeps_ask.writes.bind fun env ↦
    (hmodify env addrlen).writes.bind fun _ ↦ sends_fillWith fun _ ↦ yields_lindGetsockname _ _

theorem sends_monitorRecvfrom :
    Sends (LindCall.forms r .recvfrom) (monitorRecvfrom r) :=
  ((sends_makeLindSysCall (admits_ints _ [r.arg1, r.arg3, r.arg4, r.arg6])).bind_keeps fun _ ↦
    (asksNothing_parseResponse _ _ _).bind fun _ ↦ keeps_pure _).bind_keeps fun _ ↦ keeps_pure _

theorem sends_monitorSelect : Sends (LindCall.forms r .select) (monitorSelect r) := by
  have hbytes (env : Env) (b : Block) (n : ℕ) :
      (Arg.bytes n).Admits (.str ((List.range n).map fun i : ℕ ↦ b.byteAt env i)) :=
    ⟨_, rfl, by simp⟩
  refine (asksNothing_fetch _).writes.bind fun set1 ↦ (asksNothing_fetch _).writes.bind fun set2 ↦
    (asksNothing_fetch _).writes.bind fun set3 ↦ (asksNothing_fetch _).writes.bind fun tv ↦ ?_
  refine Writes.bind_keeps (keeps_ask.writes.bind fun env ↦ ?_) fun _ ↦ keeps_pure _
  refine Writes.bind_keeps (sends_lindCallInto ⟨rfl, ?_⟩ _ _) fun _ ↦
    (keeps_pure _).ite (keeps_pure _)
  exact .cons (admits_cInt r.arg1) (.cons (hbytes env set1 _) (.cons (hbytes env set2 _)
    (.cons (hbytes env set3 _) (.cons (hbytes env tv _) .nil))))

/-- **The protocol is kept**: an emulation sends the requests of its plan, in their order, and no
other; all of them where it returns. -/
theorem sends_emulation (c : LindCall) : Sends (c.forms r) (c.emulation r) := by
  cases c with
  | getuid | getpid | geteuid | getgid | getegid => exact sends_status_pure (admits_ints _ [])
  | flock | listen | shutdown => exact sends_status_pure (admits_ints _ [r.arg1, r.arg2])
  | rmdir | unlink | chdir =>
    exact sends_status (yields_path r.arg1 fun _ h ↦ ⟨rfl, .cons h .nil⟩)
  | link => exact sends_monitorLink r
  | mkdir =>
    exact sends_status (yields_path r.arg1 fun _ h ↦ ⟨rfl, .cons (admits_cInt _) (.cons h .nil)⟩)
  | fcntl => exact sends_status (yields_lindFcntl _ _)
  | write => exact sends_status (yields_bind fun data ↦ yields_lindWrite _ data _)
  | bind => exact sends_status (yields_bind fun addr ↦ yields_lindBind _ addr _)
  | connect => exact sends_status (yields_bind fun addr ↦ yields_lindConnect _ addr _)
  | sendto =>
    exact sends_status (yields_bind fun data ↦ yields_bind fun addr ↦
      yields_lindSendto _ data _ addr _)
  | setsockopt => exact sends_status (yields_bind fun val ↦ yields_lindSetsockopt _ _ _ val _)
  | sendmsg => exact sends_monitorSendmsg r
  | close =>
    exact Writes.ite (fun _ ↦ sends_status_pure (admits_ints _ [r.arg1])) fun _ ↦
      (keeps_pure _).writes
  | getcwd => exact ((asksNothing_fetch _).bind fun _ ↦ keeps_pure _).writes
  | getpeername => exact (keeps_pure _).writes
  | lseek =>
    exact (sends_lindLseek _ (admits_cInt _) (isInt_cInt _)).bind_keeps fun _ ↦ keeps_pure _
  | pread64 => exact sends_monitorPread64 r
  | pwritev => exact sends_monitorPwritev r
  | «open» =>
    exact (asksNothing_fetch _).bind_writes (yields_focus (yields_getPath r.arg1)) fun s hs ↦
      sends_enter ⟨rfl, .cons hs (.cons (admits_cInt _) (.cons (admits_cInt _) .nil))⟩ r _
  | openat =>
    rw [LindCall.emulation]
    refine sends_descriptor r (yields_path r.arg2 fun _ h ↦ ⟨rfl, ?_⟩)
    exact .cons (admits_cInt _) (.cons h (.cons (admits_cInt _) (.cons (admits_cInt _) .nil)))
  | access =>
    rw [LindCall.emulation]
    refine sends_descriptor r (yields_path r.arg1 fun _ h ↦ ⟨rfl, ?_⟩)
    exact .cons h (.cons (admits_cInt _) .nil)
  | dup | epoll_create | epoll_create1 =>
    rw [LindCall.emulation]
    exact sends_descriptor r (yields_pure (admits_ints _ [r.arg1]))
  | dup2 =>
    rw [LindCall.emulation]
    exact sends_descriptor r (yields_pure (admits_ints _ [r.arg1, r.arg2]))
  | dup3 | socket =>
    rw [LindCall.emulation]
    exact sends_descriptor r (yields_pure (admits_ints _ [r.arg1, r.arg2, r.arg3]))
  | accept =>
    rw [LindCall.emulation]
    exact sends_descriptor r (yields_bind fun addr ↦ yields_lindAccept _ addr _)
  | socketpair =>
    exact (asksNothing_fetch _).writes.bind fun fds ↦
      (sends_lindCallInto (admits_ints _ [r.arg1, r.arg2, r.arg3]) fds 8).bind_keeps fun _ ↦
        asksNothing_enterDescriptor r _ _
  | read | getdents => exact sends_fill fun _ ↦ yields_pure (admits_ints _ [r.arg1, r.arg3])
  | fstat =>
    exact sends_fill fun _ ↦ yields_pure ⟨rfl, .cons (admits_cInt _) (.cons admits_one .nil)⟩
  | stat =>
    exact sends_fill fun _ ↦ yields_path r.arg1 fun _ h ↦
      ⟨rfl, .cons admits_one (.cons h .nil)⟩
  | statfs => exact sends_fill fun _ ↦ yields_path r.arg1 fun _ h ↦ ⟨rfl, .cons h .nil⟩
  | fstatfs => exact sends_fill fun _ ↦ yields_pure (admits_ints _ [r.arg1])
  | poll => exact sends_fill fun lpfd ↦ yields_lindPoll lpfd _ _
  | epoll_wait => exact sends_fill fun _ ↦ yields_pure (admits_ints _ [r.arg1, r.arg3, r.arg4])
  | epoll_ctl =>
    exact (asksNothing_fetch _).bind_writes
      (yields_focus (yields_bind fun event ↦ yields_lindEpollCtl _ _ _ event)) fun _ h ↦
        (sends_lindCall h).bind_keeps fun _ ↦ keeps_pure _
  | getsockname => exact sends_monitorGetsockname r
  | getsockopt => exact sends_fillWith fun _ ↦ yields_lindGetsockopt _ _ _ _
  | recvfrom => exact sends_monitorRecvfrom r
  | recvmsg => exact sends_monitorRecvmsg r
  | select => exact sends_monitorSelect r

end ReferenceMonitor
