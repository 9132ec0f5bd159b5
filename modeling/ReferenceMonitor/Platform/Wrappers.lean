import ReferenceMonitor.Platform.Response

/-!
# The wrappers `lind_*`

A wrapper builds a request and hands Lind's response to `ParseResponse`. A wrapper without
destination is determined by its request (`lindCall` then gives its return value), and so is one
whose single destination is the buffer its caller allocated (`lindCallInto`); these are given here
by the request alone. The others have a body of their own.

`Py_BuildValue` takes `int`s for `i` and for the length of `s#`, whatever was passed.
-/

namespace ReferenceMonitor

open Halting

/-! ### The numbers of the calls -/

def LIND_safe_fs_access : ℕ := 2
def LIND_safe_fs_unlink : ℕ := 4
def LIND_safe_fs_link : ℕ := 5
def LIND_safe_fs_chdir : ℕ := 6
def LIND_safe_fs_mkdir : ℕ := 7
def LIND_safe_fs_rmdir : ℕ := 8
def LIND_safe_fs_xstat : ℕ := 9
def LIND_safe_fs_open : ℕ := 10
def LIND_safe_fs_close : ℕ := 11
def LIND_safe_fs_read : ℕ := 12
def LIND_safe_fs_write : ℕ := 13
def LIND_safe_fs_lseek : ℕ := 14
def LIND_safe_fs_fxstat : ℕ := 17
def LIND_safe_fs_fstatfs : ℕ := 19
def LIND_safe_fs_getdents : ℕ := 23
def LIND_safe_fs_dup : ℕ := 24
def LIND_safe_fs_dup2 : ℕ := 25
def LIND_safe_fs_statfs : ℕ := 26
def LIND_safe_fs_fcntl : ℕ := 28
def LIND_sys_getpid : ℕ := 31
def LIND_safe_net_socket : ℕ := 32
def LIND_safe_net_bind : ℕ := 33
def LIND_safe_net_sendto : ℕ := 35
def LIND_safe_net_recvfrom : ℕ := 37
def LIND_safe_net_connect : ℕ := 38
def LIND_safe_net_listen : ℕ := 39
def LIND_safe_net_accept : ℕ := 40
def LIND_safe_net_getsockname : ℕ := 42
def LIND_safe_net_getsockopt : ℕ := 43
def LIND_safe_net_setsockopt : ℕ := 44
def LIND_safe_net_shutdown : ℕ := 45
def LIND_safe_net_select : ℕ := 46
def LIND_safe_net_poll : ℕ := 48
def LIND_safe_net_socketpair : ℕ := 49
def LIND_safe_sys_getuid : ℕ := 50
def LIND_safe_sys_geteuid : ℕ := 51
def LIND_safe_sys_getgid : ℕ := 52
def LIND_safe_sys_getegid : ℕ := 53
def LIND_safe_fs_flock : ℕ := 54
def LIND_safe_net_epoll_create : ℕ := 56
def LIND_safe_net_epoll_ctl : ℕ := 57
def LIND_safe_net_epoll_wait : ℕ := 58
def LIND_safe_net_sendmsg : ℕ := 59
def LIND_safe_net_recvmsg : ℕ := 60
def LIND_safe_fs_openat : ℕ := 61
def LIND_safe_fs_dup3 : ℕ := 62
def LIND_safe_net_epoll_create1 : ℕ := 65

/-! ### Sizes of the structures -/

/-- `sizeof(struct lind_stat)`. -/
def sizeofStat : ℕ := 144
/-- `sizeof(struct lind_statfs)`. -/
def sizeofStatfs : ℕ := 120
/-- `sizeof(struct lind_sockaddr)`. -/
def sizeofSockaddr : ℕ := 16
/-- `sizeof(struct lind_pollfd)`, and of `struct pollfd`. -/
def sizeofPollfd : ℕ := 8
/-- `sizeof(struct lind_epoll_event)`. -/
def sizeofEpollEvent : ℕ := 16
/-- `sizeof(fd_set)`. -/
def sizeofFdSet : ℕ := 128
/-- `sizeof(struct timeval)`. -/
def sizeofTimeval : ℕ := 16
/-- `sizeof(struct lind_msghdr)`. -/
def sizeofMsghdr : ℕ := 56
/-- `sizeof(struct lind_iovec)`. -/
def sizeofIovec : ℕ := 16
/-- `sizeof(struct flock)`. -/
def sizeofFlock : ℕ := 32

/-! ### Files -/

def lindAccess (pathname : List Byte) (mode : ℤ) : Request :=
  ⟨LIND_safe_fs_access, [.str pathname, .int mode]⟩

def lindUnlink (name : List Byte) : Request := ⟨LIND_safe_fs_unlink, [.str name]⟩

def lindLink (src dst : List Byte) : Request := ⟨LIND_safe_fs_link, [.str src, .str dst]⟩

def lindChdir (name : List Byte) : Request := ⟨LIND_safe_fs_chdir, [.str name]⟩

def lindMkdir (path : List Byte) (mode : ℤ) : Request :=
  ⟨LIND_safe_fs_mkdir, [.int mode, .str path]⟩

def lindRmdir (path : List Byte) : Request := ⟨LIND_safe_fs_rmdir, [.str path]⟩

def lindStat (path : List Byte) : Request := ⟨LIND_safe_fs_xstat, [.int 1, .str path]⟩

def lindOpen (path : List Byte) (flags mode : ℤ) : Request :=
  ⟨LIND_safe_fs_open, [.str path, .int flags, .int mode]⟩

def lindOpenat (dirFd : ℤ) (path : List Byte) (flags mode : ℤ) : Request :=
  ⟨LIND_safe_fs_openat, [.int dirFd, .str path, .int flags, .int mode]⟩

def lindClose (fd : ℤ) : Request := ⟨LIND_safe_fs_close, [.int fd]⟩

def lindRead (fd : ℤ) (size : ℤ) : Request := ⟨LIND_safe_fs_read, [.int fd, .int size]⟩

def lindWrite (fd : ℤ) (buf : Ptr) (count : ℤ) : Fetch Request :=
  return ⟨LIND_safe_fs_write, [.int fd, ← pyBytes buf count]⟩

def lindFstat (fd : ℤ) : Request := ⟨LIND_safe_fs_fxstat, [.int fd, .int 1]⟩

def lindFstatfs (fd : ℤ) : Request := ⟨LIND_safe_fs_fstatfs, [.int fd]⟩

def lindStatfs (path : List Byte) : Request := ⟨LIND_safe_fs_statfs, [.str path]⟩

def lindDup (oldfd : ℤ) : Request := ⟨LIND_safe_fs_dup, [.int oldfd]⟩

def lindDup2 (oldfd newfd : ℤ) : Request := ⟨LIND_safe_fs_dup2, [.int oldfd, .int newfd]⟩

def lindDup3 (oldfd newfd flags : ℤ) : Request :=
  ⟨LIND_safe_fs_dup3, [.int oldfd, .int newfd, .int flags]⟩

def lindGetdents (fd count : ℤ) : Request := ⟨LIND_safe_fs_getdents, [.int fd, .int count]⟩

def lindFlock (fd operation : ℤ) : Request := ⟨LIND_safe_fs_flock, [.int fd, .int operation]⟩

/-- `lind_fcntl`: a variadic wrapper, which its only caller gives no further argument. `F_DUPFD` is
`0` and `F_SETLK` is `6`. -/
def lindFcntl (fd cmd : ℤ) : Fetch Request := do
  let ⟨env, _⟩ ← ask
  if cmd = 0 then return ⟨LIND_safe_fs_fcntl, [.int fd, .int cmd, .int (cInt env.vararg)]⟩
  else if cmd = 6 then
    return ⟨LIND_safe_fs_fcntl, [.int fd, .int cmd, ← pyBytes (.stray env.vararg) sizeofFlock]⟩
  else return ⟨LIND_safe_fs_fcntl, [.int fd, .int cmd]⟩

/-- `lind_lseek`, with its local `ret_off`. -/
def lindLseek (fd : ℤ) (offset : Word) (whence : ℤ) : M Word := do
  let (retval, retOff) ← lindCallInto
    ⟨LIND_safe_fs_lseek, [.int (cInt offset), .int fd, .int whence]⟩ (malloc 4 8) 8
  if retval < 0 then return ofInt retval
  else return retOff.wordAt (← ask) 0

/-- `lind_pread`. -/
def lindPread (fd : ℤ) (buf : Block) (count : ℤ) (offset : Word) : M (ℤ × Block) := do
  let curPos ← lindLseek fd 0 1
  let _ ← lindLseek fd offset 0
  let ret ← lindCallInto (lindRead fd count) buf count
  let _ ← lindLseek fd curPos 0
  return ret

/-- `lind_pwrite`. -/
def lindPwrite (fd : ℤ) (buf : Block) (count : ℤ) (offset : Word) : M ℤ := do
  let curPos ← lindLseek fd 0 1
  let _ ← lindLseek fd offset 0
  let ret ← lindCall (← fetch (lindWrite fd (.block buf) count))
  let _ ← lindLseek fd curPos 0
  return ret

/-! ### Processes -/

def lindGetpid : Request := ⟨LIND_sys_getpid, []⟩

def lindGetuid : Request := ⟨LIND_safe_sys_getuid, []⟩

def lindGeteuid : Request := ⟨LIND_safe_sys_geteuid, []⟩

def lindGetgid : Request := ⟨LIND_safe_sys_getgid, []⟩

def lindGetegid : Request := ⟨LIND_safe_sys_getegid, []⟩

/-! ### Sockets -/

def lindSocket (domain type protocol : ℤ) : Request :=
  ⟨LIND_safe_net_socket, [.int domain, .int type, .int protocol]⟩

def lindBind (sockfd : ℤ) (addr : Ptr) (addrlen : ℤ) : Fetch Request :=
  return ⟨LIND_safe_net_bind, [.int sockfd, .int addrlen, ← pyBytes addr addrlen]⟩

def lindConnect (sockfd : ℤ) (srcAddr : Ptr) (addrlen : ℤ) : Fetch Request :=
  return ⟨LIND_safe_net_connect, [.int sockfd, .int addrlen, ← pyBytes srcAddr addrlen]⟩

def lindListen (sockfd backlog : ℤ) : Request :=
  ⟨LIND_safe_net_listen, [.int sockfd, .int backlog]⟩

def lindSendto (sockfd : ℤ) (buf : Ptr) (len : ℤ) (destAddr : Ptr) (addrlen : ℤ) :
    Fetch Request := do
  let addr ← pyBytes destAddr addrlen
  let data ← pyBytes buf len
  return ⟨LIND_safe_net_sendto, [.int sockfd, .int len, .int addrlen, addr, data]⟩

/-- The load `*addrlen`, through a pointer to a `lind_socklen_t`, as the `int` it is passed as. -/
def derefSocklen : Ptr → Fetch ℤ
  | .block b => do
    let ⟨env, _⟩ ← ask
    return b.intAt env 0
  | .foreign a => do
    let bytes ← loadForeign a 4
    return cInt (wordOf fun i ↦ bytes.getD i 0)
  | .stray a => do
    let bytes ← loadOwn a 4
    return cInt (wordOf fun i ↦ bytes.getD i 0)

def lindAccept (sockfd : ℤ) (addr addrlen : Ptr) : Fetch Request := do
  let n ← derefSocklen addrlen
  return ⟨LIND_safe_net_accept, [.int sockfd, ← pyBytes addr n]⟩

/-- `lind_getsockname`: the request, and the `maxlen` of its destination. -/
def lindGetsockname (sockfd : ℤ) (addrlen : Ptr) : Fetch (Request × ℤ) := do
  let n ← derefSocklen addrlen
  return (⟨LIND_safe_net_getsockname, [.int sockfd, .int n]⟩, n)

def lindSetsockopt (sockfd level optname : ℤ) (optval : Ptr) (optlen : ℤ) : Fetch Request :=
  return ⟨LIND_safe_net_setsockopt,
    [.int sockfd, .int level, .int optname, ← pyBytes optval optlen, .int optlen]⟩

/-- `lind_getsockopt`: the request, and the `maxlen` of its destination. -/
def lindGetsockopt (sockfd level optname : ℤ) (optlen : Ptr) : Fetch (Request × ℤ) := do
  let n ← derefSocklen optlen
  return (⟨LIND_safe_net_getsockopt, [.int sockfd, .int level, .int optname]⟩, n)

def lindShutdown (sockfd how : ℤ) : Request := ⟨LIND_safe_net_shutdown, [.int sockfd, .int how]⟩

def lindPoll (fds : Ptr) (nfds : Word) (timeout : ℤ) : Fetch Request :=
  return ⟨LIND_safe_net_poll,
    [.int (cInt nfds), .int timeout, ← pyBytes fds (cInt (BitVec.ofNat 64 sizeofPollfd * nfds))]⟩

def lindSocketpair (domain type protocol : ℤ) : Request :=
  ⟨LIND_safe_net_socketpair, [.int domain, .int type, .int protocol]⟩

def lindEpollCreate (size : ℤ) : Request := ⟨LIND_safe_net_epoll_create, [.int size]⟩

def lindEpollCreate1 (flags : ℤ) : Request := ⟨LIND_safe_net_epoll_create1, [.int flags]⟩

def lindEpollCtl (epfd op fd : ℤ) (event : Ptr) : Fetch Request :=
  return ⟨LIND_safe_net_epoll_ctl,
    [.int epfd, .int op, .int fd, ← pyBytes event sizeofEpollEvent]⟩

def lindEpollWait (epfd maxevents timeout : ℤ) : Request :=
  ⟨LIND_safe_net_epoll_wait, [.int epfd, .int maxevents, .int timeout]⟩

/-- `lind_recvfrom`: three destinations, the first of them the pointer `addrlen`. -/
def lindRecvfrom (sockfd : ℤ) (buf : Block) (len : ℤ) (flags : ℤ) (srcAddr : Block)
    (addrlen : Word) : M (ℤ × Block × Block) := do
  let response ← makeLindSysCall
    ⟨LIND_safe_net_recvfrom, [.int sockfd, .int len, .int flags, .int (cInt addrlen)]⟩
  let (ret, dsts) ← parseResponse response 3
    [⟨.foreign addrlen, 4⟩, ⟨.block buf, len⟩, ⟨.block srcAddr, sizeofSockaddr⟩]
  return (ret, (dsts.getD 1 (.block buf)).blockFrom buf,
    (dsts.getD 2 (.block srcAddr)).blockFrom srcAddr)

/-- The result of `lind_select` and its local `result`, copied to the four arguments where the call
succeeded. -/
def lindSelect (nfds : ℤ) (readfds writefds exceptfds timeout : Block) :
    M (ℤ × Block × Block × Block × Block) := do
  let env ← ask
  let str (b : Block) (n : ℕ) : PyVal := .str ((List.range n).map fun i : ℕ ↦ b.byteAt env i)
  let (retval, result) ← lindCallInto ⟨LIND_safe_net_select,
    [.int nfds, str readfds sizeofFdSet, str writefds sizeofFdSet, str exceptfds sizeofFdSet,
      str timeout sizeofTimeval]⟩ (malloc 4 400) 400
  if retval < 0 then return (retval, readfds, writefds, exceptfds, timeout)
  else
    let part (o n : ℕ) : List Cell := (result.cells.drop o).take n
    return (retval, readfds.store (part 16 sizeofFdSet), writefds.store (part 144 sizeofFdSet),
      exceptfds.store (part 272 sizeofFdSet), timeout.store (part 0 sizeofTimeval))

/-! ### Messages -/

/-- `struct lind_msghdr`, as the wrappers receive it: the vector, the name and the control data are
objects of the monitor. -/
structure MsgHdr where
  name : Block
  namelen : ℤ
  iov : Block
  iovlen : Word
  control : Block
  controllen : Word
  flags : ℤ

/-- `msg_iov[i].iov_len`. -/
def iovLen (env : Env) (iov : Block) (i : ℕ) : Word := iov.wordAt env (16 * i + 8)

/-- The first loop of `lind_sendmsg` and `lind_recvmsg`: the sum of the lengths, an `int`. -/
def totalLength (len : ℕ → ℤ) : ℕ → Except Halt ℤ
  | 0 => .ok 0
  | i + 1 => do
    let total ← totalLength len i
    if 2 ^ 31 ≤ total + len i ∨ total + len i < -2 ^ 31 then throw .intOverflow
    else return total + len i

/-- The second loop, `rounds` elements from element `i` on: element `i` is copied `lengths[i]`
times, each time in full and one byte further, to a buffer of `size` bytes at the offset `final`.
The bases of the first `known` elements are objects of the monitor. -/
def concatLoop (iov : Block) (size known : ℕ) : (rounds i : ℕ) → (final : ℤ) → Fetch Unit
  | 0, _, _ => pure ()
  | rounds + 1, i, final => do
    let ⟨env, _⟩ ← ask
    let len := iovLen env iov i
    if cInt len ≤ 0 then concatLoop iov size known rounds (i + 1) (final + cInt len)
    else
      if i < known then pure ()
      else
        let _ ← loadOwn (iov.wordAt env (16 * i)) len.toNat
      -- the last of the copies reaches farthest
      if 0 ≤ final ∧ final + (cInt len - 1) + len.toNat ≤ size then
        concatLoop iov size known rounds (i + 1) (final + cInt len)
      else stop .corrupt

/-- What `lind_sendmsg` and `lind_recvmsg` do with the vector before they send anything. Both loops
run up to the length of the first element, where the number of elements was meant, and the string
handed on begins after the last byte copied, in a buffer that was freed; its position is
returned. -/
def packIov (iov : Block) (iovlen : Word) : Fetch ℤ := do
  let ⟨env, _⟩ ← ask
  let n := (iovLen env iov 0).toNat
  -- `i` is an `unsigned int`, and wraps around before it reaches such a bound
  if 2 ^ 32 ≤ n then stop .diverge
  else
    match totalLength (fun i ↦ cInt (iovLen env iov i)) n with
    | .error h => stop h
    | .ok total => do
      concatLoop iov (ofInt total).toNat iovlen.toNat n 0 0
      return total

/-- The request of `lind_sendmsg` and `lind_recvmsg`. The arguments do not match the format
`[is#s#is#ii]`: its second `i` takes `msg_control`, the last `s#` takes `msg_controllen` for a
pointer and `msg_flags` for its length, and the last `i` takes what no argument was passed for. -/
def msgRequest (num : ℕ) (sockfd : ℤ) (msg : MsgHdr) (flags : ℤ) : Fetch Request := do
  let ⟨env, _⟩ ← ask
  let final ← packIov msg.iov msg.iovlen
  let name ← pyBytes (.block msg.name) msg.namelen
  let len := cInt msg.iovlen
  let data : PyVal :=
    if 0 ≤ len then .str ((List.range len.toNat).map fun k : ℕ ↦ env.around 5 (final + k))
    else .str (env.aroundString 5)
  let control ← pyBytes (.stray msg.controllen) msg.flags
  return ⟨num, [.int sockfd, name, data, .int (cInt (env.heapAddr msg.control.number)), control,
    .int flags, .int (cInt env.vararg)]⟩

def lindSendmsg (sockfd : ℤ) (msg : MsgHdr) (flags : ℤ) : Fetch Request :=
  msgRequest LIND_safe_net_sendmsg sockfd msg flags

def lindRecvmsg (sockfd : ℤ) (msg : MsgHdr) (flags : ℤ) : Fetch Request :=
  msgRequest LIND_safe_net_recvmsg sockfd msg flags

end ReferenceMonitor
