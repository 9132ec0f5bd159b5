import ReferenceMonitor.Monitor.Handlers

/-!
# The dispatch of `intercept_calls`

`LindCall` and `OsCall` enumerate the labels of the two `switch` statements; everything else goes to
`monitor_ns` or to `monitor_os`. `interceptStop` is one round of the loop of `intercept_calls`: what
it does with one report of `waitpid`.

The policy table is a function on the integers, since the source indexes it without a check: at an
index outside the table it finds whatever lies there.
-/

namespace ReferenceMonitor

open Halting

/-! ### System calls -/

/-- The labels of the `switch` for `ALLOW_LIND`. -/
inductive LindCall where
  | getuid | read | open | openat | access | close | rmdir | stat | statfs | fstat | fstatfs
  | write | mkdir | chdir | getcwd | dup | dup2 | dup3 | getpid | geteuid | getgid | getegid
  | unlink | link | fcntl | listen | shutdown | flock | getdents | lseek | pread64 | pwritev
  | socket | bind | connect | accept | sendto | recvfrom | recvmsg | sendmsg | getsockname
  | getsockopt | setsockopt | socketpair | getpeername | select | poll | epoll_create
  | epoll_create1 | epoll_ctl | epoll_wait
  deriving DecidableEq

namespace LindCall

/-- `__NR_*`. -/
def nr : LindCall → ℤ
  | read => 0 | write => 1 | .open => 2 | close => 3 | stat => 4 | fstat => 5 | poll => 7
  | lseek => 8 | pread64 => 17 | access => 21 | select => 23 | dup => 32 | dup2 => 33
  | getpid => 39 | socket => 41 | connect => 42 | accept => 43 | sendto => 44 | recvfrom => 45
  | sendmsg => 46 | recvmsg => 47 | shutdown => 48 | bind => 49 | listen => 50
  | getsockname => 51 | getpeername => 52 | socketpair => 53 | setsockopt => 54
  | getsockopt => 55 | fcntl => 72 | flock => 73 | getdents => 78 | getcwd => 79 | chdir => 80
  | mkdir => 83 | rmdir => 84 | link => 86 | unlink => 87 | getuid => 102 | getgid => 104
  | geteuid => 107 | getegid => 108 | statfs => 137 | fstatfs => 138 | epoll_create => 213
  | epoll_wait => 232 | epoll_ctl => 233 | openat => 257 | epoll_create1 => 291 | dup3 => 292
  | pwritev => 296

/-- Every label, in the order of the `switch`. -/
def all : List LindCall :=
  [getuid, read, .open, openat, access, close, rmdir, stat, statfs, fstat, fstatfs, write, mkdir,
    chdir, getcwd, dup, dup2, dup3, getpid, geteuid, getgid, getegid, unlink, link, fcntl, listen,
    shutdown, flock, getdents, lseek, pread64, pwritev, socket, bind, connect, accept, sendto,
    recvfrom, recvmsg, sendmsg, getsockname, getsockopt, setsockopt, socketpair, getpeername,
    select, poll, epoll_create, epoll_create1, epoll_ctl, epoll_wait]

/-- The label a number matches. -/
def ofNr (n : ℤ) : Option LindCall := all.find? fun c ↦ c.nr = n

theorem nr_of_ofNr {n : ℤ} {c : LindCall} (h : ofNr n = some c) : c.nr = n := by
  simpa using List.find?_some h

theorem ofNr_nr (c : LindCall) : ofNr c.nr = some c := by cases c <;> rfl

/-- What the handler of a call does on exit. -/
def emulation : LindCall → Emulation
  | getuid => monitorGetuid
  | read => monitorRead
  | .open => monitorOpen
  | openat => monitorOpenat
  | access => monitorAccess
  | close => monitorClose
  | rmdir => monitorRmdir
  | stat => monitorStat
  | statfs => monitorStatfs
  | fstat => monitorFstat
  | fstatfs => monitorFstatfs
  | write => monitorWrite
  | mkdir => monitorMkdir
  | chdir => monitorChdir
  | getcwd => monitorGetcwd
  | dup => monitorDup
  | dup2 => monitorDup2
  | dup3 => monitorDup3
  | getpid => monitorGetpid
  | geteuid => monitorGeteuid
  | getgid => monitorGetgid
  | getegid => monitorGetegid
  | unlink => monitorUnlink
  | link => monitorLink
  | fcntl => monitorFcntl
  | listen => monitorListen
  | shutdown => monitorShutdown
  | flock => monitorFlock
  | getdents => monitorGetdents
  | lseek => monitorLseek
  | pread64 => monitorPread64
  | pwritev => monitorPwritev
  | socket => monitorSocket
  | bind => monitorBind
  | connect => monitorConnect
  | accept => monitorAccept
  | sendto => monitorSendto
  | recvfrom => monitorRecvfrom
  | recvmsg => monitorRecvmsg
  | sendmsg => monitorSendmsg
  | getsockname => monitorGetsockname
  | getsockopt => monitorGetsockopt
  | setsockopt => monitorSetsockopt
  | socketpair => monitorSocketpair
  | getpeername => monitorGetpeername
  | select => monitorSelect
  | poll => monitorPoll
  | epoll_create => monitorEpollCreate
  | epoll_create1 => monitorEpollCreate1
  | epoll_ctl => monitorEpollCtl
  | epoll_wait => monitorEpollWait

end LindCall

/-- The emulation `intercept_calls` chooses for a number: the `switch`, with its `default`. -/
def emulationOf (n : ℤ) : Emulation :=
  match LindCall.ofNr n with
  | some c => c.emulation
  | none => monitorNs

/-- The labels of the `switch` for `ALLOW_OS`. -/
inductive OsCall where
  | execve | tgkill | getcwd | exit_group | exit | arch_prctl | munmap | mmap | mprotect | gettid
  | brk
  deriving DecidableEq

namespace OsCall

/-- `__NR_*`. -/
def nr : OsCall → ℤ
  | mmap => 9 | mprotect => 10 | munmap => 11 | brk => 12 | execve => 59 | exit => 60
  | getcwd => 79 | arch_prctl => 158 | gettid => 186 | exit_group => 231 | tgkill => 234

/-- Every label, in the order of the `switch`. -/
def all : List OsCall :=
  [execve, tgkill, getcwd, exit_group, exit, arch_prctl, munmap, mmap, mprotect, gettid, brk]

/-- The label a number matches. -/
def ofNr (n : ℤ) : Option OsCall := all.find? fun c ↦ c.nr = n

theorem nr_of_ofNr {n : ℤ} {c : OsCall} (h : ofNr n = some c) : c.nr = n := by
  simpa using List.find?_some h

theorem ofNr_nr (c : OsCall) : ofNr c.nr = some c := by cases c <;> rfl

/-- The handler of a call. -/
def handler : OsCall → M Unit
  | execve => monitorExecve
  | tgkill => monitorTgkill
  | getcwd => emulated monitorGetcwd
  | exit_group => monitorExitGroup
  | exit => monitorExit
  | arch_prctl => monitorArchPrctl
  | munmap => monitorMunmap
  | mmap => monitorMmap
  | mprotect => monitorMprotect
  | gettid => monitorGettid
  | brk => monitorBrk

end OsCall

/-- The handler `intercept_calls` chooses for a number: the `switch`, with its `default`. -/
def osHandlerOf (n : ℤ) : M Unit :=
  match OsCall.ofNr n with
  | some c => c.handler
  | none => monitorOs

/-! ### The loop -/

/-- `ALLOW_LIND`, the first value of `enum monitor_action`. -/
def ALLOW_LIND : ℤ := 0
def DENY_LIND : ℤ := 1
def ALLOW_OS : ℤ := 2
def NO_VAL : ℤ := 3

/-- What `monitor_actions` holds at an index. -/
abbrev Actions := ℤ → ℤ

/-- The dispatch at a syscall stop: does the loop go on? A table entry that is none of the three
actions runs no handler. -/
def dispatch (acts : Actions) : M Bool := do
  let syscallNum := cInt (← getRegs).syscall
  record (.actionsAt syscallNum)
  if acts syscallNum = DENY_LIND then do
    monitorDeny
    return false
  else if acts syscallNum = ALLOW_OS then do
    osHandlerOf syscallNum
    return true
  else if acts syscallNum = ALLOW_LIND then do
    emulated (emulationOf syscallNum)
    return true
  else return true

/-- What `waitpid` reports, as far as the loop tells reports apart. -/
inductive WaitStatus where
  /-- `WIFEXITED`. -/
  | exited
  /-- Neither exited nor stopped. -/
  | terminated (status : ℤ)
  /-- Stopped, with `WSTOPSIG`. -/
  | stopped (sig : ℕ)

/-- `SIGTRAP`. -/
def SIGTRAP : ℕ := 5

/-- One round of the loop of `intercept_calls`: does the loop go on? -/
def interceptStop (acts : Actions) : WaitStatus → M Bool
  | .exited => return false
  | .terminated status => stop (.exit status)
  | .stopped sig => do
    getArgs
    if sig = SIGTRAP ||| 0x80 then dispatch acts else return true

end ReferenceMonitor
