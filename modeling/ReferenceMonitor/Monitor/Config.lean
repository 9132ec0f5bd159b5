import ReferenceMonitor.Monitor.Intercept

/-!
# The policy: `load_config`

The configuration file is a list of characters, one for each byte. `fgets` cuts it into pieces of at
most 99 characters, and a piece is what `load_config` takes for a line: a longer line is several
pieces. A piece with an `=` sets the action of the call its key names; a value that is none of the
three actions leaves `mact` as the piece before it did.

The key may name no call. `get_syscall_num` then returns `-1`, and the table is read and written at
that index; `around` is what lies there.
-/

namespace ReferenceMonitor

/-- `syscall_names`. -/
def syscallNames : List String :=
  ["read", "write", "open", "close", "stat", "fstat", "lstat", "poll", "lseek", "mmap",
    "mprotect", "munmap", "brk", "rt_sigaction", "rt_sigprocmask", "rt_sigreturn", "ioctl",
    "pread64", "pwrite64", "readv", "writev", "access", "pipe", "select", "sched_yield",
    "mremap", "msync", "mincore", "madvise", "shmget", "shmat", "shmctl", "dup", "dup2", "pause",
    "nanosleep", "getitimer", "alarm", "setitimer", "getpid", "sendfile", "socket", "connect",
    "accept", "sendto", "recvfrom", "sendmsg", "recvmsg", "shutdown", "bind", "listen",
    "getsockname", "getpeername", "socketpair", "setsockopt", "getsockopt", "clone", "fork",
    "vfork", "execve", "exit", "wait4", "kill", "uname", "semget", "semop", "semctl", "shmdt",
    "msgget", "msgsnd", "msgrcv", "msgctl", "fcntl", "flock", "fsync", "fdatasync", "truncate",
    "ftruncate", "getdents", "getcwd", "chdir", "fchdir", "rename", "mkdir", "rmdir", "creat",
    "link", "unlink", "symlink", "readlink", "chmod", "fchmod", "chown", "fchown", "lchown",
    "umask", "gettimeofday", "getrlimit", "getrusage", "sysinfo", "times", "ptrace", "getuid",
    "syslog", "getgid", "setuid", "setgid", "geteuid", "getegid", "setpgid", "getppid",
    "getpgrp", "setsid", "setreuid", "setregid", "getgroups", "setgroups", "setresuid",
    "getresuid", "setresgid", "getresgid", "getpgid", "setfsuid", "setfsgid", "getsid", "capget",
    "capset", "rt_sigpending", "rt_sigtimedwait", "rt_sigqueueinfo", "rt_sigsuspend",
    "sigaltstack", "utime", "mknod", "uselib", "personality", "ustat", "statfs", "fstatfs",
    "sysfs", "getpriority", "setpriority", "sched_setparam", "sched_getparam",
    "sched_setscheduler", "sched_getscheduler", "sched_get_priority_max",
    "sched_get_priority_min", "sched_rr_get_interval", "mlock", "munlock", "mlockall",
    "munlockall", "vhangup", "modify_ldt", "pivot_root", "_sysctl", "prctl", "arch_prctl",
    "adjtimex", "setrlimit", "chroot", "sync", "acct", "settimeofday", "mount", "umount2",
    "swapon", "swapoff", "reboot", "sethostname", "setdomainname", "iopl", "ioperm",
    "create_module", "init_module", "delete_module", "get_kernel_syms", "query_module",
    "quotactl", "nfsservctl", "getpmsg", "putpmsg", "afs_syscall", "tuxcall", "security",
    "gettid", "readahead", "setxattr", "lsetxattr", "fsetxattr", "getxattr", "lgetxattr",
    "fgetxattr", "listxattr", "llistxattr", "flistxattr", "removexattr", "lremovexattr",
    "fremovexattr", "tkill", "time", "futex", "sched_setaffinity", "sched_getaffinity",
    "set_thread_area", "io_setup", "io_destroy", "io_getevents", "io_submit", "io_cancel",
    "get_thread_area", "lookup_dcookie", "epoll_create", "epoll_ctl_old", "epoll_wait_old",
    "remap_file_pages", "getdents64", "set_tid_address", "restart_syscall", "semtimedop",
    "fadvise64", "timer_create", "timer_settime", "timer_gettime", "timer_getoverrun",
    "timer_delete", "clock_settime", "clock_gettime", "clock_getres", "clock_nanosleep",
    "exit_group", "epoll_wait", "epoll_ctl", "tgkill", "utimes", "vserver", "mbind",
    "set_mempolicy", "get_mempolicy", "mq_open", "mq_unlink", "mq_timedsend", "mq_timedreceive",
    "mq_notify", "mq_getsetattr", "kexec_load", "waitid", "add_key", "request_key", "keyctl",
    "ioprio_set", "ioprio_get", "inotify_init", "inotify_add_watch", "inotify_rm_watch",
    "migrate_pages", "openat", "mkdirat", "mknodat", "fchownat", "futimesat", "newfstatat",
    "unlinkat", "renameat", "linkat", "symlinkat", "readlinkat", "fchmodat", "faccessat",
    "pselect6", "ppoll", "unshare", "set_robust_list", "get_robust_list", "splice", "tee",
    "sync_file_range", "vmsplice", "move_pages", "utimensat", "epoll_pwait", "signalfd",
    "timerfd_create", "eventfd", "fallocate", "timerfd_settime", "timerfd_gettime", "accept4",
    "signalfd4", "eventfd2", "epoll_create1", "dup3", "pipe2", "inotify_init1", "preadv",
    "pwritev", "rt_tgsigqueueinfo", "perf_event_open", "recvmmsg", "fanotify_init",
    "fanotify_mark", "prlimit64", "name_to_handle_at", "open_by_handle_at", "clock_adjtime",
    "syncfs", "sendmmsg", "setns", "getcpu", "process_vm_readv", "process_vm_writev", "kcmp",
    "finit_module"]

/-- `TOTAL_SYSCALLS`. -/
def TOTAL_SYSCALLS : ℤ := syscallNames.length

set_option maxRecDepth 2000 in
theorem totalSyscalls_eq : TOTAL_SYSCALLS = 314 := rfl

/-- The number lies in the table. -/
def InTable (n : ℤ) : Prop := 0 ≤ n ∧ n < TOTAL_SYSCALLS

instance (n : ℤ) : Decidable (InTable n) := inferInstanceAs (Decidable (_ ∧ _))

theorem inTable_iff {n : ℤ} : InTable n ↔ 0 ≤ n ∧ n < 314 := by rw [InTable, totalSyscalls_eq]

/-- `get_syscall_num`. -/
def getSyscallNum (name : List Char) : ℤ :=
  match syscallNames.findIdx? fun s ↦ s.toList = name with
  | some i => i
  | none => -1

/-! ### Pieces -/

/-- `fgets` into a buffer that takes `n` characters: what is read, and what is left of the file. -/
def fgets : ℕ → List Char → List Char × List Char
  | _, [] => ([], [])
  | 0, file => ([], file)
  | n + 1, c :: file =>
    if c = '\n' then ([c], file)
    else
      let (str, rest) := fgets n file
      (c :: str, rest)

/-- The loop over the file, with a bound on the number of rounds. -/
def piecesLoop : ℕ → List Char → List (List Char)
  | 0, _ => []
  | _ + 1, [] => []
  | rounds + 1, c :: file =>
    let (str, rest) := fgets 99 (c :: file)
    str :: piecesLoop rounds rest

/-- The pieces `load_config` reads; a round takes one character at least. -/
def pieces (file : List Char) : List (List Char) := piecesLoop file.length file

/-- The key and the value of a piece that is a directive: a C string with an `=`, neither blank nor
a comment. -/
def directive (buff : List Char) : Option (List Char × List Char) :=
  if buff.head? = some '\n' ∨ buff.head? = some '#' then none
  else
    let str := buff.takeWhile (· ≠ '\x00')
    if '=' ∈ str then some (str.takeWhile (· ≠ '='), (str.dropWhile (· ≠ '=')).tail) else none

/-! ### Loading -/

/-- What the loop of `load_config` carries: `monitor_actions` and `mact`. -/
structure Loader where
  actions : Actions
  mact : ℤ

/-- The action a value stands for, given the action before. -/
def actionOf (value : List Char) (mact : ℤ) : ℤ :=
  if value = "ALLOW_LIND\n".toList then ALLOW_LIND
  else if value = "DENY_LIND\n".toList then DENY_LIND
  else if value = "ALLOW_OS\n".toList then ALLOW_OS
  else mact

/-- One round of `load_config`; the error is the argument of `exit`. -/
def loadPiece (l : Loader) (buff : List Char) : Except ℤ Loader :=
  match directive buff with
  | none => .ok l
  | some (key, value) =>
    let mact := actionOf value l.mact
    let sys := getSyscallNum key
    if l.actions sys = NO_VAL then .ok ⟨Function.update l.actions sys mact, mact⟩
    else .error (-1)

/-- The table before the first line: `NO_VAL` in it, and what lies `around` outside. -/
def emptyActions (around : Actions) : Actions := fun n ↦ if InTable n then NO_VAL else around n

/-- `load_config`. -/
def loadConfig (around : Actions) (file : List Char) : Except ℤ Actions := do
  let l ← (pieces file).foldlM loadPiece ⟨emptyActions around, ALLOW_LIND⟩
  return l.actions

/-- A piece of the file gives the call an action. -/
def Names (file : List Char) (n : ℤ) : Prop :=
  ∃ buff ∈ pieces file, ∃ d, directive buff = some d ∧ getSyscallNum d.1 = n

theorem loadPiece_actions {l l' : Loader} {buff : List Char} (h : loadPiece l buff = .ok l') {n : ℤ}
    (hn : ∀ d, directive buff = some d → getSyscallNum d.1 ≠ n) :
    l'.actions n = l.actions n := by
  unfold loadPiece at h
  cases hd : directive buff with
  | none =>
    rw [hd] at h
    cases h
    rfl
  | some d =>
    simp only [hd] at h
    split at h
    · cases h
      exact Function.update_of_ne (hn d hd).symm _ _
    · cases h

theorem foldlM_loadPiece_actions {bs : List (List Char)} {l l' : Loader}
    (h : bs.foldlM loadPiece l = .ok l') {n : ℤ}
    (hn : ∀ buff ∈ bs, ∀ d, directive buff = some d → getSyscallNum d.1 ≠ n) :
    l'.actions n = l.actions n := by
  induction bs generalizing l with
  | nil =>
    cases h
    rfl
  | cons b bs ih =>
    rw [List.foldlM_cons] at h
    cases hb : loadPiece l b with
    | error e =>
      rw [hb] at h
      cases h
    | ok l₁ =>
      rw [hb] at h
      rw [ih h fun buff hbuff ↦ hn buff (List.mem_cons_of_mem _ hbuff),
        loadPiece_actions hb (hn b List.mem_cons_self)]

/-- A call in the table that no piece names keeps `NO_VAL`. -/
theorem loadConfig_eq_noVal {around acts : Actions} {file : List Char}
    (h : loadConfig around file = .ok acts) {n : ℤ} (hn : ¬ Names file n) (hin : InTable n) :
    acts n = NO_VAL := by
  cases hl : (pieces file).foldlM loadPiece ⟨emptyActions around, ALLOW_LIND⟩ with
  | error e =>
    rw [loadConfig, hl] at h
    cases h
  | ok l =>
    rw [loadConfig, hl] at h
    cases h
    rw [foldlM_loadPiece_actions hl fun buff hbuff d hd hk ↦ hn ⟨buff, hbuff, d, hd, hk⟩]
    exact if_pos hin

end ReferenceMonitor
