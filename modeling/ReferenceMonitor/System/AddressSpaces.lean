import ReferenceMonitor.Monitor.HostCalls
import ReferenceMonitor.Monitor.Outcomes
import ReferenceMonitor.System.Phases

/-!
# Which handlers confuse the two address spaces

The trace of a run records every access, in the monitor's own address space, to an address that came
from the tracee. Reading code that records none is `Silent`, and a computation that adds none is
`Quiet`; both are composed along the bodies of the handlers. Four emulations load through a pointer
of the tracee whenever they run (`accept`, `getsockopt`, `sendmsg`, `recvmsg`), and `recvfrom`
stores through one where Lind's answer has something to store; every other handler is quiet.
-/

namespace ReferenceMonitor

open Halting

/-! ### Copies of a payload -/

theorem silent_copyData {p : Ptr} (h : p.IsOwn) (src : ℤ → Byte) (maxlen srclen : ℤ) :
    Silent (copyData p src maxlen srclen) := by
  refine (keeps_pure _).ite ?_
  cases p with
  | block b => exact (keeps_pure _).ite (keeps_stop _)
  | foreign a => exact h.elim
  | stray a => exact keeps_stop _

theorem silent_copyMultiLoop (src : ℤ → Byte) (rounds i : ℕ) (offset : ℤ) {varg : List Dest}
    (h : ∀ d ∈ varg, d.ptr.IsOwn) : Silent (copyMultiLoop src rounds i offset varg) := by
  induction rounds generalizing i offset varg with
  | zero => exact keeps_pure _
  | succ rounds ih =>
    cases varg with
    | nil => exact keeps_stop _
    | cons d varg =>
      exact (silent_copyData (h d List.mem_cons_self) _ _ _).bind fun _ ↦ (keeps_stop _).ite
        ((ih _ _ fun d' hd ↦ h d' (List.mem_cons_of_mem _ hd)).bind fun _ ↦ keeps_pure _)

theorem silent_copyPayload (num : ℕ) (data : List Byte) {varg : List Dest}
    (h : ∀ d ∈ varg, d.ptr.IsOwn) : Silent (copyPayload num data varg) := by
  refine keeps_ask.bind fun ⟨_, _⟩ ↦ Keeps.ite ?_ (Keeps.ite ?_ (keeps_pure _))
  · cases varg with
    | nil => exact keeps_stop _
    | cons d varg =>
      exact (silent_copyData (h d List.mem_cons_self) _ _ _).bind fun _ ↦ keeps_pure _
  · exact silent_copyMultiLoop _ _ _ _ h

/-! ### Computations that add no such access -/

/-- No access was added. -/
structure Quiet (w w' : World) : Prop where
  foreigns : w'.foreigns = w.foreigns

instance : Std.Refl Quiet := ⟨fun _ ↦ ⟨rfl⟩⟩

instance : IsTrans World Quiet := ⟨fun _ _ _ h h' ↦ ⟨h'.foreigns.trans h.foreigns⟩⟩

/-- The accesses of a reading run are added to the trace. -/
theorem foreigns_fetch {α : Type} (q : Fetch α) (env : Env) (w : World) :
    (fetch q env w).state.foreigns =
      (q (env, w.tracee.mem) []).state.map Event.foreign ++ w.foreigns := by
  have hall (log : List Word) : (log.map Event.foreign).filter Event.isForeign =
      log.map Event.foreign := by
    simp [List.filter_eq_self, Event.isForeign]
  rw [fetch, focus]
  cases q (env, w.tracee.mem) [] <;> simp [World.foreigns, List.filter_append, hall]

theorem quiet_fetch {α : Type} {q : Fetch α} (h : Silent q) : Keeps Quiet (fetch q) := by
  intro env w
  refine ⟨?_⟩
  rw [foreigns_fetch, ← h (env, w.tracee.mem) []]
  rfl

theorem quiet_record {e : Event} (h : e.isForeign = false) : Keeps Quiet (record e) :=
  keeps_modify fun w ↦ ⟨by simp [World.foreigns, h]⟩

theorem quiet_makeLindSysCall (r : Request) : Keeps Quiet (makeLindSysCall r) :=
  (keeps_modify fun _ ↦ ⟨rfl⟩).bind fun _ ↦
    keeps_ask.bind fun _ ↦ keeps_get.bind fun _ ↦ keeps_pure _

theorem quiet_parseResponse (response : Option Response) (num : ℕ) {varg : List Dest}
    (h : ∀ d ∈ varg, d.ptr.IsOwn) : Keeps Quiet (parseResponse response num varg) := by
  unfold parseResponse
  split
  · exact keeps_stop _
  · split
    · exact keeps_pure _
    · exact (keeps_modify fun _ ↦ ⟨rfl⟩).bind fun _ ↦ keeps_pure _
    · exact (keeps_modify fun _ ↦ ⟨rfl⟩).bind fun _ ↦
        (quiet_fetch (silent_copyPayload _ _ h)).bind fun _ ↦ keeps_pure _

theorem quiet_lindCall (r : Request) : Keeps Quiet (lindCall r) :=
  (quiet_makeLindSysCall r).bind fun _ ↦
    (quiet_parseResponse _ _ fun _ h ↦ absurd h List.not_mem_nil).bind fun _ ↦ keeps_pure _

theorem quiet_lindCallInto (r : Request) (b : Block) (maxlen : ℤ) :
    Keeps Quiet (lindCallInto r b maxlen) :=
  (quiet_makeLindSysCall r).bind fun _ ↦
    (quiet_parseResponse _ _ fun d h ↦ by
      rw [List.mem_singleton.1 h]
      trivial).bind fun _ ↦ keeps_pure _

theorem quiet_enterDescriptor (r : SyscallArgs) (otherwise : Option (Word × List CopyBack))
    (fd : ℤ) : Keeps Quiet (enterDescriptor r otherwise fd) :=
  Keeps.ite (((keeps_pure _).ite (keeps_modify fun _ ↦ ⟨rfl⟩)).bind fun _ ↦ keeps_pure _)
    (keeps_pure _)

theorem quiet_lindLseek (fd : ℤ) (offset : Word) (whence : ℤ) :
    Keeps Quiet (lindLseek fd offset whence) :=
  (quiet_lindCallInto _ _ _).bind fun _ ↦
    Keeps.ite (keeps_pure _) (keeps_ask.bind fun _ ↦ keeps_pure _)

theorem quiet_copyBacks (bs : List CopyBack) : Keeps Quiet (copyBacks bs) := by
  induction bs with
  | nil => exact keeps_pure _
  | cons b bs ih =>
    exact Keeps.bind ((quiet_record rfl).bind fun _ ↦ keeps_ask.bind fun _ ↦
      keeps_modify fun _ ↦ ⟨rfl⟩) fun _ ↦ ih

theorem quiet_finish (res : Option (Word × List CopyBack)) : Keeps Quiet (finish res) := by
  unfold finish
  split
  · exact keeps_pure _
  · exact (keeps_modify fun _ ↦ ⟨rfl⟩).bind fun _ ↦ (quiet_copyBacks _).bind fun _ ↦
      keeps_modify fun _ ↦ ⟨rfl⟩

theorem tolerates_quiet : Tolerates Quiet where
  branch _ _ := quiet_record rfl
  read h := quiet_fetch h
  setEntering _ := keeps_modify fun _ ↦ ⟨rfl⟩
  setRetval _ := keeps_modify fun _ ↦ ⟨rfl⟩
  setArgs := keeps_modify fun _ ↦ ⟨rfl⟩

/-! ### The emulations -/

theorem quiet_status {q : Fetch Request} (h : Silent q) : Keeps Quiet (status q) :=
  (quiet_fetch h).bind fun _ ↦ (quiet_lindCall _).bind fun _ ↦ keeps_pure _

theorem quiet_descriptor {q : SyscallArgs → Fetch Request} {r : SyscallArgs} (h : Silent (q r)) :
    Keeps Quiet (descriptor q r) :=
  (quiet_fetch h).bind fun _ ↦ (quiet_lindCall _).bind fun _ ↦ quiet_enterDescriptor _ _ _

theorem quiet_fillWith {size : ℕ} {dst count : Word} {q : Block → Fetch (Request × ℤ)}
    (h : ∀ b, Silent (q b)) : Keeps Quiet (fillWith size dst count q) :=
  (quiet_fetch (h _)).bind fun _ ↦ (quiet_lindCallInto _ _ _).bind fun _ ↦ keeps_pure _

theorem quiet_fill {o : Output} {q : Block → Fetch Request} (h : ∀ b, Silent (q b)) :
    Keeps Quiet (fill o q) :=
  quiet_fillWith fun b ↦ (h b).bind fun _ ↦ keeps_pure _

/-- The calls whose handlers access an address of the tracee whenever they run. -/
def LindCall.AlwaysForeign (c : LindCall) : Prop :=
  c = .accept ∨ c = .getsockopt ∨ c = .sendmsg ∨ c = .recvmsg

instance (c : LindCall) : Decidable c.AlwaysForeign := inferInstanceAs (Decidable (_ ∨ _))

/-- The other handlers are quiet, but for that of `recvfrom`. -/
theorem quiet_emulation {c : LindCall} (h : ¬ c.AlwaysForeign) (h' : c ≠ .recvfrom)
    (r : SyscallArgs) : Keeps Quiet (c.emulation r) := by
  cases c with
  | accept | getsockopt | sendmsg | recvmsg => exact absurd (by decide) h
  | recvfrom => exact absurd rfl h'
  | getuid | getpid | geteuid | getgid | getegid | flock | listen | shutdown =>
    exact quiet_status (keeps_pure _)
  | fcntl => exact quiet_status (silent_lindFcntl _ _)
  | rmdir | unlink | mkdir | chdir =>
    exact quiet_status ((silent_getPath _).bind fun _ ↦ keeps_pure _)
  | link =>
    exact quiet_status ((silent_getPath _).bind fun _ ↦ (silent_getPath _).bind fun _ ↦
      keeps_pure _)
  | write | bind | connect | setsockopt =>
    exact quiet_status ((silent_getMem _ _ _).bind fun _ ↦
      (silent_pyBytes (p := .block _) trivial _).bind fun _ ↦ keeps_pure _)
  | sendto =>
    exact quiet_status ((silent_getMem _ _ _).bind fun _ ↦ (silent_getMem _ _ _).bind fun _ ↦
      silent_lindSendto _ _ _ _ _)
  | dup | dup2 | dup3 | epoll_create1 | epoll_create | socket =>
    rw [LindCall.emulation]
    exact quiet_descriptor (keeps_pure _)
  | openat | access =>
    rw [LindCall.emulation]
    exact quiet_descriptor ((silent_getPath _).bind fun _ ↦ keeps_pure _)
  | read | getdents | fstat | fstatfs | epoll_wait =>
    rw [LindCall.emulation]
    exact quiet_fill fun _ ↦ keeps_pure _
  | stat | statfs =>
    rw [LindCall.emulation]
    exact quiet_fill fun _ ↦ (silent_getPath _).bind fun _ ↦ keeps_pure _
  | poll =>
    rw [LindCall.emulation]
    exact quiet_fill fun _ ↦ (silent_pyBytes (p := .block _) trivial _).bind fun _ ↦ keeps_pure _
  | getsockname =>
    exact (quiet_fetch (silent_getMem _ _ _)).bind fun _ ↦ keeps_ask.bind fun _ ↦
      (keeps_modify fun _ ↦ ⟨rfl⟩).bind fun _ ↦ quiet_fillWith fun _ ↦
        (silent_derefSocklen _).bind fun _ ↦ keeps_pure _
  | «open» =>
    exact (quiet_fetch (silent_getPath _)).bind fun _ ↦ (quiet_lindCall _).bind fun _ ↦
      quiet_enterDescriptor _ _ _
  | socketpair =>
    exact (quiet_fetch (silent_getMem _ _ _)).bind fun _ ↦
      (quiet_lindCallInto _ _ _).bind fun _ ↦ quiet_enterDescriptor _ _ _
  | close => exact (quiet_status (keeps_pure _)).ite (keeps_pure _)
  | getcwd => exact (quiet_fetch (silent_getPath _)).bind fun _ ↦ keeps_pure _
  | getpeername => exact keeps_pure _
  | lseek => exact (quiet_lindLseek _ _ _).bind fun _ ↦ keeps_pure _
  | pread64 =>
    exact (quiet_fetch (silent_getMem _ _ _)).bind fun _ ↦
      ((quiet_lindLseek _ _ _).bind fun _ ↦ (quiet_lindLseek _ _ _).bind fun _ ↦
        (quiet_lindCallInto _ _ _).bind fun _ ↦ (quiet_lindLseek _ _ _).bind fun _ ↦
          keeps_pure _).bind fun _ ↦ keeps_pure _
  | pwritev =>
    exact (quiet_fetch (silent_getMem _ _ _)).bind fun _ ↦
      ((quiet_lindLseek _ _ _).bind fun _ ↦ (quiet_lindLseek _ _ _).bind fun _ ↦
        (quiet_fetch ((silent_pyBytes (p := .block _) trivial _).bind fun _ ↦
          keeps_pure _)).bind fun _ ↦ (quiet_lindCall _).bind fun _ ↦
            (quiet_lindLseek _ _ _).bind fun _ ↦ keeps_pure _).bind fun _ ↦ keeps_pure _
  | epoll_ctl =>
    exact (quiet_fetch ((silent_getMem _ _ _).bind fun _ ↦
      (silent_pyBytes (p := .block _) trivial _).bind fun _ ↦ keeps_pure _)).bind fun _ ↦
        (quiet_lindCall _).bind fun _ ↦ keeps_pure _
  | select =>
    exact (quiet_fetch (silent_getMem _ _ _)).bind fun _ ↦
      (quiet_fetch (silent_getMem _ _ _)).bind fun _ ↦
        (quiet_fetch (silent_getMem _ _ _)).bind fun _ ↦
          (quiet_fetch (silent_getMem _ _ _)).bind fun _ ↦
            (keeps_ask.bind fun _ ↦ (quiet_lindCallInto _ _ _).bind fun _ ↦
              Keeps.ite (keeps_pure _) (keeps_pure _)).bind fun _ ↦ keeps_pure _

/-! ### The emulations that load through a pointer of the tracee -/

/-- The log has grown. -/
abbrev Loud {α : Type} (q : Fetch α) : Prop := Keeps (fun l l' ↦ l.length < l'.length) q

theorem Loud.bind {α β : Type} {x : Fetch α} {f : α → Fetch β} (hx : Loud x)
    (hf : ∀ a, Silent (f a)) : Loud (x >>= f) :=
  Keeps.comp hx hf (fun _ _ h ↦ h) fun _ _ _ h h' ↦ h' ▸ h

theorem loud_loadForeign (a : Word) (n : ℕ) : Loud (loadForeign a n) :=
  Loud.bind (keeps_modify fun _ ↦ Nat.lt_succ_self _) fun _ ↦ silent_loadOwn _ _

theorem loud_derefSocklen (a : Word) : Loud (derefSocklen (.foreign a)) :=
  Loud.bind (loud_loadForeign _ _) fun _ ↦ keeps_pure _

/-- A small `get_mem` does not halt. -/
theorem loud_getMem_bind {α : Type} {number : ℕ} {addr count : Word} {f : Block → Fetch α}
    (hcount : count.toNat / 8 + 1 < 2 ^ 31) (hf : ∀ b, Loud (f b)) :
    Loud (getMem number addr count >>= f) := by
  rintro ⟨env, m⟩ log
  rw [bind_apply, getMem_apply hcount]
  exact hf _ _ _

theorem loud_readMsghdr (r : SyscallArgs) : Loud (readMsghdr r) :=
  loud_getMem_bind (by decide) fun _ p ↦
    (Loud.bind (loud_loadForeign _ _) fun _ ↦ (silent_getMem _ _ _).bind fun _ ↦ keeps_pure _) p

/-- There are more accesses. -/
def Louder (w w' : World) : Prop := w.foreigns.length < w'.foreigns.length

theorem louder_fetch {α : Type} {q : Fetch α} (h : Loud q) : Keeps Louder (fetch q) := by
  intro env w
  have hpos := h (env, w.tracee.mem) []
  rw [Louder, foreigns_fetch, List.length_append, List.length_map]
  simp only [List.length_nil] at hpos
  omega

theorem Louder.bind {α β : Type} {x : M α} {f : α → M β} (hx : Keeps Louder x)
    (hf : ∀ a, Keeps Quiet (f a)) : Keeps Louder (x >>= f) :=
  Keeps.comp hx hf (fun _ _ h ↦ h) fun _ _ _ h h' ↦ by
    rw [Louder, h'.foreigns]
    exact h

theorem louder_emulation {c : LindCall} (h : c.AlwaysForeign) (r : SyscallArgs) :
    Keeps Louder (c.emulation r) := by
  rcases h with rfl | rfl | rfl | rfl
  · exact Louder.bind
      (louder_fetch (loud_getMem_bind (by decide) fun _ ↦ (loud_derefSocklen _).bind fun _ ↦
        (silent_pyBytes (p := .block _) trivial _).bind fun _ ↦ keeps_pure _))
      fun _ ↦ (quiet_lindCall _).bind fun _ ↦ quiet_enterDescriptor _ _ _
  · exact Louder.bind
      (louder_fetch ((loud_derefSocklen _).bind fun _ ↦ keeps_pure _))
      fun _ ↦ (quiet_lindCallInto _ _ _).bind fun _ ↦ keeps_pure _
  · exact Louder.bind
      (louder_fetch ((loud_readMsghdr r).bind fun v ↦ (silent_handOn v).bind fun _ ↦
        (silent_fetchData v _).bind fun _ ↦ silent_msgRequest _ _ _ _))
      fun _ ↦ (quiet_lindCall _).bind fun _ ↦ keeps_pure _
  · exact Louder.bind (louder_fetch (loud_readMsghdr r)) fun v ↦
      (quiet_fetch ((silent_handOn v).bind fun _ ↦ silent_msgRequest _ _ _ _)).bind fun _ ↦
        (quiet_lindCall _).bind fun _ ↦ keeps_ask.bind fun _ ↦ keeps_pure _

/-! ### `recvfrom` -/

/-- Lind's answer to `recvfrom` succeeds, and has something to store through the first destination:
its first length is not zero. -/
def StoresLength (env : Env) (w : World) (r : SyscallArgs) : Prop :=
  match verdictOn env w (recvfromRequest r) with
  | some (.success _ data) =>
    0 < wrapInt data.length ∧ lengthAt (payloadAt env data) 0 ≠ 0
  | _ => False

/-- The only destination of the tracee is the first one, of four bytes. -/
theorem state_copyPayload_foreign (env : Env) (m : ByteMemory) (data : List Byte) (a : Word)
    {varg : List Dest} (h : ∀ d ∈ varg, d.ptr.IsOwn) :
    (copyPayload 3 data (⟨.foreign a, 4⟩ :: varg) (env, m) []).state =
      if 0 < wrapInt data.length ∧ lengthAt (payloadAt env data) 0 ≠ 0 then [a] else [] := by
  have hmulti : copyPayload 3 data (⟨.foreign a, 4⟩ :: varg) (env, m) [] =
      copyMultiLoop (payloadAt env data) (wrapInt data.length).toNat 0
        (wrapInt (4 * wrapInt data.length)) (⟨.foreign a, 4⟩ :: varg) (env, m) [] := rfl
  rw [hmulti]
  cases hn : (wrapInt data.length).toNat with
  | zero =>
    rw [if_neg (by omega)]
    rfl
  | succ n =>
    rw [copyMultiLoop, bind_apply, copyData]
    -- a part of no bytes is not copied, and the parts after it go to blocks of the monitor
    by_cases hlen : lengthAt (payloadAt env data) 0 = 0
    · rw [if_pos (by rw [hlen]; rfl), if_neg (by simp [hlen])]
      have hrest (d : Ptr) : Silent (if 2 ^ 31 ≤ wrapInt (4 * wrapInt data.length) +
          lengthAt (payloadAt env data) 0 ∨ wrapInt (4 * wrapInt data.length) +
            lengthAt (payloadAt env data) 0 < -2 ^ 31 then stop .intOverflow
          else return d :: (← copyMultiLoop (payloadAt env data) n 1
            (wrapInt (4 * wrapInt data.length) + lengthAt (payloadAt env data) 0) varg)) :=
        (keeps_stop _).ite ((silent_copyMultiLoop _ _ _ _ h).bind fun _ ↦ keeps_pure _)
      exact (hrest (.foreign a) (env, m) []).symm
    · have hcopy : copyLen 4 (lengthAt (payloadAt env data) 0) ≠ 0 := by
        rw [copyLen]
        split <;> omega
      rw [if_neg hcopy, if_pos ⟨by omega, hlen⟩]
      rfl

theorem foreigns_monitorRecvfrom (r : SyscallArgs) (env : Env) (w : World) :
    (StoresLength env w r →
      (monitorRecvfrom r env w).state.foreigns = .foreign r.arg6 :: w.foreigns) ∧
    (¬ StoresLength env w r → (monitorRecvfrom r env w).state.foreigns = w.foreigns) := by
  rw [monitorRecvfrom_apply, StoresLength]
  cases verdictOn env w (recvfromRequest r) with
  | none => exact ⟨fun h ↦ h.elim, fun _ ↦ rfl⟩
  | some v =>
    have hf := foreigns_fetch (recvfromReceived r v) env
      (w.answered (recvfromRequest r) v)
    dsimp only at hf ⊢
    have hstate (o : Outcome Halt World (List Ptr)) : (o.andThen fun dsts t ↦
        .done (some (ofInt v.status, recvfromBacks r dsts)) t).state = o.state := by
      cases o <;> rfl
    rw [hstate, hf]
    cases v with
    | failed => exact ⟨fun h ↦ h.elim, fun _ ↦ rfl⟩
    | error code => exact ⟨fun h ↦ h.elim, fun _ ↦ rfl⟩
    | success code data =>
      have hown : ∀ d ∈ recvfromBuffers r, d.ptr.IsOwn := by simp [recvfromBuffers, Ptr.IsOwn]
      rw [recvfromReceived, recvfromDests, state_copyPayload_foreign _ _ _ _ hown]
      exact ⟨fun h ↦ by rw [if_pos h]; rfl, fun h ↦ by rw [if_neg h]; rfl⟩

/-! ### A round -/

/-- The emulation of the call accesses, in the monitor's address space, an address of the tracee. -/
def Dereferences (env : Env) (w : World) (n : ℤ) (r : SyscallArgs) : Prop :=
  match LindCall.ofNr n with
  | some .recvfrom => StoresLength env w r
  | some c => c.AlwaysForeign
  | none => False

theorem foreigns_leave_iff (n : ℤ) (env : Env) (w : World) :
    (leave (emulationOf n) env w).state.foreigns = w.foreigns ↔
      ¬ Dereferences env w n w.regs := by
  have hleave : leave (emulationOf n) env w =
      (emulationOf n w.regs env w).andThen fun a u ↦ finish a env u := rfl
  have hstate : (leave (emulationOf n) env w).state.foreigns =
      (emulationOf n w.regs env w).state.foreigns := by
    rw [hleave]
    cases emulationOf n w.regs env w with
    | done a u => exact (quiet_finish a env u).foreigns
    | halt e u => rfl
  rw [hstate, emulationOf, Dereferences]
  cases LindCall.ofNr n with
  | none =>
    exact iff_of_true
      ((quiet_record (e := .namesAt _) rfl).bind (fun _ ↦ keeps_pure _) env w).foreigns not_false
  | some c =>
    -- of the handlers only that of `recvfrom` depends on the answer
    by_cases hr : c = .recvfrom
    · subst hr
      obtain ⟨hyes, hno⟩ := foreigns_monitorRecvfrom w.regs env w
      refine ⟨fun h hs ↦ ?_, hno⟩
      have hlen := congrArg List.length ((hyes hs).symm.trans h)
      simp at hlen
    · have hmatch : (match some c with
          | some .recvfrom => StoresLength env w w.regs
          | some c => c.AlwaysForeign
          | none => False) = c.AlwaysForeign := by
        cases c <;> first | rfl | exact absurd rfl hr
      rw [hmatch]
      by_cases hc : c.AlwaysForeign
      · refine iff_of_false (fun h ↦ ?_) (not_not.2 hc)
        have hlt := louder_emulation hc w.regs env w
        rw [Louder, h] at hlt
        exact absurd hlt (lt_irrefl _)
      · exact iff_of_true (quiet_emulation hc hr w.regs env w).foreigns hc

/-- A handler that is quiet makes a quiet round. -/
theorem foreigns_round_of_quiet {acts : Actions} {s : Sys} {rep : Report}
    (hstop : rep.stop.IsSyscall)
    (h : Keeps Quiet ((choice acts rep.tracee.regs.orig_rax).handler rep.tracee.regs.orig_rax)) :
    (s.round acts rep).state.foreigns = s.world.foreigns := by
  rw [state_round_syscall acts s hstop]
  exact (h rep.env (s.world.atStop rep.tracee)).foreigns

/-- **The address spaces in a round.** In any state and for any tracee, a round accesses an address
of the tracee in the monitor's address space exactly where a leaving branch runs the handler of
`accept`, `getsockopt`, `sendmsg` or `recvmsg`, or that of `recvfrom` on an answer with a length to
store. -/
theorem foreigns_round_iff (acts : Actions) (s : Sys) (rep : Report) :
    (s.round acts rep).state.foreigns = s.world.foreigns ↔
      ¬ (rep.stop.IsSyscall ∧ s.world.entering = false ∧
          choice acts rep.tracee.regs.orig_rax = .lind ∧
          Dereferences rep.env s.world (cInt rep.tracee.regs.orig_rax)
            (argsOf rep.tracee.regs)) := by
  by_cases hstop : rep.stop.IsSyscall
  swap
  · refine iff_of_true ?_ fun h ↦ hstop h.1
    obtain ⟨regs, hstate⟩ := state_round_of_not_syscall acts s hstop
    rw [hstate]
    rfl
  by_cases hlind : choice acts rep.tracee.regs.orig_rax = .lind
  swap
  · refine iff_of_true (foreigns_round_of_quiet hstop ?_) fun h ↦ hlind h.2.2.1
    cases hc : choice acts rep.tracee.regs.orig_rax with
    | deny => exact tolerates_quiet.monitorDeny fun _ ↦ quiet_record rfl
    | os => exact tolerates_quiet.osHandlerOf (fun _ ↦ quiet_record rfl) fun _ ↦
      tolerates_quiet.monitorMmap fun _ _ ↦ ⟨rfl⟩
    | lind => exact absurd hc hlind
    | nothing => exact keeps_pure _
  cases hflag : s.world.entering with
  | true =>
    rw [round_entering hstop hflag hlind]
    exact iff_of_true rfl fun h ↦ Bool.noConfusion h.2.1
  | false =>
    rw [round_leaving hstop hflag hlind]
    have hl := foreigns_leave_iff (cInt rep.tracee.regs.orig_rax) rep.env
      (s.world.atLeave rep.tracee)
    have hboth (p : Prop) : ¬ p ↔ ¬ (rep.stop.IsSyscall ∧ false = false ∧
        choice acts rep.tracee.regs.orig_rax = .lind ∧ p) := by simp [hstop, hlind]
    refine Iff.trans ?_ (hl.trans (hboth _))
    generalize leave (emulationOf (cInt rep.tracee.regs.orig_rax)) rep.env
      (s.world.atLeave rep.tracee) = o
    cases o <;> exact Iff.rfl

/-- The entry stop of `accept (0, NULL, NULL)`. -/
def acceptEntry : Report := ⟨.entry, ⟨callRegs 43, nullMemory⟩, steadyEnv none⟩

/-- Its exit stop. -/
def acceptExit : Report := ⟨.exit, ⟨callRegs 43, nullMemory⟩, steadyEnv none⟩

theorem run_acceptEntry :
    Run (Step lindActs) bootSys ([] ++ [acceptEntry]) (bootSys.step lindActs acceptEntry) :=
  Run.nil.snoc ⟨rfl, trivial, rfl⟩

theorem step_acceptExit : Step lindActs (bootSys.step lindActs acceptEntry) acceptExit
    ((bootSys.step lindActs acceptEntry).step lindActs acceptExit) :=
  ⟨rfl, ⟨rfl, by decide⟩, rfl⟩

/-- The address spaces are not kept apart: `accept (0, NULL, NULL)` loads through a null pointer. -/
theorem not_foreigns_kept : ¬ ∀ (acts : Actions) (start s t : Sys) (reps : List Report)
    (rep : Report), Initial start → Run (Step acts) start reps s → Step acts s rep t →
      t.world.foreigns = s.world.foreigns := fun h ↦
  absurd (h lindActs bootSys _ _ _ acceptExit initial_bootSys run_acceptEntry step_acceptExit)
    (by decide)

end ReferenceMonitor
