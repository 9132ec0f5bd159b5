import ReferenceMonitor.Monitor.Intercept
import ReferenceMonitor.Monitor.Outcomes

/-!
# What an emulation makes of Lind's answer

Almost every emulation reads the tracee, asks Lind once, and is decided by the verdict on the
answer. `LindCall.reply` is that decision, a function of the registers, the tracee's memory and the
verdict; `LindCall.entered` is what the emulation enters in the descriptor table.
`exchange_emulation` is the inversion lemma: it lists the ways such an emulation can end, with the
requests it has sent by then.

`pread64` and `pwritev` send four requests, and `getcwd` and `getpeername` none.
-/

namespace ReferenceMonitor

open Halting

/-- What an emulation yields. -/
abbrev Result := Option (Word × List CopyBack)

/-! ### Replies -/

/-- The result of a call whose status is treated as a descriptor. -/
def enterResult (otherwise : Result) (v : Verdict) : Result :=
  if 0 ≤ v.status then some (ofInt v.status, []) else otherwise

/-- What such a call enters in the descriptor table. -/
def enteredFd (r : SyscallArgs) (v : Verdict) : List (ℤ × ℤ) :=
  if 0 ≤ v.status ∧ 0 ≤ cInt r.retval then [(cInt r.retval, v.status)] else []

/-- The length word at a tracee's pointer, loaded by `lind_getsockopt` from the monitor's memory. -/
def ownSocklen (env : Env) (m : ByteMemory) (a : Word) : ℤ :=
  (derefSocklen (.foreign a) (env, m) []).toOption.getD 0

/-- The buffer of the calls that fill one and copy it back. -/
def LindCall.output (env : Env) (m : ByteMemory) (r : SyscallArgs) : LindCall → Option Output
  | read | getdents => some (bufferOutput r)
  | fstat | stat => some (structOutput sizeofStat r.arg2)
  | statfs | fstatfs => some (structOutput sizeofStatfs r.arg2)
  | poll => some (pollOutput r)
  | epoll_wait => some (structOutput sizeofEpollEvent r.arg2)
  | getsockname =>
    some ⟨sizeofSockaddr, socklenAt m r.arg3, r.arg2, BitVec.ofNat 64 sizeofSockaddr⟩
  | getsockopt =>
    some ⟨sizeofSockaddr, ownSocklen env m r.arg5, r.arg4, BitVec.ofNat 64 sizeofSockaddr⟩
  | _ => none

/-- The copies of `monitor_select`. -/
def selectBacks (r : SyscallArgs) (sets : Block × Block × Block × Block) : List CopyBack :=
  let fdSet := BitVec.ofNat 64 sizeofFdSet
  [⟨r.arg2, sets.1, fdSet⟩, ⟨r.arg3, sets.2.1, fdSet⟩, ⟨r.arg4, sets.2.2.1, fdSet⟩,
    ⟨r.arg5, sets.2.2.2, BitVec.ofNat 64 sizeofTimeval⟩]

/-- The four arguments of `select`, as `monitor_select` reads them. -/
def selectSets (m : ByteMemory) (r : SyscallArgs) : Block × Block × Block × Block :=
  (memBlock 0 m r.arg2 17, memBlock 1 m r.arg3 17, memBlock 2 m r.arg4 17, memBlock 3 m r.arg5 3)

/-- The four arguments after `lind_select` has copied its local `result` to them. -/
def selectFilled (result : Block) (sets : Block × Block × Block × Block) :
    Block × Block × Block × Block :=
  let part (o n : ℕ) : List Cell := (result.cells.drop o).take n
  (sets.1.store (part 16 sizeofFdSet), sets.2.1.store (part 144 sizeofFdSet),
    sets.2.2.1.store (part 272 sizeofFdSet), sets.2.2.2.store (part 0 sizeofTimeval))

/-- The header `monitor_recvmsg` reads, where it can be read. -/
def msgView (env : Env) (m : ByteMemory) (r : SyscallArgs) : MsgView :=
  (readMsghdr r (env, m) []).toOption.getD default

/-- The result of an emulation, by the verdict on the answer to its own request; nothing where the
copying of the payload halts. -/
def LindCall.reply (env : Env) (m : ByteMemory) (r : SyscallArgs) (v : Verdict) (c : LindCall) :
    Option Result :=
  let ret := ofInt v.status
  match c with
  | openat | access | dup | dup2 | dup3 | epoll_create1 | epoll_create | socket | accept =>
    some (enterResult (some (-1, [])) v)
  | .open => some (enterResult none v)
  | socketpair =>
    (received env (memBlock 0 m r.arg4 2) 8 v).map fun _ ↦ enterResult (some (-1, [])) v
  | lseek =>
    (received env (malloc 4 8) 8 v).map fun b ↦
      some (if v.status < 0 then ret else b.wordAt env 0, [])
  | epoll_ctl =>
    let size := sizeofEpollEvent
    some (some (ret, [⟨r.arg4, malloc 0 size, BitVec.ofNat 64 size⟩]))
  | select =>
    (received env (malloc 4 400) 400 v).map fun result ↦
      some (ret, selectBacks r (if v.status < 0 then selectSets m r
        else selectFilled result (selectSets m r)))
  | recvfrom =>
    (recvfromReceived r v (env, m) []).toOption.map fun dsts ↦ some (ret, recvfromBacks r dsts)
  | recvmsg => some (some (ret, recvmsgBacks env (msgView env m r)))
  | pread64 =>
    (received env (memBlock 0 m r.arg2 (r.arg3.toNat / 8 + 1)) (cInt r.arg3) v).map fun _ ↦
      some (ret, [])
  | c =>
    match c.output env m r with
    | some o =>
      (received env (malloc 0 o.size) o.limit v).map fun b ↦ some (ret, [⟨o.dst, b, o.count⟩])
    | none => some (some (ret, []))

/-- The calls whose result is entered in the descriptor table. -/
def LindCall.Creates : LindCall → Bool
  | .open | openat | access | dup | dup2 | dup3 | epoll_create1 | epoll_create | socket | accept
  | socketpair => true
  | _ => false

/-- What an emulation enters in the descriptor table. -/
def LindCall.entered (r : SyscallArgs) (v : Verdict) (c : LindCall) : List (ℤ × ℤ) :=
  if c.Creates then enteredFd r v else []

/-- The request of an emulation whose answer decides its result. -/
def LindCall.own : LindCall → ℕ
  | pread64 | pwritev => 3
  | _ => 1

theorem own_cases (c : LindCall) : c.own = 1 ∨ c.own = 3 := by cases c <;> decide

/-! ### The ways an exchange can end -/

/-- How a computation ends that asks Lind at most once: without asking, unanswered, halted by what
the answer says, or with the reply to it. -/
inductive Exchange (env : Env) (reply : Verdict → Option Result)
    (entered : Verdict → List (ℤ × ℤ)) (before : List Request) (table : List (ℤ × ℤ)) :
    Outcome Halt World Result → Prop
  | halted {e : Halt} {u : World} : u.requests = before → Exchange env reply entered before table
      (.halt e u)
  | idle {u : World} : u.requests = before → u.mappings = table →
      Exchange env reply entered before table (.done none u)
  | raised {e : Halt} {u : World} {request : Request} : u.requests = request :: before →
      env.lind u.requests = none → Exchange env reply entered before table (.halt e u)
  | spoiled {e : Halt} {u : World} {request : Request} {resp : Response} :
      u.requests = request :: before → env.lind u.requests = some resp →
      reply (judge resp) = none → Exchange env reply entered before table (.halt e u)
  | replied {u : World} {request : Request} {resp : Response} {res : Result} :
      u.requests = request :: before → env.lind u.requests = some resp →
      reply (judge resp) = some res → u.mappings = entered (judge resp) ++ table →
      Exchange env reply entered before table (.done res u)

section Exchange

variable {env : Env} {w : World} {reply : Verdict → Option Result}
  {entered : Verdict → List (ℤ × ℤ)} {before : List Request} {table : List (ℤ × ℤ)}

/-- Reading comes before asking. -/
theorem Exchange.fetch_bind {α : Type} {q : Fetch α} {f : α → M Result}
    (hw : w.requests = before)
    (h : ∀ a log, q (env, w.tracee.mem) [] = .done a log →
      Exchange env reply entered before table
        (f a env { w with trace := log.map Event.foreign ++ w.trace })) :
    Exchange env reply entered before table ((fetch q >>= f) env w) := by
  rw [bind_apply]
  cases hq : q (env, w.tracee.mem) [] with
  | done a log =>
    rw [fetch_done hq]
    exact h a log hq
  | halt e log =>
    rw [fetch_halt hq]
    exact .halted hw

/-- What follows an answered request, without a buffer. -/
theorem Exchange.lindCall_bind {request : Request} {f : ℤ → M Result}
    (hw : w.requests = before)
    (h : ∀ v, ∃ res u, f v.status env (w.answered request v) = .done res u ∧ reply v = some res ∧
      u.requests = request :: before ∧ u.mappings = entered v ++ table) :
    Exchange env reply entered before table ((lindCall request >>= f) env w) := by
  subst hw
  rw [bind_apply, lindCall_apply, verdictOn]
  cases hl : env.lind (request :: w.requests) with
  | none => exact .raised rfl hl
  | some resp =>
    obtain ⟨res, u, hf, hres, hreq, hmap⟩ := h (judge resp)
    rw [Option.map_some]
    dsimp only
    rw [Outcome.andThen_done, hf]
    exact .replied hreq (by rw [hreq, hl]) hres hmap

/-- What follows an answered request, with a buffer for the payload. -/
theorem Exchange.lindCallInto_bind {request : Request} {b : Block} {maxlen : ℤ}
    {f : ℤ × Block → M Result} (hw : w.requests = before)
    (hspoil : ∀ v, received env b maxlen v = none → reply v = none)
    (h : ∀ v b', received env b maxlen v = some b' →
      ∃ res u, f (v.status, b') env (w.answered request v) = .done res u ∧ reply v = some res ∧
        u.requests = request :: before ∧ u.mappings = entered v ++ table) :
    Exchange env reply entered before table ((lindCallInto request b maxlen >>= f) env w) := by
  subst hw
  rw [bind_apply, lindCallInto_apply, verdictOn]
  cases hl : env.lind (request :: w.requests) with
  | none => exact .raised rfl hl
  | some resp =>
    rw [Option.map_some]
    dsimp only
    cases hb : received env b maxlen (judge resp) with
    | none =>
      exact .spoiled (requests_answered _ _ _) (by rw [requests_answered, hl]) (hspoil _ hb)
    | some b' =>
      obtain ⟨res, u, hf, hres, hreq, hmap⟩ := h _ b' hb
      dsimp only
      rw [Outcome.andThen_done, hf]
      exact .replied hreq (by rw [hreq, hl]) hres hmap

/-! ### The families -/

theorem exchange_status {q : Fetch Request} :
    Exchange env (fun v ↦ some (some (ofInt v.status, []))) (fun _ ↦ []) w.requests w.mappings
      (status q env w) :=
  .fetch_bind rfl fun _ _ _ ↦ .lindCall_bind rfl fun _ ↦
    ⟨_, _, rfl, rfl, requests_answered _ _ _, mappings_answered _ _ _⟩

/-- `enterDescriptor`, as a result and what is entered. -/
theorem enterDescriptor_done (r : SyscallArgs) (otherwise : Result) (v : Verdict) (env : Env)
    (u : World) :
    ∃ u', enterDescriptor r otherwise v.status env u = .done (enterResult otherwise v) u' ∧
      u'.requests = u.requests ∧ u'.mappings = enteredFd r v ++ u.mappings := by
  rw [enterDescriptor_apply, enterResult, enteredFd]
  by_cases hv : 0 ≤ v.status
  · rw [if_pos hv, if_pos hv]
    refine ⟨_, rfl, rfl, ?_⟩
    by_cases hr : 0 ≤ cInt r.retval
    · simp [hv, hr]
    · simp [hr]
  · rw [if_neg hv, if_neg hv]
    exact ⟨u, rfl, rfl, by simp [hv]⟩

/-- A result entered in the table. -/
theorem exchange_enter {r : SyscallArgs} {otherwise : Result} {request : Request}
    (hw : w.requests = before) (ht : w.mappings = table) :
    Exchange env (fun v ↦ some (enterResult otherwise v)) (enteredFd r) before table
      ((lindCall request >>= enterDescriptor r otherwise) env w) := by
  refine .lindCall_bind hw fun v ↦ ?_
  obtain ⟨u, hu, hreq, hmap⟩ := enterDescriptor_done r otherwise v env (w.answered request v)
  exact ⟨_, u, hu, rfl, by rw [hreq, requests_answered, hw], by rw [hmap, mappings_answered, ht]⟩

theorem exchange_descriptor {q : SyscallArgs → Fetch Request} {r : SyscallArgs} :
    Exchange env (fun v ↦ some (enterResult (some (-1, [])) v)) (enteredFd r) w.requests w.mappings
      (descriptor q r env w) :=
  .fetch_bind rfl fun _ _ _ ↦ exchange_enter rfl rfl

theorem exchange_fillWith {size : ℕ} {dst count : Word} {q : Block → Fetch (Request × ℤ)}
    {limit : ℤ} (hw : w.requests = before) (ht : w.mappings = table)
    (hq : ∀ request n log, q (malloc 0 size) (env, w.tracee.mem) [] =
      .done (request, n) log → n = limit) :
    Exchange env
      (fun v ↦ (received env (malloc 0 size) limit v).map fun b ↦
        some (ofInt v.status, [⟨dst, b, count⟩]))
      (fun _ ↦ []) before table (fillWith size dst count q env w) := by
  refine .fetch_bind hw fun ⟨request, n⟩ log hdone ↦ ?_
  rw [hq request n log hdone]
  refine .lindCallInto_bind hw (fun v hv ↦ by rw [hv, Option.map_none]) fun v b hb ↦ ?_
  exact ⟨_, _, rfl, by rw [hb, Option.map_some], (requests_answered _ _ _).trans (by rw [← hw]),
    (mappings_answered _ _ _).trans ht⟩

theorem exchange_fill {o : Output} {q : Block → Fetch Request} :
    Exchange env
      (fun v ↦ (received env (malloc 0 o.size) o.limit v).map fun b ↦
        some (ofInt v.status, [⟨o.dst, b, o.count⟩]))
      (fun _ ↦ []) w.requests w.mappings (fill o q env w) := by
  refine exchange_fillWith rfl rfl fun request n log hdone ↦ ?_
  obtain ⟨a, t, -, ha⟩ := Outcome.andThen_eq_done_iff.1 hdone
  cases ha
  rfl

/-! ### Every emulation that asks once -/

theorem exchange_getsockopt (r : SyscallArgs) :
    Exchange env (fun v ↦ LindCall.reply env w.tracee.mem r v .getsockopt) (fun _ ↦ []) w.requests
      w.mappings (monitorGetsockopt r env w) := by
  refine exchange_fillWith rfl rfl fun request n log hdone ↦ ?_
  obtain ⟨a, t, hd, ha⟩ := Outcome.andThen_eq_done_iff.1 hdone
  cases ha
  rw [ownSocklen, hd]
  rfl

theorem exchange_socketpair (r : SyscallArgs) :
    Exchange env (fun v ↦ LindCall.reply env w.tracee.mem r v .socketpair) (enteredFd r) w.requests
      w.mappings (monitorSocketpair r env w) := by
  rw [monitorSocketpair, bind_apply, fetch_getMem (by decide), Outcome.andThen_done]
  refine .lindCallInto_bind rfl (fun v hv ↦ ?_) fun v b hb ↦ ?_
  · exact congrArg (Option.map _) hv
  · obtain ⟨u, hu, hreq, hmap⟩ :=
      enterDescriptor_done r (some (-1, [])) v env (w.answered _ v)
    exact ⟨_, u, hu, congrArg (Option.map _) hb, by rw [hreq, requests_answered],
      by rw [hmap, mappings_answered]⟩

theorem exchange_lseek (r : SyscallArgs) :
    Exchange env (fun v ↦ LindCall.reply env w.tracee.mem r v .lseek) (fun _ ↦ []) w.requests
      w.mappings (monitorLseek r env w) := by
  rw [monitorLseek, lindLseek, bind_assoc]
  refine .lindCallInto_bind rfl (fun v hv ↦ ?_) fun v b hb ↦ ?_
  · exact congrArg (Option.map _) hv
  · refine ⟨some (if v.status < 0 then ofInt v.status else b.wordAt env 0, []), w.answered _ v, ?_,
      congrArg (Option.map _) hb, requests_answered _ _ _, mappings_answered _ _ _⟩
    simp only [bind_apply, ite_run]
    split <;> rfl

/-- The request of `monitor_select`: the number of descriptors, and a string for each block. -/
def selectRequest (env : Env) (r : SyscallArgs) (sets : Block × Block × Block × Block) : Request :=
  let str (b : Block) (n : ℕ) : PyVal := .str ((List.range n).map fun i : ℕ ↦ b.byteAt env i)
  ⟨LIND_safe_net_select, [.int (cInt r.arg1), str sets.1 sizeofFdSet, str sets.2.1 sizeofFdSet,
    str sets.2.2.1 sizeofFdSet, str sets.2.2.2 sizeofTimeval]⟩

/-- `monitor_select`, by the verdict. -/
theorem monitorSelect_apply (r : SyscallArgs) (env : Env) (w : World) :
    let sets := selectSets w.tracee.mem r
    let request := selectRequest env r sets
    monitorSelect r env w =
      match verdictOn env w request with
      | none => .halt (.segv 0) (w.send request)
      | some v =>
        match received env (malloc 4 400) 400 v with
        | none => .halt .corrupt (w.answered request v)
        | some result => .done (some (ofInt v.status, selectBacks r
            (if v.status < 0 then sets else selectFilled result sets))) (w.answered request v) := by
  have hset : (BitVec.ofNat 64 sizeofFdSet).toNat / 8 + 1 < 2 ^ 31 := by decide
  have htime : (BitVec.ofNat 64 sizeofTimeval).toNat / 8 + 1 < 2 ^ 31 := by decide
  rw [monitorSelect]
  simp only [bind_apply, fetch_getMem hset, fetch_getMem htime, Outcome.andThen_done]
  rw [lindSelect, bind_apply, ask_apply, Outcome.andThen_done]
  dsimp only
  rw [bind_apply, lindCallInto_apply]
  show ((match verdictOn env w (selectRequest env r (selectSets w.tracee.mem r)) with
    | none => _ | some v => _ : Outcome Halt World _).andThen _).andThen _ = _
  cases verdictOn env w (selectRequest env r (selectSets w.tracee.mem r)) with
  | none => rfl
  | some v =>
    dsimp only
    cases received env (malloc 4 400) 400 v with
    | none => rfl
    | some result =>
      simp only [Outcome.andThen_done, ite_run]
      split <;> rfl

theorem exchange_select (r : SyscallArgs) :
    Exchange env (fun v ↦ LindCall.reply env w.tracee.mem r v .select) (fun _ ↦ []) w.requests
      w.mappings (monitorSelect r env w) := by
  rw [monitorSelect_apply, verdictOn]
  cases hl : env.lind (selectRequest env r (selectSets w.tracee.mem r) :: w.requests) with
  | none => exact .raised rfl hl
  | some resp =>
    rw [Option.map_some]
    dsimp only
    cases hb : received env (malloc 4 400) 400 (judge resp) with
    | none =>
      exact .spoiled (requests_answered _ _ _) (by rw [requests_answered, hl])
        (congrArg (Option.map _) hb)
    | some result =>
      exact .replied (requests_answered _ _ _) (by rw [requests_answered, hl])
        (congrArg (Option.map _) hb) (mappings_answered _ _ _)

theorem exchange_recvfrom (r : SyscallArgs) :
    Exchange env (fun v ↦ LindCall.reply env w.tracee.mem r v .recvfrom) (fun _ ↦ []) w.requests
      w.mappings (monitorRecvfrom r env w) := by
  rw [monitorRecvfrom_apply, verdictOn]
  cases hl : env.lind (recvfromRequest r :: w.requests) with
  | none => exact .raised rfl hl
  | some resp =>
    rw [Option.map_some]
    dsimp only
    have hmem : (w.answered (recvfromRequest r) (judge resp)).tracee = w.tracee := by
      cases judge resp <;> rfl
    cases ho : recvfromReceived r (judge resp) (env, w.tracee.mem) [] with
    | done dsts log =>
      rw [fetch_done (by rw [hmem, ho]), Outcome.andThen_done]
      exact .replied (requests_answered _ _ _) (by rw [← hl, ← requests_answered])
        (congrArg (fun o : Outcome Halt (List Word) (List Ptr) ↦ o.toOption.map fun dsts ↦
          some (ofInt (judge resp).status, recvfromBacks r dsts)) ho) (mappings_answered _ _ _)
    | halt e log =>
      rw [fetch_halt (by rw [hmem, ho]), Outcome.andThen_halt]
      exact .spoiled (requests_answered _ _ _) (by rw [← hl, ← requests_answered])
        (congrArg (fun o : Outcome Halt (List Word) (List Ptr) ↦ o.toOption.map fun dsts ↦
          some (ofInt (judge resp).status, recvfromBacks r dsts)) ho)

theorem exchange_recvmsg (r : SyscallArgs) :
    Exchange env (fun v ↦ LindCall.reply env w.tracee.mem r v .recvmsg) (fun _ ↦ []) w.requests
      w.mappings (monitorRecvmsg r env w) := by
  refine .fetch_bind rfl fun view log hview ↦ .fetch_bind rfl fun request log' _ ↦
    .lindCall_bind rfl fun v ↦ ⟨_, _, rfl, ?_, requests_answered _ _ _, mappings_answered _ _ _⟩
  have hv : msgView env w.tracee.mem r = view := by rw [msgView, hview]; rfl
  rw [← hv]
  rfl

/-- **One exchange.** Every emulation but `pread64` and `pwritev` asks at most once, and its result
is the reply to the answer. -/
theorem exchange_emulation {c : LindCall} (h : c.own = 1) (r : SyscallArgs) (env : Env)
    (w : World) :
    Exchange env (fun v ↦ c.reply env w.tracee.mem r v) (fun v ↦ c.entered r v) w.requests
      w.mappings (c.emulation r env w) := by
  cases c with
  | pread64 | pwritev => cases h
  | getuid | getpid | geteuid | getgid | getegid | rmdir | unlink | link | mkdir | chdir | fcntl
  | flock | listen | shutdown | write | bind | connect | sendto | setsockopt | sendmsg =>
    exact exchange_status
  | openat | access | dup | dup2 | dup3 | epoll_create1 | epoll_create | socket | accept =>
    rw [LindCall.emulation]
    exact exchange_descriptor
  | read | getdents | fstat | stat | statfs | fstatfs | poll | epoll_wait =>
    rw [LindCall.emulation]
    exact exchange_fill
  | getsockopt => exact exchange_getsockopt r
  | getsockname =>
    rw [LindCall.emulation, monitorGetsockname_apply]
    exact exchange_fillWith rfl rfl fun _ _ _ hdone ↦ by cases hdone; rfl
  | «open» => exact .fetch_bind rfl fun _ _ _ ↦ exchange_enter rfl rfl
  | socketpair => exact exchange_socketpair r
  | close =>
    rw [LindCall.emulation, monitorClose]
    split
    · exact exchange_status
    · exact .idle rfl rfl
  | getcwd => exact .fetch_bind rfl fun _ _ _ ↦ .idle rfl rfl
  | getpeername => exact .idle rfl rfl
  | lseek => exact exchange_lseek r
  | epoll_ctl =>
    exact .fetch_bind rfl fun _ _ _ ↦ .lindCall_bind rfl fun _ ↦
      ⟨_, _, rfl, rfl, requests_answered _ _ _, mappings_answered _ _ _⟩
  | recvfrom => exact exchange_recvfrom r
  | recvmsg => exact exchange_recvmsg r
  | select => exact exchange_select r

end Exchange

end ReferenceMonitor
