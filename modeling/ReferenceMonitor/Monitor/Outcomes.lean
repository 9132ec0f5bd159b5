import ReferenceMonitor.Monitor.Intercept

/-!
# What the emulations return

Once its request is built, an emulation is decided by the verdict on Lind's answer. These are the
equations of the families, and of the emulations that are built from them, in terms of that verdict.
-/

namespace ReferenceMonitor

open Halting

/-! ### `finish` -/

/-- The tracee's memory after the copies of a handler. -/
def copyMem (env : Env) (m : ByteMemory) (bs : List CopyBack) : ByteMemory :=
  bs.foldl (fun m b ↦ writeMem m b.dst (b.block.wordAt env) b.count) m

@[simp] theorem copyMem_nil (env : Env) (m : ByteMemory) : copyMem env m [] = m := rfl

theorem copyBacks_apply (bs : List CopyBack) (env : Env) (w : World) :
    copyBacks bs env w = .done ()
      { w with
        tracee.mem := copyMem env w.tracee.mem bs
        trace := bs.reverse.map (fun b ↦ .setMem b.dst b.count) ++ w.trace } := by
  induction bs generalizing w with
  | nil => rfl
  | cons b bs ih =>
    have hset : setMem b.dst b.block b.count env w = .done ()
        { w with
          tracee.mem := writeMem w.tracee.mem b.dst (b.block.wordAt env) b.count
          trace := .setMem b.dst b.count :: w.trace } := rfl
    rw [copyBacks, bind_apply, hset, Outcome.andThen_done, ih]
    simp [copyMem]

/-- `set_args` writes the result and whatever `regs` holds; the copies go to the memory. -/
theorem finish_some_apply (ret : Word) (bs : List CopyBack) (env : Env) (w : World) :
    finish (some (ret, bs)) env w = .done ()
      { w with
        regs := { w.regs with retval := ret, user := { w.regs with retval := ret }.toRegs }
        tracee := ⟨{ w.regs with retval := ret }.toRegs, copyMem env w.tracee.mem bs⟩
        trace := bs.reverse.map (fun b ↦ .setMem b.dst b.count) ++ w.trace } := by
  rw [finish, bind_apply, setRetval, modify_apply, Outcome.andThen_done, bind_apply,
    copyBacks_apply]
  rfl

/-! ### The families -/

section Families

variable {env : Env} {w w₁ : World} {request : Request}

/-- `enterDescriptor`. -/
theorem enterDescriptor_apply (r : SyscallArgs) (otherwise : Option (Word × List CopyBack))
    (fd : ℤ) (env : Env) (w : World) :
    enterDescriptor r otherwise fd env w =
      if 0 ≤ fd then
        .done (some (ofInt fd, []))
          { w with mappings :=
              if 0 ≤ cInt r.retval then (cInt r.retval, fd) :: w.mappings else w.mappings }
      else .done otherwise w := by
  rw [enterDescriptor, ite_run]
  by_cases hfd : 0 ≤ fd
  · rw [if_pos hfd, if_pos hfd, bind_apply, addMapping, ite_run]
    by_cases hr : 0 ≤ cInt r.retval
    · rw [if_neg (by omega), if_pos hr]
      rfl
    · rw [if_pos (by omega), if_neg hr]
      rfl
  · rw [if_neg hfd, if_neg hfd]
    rfl

/-- `fillWith`, by the verdict. -/
theorem fillWith_apply {size : ℕ} {dst count : Word} {q : Block → Fetch (Request × ℤ)} {limit : ℤ}
    (hq : fetch (q (malloc 0 size)) env w = .done (request, limit) w₁) :
    fillWith size dst count q env w =
      match verdictOn env w₁ request with
      | none => .halt (.segv 0) (w₁.send request)
      | some v =>
        match received env (malloc 0 size) limit v with
        | none => .halt .corrupt (w₁.answered request v)
        | some b => .done (some (ofInt v.status, [⟨dst, b, count⟩])) (w₁.answered request v) := by
  simp only [fillWith, bind_apply, hq, Outcome.andThen_done, lindCallInto_apply]
  cases verdictOn env w₁ request with
  | none => rfl
  | some v =>
    dsimp only
    cases received env (malloc 0 size) limit v <;> rfl

end Families

/-! ### `getsockname` -/

/-- The length word at an address, as `monitor_getsockname` reads it. -/
def socklenAt (m : ByteMemory) (a : Word) : ℤ := cInt (peekData m a)

/-- The request of `monitor_getsockname`. -/
def getsocknameRequest (m : ByteMemory) (r : SyscallArgs) : Request :=
  ⟨LIND_safe_net_getsockname, [.int (cInt r.arg1), .int (socklenAt m r.arg3)]⟩

theorem fetch_getMem {number : ℕ} {addr count : Word} (h : count.toNat / 8 + 1 < 2 ^ 31) (env : Env)
    (w : World) :
    fetch (getMem number addr count) env w =
      .done (memBlock number w.tracee.mem addr (count.toNat / 8 + 1)) w :=
  fetch_done (getMem_apply h env w.tracee.mem [])

theorem intAt_memBlock_zero (env : Env) (number : ℕ) (m : ByteMemory) (addr : Word) {n : ℕ}
    (h : 0 < n) : (memBlock number m addr n).intAt env 0 = socklenAt m addr := by
  have hw := wordAt_memBlock env number m addr h
  have ha : wordAddr addr (0 : ℕ) = addr := by simp [wordAddr]
  rw [ha] at hw
  rw [Block.intAt, socklenAt, ← hw]
  rfl

/-- `monitor_getsockname` reads the length and leaves its address, and then fills a buffer. -/
theorem monitorGetsockname_apply (r : SyscallArgs) (env : Env) (w : World) :
    monitorGetsockname r env w =
      fillWith sizeofSockaddr r.arg2 (BitVec.ofNat 64 sizeofSockaddr)
        (fun _ ↦ pure (getsocknameRequest w.tracee.mem r, socklenAt w.tracee.mem r.arg3)) env
        { w with regs.arg3 := env.heapAddr 1 } := by
  have hq (w' : World) : fetch (lindGetsockname (cInt r.arg1)
      (.block (memBlock 1 w.tracee.mem r.arg3 1))) env w' =
      .done (getsocknameRequest w.tracee.mem r, socklenAt w.tracee.mem r.arg3) w' := by
    rw [lindGetsockname]
    simp only [derefSocklen, fetch, focus, bind_apply, ask_apply, pure_apply, Outcome.andThen_done,
      intAt_memBlock_zero env 1 w.tracee.mem r.arg3 Nat.one_pos]
    rfl
  rw [monitorGetsockname, bind_apply, fetch_getMem (by decide)]
  simp only [bind_apply, ask_apply, modify_apply, Outcome.andThen_done, number_memBlock]
  rw [fillWith_apply (hq _), fillWith_apply (fetch_pure _ _ _)]

/-! ### `recvfrom` -/

/-- The request of `monitor_recvfrom`. -/
def recvfromRequest (r : SyscallArgs) : Request :=
  ⟨LIND_safe_net_recvfrom,
    [.int (cInt r.arg1), .int (cInt r.arg3), .int (cInt r.arg4), .int (cInt r.arg6)]⟩

/-- The destinations of its response after the first one. -/
def recvfromBuffers (r : SyscallArgs) : List Dest :=
  [⟨.block (malloc 0 r.arg3.toNat), cInt r.arg3⟩,
    ⟨.block (malloc 1 r.arg6.toNat), sizeofSockaddr⟩]

/-- The destinations of its response. -/
def recvfromDests (r : SyscallArgs) : List Dest := ⟨.foreign r.arg6, 4⟩ :: recvfromBuffers r

/-- What `monitor_recvfrom` copies back of its destinations. -/
def recvfromBacks (r : SyscallArgs) (dsts : List Ptr) : List CopyBack :=
  let var := malloc 0 r.arg3.toNat
  let buff := malloc 1 r.arg6.toNat
  [⟨r.arg2, (dsts.getD 1 (.block var)).blockFrom var, r.arg3⟩,
    ⟨r.arg5, (dsts.getD 2 (.block buff)).blockFrom buff, r.arg6⟩]

/-- What the answer to `recvfrom` leaves in its destinations. -/
def recvfromReceived (r : SyscallArgs) : Verdict → Fetch (List Ptr)
  | .success _ data => copyPayload 3 data (recvfromDests r)
  | _ => pure ((recvfromDests r).map Dest.ptr)

/-- `monitor_recvfrom`, by the verdict. -/
theorem monitorRecvfrom_apply (r : SyscallArgs) (env : Env) (w : World) :
    monitorRecvfrom r env w =
      match verdictOn env w (recvfromRequest r) with
      | none => .halt (.segv 0) (w.send (recvfromRequest r))
      | some v =>
        (fetch (recvfromReceived r v) env
          (w.answered (recvfromRequest r) v)).andThen fun dsts t ↦
            .done (some (ofInt v.status, recvfromBacks r dsts)) t := by
  have hask : monitorRecvfrom r env w =
      ((parseResponse (env.lind (recvfromRequest r :: w.requests)) 3 (recvfromDests r) env
        (w.send (recvfromRequest r))).andThen fun res t ↦
          .done (some (ofInt res.1, recvfromBacks r res.2)) t) := by
    rw [monitorRecvfrom, lindRecvfrom, bind_apply, bind_apply]
    rw [show makeLindSysCall ⟨LIND_safe_net_recvfrom, [.int (cInt r.arg1), .int (cInt r.arg3),
      .int (cInt r.arg4), .int (cInt r.arg6)]⟩ env w =
        .done (env.lind (recvfromRequest r :: w.requests)) (w.send (recvfromRequest r)) from rfl]
    rw [Outcome.andThen_done, bind_apply, recvfromDests, recvfromBuffers]
    generalize parseResponse _ _ _ env _ = o
    cases o <;> rfl
  rw [hask, verdictOn]
  cases env.lind (recvfromRequest r :: w.requests) with
  | none => rfl
  | some resp =>
    simp only [Option.map_some, parseResponse]
    cases judge resp with
    | failed => rfl
    | error code => rfl
    | success code data =>
      simp only [bind_apply, setErrno, modify_apply, Outcome.andThen_done]
      simp only [World.answered, fetch, focus, recvfromReceived]
      generalize copyPayload 3 data (recvfromDests r) _ _ = o
      cases o <;> rfl

end ReferenceMonitor
