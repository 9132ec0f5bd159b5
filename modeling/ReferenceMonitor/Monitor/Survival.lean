import ReferenceMonitor.Monitor.Conversation
import ReferenceMonitor.Monitor.Destinations
import ReferenceMonitor.Monitor.Reading

/-!
# What an emulation survives

An emulation returns exactly where what it reads can be read (`LindCall.Readable`), Lind has
answered each of its requests, and the payload of each success has been taken by the buffer meant
for it (`LindCall.TakesOf`). Nothing else ends the monitor there: not an error, not an answer
without the attributes it should have, not a negative descriptor and not an address the tracee has
not mapped.
-/

namespace ReferenceMonitor

open Halting

/-! ### What is read and taken -/

/-- What the emulation reads before it asks Lind, it can read. -/
def LindCall.Readable (env : Env) (m : ByteMemory) (r : SyscallArgs) : LindCall → Prop
  | rmdir | unlink | mkdir | chdir | .open | access | stat | statfs | getcwd => PathEnds m r.arg1
  | openat => PathEnds m r.arg2
  | link => PathEnds m r.arg1 ∧ PathEnds m r.arg2
  | write | sendto | pread64 | pwritev => CountFits r.arg3
  -- `F_SETLK`, with an argument that was not passed
  | fcntl => cInt r.arg2 = 6 → env.OwnsString env.vararg sizeofFlock
  -- the length behind the tracee's pointer, in the monitor's memory
  | accept => env.Owns r.arg3 4
  | getsockopt => env.Owns r.arg5 4
  | recvmsg => MsgReadable env m r
  | sendmsg => MsgReadable env m r ∧ DataFits env (msgView env m r) (msgView env m r).iovlen.toNat
  | _ => True

/-- The payload of a success in answer to one of the requests of an emulation is taken. Around the
transfer of `pread64` and `pwritev` there are requests for `lseek`, with a payload for a local
variable of `lind_lseek`. -/
def LindCall.TakesOf (env : Env) (m : ByteMemory) (r : SyscallArgs) (c : LindCall) (q : Request)
    (data : List Byte) : Prop :=
  if c.own = 3 ∧ q.num = LIND_safe_fs_lseek then Fits 8 8 data else c.Takes env m r data

/-- Lind has answered the newest request, and the payload of a success is taken. -/
def Answered (takes : Request → List Byte → Prop) (env : Env) (sent : List Request) : Prop :=
  ∃ q resp, sent.head? = some q ∧ env.lind sent = some resp ∧
    ∀ code data, judge resp = .success code data → takes q data

/-- It returns exactly where `P` holds and Lind has answered all that it has asked. -/
abbrev Survives (takes : Request → List Byte → Prop) (env : Env) (m : ByteMemory) (P : Prop)
    {α : Type} (x : M α) : Prop :=
  Endures World.requests (Answered takes env) (fun w ↦ w.tracee.mem = m) env P x

section Survival

variable {takes : Request → List Byte → Prop} {env : Env} {m : ByteMemory} {P Q : Prop}

/-! ### The wrappers -/

theorem survives_fetch {α : Type} {q : Fetch α} (hq : ReturnsIff (env, m) P q) :
    Survives takes env m P (fetch q) := by
  refine endures_of_sameLog fun w hw ↦ ?_
  subst hw
  have h := hq []
  cases hd : q (env, w.tracee.mem) [] with
  | done a log =>
    rw [fetch_done hd]
    rw [hd] at h
    exact ⟨rfl, rfl, h⟩
  | halt e log =>
    rw [fetch_halt hd]
    rw [hd] at h
    exact ⟨rfl, rfl, h⟩

/-- Reading, and what follows with what was read. -/
theorem survives_fetch_bind {α β : Type} {q : Fetch α} {f : α → M β} (hq : ReturnsIff (env, m) P q)
    (hf : ∀ a log, q (env, m) [] = .done a log → Survives takes env m Q (f a)) :
    Survives takes env m (P ∧ Q) (fetch q >>= f) := by
  refine (survives_fetch hq).bind_done fun a w t hw hdone ↦ ?_
  subst hw
  cases hd : q (env, w.tracee.mem) [] with
  | done b log =>
    rw [fetch_done hd] at hdone
    cases hdone
    exact hf a log hd
  | halt e log =>
    rw [fetch_halt hd] at hdone
    cases hdone

/-- What follows always returns. -/
theorem survives_fetch_bind_true {α β : Type} {q : Fetch α} {f : α → M β}
    (hq : ReturnsIff (env, m) P q)
    (hf : ∀ a log, q (env, m) [] = .done a log → Survives takes env m True (f a)) :
    Survives takes env m P (fetch q >>= f) :=
  (survives_fetch_bind hq hf).congr (and_iff_left trivial)

theorem mem_answered (r : Request) (v : Verdict) (w : World) :
    (w.answered r v).tracee.mem = w.tracee.mem := by cases v <;> rfl

/-- An exchange whose outcome the verdict decides. -/
theorem survives_exchange {α : Type} {q : Request} {x : M α} (taken : Verdict → Prop)
    (htaken : ∀ v, taken v ↔ ∀ code data, v = .success code data → takes q data)
    (hstate : ∀ w, w.tracee.mem = m → (x env w).state.tracee.mem = m ∧
      (x env w).state.requests = q :: w.requests)
    (hret : ∀ w, w.tracee.mem = m →
      ((x env w).Returns ↔ ∃ v, verdictOn env w q = some v ∧ taken v)) :
    Survives takes env m True x := by
  intro w hw
  refine ⟨(hstate w hw).1, [q], (hstate w hw).2, (hret w hw).trans ?_⟩
  rw [true_and, approved_singleton, Answered, verdictOn]
  cases env.lind (q :: w.requests) with
  | none => simp
  | some resp => simp [htaken]

/-- A request without a destination for the payload. -/
theorem survives_lindCall {q : Request} (htakes : ∀ data, takes q data) :
    Survives takes env m True (lindCall q) := by
  refine survives_exchange (q := q) (fun _ ↦ True)
    (fun v ↦ iff_of_true trivial fun _ data _ ↦ htakes data) (fun w hw ↦ ?_) fun w _ ↦ ?_
  · subst hw
    rw [lindCall_apply]
    cases verdictOn env w q with
    | none => exact ⟨rfl, rfl⟩
    | some v => exact ⟨mem_answered q v w, requests_answered q v w⟩
  · rw [lindCall_apply]
    cases verdictOn env w q with
    | none => simp
    | some v => simp

/-- A request with a block for the payload. -/
theorem survives_lindCallInto {q : Request} {b : Block} {maxlen : ℤ}
    (htakes : ∀ data, takes q data ↔ Fits b.cells.length maxlen data) :
    Survives takes env m True (lindCallInto q b maxlen) := by
  refine survives_exchange (q := q) (fun v ↦ (received env b maxlen v).isSome) (fun v ↦ ?_)
    (fun w hw ↦ ?_) fun w _ ↦ ?_
  · cases v with
    | success code data => simp [isSome_received_iff, htakes]
    | failed | error => simp [received]
  · subst hw
    rw [lindCallInto_apply]
    cases verdictOn env w q with
    | none => exact ⟨rfl, rfl⟩
    | some v =>
      dsimp only
      cases received env b maxlen v <;> exact ⟨mem_answered q v w, requests_answered q v w⟩
  · rw [lindCallInto_apply]
    cases verdictOn env w q with
    | none => simp
    | some v =>
      dsimp only
      cases hb : received env b maxlen v <;> simp [hb]

/-- `recvfrom`, with three destinations. -/
theorem survives_monitorRecvfrom {r : SyscallArgs}
    (htakes : ∀ data, takes (recvfromRequest r) data ↔
      LindCall.Takes env m r data .recvfrom) :
    Survives takes env m True (monitorRecvfrom r) := by
  have hreturns (v : Verdict) : ReturnsIff (env, m)
      (∀ code data, v = .success code data → takes (recvfromRequest r) data)
      (recvfromReceived r v) := by
    cases v with
    | failed | error => exact (returnsIff_pure _).congr (iff_of_true trivial (by rintro _ _ ⟨⟩))
    | success code data =>
      refine ReturnsIff.congr (P := LindCall.Takes env m r data .recvfrom) ?_ ?_
      · exact fun log ↦ returns_copyMultiLoop_iff _ _ _ _ _ _ _
      · rw [← htakes]
        exact ⟨fun h _ _ heq ↦ by cases heq; exact h, fun h ↦ h code data rfl⟩
  refine survives_exchange (q := recvfromRequest r)
    (fun v ↦ (recvfromReceived r v (env, m) []).Returns) (fun v ↦ hreturns v []) (fun w hw ↦ ?_)
    fun w hw ↦ ?_
  · rw [monitorRecvfrom_apply]
    cases verdictOn env w (recvfromRequest r) with
    | none => exact ⟨hw, rfl⟩
    | some v =>
      have hmem := (mem_answered (recvfromRequest r) v w).trans hw
      have hsent := requests_answered (recvfromRequest r) v w
      dsimp only
      cases ho : recvfromReceived r v (env, m) [] with
      | done dsts log =>
        rw [fetch_done (by rw [hmem, ho]), Outcome.andThen_done]
        exact ⟨hmem, hsent⟩
      | halt e log =>
        rw [fetch_halt (by rw [hmem, ho])]
        exact ⟨hmem, hsent⟩
  · rw [monitorRecvfrom_apply]
    cases verdictOn env w (recvfromRequest r) with
    | none => exact iff_of_false id fun ⟨v, hv, _⟩ ↦ by cases hv
    | some v =>
      have hmem := (mem_answered (recvfromRequest r) v w).trans hw
      dsimp only
      rw [show (∃ v', some v = some v' ∧ (recvfromReceived r v' (env, m) []).Returns) ↔
        (recvfromReceived r v (env, m) []).Returns by simp]
      cases ho : recvfromReceived r v (env, m) [] with
      | done dsts log =>
        rw [fetch_done (by rw [hmem, ho])]
        exact iff_of_true trivial trivial
      | halt e log =>
        rw [fetch_halt (by rw [hmem, ho])]
        exact iff_of_false id id

/-! ### The families of emulations -/

theorem survives_lindLseek {fd whence : ℤ} {offset : Word}
    (htakes : ∀ args data, takes ⟨LIND_safe_fs_lseek, args⟩ data ↔ Fits 8 8 data) :
    Survives takes env m True (lindLseek fd offset whence) :=
  (survives_lindCallInto fun data ↦ (htakes _ data).trans (by rw [length_malloc])).bind_true
    fun _ ↦ (endures_pure _).ite (endures_ask.bind_true fun _ ↦ endures_pure _)

/-- A transfer at a position. -/
theorem survives_positioned {α : Type} {fd : ℤ} {offset : Word} {x : M α}
    (htakes : ∀ args data, takes ⟨LIND_safe_fs_lseek, args⟩ data ↔ Fits 8 8 data)
    (hx : Survives takes env m True x) : Survives takes env m True (positioned fd offset x) :=
  (survives_lindLseek htakes).bind_true fun _ ↦ (survives_lindLseek htakes).bind_true fun _ ↦
    hx.bind_true fun _ ↦ (survives_lindLseek htakes).bind_true fun _ ↦ endures_pure _

theorem survives_status {q : Fetch Request} (hq : ReturnsIff (env, m) P q)
    (htakes : ∀ q data, takes q data) : Survives takes env m P (status q) :=
  (survives_fetch hq).bind_true fun q ↦
    (survives_lindCall (htakes q)).bind_true fun _ ↦ endures_pure _

theorem survives_enterDescriptor (r : SyscallArgs) (otherwise : Result) (fd : ℤ) :
    Survives takes env m True (enterDescriptor r otherwise fd) := by
  have hadd : Survives takes env m True (addMapping (cInt r.retval) fd) :=
    (endures_pure _).ite (endures_modify (fun _ h ↦ h) fun _ ↦ rfl)
  exact (hadd.bind_true fun _ ↦ endures_pure _).ite (endures_pure _)

theorem survives_descriptor {q : SyscallArgs → Fetch Request} {r : SyscallArgs}
    (hq : ReturnsIff (env, m) P (q r)) (htakes : ∀ q data, takes q data) :
    Survives takes env m P (descriptor q r) :=
  (survives_fetch hq).bind_true fun q ↦ (survives_lindCall (htakes q)).bind_true fun _ ↦
    survives_enterDescriptor r _ _

theorem survives_fillWith {size : ℕ} {dst count : Word} {q : Block → Fetch (Request × ℤ)}
    {limit : ℤ} (hq : ReturnsIff (env, m) P (q (malloc 0 size)))
    (hlimit : ∀ request n log, q (malloc 0 size) (env, m) [] = .done (request, n) log → n = limit)
    (htakes : ∀ q data, takes q data ↔ Fits size limit data) :
    Survives takes env m P (fillWith size dst count q) := by
  refine survives_fetch_bind_true hq fun ⟨request, n⟩ log hdone ↦ ?_
  rw [hlimit request n log hdone]
  exact (survives_lindCallInto fun data ↦ (htakes request data).trans
    (by rw [length_malloc])).bind_true fun _ ↦ endures_pure _

theorem survives_fill {o : Output} {q : Block → Fetch Request}
    (hq : ReturnsIff (env, m) P (q (malloc 0 o.size)))
    (htakes : ∀ q data, takes q data ↔ Fits o.size o.limit data) :
    Survives takes env m P (fill o q) := by
  refine survives_fillWith (hq.bind_pure _) (fun request n log hdone ↦ ?_) htakes
  obtain ⟨a, t, -, ha⟩ := Outcome.andThen_eq_done_iff.1 hdone
  cases ha
  rfl

/-! ### Every emulation -/

variable (env m) (r : SyscallArgs)

theorem takesOf_of_own {c : LindCall} (h : c.own = 1) (q : Request) (data : List Byte) :
    c.TakesOf env m r q data ↔ c.Takes env m r data := by
  rw [LindCall.TakesOf, h]
  exact Iff.rfl

/-- The requests for `lseek` around a transfer. -/
theorem takesOf_lseek {c : LindCall} (h : c.own = 3) (args : List PyVal) (data : List Byte) :
    c.TakesOf env m r ⟨LIND_safe_fs_lseek, args⟩ data ↔ Fits 8 8 data := by
  rw [LindCall.TakesOf, if_pos ⟨h, rfl⟩]

theorem takesOf_of_ne {c : LindCall} {q : Request} (h : q.num ≠ LIND_safe_fs_lseek)
    (data : List Byte) : c.TakesOf env m r q data ↔ c.Takes env m r data := by
  rw [LindCall.TakesOf, if_neg fun hc ↦ h hc.2]

theorem survives_monitorPread64 :
    Survives (LindCall.pread64.TakesOf env m r) env m (CountFits r.arg3) (monitorPread64 r) := by
  refine survives_fetch_bind_true (returnsIff_getMem _ _ _) fun buf log hbuf ↦ ?_
  have hlen : buf.cells.length = 8 * (r.arg3.toNat / 8 + 1) := by
    have hfits : CountFits r.arg3 :=
      (returnsIff_getMem 0 r.arg2 r.arg3 []).1 (Outcome.returns_iff.2 ⟨_, _, hbuf⟩)
    rw [getMem_apply hfits] at hbuf
    cases hbuf
    exact length_memBlock ..
  have hread : Survives (LindCall.pread64.TakesOf env m r) env m True
      (lindCallInto (lindRead (cInt r.arg1) (cInt r.arg3)) buf (cInt r.arg3)) :=
    survives_lindCallInto fun data ↦ by
      rw [takesOf_of_ne env m r (show LIND_safe_fs_read ≠ LIND_safe_fs_lseek by decide), hlen]
      exact Iff.rfl
  rw [lindPread_eq_positioned]
  exact (survives_positioned (takesOf_lseek env m r rfl) hread).bind_true fun _ ↦ endures_pure _

theorem survives_monitorPwritev :
    Survives (LindCall.pwritev.TakesOf env m r) env m (CountFits r.arg3) (monitorPwritev r) := by
  refine (survives_fetch (returnsIff_getMem _ _ _)).bind_true fun data ↦ ?_
  have hwrite : Survives (LindCall.pwritev.TakesOf env m r) env m True (do
      lindCall (← fetch (lindWrite (cInt r.arg1) (.block data) (cInt r.arg3)))) := by
    refine survives_fetch_bind_true ((returnsIff_pyBytes_block _ _).bind_pure _)
      fun request log hrequest ↦ survives_lindCall fun data' ↦ ?_
    have hnum : request.num = LIND_safe_fs_write :=
      (yields_lindWrite r.arg1 data (cInt r.arg3) hrequest).1
    refine (takesOf_of_ne env m r ?_ data').2 trivial
    rw [hnum]
    decide
  rw [lindPwrite_eq_positioned]
  exact (survives_positioned (takesOf_lseek env m r rfl) hwrite).bind_true fun _ ↦ endures_pure _

theorem survives_monitorSocketpair :
    Survives (LindCall.socketpair.TakesOf env m r) env m True (monitorSocketpair r) := by
  refine survives_fetch_bind_true (returnsIff_getMem_of_fits 0 r.arg4 (by decide))
    fun fds log hfds ↦ ?_
  rw [getMem_apply (by decide)] at hfds
  cases hfds
  refine (survives_lindCallInto fun data ↦ ?_).bind_true fun _ ↦ survives_enterDescriptor r _ _
  rw [length_memBlock]
  exact takesOf_of_own env m r rfl _ data

theorem survives_monitorGetsockname :
    Survives (LindCall.getsockname.TakesOf env m r) env m True (monitorGetsockname r) := by
  intro w hw
  subst hw
  rw [monitorGetsockname_apply]
  refine survives_fillWith (returnsIff_pure _) (fun _ _ _ hdone ↦ ?_)
    (fun q data ↦ takesOf_of_own env _ r rfl q data)
    { w with regs.arg3 := env.heapAddr 1 } rfl
  cases hdone
  rfl

theorem survives_monitorGetsockopt :
    Survives (LindCall.getsockopt.TakesOf env m r) env m (env.Owns r.arg5 4)
      (monitorGetsockopt r) := by
  refine survives_fillWith ((returnsIff_derefSocklen_foreign _).bind_pure _)
    (fun request n log hdone ↦ ?_) fun q data ↦ takesOf_of_own env m r rfl q data
  obtain ⟨a, t, hd, ha⟩ := Outcome.andThen_eq_done_iff.1 hdone
  cases ha
  rw [ownSocklen, hd]
  rfl

theorem survives_monitorRecvmsg :
    Survives (LindCall.recvmsg.TakesOf env m r) env m (MsgReadable env m r) (monitorRecvmsg r) := by
  refine (survives_fetch_bind (returnsIff_readMsghdr r) fun v log hv ↦ ?_).congr (msgReadable_iff r)
  rw [eq_msgView hv]
  exact (survives_fetch (returnsIff_lindRecvmsg _ _ _)).bind_true fun q ↦
    (survives_lindCall fun data ↦
      (takesOf_of_own env m r (c := .recvmsg) rfl q data).2 trivial).bind_true fun _ ↦
      endures_ask.bind_true fun _ ↦ endures_pure _

theorem survives_monitorSelect :
    Survives (LindCall.select.TakesOf env m r) env m True (monitorSelect r) := by
  have hread (number : ℕ) (addr : Word) {count : Word} (h : CountFits count) :
      Survives (LindCall.select.TakesOf env m r) env m True (fetch (getMem number addr count)) :=
    survives_fetch (returnsIff_getMem_of_fits number addr h)
  refine (hread _ _ (by decide)).true_bind fun _ ↦ (hread _ _ (by decide)).true_bind fun _ ↦
    (hread _ _ (by decide)).true_bind fun _ ↦ (hread _ _ (by decide)).true_bind fun _ ↦ ?_
  refine Endures.bind_true (endures_ask.true_bind fun _ ↦ Endures.bind_true
    (survives_lindCallInto fun data ↦ ?_) fun _ ↦ (endures_pure _).ite (endures_pure _))
    fun _ ↦ endures_pure _
  rw [length_malloc]
  exact takesOf_of_own env m r rfl _ data

/-- **What an emulation survives.** It returns exactly where it can read what it reads, and Lind has
answered its requests with payloads that their buffers take. -/
theorem survives_emulation (c : LindCall) :
    Survives (c.TakesOf env m r) env m (c.Readable env m r) (c.emulation r) := by
  have htrue (h : c.own = 1) (htakes : ∀ data, c.Takes env m r data) (q : Request)
      (data : List Byte) : c.TakesOf env m r q data :=
    (takesOf_of_own env m r h q data).2 (htakes data)
  have hfits (h : c.own = 1) {size : ℕ} {limit : ℤ}
      (htakes : ∀ data, c.Takes env m r data ↔ Fits size limit data) (q : Request)
      (data : List Byte) : c.TakesOf env m r q data ↔ Fits size limit data :=
    (takesOf_of_own env m r h q data).trans (htakes data)
  cases c with
  | getuid | getpid | geteuid | getgid | getegid | flock | listen | shutdown =>
    exact survives_status (returnsIff_pure _) (htrue rfl fun _ ↦ trivial)
  | rmdir | unlink | mkdir | chdir =>
    exact survives_status ((returnsIff_getPath _).bind_pure _) (htrue rfl fun _ ↦ trivial)
  | link =>
    exact survives_status ((returnsIff_getPath _).bind fun _ _ _ _ ↦
      (returnsIff_getPath _).bind_pure _) (htrue rfl fun _ ↦ trivial)
  | fcntl => exact survives_status (returnsIff_lindFcntl _ _) (htrue rfl fun _ ↦ trivial)
  | write =>
    exact survives_status ((returnsIff_getMem _ _ _).bind_true fun _ ↦
      (returnsIff_pyBytes_block _ _).bind_pure _) (htrue rfl fun _ ↦ trivial)
  | bind | connect | setsockopt =>
    exact survives_status ((returnsIff_getMem_of_fits _ _ (by decide)).true_bind fun _ ↦
      (returnsIff_pyBytes_block _ _).bind_pure _) (htrue rfl fun _ ↦ trivial)
  | sendto =>
    exact survives_status ((returnsIff_getMem _ _ _).bind_true fun _ ↦
      (returnsIff_getMem_of_fits _ _ (by decide)).true_bind fun _ ↦
        (returnsIff_pyBytes_block _ _).true_bind fun _ ↦ (returnsIff_pyBytes_block _ _).bind_pure _)
      (htrue rfl fun _ ↦ trivial)
  | sendmsg => exact survives_status (returnsIff_lindSendmsg _ _ r) (htrue rfl fun _ ↦ trivial)
  | close =>
    exact Endures.ite (survives_status (returnsIff_pure _) (htrue rfl fun _ ↦ trivial))
      (endures_pure _)
  | getcwd => exact (survives_fetch (returnsIff_getPath _)).bind_true fun _ ↦ endures_pure _
  | getpeername => exact endures_pure _
  | lseek =>
    exact (survives_lindLseek fun _ _ ↦ takesOf_of_own env m r rfl _ _).bind_true fun _ ↦
      endures_pure _
  | «open» =>
    exact (survives_fetch (returnsIff_getPath _)).bind_true fun _ ↦
      (survives_lindCall (htrue rfl (fun _ ↦ trivial) _)).bind_true fun _ ↦
        survives_enterDescriptor r _ _
  | openat | access =>
    rw [LindCall.emulation]
    exact survives_descriptor ((returnsIff_getPath _).bind_pure _) (htrue rfl fun _ ↦ trivial)
  | dup | dup2 | dup3 | epoll_create | epoll_create1 | socket =>
    rw [LindCall.emulation]
    exact survives_descriptor (returnsIff_pure _) (htrue rfl fun _ ↦ trivial)
  | accept =>
    rw [LindCall.emulation]
    exact survives_descriptor ((returnsIff_getMem_of_fits _ _ (by decide)).true_bind fun _ ↦
      (returnsIff_derefSocklen_foreign _).bind_true fun _ ↦
        (returnsIff_pyBytes_block _ _).bind_pure _) (htrue rfl fun _ ↦ trivial)
  | read | getdents | fstat | fstatfs | epoll_wait =>
    rw [LindCall.emulation]
    refine survives_fill ?_ (hfits rfl fun _ ↦ Iff.rfl)
    exact returnsIff_pure _
  | stat | statfs =>
    rw [LindCall.emulation]
    refine survives_fill ?_ (hfits rfl fun _ ↦ Iff.rfl)
    exact (returnsIff_getPath _).bind_pure _
  | poll =>
    rw [LindCall.emulation]
    refine survives_fill ?_ (hfits rfl fun _ ↦ Iff.rfl)
    exact (returnsIff_pyBytes_block _ _).bind_pure _
  | epoll_ctl =>
    exact (survives_fetch ((returnsIff_getMem_of_fits _ _ (by decide)).true_bind fun _ ↦
      (returnsIff_pyBytes_block _ _).bind_pure _)).bind_true fun _ ↦
        (survives_lindCall (htrue rfl (fun _ ↦ trivial) _)).bind_true fun _ ↦ endures_pure _
  | recvfrom => exact survives_monitorRecvfrom fun _ ↦ takesOf_of_own env m r rfl _ _
  | pread64 => exact survives_monitorPread64 env m r
  | pwritev => exact survives_monitorPwritev env m r
  | socketpair => exact survives_monitorSocketpair env m r
  | getsockname => exact survives_monitorGetsockname env m r
  | getsockopt => exact survives_monitorGetsockopt env m r
  | recvmsg => exact survives_monitorRecvmsg env m r
  | select => exact survives_monitorSelect env m r

end Survival

end ReferenceMonitor
