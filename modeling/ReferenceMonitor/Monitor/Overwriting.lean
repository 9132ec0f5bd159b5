import ReferenceMonitor.Monitor.Copies

/-!
# What a reply overwrites

At the exit stop of an emulated call the host kernel has executed the call, too: it has left a
result in `rax`, and may have written to the tracee's memory. What a reply puts in their place
depends on the answer, on the registers other than `rax`, and on memory only in three calls
(`reply_congr`): `monitor_getsockname` reads a length there and `monitor_recvmsg` a header, and
`monitor_select`, where it fails, copies back what it has read.

Some handlers have no result at all (`LindCall.Idle`), and leave `rax` as the kernel did.
-/

namespace ReferenceMonitor

open Halting

/-! ### Emulations without a result -/

/-- The calls whose handler ends without asking Lind and without `set_args`. -/
def LindCall.Idle (r : SyscallArgs) : LindCall → Prop
  | getcwd | getpeername => True
  | close => cInt r.arg1 < 0
  | _ => False

/-- The result is one for `set_args`. -/
abbrev Replies (x : M Result) : Prop := Yields (fun res ↦ res ≠ none) x

theorem replies_some (ret : Word) (bs : List CopyBack) : Replies (pure (some (ret, bs))) :=
  yields_pure (Option.some_ne_none _)

theorem replies_status (q : Fetch Request) : Replies (status q) :=
  yields_bind fun _ ↦ yields_bind fun _ ↦ replies_some _ _

theorem replies_enterDescriptor (r : SyscallArgs) (ret : Word) (fd : ℤ) :
    Replies (enterDescriptor r (some (ret, [])) fd) :=
  (yields_bind fun _ ↦ replies_some _ _).ite (replies_some _ _)

theorem replies_descriptor (q : SyscallArgs → Fetch Request) (r : SyscallArgs) :
    Replies (descriptor q r) :=
  yields_bind fun _ ↦ yields_bind fun _ ↦ replies_enterDescriptor _ _ _

theorem replies_fillWith (size : ℕ) (dst count : Word) (q : Block → Fetch (Request × ℤ)) :
    Replies (fillWith size dst count q) :=
  yields_bind fun _ ↦ yields_bind fun _ ↦ replies_some _ _

theorem replies_fill (o : Output) (q : Block → Fetch Request) : Replies (fill o q) :=
  replies_fillWith _ _ _ _

theorem replies_emulation {c : LindCall} {r : SyscallArgs} (h : ¬ c.Idle r) (hopen : c ≠ .open) :
    Replies (c.emulation r) := by
  cases c with
  | «open» => exact absurd rfl hopen
  | getcwd | getpeername => exact absurd trivial h
  | close =>
    rw [LindCall.emulation, monitorClose, if_pos (not_lt.1 h)]
    exact replies_status _
  | getuid | getpid | geteuid | getgid | getegid | rmdir | unlink | link | mkdir | chdir | fcntl
  | flock | listen | shutdown | write | bind | connect | sendto | setsockopt | sendmsg =>
    exact replies_status _
  | openat | access | dup | dup2 | dup3 | epoll_create1 | epoll_create | socket | accept =>
    rw [LindCall.emulation]
    exact replies_descriptor _ r
  | read | getdents | fstat | stat | statfs | fstatfs | poll | epoll_wait =>
    rw [LindCall.emulation]
    exact replies_fill _ _
  | getsockopt =>
    rw [LindCall.emulation, monitorGetsockopt]
    exact replies_fillWith _ _ _ _
  | getsockname =>
    exact yields_bind fun _ ↦ yields_bind fun _ ↦ yields_bind fun _ ↦ replies_fillWith _ _ _ _
  | socketpair => exact yields_bind fun _ ↦ yields_bind fun _ ↦ replies_enterDescriptor _ _ _
  | recvmsg =>
    exact yields_bind fun _ ↦ yields_bind fun _ ↦ yields_bind fun _ ↦ yields_bind fun _ ↦
      replies_some _ _
  | select =>
    exact yields_bind fun _ ↦ yields_bind fun _ ↦ yields_bind fun _ ↦ yields_bind fun _ ↦
      yields_bind fun _ ↦ replies_some _ _
  | epoll_ctl | pread64 | pwritev => exact yields_bind fun _ ↦ yields_bind fun _ ↦ replies_some _ _
  | lseek | recvfrom => exact yields_bind fun _ ↦ replies_some _ _

/-! ### Replies in two memories -/

section Reply

variable {env : Env} {m m' : ByteMemory} {r : SyscallArgs} {c : LindCall} {v : Verdict}

/-- The reply does not depend on the native `rax`. -/
theorem reply_rax (env : Env) (m : ByteMemory) (g : UserRegs) (rax : Word) (v : Verdict)
    (c : LindCall) :
    c.reply env m (argsOf { g with rax := rax }) v = c.reply env m (argsOf g) v := by
  cases c <;> rfl

theorem ownSocklen_congr {env env' : Env} (m m' : ByteMemory) (a : Word)
    (h : env'.own = env.own) : ownSocklen env' m' a = ownSocklen env m a := by
  rw [ownSocklen, ownSocklen]
  simp only [derefSocklen, loadForeign, noteForeign, loadOwn, bind_apply, modify_apply, ask_apply,
    Outcome.andThen_done, h]
  cases (List.range 4).mapM fun i ↦ env.own (a + BitVec.ofNat 64 i) <;> rfl

theorem recvfromReceived_congr {env env' : Env} (m m' : ByteMemory) (r : SyscallArgs) (v : Verdict)
    (h : env'.tail = env.tail) :
    recvfromReceived r v (env', m') [] = recvfromReceived r v (env, m) [] := by
  have hlock : Lockstep (fun p p' : Env × ByteMemory ↦ p'.1.tail = p.1.tail) Eq Eq
      (recvfromReceived r v) (recvfromReceived r v) := lockstep_recvfromReceived (fun _ _ h ↦ h) r v
  have halike : Alike Eq Eq (recvfromReceived r v (env, m) [])
      (recvfromReceived r v (env', m') []) := hlock h rfl
  exact halike.eq.symm

/-! ### Other answers -/

theorem getMem_congr (env env' : Env) (number : ℕ) (addr count : Word) (m : ByteMemory)
    (log : List Word) :
    getMem number addr count (env', m) log = getMem number addr count (env, m) log := by
  simp only [getMem, bind_apply, ask_apply, Outcome.andThen_done]
  split <;> rfl

/-- In lockstep with a run in which Lind answers differently. -/
abbrev Unasked {α : Type} (lind : List Request → Option Response) (q : Fetch α) : Prop :=
  Lockstep (fun p p' ↦ p' = ({ p.1 with lind := lind }, p.2)) Eq Eq q q

theorem unasked_getMem (lind : List Request → Option Response) (number : ℕ) (addr count : Word) :
    Unasked lind (getMem number addr count) := by
  rintro ⟨env, m⟩ _ log _ rfl rfl
  dsimp only
  rw [getMem_congr env { env with lind := lind }]
  cases getMem number addr count (env, m) log with
  | done b log => exact .done rfl rfl
  | halt e log => exact .halt rfl

theorem unasked_loadForeign (lind : List Request → Option Response) (a : Word) (n : ℕ) :
    Unasked lind (loadForeign a n) := by
  rintro ⟨env, m⟩ _ log _ rfl rfl
  simp only [loadForeign, noteForeign, loadOwn, bind_apply, modify_apply, ask_apply,
    Outcome.andThen_done]
  cases (List.range n).mapM fun i ↦ env.own (a + BitVec.ofNat 64 i) with
  | some bytes => exact .done rfl rfl
  | none => exact .halt rfl

theorem msgView_withLind (env : Env) (lind : List Request → Option Response) (m : ByteMemory)
    (r : SyscallArgs) : msgView { env with lind := lind } m r = msgView env m r := by
  have hlock : Unasked lind (readMsghdr r) := by
    refine (unasked_getMem lind _ _ _).bind ?_
    rintro msg _ rfl
    refine lockstep_ask_bind ?_
    rintro ⟨env, m⟩ _ rfl
    refine (unasked_loadForeign lind _ _).bind ?_
    rintro base _ rfl
    refine (unasked_getMem lind _ _ _).bind ?_
    rintro iovs _ rfl
    exact lockstep_pure rfl
  have halike : Alike Eq Eq (readMsghdr r (env, m) [])
      (readMsghdr r ({ env with lind := lind }, m) []) := hlock rfl rfl
  rw [msgView, msgView, halike.eq]

/-- The reply does not depend on what Lind answers to other requests. -/
theorem reply_withLind (env : Env) (lind : List Request → Option Response) (m : ByteMemory)
    (r : SyscallArgs) (v : Verdict) (c : LindCall) :
    c.reply { env with lind := lind } m r v = c.reply env m r v := by
  cases c with
  | recvfrom =>
    have hsame : recvfromReceived r v ({ env with lind := lind }, m) [] =
        recvfromReceived r v (env, m) [] := recvfromReceived_congr m m r v rfl
    simp only [LindCall.reply, hsame]
  | getsockopt =>
    have hsame : ownSocklen { env with lind := lind } m r.arg5 = ownSocklen env m r.arg5 :=
      ownSocklen_congr m m r.arg5 rfl
    simp only [LindCall.reply, LindCall.output, hsame]
    rfl
  | recvmsg =>
    rw [LindCall.reply, LindCall.reply, msgView_withLind]
    rfl
  | _ => rfl

/-! ### Other memories -/

/-- What the handler reads of the tracee to decide where it copies to, and how much. -/
def LindCall.SteeredAlike (env : Env) (m m' : ByteMemory) (r : SyscallArgs) : LindCall → Prop
  | getsockname => socklenAt m' r.arg3 = socklenAt m r.arg3
  | recvmsg => msgView env m' r = msgView env m r
  | _ => True

/-- Whether a payload is taken depends on the size of the buffer. -/
theorem map_received_const {α : Type} (x : α) {b b' : Block} (limit : ℤ) (v : Verdict)
    (h : b'.cells.length = b.cells.length) :
    ((received env b' limit v).map fun _ ↦ x) = (received env b limit v).map fun _ ↦ x := by
  cases v with
  | failed => rfl
  | error code => rfl
  | success code data =>
    rw [received, received, h]
    split <;> rfl

/-- The reply is the same in two memories that steer the handler alike, unless it is that of
`select`. -/
theorem reply_congr (hs : c.SteeredAlike env m m' r) (hselect : c ≠ .select) (v : Verdict) :
    c.reply env m' r v = c.reply env m r v := by
  cases c with
  | select => exact absurd rfl hselect
  | socketpair =>
    exact map_received_const _ _ _ (by rw [length_memBlock, length_memBlock])
  | pread64 =>
    exact map_received_const _ _ _ (by rw [length_memBlock, length_memBlock])
  | recvfrom =>
    have hsame : recvfromReceived r v (env, m') [] = recvfromReceived r v (env, m) [] :=
      recvfromReceived_congr m m' r v rfl
    simp only [LindCall.reply, hsame]
  | getsockopt =>
    have hsame : ownSocklen env m' r.arg5 = ownSocklen env m r.arg5 :=
      ownSocklen_congr m m' r.arg5 rfl
    simp only [LindCall.reply, LindCall.output, hsame]
  | getsockname =>
    rw [LindCall.SteeredAlike] at hs
    simp only [LindCall.reply, LindCall.output, hs]
  | recvmsg =>
    rw [LindCall.SteeredAlike] at hs
    simp only [LindCall.reply, hs]
  | _ => rfl

/-- A byte stored is the same in every block of one number. -/
theorem byteAt_store_congr (env : Env) {b b' : Block} {cells : List Cell} {o : ℤ}
    (hnum : b'.number = b.number) (ho : o < cells.length) :
    (b'.store cells).byteAt env o = (b.store cells).byteAt env o := by
  have hcell : (if 0 ≤ o then (b'.store cells).cells[o.toNat]? else none) =
      if 0 ≤ o then (b.store cells).cells[o.toNat]? else none := by
    split
    · rw [Block.store, Block.store, List.getElem?_append_left (by omega),
        List.getElem?_append_left (by omega)]
    · rfl
  have hnum' : (b'.store cells).number = (b.store cells).number := hnum
  rw [Block.byteAt, Block.byteAt, hcell, hnum']

/-- What `monitor_select` copies back of an answer does not depend on what it has read. -/
theorem agrees_selectFilled {result : Block} (hlen : result.cells.length = 400) (env : Env)
    (m m' : ByteMemory) (r : SyscallArgs) :
    List.Forall₂ (CopyBack.Agrees env env) (selectBacks r (selectFilled result (selectSets m r)))
      (selectBacks r (selectFilled result (selectSets m' r))) := by
  have hpart (dst : Word) (number n o size : ℕ) (hsize : o + size ≤ 400)
      (hcount : (BitVec.ofNat 64 size).toNat = size) :
      CopyBack.Agrees env env
        ⟨dst, (memBlock number m dst n).store ((result.cells.drop o).take size),
          BitVec.ofNat 64 size⟩
        ⟨dst, (memBlock number m' dst n).store ((result.cells.drop o).take size),
          BitVec.ofNat 64 size⟩ := by
    refine ⟨rfl, rfl, fun i hi ↦ byteAt_store_congr env rfl ?_⟩
    dsimp only at hi
    rw [hcount] at hi
    rw [List.length_take, List.length_drop]
    omega
  exact .cons (hpart _ 0 17 16 sizeofFdSet (by decide) (by decide))
    (.cons (hpart _ 1 17 144 sizeofFdSet (by decide) (by decide))
      (.cons (hpart _ 2 17 272 sizeofFdSet (by decide) (by decide))
        (.cons (hpart _ 3 3 0 sizeofTimeval (by decide) (by decide)) .nil)))

/-! ### What is overwritten -/

/-- The words of the tracee that a reply overwrites with what does not come from its memory. -/
def LindCall.overwritten (env : Env) (m : ByteMemory) (r : SyscallArgs) (v : Verdict)
    (c : LindCall) : List Word :=
  if c = .select ∧ v.status < 0 then [] else c.copiedWords env m r v

theorem agrees_refl (env : Env) (bs : List CopyBack) :
    List.Forall₂ (CopyBack.Agrees env env) bs bs :=
  List.forall₂_same.2 fun _ _ ↦ ⟨rfl, rfl, fun _ _ ↦ rfl⟩

theorem copiedWords_eq {res : Result} (h : c.reply env m r v = some res) :
    c.copiedWords env m r v = (backsOf res).flatMap fun b ↦ copyWords b.dst b.count := by
  rw [LindCall.copiedWords, ← addr_slots_of_describes (m := m) (describes_of_reply h), addr_slots,
    List.flatMap_map]
  rfl

/-- Two memories that differ in no byte are equal. -/
theorem eq_of_sameMap (hmap : m.SameMap m') (h : ∀ x, m.byte x = m'.byte x) : m' = m :=
  ByteMemory.ext (funext fun x ↦ (h x).symm) hmap.2.symm

/-- **Overwriting.** Where two memories differ only in what the replies overwrite, the replies leave
the same memory, and the same value for `rax`. -/
theorem copyMem_reply_congr (hmap : m.SameMap m') (hs : c.SteeredAlike env m m' r)
    {res res' : Result} (hres : c.reply env m r v = some res)
    (hres' : c.reply env m' r v = some res')
    (hoff : ∀ x, m.byte x ≠ m'.byte x →
      ∃ a ∈ c.overwritten env m r v, m.Pokeable a ∧ InWord a x) :
    res'.map Prod.fst = res.map Prod.fst ∧
      copyMem env m' (backsOf res') = copyMem env m (backsOf res) := by
  rw [LindCall.overwritten] at hoff
  by_cases hfail : c = .select ∧ v.status < 0
  · -- the sets are copied back as they were read
    have hm : m' = m := eq_of_sameMap hmap fun x ↦ by
      by_contra hne
      obtain ⟨a, ha, -⟩ := hoff x hne
      rw [if_pos hfail] at ha
      exact absurd ha List.not_mem_nil
    subst hm
    obtain rfl : res = res' := Option.some.inj (hres.symm.trans hres')
    exact ⟨rfl, rfl⟩
  rw [if_neg hfail, copiedWords_eq hres] at hoff
  by_cases hselect : c = .select
  · -- the blocks differ, as they hold what was read behind the sets, but not in what is copied
    subst hselect
    have hv : ¬ v.status < 0 := fun hv ↦ hfail ⟨rfl, hv⟩
    obtain ⟨result, hresult, rfl⟩ := Option.map_eq_some_iff.1 hres
    obtain ⟨result', hresult', rfl⟩ := Option.map_eq_some_iff.1 hres'
    obtain rfl : result = result' := Option.some.inj (hresult.symm.trans hresult')
    refine ⟨by rw [Option.map_some, Option.map_some], copyMem_eq_of_agrees hmap ?_ hoff⟩
    have hlen := (filled_received hresult).length_eq
    rw [length_malloc] at hlen
    simp only [backsOf, Option.map_some, Option.getD_some, if_neg hv]
    exact agrees_selectFilled hlen env m m' r
  · rw [reply_congr hs hselect] at hres'
    obtain rfl : res = res' := Option.some.inj (hres.symm.trans hres')
    exact ⟨rfl, copyMem_eq_of_agrees hmap (agrees_refl env _) hoff⟩

end Reply

end ReferenceMonitor
